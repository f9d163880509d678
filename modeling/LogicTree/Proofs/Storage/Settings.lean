import LogicTree.Proofs.Json.Strings
import LogicTree.Proofs.Storage.Stages
import LogicTree.Proofs.Toml.Documents

/-! # Configurations, saved and loaded

A configuration that is saved is parsed again as itself, except for a tolerance that is no number,
of which nothing but that is kept. What is saved is not checked before, but what is loaded is: a
configuration that cannot be used is saved and then refused.
-/

namespace LogicTree

open Toml Storage

namespace Config

variable {config : Config} {text : String}

/-! ## The document of a configuration -/

/-- The lines of the document of a configuration. -/
def lines (config : Config) : List Line :=
  (match config.treeFile with
    | none => []
    | some file => [.entry "tree_file" (writeText file.toList) (.text file), .blank])
  ++ .header "sampling"
  :: ((match config.seed with
    | none => []
    | some seed => [.entry "seed" (Nat.toDigits 10 seed.toNat) (.integer seed.toNat)])
  ++ [.entry "weight_tolerance" (NumberLayout.settings.chars config.weightTolerance)
      (.real (readBack config.weightTolerance)), .blank, .header "logging",
    .entry "level" (writeText config.level.toList) (.text config.level)])

/-- Whether the seed of a configuration can be written: as a signed word. -/
def Fits (config : Config) : Prop :=
  ∀ seed, config.seed = some seed → seed.toNat < 9223372036854775808

theorem lines_of_toText (written : config.toText = .ok text) :
    config.Fits ∧ text = String.ofList (config.lines.flatMap Line.chars) := by
  obtain ⟨treeFile, seed, tolerance, level⟩ := config
  cases seed with
  | none =>
      refine ⟨nofun, ?_⟩
      cases written
      cases treeFile <;> simp [lines, Line.chars]
  | some seed =>
      by_cases small : seed.toNat < 9223372036854775808
      · have fits : Fits ⟨treeFile, some seed, tolerance, level⟩ := by
          rintro other same
          cases same
          exact small
        refine ⟨fits, ?_⟩
        simp only [toText, small, if_true] at written
        cases written
        cases treeFile <;> simp [lines, Line.chars]
      · simp only [toText, small, if_false] at written
        cases written

theorem isBare_keys :
    ∀ key ∈ ["tree_file", "sampling", "seed", "weight_tolerance", "logging", "level"],
      IsBare key := by
  intro key member
  simp only [List.mem_cons, List.not_mem_nil, or_false] at member
  obtain rfl | rfl | rfl | rfl | rfl | rfl := member <;>
    exact ⟨List.all_eq_true.1 rfl, nofun⟩

theorem isSound_lines (fits : config.Fits) : ∀ line ∈ config.lines, line.IsSound := by
  obtain ⟨treeFile, seed, tolerance, level⟩ := config
  intro line member
  simp only [lines, List.mem_append, List.mem_cons, List.not_mem_nil, or_false] at member
  obtain file | rfl | given | rfl | rfl | rfl | rfl := member
  · cases treeFile with
    | none => cases file
    | some name =>
        simp only [List.mem_cons, List.not_mem_nil, or_false] at file
        obtain rfl | rfl := file
        · exact ⟨isBare_keys _ (by simp), spells_text name⟩
        · trivial
  · exact isBare_keys _ (by simp)
  · cases seed with
    | none => cases given
    | some seed =>
        obtain rfl := List.mem_singleton.1 given
        exact ⟨isBare_keys _ (by simp), spells_integer (fits seed rfl)⟩
  · exact ⟨isBare_keys _ (by simp), spells_real tolerance⟩
  · trivial
  · exact isBare_keys _ (by simp)
  · exact ⟨isBare_keys _ (by simp), spells_text level⟩

/-- The configuration that is parsed from the document of another. -/
def parsed (config : Config) : Config :=
  { config with weightTolerance := readBack config.weightTolerance }

theorem setSeed_toNat (seed : UInt64) (config : Config) :
    setSeed (.integer seed.toNat) config = some { config with seed := some seed } := by
  simp [setSeed]

theorem readEntries_lines (config : Config) :
    ((Line.build [] [] config.lines).map finishEntries).bind
      (fun entries => readEntries setters entries {}) = some config.parsed := by
  obtain ⟨treeFile, seed, tolerance, level⟩ := config
  cases seed with
  | none => cases treeFile <;> rfl
  | some seed =>
      have given := setSeed_toNat seed
      cases treeFile with
      | none =>
          change (do
            let sampled ← (setSeed (.integer seed.toNat) {}).bind
              (setTolerance (.real (readBack tolerance)))
            setLevel (.text level) sampled) = _
          rw [given]
          rfl
      | some file =>
          change (do
            let sampled ← (setSeed (.integer seed.toNat) { treeFile := some file }).bind
              (setTolerance (.real (readBack tolerance)))
            setLevel (.text level) sampled) = _
          rw [given]
          rfl

theorem parse?_of_toText (written : config.toText = .ok text) : parse? text = some config.parsed := by
  obtain ⟨fits, rfl⟩ := lines_of_toText written
  rw [parse?, Line.read?_lines (isSound_lines fits)]
  exact readEntries_lines config

/-! ## What is checked -/

/-- A configuration that can be used: its tolerance is a number of its own that is not negative, and
    its level is one that there is. -/
structure Usable (config : Config) : Prop where
  finite : config.weightTolerance.isFinite = true
  nonnegative : 0.0 ≤ config.weightTolerance
  level : ∃ level, LogLevel.ofText? config.level = some level

/-- Whether a tolerance is refused. -/
def Refused (tolerance : Float) : Prop :=
  (!tolerance.isFinite || tolerance < 0.0) = true

theorem not_refused_iff {tolerance : Float} :
    ¬ Refused tolerance ↔ tolerance.isFinite = true ∧ 0.0 ≤ tolerance := by
  unfold Refused
  simp only [Bool.or_eq_true, Bool.not_eq_true', decide_eq_true_eq, not_or, Bool.not_eq_false]
  constructor
  · rintro ⟨finite, order⟩
    have number := Float64.isNumber_of_isFinite finite
    exact ⟨finite, (Float64.not_lt_iff number (Float64.isNumber_of_isFinite (f := 0.0) rfl)).1 order⟩
  · rintro ⟨finite, order⟩
    have number := Float64.isNumber_of_isFinite finite
    exact ⟨finite, (Float64.not_lt_iff number (Float64.isNumber_of_isFinite (f := 0.0) rfl)).2 order⟩

theorem check_of_refused {file : String} (refused : Refused config.weightTolerance) :
    config.check file = .error (complaint file
      ("weight_tolerance must be a non-negative number, got "
        ++ Text.ofFloat config.weightTolerance)) := by
  unfold Refused at refused
  rw [check, if_pos refused]
  rfl

theorem check_of_not_refused {file : String} (kept : ¬ Refused config.weightTolerance) :
    config.check file = match config.logLevel with
      | .ok _ => .ok ()
      | .error e => .error (complaint file e.message) := by
  unfold Refused at kept
  rw [check, if_neg kept]
  rfl

theorem check_eq_ok_iff {file : String} : config.check file = .ok () ↔ config.Usable := by
  by_cases refused : Refused config.weightTolerance
  · rw [check_of_refused refused]
    constructor
    · exact nofun
    · rintro ⟨finite, order, -⟩
      exact absurd refused (not_refused_iff.2 ⟨finite, order⟩)
  · rw [check_of_not_refused refused]
    obtain ⟨finite, order⟩ := not_refused_iff.1 refused
    unfold logLevel
    cases level : LogLevel.ofText? config.level with
    | none =>
        constructor
        · exact nofun
        · rintro ⟨-, -, found, same⟩
          rw [level] at same
          cases same
    | some found => exact ⟨fun _ => ⟨finite, order, found, level⟩, fun _ => rfl⟩

theorem check_error {file : String} {e : Error} (failed : config.check file = .error e) :
    ∃ reason, e = complaint file reason := by
  by_cases refused : Refused config.weightTolerance
  · rw [check_of_refused refused] at failed
    cases failed
    exact ⟨_, rfl⟩
  · rw [check_of_not_refused refused] at failed
    unfold logLevel at failed
    cases level : LogLevel.ofText? config.level with
    | none =>
        rw [level] at failed
        cases failed
        exact ⟨_, rfl⟩
    | some found =>
        rw [level] at failed
        cases failed

theorem parsed_of_number (number : config.weightTolerance.isNaN = false) :
    config.parsed = config := by
  rw [parsed, readBack, number]
  rfl

theorem check_parsed (file : String) : config.parsed.check file = config.check file := by
  cases number : config.weightTolerance.isNaN with
  | false => rw [parsed_of_number number]
  | true =>
      have lost : config.parsed.weightTolerance = 0.0 / 0.0 := by
        simp only [parsed, readBack, number, if_true]
      have infinite : config.weightTolerance.isFinite = false := by
        by_contra finite
        rw [Bool.not_eq_false] at finite
        have some := Float64.not_isNaN_iff.2 (Float64.isNumber_of_isFinite finite)
        rw [number] at some
        cases some
      have refused : Refused config.weightTolerance := by
        simp [Refused, infinite]
      have refusedParsed : Refused config.parsed.weightTolerance := by
        rw [lost]
        rfl
      rw [check_of_refused refused, check_of_refused refusedParsed, lost]
      have words : ∀ {f : Float}, f.isNaN = true → Text.ofFloat f = "NaN" := by
        intro f notANumber
        rw [Text.ofFloat, NumberLayout.text, NumberLayout.chars, if_pos notANumber]
        rfl
      rw [words number, words rfl]

/-! ## Saving and loading -/

theorem load_of_read {path : String} {files : FileSystem}
    (content : files.read (FilePath.ofString path) = .ok (Bytes.ofString text)) :
    load path files = ofText path text := by
  have read : readText files path = .ok text := by
    rw [readText, content]
    simp only [Except.mapError, bind, Except.bind, Bytes.toString?_ofString]
    rfl
  rw [load, read]
  rfl

theorem load_of_save {path : String} {files after : FileSystem}
    (saved : config.save path files = (.ok (), after)) :
    load path after = (config.check path).map fun _ => config.parsed := by
  cases written : config.toText with
  | error refusal =>
      rw [save, written] at saved
      cases saved
  | ok text =>
      have stores : Stores files (temporaryConfig (FilePath.ofString path))
        (FilePath.ofString path) (Bytes.ofString text) _ := stores_storeSteps
      rw [storeSteps] at stores
      simp only [save, written] at saved
      obtain ⟨succeeded, rfl⟩ := Prod.mk.inj saved
      rw [load_of_read (stores.read (mapError_eq_ok_iff.1 succeeded)), ofText,
        parse?_of_toText written, ← check_parsed path]
      change (config.parsed.check path >>= fun _ => .ok config.parsed) = _
      cases config.parsed.check path <;> rfl

/-- A configuration that has been saved is loaded as itself if it can be used, and otherwise loading
    it is an error about its file. -/
theorem saved_loads_iff_usable (config : Config) {path : String} {files after : FileSystem}
    (saved : config.save path files = (.ok (), after)) :
    (load path after = .ok config ↔ config.Usable) ∧
      (¬ config.Usable → ∃ reason, load path after = .error (complaint path reason)) := by
  have loaded := load_of_save saved
  by_cases usable : config.Usable
  · have number := Float64.not_isNaN_iff.2 (Float64.isNumber_of_isFinite usable.finite)
    rw [check_eq_ok_iff.2 usable, parsed_of_number number] at loaded
    exact ⟨⟨fun _ => usable, fun _ => loaded⟩, fun unusable => absurd usable unusable⟩
  · cases check : config.check path with
    | ok => exact absurd (check_eq_ok_iff.1 check) usable
    | error e =>
        obtain ⟨reason, rfl⟩ := check_error check
        rw [check] at loaded
        refine ⟨⟨?_, fun usable' => absurd usable' usable⟩, fun _ => ⟨reason, loaded⟩⟩
        intro same
        rw [loaded] at same
        cases same

/-- A configuration without a default in it, whose file name needs quoting. -/
def everySetting : Config where
  treeFile := some "it's \"one\".json"
  seed := some 9223372036854775807
  weightTolerance := 2.5e-7
  level := "Debug"

/-- A configuration with a tolerance that cannot be used. -/
def infiniteTolerance : Config := { everySetting with weightTolerance := 1.0 / 0.0 }

/-- The one is loaded as itself, and the other not at all. -/
theorem saved_loads_everySetting :
    (∃ after, everySetting.save "etc/c.toml" ⟨[], []⟩ = (.ok (), after) ∧
      load "etc/c.toml" after = .ok everySetting) ∧
    ∃ after reason, infiniteTolerance.save "etc/c.toml" ⟨[], []⟩ = (.ok (), after) ∧
      load "etc/c.toml" after = .error (complaint "etc/c.toml" reason) := by
  have usable : everySetting.Usable := ⟨by decide, by decide, .debug, by decide⟩
  have unusable : ¬ infiniteTolerance.Usable := fun usable => absurd usable.finite (by decide)
  have saved : everySetting.save "etc/c.toml" ⟨[], []⟩ = (.ok (), _) := rfl
  have otherSaved : infiniteTolerance.save "etc/c.toml" ⟨[], []⟩ = (.ok (), _) := rfl
  obtain ⟨reason, refused⟩ := (saved_loads_iff_usable infiniteTolerance otherSaved).2 unusable
  exact ⟨⟨_, saved, (saved_loads_iff_usable everySetting saved).1.2 usable⟩,
    _, reason, otherSaved, refused⟩

/-- A level that there is not is saved, and what is saved is not loaded. -/
theorem saved_not_loaded :
    ¬ ∀ (config : Config) (path : String) (files after : FileSystem),
      config.save path files = (.ok (), after) → load path after = .ok config := by
  intro loads
  have saved : ({ level := "loud" } : Config).save "c.toml" ⟨[], []⟩ = (.ok (), _) := rfl
  have loaded := loads _ _ _ _ saved
  rw [load_of_save saved] at loaded
  cases loaded

end Config

end LogicTree
