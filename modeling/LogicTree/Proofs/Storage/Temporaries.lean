import LogicTree.Proofs.FileSystem.Places
import LogicTree.Storage

/-! # Places of temporary files

A temporary file stands in the directory of its target, under another name. The directories that
are made for it lie higher than the target.
-/

namespace LogicTree

namespace FilePath

variable {target : FilePath} {workingDirectory : Place}

/-! ## Names -/

theorem fileName?_eq_some_iff {name : String} :
    target.fileName? = some name ↔ target.steps.getLast? = some name ∧ name ≠ ".." := by
  simp [fileName?, Option.filter_eq_some_iff]

theorem append_ne_points (name : String) {suffix : String} (long : 2 < suffix.length) :
    name ++ suffix ≠ "." ∧ name ++ suffix ≠ ".." := by
  have longer : 2 < (name ++ suffix).length := by
    rw [String.length_append]
    omega
  constructor <;>
    intro same <;>
    rw [same] at longer <;>
    exact absurd longer (by decide)

theorem stem_append {name suffix : String} (some : name.toList ≠ [])
    (noPoint : '.' ∉ suffix.toList) : stem (name ++ "." ++ suffix) = name := by
  have noPoint' : ∀ c ∈ suffix.toList.reverse, (c != '.') = true := by
    intro c hc
    simp only [bne_iff_ne]
    rintro rfl
    exact noPoint (List.mem_reverse.1 hc)
  have reversed : (name ++ "." ++ suffix).toList.reverse =
      suffix.toList.reverse ++ '.' :: name.toList.reverse := by simp
  have cut : ((name ++ "." ++ suffix).toList.reverse.dropWhile fun c => c != '.') =
      '.' :: name.toList.reverse := by
    rw [reversed, List.dropWhile_append_of_pos noPoint']
    simp
  unfold stem
  rw [cut]
  rcases rest : name.toList.reverse with - | ⟨c, before⟩
  · exact absurd (List.reverse_eq_nil_iff.1 rest) some
  · simp only [← rest, List.reverse_reverse, String.ofList_toList]

/-- No name keeps its length when its stem gets an extension in two parts: the second part would be
the extension that the stem lacks. -/
theorem stem_append_ne (name : String) : stem name ++ "." ++ "toml.tmp" ≠ name := by
  intro same
  have twice : stem name ++ "." ++ "toml.tmp" = (stem name ++ ".toml") ++ "." ++ "tmp" := by
    simp [String.append_assoc]
  have shorter : stem (stem name ++ "." ++ "toml.tmp") = stem name ++ ".toml" := by
    rw [twice]
    exact stem_append (by simp) (by decide)
  have lengths := congrArg String.length shorter
  rw [same, String.length_append] at lengths
  exact absurd lengths (by simp)

/-! ## Places -/

theorem place_of_fileName? {name : String} (named : target.fileName? = some name) :
    target.place workingDirectory =
      target.steps.dropLast.foldl advance (target.start workingDirectory) ++ [name] := by
  obtain ⟨last, noUp⟩ := fileName?_eq_some_iff.1 named
  have noPoint : name ≠ "." := by
    have member : name ∈ target.steps := List.mem_of_getLast? last
    simpa [steps] using (List.mem_filter.1 member).2
  have split : target.steps = target.steps.dropLast ++ [name] :=
    (List.dropLast_append_getLast? name last).symm
  rw [place, ← foldl_advance_steps]
  change target.steps.foldl advance _ = _
  conv_lhs => rw [split]
  rw [List.foldl_append, List.foldl_cons, List.foldl_nil, advance_of_name noPoint noUp]

theorem place_ofNames_concat {names : List String} {name suffix : String}
    (long : 2 < suffix.length) :
    (ofNames target.absolute (names ++ [name ++ suffix])).place workingDirectory =
      names.foldl advance (target.start workingDirectory) ++ [name ++ suffix] := by
  obtain ⟨noPoint, noUp⟩ := append_ne_points name long
  rw [place]
  change (names ++ [name ++ suffix]).foldl advance (target.start workingDirectory) = _
  rw [List.foldl_append, List.foldl_cons, List.foldl_nil, advance_of_name noPoint noUp]

/-- Two paths lead to different names in one directory. -/
def Beside (target temporary : FilePath) : Prop :=
  ∀ workingDirectory, ∃ above name other, other ≠ name ∧
    target.place workingDirectory = above ++ [name] ∧
    temporary.place workingDirectory = above ++ [other]

theorem Beside.not_below {temporary : FilePath} (beside : target.Beside temporary)
    (workingDirectory : Place) (names : List String) :
    target.place workingDirectory ++ names ≠ temporary.place workingDirectory := by
  obtain ⟨above, name, other, different, targetPlace, temporaryPlace⟩ := beside workingDirectory
  rw [targetPlace, temporaryPlace, List.append_assoc]
  intro same
  have lasts := List.append_cancel_left same
  simp only [List.singleton_append, List.cons.injEq] at lasts
  exact different lasts.1.symm

theorem Beside.apart {temporary : FilePath} (beside : target.Beside temporary) :
    target.place workingDirectory ≠ temporary.place workingDirectory := by
  have notBelow := beside.not_below workingDirectory []
  rwa [List.append_nil] at notBelow

theorem beside_temporaryTree (named : target.fileName?.isSome) :
    target.Beside (Storage.temporaryTree target) := by
  obtain ⟨name, named⟩ := Option.isSome_iff_exists.1 named
  intro workingDirectory
  refine ⟨_, name, name ++ ".tmp", ?_, place_of_fileName? named, ?_⟩
  · intro same
    exact absurd (congrArg String.length same) (by simp)
  · simp only [Storage.temporaryTree, besideWithSuffix, named]
    exact place_ofNames_concat (by decide)

theorem beside_temporaryConfig (named : target.fileName?.isSome) :
    target.Beside (Storage.temporaryConfig target) := by
  obtain ⟨name, named⟩ := Option.isSome_iff_exists.1 named
  intro workingDirectory
  refine ⟨_, name, stem name ++ "." ++ "toml.tmp", stem_append_ne name,
    place_of_fileName? named, ?_⟩
  simp only [Storage.temporaryConfig, withExtension, named]
  exact place_ofNames_concat (by decide)

/-! ## Directories above a target -/

theorem mem_prefixes {absolute : Bool} {names : List String} {path : FilePath}
    (h : path ∈ prefixes absolute names) :
    path.absolute = absolute ∧ path.names.length ≤ names.length := by
  induction names with
  | nil => simp [prefixes] at h
  | cons name names ih =>
      rcases List.mem_cons.1 h with rfl | further
      · exact ⟨rfl, by simp [ofNames]⟩
      · obtain ⟨same, shorter⟩ := ih further
        exact ⟨same, Nat.le_succ_of_le shorter⟩

theorem length_place_of_ancestor (noUp : ".." ∉ target.names) (named : target.fileName?.isSome)
    {path : FilePath} (h : path ∈ target.parent.ancestors) :
    (path.place workingDirectory).length < (target.place workingDirectory).length := by
  have some : target.steps ≠ [] := by
    intro nothing
    simp [fileName?, nothing] at named
  have above : path.absolute = target.absolute ∧ path.names.length < target.steps.length := by
    have shorter : target.steps.dropLast.length < target.steps.length := by
      have := List.length_pos_iff.2 some
      simp only [List.length_dropLast]
      omega
    unfold ancestors at h
    split at h
    · cases h
    · rcases List.mem_cons.1 h with rfl | further
      · exact ⟨rfl, shorter⟩
      · obtain ⟨same, part⟩ := mem_prefixes further
        have fewer : target.parent.steps.dropLast.length ≤ target.parent.names.length :=
          (List.dropLast_sublist _).length_le.trans (List.length_filter_le _ _)
        rw [List.length_reverse] at part
        exact ⟨same, (part.trans fewer).trans_lt shorter⟩
  have targetPlace : target.place workingDirectory =
      target.start workingDirectory ++ target.steps := place_of_noUp noUp _
  have sameStart : path.start workingDirectory = target.start workingDirectory := by
    rw [start, start, above.1]
  have reaches := length_foldl_advance_le path.names (path.start workingDirectory)
  rw [targetPlace, List.length_append, ← sameStart]
  change (path.place workingDirectory).length ≤ _ at reaches
  omega

end FilePath

end LogicTree
