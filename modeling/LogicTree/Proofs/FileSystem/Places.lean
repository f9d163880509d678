import Mathlib.Data.List.Infix
import LogicTree.FileSystem
import LogicTree.Proofs.Steps

/-! # Places that paths lead to

There are no links, so a path leads to one place, whatever stands on the way: a name leads down, two
points lead up and a single point stays. A walk that succeeds ends at this place. It goes through
directories only, so it ends there still when more of them have been made.
-/

namespace LogicTree

namespace FilePath

/-- The place to which a name leads from another place. -/
def advance (place : Place) (name : String) : Place :=
  if name = "." then place
  else if name = ".." then place.dropLast
  else place ++ [name]

/-- Where a path starts. -/
def start (workingDirectory : Place) (path : FilePath) : Place :=
  if path.absolute then [] else workingDirectory

/-- The place to which a path leads. -/
def place (workingDirectory : Place) (path : FilePath) : Place :=
  path.names.foldl advance (path.start workingDirectory)

theorem advance_of_name {name : String} (noPoint : name ≠ ".") (noUp : name ≠ "..")
    (place : Place) : advance place name = place ++ [name] := by
  rw [advance, if_neg noPoint, if_neg noUp]

theorem foldl_advance_steps (names : List String) (place : Place) :
    (names.filter fun name => name != ".").foldl advance place = names.foldl advance place := by
  induction names generalizing place with
  | nil => rfl
  | cons name names ih =>
      by_cases point : name = "."
      · have stays : advance place name = place := if_pos point
        simp only [List.filter_cons, point, bne_self_eq_false, Bool.false_eq_true, if_false, ih,
          List.foldl_cons]
        rw [← point, stays]
      · simp [point, ih]

theorem length_foldl_advance_le (names : List String) (place : Place) :
    (names.foldl advance place).length ≤ place.length + names.length := by
  induction names generalizing place with
  | nil => simp
  | cons name names ih =>
      have first : (advance place name).length ≤ place.length + 1 := by
        unfold advance
        split
        · omega
        · split
          · simp only [List.length_dropLast]
            omega
          · simp
      have rest := ih (advance place name)
      simp only [List.foldl_cons, List.length_cons]
      omega

theorem foldl_advance_of_names {names : List String} (noPoint : "." ∉ names)
    (noUp : ".." ∉ names) (place : Place) : names.foldl advance place = place ++ names := by
  induction names generalizing place with
  | nil => simp
  | cons name names ih =>
      obtain ⟨notPoint, fewerPoints⟩ := not_or.1 (List.mem_cons.not.1 noPoint)
      obtain ⟨notUp, fewerUps⟩ := not_or.1 (List.mem_cons.not.1 noUp)
      rw [List.foldl_cons, advance_of_name (Ne.symm notPoint) (Ne.symm notUp),
        ih fewerPoints fewerUps, List.append_assoc, List.singleton_append]

theorem place_of_noUp {path : FilePath} (noUp : ".." ∉ path.names) (workingDirectory : Place) :
    path.place workingDirectory = path.start workingDirectory ++ path.steps := by
  have noPoint : "." ∉ path.steps := by simp [steps]
  have fewerUps : ".." ∉ path.steps := fun member => noUp (List.mem_filter.1 member).1
  rw [place, ← foldl_advance_steps]
  exact foldl_advance_of_names noPoint fewerUps _

end FilePath

/-- The place of a target. -/
def Target.place : Target → Place
  | .name above last => above ++ [last]
  | .directory found => found

/-- The innermost directory on the way to a target. -/
def Target.above : Target → Place
  | .name above _ => above
  | .directory found => found

namespace FileSystem

open FilePath (advance)

variable {files before after : FileSystem}

/-! ## Entries -/

theorem lookup_erase_self (rows : List (Place × Entry)) (place : Place) :
    (rows.filter fun row => row.1 != place).lookup place = none := by
  rw [List.lookup_eq_none_iff]
  intro row hrow
  have other : row.1 ≠ place := by simpa using (List.mem_filter.1 hrow).2
  exact bne_iff_ne.2 (Ne.symm other)

theorem lookup_erase_of_ne (rows : List (Place × Entry)) {place other : Place}
    (h : other ≠ place) :
    (rows.filter fun row => row.1 != place).lookup other = rows.lookup other := by
  induction rows with
  | nil => rfl
  | cons row rows ih =>
      obtain ⟨key, value⟩ := row
      by_cases same : key = place
      · have skipped : (other == key) = false := beq_eq_false_iff_ne.2 (same ▸ h)
        simp only [List.filter_cons, same, bne_self_eq_false, Bool.false_eq_true, if_false,
          List.lookup_cons, same ▸ skipped, ih]
      · simp only [List.filter_cons, bne_iff_ne, ne_eq, same, not_false_eq_true, if_true,
          List.lookup_cons, ih]

theorem entry?_erase_self (directory : Place) (name : String) :
    entry? (files.erase (directory ++ [name])) (directory ++ [name]) = none := by
  unfold entry?
  simp [erase, lookup_erase_self]

theorem entry?_erase_of_ne {place other : Place} (h : other ≠ place) :
    entry? (files.erase place) other = files.entry? other := by
  unfold entry?
  simp [erase, lookup_erase_of_ne _ h]

theorem entry?_put_self (directory : Place) (name : String) (entry : Entry) :
    entry? (files.put (directory ++ [name]) entry) (directory ++ [name]) = some entry := by
  unfold entry?
  simp [put]

theorem entry?_put_of_ne {place other : Place} (h : other ≠ place) (entry : Entry) :
    entry? (files.put place entry) other = files.entry? other := by
  have skipped : (other == place) = false := beq_eq_false_iff_ne.2 h
  unfold entry?
  simp [put, erase, List.lookup_cons, skipped, lookup_erase_of_ne _ h]

/-! ## Walks -/

theorem walk_cons_eq_ok_iff {place : Place} {name : String} {names : List String}
    {target : Target} :
    files.walk place (name :: names) = .ok target ↔
      if name = "." then files.walk place names = .ok target
      else if name = ".." then files.walk place.dropLast names = .ok target
      else name.utf8ByteSize ≤ 255 ∧
        if names = [] then target = .name place name
        else files.entry? (place ++ [name]) = some .directory ∧
          files.walk (place ++ [name]) names = .ok target := by
  rw [walk]
  by_cases point : name = "."
  · simp only [point, if_true]
  by_cases up : name = ".."
  · simp only [up, if_true]
    simp
  by_cases long : 255 < name.utf8ByteSize
  · simp [point, up, long, Nat.not_le.2 long]
  by_cases last : names = []
  · simp [point, up, long, last, Nat.not_lt.1 long, eq_comm]
  · cases files.entry? (place ++ [name]) with
    | none => simp [point, up, long, last]
    | some entry => cases entry <;> simp [point, up, long, last, Nat.not_lt.1 long]

theorem place_of_walk {place : Place} {names : List String} {target : Target}
    (h : files.walk place names = .ok target) : target.place = names.foldl advance place := by
  induction names generalizing place with
  | nil =>
      cases h
      rfl
  | cons name names ih =>
      rw [walk_cons_eq_ok_iff] at h
      rw [List.foldl_cons, advance]
      split at h
      next point =>
        rw [if_pos point]
        exact ih h
      next noPoint =>
        rw [if_neg noPoint]
        split at h
        next up =>
          rw [if_pos up]
          exact ih h
        next noUp =>
          rw [if_neg noUp]
          obtain ⟨-, rest⟩ := h
          split at rest
          next last =>
            rw [last, rest]
            rfl
          next => exact ih rest.2

theorem locate_eq_ok_iff {path : FilePath} {target : Target} :
    files.locate path = .ok target ↔
      (¬ path.names.any fun name => name.toList.contains '\x00') ∧ ¬ path.isEmpty ∧
        files.walk (path.start files.workingDirectory) path.names = .ok target := by
  unfold locate
  split
  next nul => exact iff_of_false (by simp) fun h => h.1 nul
  next nul =>
    split
    next empty => exact iff_of_false (by simp) fun h => h.2.1 empty
    next named => exact ⟨fun h => ⟨nul, named, h⟩, fun h => h.2.2⟩

theorem place_of_locate {path : FilePath} {target : Target} (h : files.locate path = .ok target) :
    target.place = path.place files.workingDirectory := by
  obtain ⟨-, -, walked⟩ := locate_eq_ok_iff.1 h
  exact place_of_walk walked

theorem walk_of_directories
    (kept : ∀ place, before.entry? place = some .directory → after.entry? place = some .directory)
    {place : Place} {names : List String} {target : Target}
    (h : before.walk place names = .ok target) : after.walk place names = .ok target := by
  induction names generalizing place with
  | nil => exact h
  | cons name names ih =>
      rw [walk_cons_eq_ok_iff] at h ⊢
      split at h
      next point =>
        rw [if_pos point]
        exact ih h
      next noPoint =>
        rw [if_neg noPoint]
        split at h
        next up =>
          rw [if_pos up]
          exact ih h
        next noUp =>
          rw [if_neg noUp]
          obtain ⟨short, rest⟩ := h
          refine ⟨short, ?_⟩
          split at rest
          next last => rwa [if_pos last]
          next more =>
            rw [if_neg more]
            exact ⟨kept _ rest.1, ih rest.2⟩

theorem prefix_above_of_walk {place : Place} {names : List String} (noUp : ".." ∉ names)
    {target : Target} (h : files.walk place names = .ok target) : place <+: target.above := by
  induction names generalizing place with
  | nil =>
      cases h
      exact List.prefix_rfl
  | cons name names ih =>
      obtain ⟨notUp, rest⟩ := not_or.1 (List.mem_cons.not.1 noUp)
      rw [walk_cons_eq_ok_iff, if_neg (Ne.symm notUp)] at h
      split at h
      next => exact ih rest h
      next =>
        obtain ⟨-, further⟩ := h
        split at further
        next =>
          rw [further]
          exact List.prefix_rfl
        next => exact (List.prefix_append _ _).trans (ih rest further.2)

theorem entry?_of_walk_directory {place found : Place} {names : List String} (noUp : ".." ∉ names)
    (h : files.walk place names = .ok (.directory found)) :
    found = place ∨ files.entry? found = some .directory := by
  induction names generalizing place with
  | nil =>
      cases h
      exact .inl rfl
  | cons name names ih =>
      obtain ⟨notUp, rest⟩ := not_or.1 (List.mem_cons.not.1 noUp)
      rw [walk_cons_eq_ok_iff, if_neg (Ne.symm notUp)] at h
      split at h
      next => exact ih rest h
      next =>
        obtain ⟨-, further⟩ := h
        split at further
        next => cases further
        next =>
          rcases ih rest further.2 with rfl | directory
          · exact .inr further.1
          · exact .inr directory

theorem walk_of_entered {place : Place} {names : List String} (noUp : ".." ∉ names)
    {target : Target} (h : after.walk place names = .ok target)
    (entered : ∀ directory, directory <+: target.above → place.length < directory.length →
      before.entry? directory = some .directory) : before.walk place names = .ok target := by
  induction names generalizing place with
  | nil => exact h
  | cons name names ih =>
      obtain ⟨notUp, rest⟩ := not_or.1 (List.mem_cons.not.1 noUp)
      rw [walk_cons_eq_ok_iff, if_neg (Ne.symm notUp)] at h ⊢
      split at h
      next point =>
        rw [if_pos point]
        exact ih rest h entered
      next noPoint =>
        rw [if_neg noPoint]
        obtain ⟨short, further⟩ := h
        refine ⟨short, ?_⟩
        split at further
        next last => rwa [if_pos last]
        next more =>
          have longer : place.length < (place ++ [name]).length := by simp
          rw [if_neg more]
          -- The walk goes on down, so this directory lies on the way to the target.
          refine ⟨entered _ (prefix_above_of_walk rest further.2) longer, ih rest further.2 ?_⟩
          intro directory isPrefix deeper
          exact entered directory isPrefix (Nat.lt_trans longer deeper)

/-! ## Well-formed file systems -/

/-- Everything stands in a directory. -/
def WellFormed (files : FileSystem) : Prop :=
  ∀ row ∈ files.entries, files.entry? row.1.dropLast = some .directory

instance : Decidable files.WellFormed :=
  inferInstanceAs (Decidable (∀ row ∈ files.entries, _))

theorem WellFormed.parent (wellFormed : files.WellFormed) {above : Place} {name : String}
    {entry : Entry} (h : files.entry? (above ++ [name]) = some entry) :
    files.entry? above = some .directory := by
  have stored : files.entries.lookup (above ++ [name]) ≠ none := by
    intro nothing
    unfold entry? at h
    simp [nothing] at h
  rw [ne_eq, List.lookup_eq_none_iff] at stored
  push Not at stored
  obtain ⟨row, hrow, same⟩ := stored
  have parent := wellFormed row hrow
  have place : above ++ [name] = row.1 := by simpa using same
  rwa [← place, List.dropLast_concat] at parent

theorem WellFormed.ancestor_of_directory (wellFormed : files.WellFormed) {place directory : Place}
    (h : files.entry? place = some .directory) (isPrefix : directory <+: place) :
    files.entry? directory = some .directory := by
  induction place using List.reverseRecOn with
  | nil =>
      rw [List.prefix_nil.1 isPrefix]
      exact h
  | append_singleton above name ih =>
      rcases List.prefix_concat_iff.1 isPrefix with same | isPrefix
      · rw [same]
        exact h
      · exact ih (wellFormed.parent h) isPrefix

/-- What a walk from a directory leads to stands in a directory, wherever it turned upwards. -/
theorem WellFormed.above_of_walk (wellFormed : files.WellFormed) {place : Place}
    {names : List String} {target : Target} (standing : files.entry? place = some .directory)
    (h : files.walk place names = .ok target) : files.entry? target.above = some .directory := by
  induction names generalizing place with
  | nil =>
      cases h
      exact standing
  | cons name names ih =>
      rw [walk_cons_eq_ok_iff] at h
      split at h
      next => exact ih standing h
      next =>
        split at h
        next => exact ih (wellFormed.ancestor_of_directory standing (List.dropLast_prefix _)) h
        next =>
          obtain ⟨-, rest⟩ := h
          split at rest
          next =>
            rw [rest]
            exact standing
          next => exact ih rest.1 rest.2

end FileSystem

end LogicTree
