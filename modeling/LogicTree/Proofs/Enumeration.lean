import LogicTree.Proofs.Choices

/-! # What the enumeration holds

The enumeration goes through the levels and holds all paths so far. There is one for every choice of
a position a level, and they come in the order in which these choices count: the positions are the
digits of the index in the sizes of the levels, and the last of them varies fastest.

At each level it makes room for one path for every path so far and every branch. No room is larger
than the room at the levels that follow, unless one of these is empty. Then there are no complete
paths, whatever room was made before.
-/

namespace LogicTree

/-! ## Digits of many sizes -/

/-- The digits of a number where each has a size of its own, the last varying fastest. -/
def mixedDigits : List Nat → Nat → List Nat
  | [], _ => []
  | _ :: sizes, n => n / sizes.prod :: mixedDigits sizes (n % sizes.prod)

/-- The number that digits stand for. -/
def mixedNumber : List Nat → List Nat → Nat
  | _ :: sizes, digit :: digits => digit * sizes.prod + mixedNumber sizes digits
  | _, _ => 0

theorem prod_pos_of_lt {size n : Nat} {sizes : List Nat} (h : n < (size :: sizes).prod) :
    0 < sizes.prod := by
  refine Nat.pos_of_ne_zero fun zero => ?_
  rw [List.prod_cons, zero, Nat.mul_zero] at h
  exact Nat.not_lt_zero n h

theorem mixedDigits_lt {sizes : List Nat} {n : Nat} (h : n < sizes.prod) :
    List.Forall₂ (· < ·) (mixedDigits sizes n) sizes := by
  induction sizes generalizing n with
  | nil => exact .nil
  | cons size sizes ih =>
      have rest := prod_pos_of_lt h
      rw [List.prod_cons] at h
      exact .cons ((Nat.div_lt_iff_lt_mul rest).2 h) (ih (Nat.mod_lt n rest))

theorem mixedNumber_mixedDigits {sizes : List Nat} {n : Nat} (h : n < sizes.prod) :
    mixedNumber sizes (mixedDigits sizes n) = n := by
  induction sizes generalizing n with
  | nil => exact (Nat.lt_one_iff.1 h).symm
  | cons size sizes ih =>
      rw [mixedDigits, mixedNumber, ih (Nat.mod_lt n (prod_pos_of_lt h))]
      exact Nat.div_add_mod' n sizes.prod

/-! ## Lists of equally long rows -/

section Rows

variable {α β : Type} {values : List α} {f : α → List β} {width : Nat}
variable (even : ∀ value ∈ values, (f value).length = width)
include even

theorem length_flatMap_of_even : (values.flatMap f).length = values.length * width := by
  rw [List.length_flatMap, List.map_congr_left even, List.map_const', List.sum_replicate,
    smul_eq_mul]

theorem getElem?_flatMap_of_even {position rest : Nat} {value : α}
    (h : values[position]? = some value) (inside : rest < width) :
    (values.flatMap f)[position * width + rest]? = (f value)[rest]? := by
  induction values generalizing position with
  | nil => simp at h
  | cons first others ih =>
      obtain ⟨firstEven, othersEven⟩ := List.forall_mem_cons.1 even
      rw [List.flatMap_cons]
      cases position with
      | zero =>
          obtain rfl : first = value := by simpa using h
          rw [Nat.zero_mul, Nat.zero_add, List.getElem?_append_left (firstEven ▸ inside)]
      | succ position =>
          have later : (position + 1) * width + rest = width + (position * width + rest) := by
            rw [Nat.succ_mul]
            omega
          rw [later, List.getElem?_append_right (firstEven ▸ Nat.le_add_right _ _), firstEven,
            Nat.add_sub_cancel_left]
          exact ih othersEven (by simpa using h)

end Rows

/-- The branches at these positions, level by level. -/
def BranchesAt (levels : List Level) (positions : List Nat) (branches : List Branch) : Prop :=
  List.Forall₂ (fun row branch => row.1.branches[row.2]? = some branch) (levels.zip positions)
    branches

namespace Tree

variable {E : Type}

/-! ## Entries -/

theorem length_completions (weight : Float) (levels : List Level) :
    (completions weight levels).length = (levelSizes levels).prod := by
  induction levels generalizing weight with
  | nil => rfl
  | cons level levels ih =>
      rw [completions, levelSizes_cons, List.prod_cons]
      apply length_flatMap_of_even
      intro branch _
      rw [List.length_map, ih]

/-- The completion at an index takes the branches at the digits of the index. -/
theorem getElem?_completions {levels : List Level} {index : Nat}
    (h : index < (levelSizes levels).prod) (weight : Float) :
    ∃ branches, BranchesAt levels (mixedDigits (levelSizes levels) index) branches ∧
      (completions weight levels)[index]? =
        some (branches.map Branch.id, productFrom weight branches) := by
  induction levels generalizing index weight with
  | nil =>
      obtain rfl : index = 0 := Nat.lt_one_iff.1 h
      exact ⟨[], .nil, rfl⟩
  | cons level levels ih =>
      rw [levelSizes_cons] at h
      have positive := prod_pos_of_lt h
      rw [List.prod_cons] at h
      -- the first digit is the row of the index, the other digits count inside the row
      have inside := Nat.mod_lt index positive
      have row := (Nat.div_lt_iff_lt_mul positive).2 h
      obtain ⟨branch, found⟩ : ∃ branch,
          level.branches[index / (levelSizes levels).prod]? = some branch :=
        ⟨_, List.getElem?_eq_getElem row⟩
      obtain ⟨branches, taken, entry⟩ := ih inside (weight * branch.weight)
      refine ⟨branch :: branches, .cons found taken, ?_⟩
      rw [completions, ← Nat.div_add_mod' index (levelSizes levels).prod,
        getElem?_flatMap_of_even _ found inside, List.getElem?_map, entry]
      · rfl
      · intro branch _
        rw [List.length_map, length_completions]

/-! ## Paths so far -/

/-- The paths through some levels, as the enumeration holds them when it has gone through these. -/
def pathsThrough (levels : List Level) : List (Path × Float) :=
  levels.foldl extendPaths [(Path.empty, 1.0)]

/-- How many paths the enumeration makes room for at a level after others: one for every path so far
    and every branch. -/
def room (before : List Level) (level : Level) : Nat :=
  (pathsThrough before).length * level.branches.length

theorem pathsThrough_eq (levels : List Level) :
    pathsThrough levels =
      (completions 1.0 levels).map fun (ids, weight) => ((⟨ids⟩ : Path), weight) := by
  simp [pathsThrough, foldl_extendPaths, Path.empty]

theorem length_pathsThrough (levels : List Level) :
    (pathsThrough levels).length = (levelSizes levels).prod := by
  rw [pathsThrough_eq, List.length_map, length_completions]

theorem pathsThrough_concat (before : List Level) (level : Level) :
    pathsThrough (before ++ [level]) = extendPaths (pathsThrough before) level := by
  rw [pathsThrough, List.foldl_append]
  rfl

@[simp] theorem levelSizes_append (before after : List Level) :
    levelSizes (before ++ after) = levelSizes before ++ levelSizes after :=
  List.map_append

theorem room_eq (before : List Level) (level : Level) :
    room before level = (levelSizes (before ++ [level])).prod := by
  rw [room, length_pathsThrough, levelSizes_append, List.prod_append]
  simp [levelSizes]

theorem length_extendPaths (before : List Level) (level : Level) :
    (extendPaths (pathsThrough before) level).length = room before level := by
  rw [← pathsThrough_concat, length_pathsThrough, room_eq]

theorem prod_lt_of_multiplySizes? {count total : Nat} {before after : List Level} {level : Level}
    (h : multiplySizes? count (before ++ level :: after) = some total) :
    count * (levelSizes (before ++ [level])).prod < countBound := by
  induction before generalizing count with
  | nil =>
      rw [List.nil_append, multiplySizes?] at h
      split at h
      next fits => simpa [levelSizes] using fits
      next => cases h
  | cons first before ih =>
      rw [List.cons_append, multiplySizes?] at h
      split at h
      next => simpa [Nat.mul_assoc] using ih h
      next => cases h

theorem multiplySizes?_of_pathCount {tree : Tree E} {total : Nat}
    (counted : tree.pathCount = .ok total) : multiplySizes? 1 tree.levels = some total := by
  obtain ⟨_, -, matched⟩ := bind_eq_ok_iff.1 counted
  split at matched
  next count product => rw [product, Except.ok.inj matched]
  next => cases matched

section Counted

variable {tree : Tree E} {total : Nat} (counted : tree.pathCount = .ok total)
variable {before after : List Level} {level : Level} (stands : tree.levels = before ++ level :: after)
include counted

theorem paths_eq_pathsThrough : tree.paths = .ok (pathsThrough tree.levels) := by
  rw [pathsThrough_eq, paths_eq counted]

include stands

theorem room_lt_countBound : room before level < countBound := by
  have product := multiplySizes?_of_pathCount counted
  rw [stands] at product
  simpa [room_eq] using prod_lt_of_multiplySizes? product

theorem total_eq_room_mul : total = room before level * (levelSizes after).prod := by
  rw [(prod_of_pathCount counted).2, stands, room_eq, ← List.prod_append, ← levelSizes_append,
    List.append_assoc, List.singleton_append]

/-- What the levels after it take away from the room at a level is everything or nothing. -/
theorem room_le_total_iff : room before level ≤ total ↔
    room before level = 0 ∨ 0 ∉ levelSizes after := by
  rw [total_eq_room_mul counted stands]
  constructor
  · intro bounded
    refine or_iff_not_imp_right.2 fun empty => ?_
    rwa [List.prod_eq_zero (not_not.1 empty), Nat.mul_zero, Nat.le_zero] at bounded
  · rintro (none | full)
    · rw [none]
      exact Nat.zero_le _
    · have positive : 0 < (levelSizes after).prod :=
        Nat.pos_of_ne_zero fun zero => full (List.prod_eq_zero_iff.1 zero)
      exact Nat.le_mul_of_pos_right _ positive

end Counted

/-- A tree whose paths can be counted lists as many. No product of the paths so far and the
    branches of a level leaves 64 bits. The entry at an index takes, level by level, the branch at
    the digit of the index in the sizes of the levels, the last of which varies fastest; it is the
    path of the ids of these branches, with the product of their weights from the left. -/
theorem paths_listed_by_digits {tree : Tree E} {total : Nat} (counted : tree.pathCount = .ok total) :
    ∃ listed, tree.paths = .ok listed ∧ listed.length = total ∧
      (∀ before level after, tree.levels = before ++ level :: after →
        (pathsThrough before).length * level.branches.length < countBound) ∧
      ∀ index < total, ∃ branches,
        List.Forall₂ (· < ·) (mixedDigits (levelSizes tree.levels) index) (levelSizes tree.levels) ∧
        mixedNumber (levelSizes tree.levels) (mixedDigits (levelSizes tree.levels) index) = index ∧
        BranchesAt tree.levels (mixedDigits (levelSizes tree.levels) index) branches ∧
        listed[index]? = some (⟨branches.map Branch.id⟩, productFrom 1.0 branches) := by
  obtain rfl := (prod_of_pathCount counted).2
  refine ⟨_, paths_eq_pathsThrough counted, length_pathsThrough tree.levels, ?_, ?_⟩
  · intro before level after stands
    exact room_lt_countBound counted stands
  · intro index below
    obtain ⟨branches, taken, entry⟩ := getElem?_completions below 1.0
    refine ⟨branches, mixedDigits_lt below, mixedNumber_mixedDigits below, taken, ?_⟩
    rw [pathsThrough_eq, List.getElem?_map, entry]
    rfl

theorem paths_listed_by_digits_unchecked :
    unchecked.pathCount = .ok 9 ∧
      ∃ listed branches, unchecked.paths = .ok listed ∧
        mixedDigits (levelSizes unchecked.levels) 5 = [1, 2] ∧
        BranchesAt unchecked.levels [1, 2] branches ∧
        listed[5]? = some (⟨branches.map Branch.id⟩, productFrom 1.0 branches) := by
  have counted : unchecked.pathCount = .ok 9 := rfl
  have digits : mixedDigits (levelSizes unchecked.levels) 5 = [1, 2] := rfl
  obtain ⟨listed, paths, -, -, entries⟩ := paths_listed_by_digits counted
  obtain ⟨branches, -, -, taken, entry⟩ := entries 5 (by decide)
  exact ⟨counted, listed, branches, paths, digits, digits ▸ taken, entry⟩

/-- At each level the enumeration fills the room that it makes, and the room stays below 64 bits. It
    is beyond the number of complete paths exactly if it is not zero and a later level is empty; so
    it is within that number at all levels exactly if no level is empty or the first one is. -/
theorem room_le_pathCount_iff {tree : Tree E} {total : Nat} (counted : tree.pathCount = .ok total) :
    tree.paths = .ok (pathsThrough tree.levels) ∧
    (∀ before level after, tree.levels = before ++ level :: after →
      (extendPaths (pathsThrough before) level).length = room before level ∧
      room before level < countBound ∧
      (room before level ≤ total ↔ room before level = 0 ∨ 0 ∉ levelSizes after)) ∧
    ((∀ before level after, tree.levels = before ++ level :: after → room before level ≤ total) ↔
      0 ∉ levelSizes tree.levels ∨ (levelSizes tree.levels).head? = some 0) := by
  refine ⟨paths_eq_pathsThrough counted, ?_, ?_⟩
  · intro before level after stands
    exact ⟨length_extendPaths before level, room_lt_countBound counted stands,
      room_le_total_iff counted stands⟩
  constructor
  · intro bounded
    obtain ⟨first, others, stands⟩ := List.exists_cons_of_ne_nil (prod_of_pathCount counted).1
    rcases (room_le_total_iff counted stands).1 (bounded [] first others stands) with none | full
    · right
      simpa [room_eq, levelSizes, stands] using none
    · by_cases empty : first.branches.length = 0
      · right
        simp [stands, empty]
      · left
        simpa [stands, full] using Ne.symm empty
  · intro h before level after stands
    rw [room_le_total_iff counted stands]
    rcases h with full | empty
    · right
      simp only [stands, levelSizes_append, levelSizes_cons, List.mem_append, List.mem_cons] at full
      tauto
    · left
      rw [room_eq]
      refine List.prod_eq_zero (List.mem_of_mem_head? ?_)
      cases before <;> simpa [stands, levelSizes] using empty

theorem room_le_pathCount_iff_two_three :
    let tree : Tree String := ⟨"", [evenLevel 2, evenLevel 3], ∅⟩
    tree.pathCount = .ok 6 ∧ room [] (evenLevel 2) ≤ 6 ∧ room [evenLevel 2] (evenLevel 3) ≤ 6 := by
  intro tree
  have counted : tree.pathCount = .ok 6 := rfl
  obtain ⟨-, -, bounded⟩ := room_le_pathCount_iff counted
  have all := bounded.2 (.inl (by decide))
  exact ⟨counted, all [] _ _ rfl, all [evenLevel 2] _ [] rfl⟩

/-- With an empty level after two branches there is no path, and room was made for two. -/
theorem room_beyond_pathCount :
    let tree : Tree String := ⟨"", [evenLevel 2, evenLevel 0], ∅⟩
    tree.pathCount = .ok 0 ∧ room [] (evenLevel 2) = 2 ∧
      ¬ ∀ before level after, tree.levels = before ++ level :: after → room before level ≤ 0 := by
  intro tree
  have two : room [] (evenLevel 2) = 2 := rfl
  refine ⟨rfl, two, fun bounded => ?_⟩
  have none := bounded [] (evenLevel 2) [evenLevel 0] rfl
  rw [two] at none
  exact absurd none (by decide)

end Tree

end LogicTree
