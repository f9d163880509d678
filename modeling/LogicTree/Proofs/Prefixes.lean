import LogicTree.Proofs.PathCount
import LogicTree.Proofs.Steps

/-! # Weights of prefixes

The joint weight of a path is multiplied from the weights of its decisions, each of which is the
conditional weight of a prefix. It fails where the first of these fails, and in the same way.
-/

namespace LogicTree

/-- The weights of the branches that ids name, level by level, or why there are none. -/
def namedWeights (levels : List Level) (ids : List UInt32) : List (Except Error Float) :=
  List.zipWith (fun level id => (level.branch id).map Branch.weight) levels ids

theorem Level.eq_branchOutOfRange {level : Level} {id : UInt32} {failure : Error}
    (h : level.branch id = .error failure) :
    failure = .branchOutOfRange level.number id level.branches.length := by
  simp only [Level.branch] at h
  generalize (if id = 0 then none else level.branches[id.toNat - 1]?) = found at h
  cases found with
  | some branch => cases h
  | none =>
      cases h
      rfl

namespace Tree

theorem multiplyWeights_of_ok {levels : List Level} {ids : List UInt32} {factors : List Float}
    (h : namedWeights levels ids = factors.map .ok) (weight : Float) :
    multiplyWeights weight levels ids = .ok (factors.foldl (· * ·) weight) := by
  induction levels generalizing ids factors weight with
  | nil =>
      cases factors with
      | nil => rfl
      | cons factor factors => simp [namedWeights] at h
  | cons level levels ih =>
      cases ids with
      | nil =>
          cases factors with
          | nil => rfl
          | cons factor factors => simp [namedWeights] at h
      | cons id ids =>
          cases factors with
          | nil => simp [namedWeights] at h
          | cons factor factors =>
              obtain ⟨hfirst, hrest⟩ := List.cons.inj h
              obtain ⟨branch, hbranch, rfl⟩ := map_eq_ok_iff.1 hfirst
              rw [multiplyWeights, hbranch]
              exact ih hrest (weight * branch.weight)

theorem multiplyWeights_of_error {levels : List Level} {ids : List UInt32} {factors : List Float}
    {failure : Error} {later : List (Except Error Float)}
    (h : namedWeights levels ids = factors.map .ok ++ .error failure :: later) (weight : Float) :
    multiplyWeights weight levels ids = .error failure := by
  induction levels generalizing ids factors weight with
  | nil => cases factors <;> simp [namedWeights] at h
  | cons level levels ih =>
      cases ids with
      | nil => cases factors <;> simp [namedWeights] at h
      | cons id ids =>
          cases factors with
          | nil =>
              obtain ⟨hfirst, -⟩ := List.cons.inj h
              cases hbranch : level.branch id with
              | ok branch => simp [hbranch, Except.map] at hfirst
              | error other =>
                  simp only [hbranch, Except.map, Except.error.injEq] at hfirst
                  rw [multiplyWeights, hbranch, hfirst]
                  rfl
          | cons factor factors =>
              obtain ⟨hfirst, hrest⟩ := List.cons.inj h
              obtain ⟨branch, hbranch, -⟩ := map_eq_ok_iff.1 hfirst
              rw [multiplyWeights, hbranch]
              exact ih hrest (weight * branch.weight)

variable {E : Type} {tree : Tree E} {path : Path}

theorem pathWeight_of_length (nonempty : tree.levels ≠ []) (h : path.length = tree.depth) :
    tree.pathWeight path = multiplyWeights 1.0 tree.levels path.ids := by
  simp [pathWeight, requireLevels_ok_iff.2 nonempty, h, bind, Except.bind]

theorem pathWeight_of_length_ne (nonempty : tree.levels ≠ []) (h : path.length ≠ tree.depth) :
    tree.pathWeight path = .error (.pathLength tree.depth path.length) := by
  simp [pathWeight, requireLevels_ok_iff.2 nonempty, h, bind, Except.bind, throw_eq_error]

theorem conditionalWeight_take {index : Nat} {level : Level} {id : UInt32}
    (hlevel : tree.levels[index]? = some level) (hid : path.ids[index]? = some id) :
    tree.conditionalWeight (path.take (index + 1)) = (level.branch id).map Branch.weight := by
  have nonempty : tree.levels ≠ [] := by
    intro hnil
    simp [hnil] at hlevel
  obtain ⟨hlength, -⟩ := List.getElem?_eq_some_iff.1 hid
  have hlast : (path.take (index + 1)).last? = some id := by
    rw [Path.last?, Path.take, List.getLast?_take]
    simp [hid]
  have hcount : (path.take (index + 1)).length - 1 = index := by
    rw [Path.length, Path.take, List.length_take]
    omega
  simp only [conditionalWeight, requireLevels_ok_iff.2 nonempty, hlast, hcount, Tree.level, hlevel,
    bind, Except.bind]
  cases level.branch id <;> rfl

/-- The conditional weights of the prefixes, one a level. -/
def prefixWeights (tree : Tree E) (path : Path) : List (Except Error Float) :=
  (List.range tree.depth).map fun index => tree.conditionalWeight (path.take (index + 1))

theorem getElem?_prefixWeights {index : Nat} (h : index < tree.depth) (path : Path) :
    (tree.prefixWeights path)[index]? =
      some (tree.conditionalWeight (path.take (index + 1))) := by
  simp [prefixWeights, h]

theorem namedWeights_eq (h : path.length = tree.depth) :
    namedWeights tree.levels path.ids = tree.prefixWeights path := by
  have hlength : path.ids.length = tree.levels.length := h
  apply List.ext_getElem
  · simp [namedWeights, prefixWeights, hlength, depth]
  · intro index hindex _
    have hlevel : index < tree.levels.length := by
      simp only [namedWeights, List.length_zipWith] at hindex
      omega
    have hid : index < path.ids.length := by omega
    simp only [prefixWeights, List.getElem_map, List.getElem_range]
    rw [conditionalWeight_take (List.getElem?_eq_getElem hlevel) (List.getElem?_eq_getElem hid)]
    exact List.getElem_zipWith

theorem pathWeight_of_prefixWeights (nonempty : tree.levels ≠ []) (hlength : path.length = tree.depth)
    {factors : List Float} (h : tree.prefixWeights path = factors.map .ok) :
    tree.pathWeight path = .ok (factors.foldl (· * ·) 1.0) := by
  rw [pathWeight_of_length nonempty hlength]
  rw [← namedWeights_eq hlength] at h
  exact multiplyWeights_of_ok h 1.0

theorem pathWeight_of_first_error (nonempty : tree.levels ≠ []) (hlength : path.length = tree.depth)
    {factors : List Float} {failure : Error} {later : List (Except Error Float)}
    (h : tree.prefixWeights path = factors.map .ok ++ .error failure :: later) :
    tree.pathWeight path = .error failure := by
  rw [pathWeight_of_length nonempty hlength]
  rw [← namedWeights_eq hlength] at h
  exact multiplyWeights_of_error h 1.0

/-- The least prefix without a conditional weight, and why it has none. -/
structure FailsFirstAt (tree : Tree E) (path : Path) (index : Nat) (failure : Error) : Prop where
  below : index < tree.depth
  fails : tree.conditionalWeight (path.take (index + 1)) = .error failure
  earlier : ∀ earlier < index, ∃ weight,
    tree.conditionalWeight (path.take (earlier + 1)) = .ok weight

namespace FailsFirstAt

variable {index : Nat} {failure : Error}

theorem of_prefixWeights {factors : List Float} {later : List (Except Error Float)}
    (h : tree.prefixWeights path = factors.map .ok ++ .error failure :: later) :
    tree.FailsFirstAt path factors.length failure := by
  have below : factors.length < tree.depth := by
    have hcount := congrArg List.length h
    simp [prefixWeights] at hcount
    omega
  refine ⟨below, ?_, fun earlier hearlier => ?_⟩
  · have hget := getElem?_prefixWeights below path
    rw [h] at hget
    simpa using hget.symm
  · have hget := getElem?_prefixWeights (hearlier.trans below) path
    rw [h, List.getElem?_append_left (by simpa using hearlier)] at hget
    exact ⟨factors[earlier], by simpa [hearlier] using hget.symm⟩

theorem unique {other : Nat} {otherFailure : Error} (h : tree.FailsFirstAt path index failure)
    (hother : tree.FailsFirstAt path other otherFailure) : failure = otherFailure := by
  rcases Nat.lt_trichotomy index other with hlt | rfl | hgt
  · obtain ⟨weight, hweight⟩ := hother.earlier index hlt
    cases h.fails.symm.trans hweight
  · exact Except.error.inj (h.fails.symm.trans hother.fails)
  · obtain ⟨weight, hweight⟩ := h.earlier other hgt
    cases hother.fails.symm.trans hweight

theorem outOfRange (h : tree.FailsFirstAt path index failure) (hlength : path.length = tree.depth) :
    ∃ level id, tree.levels[index]? = some level ∧ path.ids[index]? = some id ∧
      failure = .branchOutOfRange level.number id level.branches.length := by
  have hlevel : index < tree.levels.length := h.below
  have hid : index < path.ids.length := by
    rw [show path.ids.length = tree.levels.length from hlength]
    exact hlevel
  refine ⟨_, _, List.getElem?_eq_getElem hlevel, List.getElem?_eq_getElem hid, ?_⟩
  have fails := h.fails
  rw [conditionalWeight_take (List.getElem?_eq_getElem hlevel)
    (List.getElem?_eq_getElem hid)] at fails
  cases hbranch : tree.levels[index].branch path.ids[index] with
  | ok branch => simp [hbranch, Except.map] at fails
  | error other =>
      simp only [hbranch, Except.map, Except.error.injEq] at fails
      exact fails ▸ Level.eq_branchOutOfRange hbranch

end FailsFirstAt

/-- A path of the depth of the tree has a joint weight if and only if each of its prefixes has a
    conditional weight, and then the joint weight is their product from the left. Otherwise
    weighing the path fails as weighing the least prefix that fails does, whose last decision is
    out of range at its level. A path of another length is refused for its length. -/
theorem pathWeight_prefixes (nonempty : tree.levels ≠ []) (path : Path) :
    (path.length = tree.depth →
      ((∃ weight, tree.pathWeight path = .ok weight) ↔
        ∀ index < tree.depth, ∃ weight,
          tree.conditionalWeight (path.take (index + 1)) = .ok weight) ∧
      (∀ factors : List Float, tree.prefixWeights path = factors.map .ok →
        tree.pathWeight path = .ok (factors.foldl (· * ·) 1.0)) ∧
      (∀ failure, tree.pathWeight path = .error failure ↔
        ∃ index, tree.FailsFirstAt path index failure) ∧
      (∀ index failure, tree.FailsFirstAt path index failure →
        ∃ level id, tree.levels[index]? = some level ∧ path.ids[index]? = some id ∧
          failure = .branchOutOfRange level.number id level.branches.length)) ∧
    (path.length ≠ tree.depth →
      tree.pathWeight path = .error (.pathLength tree.depth path.length)) := by
  refine ⟨fun hlength => ?_, pathWeight_of_length_ne nonempty⟩
  have hproduct : ∀ factors : List Float, tree.prefixWeights path = factors.map .ok →
      tree.pathWeight path = .ok (factors.foldl (· * ·) 1.0) :=
    fun _ => pathWeight_of_prefixWeights nonempty hlength
  have hrange := fun index failure (h : tree.FailsFirstAt path index failure) =>
    h.outOfRange hlength
  -- either every prefix has a weight and nothing fails first, or one fails first
  rcases all_ok_or_first_error (tree.prefixWeights path) with
    ⟨factors, h⟩ | ⟨factors, failure, later, h⟩
  · have hweight := hproduct factors h
    have hall : ∀ index < tree.depth, ∃ weight,
        tree.conditionalWeight (path.take (index + 1)) = .ok weight := by
      intro index hindex
      have hmem := List.mem_of_getElem? (getElem?_prefixWeights hindex path)
      rw [h] at hmem
      obtain ⟨weight, -, hok⟩ := List.mem_map.1 hmem
      exact ⟨weight, hok.symm⟩
    refine ⟨⟨fun _ => hall, fun _ => ⟨_, hweight⟩⟩, hproduct, fun failure => ?_, hrange⟩
    constructor
    · intro hfails
      cases hweight.symm.trans hfails
    · rintro ⟨index, hfirst⟩
      obtain ⟨weight, hok⟩ := hall index hfirst.below
      cases hfirst.fails.symm.trans hok
  · have hfails := pathWeight_of_first_error nonempty hlength h
    have hfirst := FailsFirstAt.of_prefixWeights h
    refine ⟨⟨?_, fun hall => ?_⟩, hproduct, fun other => ?_, hrange⟩
    · rintro ⟨weight, hweight⟩
      cases hfails.symm.trans hweight
    · obtain ⟨weight, hok⟩ := hall _ hfirst.below
      cases hfirst.fails.symm.trans hok
    · constructor
      · intro hother
        cases hfails.symm.trans hother
        exact ⟨_, hfirst⟩
      · rintro ⟨index, hother⟩
        rw [hfails, hfirst.unique hother]

/-- A choice of two and a choice of one, at levels with numbers of their own. -/
def twoThenOne : Tree String :=
  ⟨"", [⟨4, "", "", [⟨1, 0.5, .flag true, none, none⟩, ⟨2, 0.25, .flag false, none, none⟩]⟩,
    ⟨9, "", "", [⟨1, 0.125, .text "", none, none⟩]⟩], ∅⟩

theorem pathWeight_prefixes_twoThenOne :
    twoThenOne.levels ≠ [] ∧ twoThenOne.pathWeight ⟨[2, 1]⟩ = .ok 0.03125 ∧
      twoThenOne.pathWeight ⟨[3, 0]⟩ = .error (.branchOutOfRange 4 3 2) ∧
      twoThenOne.pathWeight ⟨[2, 0]⟩ = .error (.branchOutOfRange 9 0 1) ∧
      twoThenOne.pathWeight ⟨[2]⟩ = .error (.pathLength 2 1) := by
  have nonempty : twoThenOne.levels ≠ [] := by decide
  have product : [0.25, 0.125].foldl (· * ·) 1.0 = (0.03125 : Float) := by decide
  refine ⟨nonempty, ?_, ?_, ?_, (pathWeight_prefixes nonempty ⟨[2]⟩).2 (by decide)⟩
  · rw [← product]
    exact ((pathWeight_prefixes nonempty ⟨[2, 1]⟩).1 rfl).2.1 [0.25, 0.125] rfl
  · refine (((pathWeight_prefixes nonempty ⟨[3, 0]⟩).1 rfl).2.2.1 _).2 ⟨0, by decide, rfl, ?_⟩
    exact fun earlier h => absurd h (Nat.not_lt_zero earlier)
  · refine (((pathWeight_prefixes nonempty ⟨[2, 0]⟩).1 rfl).2.2.1 _).2 ⟨1, by decide, rfl, ?_⟩
    intro earlier h
    obtain rfl : earlier = 0 := by omega
    exact ⟨0.25, rfl⟩

end Tree

end LogicTree
