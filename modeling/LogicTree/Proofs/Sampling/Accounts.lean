import LogicTree.Proofs.Sampling

/-! # Accounts of draws

A call takes its draws one after the other and hands each to the next level, up to the first level
that gives nothing. So its outcome tells how many draws it took, and consecutive calls share out the
draws of a source without a gap. Of a level, a call sees the ids and weights of its branches only.
-/

namespace LogicTree

open UniformSource (next skip draws)

/-- What levels, the first of them standing at an index, give for the draws that are taken. -/
inductive Gives : Nat → List Level → List Float → Except Error (List UInt32) → Prop
  | finished {index : Nat} : Gives index [] [] (.ok [])
  | selected {index : Nat} {level : Level} {levels : List Level} {draw : Float}
      {draws : List Float} {id : UInt32} {result : Except Error (List UInt32)}
      (selects : level.SelectsId draw id) (rest : Gives (index + 1) levels draws result) :
      Gives index (level :: levels) (draw :: draws) (result.map (id :: ·))
  /-- A level without positive weights fails before it takes a draw. -/
  | empty {index : Nat} {level : Level} {levels : List Level}
      (none : ∀ position, ¬ level.PositiveAt position) :
      Gives index (level :: levels) [] (.error (.emptyLevel index))
  /-- A level whose weights fall short of its draw fails after it. -/
  | short {index : Nat} {level : Level} {levels : List Level} {draw : Float}
      (positive : ∃ position, level.PositiveAt position)
      (beyond : ∀ position, ¬ level.Selects draw position) :
      Gives index (level :: levels) [draw]
        (.error (.samplingUnderflow index draw level.cumulativeTotal))

/-- The number of draws that an outcome tells, of a call on a tree of some depth. The other errors
    are no outcomes of such a call. -/
def drawsTold {α : Type} (depth : Nat) : Except Error α → Option Nat
  | .ok _ => some depth
  | .error .emptyTree => some 0
  | .error (.emptyLevel index) => some index
  | .error (.samplingUnderflow index _ _) => some (index + 1)
  | .error _ => none

theorem drawsTold_map {α β : Type} (depth : Nat) (outcome : Except Error α) (f : α → β) :
    drawsTold depth (outcome.map f) = drawsTold depth outcome := by
  cases outcome with
  | error failure => cases failure <;> rfl
  | ok value => rfl

theorem Gives.told {index : Nat} {levels : List Level} {taken : List Float}
    {result : Except Error (List UInt32)} (h : Gives index levels taken result) :
    drawsTold (index + levels.length) result = some (index + taken.length) := by
  induction h with
  | finished => rfl
  | @selected index level levels draw taken id result _ _ ih =>
      rw [drawsTold_map, List.length_cons, List.length_cons, ← Nat.add_assoc, Nat.add_right_comm, ih]
      congr 1
      omega
  | empty => rfl
  | short => rfl

namespace UniformSource

variable {σ : Type} [UniformSource σ]

theorem length_draws (n : Nat) (source : σ) : (draws n source).length = n := by
  induction n generalizing source with
  | zero => rfl
  | succ n ih => rw [draws, List.length_cons, ih]

theorem skip_add (m n : Nat) (source : σ) : skip (m + n) source = skip n (skip m source) := by
  induction m generalizing source with
  | zero => rw [Nat.zero_add, skip]
  | succ m ih => rw [Nat.succ_add, skip, ih, skip]

theorem draws_add (m n : Nat) (source : σ) :
    draws (m + n) source = draws m source ++ draws n (skip m source) := by
  induction m generalizing source with
  | zero => rw [Nat.zero_add, draws, skip, List.nil_append]
  | succ m ih => rw [Nat.succ_add, draws, ih, draws, skip, List.cons_append]

end UniformSource

section Levels

variable {σ : Type} [UniformSource σ]

/-- A level with a positive weight takes one draw, which either selects a branch or does not. -/
theorem Level.sample_of_positive {level : Level}
    (positive : ∃ position, level.PositiveAt position) (index : Nat) (source : σ) :
    (level.sample index source).source = (next source).2 ∧
      ((∃ id, level.SelectsId (next source).1 id ∧ (level.sample index source).result = .ok id) ∨
        (∀ position, ¬ level.Selects (next source).1 position) ∧
          (level.sample index source).result =
            .error (.samplingUnderflow index (next source).1 level.cumulativeTotal)) := by
  refine ⟨Level.source_of_sample positive index source, ?_⟩
  by_cases selected : ∃ position, level.Selects (next source).1 position
  · obtain ⟨position, selects⟩ := selected
    obtain ⟨branch, atPosition, -⟩ := selects.positive
    exact .inl ⟨branch.id, ⟨position, branch, atPosition, rfl, selects⟩, selects.sample atPosition⟩
  · refine .inr ⟨not_exists.1 selected, ?_⟩
    rw [Level.exists_selects_iff, not_or] at selected
    obtain ⟨unreached, far⟩ := selected
    have noneReaches := Level.firstReaching?_eq_none_iff.2 (not_exists.1 unreached)
    cases last : level.lastPositive? with
    | none =>
        obtain ⟨position, atPosition⟩ := positive
        exact absurd atPosition (Level.lastPositive?_eq_none_iff.1 last position)
    | some fallback =>
        have notNear : ¬ level.NearlyOne := fun near => far ⟨positive, near⟩
        have fails := (Level.choose_of_none noneReaches index fallback).trans (if_neg notNear)
        simp only [Level.sample, last, fails]

theorem Level.sample_of_none {level : Level} (none : ∀ position, ¬ level.PositiveAt position)
    (index : Nat) (source : σ) :
    level.sample index source = ⟨.error (.emptyLevel index), [], source⟩ := by
  simp only [Level.sample, Level.lastPositive?_eq_none_iff.2 none]

theorem sampleLevels_cons_of_ok {index : Nat} {level : Level} {source : σ} {id : UInt32}
    (h : (level.sample index source).result = .ok id) (levels : List Level) :
    let others := sampleLevels (index + 1) levels (next source).2
    (sampleLevels index (level :: levels) source).result = others.result.map (id :: ·) ∧
      (sampleLevels index (level :: levels) source).source = others.source := by
  rw [sampleLevels, source_of_sample_ok h]
  simp only [h, and_self]

theorem sampleLevels_cons_of_error {index : Nat} {level : Level} {source : σ} {failure : Error}
    (h : (level.sample index source).result = .error failure) (levels : List Level) :
    (sampleLevels index (level :: levels) source).result = .error failure ∧
      (sampleLevels index (level :: levels) source).source = (level.sample index source).source := by
  rw [sampleLevels]
  simp only [h, and_self]

/-- A run gives what its levels give for the first draws of the source, and leaves the others. -/
theorem gives_sampleLevels (index : Nat) (levels : List Level) (source : σ) :
    ∃ taken, Gives index levels (draws taken source) (sampleLevels index levels source).result ∧
      (sampleLevels index levels source).source = skip taken source := by
  induction levels generalizing index source with
  | nil => exact ⟨0, .finished, rfl⟩
  | cons level levels ih =>
      by_cases positive : ∃ position, level.PositiveAt position
      · obtain ⟨rest, ⟨id, selects, result⟩ | ⟨beyond, result⟩⟩ :=
          Level.sample_of_positive positive index source
        · obtain ⟨taken, gives, left⟩ := ih (index + 1) (next source).2
          obtain ⟨sameResult, sameSource⟩ := sampleLevels_cons_of_ok result levels
          rw [sameResult, sameSource]
          exact ⟨taken + 1, .selected selects gives, left⟩
        · obtain ⟨sameResult, sameSource⟩ := sampleLevels_cons_of_error result levels
          rw [sameResult, sameSource, rest]
          exact ⟨1, .short positive beyond, rfl⟩
      · have empty := Level.sample_of_none (not_exists.1 positive) index source
        obtain ⟨sameResult, sameSource⟩ :=
          sampleLevels_cons_of_error (congrArg Sampled.result empty) levels
        rw [sameResult, sameSource, empty]
        exact ⟨0, .empty (not_exists.1 positive), rfl⟩

end Levels

/-! ## What a call sees of a level -/

namespace Level

/-- The ids and weights of the branches. -/
def choices (level : Level) : List (UInt32 × Float) :=
  level.branches.map fun branch => (branch.id, branch.weight)

variable {a b : Level} (same : a.choices = b.choices)
include same

theorem weights_eq_of_choices : a.weights = b.weights := by
  have second := congrArg (List.map Prod.snd) same
  simpa [choices, weights, Function.comp_def] using second

theorem branch_of_choices {position : Nat} {branch : Branch}
    (h : a.branches[position]? = some branch) :
    ∃ other, b.branches[position]? = some other ∧ other.id = branch.id := by
  have entry := congrArg (·[position]?) same
  simp only [choices, List.getElem?_map, h, Option.map_some] at entry
  obtain ⟨other, found, pair⟩ := Option.map_eq_some_iff.1 entry.symm
  exact ⟨other, found, congrArg Prod.fst pair⟩

theorem SelectsId.of_choices {draw : Float} {id : UInt32} (h : a.SelectsId draw id) :
    b.SelectsId draw id := by
  obtain ⟨position, branch, found, rfl, selects⟩ := h
  obtain ⟨other, otherFound, sameId⟩ := branch_of_choices same found
  exact ⟨position, other, otherFound, sameId, selects.of_weights (weights_eq_of_choices same)⟩

variable {σ : Type} [UniformSource σ]

theorem sample_eq_of_choices (index : Nat) (source : σ) :
    (a.sample index source).result = (b.sample index source).result ∧
      (a.sample index source).source = (b.sample index source).source := by
  have sameWeights := weights_eq_of_choices same
  by_cases positive : ∃ position, a.PositiveAt position
  · have otherPositive : ∃ position, b.PositiveAt position :=
      positive.imp fun position => .of_weights sameWeights
    rw [source_of_sample positive, source_of_sample otherPositive]
    refine ⟨?_, rfl⟩
    obtain ⟨-, ⟨id, selects, result⟩ | ⟨beyond, result⟩⟩ := sample_of_positive positive index source
    · rw [result, sample_eq_ok_iff.2 (selects.of_choices same)]
    · obtain ⟨-, ⟨id, selects, -⟩ | ⟨-, otherResult⟩⟩ :=
        sample_of_positive otherPositive index source
      · obtain ⟨position, -, -, -, hselects⟩ := selects
        exact absurd (hselects.of_weights sameWeights.symm) (beyond position)
      · rw [result, otherResult, cumulativeTotal_eq_of_weights sameWeights]
  · have none := not_exists.1 positive
    have otherNone : ∀ position, ¬ b.PositiveAt position := fun position hpositive =>
      none position (hpositive.of_weights sameWeights.symm)
    rw [sample_of_none none, sample_of_none otherNone]
    exact ⟨rfl, rfl⟩

end Level

theorem sampleLevels_eq_of_choices {σ : Type} [UniformSource σ] {as bs : List Level}
    (same : as.map Level.choices = bs.map Level.choices) (index : Nat) (source : σ) :
    (sampleLevels index as source).result = (sampleLevels index bs source).result ∧
      (sampleLevels index as source).source = (sampleLevels index bs source).source := by
  induction as generalizing bs index source with
  | nil =>
      rw [List.map_nil, eq_comm, List.map_eq_nil_iff] at same
      rw [same]
      exact ⟨rfl, rfl⟩
  | cons a as ih =>
      cases bs with
      | nil => cases same
      | cons b bs =>
          obtain ⟨sameFirst, sameRest⟩ := List.cons.inj same
          obtain ⟨sameResult, sameSource⟩ := Level.sample_eq_of_choices sameFirst index source
          cases result : (a.sample index source).result with
          | ok id =>
              obtain ⟨left, leftSource⟩ := sampleLevels_cons_of_ok result as
              obtain ⟨right, rightSource⟩ :=
                sampleLevels_cons_of_ok (sameResult.symm.trans result) bs
              obtain ⟨others, othersSource⟩ := ih sameRest (index + 1) (next source).2
              rw [left, leftSource, right, rightSource, others, othersSource]
              exact ⟨rfl, rfl⟩
          | error failure =>
              obtain ⟨left, leftSource⟩ := sampleLevels_cons_of_error result as
              obtain ⟨right, rightSource⟩ :=
                sampleLevels_cons_of_error (sameResult.symm.trans result) bs
              rw [left, leftSource, right, rightSource]
              exact ⟨rfl, sameSource⟩

/-! ## Consecutive calls -/

namespace Tree

variable {E F σ : Type} [UniformSource σ]

/-- The outcomes of a number of consecutive calls, and what they leave of the source. -/
def samplePaths (tree : Tree E) : Nat → σ → List (Except Error Path) × σ
  | 0, source => ([], source)
  | times + 1, source =>
      let first := tree.samplePath source
      let others := tree.samplePaths times first.source
      (first.result :: others.1, others.2)

/-- What a call on a tree gives for the draws that it takes. -/
inductive Answers (tree : Tree E) : List Float → Except Error Path → Prop
  | levelless (none : tree.levels = []) : Answers tree [] (.error .emptyTree)
  | levels {taken : List Float} {result : Except Error (List UInt32)} (some : tree.levels ≠ [])
      (gives : Gives 0 tree.levels taken result) : Answers tree taken (result.map Path.mk)

theorem Answers.told {tree : Tree E} {taken : List Float} {outcome : Except Error Path}
    (h : tree.Answers taken outcome) : drawsTold tree.depth outcome = some taken.length := by
  cases h with
  | levelless => rfl
  | levels _ gives =>
      rw [drawsTold_map, depth, ← Nat.zero_add tree.levels.length, gives.told, Nat.zero_add]

theorem answers_samplePath (tree : Tree E) (source : σ) :
    ∃ taken, tree.Answers (draws taken source) (tree.samplePath source).result ∧
      (tree.samplePath source).source = skip taken source := by
  by_cases levelless : tree.levels = []
  · have empty : tree.samplePath source = ⟨.error .emptyTree, [], source⟩ := by
      simp [samplePath, requireLevels, levelless]
    rw [empty]
    exact ⟨0, .levelless levelless, rfl⟩
  · obtain ⟨taken, gives, left⟩ := gives_sampleLevels 0 tree.levels source
    simp only [samplePath, requireLevels_ok_iff.2 levelless]
    exact ⟨taken, .levels levelless gives, left⟩

/-- Consecutive calls share out the first draws of the source, and leave the others. -/
theorem answers_samplePaths (tree : Tree E) (times : Nat) (source : σ) :
    ∃ shares : List (List Float),
      List.Forall₂ tree.Answers shares (tree.samplePaths times source).1 ∧
      shares.flatten = draws shares.flatten.length source ∧
      (tree.samplePaths times source).2 = skip shares.flatten.length source := by
  induction times generalizing source with
  | zero => exact ⟨[], .nil, rfl, rfl⟩
  | succ times ih =>
      obtain ⟨taken, answers, left⟩ := tree.answers_samplePath source
      obtain ⟨shares, others, inOrder, rest⟩ := ih (tree.samplePath source).source
      rw [left] at inOrder rest
      refine ⟨draws taken source :: shares, .cons answers others, ?_, ?_⟩
      · rw [List.flatten_cons, List.length_append, UniformSource.length_draws,
          UniformSource.draws_add, ← inOrder]
      · rw [List.flatten_cons, List.length_append, UniformSource.length_draws,
          UniformSource.skip_add, ← rest, samplePaths, left]

/-- The ids and weights of all branches, level by level. -/
def choices (tree : Tree E) : List (List (UInt32 × Float)) :=
  tree.levels.map Level.choices

theorem samplePath_eq_of_choices {tree : Tree E} {other : Tree F}
    (same : other.choices = tree.choices) (source : σ) :
    (other.samplePath source).result = (tree.samplePath source).result ∧
      (other.samplePath source).source = (tree.samplePath source).source := by
  have bothEmpty : other.levels.isEmpty = tree.levels.isEmpty := by
    have lengths := congrArg List.length same
    simp only [choices, List.length_map] at lengths
    rw [Bool.eq_iff_iff, List.isEmpty_iff_length_eq_zero, List.isEmpty_iff_length_eq_zero, lengths]
  obtain ⟨result, left⟩ := sampleLevels_eq_of_choices same 0 source
  simp only [samplePath, requireLevels, bothEmpty]
  cases tree.levels.isEmpty with
  | true => exact ⟨rfl, rfl⟩
  | false => exact ⟨congrArg (Except.map Path.mk) result, left⟩

/-- Consecutive calls take the draws of a source in order and without a gap. Each hands its share
    to the levels one by one, and its outcome tells how long the share is. Trees with the same ids
    and weights have the same outcomes and leave the same of the source. -/
theorem samplePaths_account (tree : Tree E) (times : Nat) (source : σ) :
    ((tree.samplePaths times source).1.length = times ∧
      ∃ shares : List (List Float),
        List.Forall₂
          (fun share outcome =>
            tree.Answers share outcome ∧ drawsTold tree.depth outcome = some share.length)
          shares (tree.samplePaths times source).1 ∧
        shares.flatten = draws shares.flatten.length source ∧
        (tree.samplePaths times source).2 = skip shares.flatten.length source) ∧
    ∀ {F : Type} (other : Tree F), other.choices = tree.choices →
      other.samplePaths times source = tree.samplePaths times source := by
  refine ⟨⟨?_, ?_⟩, ?_⟩
  · induction times generalizing source with
    | zero => rfl
    | succ times ih => rw [samplePaths, List.length_cons, ih]
  · obtain ⟨shares, answers, inOrder, left⟩ := tree.answers_samplePaths times source
    exact ⟨shares, answers.imp fun _ _ answer => ⟨answer, answer.told⟩, inOrder, left⟩
  · intro F other same
    induction times generalizing source with
    | zero => rfl
    | succ times ih =>
        obtain ⟨result, left⟩ := samplePath_eq_of_choices same source
        rw [samplePaths, samplePaths, result, left, ih]

/-- A choice of two, and one whose only weight falls short of most draws. -/
def fallingShort : Tree String :=
  ⟨"", [⟨0, "", "", [⟨1, 0.5, .flag true, none, none⟩, ⟨2, 0.5, .flag false, none, none⟩]⟩,
    ⟨1, "", "", [⟨1, 0.25, .flag true, none, none⟩]⟩], ∅⟩

/-- The same ids and weights, with other names, numbers, payloads and elements. -/
def relabelled : Tree Float :=
  ⟨"model", [⟨7, "first", "all", [⟨1, 0.5, .integer 4, some ⟨"rule", .text "x"⟩, none⟩,
      ⟨2, 0.5, .number 1.5, none, some "file"⟩]⟩,
    ⟨7, "second", "some", [⟨1, 0.25, .text "", none, none⟩]⟩], ∅⟩

theorem samplePaths_account_relabelled :
    let source := Replay.start 0.25 [0.125, 0.625, 0.875]
    relabelled.choices = fallingShort.choices ∧
      (fallingShort.samplePaths 2 source).1 =
        [.ok ⟨[1, 1]⟩, .error (.samplingUnderflow 1 0.875 0.25)] ∧
      relabelled.samplePaths 2 source = fallingShort.samplePaths 2 source := by
  intro source
  have same : relabelled.choices = fallingShort.choices := rfl
  have outcomes : (fallingShort.samplePaths 2 source).1 =
      [.ok ⟨[1, 1]⟩, .error (.samplingUnderflow 1 0.875 0.25)] := rfl
  exact ⟨same, outcomes, (samplePaths_account fallingShort 2 source).2 relabelled same⟩

end Tree

end LogicTree
