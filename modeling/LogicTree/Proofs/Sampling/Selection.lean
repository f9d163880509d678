import Mathlib
import LogicTree.Sampling

/-! # Which branch a draw selects

A draw selects the first position of positive weight that it is reached at, or the last position of
positive weight where it is reached at none and the weights sum to about one. This says what a level
gives for a draw, whatever its weights and ids are; a run gives for each level what the draw taken
there selects.
-/

namespace LogicTree

namespace UniformSource

variable {σ : Type} [UniformSource σ]

/-- What is left of a source after a number of draws. -/
def skip : Nat → σ → σ
  | 0, source => source
  | n + 1, source => skip n (next source).2

/-- The next draws of a source. -/
def draws : Nat → σ → List Float
  | 0, _ => []
  | n + 1, source => (next source).1 :: draws n (next source).2

/-- All draws of a source are of a kind, however many are taken. -/
def HandsOut (kind : Float → Prop) (source : σ) : Prop :=
  ∀ n, ∀ draw ∈ draws n source, kind draw

theorem HandsOut.next {kind : Float → Prop} {source : σ} (h : HandsOut kind source) :
    kind (next source).1 ∧ HandsOut kind (next source).2 :=
  ⟨h 1 _ List.mem_cons_self, fun n draw hdraw => h (n + 1) draw (List.mem_cons_of_mem _ hdraw)⟩

/-- What one draw keeps of a source, and says of the draw, holds of all draws. -/
theorem handsOut_of_invariant {kind : Float → Prop} (invariant : σ → Prop)
    (step : ∀ source, invariant source → kind (next source).1 ∧ invariant (next source).2)
    {source : σ} (h : invariant source) : HandsOut kind source := by
  intro n
  induction n generalizing source with
  | zero => simp [draws]
  | succ n ih =>
      obtain ⟨hdraw, hrest⟩ := step source h
      exact List.forall_mem_cons.2 ⟨hdraw, ih hrest⟩

theorem handsOut_true (source : σ) : HandsOut (fun _ => True) source :=
  fun _ _ _ => trivial

theorem taken_skip (n : Nat) (counted : Counted σ) :
    (skip n counted).taken = counted.taken + n := by
  induction n generalizing counted with
  | zero => rfl
  | succ n ih =>
      rw [skip, ih]
      change counted.taken + 1 + n = counted.taken + (n + 1)
      omega

end UniformSource

namespace Level

variable {level : Level} {draw : Float}

/-- The sum of the weights before a position, added to zero one after the other. -/
def sumBefore (level : Level) (position : Nat) : Float :=
  (level.weights.take position).foldl (· + ·) 0.0

/-- The branch at a position has a positive weight. -/
def PositiveAt (level : Level) (position : Nat) : Prop :=
  ∃ branch, level.branches[position]? = some branch ∧ branch.weight > 0.0

/-- The branch at a position has a positive weight, and with it the weights reach the draw. -/
def ReachedAt (level : Level) (draw : Float) (position : Nat) : Prop :=
  level.PositiveAt position ∧ level.sumBefore (position + 1) ≥ draw

/-- No branch after a position has a positive weight. -/
def NonePositiveAfter (level : Level) (position : Nat) : Prop :=
  ∀ later > position, ¬ level.PositiveAt later

/-- The weights sum to one, up to rounding. -/
def NearlyOne (level : Level) : Prop :=
  (level.cumulativeTotal - 1.0).abs ≤ weightTolerance

/-- A draw selects a position of positive weight: it is reached there, or nowhere but the weights
    sum to about one, and it is not reached before. -/
structure Selects (level : Level) (draw : Float) (position : Nat) : Prop where
  positive : level.PositiveAt position
  first : ∀ earlier < position, ¬ level.ReachedAt draw earlier
  reached : level.sumBefore (position + 1) ≥ draw ∨
    level.NonePositiveAfter position ∧ level.NearlyOne

/-- A draw selects a branch with an id. -/
def SelectsId (level : Level) (draw : Float) (id : UInt32) : Prop :=
  ∃ position branch, level.branches[position]? = some branch ∧ branch.id = id ∧
    level.Selects draw position

/-- Every draw of a kind selects a branch. -/
def Serves (level : Level) (kind : Float → Prop) : Prop :=
  ∀ draw, kind draw → ∃ position, level.Selects draw position

theorem positiveAt_iff {position : Nat} {branch : Branch}
    (h : level.branches[position]? = some branch) :
    level.PositiveAt position ↔ branch.weight > 0.0 := by
  simp [PositiveAt, h]

theorem exists_positiveAt_iff :
    (∃ position, level.PositiveAt position) ↔ ∃ w ∈ level.weights, w > 0.0 := by
  constructor
  · rintro ⟨position, branch, hbranch, hpositive⟩
    exact ⟨_, List.mem_map_of_mem (List.mem_of_getElem? hbranch), hpositive⟩
  · rintro ⟨_, hw, hpositive⟩
    obtain ⟨branch, hmem, rfl⟩ := List.mem_map.1 hw
    obtain ⟨position, hbranch⟩ := List.mem_iff_getElem?.1 hmem
    exact ⟨position, branch, hbranch, hpositive⟩

/-! ## Running sums -/

theorem getElem?_runningSums {weights : List Float} {position : Nat}
    (h : position < weights.length) (start : Float) :
    (runningSums start weights)[position]? =
      some ((weights.take (position + 1)).foldl (· + ·) start) := by
  induction weights generalizing position start with
  | nil => simp at h
  | cons weight weights ih =>
      cases position with
      | zero => rfl
      | succ position =>
          rw [runningSums, List.getElem?_cons_succ, ih (by simpa using h), List.take_succ_cons,
            List.foldl_cons]

theorem getElem?_cumulativeWeights {position : Nat} (h : position < level.branches.length) :
    (cumulativeWeights level.weights)[position]? = some (level.sumBefore (position + 1)) :=
  getElem?_runningSums (by simpa [weights] using h) 0.0

/-! ## The search -/

theorem getElem?_zip_sums_iff {position : Nat} {row : Float × Branch} :
    ((cumulativeWeights level.weights).zip level.branches)[position]? = some row ↔
      row.1 = level.sumBefore (position + 1) ∧ level.branches[position]? = some row.2 := by
  rw [List.getElem?_zip_eq_some]
  refine and_congr_left fun hbranch => ?_
  rw [getElem?_cumulativeWeights (List.getElem?_eq_some_iff.1 hbranch).1, Option.some_inj, eq_comm]

theorem getElem?_zip_sums {position : Nat} {branch : Branch}
    (h : level.branches[position]? = some branch) :
    ((cumulativeWeights level.weights).zip level.branches)[position]? =
      some (level.sumBefore (position + 1), branch) :=
  getElem?_zip_sums_iff.2 ⟨rfl, h⟩

theorem test_iff_reachedAt {position : Nat} {row : Float × Branch}
    (h : ((cumulativeWeights level.weights).zip level.branches)[position]? = some row) :
    (decide (row.2.weight > 0.0) && decide (row.1 ≥ draw)) = true ↔
      level.ReachedAt draw position := by
  obtain ⟨hsum, hbranch⟩ := getElem?_zip_sums_iff.1 h
  rw [hsum, Bool.and_eq_true, decide_eq_true_iff, decide_eq_true_iff, ReachedAt,
    positiveAt_iff hbranch]

theorem find?_eq_some_iff_getElem? {α : Type} {test : α → Bool} {values : List α} {value : α} :
    values.find? test = some value ↔
      ∃ position : Nat, values[position]? = some value ∧ test value = true ∧
        ∀ earlier < position, ∀ other : α, values[earlier]? = some other → ¬ test other = true := by
  rw [List.find?_eq_some_iff_getElem]
  constructor
  · rintro ⟨htest, position, hposition, hget, hbefore⟩
    refine ⟨position, List.getElem?_eq_some_iff.2 ⟨hposition, hget⟩, htest, ?_⟩
    intro earlier hearlier other hother
    obtain ⟨hlt, rfl⟩ := List.getElem?_eq_some_iff.1 hother
    simpa using hbefore earlier hearlier
  · rintro ⟨position, hget, htest, hbefore⟩
    obtain ⟨hposition, hget⟩ := List.getElem?_eq_some_iff.1 hget
    refine ⟨htest, position, hposition, hget, ?_⟩
    intro earlier hearlier
    have hlt := hearlier.trans hposition
    simpa using hbefore earlier hearlier _ (List.getElem?_eq_getElem hlt)

theorem find?_reverse_eq_some_iff_getElem? {α : Type} {test : α → Bool} {values : List α}
    {value : α} :
    values.reverse.find? test = some value ↔
      ∃ position : Nat, values[position]? = some value ∧ test value = true ∧
        ∀ later > position, ∀ other : α, values[later]? = some other → ¬ test other = true := by
  -- positions are counted from the other end
  have hmirror : ∀ {position : Nat}, position < values.length →
      values.reverse[values.length - 1 - position]? = values[position]? := by
    intro position hposition
    rw [List.getElem?_reverse (by omega)]
    congr 1
    omega
  rw [find?_eq_some_iff_getElem?]
  constructor
  · rintro ⟨position, hget, htest, hbefore⟩
    have hposition : position < values.length := by
      simpa using (List.getElem?_eq_some_iff.1 hget).1
    rw [List.getElem?_reverse hposition] at hget
    refine ⟨values.length - 1 - position, hget, htest, ?_⟩
    intro later hlater other hother
    have hbound := (List.getElem?_eq_some_iff.1 hother).1
    rw [← hmirror hbound] at hother
    exact hbefore _ (by omega) other hother
  · rintro ⟨position, hget, htest, hafter⟩
    have hposition := (List.getElem?_eq_some_iff.1 hget).1
    refine ⟨values.length - 1 - position, (hmirror hposition).trans hget, htest, ?_⟩
    intro earlier hearlier other hother
    rw [List.getElem?_reverse (by omega)] at hother
    exact hafter _ (by omega) other hother

theorem firstReaching?_eq_some_iff {branch : Branch} :
    level.firstReaching? draw = some branch ↔
      ∃ position, level.branches[position]? = some branch ∧ level.ReachedAt draw position ∧
        ∀ earlier < position, ¬ level.ReachedAt draw earlier := by
  rw [firstReaching?, Option.map_eq_some_iff]
  simp only [find?_eq_some_iff_getElem?]
  constructor
  · rintro ⟨row, ⟨position, hrow, htest, hbefore⟩, rfl⟩
    refine ⟨position, (getElem?_zip_sums_iff.1 hrow).2, (test_iff_reachedAt hrow).1 htest, ?_⟩
    intro earlier hearlier hreached
    obtain ⟨other, hother, -⟩ := hreached.1
    have hrow' := getElem?_zip_sums hother
    exact hbefore earlier hearlier _ hrow' ((test_iff_reachedAt hrow').2 hreached)
  · rintro ⟨position, hbranch, hreached, hbefore⟩
    have hrow := getElem?_zip_sums hbranch
    refine ⟨_, ⟨position, hrow, (test_iff_reachedAt hrow).2 hreached, ?_⟩, rfl⟩
    intro earlier hearlier other hother htest
    exact hbefore earlier hearlier ((test_iff_reachedAt hother).1 htest)

theorem firstReaching?_eq_none_iff :
    level.firstReaching? draw = none ↔ ∀ position, ¬ level.ReachedAt draw position := by
  rw [firstReaching?, Option.map_eq_none_iff, List.find?_eq_none]
  constructor
  · intro hnone position hreached
    obtain ⟨branch, hbranch, -⟩ := hreached.1
    have hrow := getElem?_zip_sums hbranch
    exact hnone _ (List.mem_of_getElem? hrow) ((test_iff_reachedAt hrow).2 hreached)
  · intro hnone row hmem htest
    obtain ⟨position, hrow⟩ := List.mem_iff_getElem?.1 hmem
    exact hnone position ((test_iff_reachedAt hrow).1 htest)

theorem lastPositive?_eq_some_iff {branch : Branch} :
    level.lastPositive? = some branch ↔
      ∃ position, level.branches[position]? = some branch ∧ level.PositiveAt position ∧
        level.NonePositiveAfter position := by
  rw [lastPositive?, find?_reverse_eq_some_iff_getElem?]
  simp only [decide_eq_true_iff]
  constructor
  · rintro ⟨position, hbranch, hpositive, hafter⟩
    refine ⟨position, hbranch, (positiveAt_iff hbranch).2 hpositive, ?_⟩
    rintro later hlater ⟨other, hother, hother'⟩
    exact hafter later hlater other hother hother'
  · rintro ⟨position, hbranch, hpositive, hafter⟩
    refine ⟨position, hbranch, (positiveAt_iff hbranch).1 hpositive, ?_⟩
    intro later hlater other hother hother'
    exact hafter later hlater ⟨other, hother, hother'⟩

theorem lastPositive?_eq_none_iff :
    level.lastPositive? = none ↔ ∀ position, ¬ level.PositiveAt position := by
  rw [lastPositive?, List.find?_eq_none]
  constructor
  · rintro hnone position ⟨branch, hbranch, hpositive⟩
    exact hnone branch (List.mem_reverse.2 (List.mem_of_getElem? hbranch)) (by simpa using hpositive)
  · intro hnone branch hmem hpositive
    obtain ⟨position, hget⟩ := List.mem_iff_getElem?.1 (List.mem_reverse.1 hmem)
    exact hnone position ⟨branch, hget, by simpa using hpositive⟩

/-! ## The outcome for a level -/

theorem Selects.eq {p q : Nat} (hp : level.Selects draw p) (hq : level.Selects draw q) :
    p = q := by
  have hnot : ∀ {p q}, level.Selects draw p → level.Selects draw q → ¬ p < q := by
    intro p q hp hq hlt
    rcases hp.reached with hreached | ⟨hafter, -⟩
    · exact hq.first p hlt ⟨hp.positive, hreached⟩
    · exact hafter q hlt hq.positive
  have := hnot hp hq
  have := hnot hq hp
  omega

/-- The first position at which a draw is reached is selected, and the last of positive weight if
    there is none. -/
theorem exists_selects_iff :
    (∃ position, level.Selects draw position) ↔
      (∃ position, level.ReachedAt draw position) ∨
        (∃ position, level.PositiveAt position) ∧ level.NearlyOne := by
  constructor
  · rintro ⟨position, hpositive, -, hreached | ⟨-, hnear⟩⟩
    · exact .inl ⟨position, hpositive, hreached⟩
    · exact .inr ⟨⟨position, hpositive⟩, hnear⟩
  · intro h
    cases hfirst : level.firstReaching? draw with
    | some branch =>
        obtain ⟨position, -, ⟨hpositive, hreached⟩, hbefore⟩ := firstReaching?_eq_some_iff.1 hfirst
        exact ⟨position, hpositive, hbefore, .inl hreached⟩
    | none =>
        have hnone := firstReaching?_eq_none_iff.1 hfirst
        obtain ⟨⟨p, hp⟩, hnear⟩ := h.resolve_left fun ⟨p, hp⟩ => hnone p hp
        cases hlast : level.lastPositive? with
        | none => exact absurd hp (lastPositive?_eq_none_iff.1 hlast p)
        | some branch =>
            obtain ⟨position, -, hpositive, hafter⟩ := lastPositive?_eq_some_iff.1 hlast
            exact ⟨position, hpositive, fun earlier _ => hnone earlier, .inr ⟨hafter, hnear⟩⟩

/-! ## What selecting reads of a level -/

section

variable {a b : Level} (same : a.weights = b.weights)
include same

theorem sumBefore_eq_of_weights (position : Nat) : a.sumBefore position = b.sumBefore position := by
  rw [sumBefore, sumBefore, same]

theorem cumulativeTotal_eq_of_weights : a.cumulativeTotal = b.cumulativeTotal := by
  rw [cumulativeTotal, cumulativeTotal, same]

theorem PositiveAt.of_weights {position : Nat} (h : a.PositiveAt position) :
    b.PositiveAt position := by
  obtain ⟨branch, found, positive⟩ := h
  have entry := congrArg (·[position]?) same
  simp only [weights, List.getElem?_map, found, Option.map_some] at entry
  obtain ⟨other, otherFound, weight⟩ := Option.map_eq_some_iff.1 entry.symm
  exact ⟨other, otherFound, weight ▸ positive⟩

theorem positiveAt_iff_of_weights (position : Nat) :
    a.PositiveAt position ↔ b.PositiveAt position :=
  ⟨.of_weights same, .of_weights same.symm⟩

theorem Selects.of_weights {position : Nat} (h : a.Selects draw position) :
    b.Selects draw position := by
  have positive := positiveAt_iff_of_weights same
  have sums := sumBefore_eq_of_weights same
  refine ⟨(positive position).1 h.positive, ?_, ?_⟩
  · intro earlier before reached
    apply h.first earlier before
    rw [ReachedAt, positive, sums]
    exact reached
  · rw [← sums]
    apply h.reached.imp_right
    rintro ⟨last, near⟩
    refine ⟨fun later after hpositive => last later after ((positive later).2 hpositive), ?_⟩
    rw [NearlyOne, ← cumulativeTotal_eq_of_weights same]
    exact near

end

/-! ## Draws from a level -/

variable {σ : Type} [UniformSource σ]

theorem choose_of_firstReaching? {branch fallback : Branch} {index : Nat}
    (h : level.firstReaching? draw = some branch) :
    level.choose index fallback draw = .ok ⟨branch, false⟩ := by
  rw [choose, h]

theorem choose_of_none (h : level.firstReaching? draw = none) (index : Nat) (fallback : Branch) :
    level.choose index fallback draw =
      if (level.cumulativeTotal - 1.0).abs ≤ weightTolerance then .ok ⟨fallback, true⟩
      else .error (.samplingUnderflow index draw level.cumulativeTotal) := by
  rw [choose, h]

theorem sample_of_choose {index : Nat} {source : σ} {fallback : Branch} {choice : Choice}
    (hlast : level.lastPositive? = some fallback)
    (hchoice : level.choose index fallback (UniformSource.next source).1 = .ok choice) :
    (level.sample index source).result = .ok choice.branch.id := by
  simp only [Level.sample, hlast, hchoice]

theorem Selects.sample {position index : Nat} {branch : Branch} {source : σ}
    (h : level.Selects (UniformSource.next source).1 position)
    (hbranch : level.branches[position]? = some branch) :
    (level.sample index source).result = .ok branch.id := by
  cases hlast : level.lastPositive? with
  | none => exact absurd h.positive (lastPositive?_eq_none_iff.1 hlast position)
  | some fallback =>
      by_cases hreached : level.ReachedAt (UniformSource.next source).1 position
      · have hfirst := firstReaching?_eq_some_iff.2 ⟨position, hbranch, hreached, h.first⟩
        exact sample_of_choose hlast (choose_of_firstReaching? hfirst)
      · -- not reached here, so reached nowhere, and the last position of positive weight is this one
        obtain ⟨hafter, hnear⟩ := h.reached.resolve_left fun hle => hreached ⟨h.positive, hle⟩
        have hnone : level.firstReaching? (UniformSource.next source).1 = none := by
          refine firstReaching?_eq_none_iff.2 fun other hother => ?_
          rcases lt_trichotomy other position with before | rfl | after
          · exact h.first other before hother
          · exact hreached hother
          · exact hafter other after hother.1
        have hsame := lastPositive?_eq_some_iff.2 ⟨position, hbranch, h.positive, hafter⟩
        obtain rfl : fallback = branch := Option.some_inj.1 (hlast.symm.trans hsame)
        exact sample_of_choose hlast ((choose_of_none hnone index fallback).trans (if_pos hnear))

theorem sample_eq_ok_iff {index : Nat} {source : σ} {id : UInt32} :
    (level.sample index source).result = .ok id ↔
      level.SelectsId (UniformSource.next source).1 id := by
  constructor
  · intro h
    have hselects : ∃ position, level.Selects (UniformSource.next source).1 position := by
      rw [exists_selects_iff]
      by_contra hnot
      obtain ⟨hreached, hnear⟩ := not_or.1 hnot
      have hnone := firstReaching?_eq_none_iff.2 (not_exists.1 hreached)
      cases hlast : level.lastPositive? with
      | none => simp [Level.sample, hlast] at h
      | some fallback =>
          obtain ⟨position, -, hpositive, -⟩ := lastPositive?_eq_some_iff.1 hlast
          have hfar : ¬ level.NearlyOne := fun hclose => hnear ⟨⟨position, hpositive⟩, hclose⟩
          have hchoice := (choose_of_none hnone index fallback).trans (if_neg hfar)
          simp [Level.sample, hlast, hchoice] at h
    obtain ⟨position, hposition⟩ := hselects
    obtain ⟨branch, hbranch, -⟩ := hposition.positive
    have hid := Except.ok.inj ((hposition.sample hbranch).symm.trans h)
    exact ⟨position, branch, hbranch, hid, hposition⟩
  · rintro ⟨position, branch, hbranch, rfl, hposition⟩
    exact hposition.sample hbranch

theorem source_of_sample (h : ∃ position, level.PositiveAt position) (index : Nat) (source : σ) :
    (level.sample index source).source = (UniformSource.next source).2 := by
  cases hlast : level.lastPositive? with
  | none =>
      obtain ⟨position, hpositive⟩ := h
      exact absurd hpositive (lastPositive?_eq_none_iff.1 hlast position)
  | some fallback =>
      simp only [Level.sample, hlast]
      split <;> rfl

end Level

/-! ## Runs over levels -/

section Runs

variable {σ : Type} [UniformSource σ] {levels : List Level}

theorem sampleLevels_cons_eq_ok_iff {index : Nat} {level : Level} {source : σ}
    {ids : List UInt32} :
    (sampleLevels index (level :: levels) source).result = .ok ids ↔
      ∃ id rest, (level.sample index source).result = .ok id ∧
        (sampleLevels (index + 1) levels (level.sample index source).source).result = .ok rest ∧
        ids = id :: rest := by
  rw [sampleLevels]
  cases hfirst : (level.sample index source).result with
  | error failure => simp
  | ok id =>
      cases hrest : (sampleLevels (index + 1) levels (level.sample index source).source).result with
      | error failure => simp [hrest, Except.map]
      | ok rest => simp [hrest, Except.map, eq_comm]

theorem source_of_sample_ok {index : Nat} {level : Level} {source : σ} {id : UInt32}
    (h : (level.sample index source).result = .ok id) :
    (level.sample index source).source = (UniformSource.next source).2 := by
  obtain ⟨position, -, -, -, hselects⟩ := Level.sample_eq_ok_iff.1 h
  exact Level.source_of_sample ⟨position, hselects.positive⟩ index source

theorem selectsId_of_sampleLevels {kind : Float → Prop} {index : Nat} {source : σ}
    {ids : List UInt32} (hands : UniformSource.HandsOut kind source)
    (h : (sampleLevels index levels source).result = .ok ids) :
    List.Forall₂ (fun level id => ∃ draw, kind draw ∧ level.SelectsId draw id) levels ids := by
  induction levels generalizing index source ids with
  | nil =>
      cases h
      exact .nil
  | cons level levels ih =>
      obtain ⟨hdraw, hlater⟩ := hands.next
      obtain ⟨id, rest, hid, hrest, rfl⟩ := sampleLevels_cons_eq_ok_iff.1 h
      rw [source_of_sample_ok hid] at hrest
      exact .cons ⟨_, hdraw, Level.sample_eq_ok_iff.1 hid⟩ (ih hlater hrest)

theorem source_of_sampleLevels {index : Nat} {source : σ} {ids : List UInt32}
    (h : (sampleLevels index levels source).result = .ok ids) :
    (sampleLevels index levels source).source = UniformSource.skip levels.length source := by
  induction levels generalizing index source ids with
  | nil => rfl
  | cons level levels ih =>
      obtain ⟨id, rest, hid, hrest, -⟩ := sampleLevels_cons_eq_ok_iff.1 h
      have hsource := source_of_sample_ok hid
      rw [sampleLevels]
      simp only [hid]
      rw [ih hrest, hsource]
      rfl

theorem sampleLevels_of_serves {kind : Float → Prop}
    (serves : ∀ level ∈ levels, level.Serves kind) {source : σ}
    (hands : UniformSource.HandsOut kind source) (index : Nat) :
    ∃ ids, (sampleLevels index levels source).result = .ok ids := by
  induction levels generalizing index source with
  | nil => exact ⟨[], rfl⟩
  | cons level levels ih =>
      obtain ⟨hlevel, hlevels⟩ := List.forall_mem_cons.1 serves
      obtain ⟨hdraw, hlater⟩ := hands.next
      obtain ⟨position, hselects⟩ := hlevel _ hdraw
      obtain ⟨branch, hbranch, -⟩ := hselects.positive
      have hid : (level.sample index source).result = .ok branch.id := hselects.sample hbranch
      rw [← source_of_sample_ok hid] at hlater
      obtain ⟨rest, hrest⟩ := ih hlevels hlater (index + 1)
      exact ⟨branch.id :: rest, sampleLevels_cons_eq_ok_iff.2 ⟨branch.id, rest, hid, hrest, rfl⟩⟩

end Runs

end LogicTree
