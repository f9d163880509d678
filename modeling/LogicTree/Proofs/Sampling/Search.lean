import LogicTree.Proofs.Sampling.Accounts
import LogicTree.Proofs.Sampling.UnitRuns

/-! # The search for a draw

What a draw selects at a level depends on the weights only, and a smaller draw never selects a later
position. If no weight is negative, the running sums never decrease, and passing over the weights
that are not positive makes no difference to the search for a draw above zero: the first position
at which the sum reaches it has a positive weight.
-/

namespace LogicTree

open Float64
open UniformSource (next)

namespace Level

variable {level : Level} {draw : Float} {position : Nat}

/-! ## The position that is selected -/

section Picks

variable {σ : Type} [UniformSource σ] {source : σ}

/-- The next draw of a source selects a position: whatever ids the branches have, it gives the id at
    this position. -/
def Picks (level : Level) (source : σ) (position : Nat) : Prop :=
  ∀ other : Level, other.weights = level.weights → ∀ index, ∃ branch,
    other.branches[position]? = some branch ∧
      (other.sample index source).result = .ok branch.id

/-- The level with the id one at a position and the id zero at all others. -/
def marked (level : Level) (position : Nat) : Level :=
  { level with
    branches := level.branches.mapIdx fun index branch =>
      { branch with id := if index = position then 1 else 0 } }

theorem weights_marked (level : Level) (position : Nat) :
    (level.marked position).weights = level.weights := by
  apply List.ext_getElem?
  intro index
  simp [weights, marked, Function.comp_def]

theorem id_of_marked {other : Nat} {branch : Branch}
    (h : (level.marked position).branches[other]? = some branch) :
    branch.id = if other = position then 1 else 0 := by
  rw [marked, List.getElem?_mapIdx, Option.map_eq_some_iff] at h
  obtain ⟨stored, -, rfl⟩ := h
  rfl

theorem picks_iff : level.Picks source position ↔ level.Selects (next source).1 position := by
  constructor
  · intro picks
    -- the mark tells where the id that is given stands
    obtain ⟨branch, found, result⟩ :=
      picks (level.marked position) (weights_marked level position) 0
    rw [id_of_marked found, if_pos rfl] at result
    obtain ⟨other, stored, otherFound, one, selects⟩ := sample_eq_ok_iff.1 result
    have here : other = position := by
      by_contra elsewhere
      rw [id_of_marked otherFound, if_neg elsewhere] at one
      exact absurd one (by decide)
    exact here ▸ selects.of_weights (weights_marked level position)
  · intro selects other same index
    have otherSelects := selects.of_weights same.symm
    obtain ⟨branch, found, -⟩ := otherSelects.positive
    exact ⟨branch, found, otherSelects.sample found⟩

end Picks

/-! ## Smaller draws -/

theorem Selects.le_of_reachedAt {other : Nat} (h : level.Selects draw position)
    (reached : level.ReachedAt draw other) : position ≤ other := by
  by_contra before
  exact h.first other (not_le.1 before) reached

theorem Selects.mono {lower upper : Float} (ordered : lower ≤ upper) {late : Nat}
    (h : level.Selects upper late) : ∃ early ≤ late, level.Selects lower early := by
  rcases h.reached with reached | ⟨last, near⟩
  · -- where the larger draw is reached the smaller one is
    have here : level.ReachedAt lower late := ⟨h.positive, le_of_le_of_le ordered reached⟩
    obtain ⟨early, selects⟩ := exists_selects_iff.2 (.inl ⟨late, here⟩)
    exact ⟨early, selects.le_of_reachedAt here, selects⟩
  · -- the larger draw takes the last position of positive weight, and none comes after it
    obtain ⟨early, selects⟩ := exists_selects_iff.2 (.inr ⟨⟨late, h.positive⟩, near⟩)
    refine ⟨early, ?_, selects⟩
    by_contra after
    exact last early (not_le.1 after) selects.positive

/-! ## The plain search -/

/-- The first position at which the running sum reaches a draw, whatever the weight there is. -/
def plainSearch? (level : Level) (draw : Float) : Option Nat :=
  (cumulativeWeights level.weights).findIdx? fun sum => decide (sum ≥ draw)

theorem plainSearch?_eq_some (inside : position < level.branches.length)
    (reached : level.sumBefore (position + 1) ≥ draw)
    (first : ∀ earlier < position, ¬ level.sumBefore (earlier + 1) ≥ draw) :
    level.plainSearch? draw = some position := by
  obtain ⟨bound, here⟩ := List.getElem?_eq_some_iff.1 (getElem?_cumulativeWeights inside)
  refine List.findIdx?_eq_some_iff_getElem.2 ⟨bound, ?_, ?_⟩
  · rw [here]
    exact decide_eq_true reached
  · intro earlier before
    obtain ⟨_, sum⟩ := List.getElem?_eq_some_iff.1
      (getElem?_cumulativeWeights (before.trans inside))
    rw [sum, decide_eq_true_iff]
    exact first earlier before

section

variable {σ : Type} [UniformSource σ]
variable (hweights : ∀ w ∈ level.weights, 0.0 ≤ w)
include hweights

/-- The sums before the first position at which a draw above zero is reached stay below the draw,
    since only positive weights add to them. -/
theorem sumBefore_not_ge (above : 0.0 < draw)
    (first : ∀ earlier < position, ¬ level.ReachedAt draw earlier) {stop : Nat}
    (h : stop ≤ position) : ¬ level.sumBefore stop ≥ draw := by
  induction stop with
  | zero =>
      obtain ⟨zero, number⟩ := isNumber_of_le (Float64.le_of_lt above)
      intro reached
      exact (not_lt_iff zero number).2 reached above
  | succ stop ih =>
      by_cases positive : level.PositiveAt stop
      · exact fun reached => first stop h ⟨positive, reached⟩
      · rw [sumBefore_succ_of_not_positiveAt hweights positive]
        exact ih (Nat.le_of_succ_le h)

theorem plainSearch?_of_first (above : 0.0 < draw) (reached : level.ReachedAt draw position)
    (first : ∀ earlier < position, ¬ level.ReachedAt draw earlier) :
    level.plainSearch? draw = some position := by
  obtain ⟨⟨branch, found, -⟩, sum⟩ := reached
  refine plainSearch?_eq_some (List.getElem?_eq_some_iff.1 found).1 sum ?_
  intro earlier before
  exact sumBefore_not_ge hweights above first before

theorem Selects.reachedAt (h : level.Selects draw position)
    (within : draw ≤ level.cumulativeTotal) : level.ReachedAt draw position := by
  refine ⟨h.positive, ?_⟩
  rcases h.reached with reached | ⟨last, -⟩
  · exact reached
  · rw [sumBefore_eq_cumulativeTotal hweights last]
    exact within

theorem Selects.last (h : level.Selects draw position) (beyond : ¬ draw ≤ level.cumulativeTotal) :
    level.NonePositiveAfter position ∧ level.NearlyOne :=
  h.reached.resolve_left fun reached =>
    beyond (le_of_le_of_le reached (sumBefore_le_cumulativeTotal hweights (position + 1)))

theorem cumulativeTotal_lt_iff (number : draw.isNaN = false) :
    level.cumulativeTotal < draw ↔ ¬ draw ≤ level.cumulativeTotal := by
  have total : IsNumber level.cumulativeTotal := by
    rw [cumulativeTotal_eq]
    exact (isNumber_of_le (zero_le_foldl_add hweights (by decide))).2
  rw [← not_lt_iff total (not_isNaN_iff.1 number), not_not]

theorem sample_of_beyond (positive : ∃ position, level.PositiveAt position) {source : σ}
    (beyond : ¬ (next source).1 ≤ level.cumulativeTotal)
    (far : ¬ level.NearlyOne) (index : Nat) :
    (level.sample index source).result =
      .error (.samplingUnderflow index (next source).1 level.cumulativeTotal) := by
  obtain ⟨-, ⟨-, ⟨position, -, -, -, selects⟩, -⟩ | ⟨-, fails⟩⟩ :=
    sample_of_positive positive index source
  · exact absurd (selects.last hweights beyond).2 far
  · exact fails

end

end Level

namespace Tree

variable {E σ τ : Type} [UniformSource σ] [UniformSource τ]

theorem mem_of_level {tree : Tree E} {index : Nat} {level : Level}
    (stands : tree.level index = .ok level) : level ∈ tree.levels := by
  unfold Tree.level at stands
  split at stands
  next found =>
    cases stands
    exact List.mem_of_getElem? found
  next => cases stands

theorem sampleLevel_of_level {tree : Tree E} {index : Nat} {level : Level}
    (stands : tree.level index = .ok level) (source : σ) :
    tree.sampleLevel index source = level.sample index source := by
  rw [sampleLevel, stands]

/-- Sampling is monotone in the draw, whatever the weights of a level are. If it succeeds with a draw
    then it does with a smaller one. Each of the draws selects one position, and the smaller one
    selects no later position than the other. -/
theorem sampleLevel_mono {tree : Tree E} {index : Nat} {lower : σ} {upper : τ}
    (ordered : (next lower).1 ≤ (next upper).1) {id : UInt32}
    (sampled : (tree.sampleLevel index upper).result = .ok id) :
    ∃ level early late, tree.level index = .ok level ∧ early ≤ late ∧
      (∀ position, level.Picks lower position ↔ position = early) ∧
      (∀ position, level.Picks upper position ↔ position = late) ∧
      (∃ branch, level.branches[late]? = some branch ∧ branch.id = id) ∧
      ∃ branch, level.branches[early]? = some branch ∧
        (tree.sampleLevel index lower).result = .ok branch.id := by
  cases stands : tree.level index with
  | error failure => simp [sampleLevel, stands] at sampled
  | ok level =>
      rw [sampleLevel_of_level stands] at sampled ⊢
      obtain ⟨late, branch, found, sameId, selects⟩ := Level.sample_eq_ok_iff.1 sampled
      obtain ⟨early, notLater, earlySelects⟩ := selects.mono ordered
      obtain ⟨earlyBranch, earlyFound, -⟩ := earlySelects.positive
      refine ⟨level, early, late, rfl, notLater, ?_, ?_, ⟨branch, found, sameId⟩, earlyBranch,
        earlyFound, earlySelects.sample earlyFound⟩
      · intro position
        rw [Level.picks_iff]
        exact ⟨fun other => other.eq earlySelects, fun same => same ▸ earlySelects⟩
      · intro position
        rw [Level.picks_iff]
        exact ⟨fun other => other.eq selects, fun same => same ▸ selects⟩

/-- A level with a negative weight and repeated ids, whose weights fall short of one by rounding. -/
def wavering : Tree String :=
  ⟨"", [⟨0, "", "", [⟨3, 0.75, .flag true, none, none⟩, ⟨3, -0.5, .flag true, none, none⟩,
    ⟨3, 0.7499999999, .flag false, none, none⟩, ⟨1, 0.0, .flag false, none, none⟩]⟩], ∅⟩

theorem sampleLevel_mono_wavering :
    let lower := Replay.start 0.5 []
    let upper := Replay.start 2.0 []
    (next lower).1 ≤ (next upper).1 ∧ (wavering.sampleLevel 0 upper).result = .ok 3 ∧
      ∃ level early late, wavering.level 0 = .ok level ∧ early ≤ late ∧
        (∀ position, level.Picks lower position ↔ position = early) ∧
        (∀ position, level.Picks upper position ↔ position = late) := by
  intro lower upper
  have ordered : (next lower).1 ≤ (next upper).1 := by decide
  have sampled : (wavering.sampleLevel 0 upper).result = .ok 3 := by decide +kernel
  obtain ⟨level, early, late, stands, notLater, picksEarly, picksLate, -, -⟩ :=
    sampleLevel_mono ordered sampled
  exact ⟨ordered, sampled, level, early, late, stands, notLater, picksEarly, picksLate⟩

/-- In a level whose weights are not negative, one of them positive, a draw up to the total gives the
    first branch of positive weight at which the sums reach it; for a draw above zero this is the
    first branch at all. A draw above the total gives the last branch of positive weight if the
    total is one up to rounding, and fails otherwise, telling the draw and the smaller total. -/
theorem sampleLevel_searches {tree : Tree E} {index : Nat} {level : Level}
    (stands : tree.level index = .ok level) (hweights : ∀ w ∈ level.weights, 0.0 ≤ w)
    (positive : ∃ w ∈ level.weights, w > 0.0) {source : σ} {draw : Float}
    (drawn : (next source).1 = draw) (number : draw.isNaN = false) :
    (∀ position < level.branches.length,
      (cumulativeWeights level.weights)[position]? = some (level.sumBefore (position + 1))) ∧
    (draw ≤ level.cumulativeTotal → ∃ position branch,
      level.branches[position]? = some branch ∧ level.ReachedAt draw position ∧
        (∀ earlier < position, ¬ level.ReachedAt draw earlier) ∧
        (0.0 < draw → level.plainSearch? draw = some position) ∧
        (tree.sampleLevel index source).result = .ok branch.id) ∧
    (level.cumulativeTotal < draw → level.NearlyOne → ∃ position branch,
      level.branches[position]? = some branch ∧ level.PositiveAt position ∧
        level.NonePositiveAfter position ∧
        (tree.sampleLevel index source).result = .ok branch.id) ∧
    (¬ draw ≤ level.cumulativeTotal → ¬ (level.cumulativeTotal < draw ∧ level.NearlyOne) →
      (tree.sampleLevel index source).result =
          .error (.samplingUnderflow index draw level.cumulativeTotal) ∧
        level.cumulativeTotal < draw) := by
  obtain rfl := drawn
  have positions := Level.exists_positiveAt_iff.2 positive
  rw [sampleLevel_of_level stands, Level.cumulativeTotal_lt_iff hweights number]
  refine ⟨fun position inside => Level.getElem?_cumulativeWeights inside, ?_, ?_, ?_⟩
  · intro within
    obtain ⟨position, selects⟩ := Level.exists_selects_iff.2
      (.inl (Level.exists_reachedAt hweights positions within))
    obtain ⟨branch, found, -⟩ := selects.positive
    have reached := selects.reachedAt hweights within
    exact ⟨position, branch, found, reached, selects.first,
      fun above => Level.plainSearch?_of_first hweights above reached selects.first,
      selects.sample found⟩
  · intro beyond near
    obtain ⟨position, selects⟩ := Level.exists_selects_iff.2 (.inr ⟨positions, near⟩)
    obtain ⟨branch, found, -⟩ := selects.positive
    exact ⟨position, branch, found, selects.positive, (selects.last hweights beyond).1,
      selects.sample found⟩
  · intro beyond notNear
    have far : ¬ level.NearlyOne := fun near => notNear ⟨beyond, near⟩
    exact ⟨Level.sample_of_beyond hweights positions beyond far index, beyond⟩

/-- Impossible choices before the first positive weight and between the two. -/
def gappedLevel : Level :=
  ⟨0, "", "", [⟨1, 0.0, .text "", none, none⟩, ⟨2, 0.25, .text "", none, none⟩,
    ⟨3, -0.0, .text "", none, none⟩, ⟨4, 0.5, .text "", none, none⟩]⟩

/-- The tree of one level with gaps. -/
def gapped : Tree String := ⟨"", [gappedLevel], ∅⟩

theorem sampleLevel_searches_gapped :
    gapped.level 0 = .ok gappedLevel ∧ (∀ w ∈ gappedLevel.weights, 0.0 ≤ w) ∧
      (∃ w ∈ gappedLevel.weights, w > 0.0) ∧
      (∃ position branch, gappedLevel.branches[position]? = some branch ∧
        gappedLevel.plainSearch? 0.25 = some position ∧
        (gapped.sampleLevel 0 (Replay.start 0.25 [])).result = .ok branch.id) ∧
      (gapped.sampleLevel 0 (Replay.start 0.875 [])).result =
        .error (.samplingUnderflow 0 0.875 gappedLevel.cumulativeTotal) := by
  have stands : gapped.level 0 = .ok gappedLevel := rfl
  have hweights : ∀ w ∈ gappedLevel.weights, 0.0 ≤ w := by decide
  have positive : ∃ w ∈ gappedLevel.weights, w > 0.0 := by decide
  have quarter : (next (Replay.start 0.25 [])).1 = 0.25 := rfl
  have most : (next (Replay.start 0.875 [])).1 = 0.875 := rfl
  have far : ¬ gappedLevel.NearlyOne := by
    rw [Level.NearlyOne]
    decide
  obtain ⟨-, within, -, -⟩ := sampleLevel_searches stands hweights positive quarter rfl
  obtain ⟨-, -, -, beyond⟩ := sampleLevel_searches stands hweights positive most rfl
  obtain ⟨position, branch, found, -, -, plain, sampled⟩ := within (by decide)
  obtain ⟨fails, -⟩ := beyond (by decide) fun near => far near.2
  exact ⟨stands, hweights, positive, ⟨position, branch, found, plain (by decide), sampled⟩, fails⟩

end Tree

end LogicTree
