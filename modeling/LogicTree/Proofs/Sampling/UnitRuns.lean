import LogicTree.Proofs.Sampling.Intervals

/-! # Runs over draws from zero to below one

A run over draws from zero to below one fails only where the weights of a level fall short of one by
more than rounding. Then it does fail, for a draw close enough to one.
-/

namespace LogicTree

open Float64

namespace Level

variable {level : Level}

/-- The weights sum to one or more, or fall short of one by rounding only. -/
def ReachesOne (level : Level) : Prop :=
  1.0 ≤ level.cumulativeTotal ∨ level.NearlyOne

section

variable (hweights : ∀ w ∈ level.weights, 0.0 ≤ w)
include hweights

theorem exists_reachedAt {draw : Float} (hpositive : ∃ position, level.PositiveAt position)
    (h : draw ≤ level.cumulativeTotal) : ∃ position, level.ReachedAt draw position := by
  cases hlast : level.lastPositive? with
  | none =>
      obtain ⟨position, hposition⟩ := hpositive
      exact absurd hposition (lastPositive?_eq_none_iff.1 hlast position)
  | some branch =>
      obtain ⟨position, -, hposition, hafter⟩ := lastPositive?_eq_some_iff.1 hlast
      refine ⟨position, hposition, ?_⟩
      rw [sumBefore_eq_cumulativeTotal hweights hafter]
      exact h

theorem ReachesOne.serves (h : level.ReachesOne) : level.Serves IsUnitDraw := by
  intro draw hdraw
  have hposition : ∃ position, level.PositiveAt position :=
    exists_positiveAt_iff.2 (exists_positive hweights h)
  refine exists_selects_iff.2 ?_
  rcases h with hone | hnear
  · exact .inl (exists_reachedAt hweights hposition
      (le_of_le_of_le (Float64.le_of_lt hdraw.2) hone))
  · exact .inr ⟨hposition, hnear⟩

end

theorem nearlyOne_of_le {draw : Float} (hdraw : 0.0 ≤ draw)
    (hclose : (draw - 1.0).abs ≤ weightTolerance) (hreached : draw ≤ level.cumulativeTotal)
    (hbelow : level.cumulativeTotal ≤ 1.0) : level.NearlyOne := by
  have finite := isFinite_of_le (le_of_le_of_le hdraw hreached) hbelow (by decide)
  have finiteDraw := isFinite_of_le hdraw hreached finite
  have hlow := (le_iff_toRat finiteDraw finite).1 hreached
  have hhigh := (le_iff_toRat finite (by decide)).1 hbelow
  rw [toRat_one] at hhigh
  have hdistance : |toRat level.cumulativeTotal - 1| ≤ |toRat draw - 1| := by
    rw [abs_of_nonpos (by linarith), abs_of_nonpos (by linarith)]
    linarith
  rw [abs_sub_one_eq_nearest finiteDraw] at hclose
  rw [NearlyOne, abs_sub_one_eq_nearest finite]
  exact le_of_le_of_le (nearest_mono (abs_nonneg _) hdistance) hclose

/-- A draw that lies below one by less than the tolerance. -/
def closeDraw : Float := 0.9999999999

theorem isUnitDraw_closeDraw : IsUnitDraw closeDraw :=
  ⟨by decide, by decide⟩

theorem reachesOne_of_selects {position : Nat} (hweights : ∀ w ∈ level.weights, 0.0 ≤ w)
    (h : level.Selects closeDraw position) : level.ReachesOne := by
  rcases h.reached with hreached | ⟨-, hnear⟩
  · have htotal := le_of_le_of_le hreached (sumBefore_le_cumulativeTotal hweights (position + 1))
    by_cases hone : 1.0 ≤ level.cumulativeTotal
    · exact .inl hone
    · have hbelow : level.cumulativeTotal ≤ 1.0 := by
        refine (not_lt_iff (isNumber_of_isFinite (by decide)) (isNumber_of_le htotal).2).1 ?_
        exact fun hlt => hone (Float64.le_of_lt hlt)
      exact .inr (nearlyOne_of_le (by decide) (by decide) htotal hbelow)
  · exact .inr hnear

end Level

namespace Tree

variable {E : Type} {tree : Tree E}

/-- A tree with levels whose weights are not negative can be sampled from all draws from zero to
    below one exactly if the weights of all levels reach one. -/
theorem samplePath_unit_iff (nonempty : tree.levels ≠ [])
    (hweights : ∀ level ∈ tree.levels, ∀ w ∈ level.weights, 0.0 ≤ w) :
    (∀ {σ : Type} [UniformSource σ] (source : σ), UniformSource.HandsOut IsUnitDraw source →
        ∃ path, (tree.samplePath source).result = .ok path) ↔
      ∀ level ∈ tree.levels, level.ReachesOne := by
  constructor
  · intro h
    -- a source that hands out nothing but one draw close to one
    have hands : UniformSource.HandsOut (· = Level.closeDraw) (Replay.start Level.closeDraw []) :=
      Replay.handsOut_start rfl (by simp)
    obtain ⟨path, hpath⟩ := h (Replay.start Level.closeDraw []) fun n draw hdraw => by
      rw [hands n draw hdraw]
      exact Level.isUnitDraw_closeDraw
    have hids := (samplePath_eq_ok_iff.1 hpath).2
    have hselects :=
      (List.forall₂_and_left _ _).2 ⟨hweights, selectsId_of_sampleLevels hands hids⟩
    have hreaches : List.Forall₂ (fun level _ => level.ReachesOne ∧ True) tree.levels path.ids := by
      refine hselects.imp ?_
      rintro level id ⟨hlevel, draw, rfl, position, -, -, -, hposition⟩
      exact ⟨Level.reachesOne_of_selects hlevel hposition, trivial⟩
    exact ((List.forall₂_and_left _ _).1 hreaches).1
  · intro h σ _ source hands
    obtain ⟨ids, hids⟩ := sampleLevels_of_serves
      (fun level hlevel => (h level hlevel).serves (hweights level hlevel)) hands 0
    exact ⟨⟨ids⟩, samplePath_eq_ok_iff.2 ⟨nonempty, hids⟩⟩

end Tree

end LogicTree
