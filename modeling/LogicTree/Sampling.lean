import LogicTree.Path
import LogicTree.Sampling.Source
import LogicTree.Tree

/-! # Sampling

A draw between zero and one selects a branch of a level: the first branch of positive weight at
which the running sum of the weights reaches the draw. A level is drawn from only if it has a
branch of positive weight; if its weights fall short of the draw by rounding, the last such branch
is taken. A path takes one draw a level.
-/

namespace LogicTree

/-- Sums of the first one, two, … weights, added to a start. -/
def runningSums : Float → List Float → List Float
  | _, [] => []
  | sum, weight :: weights => (sum + weight) :: runningSums (sum + weight) weights

/-- Sums of the first one, two, … weights. -/
def cumulativeWeights (weights : List Float) : List Float :=
  runningSums 0.0 weights

/-- A branch that a draw selects. `clamped` says that the weights fell short of the draw by
rounding. -/
structure Choice where
  branch : Branch
  clamped : Bool

namespace Level

/-- The last branch of positive weight. -/
def lastPositive? (level : Level) : Option Branch :=
  level.branches.reverse.find? fun branch => decide (branch.weight > 0.0)

/-- The first branch of positive weight whose running sum reaches a draw. -/
def firstReaching? (level : Level) (draw : Float) : Option Branch :=
  let sums := cumulativeWeights level.weights
  ((sums.zip level.branches).find? fun (sum, branch) =>
    decide (branch.weight > 0.0) && decide (sum ≥ draw)).map Prod.snd

/-- The last running sum, or zero without branches. -/
def cumulativeTotal (level : Level) : Float :=
  (cumulativeWeights level.weights).getLast?.getD 0.0

/-- The branch that a draw selects, given the branch to fall back on and the index of the level. -/
def choose (level : Level) (index : Nat) (fallback : Branch) (draw : Float) :
    Except Error Choice :=
  match level.firstReaching? draw with
  | some branch => .ok ⟨branch, false⟩
  | none =>
      let total := level.cumulativeTotal
      if (total - 1.0).abs ≤ weightTolerance then .ok ⟨fallback, true⟩
      else .error (.samplingUnderflow index draw total)

end Level

/-- What a sampling run leaves: its result, the indices of the levels at which a draw was clamped,
and the source after the draws taken. -/
structure Sampled (σ α : Type) where
  result : Except Error α
  clamped : List Nat
  source : σ

/-- Draws a branch of a level that stands at an index. Without a branch of positive weight there is
no draw. -/
def Level.sample {σ : Type} [UniformSource σ] (level : Level) (index : Nat) (source : σ) :
    Sampled σ UInt32 :=
  match level.lastPositive? with
  | none => ⟨.error (.emptyLevel index), [], source⟩
  | some fallback =>
      let (draw, rest) := UniformSource.next source
      match level.choose index fallback draw with
      | .ok choice => ⟨.ok choice.branch.id, if choice.clamped then [index] else [], rest⟩
      | .error e => ⟨.error e, [], rest⟩

/-- Draws a branch of every level, from the first on, the first of them standing at an index. -/
def sampleLevels {σ : Type} [UniformSource σ] : Nat → List Level → σ → Sampled σ (List UInt32)
  | _, [], source => ⟨.ok [], [], source⟩
  | index, level :: levels, source =>
      let first := level.sample index source
      match first.result with
      | .error e => ⟨.error e, first.clamped, first.source⟩
      | .ok id =>
          let others := sampleLevels (index + 1) levels first.source
          ⟨others.result.map (id :: ·), first.clamped ++ others.clamped, others.source⟩

namespace Tree

variable {E σ : Type} [UniformSource σ]

/-- Draws a branch of the level at an index. -/
def sampleLevel (tree : Tree E) (index : Nat) (source : σ) : Sampled σ UInt32 :=
  match tree.level index with
  | .error e => ⟨.error e, [], source⟩
  | .ok level => level.sample index source

/-- Draws a complete path. -/
def samplePath (tree : Tree E) (source : σ) : Sampled σ Path :=
  match tree.requireLevels with
  | .error e => ⟨.error e, [], source⟩
  | .ok () =>
      let sampled := sampleLevels 0 tree.levels source
      ⟨sampled.result.map Path.mk, sampled.clamped, sampled.source⟩

end Tree

end LogicTree
