import LogicTree.Proofs.Float64.Products
import LogicTree.Proofs.Sampling.Selection
import LogicTree.Sampling.ChaCha

/-! # Draws from zero to below one

Sources are meant to hand out draws from zero to below one. A list of such draws that is repeated
does, and so do the seeded draws, which are the multiples of `2 ^ -53` below one.
-/

namespace LogicTree

open Float64

/-- A draw from zero to below one. -/
def IsUnitDraw (draw : Float) : Prop :=
  0.0 ≤ draw ∧ draw < 1.0

theorem IsUnitDraw.isFinite {draw : Float} (h : IsUnitDraw draw) : draw.isFinite = true :=
  isFinite_of_le h.1 (Float64.le_of_lt h.2) (by decide)

theorem IsUnitDraw.toRat_nonneg {draw : Float} (h : IsUnitDraw draw) : 0 ≤ toRat draw :=
  Float64.toRat_nonneg h.1

theorem IsUnitDraw.toRat_lt_one {draw : Float} (h : IsUnitDraw draw) : toRat draw < 1 := by
  rw [← toRat_one]
  exact (lt_iff_toRat h.isFinite (by decide)).1 h.2

theorem Replay.handsOut_start {kind : Float → Prop} {first : Float} {others : List Float}
    (hfirst : kind first) (hothers : ∀ draw ∈ others, kind draw) :
    UniformSource.HandsOut kind (start first others) := by
  refine UniformSource.handsOut_of_invariant
    (fun replay => replay.first = first ∧ replay.others = others ∧
      ∀ draw ∈ replay.pending, kind draw) ?_
    ⟨rfl, rfl, List.forall_mem_cons.2 ⟨hfirst, hothers⟩⟩
  rintro ⟨_, _, pending⟩ ⟨rfl, rfl, hpending⟩
  cases pending with
  | nil => exact ⟨hfirst, rfl, rfl, hothers⟩
  | cons draw rest =>
      obtain ⟨hdraw, hrest⟩ := List.forall_mem_cons.1 hpending
      exact ⟨hdraw, rfl, rfl, hrest⟩

/-! ## Seeded draws -/

namespace ChaCha

theorem isUnitDraw_fraction {word : UInt64} (h : word.toNat < 2 ^ 53) :
    IsUnitDraw (word.toFloat / 9007199254740992.0) := by
  have bound : Holds 9007199254740992.0 (2 ^ 53) := ⟨2 ^ 52, 1, by decide, rfl, by norm_num⟩
  have hword : word.toNat.toUInt64 = word := UInt64.ofNat_toNat
  rcases Nat.eq_zero_or_pos word.toNat with hzero | hpos
  · rw [← hword, hzero]
    exact ⟨by decide, by decide⟩
  · have holds := holds_toFloat hpos h
    rw [hword] at holds
    obtain ⟨m, e, canonical, same⟩ := exists_canonical (e := -53) hpos h (by decide) (by decide)
    have hfraction : (word.toNat : ℚ) / 2 ^ 53 = m * 2 ^ e := by
      rw [same]
      norm_num
      ring
    have hparts := canonical.parts_ofParts .positive
    rw [holds.div bound, hfraction, nearest_canonical canonical]
    have finite : (ofParts (.finite .positive m e canonical.positive)).isFinite = true := by
      rw [isFinite_iff_parts, hparts]
      rfl
    constructor
    · rw [zero_le_iff, hparts]
      exact .inr rfl
    · have hbelow : (word.toNat : ℚ) < 2 ^ 53 := by exact_mod_cast h
      rw [lt_iff_toRat finite (by decide), toRat_one, toRat, hparts, value_positive, ← hfraction,
        div_lt_one (by norm_num)]
      exact hbelow

theorem isUnitDraw_drawOfWords (low high : UInt32) : IsUnitDraw (drawOfWords low high) := by
  refine isUnitDraw_fraction ?_
  generalize high.toUInt64 <<< 32 ||| low.toUInt64 = words
  have hwords := words.toNat_lt
  rw [UInt64.toNat_shiftRight, Nat.shiftRight_eq_div_pow]
  change words.toNat / 2 ^ 11 < 2 ^ 53
  omega

theorem isUnitDraw_drawsOfWords (words : List UInt32) :
    ∀ draw ∈ drawsOfWords words, IsUnitDraw draw := by
  induction words using drawsOfWords.induct with
  | case1 low high rest ih =>
      rw [drawsOfWords]
      exact List.forall_mem_cons.2 ⟨isUnitDraw_drawOfWords low high, ih⟩
  | case2 words h => simp [drawsOfWords]

theorem handsOut_ofSeed (seed : UInt64) :
    UniformSource.HandsOut IsUnitDraw (Stream.ofSeed seed) := by
  refine UniformSource.handsOut_of_invariant
    (fun stream => ∀ draw ∈ stream.pending, IsUnitDraw draw) ?_ (by simp [Stream.ofSeed])
  rintro ⟨key, number, pending⟩ hpending
  cases pending with
  | cons draw rest => exact List.forall_mem_cons.1 hpending
  | nil =>
      have hblock := isUnitDraw_drawsOfWords (startBlock key number).scramble.toList
      simp only [UniformSource.next]
      split
      next draw rest hdraws => exact List.forall_mem_cons.1 (hdraws ▸ hblock)
      next =>
        have hzero : IsUnitDraw 0.0 := ⟨by decide, by decide⟩
        exact ⟨hzero, hpending⟩

end ChaCha

end LogicTree
