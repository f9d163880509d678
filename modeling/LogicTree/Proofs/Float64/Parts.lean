import Mathlib
import LogicTree.Decimal.Shortest

/-! # Doubles taken apart

A double is a word of 64 bits. Its parts are a sign, a mantissa and an exponent, or one of the
special values. Doubles and canonical parts correspond to each other, which carries every question
about doubles over to mantissas and exponents.
-/

namespace LogicTree.Float64

open Float.Model Float.Model.UnpackedFloat

/-- The parts of a double. -/
def parts (f : Float) : UnpackedFloat := f.toModel.unpack

/-- The double with some parts. -/
def ofParts (u : UnpackedFloat) : Float := .ofModel (pack u)

/-- A mantissa and an exponent as a finite double other than zero has them: the mantissa uses all
    of its 53 bits, unless the exponent is the least. -/
structure CanonicalMagnitude (m : Nat) (e : Int) : Prop where
  positive : 0 < m
  below : m < 2 ^ 53
  lowest : -1074 ≤ e
  highest : e ≤ 971
  normal : 2 ^ 52 ≤ m ∨ e = -1074

/-- Parts as a double has them. -/
def Canonical : UnpackedFloat → Prop
  | .finite _ m e _ => CanonicalMagnitude m e
  | _ => True

/-! ## Words and their components -/

theorem toNat_unpackMantissa (b : BitVec 64) :
    (@unpackMantissa Format.binary64 b).toNat = b.toNat % 2 ^ 52 := by
  simp [unpackMantissa]

theorem toNat_unpackExponent (b : BitVec 64) :
    (@unpackExponent Format.binary64 b).toNat = b.toNat / 2 ^ 52 % 2048 := by
  simp [unpackExponent, Nat.shiftRight_eq_div_pow]

theorem toNat_unpackSign (b : BitVec 64) :
    (@unpackSign Format.binary64 b).toNat = b.toNat / 2 ^ 63 := by
  have bounded := b.isLt
  simp [unpackSign, Nat.shiftRight_eq_div_pow]
  omega

theorem toNat_packComponents (s : Sign) (e : BitVec 11) (m : BitVec 52) :
    (packComponents Format.binary64 s e m).toNat
      = s.toBitVec.toNat * 2 ^ 63 + e.toNat * 2 ^ 52 + m.toNat := by
  simp only [packComponents]
  rw [BitVec.toNat_append, BitVec.toNat_append, ← Nat.shiftLeft_add_eq_or_of_lt m.isLt,
    ← Nat.shiftLeft_add_eq_or_of_lt e.isLt]
  simp only [Nat.shiftLeft_eq]
  omega

theorem ofBitVec_toBitVec (s : Sign) : Sign.ofBitVec s.toBitVec = s := by
  cases s <;> rfl

/-- The sign that a word stands for. -/
def signOf (b : BitVec 64) : Sign := Sign.ofBitVec (@unpackSign Format.binary64 b)

theorem toNat_signOf (b : BitVec 64) : (signOf b).toBitVec.toNat = b.toNat / 2 ^ 63 := by
  have back : ∀ v : BitVec 1, (Sign.ofBitVec v).toBitVec = v := by decide
  rw [signOf, back, toNat_unpackSign]

theorem signOf_eq {b : BitVec 64} {s : Sign} (h : b.toNat / 2 ^ 63 = s.toBitVec.toNat) :
    signOf b = s := by
  have bit : @unpackSign Format.binary64 b = s.toBitVec :=
    BitVec.eq_of_toNat_eq ((toNat_unpackSign b).trans h)
  rw [signOf, bit, ofBitVec_toBitVec]

theorem unpack_cases (b : BitVec 64) :
    let e : Nat := b.toNat / 2 ^ 52 % 2048
    let m : Nat := b.toNat % 2 ^ 52
    let u := UnpackedFloat.unpack Format.binary64 b
    e = 2047 ∧ m = 0 ∧ u = .infinity (signOf b)
      ∨ e = 2047 ∧ m ≠ 0 ∧ u = .notANumber
      ∨ e = 0 ∧ m = 0 ∧ u = .zero (signOf b)
      ∨ e = 0 ∧ (∃ h : 0 < m, u = .finite (signOf b) m (-1074) h)
      ∨ 0 < e ∧ e < 2047 ∧ ∃ h, u = .finite (signOf b) (2 ^ 52 + m) ((e : Int) - 1075) h := by
  intro e m u
  have hm : (@unpackMantissa Format.binary64 b).toNat = m := toNat_unpackMantissa b
  have he : (@unpackExponent Format.binary64 b).toNat = e := toNat_unpackExponent b
  have allOnes : @unpackExponent Format.binary64 b = -1#11 ↔ e = 2047 := by
    rw [← BitVec.toNat_inj, he]
    rfl
  have noExponent : @unpackExponent Format.binary64 b = 0#11 ↔ e = 0 := by
    rw [← BitVec.toNat_inj, he]
    rfl
  have noMantissa : @unpackMantissa Format.binary64 b = 0#52 ↔ m = 0 := by
    rw [← BitVec.toNat_inj, hm]
    rfl
  have bounded : e < 2048 := Nat.mod_lt _ (by decide)
  by_cases top : e = 2047
  · by_cases none : m = 0
    · refine .inl ⟨top, none, ?_⟩
      simp only [u, UnpackedFloat.unpack, allOnes.2 top, noMantissa.2 none, if_true, signOf]
    · refine .inr (.inl ⟨top, none, ?_⟩)
      simp only [u, UnpackedFloat.unpack, allOnes.2 top, if_true, if_neg (mt noMantissa.1 none)]
  · by_cases bottom : e = 0
    · by_cases none : m = 0
      · refine .inr (.inr (.inl ⟨bottom, none, ?_⟩))
        simp only [u, UnpackedFloat.unpack, if_neg (mt allOnes.1 top), if_pos (noExponent.2 bottom),
          dif_pos (noMantissa.2 none), signOf]
      · refine .inr (.inr (.inr (.inl ⟨bottom, Nat.pos_of_ne_zero none, ?_⟩)))
        simp only [u, UnpackedFloat.unpack, if_neg (mt allOnes.1 top), if_pos (noExponent.2 bottom),
          dif_neg (mt noMantissa.1 none), signOf]
        congr 1
        rw [he, bottom]
        rfl
    · refine .inr (.inr (.inr (.inr ⟨Nat.pos_of_ne_zero bottom, by omega, by omega, ?_⟩)))
      simp only [u, UnpackedFloat.unpack, if_neg (mt allOnes.1 top),
        if_neg (mt noExponent.1 bottom), signOf]
      congr 1
      · rw [BitVec.toNat_append, ← Nat.shiftLeft_add_eq_or_of_lt (BitVec.isLt _), hm]
        rfl
      · rw [he]
        rfl

theorem toNat_pack_normal (s : Sign) {m : Nat} {e : Int} (h : 0 < m) (big : 2 ^ 52 ≤ m)
    (canonical : CanonicalMagnitude m e) :
    (UnpackedFloat.pack Format.binary64 (.finite s m e h)).toNat
      = s.toBitVec.toNat * 2 ^ 63 + (e + 1075).toNat * 2 ^ 52 + (m - 2 ^ 52) := by
  obtain ⟨-, below, lowest, highest, -⟩ := canonical
  have log : m.log2 = 52 := (Nat.log2_eq_iff (by omega)).2 ⟨big, below⟩
  have biased : e + (Format.binary64.exponentBias : Int)
      + (Format.binary64.mantissaBitsWithoutImplicit : Int) = e + 1075 := by
    change e + 1023 + 52 = _
    omega
  have bits : Format.binary64.mantissaBits = 53 := rfl
  simp only [UnpackedFloat.pack, biased, log, bits]
  rw [if_neg (by omega), if_pos trivial, toNat_packComponents, BitVec.toNat_ofNat,
    BitVec.toNat_ofNat]
  omega

theorem toNat_pack_subnormal (s : Sign) {m : Nat} (h : 0 < m) (small : m < 2 ^ 52) :
    (UnpackedFloat.pack Format.binary64 (.finite s m (-1074) h)).toNat
      = s.toBitVec.toNat * 2 ^ 63 + m := by
  have log : m.log2 < 52 := (Nat.log2_lt (by omega)).2 small
  have bits : Format.binary64.mantissaBits = 53 := rfl
  simp only [UnpackedFloat.pack, bits]
  rw [if_neg (by decide), if_neg (by omega), toNat_packComponents, BitVec.toNat_ofNat]
  simp
  omega

/-! ## Doubles and canonical parts -/

theorem canonical_unpack (b : BitVec 64) : Canonical (UnpackedFloat.unpack Format.binary64 b) := by
  have bounded : b.toNat % 2 ^ 52 < 2 ^ 52 := Nat.mod_lt _ (by decide)
  rcases unpack_cases b with ⟨-, -, h⟩ | ⟨-, -, h⟩ | ⟨-, -, h⟩ | ⟨-, positive, h⟩ | ⟨low, high, _, h⟩
  · rw [h]
    trivial
  · rw [h]
    trivial
  · rw [h]
    trivial
  · rw [h]
    exact ⟨positive, by omega, by omega, by omega, .inr rfl⟩
  · rw [h]
    exact ⟨by omega, by omega, by omega, by omega, .inl (by omega)⟩

theorem canonical_parts (f : Float) : Canonical (parts f) := canonical_unpack _

theorem unpack_pack {u : UnpackedFloat} (canonical : Canonical u) :
    UnpackedFloat.unpack Format.binary64 (UnpackedFloat.pack Format.binary64 u) = u := by
  cases u with
  | notANumber => rfl
  | infinity s => cases s <;> rfl
  | zero s => cases s <;> rfl
  | finite s m e h =>
      have bit := s.toBitVec.isLt
      have magnitude : CanonicalMagnitude m e := canonical
      obtain ⟨-, below, lowest, highest, normal⟩ := magnitude
      by_cases big : 2 ^ 52 ≤ m
      · have word := toNat_pack_normal s h big canonical
        rcases unpack_cases (UnpackedFloat.pack Format.binary64 (.finite s m e h)) with
          ⟨he, -, -⟩ | ⟨he, -, -⟩ | ⟨he, -, -⟩ | ⟨he, -, -⟩ | ⟨-, -, _, same⟩
        · omega
        · omega
        · omega
        · omega
        · rw [same, signOf_eq (s := s) (by omega)]
          congr 1 <;> omega
      · obtain rfl : e = -1074 := normal.resolve_left big
        have word := toNat_pack_subnormal s h (Nat.lt_of_not_le big)
        rcases unpack_cases (UnpackedFloat.pack Format.binary64 (.finite s m (-1074) h)) with
          ⟨he, -, -⟩ | ⟨he, -, -⟩ | ⟨-, hm, -⟩ | ⟨-, _, same⟩ | ⟨he, -, -⟩
        · omega
        · omega
        · omega
        · rw [same, signOf_eq (s := s) (by omega)]
          congr 1
          omega
        · omega

theorem pack_unpack {b : BitVec 64} (valid : Format.binary64.Valid b) :
    UnpackedFloat.pack Format.binary64 (UnpackedFloat.unpack Format.binary64 b) = b := by
  have bounded := b.isLt
  have sign := toNat_signOf b
  apply BitVec.eq_of_toNat_eq
  rcases unpack_cases b with
    ⟨he, hm, h⟩ | ⟨he, hm, h⟩ | ⟨he, hm, h⟩ | ⟨he, positive, h⟩ | ⟨low, high, positive, h⟩
  · rw [h]
    simp only [UnpackedFloat.pack, packedInfinity, toNat_packComponents, sign]
    change _ + 2047 * _ + 0 = _
    omega
  · -- validity leaves one word that is not a number
    have nan : b = packedNaN Format.binary64 := by
      refine valid.eq_packedNaN ?_ ?_
      · apply BitVec.eq_of_toNat_eq
        rw [toNat_unpackExponent, he]
        rfl
      · intro none
        exact hm (by rw [← toNat_unpackMantissa, none]; rfl)
    rw [h, nan]
    rfl
  · rw [h]
    simp only [UnpackedFloat.pack, packedZero, toNat_packComponents, sign]
    change _ + 0 * _ + 0 = _
    omega
  · rw [h, toNat_pack_subnormal _ positive (Nat.mod_lt _ (by decide)), sign]
    omega
  · rw [h, toNat_pack_normal _ positive (by omega)
      ⟨positive, by omega, by omega, by omega, .inl (by omega)⟩, sign]
    omega

@[simp] theorem ofParts_parts (f : Float) : ofParts (parts f) = f := by
  obtain ⟨⟨bits, valid⟩⟩ := f
  have h := pack_unpack valid
  simp only [ofParts, parts, Float.Model.pack, Float.Model.unpack] at h ⊢
  simp only [h]

theorem parts_ofParts {u : UnpackedFloat} (canonical : Canonical u) : parts (ofParts u) = u :=
  unpack_pack canonical

theorem CanonicalMagnitude.parts_ofParts (s : Sign) {m : Nat} {e : Int}
    (h : CanonicalMagnitude m e) :
    parts (ofParts (.finite s m e h.positive)) = .finite s m e h.positive :=
  Float64.parts_ofParts h

theorem canonical_of_parts {f : Float} {s : Sign} {m : Nat} {e : Int} {h : 0 < m}
    (eq : parts f = .finite s m e h) : CanonicalMagnitude m e := by
  have canonical := canonical_parts f
  rwa [eq] at canonical

theorem parts_injective {f g : Float} (h : parts f = parts g) : f = g := by
  rw [← ofParts_parts f, h, ofParts_parts]

/-! ## Signs and magnitudes -/

theorem parts_neg (f : Float) : parts (-f) = (parts f).neg := by
  have canonical := canonical_parts f
  refine parts_ofParts (u := (parts f).neg) ?_
  cases h : parts f with
  | finite s m e hm => exact canonical_of_parts h
  | _ => trivial

theorem parts_abs (f : Float) : parts f.abs = (parts f).abs := by
  refine parts_ofParts (u := (parts f).abs) ?_
  cases h : parts f with
  | finite s m e hm => exact canonical_of_parts h
  | _ => trivial

theorem fractionBound_eq : fractionBound = 2 ^ 52 := by decide

theorem magnitude_of_parts {f : Float} {s : Sign} {m : Nat} {e : Int} {h : 0 < m}
    (eq : parts f = .finite s m e h) : magnitude f = (m, e) := by
  have word : f.toModel.toBits.toBitVec.toNat = f.toBits.toNat := rfl
  rw [magnitude, fractionBound_eq]
  rcases unpack_cases f.toModel.toBits.toBitVec with
    ⟨-, -, u⟩ | ⟨-, -, u⟩ | ⟨-, -, u⟩ | ⟨biased, _, u⟩ | ⟨low, high, _, u⟩
  · cases u.symm.trans eq
  · cases u.symm.trans eq
  · cases u.symm.trans eq
  · cases u.symm.trans eq
    exact if_pos biased
  · cases u.symm.trans eq
    simp only [word] at low ⊢
    rw [if_neg (by omega), Nat.add_comm]
    rfl

theorem magnitude_of_zero {f : Float} {s : Sign} (eq : parts f = .zero s) :
    (magnitude f).1 = 0 := by
  have word : f.toModel.toBits.toBitVec.toNat = f.toBits.toNat := rfl
  rw [magnitude, fractionBound_eq]
  rcases unpack_cases f.toModel.toBits.toBitVec with
    ⟨-, -, u⟩ | ⟨-, -, u⟩ | ⟨biased, fraction, u⟩ | ⟨-, _, u⟩ | ⟨-, -, _, u⟩
  · cases u.symm.trans eq
  · cases u.symm.trans eq
  · rw [word] at biased fraction
    rw [if_pos biased]
    exact fraction
  · cases u.symm.trans eq
  · cases u.symm.trans eq

/-- The sign of parts that are a number. -/
def sign? : UnpackedFloat → Option Sign
  | .notANumber => none
  | .infinity s | .zero s | .finite s _ _ _ => some s

theorem abs_of_sign? {u : UnpackedFloat} (h : sign? u = some .positive) : u.abs = u := by
  cases u with
  | notANumber => rfl
  | infinity s | zero s | finite s =>
      cases h
      rfl

theorem neg_abs_of_sign? {u : UnpackedFloat} (h : sign? u = some .negative) : u.abs.neg = u := by
  cases u with
  | notANumber => rfl
  | infinity s | zero s | finite s =>
      cases h
      rfl

theorem isNegative_iff {f : Float} {s : Sign} (eq : sign? (parts f) = some s) :
    isNegative f = true ↔ s = .negative := by
  have word : f.toModel.toBits.toBitVec.toNat = f.toBits.toNat := rfl
  have bounded := f.toModel.toBits.toBitVec.isLt
  have bit := toNat_signOf f.toModel.toBits.toBitVec
  have same : signOf f.toModel.toBits.toBitVec = s := by
    rcases unpack_cases f.toModel.toBits.toBitVec with
      ⟨-, -, u⟩ | ⟨-, -, u⟩ | ⟨-, -, u⟩ | ⟨-, _, u⟩ | ⟨-, -, _, u⟩ <;>
      rw [show parts f = _ from u] at eq <;> cases eq
    · rfl
    · rfl
    · rfl
    · rfl
  rw [same, word] at bit
  rw [word] at bounded
  rw [isNegative, decide_eq_true_iff]
  cases s with
  | negative =>
      have one : Sign.negative.toBitVec.toNat = 1 := rfl
      simp only [iff_true]
      omega
  | positive =>
      have zero : Sign.positive.toBitVec.toNat = 0 := rfl
      simp only [reduceCtorEq, iff_false]
      omega

end LogicTree.Float64
