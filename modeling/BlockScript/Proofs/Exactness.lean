import BlockScript.Number.Units
import Mathlib

/-!
# Whole numbers that doubles hold exactly

A double is written as its bits and read from them. Here the two are shown to fit together, and from
that, that whole numbers of at most 53 binary digits are held exactly: the double nearest to one is
as many units as the number has.

* `Number.toBits_ofBits`: the bits of a number are read as they are written;
* `Number.bitsOfRatio_of_lt`: the bits of a whole number;
* `Number.view_ofNat`: a whole number is read as it is written;
* `Number.truncWithin_ofNat`: to drop the fraction of a whole number leaves it as it is.
-/

namespace BlockScript.Number

open Float.Model.UnpackedFloat

/-! ## 1. Bits -/

section Fields

variable (b : UInt64)

theorem toNat_unpackMantissa : (@unpackMantissa .binary64 b.toBitVec).toNat = b.toNat % 2 ^ 52 := by
  unfold unpackMantissa
  rw [BitVec.toNat_cast, BitVec.extractLsb_toNat]
  rfl

theorem toNat_unpackExponent :
    (@unpackExponent .binary64 b.toBitVec).toNat = b.toNat / 2 ^ 52 % 2 ^ 11 := by
  unfold unpackExponent
  rw [BitVec.toNat_cast, BitVec.extractLsb_toNat, Nat.shiftRight_eq_div_pow]
  rfl

theorem unpackExponent_eq_iff :
    @unpackExponent .binary64 b.toBitVec = -1#11 ↔ b.toNat / 2 ^ 52 % 2 ^ 11 = 2047 := by
  rw [← BitVec.toNat_inj, toNat_unpackExponent]
  rfl

theorem unpackMantissa_eq_iff :
    @unpackMantissa .binary64 b.toBitVec = 0#52 ↔ b.toNat % 2 ^ 52 = 0 := by
  rw [← BitVec.toNat_inj, toNat_unpackMantissa]
  rfl

end Fields

/-- **The bits of a number are read as they are written**, those of an infinity too. -/
theorem toBits_ofBits {b : UInt64} (h : b.toNat % 2 ^ 63 ≤ 2047 * 2 ^ 52) :
    (Float.ofBits b).toBits = b := by
  have hnumber : @isNaNBits .binary64 b.toBitVec = false := by
    refine decide_eq_false fun ⟨hexponent, hmantissa⟩ => hmantissa ?_
    have hexponent := (unpackExponent_eq_iff b).mp hexponent
    refine (unpackMantissa_eq_iff b).mpr ?_
    omega
  refine UInt64.toBitVec_inj.mp ((pack_unpack _).trans ?_)
  rw [hnumber]
  rfl

/-- The bits are those of a finite double. -/
def FiniteBits (b : UInt64) : Prop := b.toNat % 2 ^ 63 < 2047 * 2 ^ 52

section Finite

variable {b : UInt64} (h : FiniteBits b)
include h

theorem unpackExponent_ne : @unpackExponent .binary64 b.toBitVec ≠ -1#11 := by
  intro heq
  have hall := (unpackExponent_eq_iff b).mp heq
  unfold FiniteBits at h
  omega

theorem unpack_ofBits : (Float.ofBits b).toModel.unpack = unpack .binary64 b.toBitVec := by
  show unpack .binary64 (Float.ofBits b).toBits.toBitVec = _
  rw [toBits_ofBits h.le]

theorem isFinite_ofBits : (Float.ofBits b).isFinite = true := by
  show (Float.ofBits b).toModel.unpack.isFinite = true
  rw [unpack_ofBits h]
  unfold unpack
  dsimp only
  rw [if_neg (unpackExponent_ne h)]
  split
  · split <;> rfl
  · rfl

end Finite

theorem isNaN_of_isFinite {x : Float} (h : x.isFinite = true) : x.isNaN = false := by
  have hmodel : x.toModel.unpack.isFinite = true := h
  show x.toModel.unpack.isNaN = false
  cases hunpack : x.toModel.unpack with
  | notANumber =>
    rw [hunpack] at hmodel
    cases hmodel
  | infinity | zero | finite => rfl

/-! ## 2. Whole numbers -/

theorem one_pos : 0 < one := by
  unfold one
  generalize 1074 = digits
  exact Nat.two_pow_pos digits

/-- One, as a mantissa of so many digits has to be shifted to get there. -/
theorem one_eq {digits : Nat} (h : digits ≤ 52) :
    one = 2 ^ (52 - digits) * 2 ^ (digits + 1022) := by
  have hexponent : 1074 = 52 - digits + (digits + 1022) := by omega
  unfold one
  rw [hexponent]
  exact Nat.pow_add 2 _ _

theorem log2_mul_pow {n : Nat} (hn : n ≠ 0) (k : Nat) : (n * 2 ^ k).log2 = n.log2 + k := by
  refine (Nat.log2_eq_iff (Nat.mul_ne_zero hn (Nat.pow_pos (by decide)).ne')).mpr ⟨?_, ?_⟩
  · rw [Nat.pow_add]
    exact Nat.mul_le_mul_right _ (Nat.log2_self_le hn)
  · rw [Nat.add_right_comm, Nat.pow_add]
    exact Nat.mul_lt_mul_of_pos_right Nat.lt_log2_self (Nat.pow_pos (by decide))

/-- A quotient without a rest is not rounded. -/
theorem divRound_mul {q d : Nat} (hd : 0 < d) : divRound (q * d) d = q := by
  unfold divRound
  rw [Nat.mul_mod_left, Nat.mul_div_cancel _ hd]
  simp
  omega

section Whole

variable {n : Nat}

/-- The digits of a whole number, shifted to the top of the mantissa. -/
theorem shifted_lt (hn : n ≠ 0) (hlt : n < 2 ^ 53) :
    2 ^ 52 ≤ n * 2 ^ (52 - n.log2) ∧ n * 2 ^ (52 - n.log2) < 2 ^ 53 := by
  have hlog : n.log2 < 53 := (Nat.log2_lt hn).mpr hlt
  constructor
  · calc 2 ^ 52 = 2 ^ n.log2 * 2 ^ (52 - n.log2) := by rw [← Nat.pow_add]; congr 1; omega
      _ ≤ n * 2 ^ (52 - n.log2) := Nat.mul_le_mul_right _ (Nat.log2_self_le hn)
  · calc n * 2 ^ (52 - n.log2) < 2 ^ (n.log2 + 1) * 2 ^ (52 - n.log2) :=
        Nat.mul_lt_mul_of_pos_right Nat.lt_log2_self (Nat.pow_pos (by decide))
      _ = 2 ^ 53 := by rw [← Nat.pow_add]; congr 1; omega

/-- **The bits of a whole number** of at most 53 binary digits. -/
theorem bitsOfRatio_of_lt (hn : n ≠ 0) (hlt : n < 2 ^ 53) :
    bitsOfRatio n 1 = (n.log2 + 1022) * 2 ^ 52 + n * 2 ^ (52 - n.log2) := by
  have hlog : n.log2 < 53 := (Nat.log2_lt hn).mpr hlt
  have hexact : n * one = n * 2 ^ (52 - n.log2) * 2 ^ (n.log2 + 1022) := by
    rw [one_eq (Nat.le_of_lt_succ hlog), Nat.mul_assoc]
  have hshifted := shifted_lt hn hlt
  have hshift : (n * 2 ^ (52 - n.log2) * 2 ^ (n.log2 + 1022)).log2 - 52 = n.log2 + 1022 := by
    rw [log2_mul_pow (by omega), (Nat.log2_eq_iff (by omega)).mpr hshifted]
    omega
  -- The leading digit goes to the top of the mantissa, and the division that rounds has no rest.
  unfold bitsOfRatio
  dsimp only
  rw [Nat.div_one, hexact, hshift, Nat.one_mul, Nat.pow_eq, Nat.pow_eq,
    divRound_mul (Nat.pow_pos (by decide)), Nat.min_eq_left (by omega)]

/-- A whole number is as many units as it should be. -/
theorem unitsOfBits_bitsOfRatio (hlt : n < 2 ^ 53) :
    bitsOfRatio n 1 < 2047 * 2 ^ 52 ∧ unitsOfBits (bitsOfRatio n 1) = n * one := by
  by_cases hn : n = 0
  · subst hn
    have hbits : bitsOfRatio 0 1 = 0 := by
      unfold bitsOfRatio
      rw [Nat.zero_mul]
      rfl
    rw [hbits, Nat.zero_mul]
    exact ⟨by decide, rfl⟩
  · have hlog : n.log2 < 53 := (Nat.log2_lt hn).mpr hlt
    obtain ⟨hlow, hhigh⟩ := shifted_lt hn hlt
    rw [bitsOfRatio_of_lt hn hlt]
    refine ⟨by omega, ?_⟩
    -- The leading digit carries into the exponent field, which is one more than what was written.
    generalize hshifted : n * 2 ^ (52 - n.log2) = shifted at hlow hhigh ⊢
    have hfield : ((n.log2 + 1022) * 2 ^ 52 + shifted) / 2 ^ 52 = n.log2 + 1023 := by omega
    have hfraction : ((n.log2 + 1022) * 2 ^ 52 + shifted) % 2 ^ 52 + 2 ^ 52 = shifted := by omega
    unfold unitsOfBits
    dsimp only
    rw [Nat.pow_eq, hfield, if_neg (by omega), hfraction, ← hshifted, Nat.pow_eq,
      one_eq (Nat.le_of_lt_succ hlog), Nat.mul_assoc, Nat.add_sub_assoc (by decide)]

theorem finiteBits_ofNat (hlt : n < 2 ^ 53) :
    (UInt64.ofNat (bitsOfRatio n 1)).toNat = bitsOfRatio n 1 ∧
      FiniteBits (UInt64.ofNat (bitsOfRatio n 1)) := by
  have hbits := (unitsOfBits_bitsOfRatio hlt).1
  have hword : (UInt64.ofNat (bitsOfRatio n 1)).toNat = bitsOfRatio n 1 :=
    UInt64.toNat_ofNat_of_lt (by unfold UInt64.size; omega)
  refine ⟨hword, ?_⟩
  unfold FiniteBits
  rw [hword]
  omega

theorem isFinite_ofNat (hlt : n < 2 ^ 53) : (ofNat n).isFinite = true :=
  isFinite_ofBits (finiteBits_ofNat hlt).2

/-- **A whole number is read as it is written.** -/
theorem view_ofNat (hlt : n < 2 ^ 53) : view (ofNat n) = .finite false (n * one) := by
  obtain ⟨hword, hfinite⟩ := finiteBits_ofNat hlt
  obtain ⟨hbits, hunits⟩ := unitsOfBits_bitsOfRatio hlt
  have hread : (ofNat n).toBits.toNat = bitsOfRatio n 1 := by
    unfold ofNat nearest
    rw [toBits_ofBits hfinite.le, hword]
  have hmagnitude : bitsOfRatio n 1 % 2 ^ 63 = bitsOfRatio n 1 := Nat.mod_eq_of_lt (by omega)
  have hsign : decide (2 ^ 63 ≤ bitsOfRatio n 1) = false := decide_eq_false (by omega)
  unfold view
  dsimp only
  rw [hread, Nat.pow_eq, Nat.pow_eq, hmagnitude, if_pos hbits, hunits, hsign]

theorem truncWithin_of_view {x : Float} {units : Nat} (h : view x = .finite false units)
    (low high : Int) : truncWithin low high x = max low (min high ((units / one : Nat) : Int)) := by
  unfold truncWithin
  rw [h]
  rfl

/-- **To drop the fraction of a whole number leaves it as it is.** -/
theorem truncWithin_ofNat (hlt : n < 2 ^ 53) {low high : Int} (hlow : low ≤ n) (hhigh : n ≤ high) :
    truncWithin low high (ofNat n) = n := by
  rw [truncWithin_of_view (view_ofNat hlt), Nat.mul_div_cancel _ one_pos]
  omega

end Whole

end BlockScript.Number
