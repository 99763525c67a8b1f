import BlockScript.Proofs.Sums

/-!
# Numbers that are lost

Infinities can be computed with, but not everything: an infinity times zero has no value, and
neither has the sum of the two infinities. What has no value is not a number, and no later sum or
product makes a number of it. Nothing else loses a number: not rounding, however large or small the
result is, and not packing.

* `Number.isNaN_pack`: what is packed is a number if what was to be packed is;
* `Number.Void`, `Number.isNaN_mul_iff`: the products that have no value;
* `Number.Clash`, `Number.isNaN_add_iff`: the sums that have none.
-/

namespace BlockScript.Number

open Float.Model (UnpackedFloat Format)
open Float.Model.UnpackedFloat

/-! ## 1. Packing and rounding -/

/-- Only the greatest exponent stands for what is not a number. -/
theorem isNaN_unpack {b : BitVec Format.binary64.numBits}
    (h : (unpackExponent b).toNat ≠ 2047) : (UnpackedFloat.unpack .binary64 b).isNaN = false := by
  have hexponent : unpackExponent b ≠ -1#11 := fun heq => h (by rw [heq]; rfl)
  unfold UnpackedFloat.unpack
  dsimp only
  rw [if_neg hexponent]
  split
  · split <;> rfl
  · rfl

/-- **Packing loses no number**: an exponent beyond the range makes an infinity. -/
theorem isNaN_pack (u : UnpackedFloat) : (Float.ofModel (.pack u)).isNaN = u.isNaN := by
  show (UnpackedFloat.unpack .binary64 (UnpackedFloat.pack .binary64 u)).isNaN = u.isNaN
  cases u with
  | notANumber => decide +kernel
  | infinity s | zero s => cases s <;> decide +kernel
  | finite s m e hm =>
    show _ = false
    unfold UnpackedFloat.pack
    dsimp only
    split
    · cases s <;> decide +kernel
    · rename_i hlarge
      have hrange : (e + (1023 : Nat) + (52 : Nat)).toNat + 1 < 2048 := Nat.not_le.mp hlarge
      split
      · refine isNaN_unpack ?_
        rw [unpackExponent_packComponents, BitVec.toNat_ofNat]
        show (e + (1023 : Nat) + (52 : Nat)).toNat % 2048 ≠ 2047
        omega
      · refine isNaN_unpack ?_
        rw [unpackExponent_packComponents]
        decide

/-- **Rounding loses no number.** -/
theorem isNaN_roundWithAccuracy (s : Sign) (m : Nat) (e : Int) (a : Accuracy) :
    (roundWithAccuracy .binary64 s m e a).isNaN = false := by
  unfold roundWithAccuracy
  dsimp only
  split <;> rfl

theorem isNaN_normalize (m e : Int) (s : Sign) :
    (UnpackedFloat.normalize .binary64 m e s).isNaN = false := by
  unfold UnpackedFloat.normalize
  split
  · exact isNaN_roundWithAccuracy _ _ _ _
  · rfl
  · exact isNaN_roundWithAccuracy _ _ _ _

/-! ## 2. Products and sums -/

/-- A product that has no value: a factor has none, or an infinity meets zero. -/
def Void (x y : Float) : Prop :=
  x.isNaN = true ∨ y.isNaN = true ∨ (x.isInf = true ∧ (y == 0.0) = true) ∨
    ((x == 0.0) = true ∧ y.isInf = true)

/-- The one infinity and the other. -/
def Clash (x y : Float) : Prop :=
  x.isInf = true ∧ y.isInf = true ∧ (x == y) = false

theorem beq_zero_iff_unpack (x : Float) :
    (x == 0.0) = true ↔ ∃ s, x.toModel.unpack = .zero s := by
  have hview : view 0.0 = .finite false 0 := by decide +kernel
  have hzero : (0.0 : Float).toModel.unpack = .zero .positive := by
    rcases unpack_cases hview with ⟨-, hzero⟩ | ⟨m, shift, hm, hunits, -⟩
    · exact hzero
    · exact absurd hunits.symm (Nat.mul_pos hm (Nat.two_pow_pos shift)).ne'
  show x.toModel.unpack.beq (0.0 : Float).toModel.unpack = true ↔ _
  rw [hzero]
  generalize x.toModel.unpack = u
  cases u with
  | notANumber => simp [UnpackedFloat.beq, UnpackedFloat.compare]
  | zero s => simp [UnpackedFloat.beq, UnpackedFloat.compare]
  | infinity s | finite s => cases s <;> simp [UnpackedFloat.beq, UnpackedFloat.compare]

/-- **A product is lost** if a factor is, or if an infinity meets zero. -/
theorem isNaN_mul_iff (x y : Float) : (x * y).isNaN = true ↔ Void x y := by
  have hmul : (x * y).isNaN =
      (UnpackedFloat.mul .binary64 x.toModel.unpack y.toModel.unpack).isNaN := isNaN_pack _
  unfold Void
  rw [hmul, beq_zero_iff_unpack, beq_zero_iff_unpack]
  show _ ↔ x.toModel.unpack.isNaN = true ∨ y.toModel.unpack.isNaN = true ∨
    (x.toModel.unpack.isInf = true ∧ _) ∨ (_ ∧ y.toModel.unpack.isInf = true)
  generalize x.toModel.unpack = u
  generalize y.toModel.unpack = v
  cases u with
  | finite s m e hm =>
    cases v with
    | finite s' m' e' hm' =>
      show (roundWithAccuracy .binary64 (s * s') (m * m') (e + e') .exact).isNaN = true ↔ _
      rw [isNaN_roundWithAccuracy]
      simp [UnpackedFloat.isNaN, UnpackedFloat.isInf]
    | _ => simp [UnpackedFloat.mul, UnpackedFloat.isNaN, UnpackedFloat.isInf]
  | _ => cases v <;> simp [UnpackedFloat.mul, UnpackedFloat.isNaN, UnpackedFloat.isInf]

/-- **A sum is lost** if a part is, or if both infinities meet. -/
theorem isNaN_add_iff (x y : Float) :
    (x + y).isNaN = true ↔ x.isNaN = true ∨ y.isNaN = true ∨ Clash x y := by
  have hadd : (x + y).isNaN =
      (UnpackedFloat.add .binary64 x.toModel.unpack y.toModel.unpack).isNaN := isNaN_pack _
  unfold Clash
  rw [hadd]
  show _ ↔ x.toModel.unpack.isNaN = true ∨ y.toModel.unpack.isNaN = true ∨
    x.toModel.unpack.isInf = true ∧ y.toModel.unpack.isInf = true ∧
      x.toModel.unpack.beq y.toModel.unpack = false
  generalize x.toModel.unpack = u
  generalize y.toModel.unpack = v
  cases u with
  | finite s m e hm =>
    cases v with
    | finite s' m' e' hm' =>
      show (UnpackedFloat.normalize .binary64 _ (min e e') .positive).isNaN = true ↔ _
      rw [isNaN_normalize]
      simp [UnpackedFloat.isNaN, UnpackedFloat.isInf]
    | _ => simp [UnpackedFloat.add, UnpackedFloat.isNaN, UnpackedFloat.isInf]
  | infinity s =>
    cases v with
    | infinity s' => cases s <;> cases s' <;> decide +kernel
    | _ => simp [UnpackedFloat.add, UnpackedFloat.isNaN, UnpackedFloat.isInf]
  | zero s =>
    cases v with
    | zero s' => cases s <;> cases s' <;> decide +kernel
    | _ => simp [UnpackedFloat.add, UnpackedFloat.isNaN, UnpackedFloat.isInf]
  | notANumber => simp [UnpackedFloat.add, UnpackedFloat.isNaN]

end BlockScript.Number
