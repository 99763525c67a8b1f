import BlockScript.Proofs.Magnitudes
import BlockScript.Number.Decimal

/-!
# Decimals are read by their value

The reader of decimals rounds a ratio of natural numbers, and leaves the ratio unformed where the
number of digits tells that it is out of range. Both are shown to depend on the value of the decimal
only, so that two spellings of one number read as one double. From that, the shortest digits of a
double read back as that double.

* `Number.nearest_congr`: equal ratios are rounded alike;
* `Number.Decimal.read_eq`: a decimal is read as its ratio, within the range and beyond;
* `Number.Decimal.read_congr`: decimals of one value read as one double;
* `Number.nearest_units`: a double is the nearest to its own units;
* `Number.read_shortest`: the shortest digits read back.
-/

namespace BlockScript.Number

/-! ## 1. Ratios -/

section Ratio

variable {num den : Nat}

theorem divRound_mul_left {k : Nat} (hk : 0 < k) :
    divRound (k * num) (k * den) = divRound num den := by
  have hlt : k * den < 2 * (k * (num % den)) ↔ den < 2 * (num % den) := by
    rw [Nat.mul_left_comm]
    exact Nat.mul_lt_mul_left hk
  have heq : 2 * (k * (num % den)) = k * den ↔ 2 * (num % den) = den := by
    rw [Nat.mul_left_comm]
    exact Nat.mul_right_inj hk.ne'
  unfold divRound
  dsimp only
  rw [Nat.mul_div_mul_left _ _ hk, Nat.mul_mod_mul_left]
  simp only [hlt, heq]

theorem bitsOfRatio_mul_left {k : Nat} (hk : 0 < k) :
    bitsOfRatio (k * num) (k * den) = bitsOfRatio num den := by
  unfold bitsOfRatio
  dsimp only
  rw [Nat.mul_assoc k num, Nat.mul_div_mul_left _ _ hk, Nat.mul_assoc k den, divRound_mul_left hk]

/-- **Equal ratios are rounded alike.** -/
theorem nearest_congr {num' den' : Nat} (hden : 0 < den) (hden' : 0 < den')
    (h : num * den' = num' * den) : nearest num den = nearest num' den' := by
  unfold nearest
  rw [← bitsOfRatio_mul_left hden', Nat.mul_comm den' num, h, Nat.mul_comm num', Nat.mul_comm den',
    bitsOfRatio_mul_left hden]

/-- **Less than half a unit** goes to zero. -/
theorem nearest_eq_zero (h : 2 * (num * one) < den) : nearest num den = 0.0 := by
  have hbits : bitsOfRatio num den = 0 := by
    have hround : divRound (num * one) den = 0 := by
      unfold divRound
      rw [Nat.div_eq_of_lt (by omega), Nat.mod_eq_of_lt (by omega)]
      simp
      omega
    unfold bitsOfRatio
    dsimp only
    rw [Nat.div_eq_of_lt (by omega), Nat.log2_zero, Nat.zero_sub, Nat.zero_mul, Nat.pow_eq,
      Nat.pow_zero, Nat.mul_one, hround]
    exact Nat.min_eq_left (Nat.zero_le _)
  obtain ⟨hmagnitude, hsign⟩ := magnitude_nearest num den
  refine eq_of_magnitude (hsign.trans ?_) (hmagnitude.trans (hbits.trans ?_))
  · decide +kernel
  · decide +kernel

/-- One is a power of two. The exponent is a variable, so that the power stays as it is written. -/
theorem one_eq_pow {w : Nat} (hw : w = 1074) : one = 2 ^ w := by
  unfold one
  rw [← hw]
  exact Nat.pow_eq

/-- **A ratio beyond the range** is infinite. -/
theorem nearest_eq_infinity {k : Nat} (hden : 0 < den) (hk : 1025 ≤ k) (h : den * 2 ^ k ≤ num) :
    nearest num den = 1.0 / 0.0 := by
  obtain ⟨w, hw⟩ : ∃ w, w = 1074 := ⟨_, rfl⟩
  have hunits : 2 ^ (k + w) ≤ num * one / den := by
    rw [Nat.le_div_iff_mul_le hden, Nat.mul_comm, Nat.pow_add, ← Nat.mul_assoc, one_eq_pow hw]
    exact Nat.mul_le_mul_right _ h
  have hlog : k + w ≤ (num * one / den).log2 :=
    (Nat.le_log2 (Nat.lt_of_lt_of_le (Nat.two_pow_pos _) hunits).ne').mpr hunits
  have hbits : bitsOfRatio num den = 2047 * 2 ^ 52 := by
    unfold bitsOfRatio
    dsimp only
    rw [Nat.pow_eq]
    exact Nat.min_eq_right (Nat.le_add_right_of_le (Nat.mul_le_mul_right _ (by omega)))
  obtain ⟨hmagnitude, hsign⟩ := magnitude_nearest num den
  refine eq_of_magnitude (hsign.trans ?_) (hmagnitude.trans (hbits.trans ?_))
  · decide +kernel
  · decide +kernel

end Ratio

/-! ## 2. Decimals -/

namespace Decimal

/-- The number that a decimal stands for. -/
def value (d : Decimal) : ℚ := d.digits * 10 ^ d.exponent

/-- The decimal as a ratio of natural numbers. -/
def num (d : Decimal) : Nat := d.digits * 10 ^ d.exponent.toNat

def den (d : Decimal) : Nat := 10 ^ (-d.exponent).toNat

variable (d : Decimal)

theorem den_pos : 0 < d.den := Nat.pow_pos (by decide)

theorem value_eq : d.value = d.num / d.den := by
  unfold value num den
  rcases Int.le_total 0 d.exponent with h | h
  · obtain ⟨e, he⟩ := Int.eq_ofNat_of_zero_le h
    rw [he]
    simp
  · obtain ⟨e, he⟩ := Int.eq_ofNat_of_zero_le (Int.neg_nonneg_of_nonpos h)
    rw [show d.exponent = -(e : Int) by omega]
    simp [div_eq_mul_inv]

/-- Ten lies between the third and the fourth power of two. -/
theorem pow_ten (e : Nat) : 2 ^ (3 * e) ≤ 10 ^ e ∧ 10 ^ e ≤ 2 ^ (4 * e) := by
  rw [Nat.pow_mul, Nat.pow_mul]
  exact ⟨Nat.pow_le_pow_left (by decide) e, Nat.pow_le_pow_left (by decide) e⟩

/-- **A decimal below the range** is less than half a unit. -/
theorem below_range (h : d.digits = 0 ∨
    (d.digits.log2 : Int) + 1 + max (3 * d.exponent) (4 * d.exponent) < -1100) :
    2 * (d.num * one) < d.den := by
  rcases h with h | h
  · unfold num
    rw [h, Nat.zero_mul, Nat.zero_mul]
    exact d.den_pos
  · obtain ⟨w, hw⟩ : ∃ w, w = 1074 := ⟨_, rfl⟩
    have hnegative : d.exponent.toNat = 0 := by omega
    unfold num den
    rw [hnegative, Nat.pow_zero, Nat.mul_one, one_eq_pow hw]
    calc 2 * (d.digits * 2 ^ w)
      _ < 2 * (2 ^ (d.digits.log2 + 1) * 2 ^ w) := by
        gcongr
        exact Nat.lt_log2_self
      _ = 2 ^ (d.digits.log2 + 1 + w + 1) := by rw [← Nat.pow_add, ← Nat.pow_succ']
      _ ≤ 2 ^ (3 * (-d.exponent).toNat) := Nat.pow_le_pow_right (by decide) (by omega)
      _ ≤ 10 ^ (-d.exponent).toNat := (pow_ten _).1

/-- **A decimal above the range** is more than every double. -/
theorem above_range (h : d.digits ≠ 0)
    (hlarge : 1100 < (d.digits.log2 : Int) + min (3 * d.exponent) (4 * d.exponent)) :
    ∃ k, 1025 ≤ k ∧ d.den * 2 ^ k ≤ d.num := by
  have hdigits := Nat.log2_self_le h
  unfold num den
  rcases Int.le_total 0 d.exponent with hsign | hsign
  · refine ⟨d.digits.log2 + 3 * d.exponent.toNat, by omega, ?_⟩
    rw [show (-d.exponent).toNat = 0 by omega, Nat.pow_zero, Nat.one_mul, Nat.pow_add]
    exact Nat.mul_le_mul hdigits (pow_ten _).1
  · refine ⟨d.digits.log2 - 4 * (-d.exponent).toNat, by omega, ?_⟩
    rw [show d.exponent.toNat = 0 by omega, Nat.pow_zero, Nat.mul_one]
    calc 10 ^ (-d.exponent).toNat * 2 ^ (d.digits.log2 - 4 * (-d.exponent).toNat)
      _ ≤ 2 ^ (4 * (-d.exponent).toNat) * 2 ^ (d.digits.log2 - 4 * (-d.exponent).toNat) :=
        Nat.mul_le_mul_right _ (pow_ten _).2
      _ = 2 ^ d.digits.log2 := by rw [← Nat.pow_add, Nat.add_sub_of_le (by omega)]
      _ ≤ d.digits := hdigits

/-- **A decimal is read as its ratio**: where the power of ten is not formed, it makes no
    difference. -/
theorem read_eq : d.read = nearest d.num d.den := by
  unfold Decimal.read
  dsimp only
  split
  · rename_i h
    exact (nearest_eq_zero (d.below_range h)).symm
  rename_i hnonzero
  split
  · rename_i hlarge
    obtain ⟨k, hk, hle⟩ := d.above_range (not_or.mp hnonzero).1 hlarge
    exact (nearest_eq_infinity d.den_pos hk hle).symm
  unfold num den
  split
  · rw [show (-d.exponent).toNat = 0 by omega]
    rfl
  · rw [show d.exponent.toNat = 0 by omega, Nat.pow_zero, Nat.mul_one]
    rfl

variable {d}

/-- **Decimals of one value read as one double.** -/
theorem read_congr {d' : Decimal} (h : d.value = d'.value) : d.read = d'.read := by
  have hden : (d.den : ℚ) ≠ 0 := Nat.cast_ne_zero.mpr d.den_pos.ne'
  have hden' : (d'.den : ℚ) ≠ 0 := Nat.cast_ne_zero.mpr d'.den_pos.ne'
  rw [value_eq, value_eq, div_eq_div_iff hden hden'] at h
  rw [read_eq, read_eq]
  exact nearest_congr d.den_pos d'.den_pos (by exact_mod_cast h)

end Decimal

/-! ## 3. The digits of a double -/

/-- The units of a double are a mantissa and a shift, as its bits have them. -/
theorem unitsOfBits_eq (bits : Nat) :
    ∃ mantissa shift, mantissa < 2 ^ 53 ∧ unitsOfBits bits = mantissa * 2 ^ shift ∧
      (unitsOfBits bits).log2 - 52 = shift ∧ shift * 2 ^ 52 + mantissa = bits := by
  unfold unitsOfBits
  simp only [Nat.pow_eq]
  split
  · refine ⟨bits % 2 ^ 52, 0, by omega, by rw [Nat.pow_zero, Nat.mul_one], ?_, by omega⟩
    have hlog : (bits % 2 ^ 52).log2 < 53 := by
      rcases Nat.eq_zero_or_pos (bits % 2 ^ 52) with hzero | hpos
      · rw [hzero]
        decide
      · exact (Nat.log2_lt hpos.ne').mpr (by omega)
    omega
  · refine ⟨bits % 2 ^ 52 + 2 ^ 52, bits / 2 ^ 52 - 1, by omega, rfl, ?_, by omega⟩
    have hlog : (bits % 2 ^ 52 + 2 ^ 52).log2 = 52 :=
      (Nat.log2_eq_iff (by omega)).mpr ⟨by omega, by omega⟩
    rw [log2_mul_pow (by omega), hlog]
    omega

/-- **A double is the nearest to its own units.** -/
theorem bitsOfRatio_unitsOfBits {bits : Nat} (h : bits < 2047 * 2 ^ 52) :
    bitsOfRatio (unitsOfBits bits) one = bits := by
  obtain ⟨mantissa, shift, -, hunits, hshift, hbits⟩ := unitsOfBits_eq bits
  have hexact : unitsOfBits bits * one = mantissa * (one * 2 ^ shift) := by
    rw [hunits, Nat.mul_assoc, Nat.mul_comm one]
  unfold bitsOfRatio
  dsimp only
  rw [Nat.mul_div_cancel _ one_pos, hshift, hexact, Nat.pow_eq, Nat.pow_eq,
    divRound_mul (Nat.mul_pos one_pos (Nat.two_pow_pos _)), hbits, Nat.min_eq_left h.le]

theorem nearest_units {x : Float} {units : Nat} (h : view x = .finite false units) :
    nearest units one = x := by
  obtain ⟨-, hlt, hsign, hunits⟩ := view_eq_finite h
  obtain ⟨hmagnitude, hpositive⟩ := magnitude_nearest units one
  refine eq_of_magnitude (hpositive.trans hsign.symm) (hmagnitude.trans ?_)
  rw [← hunits]
  exact bitsOfRatio_unitsOfBits hlt

/-- All digits of a double read back. -/
theorem read_exact {x : Float} {units : Nat} (h : view x = .finite false units) :
    (exact units).read = x := by
  obtain ⟨w, hw⟩ : ∃ w, w = 1074 := ⟨_, rfl⟩
  have hexact : exact units = ⟨units * 5 ^ w, -(w : Int)⟩ := by
    have hexponent : (-1074 : Int) = -(w : Int) := by omega
    unfold exact
    rw [hexponent, ← hw, Nat.pow_eq]
  have hunits := nearest_units h
  rw [Decimal.read_eq, ← hunits]
  refine nearest_congr (Decimal.den_pos _) one_pos ?_
  rw [hexact, one_eq_pow hw]
  unfold Decimal.num Decimal.den
  dsimp only
  rw [Int.neg_neg, Int.toNat_natCast, Int.toNat_neg_natCast, Nat.pow_zero, Nat.mul_one,
    Nat.mul_assoc, ← Nat.mul_pow]

/-- **The shortest digits read back**, under either rule for ties. -/
theorem read_shortest {x : Float} {units : Nat} (h : view x = .finite false units) (tie : Tie) :
    (shortest tie units x).read = x := by
  unfold shortest
  dsimp only
  cases hhit : (List.range 17).findSome? _ with
  | none => exact read_exact h
  | some d =>
    obtain ⟨n, -, hfind⟩ := List.exists_of_findSome?_eq_some hhit
    have hbits := List.find?_some hfind
    rw [beq_iff_eq, Float.toBits_inj] at hbits
    exact hbits

end BlockScript.Number
