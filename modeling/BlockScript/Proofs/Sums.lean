import BlockScript.Proofs.Positions

/-!
# Sums of doubles

A sum is formed of mantissas that are brought to one exponent, and cut to 53 binary digits again.
Here the result is told by units alone: the sum of two finite doubles is the double that is nearest
to the sum of their units. On whole numbers this makes sums exact as far as doubles can count.

* `Number.Cut`: a mantissa with its round bit and sticky bit, as a quotient that is not exact;
* `Number.magnitude_round`: what is rounded and packed is the nearest double;
* `Number.add_cases`: the sum of two finite doubles is the nearest to the sum of their units;
* `Number.Whole.add`, `Number.Whole.sub`: whole numbers are added and subtracted exactly;
* `Number.Whole.sub_cases`: the difference of whole numbers is whole, however large they are;
* `Number.Whole.remUp`: the remainder of a whole number that is never below zero.
-/

namespace BlockScript.Number

open Float.Model (UnpackedFloat Format totalExponent)
open Float.Model.UnpackedFloat

/-! ## 1. Digits that are cut off -/

/-- A mantissa with its two bits keeps of a quotient what is needed to round it: the whole part,
    whether the rest is a half at least, and whether it is neither nothing nor a half. -/
structure Cut (num den : Nat) (em : ExtendedMantissa) : Prop where
  mantissa : em.mantissa = num / den
  roundBit : em.roundBit = decide (den ≤ 2 * (num % den))
  stickyBit : em.stickyBit = decide (2 * (num % den) ≠ 0 ∧ 2 * (num % den) ≠ den)

section Cut

variable {num den : Nat} {em : ExtendedMantissa}

theorem cut_exact (n : Nat) : Cut n 1 (.ofMantissaAndAccuracy n .exact) := by
  refine ⟨(Nat.div_one n).symm, ?_, ?_⟩ <;> rw [Nat.mod_one] <;> rfl

/-- One digit more is cut off. -/
theorem Cut.shiftRightOne (hden : 0 < den) (h : Cut num den em) :
    Cut num (2 * den) em.shiftRightOne := by
  have hmod : num % (2 * den) = num % den + den * (num / den % 2) := by
    rw [Nat.mul_comm 2 den, Nat.mod_mul]
  have hlt := Nat.mod_lt num hden
  refine ⟨?_, ?_, ?_⟩
  · show em.mantissa / 2 = _
    rw [h.mantissa, Nat.div_div_eq_div_mul, Nat.mul_comm den]
  · show (em.mantissa % 2 != 0) = _
    rw [h.mantissa, hmod, Bool.eq_iff_iff, bne_iff_ne, decide_eq_true_iff]
    rcases Nat.mod_two_eq_zero_or_one (num / den) with hbit | hbit <;> rw [hbit] <;> omega
  · show (em.roundBit || em.stickyBit) = _
    rw [h.roundBit, h.stickyBit, hmod, Bool.eq_iff_iff, Bool.or_eq_true, decide_eq_true_iff,
      decide_eq_true_iff, decide_eq_true_iff]
    rcases Nat.mod_two_eq_zero_or_one (num / den) with hbit | hbit <;> rw [hbit] <;> omega

theorem Cut.shiftRight (n k : Nat) :
    Cut n (2 ^ k) (ExtendedMantissa.ofMantissaAndAccuracy n .exact >>> k) := by
  show Cut n (2 ^ k) (Nat.repeat ExtendedMantissa.shiftRightOne k _)
  induction k with
  | zero => exact cut_exact n
  | succ k ih =>
    rw [Nat.pow_succ']
    exact ih.shiftRightOne (Nat.two_pow_pos k)

/-- **What is kept is enough to round.** -/
theorem Cut.roundedMantissa (hden : 0 < den) (h : Cut num den em) :
    em.roundedMantissa = divRound num den := by
  obtain ⟨hmantissa, hround, hsticky⟩ := h
  have hlt := Nat.mod_lt num hden
  obtain ⟨m, r, s⟩ := em
  dsimp only at hmantissa hround hsticky
  subst hmantissa
  unfold divRound
  cases r <;> cases s <;>
    simp only [ExtendedMantissa.roundedMantissa, ExtendedMantissa.accuracy,
      Accuracy.roundToNearestEven] <;>
    simp only [eq_comm (a := false), eq_comm (a := true), decide_eq_true_iff,
      decide_eq_false_iff_not] at hround hsticky <;>
    simp only [Bool.or_eq_true, Bool.and_eq_true, decide_eq_true_iff] <;> split <;> omega

end Cut

/-! ## 2. Packing -/

/-- What stands for some bits is packed to them. -/
theorem magnitude_pack {negative : Bool} {bits : Nat} {u : UnpackedFloat}
    (h : StandsFor (signOf negative) bits u) (hbits : bits ≤ 2047 * 2 ^ 52) :
    magnitude (.ofModel (.pack u)) = bits ∧ isNegative (.ofModel (.pack u)) = negative := by
  obtain ⟨hmod, hsign⟩ := @toNat_withSign negative bits hbits
  have hunpack := standsFor_unpack (withSign negative bits)
  rw [hmod, hsign] at hunpack
  rw [h.unique hunpack]
  exact magnitude_ofBits hbits

/-- An exponent beyond the range makes an infinity. -/
theorem pack_of_large {s : Sign} {m : Nat} {e : Int} (hm : 0 < m) (he : 971 < e) :
    Float.Model.pack (.finite s m e hm) = .pack (.infinity s) := by
  have hbias : (2 : Nat) ^ Format.binary64.exponentBits ≤
      (e + Format.binary64.exponentBias + Format.binary64.mantissaBitsWithoutImplicit).toNat + 1 := by
    show 2048 ≤ (e + (1023 : Nat) + (52 : Nat)).toNat + 1
    omega
  have hpack : UnpackedFloat.pack .binary64 (.finite s m e hm) =
      UnpackedFloat.pack .binary64 (.infinity s) := by
    unfold UnpackedFloat.pack
    dsimp only
    rw [if_pos hbias]
  unfold Float.Model.pack
  congr 2

/-! ## 3. Rounding -/

section Round

variable {m shift t : Nat}

/-- The nearest double to a number of units, by the digits that stay. -/
theorem bitsOfRatio_units {units : Nat} (ht : t = units.log2 - 52) :
    bitsOfRatio units one = min (t * 2 ^ 52 + divRound units (2 ^ t)) (2047 * 2 ^ 52) := by
  unfold bitsOfRatio
  dsimp only
  rw [Nat.mul_div_cancel _ one_pos, ← ht, Nat.pow_eq, Nat.pow_eq, Nat.mul_comm _ one,
    divRound_mul_left one_pos]

/-- The digits that stay, rounded: all 53 places are filled unless the exponent is the least. -/
theorem divRound_bounds {units : Nat} (hunits : 0 < units) (ht : t = units.log2 - 52) :
    0 < divRound units (2 ^ t) ∧ divRound units (2 ^ t) ≤ 2 ^ 53 ∧
      (t = 0 ∨ 2 ^ 52 ≤ divRound units (2 ^ t)) := by
  have hupper : units / 2 ^ t < 2 ^ 53 := by
    rw [Nat.div_lt_iff_lt_mul (Nat.two_pow_pos t), ← Nat.pow_add, ← Nat.log2_lt hunits.ne']
    omega
  have hlower : t = 0 ∨ 2 ^ 52 ≤ units / 2 ^ t := by
    rcases Nat.eq_zero_or_pos t with hzero | hpos
    · exact .inl hzero
    · right
      rw [Nat.le_div_iff_mul_le (Nat.two_pow_pos t), ← Nat.pow_add, ← Nat.le_log2 hunits.ne']
      omega
  have hround : units / 2 ^ t ≤ divRound units (2 ^ t) ∧
      divRound units (2 ^ t) ≤ units / 2 ^ t + 1 := by
    unfold divRound
    dsimp only
    split <;> omega
  refine ⟨?_, by omega, by omega⟩
  rcases hlower with hzero | hlower
  · rw [hzero] at hround ⊢
    have hdiv : units / 2 ^ 0 = units := Nat.div_one units
    omega
  · omega

theorem targetExponent_eq (hm : 0 < m) (ht : t = (m * 2 ^ shift).log2 - 52) :
    Format.binary64.targetExponent (totalExponent m (shift - 1074)) = (t : Int) - 1074 := by
  have hlog := log2_mul_pow hm.ne' shift
  show max ((m.log2 : Int) + 1 + (shift - 1074) - (53 : Nat)) (-1074) = _
  omega

/-- A mantissa is shifted to where it keeps 53 digits, if it has more. -/
theorem shiftToTargetExponent_eq (hm : 0 < m) (ht : t = (m * 2 ^ shift).log2 - 52) :
    shiftToTargetExponent .binary64 m (shift - 1074) .exact =
      (ExtendedMantissa.ofMantissaAndAccuracy m .exact >>> (t - shift),
        ((max shift t : Nat) : Int) - 1074) := by
  have hamount : ((t : Int) - 1074 - (shift - 1074)).toNat = t - shift := by omega
  unfold shiftToTargetExponent shiftToExponent
  dsimp only
  rw [targetExponent_eq hm ht, hamount]
  congr 1
  omega

/-- **Rounding**: first the digits are cut off, and when rounding fills one place more, then one of
    them again. -/
theorem roundWithAccuracy_eq (hm : 0 < m) (ht : t = (m * 2 ^ shift).log2 - 52) (hle : shift ≤ t)
    (s : Sign) :
    ∃ (m' : Nat) (e' : Int) (hm' : 0 < m'),
      roundWithAccuracy .binary64 s m (shift - 1074) .exact = .finite s m' e' hm' ∧
      bitsOf m' e' = t * 2 ^ 52 + divRound (m * 2 ^ shift) (2 ^ t) ∧
      (e' ≤ 971 → Canonical m' e') ∧ (971 < e' → 2047 * 2 ^ 52 ≤ bitsOf m' e') := by
  obtain ⟨hpos, hupper, hlower⟩ := divRound_bounds (Nat.mul_pos hm (Nat.two_pow_pos shift)) ht
  have hround : (ExtendedMantissa.ofMantissaAndAccuracy m .exact >>> (t - shift)).roundedMantissa =
      divRound (m * 2 ^ shift) (2 ^ t) := by
    have hden : 2 ^ t = 2 ^ shift * 2 ^ (t - shift) := by
      rw [← Nat.pow_add, Nat.add_sub_of_le hle]
    rw [(Cut.shiftRight m (t - shift)).roundedMantissa (Nat.two_pow_pos _), hden,
      Nat.mul_comm m, divRound_mul_left (Nat.two_pow_pos _)]
  generalize divRound (m * 2 ^ shift) (2 ^ t) = r at hpos hupper hlower hround ⊢
  -- how many digits are cut off the rounded mantissa
  obtain ⟨k, hk⟩ : ∃ k, k = (r * 2 ^ t).log2 - 52 - t := ⟨_, rfl⟩
  have hlog := log2_mul_pow hpos.ne' t
  have hcut := (Cut.shiftRight r k).mantissa
  have hexact : r / 2 ^ k < 2 ^ 53 ∧ 0 < r / 2 ^ k ∧ r + t * 2 ^ 52 = r / 2 ^ k + (t + k) * 2 ^ 52 ∧
      (t + k = 0 ∨ 2 ^ 52 ≤ r / 2 ^ k) := by
    rcases Nat.lt_or_eq_of_le hupper with hlt | rfl
    · have hlt' := (Nat.log2_lt hpos.ne').mpr hlt
      rw [show k = 0 by omega, Nat.pow_zero, Nat.div_one]
      omega
    · rw [Nat.log2_two_pow] at hlog
      rw [show k = 1 by omega]
      omega
  obtain ⟨hlt, hpos', hbits, hfull⟩ := hexact
  refine ⟨r / 2 ^ k, ((t + k : Nat) : Int) - 1074, hpos', ?_, ?_, ?_, ?_⟩
  · have hmax : max t ((r * 2 ^ t).log2 - 52) = t + k := by omega
    unfold roundWithAccuracy
    rw [shiftToTargetExponent_eq hm ht]
    dsimp only
    rw [hround, Nat.max_eq_right hle, shiftToTargetExponent_eq hpos rfl, ← hk, hmax]
    dsimp only
    rw [dif_neg (by rw [hcut]; omega)]
    simp only [hcut]
  · unfold bitsOf
    omega
  · intro hhigh
    exact ⟨hpos', hlt, by omega, hhigh, by omega⟩
  · intro hlarge
    unfold bitsOf
    omega

/-- **What is rounded and packed is the nearest double.** -/
theorem magnitude_round (hm : 0 < m) (negative : Bool) :
    magnitude (.ofModel (.pack (UnpackedFloat.round .binary64 (signOf negative) m (shift - 1074)))) =
        bitsOfRatio (m * 2 ^ shift) one ∧
      isNegative (.ofModel
        (.pack (UnpackedFloat.round .binary64 (signOf negative) m (shift - 1074)))) = negative := by
  obtain ⟨t, ht⟩ : ∃ t, t = (m * 2 ^ shift).log2 - 52 := ⟨_, rfl⟩
  have hlog := log2_mul_pow hm.ne' shift
  -- a mantissa with fewer digits is filled up with zeros first
  have hunits : m * 2 ^ shift = m * 2 ^ (shift - t) * 2 ^ min shift t := by
    rw [Nat.mul_assoc, ← Nat.pow_add]
    congr 2
    omega
  have hround : UnpackedFloat.round .binary64 (signOf negative) m (shift - 1074) =
      roundWithAccuracy .binary64 (signOf negative) (m * 2 ^ (shift - t))
        ((min shift t : Nat) - 1074) .exact := by
    have hamount : ((shift : Int) - 1074 - (t - 1074)).toNat = shift - t := by omega
    unfold UnpackedFloat.round decreaseExponent
    dsimp only
    rw [targetExponent_eq hm ht, hamount, Nat.shiftLeft_eq]
    congr 1
    omega
  have hpos : 0 < m * 2 ^ (shift - t) := Nat.mul_pos hm (Nat.two_pow_pos _)
  rw [hunits] at ht ⊢
  obtain ⟨m', e', hm', heq, hbits, hcanonical, hlarge⟩ :=
    roundWithAccuracy_eq hpos ht (Nat.min_le_right shift t) (signOf negative)
  rw [hround, heq, bitsOfRatio_units ht, ← hbits]
  rcases le_or_gt e' 971 with hhigh | hhigh
  · have hlt := bitsOf_lt_infinity (hcanonical hhigh)
    rw [Nat.min_eq_left hlt.le]
    exact magnitude_pack (.finite (hcanonical hhigh) rfl) hlt.le
  · rw [Nat.min_eq_right (hlarge hhigh), pack_of_large hm' hhigh]
    exact magnitude_pack (.infinity rfl) (Nat.le_refl _)

end Round

/-! ## 4. Sums -/

/-- What is finite has units. -/
theorem exists_view_of_isFinite {x : Float} (h : x.isFinite = true) :
    ∃ negative units, view x = .finite negative units := by
  have hstands := standsFor x
  have hmodel : x.toModel.unpack.isFinite = true := h
  generalize x.toModel.unpack = u at hstands hmodel
  have hlt : magnitude x < 2047 * 2 ^ 52 := by
    cases hstands with
    | notANumber | infinity => cases hmodel
    | zero h => omega
    | finite hm h => exact h ▸ bitsOf_lt_infinity hm
  exact ⟨_, _, (view_eq x).trans (if_pos hlt)⟩

/-- The double nearest to a number of units. -/
def ofUnits (n : Int) : Float := signed (n < 0) (nearest n.natAbs one)

theorem magnitude_ofUnits (n : Int) :
    magnitude (ofUnits n) = bitsOfRatio n.natAbs one ∧ isNegative (ofUnits n) = decide (n < 0) := by
  obtain ⟨hbits, hsign⟩ := magnitude_nearest n.natAbs one
  unfold ofUnits signed
  split
  · rename_i hneg
    obtain ⟨hbits', hsign'⟩ := magnitude_neg (isNaN_nearest n.natAbs one)
    rw [hbits', hsign', hbits, hsign, hneg]
    exact ⟨rfl, rfl⟩
  · rename_i hpos
    rw [hbits, hsign, Bool.eq_false_iff.mpr hpos]
    exact ⟨rfl, rfl⟩

/-- The units of a mantissa and an exponent. -/
theorem unitsOfBits_bitsOf {m : Nat} {e : Int} (h : Canonical m e) :
    unitsOfBits (bitsOf m e) = m * 2 ^ (e + 1074).toNat := by
  obtain ⟨hpos, hlt, hlow, -, hfull⟩ := h
  unfold unitsOfBits bitsOf
  generalize hshift : (e + 1074).toNat = shift
  simp only [Nat.pow_eq]
  split
  · rw [show shift = 0 by omega, Nat.pow_zero, Nat.mul_one]
    omega
  · have hfull : 2 ^ 52 ≤ m := by omega
    congr 1
    · omega
    · congr 1
      omega

/-- What a finite double is unpacked to. -/
theorem unpack_cases {x : Float} {negative : Bool} {units : Nat}
    (h : view x = .finite negative units) :
    (units = 0 ∧ x.toModel.unpack = .zero (signOf negative)) ∨
      ∃ (m shift : Nat) (hm : 0 < m), units = m * 2 ^ shift ∧
        x.toModel.unpack = .finite (signOf negative) m (shift - 1074) hm := by
  obtain ⟨-, hlt, hsign, hunits⟩ := view_eq_finite h
  have hstands := standsFor x
  rw [hsign] at hstands
  generalize x.toModel.unpack = u at hstands
  subst hunits
  cases hstands with
  | notANumber h => omega
  | infinity h => omega
  | zero h =>
    rw [h]
    exact .inl ⟨rfl, rfl⟩
  | @finite m e hm h =>
    have hexponent : e = ((e + 1074).toNat : Int) - 1074 := by
      have hlow := hm.low
      omega
    rw [h, unitsOfBits_bitsOf hm]
    refine .inr ⟨m, (e + 1074).toNat, hm.pos, rfl, ?_⟩
    congr 1

/-- A double is what is packed of it. -/
theorem ofModel_pack_unpack {x : Float} (h : x.isNaN = false) :
    Float.ofModel (.pack x.toModel.unpack) = x := by
  obtain ⟨hbits, hsign⟩ := magnitude_pack (standsFor x) (magnitude_le h)
  exact eq_of_magnitude hsign hbits

theorem apply_mul (s : Sign) (a b : Nat) : s.apply ((a * b : Nat) : Int) = s.apply a * b := by
  cases s
  · show -((a * b : Nat) : Int) = -(a : Int) * b
    rw [Int.natCast_mul, Int.neg_mul]
  · exact Int.natCast_mul a b

theorem apply_ne_zero {s : Sign} {n : Nat} (h : n ≠ 0) : s.apply n ≠ 0 := by
  cases s
  · exact Int.neg_ne_zero.mpr (Int.natCast_ne_zero.mpr h)
  · exact Int.natCast_ne_zero.mpr h

/-- **Two mantissas are added** at the lesser of their exponents. -/
theorem add_finite {s s' : Sign} {m m' shift shift' : Nat} (hm : 0 < m) (hm' : 0 < m') {n : Int}
    (hn : n = s.apply (m * 2 ^ shift : Nat) + s'.apply (m' * 2 ^ shift' : Nat)) :
    (n = 0 ∧ UnpackedFloat.add .binary64 (.finite s m (shift - 1074) hm)
        (.finite s' m' (shift' - 1074) hm') = .zero .positive) ∨
      n ≠ 0 ∧ Float.ofModel (.pack (UnpackedFloat.add .binary64 (.finite s m (shift - 1074) hm)
        (.finite s' m' (shift' - 1074) hm'))) = ofUnits n := by
  obtain ⟨low, hlow⟩ : ∃ low, low = min shift shift' := ⟨_, rfl⟩
  have hsplit (s : Sign) (m k : Nat) (hk : low ≤ k) :
      s.apply (m * 2 ^ k : Nat) = s.apply (m * 2 ^ (k - low) : Nat) * (2 ^ low : Nat) := by
    rw [← apply_mul, Nat.mul_assoc, ← Nat.pow_add, Nat.sub_add_cancel hk]
  obtain ⟨sum, hsum⟩ : ∃ sum : Int,
      sum = s.apply (m * 2 ^ (shift - low) : Nat) + s'.apply (m' * 2 ^ (shift' - low) : Nat) :=
    ⟨_, rfl⟩
  have hunits : n = sum * (2 ^ low : Nat) := by
    rw [hn, hsplit s m shift (by omega), hsplit s' m' shift' (by omega), hsum, Int.add_mul]
  have hadd : UnpackedFloat.add .binary64 (.finite s m (shift - 1074) hm)
      (.finite s' m' (shift' - 1074) hm') =
        UnpackedFloat.normalize .binary64 sum (low - 1074) .positive := by
    have hmin : min ((shift : Int) - 1074) (shift' - 1074) = (low : Int) - 1074 := by omega
    have hamount (k : Nat) : ((k : Int) - 1074 - (low - 1074)).toNat = k - low := by omega
    unfold UnpackedFloat.add decreaseExponent
    dsimp only
    rw [hmin, hamount, hamount, Nat.shiftLeft_eq, Nat.shiftLeft_eq, hsum]
  have hpow : (0 : Int) < (2 ^ low : Nat) := Int.natCast_pos.mpr (Nat.two_pow_pos low)
  have habs : n.natAbs = sum.natAbs * 2 ^ low := by
    rw [hunits, Int.natAbs_mul, Int.natAbs_natCast]
  rw [hadd]
  unfold UnpackedFloat.normalize
  rcases lt_trichotomy sum 0 with hneg | hzero | hpos
  · have hn0 : n < 0 := by
      rw [hunits]
      exact Int.mul_neg_of_neg_of_pos hneg hpow
    obtain ⟨hbits, hsign⟩ := magnitude_ofUnits n
    obtain ⟨hbits', hsign'⟩ := @magnitude_round (-sum).toNat low (by omega) true
    rw [compare_lt_iff_lt.mpr hneg]
    refine .inr ⟨hn0.ne, eq_of_magnitude (hsign'.trans ?_) (hbits'.trans ?_)⟩
    · rw [hsign, decide_eq_true hn0]
    · rw [hbits, habs, show (-sum).toNat = sum.natAbs by omega]
  · rw [compare_eq_iff_eq.mpr hzero]
    exact .inl ⟨by rw [hunits, hzero, Int.zero_mul], rfl⟩
  · have hn0 : 0 < n := by
      rw [hunits]
      exact Int.mul_pos hpos hpow
    obtain ⟨hbits, hsign⟩ := magnitude_ofUnits n
    obtain ⟨hbits', hsign'⟩ := @magnitude_round sum.toNat low (by omega) false
    rw [compare_gt_iff_gt.mpr hpos]
    refine .inr ⟨hn0.ne', eq_of_magnitude (hsign'.trans ?_) (hbits'.trans ?_)⟩
    · rw [hsign, decide_eq_false hn0.le.not_gt]
    · rw [hbits, habs, show sum.toNat = sum.natAbs by omega]

/-- A double that is not zero is the nearest to its own units. -/
theorem ofUnits_units {x : Float} {negative : Bool} {units : Nat}
    (h : view x = .finite negative units) (hunits : units ≠ 0) :
    ofUnits ((signOf negative).apply units) = x := by
  obtain ⟨-, hlt, hsign, hbits⟩ := view_eq_finite h
  obtain ⟨hbits', hsign'⟩ := magnitude_ofUnits ((signOf negative).apply units)
  have habs : ((signOf negative).apply units).natAbs = units := by
    cases negative
    · exact Int.natAbs_natCast units
    · exact (Int.natAbs_neg _).trans (Int.natAbs_natCast units)
  refine eq_of_magnitude (hsign'.trans ?_) (hbits'.trans ?_)
  · rw [hsign]
    cases negative
    · exact decide_eq_false (Int.natCast_nonneg units).not_gt
    · exact decide_eq_true (show -(units : Int) < 0 by omega)
  · rw [habs, ← hbits]
    exact bitsOfRatio_unitsOfBits hlt

theorem view_pack_zero (s : Sign) :
    ∃ negative, view (.ofModel (.pack (.zero s))) = .finite negative 0 := by
  cases s
  · exact ⟨true, by decide +kernel⟩
  · exact ⟨false, by decide +kernel⟩

section Sum

variable {x y : Float} {s s' : Bool} {a b : Nat} (hx : view x = .finite s a)
  (hy : view y = .finite s' b)

include hx hy

/-- **The sum of two finite doubles** is the nearest to the sum of their units. -/
theorem add_cases :
    ((view x).units + (view y).units = 0 ∧ ∃ negative, view (x + y) = .finite negative 0) ∨
      (view x).units + (view y).units ≠ 0 ∧ x + y = ofUnits ((view x).units + (view y).units) := by
  have hunits : (view x).units = (signOf s).apply a := by rw [hx]; rfl
  have hunits' : (view y).units = (signOf s').apply b := by rw [hy]; rfl
  have hzero (s : Bool) : (signOf s).apply ((0 : Nat) : Int) = 0 := by cases s <;> rfl
  have hadd : x + y =
      .ofModel (.pack (UnpackedFloat.add .binary64 x.toModel.unpack y.toModel.unpack)) := rfl
  rw [hunits, hunits', hadd]
  rcases unpack_cases hx with ⟨rfl, hux⟩ | ⟨m, shift, hm, ha, hux⟩
  · rcases unpack_cases hy with ⟨rfl, huy⟩ | ⟨m', shift', hm', hb, huy⟩
    · rw [hux, huy, hzero, hzero]
      refine .inl ⟨rfl, ?_⟩
      cases s <;> cases s' <;> exact view_pack_zero _
    · have hpos : b ≠ 0 := by
        rw [hb]
        exact (Nat.mul_pos hm' (Nat.two_pow_pos _)).ne'
      have hsum : UnpackedFloat.add .binary64 x.toModel.unpack y.toModel.unpack =
          y.toModel.unpack := by
        rw [hux, huy]
        rfl
      rw [hsum, ofModel_pack_unpack (view_eq_finite hy).1, hzero, Int.zero_add,
        ofUnits_units hy hpos]
      exact .inr ⟨apply_ne_zero hpos, rfl⟩
  · have hpos : a ≠ 0 := by
      rw [ha]
      exact (Nat.mul_pos hm (Nat.two_pow_pos _)).ne'
    rcases unpack_cases hy with ⟨rfl, huy⟩ | ⟨m', shift', hm', hb, huy⟩
    · have hsum : UnpackedFloat.add .binary64 x.toModel.unpack y.toModel.unpack =
          x.toModel.unpack := by
        rw [hux, huy]
        rfl
      rw [hsum, ofModel_pack_unpack (view_eq_finite hx).1, hzero, Int.add_zero,
        ofUnits_units hx hpos]
      exact .inr ⟨apply_ne_zero hpos, rfl⟩
    · rw [hux, huy, ha, hb]
      rcases add_finite hm hm' rfl with ⟨hn, hsum⟩ | hsum
      · rw [hsum]
        exact .inl ⟨hn, view_pack_zero _⟩
      · exact .inr hsum

end Sum

theorem unpack_neg {x : Float} (h : x.isNaN = false) :
    (-x).toModel.unpack = x.toModel.unpack.neg := by
  obtain ⟨hbits, hsign⟩ := magnitude_neg h
  have hstands := standsFor (-x)
  have hflip : signOf (!isNegative x) = -signOf (isNegative x) := by
    cases isNegative x <;> rfl
  rw [hbits, hsign, hflip] at hstands
  exact hstands.unique (standsFor x).neg

/-- To subtract is to add with the other sign. -/
theorem sub_eq_add_neg (x : Float) {y : Float} (h : y.isNaN = false) : x - y = x + -y := by
  have hmodel (u v : UnpackedFloat) :
      UnpackedFloat.sub .binary64 u v = UnpackedFloat.add .binary64 u v.neg := by
    cases u with
    | notANumber => cases v <;> rfl
    | infinity s => cases v <;> rfl
    | zero s => cases v <;> rfl
    | finite s m e hm =>
      cases v with
      | notANumber | infinity | zero => rfl
      | finite s' m' e' hm' =>
        have hsign (n : Int) : (-s').apply n = -s'.apply n := by
          cases s'
          · exact (Int.neg_neg n).symm
          · rfl
        show UnpackedFloat.normalize _ (_ - _) _ _ = UnpackedFloat.normalize _ (_ + _) _ _
        rw [hsign, Int.sub_eq_add_neg]
  show Float.ofModel (.pack (UnpackedFloat.sub .binary64 _ _)) =
    Float.ofModel (.pack (UnpackedFloat.add .binary64 _ _))
  rw [hmodel, unpack_neg h]

/-! ## 5. Whole numbers -/

/-- The double is a whole number. -/
structure Whole (x : Float) (n : Int) : Prop where
  finite : ∃ negative units, view x = .finite negative units
  units : (view x).units = n * one

theorem units_neg {x : Float} {negative : Bool} {units : Nat} (h : view x = .finite negative units) :
    (view (-x)).units = -(view x).units := by
  rw [view_neg h, h]
  cases negative
  · rfl
  · exact (Int.neg_neg _).symm

theorem whole_of_view {x : Float} {negative : Bool} {n : Nat}
    (h : view x = .finite negative (n * one)) : Whole x ((signOf negative).apply n) := by
  refine ⟨⟨_, _, h⟩, ?_⟩
  rw [h]
  exact apply_mul _ n one

theorem whole_ofNat {n : Nat} (h : n ≤ 2 ^ 53) : Whole (ofNat n) n :=
  whole_of_view (view_ofNat_le h)

section Whole

variable {x y : Float} {n k : Int}

theorem Whole.neg (h : Whole x n) : Whole (-x) (-n) := by
  obtain ⟨⟨negative, units, hview⟩, hunits⟩ := h
  refine ⟨⟨_, _, view_neg hview⟩, ?_⟩
  rw [units_neg hview, hunits, Int.neg_mul]

/-- A whole number that is in range is held exactly, also below zero. -/
theorem whole_ofUnits (h : n.natAbs ≤ 2 ^ 53) : Whole (ofUnits (n * one)) n := by
  have hone : (0 : Int) < one := Int.natCast_pos.mpr one_pos
  have hnearest : nearest (n * one).natAbs one = ofNat n.natAbs := by
    rw [Int.natAbs_mul, Int.natAbs_natCast]
    exact nearest_congr one_pos Nat.one_pos (by rw [Nat.mul_one])
  have hwhole := whole_ofNat h
  unfold ofUnits signed
  rw [hnearest]
  split
  · rename_i hneg
    have hn : n < 0 := neg_of_mul_neg_left (of_decide_eq_true hneg) hone.le
    have hwhole' := hwhole.neg
    rwa [show -(n.natAbs : Int) = n by omega] at hwhole'
  · rename_i hpos
    have hn : 0 ≤ n := by
      by_contra hneg
      have hlt : n * (one : Int) < 0 := Int.mul_neg_of_neg_of_pos (Int.not_le.mp hneg) hone
      rw [decide_eq_true_iff] at hpos
      exact hpos hlt
    rwa [Int.natAbs_of_nonneg hn] at hwhole

/-- **Whole numbers are added exactly** as far as doubles can count. -/
theorem Whole.add (hx : Whole x n) (hy : Whole y k) (h : (n + k).natAbs ≤ 2 ^ 53) :
    Whole (x + y) (n + k) := by
  obtain ⟨⟨s, a, hviewx⟩, hunitsx⟩ := hx
  obtain ⟨⟨s', b, hviewy⟩, hunitsy⟩ := hy
  rcases add_cases hviewx hviewy with ⟨hzero, negative, hview⟩ | ⟨-, hsum⟩
  · rw [hunitsx, hunitsy, ← Int.add_mul] at hzero
    refine ⟨⟨_, _, hview⟩, ?_⟩
    rw [hview, hzero]
    cases negative <;> rfl
  · rw [hsum, hunitsx, hunitsy, ← Int.add_mul]
    exact whole_ofUnits h

theorem Whole.isNaN (h : Whole x n) : x.isNaN = false := by
  obtain ⟨⟨s, a, hview⟩, -⟩ := h
  exact (view_eq_finite hview).1

/-- **Whole numbers are subtracted exactly** as far as doubles can count. -/
theorem Whole.sub (hx : Whole x n) (hy : Whole y k) (h : (n - k).natAbs ≤ 2 ^ 53) :
    Whole (x - y) (n - k) := by
  rw [sub_eq_add_neg x hy.isNaN, Int.sub_eq_add_neg]
  rw [Int.sub_eq_add_neg] at h
  exact hx.add hy.neg h

/-- The units of a mantissa that fills its places, or one place more. -/
theorem unitsOfBits_rounded {t r : Nat} (hupper : r ≤ 2 ^ 53) (hlower : t = 0 ∨ 2 ^ 52 ≤ r) :
    unitsOfBits (t * 2 ^ 52 + r) = r * 2 ^ t := by
  unfold unitsOfBits
  simp only [Nat.pow_eq]
  split
  · rw [show t = 0 by omega, Nat.pow_zero, Nat.mul_one]
    omega
  · rcases Nat.lt_or_eq_of_le hupper with hlt | rfl
    · rw [show (t * 2 ^ 52 + r) % 2 ^ 52 + 2 ^ 52 = r by omega,
        show (t * 2 ^ 52 + r) / 2 ^ 52 - 1 = t by omega]
    · rw [show (t * 2 ^ 52 + 2 ^ 53) % 2 ^ 52 + 2 ^ 52 = 2 ^ 52 by omega,
        show (t * 2 ^ 52 + 2 ^ 53) / 2 ^ 52 - 1 = t + 1 by omega, ← Nat.pow_add, ← Nat.pow_add]
      congr 1
      omega

/-- What is nearest to a whole number is whole, however large it is. -/
theorem whole_nearest {m : Nat} (hm : 0 < m) (hfinite : bitsOfRatio (m * one) one < 2047 * 2 ^ 52) :
    one ∣ unitsOfBits (bitsOfRatio (m * one) one) := by
  obtain ⟨w, hw⟩ : ∃ w, w = 1074 := ⟨_, rfl⟩
  have hone := one_eq_pow hw
  obtain ⟨t, ht⟩ : ∃ t, t = (m * one).log2 - 52 := ⟨_, rfl⟩
  obtain ⟨-, hupper, hlower⟩ := divRound_bounds (Nat.mul_pos hm one_pos) ht
  rw [bitsOfRatio_units ht] at hfinite ⊢
  rw [Nat.min_eq_left (by omega), unitsOfBits_rounded hupper hlower]
  rcases Nat.le_total t w with hle | hle
  · -- no digit is lost
    have hpow : m * one = m * 2 ^ (w - t) * 2 ^ t := by
      rw [Nat.mul_assoc, ← Nat.pow_add, Nat.sub_add_cancel hle, hone]
    rw [hpow, divRound_mul (Nat.two_pow_pos t), ← hpow]
    exact Nat.dvd_mul_left one m
  · rw [hone]
    exact Nat.dvd_mul_left_of_dvd (Nat.pow_dvd_pow 2 hle) _

/-- **The difference of whole numbers is whole**, unless it is infinite. -/
theorem Whole.sub_cases (hx : Whole x n) (hy : Whole y k) :
    (∃ j, Whole (x - y) j) ∨ ∃ negative, view (x - y) = .infinite negative := by
  rw [sub_eq_add_neg x hy.isNaN]
  obtain ⟨⟨s, a, hviewx⟩, hunitsx⟩ := hx
  obtain ⟨⟨s', b, hviewy⟩, hunitsy⟩ := hy.neg
  rcases add_cases hviewx hviewy with ⟨-, negative, hview⟩ | ⟨hne, hsum⟩
  · refine .inl ⟨0, ⟨_, _, hview⟩, ?_⟩
    rw [hview, Int.zero_mul]
    cases negative <;> rfl
  · rw [hunitsx, hunitsy, ← Int.add_mul] at hne hsum
    have hpos : 0 < (n + -k).natAbs := Int.natAbs_pos.mpr (left_ne_zero_of_mul hne)
    obtain ⟨hbits, -⟩ := magnitude_ofUnits ((n + -k) * one)
    rw [Int.natAbs_mul, Int.natAbs_natCast] at hbits
    rw [hsum]
    rcases Nat.lt_or_eq_of_le (bitsOfRatio_le ((n + -k).natAbs * one) one) with hlt | heq
    · obtain ⟨j, hj⟩ := whole_nearest hpos hlt
      rw [← hbits] at hlt hj
      rw [Nat.mul_comm] at hj
      exact .inl ⟨_, whole_of_view ((view_eq _).trans ((if_pos hlt).trans (by rw [hj])))⟩
    · rw [← hbits] at heq
      refine .inr ⟨_, (view_eq _).trans ((if_neg (Nat.not_lt.mpr heq.ge)).trans (if_pos heq))⟩

end Whole

/-! ## 6. Remainders of whole numbers -/

section Remainder

variable {x y : Float} {n k : Int} {count : Nat}

/-- The units of a whole number, whatever the sign of a zero is. -/
theorem Whole.view_eq (h : Whole x n) :
    ∃ negative, view x = .finite negative (n.natAbs * one) ∧
      (signOf negative).apply n.natAbs = n := by
  obtain ⟨⟨negative, units, hview⟩, hunits⟩ := h
  rw [hview] at hunits
  have hone : (one : Int) ≠ 0 := Int.natCast_ne_zero.mpr one_pos.ne'
  have habs : units = n.natAbs * one := by
    have hcast := congrArg Int.natAbs hunits
    rw [Int.natAbs_mul, Int.natAbs_natCast] at hcast
    refine Eq.trans ?_ hcast
    cases negative
    · rfl
    · exact ((Int.natAbs_neg _).trans (Int.natAbs_natCast units)).symm
  have happly : (signOf negative).apply n.natAbs * one = n * one := by
    rw [← apply_mul, ← habs]
    exact hunits
  exact ⟨negative, habs ▸ hview, Int.eq_of_mul_eq_mul_right hone happly⟩

theorem Whole.lt_iff (hx : Whole x n) (hy : Whole y k) : x < y ↔ n < k := by
  obtain ⟨⟨s, a, hviewx⟩, hunitsx⟩ := hx
  obtain ⟨⟨s', b, hviewy⟩, hunitsy⟩ := hy
  have hone : (0 : Int) < one := Int.natCast_pos.mpr one_pos
  rw [← not_iff_not, ← le_iff_not_lt (view_eq_finite hviewx).1 (view_eq_finite hviewy).1,
    le_iff_units hviewy hviewx, hunitsx, hunitsy, Int.mul_le_mul_iff_of_pos_right hone, Int.not_lt]

theorem abs_ofNat (n : Nat) : (ofNat n).abs = ofNat n := by
  have hstands := standsFor (ofNat n)
  have hmodel : (ofNat n).toModel.unpack.abs = (ofNat n).toModel.unpack := by
    rw [show isNegative (ofNat n) = false from (magnitude_nearest n 1).2] at hstands
    generalize (ofNat n).toModel.unpack = u at hstands
    cases hstands <;> rfl
  show Float.ofModel (.pack (ofNat n).toModel.unpack.abs) = _
  rw [hmodel]
  exact ofModel_pack_unpack (isNaN_nearest n 1)

/-- To drop the fraction of a whole number leaves it as it is. -/
theorem Whole.trunc? (h : Whole x n) : trunc? x = some n := by
  obtain ⟨negative, hview, hn⟩ := h.view_eq
  unfold Number.trunc?
  rw [hview]
  dsimp only
  rw [← Int.natCast_ediv, Nat.mul_div_cancel _ one_pos, Option.some.injEq]
  refine Eq.trans ?_ hn
  cases negative <;> rfl

/-- What is rounded is whole, and what is whole is not rounded. -/
theorem whole_round {negative : Bool} {units : Nat} (h : view x = .finite negative units) :
    ∃ n, Whole (round x) n := by
  unfold round wholeBy
  rw [h]
  dsimp only
  split
  · rename_i hwhole
    rw [← Nat.div_mul_cancel (Nat.dvd_of_mod_eq_zero hwhole)] at h
    exact ⟨_, whole_of_view h⟩
  · rename_i hfraction
    have hlt := whole_lt_of_fraction h hfraction
    generalize hm : (if (decide (one ≤ 2 * (units % one))) = true then units / one + 1
      else units / one) = m
    have hle : m ≤ 2 ^ 53 := by
      rw [← hm]
      split <;> omega
    unfold signed
    split
    · exact ⟨_, (whole_ofNat hle).neg⟩
    · exact ⟨_, whole_ofNat hle⟩

theorem Whole.round (h : Whole x n) : round x = x := by
  obtain ⟨negative, hview, -⟩ := h.view_eq
  unfold Number.round wholeBy
  rw [hview]
  exact if_pos (Nat.mul_mod_left _ _)

variable (hpos : 0 < count) (hle : count ≤ 2 ^ 53)

include hpos hle

/-- **The remainder of a whole number** has its sign. -/
theorem Whole.rem (h : Whole x n) : Whole (rem x (ofNat count)) (n.tmod count) := by
  obtain ⟨negative, hview, hn⟩ := h.view_eq
  have hlt := Nat.mod_lt n.natAbs hpos
  have hnearest : nearest (n.natAbs * one % (count * one)) one = ofNat (n.natAbs % count) := by
    rw [Nat.mul_mod_mul_right]
    exact nearest_congr one_pos Nat.one_pos (by rw [Nat.mul_one])
  have hwhole : Whole (ofNat (n.natAbs % count)) _ := whole_ofNat (by omega)
  unfold Number.rem
  rw [hview, view_ofNat_le hle]
  dsimp only
  rw [if_neg (Nat.mul_pos hpos one_pos).ne', hnearest]
  unfold signed
  cases negative with
  | false =>
    have hn : (n.natAbs : Int) = n := hn
    rw [if_neg Bool.false_ne_true, ← hn, ← Int.ofNat_tmod, Int.natAbs_natCast]
    exact hwhole
  | true =>
    have hn : -(n.natAbs : Int) = n := hn
    rw [if_pos rfl, ← hn, Int.neg_tmod, ← Int.ofNat_tmod, Int.natAbs_neg, Int.natAbs_natCast]
    exact hwhole.neg

/-- **The remainder that is never below zero**, of a whole number. -/
theorem Whole.remUp (h : Whole x n) : Whole (remUp x (ofNat count)) (n % count) := by
  have hrem := h.rem hpos hle
  have hzero : Whole 0 0 := whole_of_view (show view 0 = .finite false (0 * one) by
    rw [Nat.zero_mul]; decide +kernel)
  have hnonneg : 0 ≤ n % count := Int.emod_nonneg n (Int.natCast_ne_zero.mpr hpos.ne')
  have hlt : n % count < count := Int.emod_lt_of_pos n (Int.natCast_pos.mpr hpos)
  rw [Int.tmod_eq_emod, Int.natAbs_natCast] at hrem
  unfold Number.remUp
  dsimp only
  rw [abs_ofNat]
  split at hrem
  · rw [Int.natCast_zero, Int.sub_zero] at hrem
    rw [if_neg fun hneg => absurd ((hrem.lt_iff hzero).mp hneg) (by omega)]
    exact hrem
  · rw [if_pos ((hrem.lt_iff hzero).mpr (by omega))]
    have hsum := hrem.add (whole_ofNat hle) (by omega)
    rwa [Int.sub_add_cancel] at hsum

end Remainder

end BlockScript.Number
