import BlockScript.Proofs.Exactness
import BlockScript.Proofs.Loops

/-!
# The order of doubles, by their bits and by their units

The bits of a double below its sign count the doubles from zero on, and so they tell which of two is
the greater. Here this is shown of the order by which scripts compare numbers, and from it that the
number of units does so as well.

* `Number.StandsFor`: what the bits stand for;
* `Number.lt_iff_ordinal`, `Number.le_iff_ordinal`: the order of doubles is that of their bits;
* `Number.unitsOfBits_strictMono`: the more the bits, the more units;
* `Number.le_iff_units`: the order of finite doubles is that of their units;
* `Number.eq_of_view`: a double is known by its sign and its units;
* `Number.view_neg`: the other sign, and the same units.
-/

namespace BlockScript.Number

open Float.Model (UnpackedFloat)
open Float.Model.UnpackedFloat

/-! ## 1. What the bits stand for -/

/-- The bits below the sign. -/
def magnitude (x : Float) : Nat := x.toBits.toNat % 2 ^ 63

/-- The sign as the first bit gives it. -/
def signOf (negative : Bool) : Sign := if negative then .negative else .positive

/-- A mantissa and an exponent of a finite double that is not zero: all digits are used, unless the
    exponent is the least. -/
structure Canonical (m : Nat) (e : Int) : Prop where
  pos : 0 < m
  lt : m < 2 ^ 53
  low : -1074 ≤ e
  high : e ≤ 971
  full : e = -1074 ∨ 2 ^ 52 ≤ m

/-- The bits of a mantissa and an exponent. -/
def bitsOf (m : Nat) (e : Int) : Nat := m + (e + 1074).toNat * 2 ^ 52

/-- What a double is, seen from its bits below the sign. -/
inductive StandsFor (s : Sign) (bits : Nat) : UnpackedFloat → Prop
  | notANumber (h : 2047 * 2 ^ 52 < bits) : StandsFor s bits .notANumber
  | infinity (h : bits = 2047 * 2 ^ 52) : StandsFor s bits (.infinity s)
  | zero (h : bits = 0) : StandsFor s bits (.zero s)
  | finite {m : Nat} {e : Int} (hm : Canonical m e) (h : bits = bitsOf m e) :
      StandsFor s bits (.finite s m e hm.pos)

section Fields

variable (b : UInt64)

theorem ofBitVec_unpackSign :
    Sign.ofBitVec (@unpackSign .binary64 b.toBitVec) = signOf (2 ^ 63 ≤ b.toNat) := by
  have hlt := b.toNat_lt
  have hbit : (@unpackSign .binary64 b.toBitVec).toNat = b.toNat / 2 ^ 63 % 2 := by
    unfold unpackSign
    rw [BitVec.toNat_cast, BitVec.extractLsb_toNat, Nat.shiftRight_eq_div_pow]
    rfl
  have hzero : @unpackSign .binary64 b.toBitVec = 0#1 ↔ ¬ 2 ^ 63 ≤ b.toNat := by
    rw [← BitVec.toNat_inj, hbit]
    show _ = 0 ↔ _
    omega
  unfold Sign.ofBitVec signOf
  by_cases h : 2 ^ 63 ≤ b.toNat
  · rw [if_neg (fun h' => hzero.mp h' h), if_pos (decide_eq_true h)]
  · rw [if_pos (hzero.mpr h), if_neg (by simpa using h)]

/-- **What the bits stand for.** -/
theorem standsFor_unpack :
    StandsFor (signOf (2 ^ 63 ≤ b.toNat)) (b.toNat % 2 ^ 63) (unpack .binary64 b.toBitVec) := by
  have hmantissa := toNat_unpackMantissa b
  have hexponent := toNat_unpackExponent b
  have hbias : ((Float.Model.Format.binary64.exponentBias : Nat) : Int) = 1023 := rfl
  have hall := unpackExponent_eq_iff b
  have hnone : @unpackExponent .binary64 b.toBitVec = 0#11 ↔ b.toNat / 2 ^ 52 % 2 ^ 11 = 0 := by
    rw [← BitVec.toNat_inj, hexponent]
    rfl
  have hzero := unpackMantissa_eq_iff b
  have happend : (1#1 ++ @unpackMantissa .binary64 b.toBitVec).toNat =
      2 ^ 52 + b.toNat % 2 ^ 52 := by
    rw [BitVec.toNat_append, ← Nat.shiftLeft_add_eq_or_of_lt (BitVec.isLt _), hmantissa]
    rfl
  rw [← ofBitVec_unpackSign]
  unfold unpack
  dsimp only
  split
  · rename_i hexp
    rw [hall] at hexp
    split
    · rename_i hman
      rw [hzero] at hman
      exact .infinity (by omega)
    · rename_i hman
      rw [hzero] at hman
      exact .notANumber (by omega)
  · rename_i hexp
    rw [hall] at hexp
    split
    · rename_i hsub
      rw [hnone] at hsub
      split
      · rename_i hman
        rw [hzero] at hman
        exact .zero (by omega)
      · rename_i hman
        rw [hzero] at hman
        refine .finite ⟨?_, ?_, ?_, ?_, .inl ?_⟩ ?_ <;>
          simp only [hmantissa, hexponent, hbias, bitsOf] <;> omega
    · rename_i hsub
      rw [hnone] at hsub
      refine .finite ⟨?_, ?_, ?_, ?_, .inr ?_⟩ ?_ <;>
        simp only [happend, hexponent, hbias, bitsOf] <;> omega

end Fields

/-! ## 2. The order of the bits -/

section Order

variable {m m' : Nat} {e e' : Int}

theorem bitsOf_pos (h : Canonical m e) : 0 < bitsOf m e := by
  have hpos := h.pos
  unfold bitsOf
  omega

theorem bitsOf_lt_infinity (h : Canonical m e) : bitsOf m e < 2047 * 2 ^ 52 := by
  have hlt := h.lt
  have hhigh := h.high
  unfold bitsOf
  omega

/-- A greater exponent has more bits, whatever the mantissas are. -/
theorem bitsOf_lt_of_exponent (h : Canonical m e) (h' : Canonical m' e') (he : e < e') :
    bitsOf m e < bitsOf m' e' := by
  have hlt := h.lt
  have hlow := h.low
  have hfull := h'.full
  unfold bitsOf
  omega

/-- First the exponents count, and then the mantissas. -/
theorem compare_bitsOf (h : Canonical m e) (h' : Canonical m' e') :
    (compare e e').then (compare m m') = compare (bitsOf m e : Int) (bitsOf m' e') := by
  rcases lt_trichotomy e e' with he | rfl | he
  · have hbits := Int.ofNat_lt.mpr (bitsOf_lt_of_exponent h h' he)
    rw [compare_lt_iff_lt.mpr he, compare_lt_iff_lt.mpr hbits]
    rfl
  · have hbits : (bitsOf m e : Int) - bitsOf m' e = m - m' := by
      unfold bitsOf
      omega
    rw [compare_eq_iff_eq.mpr rfl, Ordering.eq_then]
    rcases lt_trichotomy m m' with hm | rfl | hm
    · rw [compare_lt_iff_lt.mpr hm, compare_lt_iff_lt.mpr (by omega)]
    · rw [compare_eq_iff_eq.mpr rfl, compare_eq_iff_eq.mpr rfl]
    · rw [compare_gt_iff_gt.mpr hm, compare_gt_iff_gt.mpr (by omega)]
  · have hbits := Int.ofNat_lt.mpr (bitsOf_lt_of_exponent h' h he)
    rw [compare_gt_iff_gt.mpr he, compare_gt_iff_gt.mpr hbits]
    rfl

end Order

theorem some_lt {x y : Int} (h : x < y) : some Ordering.lt = some (compare x y) :=
  congrArg some (compare_lt_iff_lt.mpr h).symm

theorem some_gt {x y : Int} (h : y < x) : some Ordering.gt = some (compare x y) :=
  congrArg some (compare_gt_iff_gt.mpr h).symm

theorem compare_neg_neg (x y : Int) : compare y x = compare (-x) (-y) := by
  rcases lt_trichotomy x y with h | rfl | h
  · rw [compare_gt_iff_gt.mpr h, compare_gt_iff_gt.mpr (Int.neg_lt_neg h)]
  · rw [compare_eq_iff_eq.mpr rfl, compare_eq_iff_eq.mpr rfl]
  · rw [compare_lt_iff_lt.mpr h, compare_lt_iff_lt.mpr (Int.neg_lt_neg h)]

section Kinds

variable {s s' : Sign} {a b : Nat} {u v : UnpackedFloat} (hv : StandsFor s' b v)
  (hb : b ≤ 2047 * 2 ^ 52)

include hv hb

theorem compare_infinity :
    (UnpackedFloat.infinity s).compare v =
      some (compare (s.apply (2047 * 2 ^ 52)) (s'.apply b)) := by
  cases hv with
  | notANumber h => omega
  | infinity h | zero h =>
    subst h
    cases s <;> cases s' <;> rfl
  | finite hm h =>
    have hlt := bitsOf_lt_infinity hm
    rw [← h] at hlt
    cases s with
    | negative =>
      refine some_lt ?_
      cases s' <;> simp only [Sign.apply] <;> omega
    | positive =>
      refine some_gt ?_
      cases s' <;> simp only [Sign.apply] <;> omega

theorem compare_zero :
    (UnpackedFloat.zero s).compare v = some (compare (s.apply 0) (s'.apply b)) := by
  cases hv with
  | notANumber h => omega
  | infinity h | zero h =>
    subst h
    cases s <;> cases s' <;> rfl
  | finite hm h =>
    have hpos := bitsOf_pos hm
    rw [← h] at hpos
    cases s' with
    | negative =>
      refine some_gt ?_
      cases s <;> simp only [Sign.apply] <;> omega
    | positive =>
      refine some_lt ?_
      cases s <;> simp only [Sign.apply] <;> omega

end Kinds

theorem compare_finite {s s' : Sign} {m m' : Nat} {e e' : Int} (h : Canonical m e)
    (h' : Canonical m' e') :
    (UnpackedFloat.finite s m e h.pos).compare (.finite s' m' e' h'.pos) =
      some (compare (s.apply (bitsOf m e)) (s'.apply (bitsOf m' e'))) := by
  have hpos := bitsOf_pos h
  have hpos' := bitsOf_pos h'
  have hsame := compare_bitsOf h h'
  cases s with
  | negative =>
    cases s' with
    | negative =>
      refine congrArg some ((congrArg Ordering.swap hsame).trans ?_)
      rw [← Std.OrientedCmp.eq_swap]
      exact compare_neg_neg _ _
    | positive => exact some_lt (by simp only [Sign.apply]; omega)
  | positive =>
    cases s' with
    | negative => exact some_gt (by simp only [Sign.apply]; omega)
    | positive => exact congrArg some hsame

/-- **The order of two numbers is that of their bits**, counted downwards below zero. -/
theorem compare_of_standsFor {s s' : Sign} {a b : Nat} {u v : UnpackedFloat} (hu : StandsFor s a u)
    (hv : StandsFor s' b v) (ha : a ≤ 2047 * 2 ^ 52) (hb : b ≤ 2047 * 2 ^ 52) :
    u.compare v = some (compare (s.apply a) (s'.apply b)) := by
  have hswap (h : v.compare u = some (compare (s'.apply b) (s.apply a))) :
      u.compare v = some (compare (s.apply a) (s'.apply b)) := by
    rw [compare_swap, h, Option.map_some, ← Std.OrientedCmp.eq_swap]
  cases hu with
  | notANumber h => omega
  | infinity h =>
    subst h
    exact compare_infinity hv hb
  | zero h =>
    subst h
    exact compare_zero hv hb
  | finite hm h =>
    have hu' : StandsFor s a _ := .finite hm h
    cases hv with
    | notANumber h' => omega
    | infinity h' =>
      subst h'
      exact hswap (compare_infinity hu' ha)
    | zero h' =>
      subst h'
      exact hswap (compare_zero hu' ha)
    | finite hm' h' =>
      subst h h'
      exact compare_finite hm hm'

/-! ## 3. The order of doubles -/

/-- The place of a double among all doubles, from zero on and below zero downwards. -/
def ordinal (x : Float) : Int := (signOf (isNegative x)).apply (magnitude x)

theorem standsFor (x : Float) : StandsFor (signOf (isNegative x)) (magnitude x) x.toModel.unpack :=
  standsFor_unpack x.toBits

/-- What is not a number has bits above those of the infinity. -/
theorem isNaN_iff_magnitude (x : Float) : x.isNaN = true ↔ 2047 * 2 ^ 52 < magnitude x := by
  have hstands := standsFor x
  show x.toModel.unpack.isNaN = true ↔ _
  generalize x.toModel.unpack = u at hstands
  cases hstands with
  | notANumber h => exact ⟨fun _ => h, fun _ => rfl⟩
  | infinity h | zero h =>
    refine ⟨fun hnan => ?_, fun hlt => ?_⟩
    · cases hnan
    · omega
  | finite hm h =>
    have hinfinity := bitsOf_lt_infinity hm
    refine ⟨fun hnan => ?_, fun hlt => ?_⟩
    · cases hnan
    · omega

theorem magnitude_le {x : Float} (h : x.isNaN = false) : magnitude x ≤ 2047 * 2 ^ 52 :=
  Nat.le_of_not_lt fun hlt => Bool.eq_false_iff.mp h ((isNaN_iff_magnitude x).mpr hlt)

section Numbers

variable {x y : Float} (hx : x.isNaN = false) (hy : y.isNaN = false)

include hx hy

theorem compare_ordinal :
    x.toModel.unpack.compare y.toModel.unpack = some (compare (ordinal x) (ordinal y)) :=
  compare_of_standsFor (standsFor x) (standsFor y) (magnitude_le hx) (magnitude_le hy)

/-- **The order of doubles is that of their bits.** -/
theorem lt_iff_ordinal : x < y ↔ ordinal x < ordinal y := by
  rw [lt_iff_compare, compare_ordinal hx hy, Option.some.injEq, compare_lt_iff_lt]

theorem le_iff_ordinal : x ≤ y ↔ ordinal x ≤ ordinal y := by
  rw [le_iff_not_lt hy hx, lt_iff_ordinal hy hx, Int.not_lt]

end Numbers

/-! ## 4. The order of units -/

/-- The more the bits, the more units. -/
theorem unitsOfBits_strictMono : StrictMono unitsOfBits := by
  refine strictMono_nat_of_lt_succ fun n => ?_
  unfold unitsOfBits
  simp only [Nat.pow_eq]
  by_cases hlast : n % 2 ^ 52 + 1 = 2 ^ 52
  · -- the last of its binade: the next has a greater exponent and an empty fraction
    have hfield : (n + 1) / 2 ^ 52 = n / 2 ^ 52 + 1 := by omega
    have hfraction : (n + 1) % 2 ^ 52 = 0 := by omega
    rw [hfield, hfraction, if_neg (Nat.succ_ne_zero _), Nat.add_sub_cancel]
    split
    · rename_i hzero
      rw [hzero]
      omega
    · rename_i hpos
      have hpower : 2 ^ (n / 2 ^ 52) = 2 * 2 ^ (n / 2 ^ 52 - 1) := by
        rw [← Nat.pow_succ']
        congr 1
        omega
      rw [hpower, ← Nat.mul_assoc]
      exact Nat.mul_lt_mul_of_pos_right (by omega) (Nat.two_pow_pos _)
  · have hfield : (n + 1) / 2 ^ 52 = n / 2 ^ 52 := by omega
    have hfraction : (n + 1) % 2 ^ 52 = n % 2 ^ 52 + 1 := by omega
    rw [hfield, hfraction]
    split
    · omega
    · exact Nat.mul_lt_mul_of_pos_right (by omega) (Nat.two_pow_pos _)

/-- A sign and a number of units as a whole number. -/
def View.units : View → Int
  | .finite negative units => (signOf negative).apply units
  | _ => 0

theorem view_eq (x : Float) :
    view x =
      if magnitude x < 2047 * 2 ^ 52 then .finite (isNegative x) (unitsOfBits (magnitude x))
      else if magnitude x = 2047 * 2 ^ 52 then .infinite (isNegative x)
      else .nan :=
  rfl

/-- What a finite double is, seen from its bits. -/
theorem view_eq_finite {x : Float} {negative : Bool} {units : Nat}
    (h : view x = .finite negative units) :
    x.isNaN = false ∧ magnitude x < 2047 * 2 ^ 52 ∧ isNegative x = negative ∧
      unitsOfBits (magnitude x) = units := by
  rw [view_eq] at h
  split at h
  · rename_i hlt
    injection h with hnegative hunits
    refine ⟨Bool.eq_false_iff.mpr fun hnan => ?_, hlt, hnegative, hunits⟩
    exact absurd hlt (Nat.lt_asymm ((isNaN_iff_magnitude x).mp hnan))
  · split at h <;> cases h

theorem view_eq_infinite {x : Float} {negative : Bool} (h : view x = .infinite negative) :
    magnitude x = 2047 * 2 ^ 52 ∧ isNegative x = negative := by
  rw [view_eq] at h
  split at h
  · cases h
  split at h
  · rename_i heq
    injection h with hnegative
    exact ⟨heq, hnegative⟩
  · cases h

theorem view_eq_nan {x : Float} (h : view x = .nan) : x.isNaN = true := by
  rw [view_eq] at h
  split at h
  · cases h
  split at h
  · cases h
  · rw [isNaN_iff_magnitude]
    omega

/-- **The order of finite doubles is that of their units.** -/
theorem le_iff_units {x y : Float} {s s' : Bool} {a b : Nat} (hx : view x = .finite s a)
    (hy : view y = .finite s' b) : x ≤ y ↔ (view x).units ≤ (view y).units := by
  obtain ⟨hnan, -, hsign, hunits⟩ := view_eq_finite hx
  obtain ⟨hnan', -, hsign', hunits'⟩ := view_eq_finite hy
  rw [le_iff_ordinal hnan hnan', hx, hy]
  unfold ordinal View.units
  rw [hsign, hsign', ← hunits, ← hunits']
  generalize magnitude x = m
  generalize magnitude y = m'
  have hle (m m' : Nat) : unitsOfBits m ≤ unitsOfBits m' ↔ m ≤ m' :=
    unitsOfBits_strictMono.le_iff_le
  have hzero : unitsOfBits 0 = 0 := rfl
  have hm := hle m 0
  have hm' := hle m' 0
  have hmm' := hle m m'
  have hm'm := hle m' m
  cases s <;> cases s' <;> simp only [signOf, Sign.apply, Bool.false_eq_true, if_true, if_false] <;>
    omega

/-- **A double is known by its sign and its bits.** -/
theorem eq_of_magnitude {x y : Float} (hsign : isNegative x = isNegative y)
    (hbits : magnitude x = magnitude y) : x = y := by
  have hx := x.toBits.toNat_lt
  have hy := y.toBits.toNat_lt
  have hsign : 2 ^ 63 ≤ x.toBits.toNat ↔ 2 ^ 63 ≤ y.toBits.toNat := decide_eq_decide.mp hsign
  unfold magnitude at hbits
  exact Float.toBits_inj.mp (UInt64.toNat_inj.mp (by omega))

/-- **A double is known by its sign and its units.** -/
theorem eq_of_view {x y : Float} {negative : Bool} {units : Nat}
    (hx : view x = .finite negative units) (hy : view y = .finite negative units) : x = y := by
  obtain ⟨-, -, hsign, hunits⟩ := view_eq_finite hx
  obtain ⟨-, -, hsign', hunits'⟩ := view_eq_finite hy
  exact eq_of_magnitude (hsign.trans hsign'.symm)
    (unitsOfBits_strictMono.injective (hunits.trans hunits'.symm))

/-! ## 5. The other sign -/

theorem bitsOf_inj {m m' : Nat} {e e' : Int} (h : Canonical m e) (h' : Canonical m' e')
    (heq : bitsOf m e = bitsOf m' e') : m = m' ∧ e = e' := by
  rcases lt_trichotomy e e' with he | rfl | he
  · exact absurd heq (bitsOf_lt_of_exponent h h' he).ne
  · exact ⟨Nat.add_right_cancel heq, rfl⟩
  · exact absurd heq.symm (bitsOf_lt_of_exponent h' h he).ne

/-- The bits stand for one thing. -/
theorem StandsFor.unique {s : Sign} {bits : Nat} {u v : UnpackedFloat} (hu : StandsFor s bits u)
    (hv : StandsFor s bits v) : u = v := by
  have hfinite {m : Nat} {e : Int} (hm : Canonical m e) (h : bits = bitsOf m e) :
      0 < bits ∧ bits < 2047 * 2 ^ 52 := by
    rw [h]
    exact ⟨bitsOf_pos hm, bitsOf_lt_infinity hm⟩
  cases hu with
  | notANumber h =>
    cases hv with
    | notANumber => rfl
    | infinity h' | zero h' => omega
    | finite hm h' => exact absurd (hfinite hm h').2 (by omega)
  | infinity h =>
    cases hv with
    | infinity => rfl
    | notANumber h' | zero h' => omega
    | finite hm h' => exact absurd (hfinite hm h').2 (by omega)
  | zero h =>
    cases hv with
    | zero => rfl
    | notANumber h' | infinity h' => omega
    | finite hm h' => exact absurd (hfinite hm h').1 (by omega)
  | finite hm h =>
    cases hv with
    | notANumber h' | infinity h' => exact absurd (hfinite hm h).2 (by omega)
    | zero h' => exact absurd (hfinite hm h).1 (by omega)
    | finite hm' h' =>
      obtain ⟨rfl, rfl⟩ := bitsOf_inj hm hm' (h.symm.trans h')
      rfl

theorem StandsFor.neg {s : Sign} {bits : Nat} {u : UnpackedFloat} (h : StandsFor s bits u) :
    StandsFor (-s) bits u.neg := by
  cases h with
  | notANumber h => exact .notANumber h
  | infinity h => exact .infinity h
  | zero h => exact .zero h
  | finite hm h => exact .finite hm h

/-- The bits with the given sign. -/
def withSign (negative : Bool) (bits : Nat) : UInt64 :=
  UInt64.ofNat (if negative then bits + 2 ^ 63 else bits)

section Sign

variable {negative : Bool} {bits : Nat} (h : bits ≤ 2047 * 2 ^ 52)

include h

theorem toNat_withSign :
    (withSign negative bits).toNat % 2 ^ 63 = bits ∧
      decide (2 ^ 63 ≤ (withSign negative bits).toNat) = negative := by
  cases negative with
  | false =>
    have hword : (withSign false bits).toNat = bits :=
      UInt64.toNat_ofNat_of_lt (show bits < 2 ^ 64 by omega)
    rw [hword]
    exact ⟨Nat.mod_eq_of_lt (by omega), decide_eq_false (by omega)⟩
  | true =>
    have hword : (withSign true bits).toNat = bits + 2 ^ 63 :=
      UInt64.toNat_ofNat_of_lt (show bits + 2 ^ 63 < 2 ^ 64 by omega)
    rw [hword]
    exact ⟨by omega, decide_eq_true (by omega)⟩

/-- The double with these bits and this sign. -/
theorem magnitude_ofBits :
    magnitude (.ofBits (withSign negative bits)) = bits ∧
      isNegative (.ofBits (withSign negative bits)) = negative := by
  obtain ⟨hbits, hsign⟩ := @toNat_withSign negative bits h
  unfold magnitude isNegative
  rw [toBits_ofBits (hbits.trans_le h)]
  exact ⟨hbits, hsign⟩

end Sign

/-- **The other sign**, and the same bits. -/
theorem magnitude_neg {x : Float} (h : x.isNaN = false) :
    magnitude (-x) = magnitude x ∧ isNegative (-x) = !isNegative x := by
  have hle := magnitude_le h
  obtain ⟨hbits, hsign⟩ := @toNat_withSign (!isNegative x) _ hle
  have hother := standsFor_unpack (withSign (!isNegative x) (magnitude x))
  rw [hbits, hsign] at hother
  have hflip : signOf (!isNegative x) = -signOf (isNegative x) := by
    cases isNegative x <;> rfl
  rw [hflip] at hother
  have hneg : -x = .ofBits (withSign (!isNegative x) (magnitude x)) := by
    show Float.ofModel (.pack x.toModel.unpack.neg) = Float.ofModel (.pack _)
    rw [hother.unique (standsFor x).neg]
  rw [hneg]
  exact magnitude_ofBits hle

theorem isNaN_neg {x : Float} (h : x.isNaN = false) : (-x).isNaN = false := by
  refine Bool.eq_false_iff.mpr fun hnan => ?_
  have hlt := (isNaN_iff_magnitude _).mp hnan
  rw [(magnitude_neg h).1] at hlt
  exact absurd hlt (Nat.not_lt.mpr (magnitude_le h))

theorem neg_neg {x : Float} (h : x.isNaN = false) : - -x = x := by
  obtain ⟨hbits, hsign⟩ := magnitude_neg h
  obtain ⟨hbits', hsign'⟩ := magnitude_neg (isNaN_neg h)
  refine eq_of_magnitude ?_ (hbits'.trans hbits)
  rw [hsign', hsign, Bool.not_not]

theorem view_neg {x : Float} {negative : Bool} {units : Nat} (h : view x = .finite negative units) :
    view (-x) = .finite (!negative) units := by
  obtain ⟨hnan, hlt, hsign, hunits⟩ := view_eq_finite h
  obtain ⟨hbits, hflip⟩ := magnitude_neg hnan
  rw [← hsign, ← hunits, ← hbits, ← hflip]
  exact if_pos (hbits.trans_lt hlt)

/-! ## 6. The nearest double -/

theorem bitsOfRatio_le (num den : Nat) : bitsOfRatio num den ≤ 2047 * 2 ^ 52 := by
  unfold bitsOfRatio
  dsimp only
  rw [Nat.pow_eq, Nat.pow_eq]
  exact Nat.min_le_right _ _

theorem magnitude_nearest (num den : Nat) :
    magnitude (nearest num den) = bitsOfRatio num den ∧ isNegative (nearest num den) = false := by
  have hpositive (bits : Nat) (h : bits ≤ 2047 * 2 ^ 52) :
      magnitude (.ofBits (UInt64.ofNat bits)) = bits ∧
        isNegative (.ofBits (UInt64.ofNat bits)) = false :=
    @magnitude_ofBits false bits h
  unfold nearest
  exact hpositive _ (bitsOfRatio_le num den)

/-- What is nearest to a ratio is a number. -/
theorem isNaN_nearest (num den : Nat) : (nearest num den).isNaN = false := by
  refine Bool.eq_false_iff.mpr fun hnan => ?_
  have hlt := (isNaN_iff_magnitude _).mp hnan
  rw [(magnitude_nearest num den).1] at hlt
  exact absurd hlt (Nat.not_lt.mpr (bitsOfRatio_le num den))

end BlockScript.Number
