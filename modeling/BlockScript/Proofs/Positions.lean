import BlockScript.Proofs.Rounding
import BlockScript.Value.Items

/-!
# Which position an index names

An index is any value: a word, or a number whose fraction does not count. Positions are counted in
natural numbers, and the number is a double; here the two are shown to agree on every range that
doubles can count, that is, up to `2^53`.

* `Number.view_floor`: the whole part of a double, in units;
* `Number.floor_cases`: the whole part as a double and as an integer;
* `ItemIndex.Designates`: the position that a value names in a range, stated on doubles;
* `ItemIndex.exists_designates_iff`: which values name a position;
* `ItemIndex.of_eq_at_iff`: an index is resolved to the position that it names.
-/

namespace BlockScript.Number

/-! ## 1. Whole parts -/

theorem view_ofNat_le {n : Nat} (h : n ≤ 2 ^ 53) : view (ofNat n) = .finite false (n * one) := by
  rcases Nat.lt_or_eq_of_le h with hlt | rfl
  · exact view_ofNat hlt
  · decide +kernel

section Finite

variable {x : Float} {negative : Bool} {units : Nat}

/-- A double that has a fraction is below `2^53`. -/
theorem whole_lt_of_fraction (h : view x = .finite negative units) (hfraction : units % one ≠ 0) :
    units / one < 2 ^ 53 := by
  obtain ⟨-, -, -, hunits⟩ := view_eq_finite h
  obtain ⟨mantissa, shift, hlt, hshifted, -⟩ := unitsOfBits_eq (magnitude x)
  obtain ⟨w, hw⟩ : ∃ w, w = 1074 := ⟨_, rfl⟩
  rw [← hunits, hshifted, one_eq_pow hw] at hfraction ⊢
  have hshift : shift < w := by
    refine Nat.lt_of_not_le fun hle => hfraction (Nat.mod_eq_zero_of_dvd ?_)
    exact Nat.dvd_mul_left_of_dvd (Nat.pow_dvd_pow 2 hle) _
  rw [Nat.div_lt_iff_lt_mul (Nat.two_pow_pos w)]
  exact Nat.mul_lt_mul_of_lt_of_le hlt (Nat.pow_le_pow_right (by decide) hshift.le)
    (Nat.two_pow_pos w)

/-- **The whole part of a double that is not negative**, in units. -/
theorem view_floor (h : view x = .finite false units) :
    view (floor x) = .finite false (units / one * one) := by
  unfold floor wholeBy
  rw [h]
  dsimp only
  split
  · rename_i hwhole
    rw [h, Nat.div_mul_cancel (Nat.dvd_of_mod_eq_zero hwhole)]
  · rename_i hfraction
    rw [if_neg Bool.false_ne_true]
    exact view_ofNat (whole_lt_of_fraction h hfraction)

theorem floor_negative (h : view x = .finite true units) :
    isNegative (floor x) = true ∧ (floor x).isNaN = false := by
  obtain ⟨hnan, -, hsign, -⟩ := view_eq_finite h
  unfold floor wholeBy
  rw [h]
  dsimp only
  split
  · exact ⟨hsign, hnan⟩
  · have hnearest := isNaN_nearest (units / one + 1) 1
    rw [if_pos rfl]
    refine ⟨(magnitude_neg hnearest).2.trans ?_, isNaN_neg hnearest⟩
    rw [(magnitude_nearest _ _).2]
    rfl

end Finite

/-- **The whole part of a number**, as a double and as an integer: either both are one natural
    number, or neither is a positive one. -/
theorem floor_cases {x : Float} (hx : x.isNaN = false) :
    (∃ q : Nat, floor? x = some (q : Int) ∧ view (floor x) = .finite false (q * one)) ∨
      (∀ n, floor? x = some n → n ≤ 0) ∧ (floor x).isNaN = false ∧
        (isNegative (floor x) = true ∨ magnitude (floor x) = 2047 * 2 ^ 52) := by
  cases h : view x with
  | nan =>
    rw [view_eq_nan h] at hx
    cases hx
  | infinite negative =>
    have hfloor : floor x = x := by
      unfold floor wholeBy
      rw [h]
    have hnone : floor? x = none := by
      unfold floor?
      rw [h]
    rw [hfloor, hnone]
    refine .inr ⟨fun n hn => ?_, hx, .inr (view_eq_infinite h).1⟩
    cases hn
  | finite negative units =>
    cases negative with
    | false =>
      refine .inl ⟨units / one, ?_, view_floor h⟩
      unfold floor?
      rw [h]
      rfl
    | true =>
      obtain ⟨hsign, hnan⟩ := floor_negative h
      refine .inr ⟨fun n hn => ?_, hnan, .inl hsign⟩
      have hwhole : 0 ≤ (units : Int) / one := Int.natCast_nonneg (units / one)
      unfold floor? at hn
      rw [h] at hn
      dsimp only at hn
      rw [if_pos rfl, Option.some.injEq] at hn
      split at hn <;> omega

section Range

variable {range : Nat} (hrange : range ≤ 2 ^ 53)

include hrange

/-- The positions of a range are those from one up to its end, also as doubles. -/
theorem le_position {q : Nat} {y : Float} (hy : view y = .finite false (q * one)) :
    (1.0 ≤ y ↔ 1 ≤ q) ∧ (y ≤ ofNat range ↔ q ≤ range) := by
  have hone : view 1.0 = .finite false (1 * one) := by
    have heq : 1.0 = ofNat 1 := by decide +kernel
    rw [heq]
    exact view_ofNat_le (by decide)
  have hend := view_ofNat_le hrange
  have hunits (a b : Nat) : ((a * one : Nat) : Int) ≤ (b * one : Nat) ↔ a ≤ b := by
    rw [Int.ofNat_le]
    exact Nat.mul_le_mul_right_iff one_pos
  rw [le_iff_units hone hy, le_iff_units hy hend, hone, hy, hend]
  exact ⟨hunits 1 q, hunits q range⟩

/-- Neither a negative number nor an infinity counts a position. -/
theorem not_position {y : Float} (hy : y.isNaN = false)
    (h : isNegative y = true ∨ magnitude y = 2047 * 2 ^ 52) : ¬ (1.0 ≤ y ∧ y ≤ ofNat range) := by
  rintro ⟨hlow, hhigh⟩
  have hone : (1.0 : Float).isNaN = false ∧ 0 < ordinal 1.0 := by decide +kernel
  obtain ⟨hnan, hlt, hsign, -⟩ := view_eq_finite (view_ofNat_le hrange)
  rw [le_iff_ordinal hone.1 hy] at hlow
  rw [le_iff_ordinal hy hnan] at hhigh
  have hpositive := Int.lt_of_lt_of_le hone.2 hlow
  unfold ordinal at hhigh hpositive
  rw [hsign] at hhigh
  cases hnegative : isNegative y with
  | true =>
    rw [hnegative] at hpositive
    have hle : -(magnitude y : Int) ≤ 0 := by omega
    exact absurd hpositive (Int.not_lt.mpr hle)
  | false =>
    rw [hnegative] at hhigh h
    have hinfinite := h.resolve_left Bool.false_ne_true
    have hle : (magnitude y : Int) ≤ magnitude (ofNat range) := hhigh
    omega

/-- **The positions that doubles count** are those from one up to the end of the range. -/
theorem exists_position_iff {x : Float} (hx : x.isNaN = false) :
    (∃ i < range, floor x = ofNat (i + 1)) ↔ 1.0 ≤ floor x ∧ floor x ≤ ofNat range := by
  constructor
  · rintro ⟨i, hi, heq⟩
    obtain ⟨hlow, hhigh⟩ := le_position hrange (view_ofNat_le (Nat.le_trans hi hrange))
    rw [heq, hlow, hhigh]
    exact ⟨Nat.succ_pos i, hi⟩
  · intro h
    rcases floor_cases hx with ⟨q, -, hview⟩ | ⟨-, hnan, hsign⟩
    · obtain ⟨hlow, hhigh⟩ := le_position hrange hview
      rw [hlow, hhigh] at h
      refine ⟨q - 1, by omega, eq_of_view hview ?_⟩
      rw [Nat.sub_add_cancel h.1]
      exact view_ofNat_le (Nat.le_trans h.2 hrange)
    · exact absurd h (not_position hrange hnan hsign)

/-- A whole part counts one position. -/
theorem floor_eq_position_iff {x : Float} {q i : Nat}
    (hview : view (floor x) = .finite false (q * one)) (hi : i < range) :
    floor x = ofNat (i + 1) ↔ q = i + 1 := by
  have hview' := view_ofNat_le (Nat.le_trans hi hrange)
  constructor
  · intro heq
    rw [heq, hview'] at hview
    exact (Nat.mul_right_cancel one_pos (View.finite.inj hview).2).symm
  · rintro rfl
    exact eq_of_view hview hview'

end Range

end BlockScript.Number

namespace BlockScript.ItemIndex

/-! ## 2. Indices -/

section Numbers

variable {range : Nat} {x : Float}

theorem ofNumber_ne_all : ofNumber range x ≠ .all := by
  unfold ofNumber
  split
  · split <;> exact ItemIndex.noConfusion
  · exact ItemIndex.noConfusion

/-- **A number is resolved to the position that it counts.** -/
theorem ofNumber_eq_at_iff (hrange : range ≤ 2 ^ 53) (hx : x.isNaN = false) (i : Nat) :
    ofNumber range x = .at i ↔ i < range ∧ Number.floor x = Number.ofNat (i + 1) := by
  unfold ofNumber
  rcases Number.floor_cases hx with ⟨q, hq, hview⟩ | ⟨hlow, hnan, hsign⟩
  · rw [hq]
    dsimp only
    constructor
    · intro h
      split at h
      · injection h with h
        have hi : i < range := by omega
        exact ⟨hi, (Number.floor_eq_position_iff hrange hview hi).mpr (by omega)⟩
      · cases h
    · rintro ⟨hi, heq⟩
      have hposition := (Number.floor_eq_position_iff hrange hview hi).mp heq
      rw [if_pos (by omega), hposition]
      congr 1
      omega
  · refine iff_of_false ?_ fun h => ?_
    · split
      · rename_i n hn
        have hle := hlow n hn
        rw [if_neg (by omega)]
        exact ItemIndex.noConfusion
      · exact ItemIndex.noConfusion
    · exact Number.not_position hrange hnan hsign
        ((Number.exists_position_iff hrange hx).mp ⟨i, h⟩)

end Numbers

/-- The position that an index names in a range, given the dice: the last one, one by chance, or
    the one that the whole part of a number counts, from one. -/
inductive Designates (range : Nat) (dice : Dice) : Value → Nat → Prop
  | last (h : 0 < range) : Designates range dice (.text "last") (range - 1)
  | chance {word : String} (hword : word = "random" ∨ word = "any") (h : 0 < range) :
      Designates range dice (.text word) (dice.below range).1
  | number {v : Value} {i : Nat} (hi : i < range)
      (h : Number.floor v.toNumber = Number.ofNat (i + 1)) : Designates range dice v i

section Range

variable {range : Nat} {dice : Dice} {v : Value} {i : Nat}

/-- **What is named lies within the range.** -/
theorem Designates.lt (h : Designates range dice v i) : i < range := by
  cases h with
  | last h => omega
  | chance _ h => exact dice.below_lt h
  | number hi _ => exact hi

/-- The words count no position. -/
theorem not_position_word {word : String} (h : word ∈ ["all", "last", "random", "any"]) :
    ¬ 1.0 ≤ Number.floor (Value.text word).toNumber := by
  have hall : (["all", "last", "random", "any"].all fun word =>
      !decide (1.0 ≤ Number.floor (Value.text word).toNumber)) = true := by
    decide +kernel
  have hword := List.all_eq_true.mp hall word h
  rw [Bool.not_eq_true', decide_eq_false_iff_not] at hword
  exact hword

variable (hrange : range ≤ 2 ^ 53)

include hrange

/-- **Which values name a position**: the words for the last one and for any, if there is one, and
    the numbers whose whole part lies between one and the end of the range. -/
theorem exists_designates_iff :
    (∃ i, Designates range dice v i) ↔
      (v = .text "last" ∨ v = .text "random" ∨ v = .text "any") ∧ 0 < range ∨
        1.0 ≤ Number.floor v.toNumber ∧ Number.floor v.toNumber ≤ Number.ofNat range := by
  have hnumber : v.toNumber.isNaN = false := Value.isNaN_orZero _
  rw [← Number.exists_position_iff hrange hnumber]
  constructor
  · rintro ⟨i, h⟩
    cases h with
    | last h => exact .inl ⟨.inl rfl, h⟩
    | chance hword h => exact .inl ⟨.inr (hword.imp (congrArg Value.text) (congrArg Value.text)), h⟩
    | number hi h => exact .inr ⟨i, hi, h⟩
  · rintro (⟨rfl | rfl | rfl, h⟩ | ⟨i, hi, h⟩)
    · exact ⟨_, .last h⟩
    · exact ⟨_, .chance (.inl rfl) h⟩
    · exact ⟨_, .chance (.inr rfl) h⟩
    · exact ⟨i, .number hi h⟩

/-- A word names what the word says, and no number. -/
theorem Designates.of_word {word : String} (hword : word ∈ ["all", "last", "random", "any"])
    (h : Designates range dice (.text word) i) :
    0 < range ∧ (word = "last" ∧ i = range - 1 ∨
      (word = "random" ∨ word = "any") ∧ i = (dice.below range).1) := by
  generalize hv : Value.text word = v at h
  cases h with
  | last h =>
    cases hv
    exact ⟨h, .inl ⟨rfl, rfl⟩⟩
  | chance hchance h =>
    cases hv
    exact ⟨h, .inr ⟨hchance, rfl⟩⟩
  | number hi h =>
    subst hv
    have hposition := (Number.exists_position_iff hrange (Value.isNaN_orZero _)).mp ⟨i, hi, h⟩
    exact absurd hposition.1 (not_position_word hword)

/-- **An index is resolved to the position that it names**, if it names one. -/
theorem of_eq_at_iff : (of range v dice).1 = .at i ↔ Designates range dice v i := by
  have hchance {word : String} (hword : word = "random" ∨ word = "any") :
      (if 0 < range then (ItemIndex.at (dice.below range).1, (dice.below range).2)
        else (.none, dice)).1 = .at i ↔ Designates range dice (.text word) i := by
    constructor
    · intro h
      split at h
      · rename_i hpos
        cases h
        exact .chance hword hpos
      · cases h
    · intro h
      have hmem : word ∈ ["all", "last", "random", "any"] := by
        rcases hword with rfl | rfl <;> decide
      obtain ⟨hpos, ⟨rfl, -⟩ | ⟨-, rfl⟩⟩ := h.of_word hrange hmem
      · exact absurd hword (by decide)
      · rw [if_pos hpos]
  unfold of
  split
  · refine iff_of_false ItemIndex.noConfusion fun h => ?_
    exact absurd (h.of_word hrange (by decide)).2 (by simp)
  · constructor
    · intro h
      split at h
      · rename_i hpos
        cases h
        exact .last hpos
      · cases h
    · intro h
      obtain ⟨hpos, ⟨-, rfl⟩ | ⟨hword, -⟩⟩ := h.of_word hrange (by decide)
      · rw [if_pos hpos]
      · exact absurd hword (by decide)
  · exact hchance (.inl rfl)
  · exact hchance (.inr rfl)
  · rename_i hall hlast hrandom hany
    refine (ofNumber_eq_at_iff hrange (Value.isNaN_orZero _) i).trans ?_
    constructor
    · rintro ⟨hi, h⟩
      exact .number hi h
    · intro h
      cases h with
      | last => exact absurd rfl hlast
      | chance hword =>
        rcases hword with rfl | rfl
        · exact absurd rfl hrandom
        · exact absurd rfl hany
      | number hi h => exact ⟨hi, h⟩

omit hrange in
/-- The word for all items means all of them, and nothing else does. -/
theorem of_eq_all_iff : (of range v dice).1 = .all ↔ v = .text "all" := by
  unfold of
  split
  · exact ⟨fun _ => rfl, fun _ => rfl⟩
  · refine iff_of_false ?_ (by simp)
    split <;> exact ItemIndex.noConfusion
  · refine iff_of_false ?_ (by simp)
    split <;> exact ItemIndex.noConfusion
  · refine iff_of_false ?_ (by simp)
    split <;> exact ItemIndex.noConfusion
  · rename_i hall _ _ _
    exact iff_of_false ofNumber_ne_all hall

end Range

end BlockScript.ItemIndex
