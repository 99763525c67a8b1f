import BlockScript.Proofs.Comparisons
import BlockScript.Proofs.Literals
import BlockScript.Proofs.Rounding

/-!
# A number survives its own text

The text of a number is written from its shortest digits and read by the reader of literals. The
two meet in the value of the digits: wherever the writer puts the point, the reader finds a decimal
of the same value, and decimals of one value read as one double.

* `Number.unsigned?_positionalText`: digits around a point are read at their place;
* `Number.ofText_of_literal?`: a literal gets past the prefixes, the words and the trimming;
* `Number.Shown`, `Number.shown`: the texts of numbers, one case for each way of writing them;
* `Number.ofText_toText`: the text of a number is worth that number;
* `Value.number_survives`: a number, its text, and the comparison of the two.
-/

namespace BlockScript.Number

/-! ## 1. Digits and zeros -/

theorem isDecimalDigit_of_isDigit {c : Char} (h : c.isDigit = true) :
    isDecimalDigit c = true ∧ (digitValue? c).getD 0 = c.toNat - '0'.toNat := by
  obtain ⟨hlow, hhigh⟩ := Char.isDigit_iff_toNat.mp h
  have hvalue : digitValue? c = some (c.toNat - '0'.toNat) := if_pos ⟨hlow, hhigh⟩
  unfold isDecimalDigit isDigitIn
  rw [hvalue]
  refine ⟨decide_eq_true ?_, rfl⟩
  have hzero : '0'.toNat = 48 := rfl
  have hnine : '9'.toNat = 57 := rfl
  omega

/-- The digits of a number are digits. -/
theorem digits_toDigits (n : Nat) : Digits 10 (Nat.toDigits 10 n) := by
  refine ⟨Nat.toDigits_ne_nil, fun c hc => (isDigitIn_iff (by decide) c).mp ?_⟩
  exact (isDecimalDigit_of_isDigit (Nat.isDigit_of_mem_toDigits (by decide) (by decide) hc)).1

/-- The digits of a number spell it. -/
theorem natOfDigits_toDigits (n : Nat) : natOfDigits 10 (Nat.toDigits 10 n) = n := by
  have hfold (cs : List Char) (h : ∀ c ∈ cs, c.isDigit = true) (init : Nat) :
      cs.foldl (withDigit 10) init = Nat.ofDigitChars 10 cs init := by
    induction cs generalizing init with
    | nil => rfl
    | cons c cs ih =>
      have hc := (isDecimalDigit_of_isDigit (h c List.mem_cons_self)).2
      rw [List.foldl_cons, ih fun d hd => h d (List.mem_cons_of_mem c hd), Nat.ofDigitChars_cons,
        withDigit, hc, Nat.mul_comm]
  rw [natOfDigits_eq, foldDigits,
    hfold _ fun c hc => Nat.isDigit_of_mem_toDigits (by decide) (by decide) hc]
  exact Nat.ofDigitChars_ten_toDigits

theorem natOfDigits_append (cs ds : List Char) :
    natOfDigits 10 (cs ++ ds) = natOfDigits 10 cs * 10 ^ ds.length + natOfDigits 10 ds := by
  rw [natOfDigits_eq, natOfDigits_eq, natOfDigits_eq, foldDigits_append, Nat.pow_eq]

/-- Zeros spell zero. -/
theorem natOfDigits_zeros (n : Nat) : natOfDigits 10 (List.replicate n '0') = 0 := by
  induction n with
  | zero => rfl
  | succ n ih =>
    rw [List.replicate_succ, ← List.singleton_append, natOfDigits_append, ih]
    show 0 * _ + 0 = 0
    omega

theorem mem_zeros {n : Nat} : ∀ c ∈ List.replicate n '0', c ∈ alphabet 10 := by
  intro c hc
  rw [(List.mem_replicate.mp hc).2]
  exact List.mem_cons_self

/-- Without the zeros at its end, a row of digits is a shorter row. -/
theorem exists_zeros (cs : List Char) :
    ∃ n, cs = (cs.reverse.dropWhile (· == '0')).reverse ++ List.replicate n '0' := by
  have hzeros : ∀ c ∈ cs.reverse.takeWhile (· == '0'), c = '0' := by
    intro c hc
    have hzero := List.mem_takeWhile_imp hc
    exact beq_iff_eq.mp hzero
  refine ⟨(cs.reverse.takeWhile (· == '0')).length, ?_⟩
  rw [← List.reverse_replicate, ← List.reverse_append, ← List.eq_replicate_of_mem hzeros,
    List.takeWhile_append_dropWhile, List.reverse_reverse]

/-! ## 2. The point -/

/-- The decimal whose first digit stands at the place. -/
def Decimal.ofPlace (digits : List Char) (place : Int) : Decimal :=
  ⟨natOfDigits 10 digits, place - digits.length⟩

/-- **The significant digits** of a decimal that is not zero have its value. -/
theorem Decimal.value_significant {d : Decimal} (h : d.digits ≠ 0) :
    Digits 10 d.significant.1 ∧ (ofPlace d.significant.1 d.significant.2).value = d.value := by
  obtain ⟨n, hn⟩ := exists_zeros (Nat.toDigits 10 d.digits)
  have hdigits := digits_toDigits d.digits
  have hspelled := natOfDigits_toDigits d.digits
  unfold significant ofPlace value
  dsimp only
  generalize ((Nat.toDigits 10 d.digits).reverse.dropWhile (· == '0')).reverse = digits at hn ⊢
  rw [hn] at hdigits hspelled ⊢
  rw [natOfDigits_append, natOfDigits_zeros, List.length_replicate, Nat.add_zero] at hspelled
  refine ⟨⟨?_, fun c hc => hdigits.mem c (List.mem_append_left _ hc)⟩, ?_⟩
  · rintro rfl
    exact h (hspelled.symm.trans (Nat.zero_mul _))
  · have hplace : d.exponent + ((digits ++ List.replicate n '0').length : Int) - digits.length =
        n + d.exponent := by
      rw [List.length_append, List.length_replicate]
      omega
    rw [hplace, ← hspelled, zpow_add₀ (by norm_num), zpow_natCast, ← mul_assoc]
    push_cast
    rfl

/-- Zeros before a row of digits change nothing but its length. -/
theorem natOfDigits_zeros_append (n : Nat) (digits : List Char) :
    natOfDigits 10 (List.replicate n '0' ++ digits) = natOfDigits 10 digits := by
  rw [natOfDigits_append, natOfDigits_zeros, Nat.zero_mul, Nat.zero_add]

theorem unsigned?_point_end {whole fraction : List Char} (h : Digits 10 (whole ++ fraction)) :
    unsigned? (whole ++ '.' :: fraction) =
      some ⟨natOfDigits 10 (whole ++ fraction), -fraction.length⟩ := by
  have hread := @unsigned?_point whole fraction [] h fun _ hc => absurd hc (Option.not_mem_none _)
  rw [List.append_nil, exponent?, Option.map_some, zero_sub] at hread
  exact hread

theorem unsigned?_whole_end {digits : List Char} (h : Digits 10 digits) :
    unsigned? digits = some ⟨natOfDigits 10 digits, 0⟩ := by
  have hread := @unsigned?_whole digits [] h fun _ hc => absurd hc (Option.not_mem_none _)
  rw [List.append_nil, exponent?, Option.map_some] at hread
  exact hread

/-- **Digits around a point** are read at their place, whether the point stands before, between or
    after them. -/
theorem unsigned?_positionalText {digits : List Char} (h : Digits 10 digits) (place : Int) :
    ∃ d, unsigned? (positionalText false digits place) = some d ∧
      d.value = (Decimal.ofPlace digits place).value := by
  unfold positionalText
  split
  · -- `0.00digits`
    rename_i hplace
    have hzeros : ['0'] ++ (List.replicate (-place).toNat '0' ++ digits) =
        List.replicate ((-place).toNat + 1) '0' ++ digits := rfl
    have hdigits : Digits 10 (['0'] ++ (List.replicate (-place).toNat '0' ++ digits)) := by
      rw [hzeros]
      refine ⟨fun hnil => h.ne_nil (List.append_eq_nil_iff.mp hnil).2, fun c hc => ?_⟩
      exact (List.mem_append.mp hc).elim (mem_zeros c) (h.mem c)
    refine ⟨_, unsigned?_point_end hdigits, congrArg Decimal.value ?_⟩
    unfold Decimal.ofPlace
    rw [hzeros, natOfDigits_zeros_append, List.length_append, List.length_replicate]
    congr 1
    omega
  split
  · -- `dig.its`
    rename_i hplace hlt
    have hsplit := List.take_append_drop place.toNat digits
    refine ⟨_, unsigned?_point_end (hsplit.symm ▸ h), congrArg Decimal.value ?_⟩
    unfold Decimal.ofPlace
    rw [hsplit, List.length_drop]
    congr 1
    omega
  · -- `digits00`
    rename_i hplace hlt
    have hdigits : Digits 10 (digits ++ List.replicate (place.toNat - digits.length) '0') := by
      refine ⟨fun hnil => h.ne_nil (List.append_eq_nil_iff.mp hnil).1, fun c hc => ?_⟩
      exact (List.mem_append.mp hc).elim (h.mem c) (mem_zeros c)
    have hexponent : place - digits.length = (place.toNat - digits.length : Nat) := by omega
    rw [if_neg Bool.false_ne_true, List.append_nil]
    refine ⟨_, unsigned?_whole_end hdigits, ?_⟩
    unfold Decimal.value Decimal.ofPlace
    dsimp only
    rw [natOfDigits_append, natOfDigits_zeros, List.length_replicate, hexponent, zpow_natCast,
      zpow_zero, mul_one, Nat.add_zero]
    push_cast
    rfl

/-! ## 3. Texts of literals -/

theorem isBlankChar_literal {c : Char} (h : c ∈ literalChars) : Text.isBlankChar c = false := by
  have hall : (literalChars.all fun c => !Text.isBlankChar c) = true := by decide +kernel
  have hc := List.all_eq_true.mp hall c h
  rw [Bool.not_eq_true'] at hc
  exact hc

/-- Trimming leaves text without white space as it is. -/
theorem trimChars_eq_self {cs : List Char} (h : ∀ c ∈ cs, Text.isBlankChar c = false) :
    Text.trimChars cs = cs := by
  have hdrop (ds : List Char) (hds : ∀ c ∈ ds, Text.isBlankChar c = false) :
      ds.dropWhile Text.isBlankChar = ds := by
    cases ds with
    | nil => rfl
    | cons d ds =>
      exact List.dropWhile_cons_of_neg (Bool.eq_false_iff.mp (hds d List.mem_cons_self))
  unfold Text.trimChars
  rw [hdrop cs h, hdrop _ fun c hc => h c (List.mem_reverse.mp hc), List.reverse_reverse]

/-- **A literal is worth its decimal**: it gets past the prefixes, the words and the trimming. -/
theorem ofText_of_literal? {s : String} {negative : Bool} {d : Decimal}
    (h : literal? s.toList = some (negative, d)) : ofText s = signed negative d.read := by
  have hliteral := (literal?_isSome_iff s.toList).mp (by rw [h]; rfl)
  have hplain : readPlain s.toList = signed negative d.read := by
    have hwords : ¬ (infiniteWords.any fun word => word.all literalChars.contains) = true := by
      decide +kernel
    have hword : s.toList ∉ infiniteWords := by
      intro hmem
      refine hwords (List.any_eq_true.mpr ⟨_, hmem, List.all_eq_true.mpr fun c hc => ?_⟩)
      exact List.contains_iff_mem.mpr (hliteral.mem_literalChars c hc)
    rw [mem_infiniteWords_iff, not_or] at hword
    unfold readPlain
    rw [if_neg hword.1, if_neg hword.2, h]
  unfold ofText
  rw [trimChars_eq_self fun c hc => isBlankChar_literal (hliteral.mem_literalChars c hc)]
  generalize s.toList = cs at hliteral hplain h
  unfold readTrimmed
  split
  · cases h
  · rename_i mark rest
    split
    · rename_i base hbase
      have hmark := (baseOfMark?_eq_some_iff mark base).mp hbase
      exact absurd hliteral (not_plain_of_mark hmark rest).2
    · exact hplain
  · exact hplain

/-- A minus sign before a literal is read as its sign. -/
theorem literal?_of_unsigned? {cs : List Char} {d : Decimal} (h : unsigned? cs = some d)
    (negative : Bool) :
    literal? (if negative then '-' :: cs else cs) = some (negative, d) := by
  have hsome : (unsigned? cs).isSome = true := by rw [h]; rfl
  obtain ⟨mantissa, exponent, hm, -, heq⟩ := (unsigned?_isSome_iff cs).mp hsome
  have hfront : ∀ c ∈ cs.head?, c ≠ '+' ∧ c ≠ '-' := heq ▸ hm.ne_sign exponent
  have hsplit : splitSign (if negative then '-' :: cs else cs) = (negative, cs) := by
    cases negative with
    | false => exact splitSign_append (.inl rfl) hfront
    | true => rfl
  unfold literal?
  rw [hsplit]
  dsimp only
  rw [h]
  rfl

/-! ## 4. Texts of numbers -/

/-- How numbers are written: what is not a number and the infinities as words, zero without a sign,
    and every other number as a literal that reads as it. -/
inductive Shown : Float → String → Prop
  | notANumber : Shown nan "NaN"
  | infinity : Shown infinity "Infinity"
  | negativeInfinity : Shown (-infinity) "-Infinity"
  | zero {x : Float} (h : x = 0.0 ∨ x = -0.0) : Shown x "0"
  | literal {x : Float} {s : String} {negative : Bool} {d : Decimal}
      (hliteral : literal? s.toList = some (negative, d)) (hread : signed negative d.read = x)
      (hne : (x == 0.0) = false) : Shown x s

theorem view_zero : view 0.0 = .finite false 0 ∧ view (-0.0) = .finite true 0 := by
  decide +kernel

theorem eq_zero_of_view {x : Float} {negative : Bool} (h : view x = .finite negative 0) :
    x = 0.0 ∨ x = -0.0 := by
  cases negative with
  | false => exact .inl (eq_of_view h view_zero.1)
  | true => exact .inr (eq_of_view h view_zero.2)

theorem beq_zero_iff {x : Float} : (x == 0.0) = true ↔ x = 0.0 ∨ x = -0.0 := by
  have hfacts : (0.0 : Float) ≠ .nan ∧ (-0.0 : Float) ≠ .nan ∧ (0.0 : Float) = 0 ∧
      (-0.0 : Float) = -0 := by
    decide +kernel
  obtain ⟨hpositive, hnegative, hzero, hminus⟩ := hfacts
  rw [Float.beq_iff_ne_nan_and_eq]
  constructor
  · rintro ⟨-, -, h | h | h⟩
    · exact .inl h
    · exact .inl (h.1.trans hzero.symm)
    · exact .inr (h.1.trans hminus.symm)
  · rintro (rfl | rfl)
    · exact ⟨hpositive, hpositive, .inl rfl⟩
    · exact ⟨hnegative, hpositive, .inr (.inr ⟨hminus, hzero⟩)⟩

/-- What is not a number is one double. -/
theorem eq_nan_of_view {x : Float} (h : view x = .nan) : x = nan := by
  have hnan := view_eq_nan h
  have hone : nan = .nan := by decide +kernel
  rw [Float.isNaN_eq_decide_eq_nan, decide_eq_true_iff] at hnan
  exact hnan.trans hone.symm

/-- There is one infinity on either side. -/
theorem eq_infinity_of_view {x : Float} {negative : Bool} (h : view x = .infinite negative) :
    x = signed negative infinity := by
  have hinfinity : ∀ negative, isNegative (signed negative infinity) = negative ∧
      magnitude (signed negative infinity) = 2047 * 2 ^ 52 := by
    decide +kernel
  obtain ⟨hmagnitude, hsign⟩ := view_eq_infinite h
  exact eq_of_magnitude (hsign.trans (hinfinity negative).1.symm)
    (hmagnitude.trans (hinfinity negative).2.symm)

/-- A sign that is taken off and put back. -/
theorem signed_signed {x : Float} (h : x.isNaN = false) (negative : Bool) :
    signed negative (signed negative x) = x := by
  cases negative with
  | false => rfl
  | true => exact neg_neg h

theorem view_signed {x : Float} {negative : Bool} {units : Nat}
    (h : view x = .finite negative units) : view (signed negative x) = .finite false units := by
  cases negative with
  | false => exact h
  | true => exact view_neg h

section Finite

variable {x : Float} {negative : Bool} {units : Nat} (h : view x = .finite negative units)
  (hunits : units ≠ 0)

include h hunits

theorem beq_zero_of_units : (x == 0.0) = false := by
  refine Bool.eq_false_iff.mpr fun hzero => hunits ?_
  rcases beq_zero_iff.mp hzero with rfl | rfl
  · rw [view_zero.1] at h
    exact (View.finite.inj h).2.symm
  · rw [view_zero.2] at h
    exact (View.finite.inj h).2.symm

/-- The text of a finite number that is not zero: its sign, and its shortest digits around a
    point. -/
theorem toList_toText {d : Decimal} (hd : shortest plain.tie units (signed negative x) = d) :
    (toText x).toList =
      if negative then '-' :: positionalText false d.significant.1 d.significant.2
      else positionalText false d.significant.1 d.significant.2 := by
  unfold toText Layout.text
  rw [h]
  dsimp only
  rw [if_neg hunits, hd, String.toList_ofList]
  rfl

/-- **A finite number that is not zero** is written as a literal that reads as it. -/
theorem shown_finite : Shown x (toText x) := by
  have hview := view_signed h
  have hread := read_shortest hview plain.tie
  have htext (d : Decimal) := @toList_toText x negative units h hunits d
  generalize shortest plain.tie units (signed negative x) = d at hread htext
  have hdigits : d.digits ≠ 0 := by
    intro hzero
    have hnone : d.read = 0.0 := if_pos (.inl hzero)
    rw [← hread, hnone, view_zero.1] at hview
    exact hunits (View.finite.inj hview).2.symm
  obtain ⟨hsignificant, hvalue⟩ := Decimal.value_significant hdigits
  obtain ⟨d', hd', hsame⟩ := unsigned?_positionalText hsignificant d.significant.2
  have hliteral : literal? (toText x).toList = some (negative, d') := by
    rw [htext d rfl]
    exact literal?_of_unsigned? hd' negative
  refine .literal hliteral ?_ (beq_zero_of_units h hunits)
  rw [Decimal.read_congr (hsame.trans hvalue), hread]
  exact signed_signed (view_eq_finite h).1 negative

end Finite

/-- **How every number is written.** -/
theorem shown (x : Float) : Shown x (toText x) := by
  cases hview : view x with
  | nan =>
    have htext : toText x = "NaN" := by
      unfold toText Layout.text
      rw [hview]
      rfl
    rw [htext, eq_nan_of_view hview]
    exact .notANumber
  | infinite negative =>
    have htext : toText x = (if negative then "-" else "") ++ "Infinity" := by
      unfold toText Layout.text
      rw [hview]
      rfl
    rw [htext, eq_infinity_of_view hview]
    cases negative with
    | false => exact .infinity
    | true => exact .negativeInfinity
  | finite negative units =>
    by_cases hunits : units = 0
    · subst hunits
      have htext : toText x = "0" := by
        unfold toText Layout.text
        rw [hview]
        cases negative <;> rfl
      rw [htext]
      exact .zero (eq_zero_of_view hview)
    · exact shown_finite hview hunits

/-! ## 5. Numbers and their texts -/

/-- **The text of a number is worth that number**, and both zeros are written as the one. -/
theorem ofText_toText (x : Float) : ofText (toText x) = if x == 0.0 then 0.0 else x := by
  have hshown := shown x
  generalize toText x = s at hshown
  cases hshown with
  | notANumber | infinity | negativeInfinity => decide +kernel
  | zero h =>
    rw [if_pos (beq_zero_iff.mpr h)]
    decide +kernel
  | literal hliteral hread hne =>
    rw [hne, if_neg Bool.false_ne_true, ofText_of_literal? hliteral]
    exact hread

/-- The text of a number is never blank. -/
theorem isBlank_toText (x : Float) : Text.isBlank (toText x) = false := by
  have hshown := shown x
  generalize toText x = s at hshown
  cases hshown with
  | notANumber | infinity | negativeInfinity | zero => decide +kernel
  | literal hliteral =>
    have hmem := ((literal?_isSome_iff s.toList).mp (by rw [hliteral]; rfl)).mem_literalChars
    unfold Text.isBlank
    generalize s.toList = cs at hliteral hmem
    cases cs with
    | nil => cases hliteral
    | cons c cs =>
      rw [List.all_cons, isBlankChar_literal (hmem c List.mem_cons_self), Bool.false_and]

end BlockScript.Number

namespace BlockScript.Value

/-- In arithmetic, the text of a number is that number. -/
theorem toNumber_toText (x : Float) :
    ((text (number x).toText).toNumber == (number x).toNumber) = true := by
  have hself {y : Float} (hy : y.isNaN = false) : (y == y) = true := by
    rw [Float.isNaN_eq_decide_eq_nan, decide_eq_false_iff_not] at hy
    exact Float.beq_self_iff.mpr hy
  show (orZero (Number.ofText (Number.toText x)) == orZero x) = true
  rw [Number.ofText_toText]
  cases hzero : x == 0.0 with
  | true =>
    rcases Number.beq_zero_iff.mp hzero with rfl | rfl <;> decide +kernel
  | false => exact hself (isNaN_orZero x)

/-- In a comparison, the text of a number is equal to it. -/
theorem compare_toText (x : Float) : (number x).compare (text (Number.toText x)) = some .eq := by
  have htext : (text (Number.toText x)).operand = .ofFloat (Number.ofText (Number.toText x)) :=
    if_neg (Bool.eq_false_iff.mp (Number.isBlank_toText x))
  have hfolded : (text (Number.toText x)).folded = (number x).folded := rfl
  cases hzero : x == 0.0 with
  | true =>
    rcases Number.beq_zero_iff.mp hzero with rfl | rfl <;> decide +kernel
  | false =>
    -- the two take the same part and have the same text, so this is a value against itself
    have hself := compare_self (number x)
    rw [Number.ofText_toText, hzero, if_neg Bool.false_ne_true] at htext
    unfold compare at hself ⊢
    rw [htext, hfolded]
    exact hself

/-- **A number survives its own text**: the text is worth the number again, both zeros being written
    as the one without a sign; in arithmetic the text counts as the number does; and in a comparison
    the two are equal, what is not a number and the infinities too. -/
theorem number_survives (x : Float) :
    Number.ofText (Number.toText x) = (if x == 0.0 then 0.0 else x) ∧
      ((text (number x).toText).toNumber == (number x).toNumber) = true ∧
      (number x).equals (text (Number.toText x)) = true := by
  refine ⟨Number.ofText_toText x, toNumber_toText x, ?_⟩
  unfold equals
  rw [compare_toText]
  rfl

end BlockScript.Value
