import BlockScript.Proofs.Magnitudes
import BlockScript.Number.Literal

/-!
# Which texts spell a number

A text spells a number if, after trimming, it is empty, an infinite word, a whole number after one
of the prefixes `0x`, `0b` and `0o`, or a decimal literal. The grammar is stated here apart from the
reader, and the reader is shown to accept what it says and one thing more: a plus sign between the
prefix and the digits.

* `Number.Digits`, `Number.Prefixed`, `Number.DecimalLiteral`, `Number.Spells`: the grammar;
* `Number.unsigned?_point`, `Number.unsigned?_whole`: what digits around a point are read as;
* `Number.literal?_isSome_iff`: decimal literals are read, and nothing else is;
* `Number.isNaN_ofText_iff`: which texts spell a number;
* `Number.plus_after_prefix`: the text that the grammar does not know.
-/

namespace BlockScript.Number

/-! ## 1. The grammar -/

/-- The digits of a base: those below ten, and in base sixteen the letters. -/
def alphabet (base : Nat) : List Char :=
  ['0', '1', '2', '3', '4', '5', '6', '7', '8', '9'].take base ++
    if base = 16 then ['a', 'b', 'c', 'd', 'e', 'f', 'A', 'B', 'C', 'D', 'E', 'F'] else []

/-- One or more digits of a base. -/
structure Digits (base : Nat) (cs : List Char) : Prop where
  ne_nil : cs ≠ []
  mem : ∀ c ∈ cs, c ∈ alphabet base

/-- Nothing, or a sign. -/
def OptionalSign (cs : List Char) : Prop := cs = [] ∨ cs = ['+'] ∨ cs = ['-']

/-- Digits with an optional point, and at least one digit. -/
inductive Mantissa : List Char → Prop
  | whole {digits : List Char} (h : Digits 10 digits) : Mantissa digits
  | point {whole fraction : List Char} (h : Digits 10 (whole ++ fraction)) :
      Mantissa (whole ++ '.' :: fraction)

/-- Nothing, or a mark, an optional sign and at least one digit. -/
inductive ExponentPart : List Char → Prop
  | none : ExponentPart []
  | some {mark : Char} {sign digits : List Char} (hmark : mark = 'e' ∨ mark = 'E')
      (hsign : OptionalSign sign) (h : Digits 10 digits) : ExponentPart (mark :: (sign ++ digits))

/-- An optional sign, digits with an optional point, and an optional exponent. -/
inductive DecimalLiteral : List Char → Prop
  | mk {sign mantissa exponent : List Char} (hsign : OptionalSign sign) (hm : Mantissa mantissa)
      (he : ExponentPart exponent) : DecimalLiteral (sign ++ (mantissa ++ exponent))

/-- The bases that a mark after a leading zero names. -/
def radixMarks : List (Char × Nat) :=
  [('x', 16), ('X', 16), ('b', 2), ('B', 2), ('o', 8), ('O', 8)]

/-- The number that a row of digits spells in a base, by the weights of their places. -/
def spelled (base : Nat) (digits : List Char) : Nat :=
  Nat.ofDigits base (digits.reverse.map fun c => (digitValue? c).getD 0)

/-- A whole number of at most sixty-four bits after a prefix, with a sign between the two. -/
inductive Prefixed (sign : List Char) : List Char → Prop
  | mk {mark : Char} {base : Nat} {digits : List Char} (hmark : (mark, base) ∈ radixMarks)
      (h : Digits base digits) (hlt : spelled base digits < 2 ^ 64) :
      Prefixed sign ('0' :: mark :: (sign ++ digits))

/-- The infinite words. -/
def infiniteWords : List (List Char) :=
  ["Infinity".toList, "+Infinity".toList, "-Infinity".toList]

/-- **The grammar of numbers**: what a trimmed text that spells a number looks like. -/
def Spells (cs : List Char) : Prop :=
  cs = [] ∨ cs ∈ infiniteWords ∨ Prefixed [] cs ∨ DecimalLiteral cs

/-! ## 2. Digits -/

theorem mem_alphabet_of_digitValue? {c : Char} {d : Nat} (h : digitValue? c = some d) :
    c ∈ alphabet 16 := by
  have hrange : (48 ≤ c.toNat ∧ c.toNat ≤ 57) ∨ (97 ≤ c.toNat ∧ c.toNat ≤ 102) ∨
      (65 ≤ c.toNat ∧ c.toNat ≤ 70) := by
    unfold digitValue? at h
    split at h
    · rename_i hdigit
      exact .inl hdigit
    split at h
    · rename_i hdigit
      exact .inr (.inl hdigit)
    split at h
    · rename_i hdigit
      exact .inr (.inr hdigit)
    · cases h
  rw [← Char.ofNat_toNat c]
  generalize c.toNat = n at hrange
  rcases hrange with ⟨hlow, hhigh⟩ | ⟨hlow, hhigh⟩ | ⟨hlow, hhigh⟩ <;> interval_cases n <;>
    decide +kernel

/-- Base sixteen has all digits. -/
theorem alphabet_subset (base : Nat) : alphabet base ⊆ alphabet 16 := by
  intro c hc
  rcases List.mem_append.mp hc with hc | hc
  · exact List.mem_append_left _ (List.take_subset _ _ hc)
  · split at hc
    · exact List.mem_append_right _ hc
    · cases hc

/-- A character is no digit of any base. -/
theorem not_mem_alphabet {c : Char} (h : (alphabet 16).contains c = false) (base : Nat) :
    c ∉ alphabet base := by
  intro hc
  rw [List.contains_iff_mem.mpr (alphabet_subset base hc)] at h
  cases h

/-- **The digits of a base** are those that count less than it. -/
theorem isDigitIn_iff {base : Nat} (hbase : base ∈ [2, 8, 10, 16]) (c : Char) :
    isDigitIn base c = true ↔ c ∈ alphabet base := by
  have hall : ([2, 8, 10, 16].all fun base => (alphabet 16).all fun c =>
      isDigitIn base c == (alphabet base).contains c) = true := by
    decide +kernel
  have hsame (hc : c ∈ alphabet 16) : isDigitIn base c = true ↔ c ∈ alphabet base := by
    have heq := List.all_eq_true.mp (List.all_eq_true.mp hall base hbase) c hc
    rw [beq_iff_eq.mp heq, List.contains_iff_mem]
  constructor
  · intro h
    have hdigit := h
    unfold isDigitIn at hdigit
    split at hdigit
    · rename_i d hd
      exact (hsame (mem_alphabet_of_digitValue? hd)).mp h
    · cases hdigit
  · intro h
    exact (hsame (alphabet_subset base h)).mpr h

theorem all_isDigitIn_iff {base : Nat} (hbase : base ∈ [2, 8, 10, 16]) (cs : List Char) :
    cs.all (isDigitIn base) = true ↔ ∀ c ∈ cs, c ∈ alphabet base := by
  rw [List.all_eq_true]
  exact forall₂_congr fun c _ => isDigitIn_iff hbase c

/-- The test of the reader for one or more digits. -/
theorem digits_iff {base : Nat} (hbase : base ∈ [2, 8, 10, 16]) (cs : List Char) :
    (cs.isEmpty || !cs.all (isDigitIn base)) = false ↔ Digits base cs := by
  rw [Bool.or_eq_false_iff, Bool.not_eq_false', all_isDigitIn_iff hbase, List.isEmpty_eq_false_iff]
  exact ⟨fun h => ⟨h.1, h.2⟩, fun h => ⟨h.ne_nil, h.mem⟩⟩

/-- Digits spell the number that their places give. -/
theorem natOfDigits_eq_spelled (base : Nat) (cs : List Char) :
    natOfDigits base cs = spelled base cs := by
  rw [natOfDigits_eq]
  unfold foldDigits spelled
  induction cs using List.reverseRecOn with
  | nil => rfl
  | append_singleton cs c ih =>
    rw [List.foldl_append, ih, List.reverse_append, List.reverse_singleton, List.singleton_append,
      List.map_cons, Nat.ofDigits_cons]
    show _ * base + _ = _
    rw [Nat.mul_comm, Nat.add_comm]

/-- **A whole number without a sign** is an optional plus sign and digits that spell no more than
    the limit. -/
theorem natural?_isSome_iff {base : Nat} (hbase : base ∈ [2, 8, 10, 16]) (limit : Nat)
    (cs : List Char) :
    (natural? base limit cs).isSome = true ↔
      ∃ sign digits, (sign = [] ∨ sign = ['+']) ∧ cs = sign ++ digits ∧ Digits base digits ∧
        spelled base digits ≤ limit := by
  have hdigits (digits : List Char) :
      (if digits.isEmpty || !digits.all (isDigitIn base) then none
        else if natOfDigits base digits ≤ limit then some (natOfDigits base digits)
        else none).isSome = true ↔ Digits base digits ∧ spelled base digits ≤ limit := by
    rw [natOfDigits_eq_spelled, ← digits_iff hbase]
    cases digits.isEmpty || !digits.all (isDigitIn base) <;> simp
  unfold natural?
  dsimp only
  split
  · rename_i rest
    rw [hdigits]
    constructor
    · rintro ⟨h, hle⟩
      exact ⟨['+'], rest, .inr rfl, rfl, h, hle⟩
    · rintro ⟨sign, digits, rfl | rfl, heq, h, hle⟩
      · subst heq
        exact absurd (h.mem '+' List.mem_cons_self) (not_mem_alphabet rfl base)
      · injection heq with _ heq
        subst heq
        exact ⟨h, hle⟩
  · rename_i hno
    rw [hdigits]
    constructor
    · rintro ⟨h, hle⟩
      exact ⟨[], cs, .inl rfl, rfl, h, hle⟩
    · rintro ⟨sign, digits, rfl | rfl, heq, h, hle⟩
      · subst heq
        exact ⟨h, hle⟩
      · exact absurd heq (hno digits)

/-! ## 3. Decimal literals -/

/-- A sign at the front is taken off, whichever it is. -/
theorem splitSign_append {sign rest : List Char} (hsign : OptionalSign sign)
    (hrest : ∀ c ∈ rest.head?, c ≠ '+' ∧ c ≠ '-') :
    splitSign (sign ++ rest) = (decide (sign = ['-']), rest) := by
  rcases hsign with rfl | rfl | rfl
  · cases rest with
    | nil => rfl
    | cons c rest =>
      obtain ⟨hplus, hminus⟩ := hrest c rfl
      rw [List.nil_append, splitSign]
      · rfl
      · exact fun _ h => hminus (List.cons.inj h).1
      · exact fun _ h => hplus (List.cons.inj h).1
  · rfl
  · rfl

/-- What a text with an optional sign is made of. -/
theorem splitSign_eq (cs : List Char) :
    ∃ sign, OptionalSign sign ∧ cs = sign ++ (splitSign cs).2 := by
  unfold splitSign
  split
  · exact ⟨['-'], .inr (.inr rfl), rfl⟩
  · exact ⟨['+'], .inr (.inl rfl), rfl⟩
  · exact ⟨[], .inl rfl, rfl⟩

theorem ne_sign_of_mem {base : Nat} {c : Char} (h : c ∈ alphabet base) : c ≠ '+' ∧ c ≠ '-' := by
  constructor
  · rintro rfl
    exact not_mem_alphabet rfl base h
  · rintro rfl
    exact not_mem_alphabet rfl base h

theorem Digits.ne_sign {base : Nat} {cs : List Char} (h : Digits base cs) :
    ∀ c ∈ cs.head?, c ≠ '+' ∧ c ≠ '-' :=
  fun c hc => ne_sign_of_mem (h.mem c (List.mem_of_mem_head? hc))

/-- **The exponent part of a literal.** -/
theorem exponent?_isSome_iff (worth : List Char → Nat) (cs : List Char) :
    (exponent? worth cs).isSome = true ↔ ExponentPart cs := by
  cases cs with
  | nil => exact ⟨fun _ => .none, fun _ => rfl⟩
  | cons mark rest =>
    unfold exponent?
    dsimp only
    constructor
    · intro h
      split at h
      · rename_i hmark
        obtain ⟨sign, hsign, heq⟩ := splitSign_eq rest
        cases hdigits : (splitSign rest).2.isEmpty || !(splitSign rest).2.all isDecimalDigit with
        | false =>
          rw [heq]
          exact .some hmark hsign ((digits_iff (by decide) _).mp hdigits)
        | true =>
          rw [hdigits] at h
          cases h
      · cases h
    · intro h
      cases h with
      | @some _ sign digits hmark hsign h =>
        have hdigits : (digits.isEmpty || !digits.all isDecimalDigit) = false :=
          (digits_iff (by decide) digits).mpr h
        rw [if_pos hmark, splitSign_append hsign h.ne_sign]
        dsimp only
        rw [hdigits]
        rfl

/-- No digit and no point stands at the front of an exponent part. -/
theorem ExponentPart.front {cs : List Char} (h : ExponentPart cs) :
    ∀ c ∈ cs.head?, isDecimalDigit c = false ∧ c ≠ '.' := by
  intro c hc
  cases h with
  | none => cases hc
  | some hmark =>
    cases hc
    rcases hmark with rfl | rfl <;> decide

/-- The digits at the front of a text are taken up to the first character that is none. -/
theorem span_digits {digits rest : List Char} (h : ∀ c ∈ digits, c ∈ alphabet 10)
    (hrest : ∀ c ∈ rest.head?, isDecimalDigit c = false) :
    (digits ++ rest).takeWhile isDecimalDigit = digits ∧
      (digits ++ rest).dropWhile isDecimalDigit = rest := by
  have hall : ∀ c ∈ digits, isDecimalDigit c = true :=
    fun c hc => (isDigitIn_iff (by decide) c).mpr (h c hc)
  rw [List.takeWhile_append_of_pos hall, List.dropWhile_append_of_pos hall]
  cases rest with
  | nil => exact ⟨List.append_nil _, rfl⟩
  | cons c rest =>
    have hc := Bool.eq_false_iff.mp (hrest c rfl)
    rw [List.takeWhile_cons_of_neg hc, List.dropWhile_cons_of_neg hc]
    exact ⟨List.append_nil _, rfl⟩

/-- **Digits without a point** are read as they stand. -/
theorem unsigned?_whole {digits rest : List Char} (h : Digits 10 digits)
    (hrest : ∀ c ∈ rest.head?, isDecimalDigit c = false ∧ c ≠ '.') :
    unsigned? (digits ++ rest) =
      (exponent? limitedExponent rest).map fun e => ⟨natOfDigits 10 digits, e⟩ := by
  obtain ⟨htake, hdrop⟩ := span_digits h.mem fun c hc => (hrest c hc).1
  have hempty : digits.isEmpty = false := List.isEmpty_eq_false_iff.mpr h.ne_nil
  unfold unsigned?
  dsimp only
  rw [htake, hdrop]
  split
  · exact absurd rfl (hrest '.' rfl).2
  · simp only [hempty, Bool.false_and, Bool.false_eq_true, if_false, List.append_nil,
      List.length_nil, Nat.cast_zero, sub_zero]

/-- **Digits around a point** are read as if there were none, in the places after the point. -/
theorem unsigned?_point {whole fraction rest : List Char} (h : Digits 10 (whole ++ fraction))
    (hrest : ∀ c ∈ rest.head?, isDecimalDigit c = false) :
    unsigned? (whole ++ '.' :: (fraction ++ rest)) =
      (exponent? limitedExponent rest).map fun e =>
        ⟨natOfDigits 10 (whole ++ fraction), e - fraction.length⟩ := by
  have hpoint : ∀ c ∈ ('.' :: (fraction ++ rest)).head?, isDecimalDigit c = false := by
    rintro c ⟨⟩
    decide
  obtain ⟨htake, hdrop⟩ := span_digits (fun c hc => h.mem c (List.mem_append_left _ hc)) hpoint
  obtain ⟨htake', hdrop'⟩ := span_digits (fun c hc => h.mem c (List.mem_append_right _ hc)) hrest
  have hempty : (whole.isEmpty && fraction.isEmpty) = false := by
    rw [Bool.and_eq_false_iff, List.isEmpty_eq_false_iff, List.isEmpty_eq_false_iff, ← not_and_or,
      ← List.append_eq_nil_iff]
    exact h.ne_nil
  unfold unsigned?
  dsimp only
  rw [htake, hdrop]
  simp only [htake', hdrop', hempty, Bool.false_eq_true, if_false]

theorem takeWhile_digits (cs : List Char) : ∀ c ∈ cs.takeWhile isDecimalDigit, c ∈ alphabet 10 :=
  fun c hc => (isDigitIn_iff (by decide) c).mp (List.mem_takeWhile_imp hc)

/-- **An unsigned literal** is a mantissa and an exponent part. -/
theorem unsigned?_isSome_iff (cs : List Char) :
    (unsigned? cs).isSome = true ↔
      ∃ mantissa exponent,
        Mantissa mantissa ∧ ExponentPart exponent ∧ cs = mantissa ++ exponent := by
  constructor
  · intro h
    unfold unsigned? at h
    dsimp only at h
    have hcs := (@List.takeWhile_append_dropWhile _ isDecimalDigit cs).symm
    split at h
    · rename_i after hafter
      dsimp only at h
      split at h
      · cases h
      · rename_i hempty
        rw [Option.isSome_map, exponent?_isSome_iff] at h
        rw [Bool.and_eq_true, List.isEmpty_iff, List.isEmpty_iff,
          ← List.append_eq_nil_iff] at hempty
        refine ⟨_, _, .point ⟨hempty, ?_⟩, h, ?_⟩
        · intro c hc
          rcases List.mem_append.mp hc with hc | hc
          · exact takeWhile_digits _ c hc
          · exact takeWhile_digits _ c hc
        · rw [List.append_assoc, List.cons_append, List.takeWhile_append_dropWhile, ← hafter]
          exact hcs
    · dsimp only at h
      split at h
      · cases h
      · rename_i hempty
        rw [Option.isSome_map, exponent?_isSome_iff] at h
        rw [List.isEmpty_nil, Bool.and_true, List.isEmpty_iff] at hempty
        exact ⟨_, _, .whole ⟨hempty, takeWhile_digits cs⟩, h, hcs⟩
  · rintro ⟨mantissa, exponent, hm, he, rfl⟩
    cases hm with
    | whole h =>
      rw [unsigned?_whole h he.front, Option.isSome_map, exponent?_isSome_iff]
      exact he
    | point h =>
      rw [List.append_assoc, List.cons_append, unsigned?_point h fun c hc => (he.front c hc).1,
        Option.isSome_map, exponent?_isSome_iff]
      exact he

/-- A mantissa starts with a digit or a point, hence with no sign. -/
theorem Mantissa.ne_sign {mantissa : List Char} (h : Mantissa mantissa) (rest : List Char) :
    ∀ c ∈ (mantissa ++ rest).head?, c ≠ '+' ∧ c ≠ '-' := by
  intro c hc
  cases h with
  | whole h =>
    rw [List.head?_append_of_ne_nil _ h.ne_nil] at hc
    exact h.ne_sign c hc
  | @point whole _ h =>
    cases whole with
    | nil =>
      cases hc
      decide
    | cons d whole =>
      cases hc
      exact ne_sign_of_mem (h.mem _ List.mem_cons_self)

/-- **Decimal literals** are read, and nothing else is. -/
theorem literal?_isSome_iff (cs : List Char) : (literal? cs).isSome = true ↔ DecimalLiteral cs := by
  unfold literal?
  dsimp only
  rw [Option.isSome_map, unsigned?_isSome_iff]
  constructor
  · rintro ⟨mantissa, exponent, hm, he, heq⟩
    obtain ⟨sign, hsign, hcs⟩ := splitSign_eq cs
    rw [hcs, heq]
    exact .mk hsign hm he
  · rintro ⟨hsign, hm, he⟩
    rw [splitSign_append hsign (hm.ne_sign _)]
    exact ⟨_, _, hm, he, rfl⟩

/-- The characters of decimal literals. -/
def literalChars : List Char :=
  alphabet 10 ++ ['.', 'e', 'E', '+', '-']

theorem OptionalSign.mem_literalChars {cs : List Char} (h : OptionalSign cs) :
    ∀ c ∈ cs, c ∈ literalChars := by
  intro c hc
  refine List.mem_append_right _ ?_
  rcases h with rfl | rfl | rfl
  · cases hc
  · cases List.mem_singleton.mp hc
    decide
  · cases List.mem_singleton.mp hc
    decide

/-- **A decimal literal has few characters**: digits, points, signs and the two marks. -/
theorem DecimalLiteral.mem_literalChars {cs : List Char} (h : DecimalLiteral cs) :
    ∀ c ∈ cs, c ∈ literalChars := by
  intro c hc
  obtain ⟨hsign, hm, he⟩ := h
  rw [List.mem_append, List.mem_append] at hc
  rcases hc with hc | hc | hc
  · exact hsign.mem_literalChars c hc
  · cases hm with
    | whole h => exact List.mem_append_left _ (h.mem c hc)
    | point h =>
      rw [List.mem_append, List.mem_cons] at hc
      rcases hc with hc | rfl | hc
      · exact List.mem_append_left _ (h.mem c (List.mem_append_left _ hc))
      · exact List.mem_append_right _ (by decide)
      · exact List.mem_append_left _ (h.mem c (List.mem_append_right _ hc))
  · cases he with
    | none => cases hc
    | some hmark hsign h =>
      rw [List.mem_cons, List.mem_append] at hc
      rcases hc with rfl | hc | hc
      · refine List.mem_append_right _ ?_
        rcases hmark with rfl | rfl <;> decide
      · exact hsign.mem_literalChars c hc
      · exact List.mem_append_left _ (h.mem c hc)

/-! ## 4. Values -/

/-- A decimal is always worth a number. -/
theorem Decimal.isNaN_read (d : Decimal) : d.read.isNaN = false := by
  unfold Decimal.read
  dsimp only
  split
  · decide +kernel
  split
  · decide +kernel
  split <;> exact isNaN_nearest _ _

theorem isNaN_signed {x : Float} (h : x.isNaN = false) (negative : Bool) :
    (signed negative x).isNaN = false := by
  cases negative with
  | false => exact h
  | true => exact isNaN_neg h

theorem mem_infiniteWords_iff {cs : List Char} :
    cs ∈ infiniteWords ↔
      (cs = "Infinity".toList ∨ cs = "+Infinity".toList) ∨ cs = "-Infinity".toList := by
  rw [infiniteWords, List.mem_cons, List.mem_cons, List.mem_singleton, or_assoc]

/-- **Text without a prefix** spells a number if it is an infinite word or a decimal literal. -/
theorem isNaN_readPlain_iff (cs : List Char) :
    (readPlain cs).isNaN = false ↔ cs ∈ infiniteWords ∨ DecimalLiteral cs := by
  rw [mem_infiniteWords_iff]
  unfold readPlain
  split
  · rename_i h
    exact ⟨fun _ => .inl (.inl h), fun _ => by decide +kernel⟩
  split
  · rename_i h
    exact ⟨fun _ => .inl (.inr h), fun _ => by decide +kernel⟩
  · rename_i hpositive hnegative
    rw [or_iff_right (not_or.mpr ⟨hpositive, hnegative⟩), ← literal?_isSome_iff]
    split
    · rename_i negative d heq
      rw [heq]
      exact ⟨fun _ => rfl, fun _ => isNaN_signed d.isNaN_read negative⟩
    · rename_i heq
      rw [heq]
      refine iff_of_false ?_ Bool.false_ne_true
      decide +kernel

/-- The marks and their bases. -/
theorem baseOfMark?_eq_some_iff (mark : Char) (base : Nat) :
    baseOfMark? mark = some base ↔ (mark, base) ∈ radixMarks := by
  simp only [radixMarks, List.mem_cons, List.not_mem_nil, or_false, Prod.mk.injEq]
  unfold baseOfMark?
  split
  · rename_i h
    rcases h with rfl | rfl <;> simp [eq_comm]
  split
  · rename_i h
    rcases h with rfl | rfl <;> simp [eq_comm]
  split
  · rename_i h
    rcases h with rfl | rfl <;> simp [eq_comm]
  · rename_i hx hb ho
    simp_all

/-- No text after a prefix is an infinite word or a decimal literal. -/
theorem not_plain_of_mark {mark : Char} {base : Nat} (h : (mark, base) ∈ radixMarks)
    (rest : List Char) :
    '0' :: mark :: rest ∉ infiniteWords ∧ ¬ DecimalLiteral ('0' :: mark :: rest) := by
  have hmarks : (radixMarks.all fun entry => !literalChars.contains entry.1) = true := by
    decide +kernel
  have hwords : (infiniteWords.all fun word => word.head? != some '0') = true := by
    decide +kernel
  constructor
  · intro hword
    cases List.all_eq_true.mp hwords _ hword
  · intro hliteral
    have hmem := hliteral.mem_literalChars mark (List.mem_cons_of_mem _ List.mem_cons_self)
    have hno := List.all_eq_true.mp hmarks _ h
    rw [List.contains_iff_mem.mpr hmem] at hno
    cases hno

theorem mem_bases {mark : Char} {base : Nat} (h : (mark, base) ∈ radixMarks) :
    base ∈ [2, 8, 10, 16] := by
  have hall : (radixMarks.all fun entry => [2, 8, 10, 16].contains entry.2) = true := by decide
  exact List.contains_iff_mem.mp (List.all_eq_true.mp hall _ h)

/-- **Text after a prefix** spells a number if it is a whole number that fits, with a plus sign or
    without. -/
theorem natural?_iff_prefixed {mark : Char} {base : Nat} (h : (mark, base) ∈ radixMarks)
    (rest : List Char) :
    (natural? base maxWord rest).isSome = true ↔
      Prefixed [] ('0' :: mark :: rest) ∨ Prefixed ['+'] ('0' :: mark :: rest) := by
  have hword (n : Nat) : n ≤ maxWord ↔ n < 2 ^ 64 := by
    rw [maxWord, Nat.pow_eq]
    omega
  -- a mark names one base
  have hbase {base' : Nat} (h' : (mark, base') ∈ radixMarks) : base' = base := by
    rw [← baseOfMark?_eq_some_iff] at h h'
    exact Option.some.inj (h'.symm.trans h)
  rw [natural?_isSome_iff (mem_bases h)]
  constructor
  · rintro ⟨sign, digits, hsign, rfl, hdigits, hle⟩
    rcases hsign with rfl | rfl
    · exact .inl (.mk h hdigits ((hword _).mp hle))
    · exact .inr (.mk h hdigits ((hword _).mp hle))
  · rintro (hspells | hspells)
    · obtain ⟨hmark, hdigits, hlt⟩ := hspells
      cases hbase hmark
      exact ⟨[], _, .inl rfl, rfl, hdigits, (hword _).mpr hlt⟩
    · obtain ⟨hmark, hdigits, hlt⟩ := hspells
      cases hbase hmark
      exact ⟨['+'], _, .inr rfl, rfl, hdigits, (hword _).mpr hlt⟩

theorem Prefixed.mark {sign cs : List Char} (h : Prefixed sign cs) :
    ∃ mark rest base, cs = '0' :: mark :: rest ∧ baseOfMark? mark = some base := by
  obtain ⟨hmark, -, -⟩ := h
  exact ⟨_, _, _, rfl, (baseOfMark?_eq_some_iff _ _).mpr hmark⟩

/-- **Trimmed text** spells a number by the grammar, or with a plus sign after a prefix. -/
theorem isNaN_readTrimmed_iff (cs : List Char) :
    (readTrimmed cs).isNaN = false ↔ Spells cs ∨ Prefixed ['+'] cs := by
  -- without a prefix, the grammar of plain text is all there is
  have hplain (hne : cs ≠ []) (hno : ∀ sign, ¬ Prefixed sign cs) :
      (readPlain cs).isNaN = false ↔ Spells cs ∨ Prefixed ['+'] cs := by
    rw [isNaN_readPlain_iff, or_iff_left (hno _), Spells, or_iff_right hne, or_iff_right (hno _)]
  unfold readTrimmed
  split
  · exact ⟨fun _ => .inl (.inl rfl), fun _ => by decide +kernel⟩
  · rename_i mark rest
    split
    · rename_i base hbase
      have hmark := (baseOfMark?_eq_some_iff mark base).mp hbase
      obtain ⟨hword, hliteral⟩ := not_plain_of_mark hmark rest
      rw [Spells, or_iff_right (List.cons_ne_nil _ _), or_iff_right hword, or_iff_left hliteral,
        ← natural?_iff_prefixed hmark]
      split
      · rename_i n heq
        rw [heq]
        exact ⟨fun _ => rfl, fun _ => isNaN_nearest n 1⟩
      · rename_i heq
        rw [heq]
        refine iff_of_false ?_ Bool.false_ne_true
        decide +kernel
    · rename_i hbase
      refine hplain (List.cons_ne_nil _ _) fun sign h => ?_
      obtain ⟨mark', rest', base, heq, hmark⟩ := h.mark
      cases heq
      rw [hbase] at hmark
      cases hmark
  · rename_i hne hno
    refine hplain hne fun sign h => ?_
    obtain ⟨mark, rest, base, heq, -⟩ := h.mark
    exact hno mark rest heq

/-! ## 5. Which texts spell a number -/

/-- **A text spells a number** exactly if, trimmed, it is of the grammar, or if it is a prefix, a
    plus sign and digits of its base with a value below `2^64`. -/
theorem isNaN_ofText_iff (s : String) :
    (ofText s).isNaN = false ↔
      Spells (Text.trim s).toList ∨ Prefixed ['+'] (Text.trim s).toList := by
  rw [Text.trim, String.toList_ofList]
  exact isNaN_readTrimmed_iff _

/-- **A plus sign after a prefix is read**: `0x+1f` is thirty-one, and no text of the grammar. -/
theorem plus_after_prefix :
    ofText "0x+1f" = 31.0 ∧ ¬ Spells (Text.trim "0x+1f").toList := by
  have htrim : (Text.trim "0x+1f").toList = ['0', 'x', '+', '1', 'f'] := by decide +kernel
  refine ⟨by decide +kernel, ?_⟩
  rw [htrim]
  have hmark : ('x', 16) ∈ radixMarks := List.mem_cons_self
  obtain ⟨hword, hliteral⟩ := not_plain_of_mark hmark ['+', '1', 'f']
  rintro (h | h | h | h)
  · cases h
  · exact hword h
  · obtain ⟨-, hdigits, -⟩ := h
    exact not_mem_alphabet rfl _ (hdigits.mem '+' List.mem_cons_self)
  · exact hliteral h

end BlockScript.Number
