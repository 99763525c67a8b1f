import BlockScript.Compile.Reporter
import BlockScript.Machine.Eval
import BlockScript.Project.Decode
import BlockScript.Proofs.Readback
import BlockScript.Proofs.Sums

/-!
# Bounds of random numbers

A number by chance is whole if both bounds are, and a bound that is a text is whole if no point is
written in it. A bound that was typed into a slot for numbers is no text any more when that is
asked: the reader of projects has made a number of it, and the point is gone. What counts then is
the value.

* `Number.Misread`: the texts whose value is whole although a point is written, or the other way
  round;
* `Number.isWhole_ofText`: numbers without a point and an exponent are whole;
* `Number.isWhole_ofText_zeros`: so are those with zeros after the point;
* `Compile.random_typed`: which bounds count as they were written.
-/

namespace BlockScript

namespace Number

/-! ## 1. Whole values -/

theorem isWhole_of_view {x : Float} {negative : Bool} {units : Nat}
    (h : view x = .finite negative units) : isWhole x = true ↔ one ∣ units := by
  unfold isWhole
  rw [h]
  exact decide_eq_true_iff.trans Nat.dvd_iff_mod_eq_zero.symm

/-- A natural number is whole, unless it is too large for a double. -/
theorem isWhole_ofNat {n : Nat} {negative : Bool} {units : Nat}
    (h : view (ofNat n) = .finite negative units) : isWhole (ofNat n) = true := by
  rcases Nat.eq_zero_or_pos n with rfl | hpos
  · exact (isWhole_of_view (view_ofNat_le (Nat.zero_le _))).mpr (Nat.dvd_mul_left one 0)
  · obtain ⟨-, hlt, -, hunits⟩ := view_eq_finite h
    have hnearest : ofNat n = nearest (n * one) one :=
      nearest_congr Nat.one_pos one_pos (by rw [Nat.mul_one])
    rw [hnearest, (magnitude_nearest (n * one) one).1] at hlt hunits
    rw [isWhole_of_view h, ← hunits]
    exact whole_nearest hpos hlt

/-- A decimal that stands for a natural number is read as that number. -/
theorem Decimal.read_of_value {d : Decimal} {n : Nat} (h : d.value = n) : d.read = ofNat n := by
  have hvalue : d.value = (⟨n, 0⟩ : Decimal).value := by
    rw [h, Decimal.value, zpow_zero, mul_one]
  rw [Decimal.read_congr hvalue, Decimal.read_eq]
  show nearest (n * 10 ^ 0) (10 ^ 0) = ofNat n
  rw [Nat.pow_zero, Nat.mul_one]
  rfl

/-- **A literal that stands for a natural number** is whole, unless it is too large. -/
theorem isWhole_signed_read {d : Decimal} {n : Nat} (h : d.value = n) {negative : Bool}
    (hfinite : (signed negative d.read).isFinite = true) :
    isWhole (signed negative d.read) = true := by
  rw [Decimal.read_of_value h] at hfinite ⊢
  obtain ⟨side, units, hview⟩ := exists_view_of_isFinite hfinite
  cases negative with
  | false => exact isWhole_ofNat hview
  | true =>
    -- a sign changes neither the units nor whether there are any
    have hopposite : view (ofNat n) = .finite (!side) units := by
      have hnumber : (ofNat n).isNaN = false := isNaN_nearest n 1
      rw [← neg_neg hnumber]
      exact view_neg hview
    rw [isWhole_of_view hview, ← isWhole_of_view hopposite]
    exact isWhole_ofNat hopposite

/-! ## 2. Texts with whole values -/

/-- No point and no exponent is written. -/
def Plain (cs : List Char) : Prop := ∀ c ∈ cs, c ≠ '.' ∧ c ≠ 'e' ∧ c ≠ 'E'

theorem mem_of_mem_trimChars {cs : List Char} {c : Char} (h : c ∈ Text.trimChars cs) : c ∈ cs := by
  have hfront := (List.dropWhile_sublist _).mem (List.mem_reverse.mp h)
  exact (List.dropWhile_sublist _).mem (List.mem_reverse.mp hfront)

/-- A literal without a point and an exponent is a row of digits. -/
theorem value_of_plain {cs : List Char} {d : Decimal} (h : unsigned? cs = some d)
    (hplain : Plain cs) : d.value = natOfDigits 10 cs := by
  obtain ⟨mantissa, exponent, hm, he, rfl⟩ := (unsigned?_isSome_iff cs).mp (by rw [h]; rfl)
  cases he with
  | none =>
    rw [List.append_nil] at h hplain ⊢
    cases hm with
    | whole hdigits =>
      rw [unsigned?_whole_end hdigits, Option.some.injEq] at h
      rw [← h, Decimal.value, zpow_zero, mul_one]
    | point => exact absurd rfl (hplain '.' (List.mem_append_right _ List.mem_cons_self)).1
  | some hmark =>
    obtain ⟨-, hsmall, hlarge⟩ := hplain _ (List.mem_append_right _ List.mem_cons_self)
    exact (hmark.elim hsmall hlarge).elim

theorem isWhole_readPlain {cs : List Char} (hplain : Plain cs) :
    (readPlain cs).isFinite = true → isWhole (readPlain cs) = true := by
  unfold readPlain
  split
  · exact fun hfinite => absurd hfinite (by decide +kernel)
  split
  · exact fun hfinite => absurd hfinite (by decide +kernel)
  split
  · rename_i negative d hliteral
    obtain ⟨sign, -, hcs⟩ := splitSign_eq cs
    obtain ⟨d', hread, heq⟩ := Option.map_eq_some_iff.mp hliteral
    obtain ⟨-, rfl⟩ := Prod.mk.inj heq
    refine isWhole_signed_read (value_of_plain hread fun c hc => hplain c ?_)
    rw [hcs]
    exact List.mem_append_right _ hc
  · exact fun hfinite => absurd hfinite (by decide +kernel)

/-- **Numbers without a point and an exponent are whole**, unless they are too large. -/
theorem isWhole_ofText {s : String} (hplain : Plain s.toList)
    (hfinite : (ofText s).isFinite = true) : isWhole (ofText s) = true := by
  have htrimmed : Plain (Text.trimChars s.toList) := fun c hc => hplain c (mem_of_mem_trimChars hc)
  revert hfinite
  unfold ofText
  generalize Text.trimChars s.toList = cs at htrimmed
  unfold readTrimmed
  split
  · exact fun _ => by decide +kernel
  · split
    · split
      · intro hfinite
        obtain ⟨negative, units, hview⟩ := exists_view_of_isFinite hfinite
        exact isWhole_ofNat hview
      · exact fun hfinite => absurd hfinite (by decide +kernel)
    · exact isWhole_readPlain htrimmed
  · exact isWhole_readPlain htrimmed

/-- A literal with nothing but zeros after its point. -/
inductive Zeros : List Char → Prop
  | mk {sign whole : List Char} {places : Nat} (hsign : OptionalSign sign)
      (h : Digits 10 (whole ++ List.replicate places '0')) :
      Zeros (sign ++ (whole ++ '.' :: List.replicate places '0'))

theorem Zeros.mem_point {cs : List Char} (h : Zeros cs) : '.' ∈ cs := by
  cases h
  exact List.mem_append_right _ (List.mem_append_right _ List.mem_cons_self)

/-- **Numbers with zeros after the point are whole**, unless they are too large. -/
theorem isWhole_ofText_zeros {s : String} (h : Zeros s.toList)
    (hfinite : (ofText s).isFinite = true) : isWhole (ofText s) = true := by
  generalize hcs : s.toList = cs at h
  obtain @⟨sign, whole, places, hsign, hdigits⟩ := h
  have hread := unsigned?_point_end hdigits
  have hfront := (Mantissa.point hdigits).ne_sign []
  rw [List.append_nil] at hfront
  have hliteral : literal? s.toList =
      some (decide (sign = ['-']), ⟨natOfDigits 10 (whole ++ List.replicate places '0'),
        -(List.replicate places '0').length⟩) := by
    unfold literal?
    rw [hcs, splitSign_append hsign hfront]
    dsimp only
    rw [hread]
    rfl
  rw [ofText_of_literal? hliteral] at hfinite ⊢
  refine isWhole_signed_read (n := natOfDigits 10 whole) ?_ hfinite
  rw [Decimal.value, natOfDigits_append, natOfDigits_zeros, Nat.add_zero, List.length_replicate,
    zpow_neg, zpow_natCast]
  push_cast
  exact mul_inv_cancel_right₀ (pow_ne_zero _ (by norm_num)) _

/-- A number whose value says other than its point whether it is whole: a whole one that is written
    with a point, or one that is not whole and written without. -/
def Misread (s : String) : Prop :=
  (ofText s).isNaN = false ∧ ('.' ∈ s.toList ↔ isWhole (ofText s) = true)

theorem not_misread_of_blank {s : String} (h : Text.isBlank s = true) : ¬ Misread s := by
  rintro ⟨-, hpoint⟩
  have hwhole : isWhole (ofText s) = true := by
    unfold ofText
    rw [Text.trimChars_of_all h]
    decide +kernel
  have hblank := List.all_eq_true.mp h '.' (hpoint.mpr hwhole)
  exact absurd hblank (by decide +kernel)

theorem not_misread_of_plain {s : String} (hplain : Plain s.toList)
    (hfinite : (ofText s).isFinite = true) : ¬ Misread s := by
  rintro ⟨-, hpoint⟩
  exact (hplain '.' (hpoint.mpr (isWhole_ofText hplain hfinite))).1 rfl

theorem misread_of_zeros {s : String} (h : Zeros s.toList)
    (hfinite : (ofText s).isFinite = true) : Misread s :=
  ⟨isNaN_of_isFinite hfinite, iff_of_true h.mem_point (isWhole_ofText_zeros h hfinite)⟩

end Number

/-! ## 3. From the project to the bound -/

/-- A text that is typed into a slot for numbers, as a project has it. -/
def Json.typed (s : String) : Json :=
  .array [.number (.whole 1), .array [.number (.whole 4), .string s]]

theorem Input.ofJson_typed (s : String) :
    Input.ofJson (.typed s) = .ok (.literal (Input.numericLiteral (.text s))) := rfl

theorem Value.isWholeBound_text (s : String) :
    (Value.text s).isWholeBound = true ↔ '.' ∉ s.toList := by
  show (!s.toList.contains '.') = true ↔ _
  rw [Bool.not_eq_true', ← Bool.not_eq_true, List.contains_iff_mem]

/-- **The value of a typed bound counts as its text does**, unless the text is misread. -/
theorem Value.isWholeBound_numericLiteral (s : String) :
    (Input.numericLiteral (.text s)).isWholeBound = (Value.text s).isWholeBound ↔
      ¬ Number.Misread s := by
  unfold Input.numericLiteral
  dsimp only
  split
  · rename_i hkept
    rw [Bool.or_eq_true] at hkept
    refine iff_of_true rfl (hkept.elim (fun hnan hmisread => ?_) Number.not_misread_of_blank)
    rw [hmisread.1] at hnan
    cases hnan
  · rename_i hnumber
    rw [Bool.or_eq_true, not_or, Bool.not_eq_true, Bool.not_eq_true] at hnumber
    show ((Number.ofText s).isNaN || Number.isWhole (Number.ofText s)) = !s.toList.contains '.' ↔ _
    rw [Number.Misread, and_iff_right hnumber.1, hnumber.1, Bool.false_or, ← List.contains_iff_mem]
    cases s.toList.contains '.' <;> cases Number.isWhole (Number.ofText s) <;> decide

namespace Compile

/-- What is left of a typed text when its bound is asked for. -/
structure Typed (s : String) (v : Value) : Prop where
  /-- The bound counts as the text does, unless the text is misread. -/
  counts : v.isWholeBound = (Value.text s).isWholeBound ↔ ¬ Number.Misread s
  /-- Numbers that are written without a point and an exponent are read as they are written. -/
  plain : Number.Plain s.toList → (Number.ofText s).isFinite = true →
    v.isWholeBound = true ∧ (Value.text s).isWholeBound = true
  /-- Numbers with zeros after the point are always misread. -/
  zeros : Number.Zeros s.toList → (Number.ofText s).isFinite = true →
    v.isWholeBound = true ∧ (Value.text s).isWholeBound = false

theorem typed (s : String) : Typed s (Input.numericLiteral (.text s)) where
  counts := Value.isWholeBound_numericLiteral s
  plain hplain hfinite := by
    have hcounts := (Value.isWholeBound_numericLiteral s).mpr
      (Number.not_misread_of_plain hplain hfinite)
    have htext : (Value.text s).isWholeBound = true :=
      (Value.isWholeBound_text s).mpr fun hpoint => (hplain '.' hpoint).1 rfl
    exact ⟨hcounts.trans htext, htext⟩
  zeros hzeros hfinite := by
    have htext : (Value.text s).isWholeBound = false :=
      Bool.eq_false_iff.mpr fun hwhole => (Value.isWholeBound_text s).mp hwhole hzeros.mem_point
    have hcounts := mt (Value.isWholeBound_numericLiteral s).mp
      (not_not_intro (Number.misread_of_zeros hzeros hfinite))
    rw [htext, Bool.not_eq_false] at hcounts
    exact ⟨hcounts, htext⟩

variable {reporter : Path → Block → Except Error Expr} {c : Context} {path : Path} {b : Block}

theorem inputIn_typed {name s : String} {i : Input} (hread : Input.ofJson (.typed s) = .ok i)
    (hinput : b.inputs.get? name = some i) :
    inputIn reporter c path b name .any = .ok (.const (Input.numericLiteral (.text s))) := by
  rw [Input.ofJson_typed, Except.ok.injEq] at hread
  unfold inputIn
  rw [hinput, ← hread]
  rfl

/-- **A random number between typed bounds** is drawn between their values, and a bound counts as
    whole as it was written, unless its text is misread. Whole numbers with zeros after a point are
    always misread, those without a point and an exponent never. -/
theorem random_typed {H : Type} [Host H] {depth : Nat} {s s' : String} {low high : Input}
    (hopcode : b.opcode = "operator_random")
    (hlow : Input.ofJson (.typed s) = .ok low) (hfrom : b.inputs.get? "FROM" = some low)
    (hhigh : Input.ofJson (.typed s') = .ok high) (hto : b.inputs.get? "TO" = some high) :
    ∃ v v', reporterAt c (depth + 1) path b = .ok (.random (.const v) (.const v')) ∧
      Act.eval (.random (.const v) (.const v')) =
        (do return .number (← Act.randomBetween v v') : Act H Value) ∧
      Typed s v ∧ Typed s' v' := by
  refine ⟨_, _, ?_, rfl, typed s, typed s'⟩
  unfold reporterAt Reporter.compile
  dsimp only
  rw [hopcode]
  refine except_bind_eq_ok.mpr ⟨_, inputIn_typed hlow hfrom, ?_⟩
  exact except_bind_eq_ok.mpr ⟨_, inputIn_typed hhigh hto, rfl⟩

/-- A block that draws between a whole number with a point and a fraction without one. -/
def pick : Block where
  opcode := "operator_random"
  inputs := .ofEntries
    [("FROM", .literal (Input.numericLiteral (.text "1.0"))),
      ("TO", .literal (Input.numericLiteral (.text "1e-1")))]

theorem pick_random_typed :
    ∃ v v',
      reporterAt (.of { name := "Die" } none []) 1 [] pick =
        .ok (.random (.const v) (.const v')) ∧
      Act.eval (.random (.const v) (.const v')) =
        (do return .number (← Act.randomBetween v v') : Act Headless Value) ∧
      Typed "1.0" v ∧ Typed "1e-1" v' :=
  random_typed rfl rfl rfl rfl rfl

/-- **A point that counts for nothing, and a fraction without a point**: between `1.0` and `1e-1`,
    the bound with the point counts as whole and the bound without it does not. -/
theorem pick_misread :
    ∃ v v',
      reporterAt (.of { name := "Die" } none []) 1 [] pick =
        .ok (.random (.const v) (.const v')) ∧
      v.isWholeBound = true ∧ (Value.text "1.0").isWholeBound = false ∧
      v'.isWholeBound = false ∧ (Value.text "1e-1").isWholeBound = true := by
  refine ⟨_, _, rfl, ?_⟩
  decide +kernel

end Compile

end BlockScript
