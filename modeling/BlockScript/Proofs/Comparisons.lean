import BlockScript.Proofs.Loops

/-!
# The laws of comparison

Values compare as numbers, as text, or not at all. Which of the three it is depends on both of them;
here it is shown that the outcome is nevertheless an order, seen from either side, and that only
blank text next to something numeric falls out of it.

* `Value.compareFloat_swap`, `Value.compareText_swap`: the order of numbers and of texts, from the
  other side;
* `Value.IsBlank`, `Value.IsNumeric`: what does not compare with each other;
* `Value.compare_swap`, `Value.compare_self`, `Value.compare_eq_none_iff`: the order of values;
* `Value.comparison_laws`: what that says about `<`, `=` and `>`.
-/

namespace BlockScript.Value

/-! ## 1. Numbers -/

section Numbers

variable {x y : Float} (hx : x.isNaN = false) (hy : y.isNaN = false)
include hx hy

/-- Numbers are ordered as their signs, exponents and mantissas are. -/
theorem compareFloat_eq :
    x.toModel.unpack.compare y.toModel.unpack = some (compareFloat x y) := by
  obtain ⟨o, ho⟩ : ∃ o, x.toModel.unpack.compare y.toModel.unpack = some o :=
    Number.exists_compare hx hy
  have hlt : x < y ↔ o = .lt := by
    rw [Number.lt_iff_compare, ho, Option.some.injEq]
  have heq : (x == y) = true ↔ o = .eq := by
    show (x.toModel.unpack.compare y.toModel.unpack == some .eq) = true ↔ _
    rw [ho, beq_iff_eq, Option.some.injEq]
  unfold compareFloat
  simp only [ho, hlt, heq]
  cases o <;> rfl

/-- The order of two numbers, from the other side. -/
theorem compareFloat_swap : compareFloat y x = (compareFloat x y).swap := by
  have hswap := Number.compare_swap x.toModel.unpack y.toModel.unpack
  rw [compareFloat_eq hx hy, compareFloat_eq hy hx] at hswap
  exact Option.some.inj hswap

end Numbers

theorem compareFloat_self {x : Float} (hx : x.isNaN = false) : compareFloat x x = .eq :=
  Ordering.eq_eq_of_eq_swap (compareFloat_swap hx hx)

/-! ## 2. Texts -/

/-- The order of two texts, from the other side. -/
theorem compareText_swap (a b : String) : compareText b a = (compareText a b).swap := by
  unfold compareText
  by_cases hlt : a < b
  · have hne : b ≠ a := fun h => String.lt_irrefl a (h ▸ hlt)
    rw [if_pos hlt, if_neg (String.lt_asymm hlt), if_neg hne]
    rfl
  · by_cases heq : a = b
    · rw [if_neg hlt, if_pos heq, ← heq, if_neg (String.lt_irrefl a), if_pos rfl]
      rfl
    · have hgt : b < a := Decidable.byContradiction fun h =>
        heq (String.le_antisymm (String.not_lt.mp h) (String.not_lt.mp hlt))
      rw [if_neg hlt, if_neg heq, if_pos hgt]
      rfl

theorem compareText_self (a : String) : compareText a a = .eq :=
  Ordering.eq_eq_of_eq_swap (compareText_swap a a)

/-! ## 3. Values -/

/-- The value is blank text. -/
def IsBlank : Value → Prop
  | .text s => Text.isBlank s = true
  | _ => False

/-- The value is numeric: a number, a truth value, or text that is not blank and spells a number. -/
def IsNumeric : Value → Prop
  | .number x => x.isNaN = false
  | .boolean _ => True
  | .text s => Text.isBlank s = false ∧ (Number.ofText s).isNaN = false

/-- One is blank, and the other is numeric. -/
def Apart (a b : Value) : Prop := a.IsBlank ∧ b.IsNumeric ∨ a.IsNumeric ∧ b.IsBlank

theorem isNaN_ofBit (b : Bool) : (ofBit b).isNaN = false := by
  cases b <;> decide +kernel

theorem operand_ofFloat (x : Float) :
    Operand.ofFloat x = .text ∧ x.isNaN = true ∨
      Operand.ofFloat x = .numeric x ∧ x.isNaN = false := by
  unfold Operand.ofFloat
  cases x.isNaN with
  | true => exact .inl ⟨rfl, rfl⟩
  | false => exact .inr ⟨rfl, rfl⟩

/-- **The three parts that a value can take**, and when it takes them. -/
theorem operand_cases (v : Value) :
    v.operand = .text ∧ ¬ v.IsBlank ∧ ¬ v.IsNumeric ∨
      v.operand = .blank ∧ v.IsBlank ∧ ¬ v.IsNumeric ∨
      ∃ x, v.operand = .numeric x ∧ x.isNaN = false ∧ ¬ v.IsBlank ∧ v.IsNumeric := by
  cases v with
  | number n =>
    rcases operand_ofFloat n with ⟨h, hnan⟩ | ⟨h, hnan⟩
    · exact .inl ⟨h, id, Bool.not_eq_false _ ▸ hnan⟩
    · exact .inr (.inr ⟨n, h, hnan, id, hnan⟩)
  | boolean b => exact .inr (.inr ⟨ofBit b, rfl, isNaN_ofBit b, id, trivial⟩)
  | text s =>
    have hoperand : (Value.text s).operand =
      if Text.isBlank s then .blank else .ofFloat (Number.ofText s) := rfl
    by_cases hblank : Text.isBlank s = true
    · rw [hoperand, if_pos hblank]
      exact .inr (.inl ⟨rfl, hblank, fun h => Bool.eq_false_iff.mp h.1 hblank⟩)
    · rw [hoperand, if_neg hblank]
      rcases operand_ofFloat (Number.ofText s) with ⟨h, hnan⟩ | ⟨h, hnan⟩
      · exact .inl ⟨h, hblank, fun hs => Bool.eq_false_iff.mp hs.2 hnan⟩
      · exact .inr (.inr ⟨_, h, hnan, hblank, Bool.eq_false_iff.mpr hblank, hnan⟩)

/-- **The order of two values, from the other side.** -/
theorem compare_swap (a b : Value) : b.compare a = (a.compare b).map Ordering.swap := by
  have htext : some (compareText b.folded a.folded) =
      (some (compareText a.folded b.folded)).map Ordering.swap :=
    congrArg some (compareText_swap a.folded b.folded)
  unfold compare
  rcases operand_cases a with ⟨ha, -⟩ | ⟨ha, -⟩ | ⟨x, ha, hx, -⟩ <;>
    rcases operand_cases b with ⟨hb, -⟩ | ⟨hb, -⟩ | ⟨y, hb, hy, -⟩ <;> rw [ha, hb]
  case inr.inr.inr.inr => exact congrArg some (compareFloat_swap hx hy)
  case inr.inl.inr.inr | inr.inr.inr.inl => rfl
  all_goals exact htext

/-- **Every value is equal to itself**, also what is not a number. -/
theorem compare_self (a : Value) : a.compare a = some .eq := by
  have htext : some (compareText a.folded a.folded) = some .eq :=
    congrArg some (compareText_self a.folded)
  unfold compare
  rcases operand_cases a with ⟨ha, -⟩ | ⟨ha, -⟩ | ⟨x, ha, hx, -⟩ <;> rw [ha]
  · exact htext
  · exact htext
  · exact congrArg some (compareFloat_self hx)

/-- **Two values do not compare only if one is blank and the other is numeric.** -/
theorem compare_eq_none_iff (a b : Value) : a.compare b = none ↔ Apart a b := by
  unfold compare Apart
  rcases operand_cases a with ⟨ha, hblank, hnumeric⟩ | ⟨ha, hblank, hnumeric⟩ |
      ⟨x, ha, -, hblank, hnumeric⟩ <;>
    rcases operand_cases b with ⟨hb, hblank', hnumeric'⟩ | ⟨hb, hblank', hnumeric'⟩ |
      ⟨y, hb, -, hblank', hnumeric'⟩ <;>
    simp [ha, hb, hblank, hnumeric, hblank', hnumeric']

/-! ## 4. Less, equal, greater -/

/-- One of three things holds, and the other two do not. -/
def ExactlyOne (p q r : Prop) : Prop := p ∧ ¬ q ∧ ¬ r ∨ ¬ p ∧ q ∧ ¬ r ∨ ¬ p ∧ ¬ q ∧ r

/-- **The laws of comparison**: of less, equal and greater exactly one holds, unless the one is
    blank text and the other is numeric, and then none of them does; the one is less than the other
    if the other is greater; what is equal is so from both sides; and everything is equal to
    itself. -/
theorem comparison_laws :
    (∀ a b : Value, ExactlyOne (a.lessThan b) (a.equals b) (a.greaterThan b) ↔ ¬ Apart a b) ∧
    (∀ a b : Value, ¬ a.lessThan b ∧ ¬ a.equals b ∧ ¬ a.greaterThan b ↔ Apart a b) ∧
    (∀ a b : Value, a.lessThan b ↔ b.greaterThan a) ∧
    (∀ a b : Value, a.equals b ↔ b.equals a) ∧
    ∀ a : Value, a.equals a := by
  refine ⟨fun a b => ?_, fun a b => ?_, fun a b => ?_, fun a b => ?_, fun a => ?_⟩
  · rw [← compare_eq_none_iff]
    unfold ExactlyOne lessThan equals greaterThan
    rcases a.compare b with _ | o
    · simp
    · cases o <;> simp
  · rw [← compare_eq_none_iff]
    unfold lessThan equals greaterThan
    rcases a.compare b with _ | o
    · simp
    · cases o <;> simp
  · unfold lessThan greaterThan
    rw [compare_swap a b]
    rcases a.compare b with _ | o
    · simp
    · cases o <;> simp
  · unfold equals
    rw [compare_swap a b]
    rcases a.compare b with _ | o
    · simp
    · cases o <;> simp
  · unfold equals
    rw [compare_self]
    rfl

end BlockScript.Value
