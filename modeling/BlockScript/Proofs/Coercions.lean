import BlockScript.Proofs.Exactness
import BlockScript.Proofs.Frames
import BlockScript.Proofs.Loops

/-!
# Conversions that are done early, once, or not at all

An input is converted to the kind of its slot. The compiler converts constants itself and leaves out
the conversion of what has the kind anyway; a call remembers an argument as a number and as a truth
value once it was asked for it. Here all three are shown to make no difference.

* `Slot.coerce_coerce`: to convert twice is to convert once;
* `Thread.Known`: what the calls of a thread remember about their arguments is right;
* `Act.coerce_of_knownSlot`: a value has the kind that the compiler knows it to have;
* `Act.forget_eval_cast`, `Act.forget_compiled_cast`: a conversion in compiled code, with and without
  what calls remember;
* `Regime.knowing`: in every state, what is remembered is right;
* `Act.compiled_cast_coerces`: the result.
-/

namespace BlockScript

/-! ## 1. To convert twice -/

namespace Number

theorem getD_digitValue?_lt {base : Nat} {c : Char} (h : isDigitIn base c = true) :
    (digitValue? c).getD 0 < base := by
  unfold isDigitIn at h
  split at h
  · rename_i d hd
    rw [hd]
    exact of_decide_eq_true h
  · cases h

/-- So many digits spell a number with no more digits. -/
theorem foldDigits_lt {base : Nat} {cs : List Char} (h : ∀ c ∈ cs, isDigitIn base c = true) :
    foldDigits base cs < base ^ cs.length := by
  induction cs with
  | nil => exact Nat.one_pos
  | cons c cs ih =>
    obtain ⟨hc, hcs⟩ := List.forall_mem_cons.mp h
    have hdigit : withDigit base 0 c < base := by
      rw [withDigit, Nat.zero_mul, Nat.zero_add]
      exact getD_digitValue?_lt hc
    calc foldDigits base (c :: cs)
        = withDigit base 0 c * base ^ cs.length + foldDigits base cs := foldl_withDigit base _ cs
      _ < (withDigit base 0 c + 1) * base ^ cs.length := by
        rw [Nat.add_mul, Nat.one_mul]
        exact Nat.add_lt_add_left (ih hcs) _
      _ ≤ base * base ^ cs.length := Nat.mul_le_mul_right _ hdigit
      _ = base ^ (cs.length + 1) := Nat.mul_comm ..

end Number

namespace Value

theorem natOfDigits_lt {cs : List Char} (hcs : ∀ c ∈ cs, Number.isDigitIn 16 c = true)
    (hlength : cs.length = 6) : Number.natOfDigits 16 cs < 2 ^ 24 := by
  have hlt := Number.foldDigits_lt hcs
  rw [hlength] at hlt
  rw [Number.natOfDigits_eq]
  exact hlt

/-- Six hexadecimal digits, or three that count double, are 24 bits. -/
theorem hexDigits_lt {digits : List Char} {color : Nat}
    (h : (if !digits.all (Number.isDigitIn 16) then none
      else if digits.length = 6 then some (Number.natOfDigits 16 digits)
      else if digits.length = 3 then
        some (Number.natOfDigits 16 (digits.flatMap fun c => [c, c]))
      else none) = some color) : color < 2 ^ 24 := by
  cases hall : digits.all (Number.isDigitIn 16) with
  | false =>
    rw [hall] at h
    cases h
  | true =>
    rw [hall, if_neg (by decide)] at h
    have hall := List.all_eq_true.mp hall
    split at h
    · rename_i hlength
      cases h
      exact natOfDigits_lt hall hlength
    · split at h
      · rename_i hlength
        cases h
        refine natOfDigits_lt (fun c hc => ?_) ?_
        · obtain ⟨d, hd, hmem⟩ := List.mem_flatMap.mp hc
          simp only [List.mem_cons, List.not_mem_nil, or_false, or_self] at hmem
          exact hmem ▸ hall d hd
        · simp [List.length_flatMap, hlength]
      · cases h

theorem colorOfNumber_lt (x : Float) : colorOfNumber x < 2 ^ 24 := by
  have hpower : ((Nat.pow 2 24 : Nat) : Int) = 16777216 := rfl
  unfold colorOfNumber
  split
  · rw [hpower]
    omega
  · decide

/-- Every colour has 24 bits. -/
theorem toColor_lt (v : Value) : v.toColor < 2 ^ 24 := by
  cases v with
  | number | boolean => exact colorOfNumber_lt _
  | text s =>
    show (hexColor? s).getD (colorOfNumber (Value.text s).toNumber) < 2 ^ 24
    cases h : hexColor? s with
    | none => exact colorOfNumber_lt _
    | some color => exact hexDigits_lt h

/-- A colour that is written as a number is read as it is. -/
theorem toColor_ofNat {color : Nat} (h : color < 2 ^ 24) :
    (Value.number (Number.ofNat color)).toColor = color := by
  have hlt : color < 2 ^ 53 := by omega
  have hfinite := Number.isFinite_ofNat hlt
  have hpower : ((Nat.pow 2 24 : Nat) : Int) = 16777216 := rfl
  have hlow : minInteger = -9223372036854775808 := rfl
  have hhigh : maxInteger = 9223372036854775807 := rfl
  have htrunc : Number.truncWithin minInteger maxInteger (Number.ofNat color) = color :=
    Number.truncWithin_ofNat hlt (by omega) (by omega)
  show colorOfNumber (orZero (Number.ofNat color)) = color
  rw [orZero_of_isNaN (Number.isNaN_of_isFinite hfinite), colorOfNumber, if_pos hfinite, htrunc,
    hpower]
  omega

end Value

/-- **To convert twice is to convert once.** -/
theorem Slot.coerce_coerce (slot : Slot) (v : Value) :
    slot.coerce (slot.coerce v) = slot.coerce v := by
  cases slot with
  | number => exact congrArg Value.number (Value.orZero_of_isNaN (Value.isNaN_orZero _))
  | color =>
    exact congrArg (fun c => Value.number (Number.ofNat c)) (Value.toColor_ofNat v.toColor_lt)
  | text | boolean | any | list => rfl

/-! ## 2. What calls remember -/

/-- What is remembered about an argument is right. -/
structure Argument.Known (a : Argument) : Prop where
  number : ∀ n, a.number = some n → n = a.raw.toNumber
  boolean : ∀ b, a.boolean = some b → b = a.raw.toBool

/-- What a call remembers about its arguments is right. -/
def Call.Known (c : Call) : Prop := ∀ a ∈ c.args, a.Known

/-- What the calls of a thread remember about their arguments is right. -/
def Thread.Known (t : Thread) : Prop := ∀ c ∈ t.calls, c.Known

namespace Call

/-- An argument that is read for the first time is remembered rightly. -/
theorem Known.mapArg {c : Call} (h : c.Known) {i : Nat} {f : Argument → Argument}
    (hf : ∀ a, c.args[i]? = some a → a.Known → (f a).Known) : (c.mapArg i f).Known := by
  intro a ha
  obtain ⟨j, hj⟩ := List.getElem?_of_mem ha
  obtain ⟨b, hb, hba⟩ :=
    Option.map_eq_some_iff.mp ((List.getElem?_modify f i c.args j).symm.trans hj)
  have hknown := h b (List.mem_of_getElem? hb)
  split at hba
  · rename_i hij
    subst hij hba
    exact hf b hb hknown
  · exact hba ▸ hknown

theorem arg_of_getElem? {c : Call} {i : Nat} {a : Argument} (h : c.args[i]? = some a) :
    c.arg i = a.raw := by
  unfold arg
  rw [h]
  rfl

section Read

variable {c : Call} (h : c.Known) (i : Nat)

include h

/-- To read an argument as a number is to convert it. -/
theorem Known.numberArg : (c.numberArg i).1 = (c.arg i).toNumber ∧ (c.numberArg i).2.Known := by
  unfold Call.numberArg
  split
  · rename_i n hn
    obtain ⟨a, ha, hn⟩ := Option.bind_eq_some_iff.mp hn
    rw [arg_of_getElem? ha]
    exact ⟨(h a (List.mem_of_getElem? ha)).number n hn, h⟩
  · refine ⟨rfl, h.mapArg fun a ha hknown => ⟨?_, hknown.boolean⟩⟩
    rintro n ⟨⟩
    rw [arg_of_getElem? ha]

/-- To read an argument as a truth value is to convert it. -/
theorem Known.boolArg : (c.boolArg i).1 = (c.arg i).toBool ∧ (c.boolArg i).2.Known := by
  unfold Call.boolArg
  split
  · rename_i b hb
    obtain ⟨a, ha, hb⟩ := Option.bind_eq_some_iff.mp hb
    rw [arg_of_getElem? ha]
    exact ⟨(h a (List.mem_of_getElem? ha)).boolean b hb, h⟩
  · refine ⟨rfl, h.mapArg fun a ha hknown => ⟨hknown.number, ?_⟩⟩
    rintro b ⟨⟩
    rw [arg_of_getElem? ha]

end Read

end Call

namespace Act

/-- What a conversion through the innermost call gives, and that the calls remember it rightly. -/
theorem known_knownIn? {slot : Slot} {e : Expr} {calls calls' : List Call} {v : Value}
    (h : knownIn? slot e calls = some (v, calls')) (hcalls : ∀ c ∈ calls, c.Known) :
    (∃ i c rest, e = .argument i ∧ calls = c :: rest ∧ v = slot.coerce (c.arg i)) ∧
      ∀ c ∈ calls', c.Known := by
  unfold knownIn? at h
  split at h
  · rename_i i c rest
    obtain ⟨hc, hrest⟩ := List.forall_mem_cons.mp hcalls
    obtain ⟨hvalue, hread⟩ := hc.numberArg i
    cases h
    exact ⟨⟨i, c, rest, rfl, rfl, congrArg Value.number hvalue⟩,
      List.forall_mem_cons.mpr ⟨hread, hrest⟩⟩
  · rename_i i c rest
    obtain ⟨hc, hrest⟩ := List.forall_mem_cons.mp hcalls
    obtain ⟨hvalue, hread⟩ := hc.boolArg i
    cases h
    exact ⟨⟨i, c, rest, rfl, rfl, congrArg Value.boolean hvalue⟩,
      List.forall_mem_cons.mpr ⟨hread, hrest⟩⟩
  · cases h

end Act

namespace Thread

theorem Touched.isKnown {t t' : Thread} (h : Touched t t') (ht : t.Known) : t'.Known := by
  cases h with
  | same | registers => exact ht
  | known h => exact (Act.known_knownIn? h ht).2

theorem Known.innermost {t : Thread} (ht : t.Known) {c : Call} {rest : List Call}
    (h : t.calls = c :: rest) : c.Known ∧ ∀ c ∈ rest, c.Known := by
  unfold Known at ht
  rw [h] at ht
  exact List.forall_mem_cons.mp ht

theorem known_withSaveStack {t : Thread} (ht : t.Known) (saved : List Registers) :
    (t.withSaveStack saved).Known := by
  unfold withSaveStack
  split
  · exact ht
  · rename_i c rest hcalls
    obtain ⟨hc, hrest⟩ := ht.innermost hcalls
    exact List.forall_mem_cons.mpr ⟨hc, hrest⟩

theorem known_restore? {t t' : Thread} (h : t.restore? = some t') (ht : t.Known) : t'.Known := by
  obtain ⟨_, _, -, rfl⟩ := Thread.exists_of_restore? h
  exact known_withSaveStack ht _

theorem known_endCall? {t t' : Thread} {l : Label} (h : t.endCall? = some (l, t')) (ht : t.Known) :
    t'.Known := by
  obtain ⟨c, rest, hcalls, rfl, rfl⟩ := Thread.exists_of_endCall? h
  exact (ht.innermost hcalls).2

/-- A procedure that is entered remembers nothing. -/
theorem known_call {t : Thread} (ht : t.Known) (p : ProcId) (resume : Label) (args : List Value)
    (warp : Bool) : (t.call p resume args warp).Known := by
  refine List.forall_mem_cons.mpr ⟨fun a ha => ?_, ht⟩
  obtain ⟨v, -, rfl⟩ := List.mem_map.mp ha
  refine ⟨?_, ?_⟩
  · intro n h
    cases h
  · intro b h
    cases h

end Thread

/-! ## 3. Statements keep it right -/

namespace Act

variable {H : Type}

/-- What was remembered rightly still is. -/
def Knows (t t' : Turn H) : Prop := t.thread.Known → t'.thread.Known

theorem blind_knows : Blind True (Knows (H := H)) where
  refl _ := id
  trans _ _ _ h h' := h' ∘ h
  machine _ _ := id
  known _ _ h := h.isKnown
  registers _ _ _ := id

variable [Host H]

theorem Made.knows {α : Type} {x : Act H α} (h : Made Acting α x) : Keeps Knows x :=
  blind_knows.acting h

/-- **Evaluation remembers conversions rightly**, in whatever order it asks for them. -/
theorem knows_eval (e : Expr) : Keeps Knows (eval (H := H) e) :=
  (made_eval e.frees_true).acting.knows

/-- **So does every statement.** -/
theorem knows_exec (s : Stmt) : Keeps Knows (exec (H := H) s) := by
  by_cases hs : s.isStacking = false
  case pos => exact (made_exec_acting hs).knows
  intro t
  unfold after
  cases s with
  | save => exact fun ht => Thread.known_withSaveStack ht _
  | restore =>
    rw [exec_restore]
    cases h : t.thread.restore? with
    | none => exact id
    | some t' => exact Thread.known_restore? h
  | endCall =>
    rw [exec_endCall]
    cases h : t.thread.endCall? with
    | none => exact id
    | some left => exact Thread.known_endCall? h
  | call p args resume =>
    have hargs : Keeps Knows (args.mapM (eval (H := H))) :=
      (made_evalAll fun e _ => e.frees_true).acting.knows
    rw [exec_call]
    cases t.program.procedure? p with
    | none => exact id
    | some procedure =>
      dsimp only
      cases hvalues : args.mapM eval t with
      | ok values t' => exact fun ht => Thread.known_call (hargs.of_ok hvalues ht) _ _ _ _
      | error fault t' => exact hargs.of_error hvalues
  | _ => exact absurd rfl hs

end Act

/-! ## 4. Kinds that are known -/

namespace Act

variable {H : Type} {P : Value → Prop}

/-- Whatever value the act gives is of this sort. -/
def Gives (P : Value → Prop) (x : Act H Value) : Prop :=
  ∀ (t t' : Turn H) (v : Value), x t = .ok v t' → P v

theorem Gives.pure {v : Value} (h : P v) : Gives P (pure v : Act H Value) := by
  rintro t t' v ⟨⟩
  exact h

theorem Gives.bind {α : Type} {x : Act H α} {f : α → Act H Value} (h : ∀ a, Gives P (f a)) :
    Gives P (x >>= f) := by
  intro t t' v hx
  obtain ⟨a, t₁, -, hf⟩ := bind_eq_ok.mp hx
  exact h a _ _ _ hf

variable [Host H]

/-- An expression whose kind is known without a conversion gives values of that kind. -/
theorem gives_eval {e : Expr} {slot : Slot} (h : Compile.knownSlot e = some slot)
    (hcast : ∀ slot e', e ≠ .cast slot e') :
    Gives (fun v => slot.coerce v = v) (eval (H := H) e) := by
  cases e with
  | cast slot e => exact absurd rfl (hcast slot e)
  | listContents | not =>
    cases h
    exact .bind fun _ => .pure rfl
  | compare | contains | join | letterOf | listContains | keyPressed =>
    cases h
    exact .bind fun _ => .bind fun _ => .pure rfl
  | and =>
    cases h
    refine .bind fun _ => ?_
    split
    · exact .bind fun _ => .pure rfl
    · exact .pure rfl
  | or =>
    cases h
    refine .bind fun _ => ?_
    split
    · exact .pure rfl
    · exact .bind fun _ => .pure rfl
  | touching =>
    cases h
    refine .bind fun _ => .bind fun _ => ?_
    split
    · exact .pure rfl
    · exact .bind fun _ => .pure rfl
  | groupRunning | ticketPending =>
    cases h
    refine .bind fun _ => ?_
    split
    · exact .bind fun _ => .pure rfl
    · exact .pure rfl
  | _ => cases h

end Act

/-! ## 5. Conversions in compiled code -/

/-- The call, which remembers nothing. -/
def Call.forget (c : Call) : Call := { c with args := c.args.map fun a => { raw := a.raw } }

/-- The thread, whose calls remember nothing. -/
def Thread.forget (t : Thread) : Thread := { t with calls := t.calls.map Call.forget }

theorem Call.Kin.forget {c c' : Call} (h : Call.Kin c c') : c'.forget = c.forget := by
  have hargs : c'.args.map (fun a => ({ raw := a.raw } : Argument)) =
      c.args.map fun a => { raw := a.raw } := by
    have hraw := congrArg (List.map fun v => ({ raw := v } : Argument)) h.args
    rw [List.map_map, List.map_map] at hraw
    exact hraw
  unfold Call.forget
  rw [hargs]
  obtain ⟨p, resume, args, warp, caller, saved⟩ := c
  obtain ⟨p', resume', args', warp', caller', saved'⟩ := c'
  cases h.procedure
  cases h.resume
  cases h.warp
  cases h.caller
  cases h.saved
  rfl

theorem Call.Kin.map_forget {cs cs' : List Call} (h : List.Forall₂ Call.Kin cs cs') :
    cs'.map Call.forget = cs.map Call.forget := by
  induction h with
  | nil => rfl
  | cons hc _ ih => rw [List.map_cons, List.map_cons, hc.forget, ih]

namespace Act

variable {H : Type}

/-- What comes of an act but for what calls remember. -/
def forget {α : Type} : EStateM.Result Fault (Turn H) α → EStateM.Result Fault (Turn H) α
  | .ok a t => .ok a { t with thread := t.thread.forget }
  | .error e t => .error e { t with thread := t.thread.forget }

variable [Host H]

/-- Evaluates an expression and converts its value. -/
def coerced (slot : Slot) (e : Expr) : Act H Value := do return slot.coerce (← eval e)

theorem coerced_apply (slot : Slot) (e : Expr) (t : Turn H) :
    coerced slot e t = match eval e t with
      | .ok v t' => .ok (slot.coerce v) t'
      | .error fault t' => .error fault t' := by
  rw [coerced, bind_apply]
  cases eval e t <;> rfl

theorem eval_argument {i : Nat} {t : Turn H} {c : Call} {rest : List Call}
    (h : t.thread.calls = c :: rest) : eval (.argument i) t = .ok (c.arg i) t := by
  simp only [eval, bind_apply, thread_apply, h]
  rfl

/-- **A conversion through what the innermost call remembers** is that of the argument. -/
theorem forget_eval_cast (slot : Slot) (e : Expr) {t : Turn H} (ht : t.thread.Known) :
    forget (eval (.cast slot e) t) = forget (coerced slot e t) := by
  rw [eval, bind_apply, knownCast_apply]
  cases h : knownIn? slot e t.thread.calls with
  | none => rfl
  | some known =>
    -- The expression is an argument, and only what the innermost call knows of it has changed.
    obtain ⟨v, calls⟩ := known
    obtain ⟨⟨i, c, rest, rfl, hcalls, rfl⟩, -⟩ := known_knownIn? h ht
    rw [coerced_apply, eval_argument hcalls]
    have hforget : calls.map Call.forget = t.thread.calls.map Call.forget :=
      Call.Kin.map_forget (kin_knownIn? h).1
    show EStateM.Result.ok _ { t with
      thread := { t.thread with calls := calls.map Call.forget } } = _
    rw [hforget]
    rfl

/-- **A value has the kind that the compiler knows it to have.** -/
theorem coerce_of_knownSlot {e : Expr} {slot : Slot} {t t' : Turn H} {v : Value}
    (ht : t.thread.Known) (hslot : Compile.knownSlot e = some slot) (h : eval e t = .ok v t') :
    slot.coerce v = v := by
  by_cases hcast : ∃ slot e', e = .cast slot e'
  · -- The shape of the value does not show the kind, but it was converted to that kind already.
    obtain ⟨slot', e', rfl⟩ := hcast
    cases hslot
    have hforget := forget_eval_cast slot e' ht
    rw [h, coerced_apply] at hforget
    cases he : eval e' t with
    | ok u t₁ =>
      rw [he] at hforget
      injection hforget with hv
      rw [hv]
      exact slot.coerce_coerce u
    | error fault t₁ =>
      rw [he] at hforget
      cases hforget
  · exact gives_eval hslot (fun slot e' heq => hcast ⟨slot, e', heq⟩) _ _ _ h

/-- **A conversion in compiled code**, whether it is done early, left out or done, is the conversion
    of the value. -/
theorem forget_compiled_cast (slot : Slot) (e : Expr) {t : Turn H} (ht : t.thread.Known) :
    forget (eval (Compile.cast slot e) t) = forget (coerced slot e t) := by
  have hplain (hconst : ∀ v, e ≠ .const v) : Compile.cast slot e =
      if slot = .any ∨ Compile.knownSlot e = some slot then e else .cast slot e := by
    cases e with
    | const v => exact absurd rfl (hconst v)
    | _ => rfl
  by_cases hconst : ∃ v, e = .const v
  · obtain ⟨v, rfl⟩ := hconst
    rfl
  rw [hplain fun v heq => hconst ⟨v, heq⟩]
  split
  · rename_i hleft
    rw [coerced_apply]
    cases he : eval e t with
    | error fault t' => rfl
    | ok v t' =>
      have hv : slot.coerce v = v := by
        rcases hleft with rfl | hslot
        · rfl
        · exact coerce_of_knownSlot ht hslot he
      show forget (.ok v t') = forget (.ok (slot.coerce v) t')
      rw [hv]
  · exact forget_eval_cast slot e ht

end Act

/-! ## 6. Every state -/

/-- In every state, what calls remember is right. -/
def Regime.knowing (H : Type) [Host H] (R : Rules) : Regime H R where
  program _ := True
  thread _ t := t.Known
  start _ _ _ _ := by
    intro c hc
    cases hc
  ready ht _ := ht
  working _ t _ _ := t.Known
  enter _ ht _ := ht
  onward _ ht hexec := (Act.knows_exec _).of_ok hexec ht
  jump _ ht hexec _ := (Act.knows_exec _).of_ok hexec ht
  yield _ ht hexec := (Act.knows_exec _).of_ok hexec ht

namespace World

variable {H : Type}

/-- What calls remember is right, those of the threads that wait and those of the thread at work. -/
structure Known (w : World H) : Prop where
  waiting : ∀ t, .waiting t ∈ w.machine.queue → t.Known
  working : ∀ t, w.turn? = some t → t.thread.Known

theorem Obeys.known [Host H] {R : Rules} {w : World H} (h : w.Obeys (Regime.knowing H R)) :
    w.Known := by
  have hqueue {m : Machine H} (hm : m.Sound (Regime.knowing H R).toInvariant) :
      ∀ t, .waiting t ∈ m.queue → t.Known := by
    intro t ht
    obtain ⟨target, -, hknown⟩ := hm.thread t ht
    exact hknown
  cases w with
  | rest | pass =>
    refine ⟨hqueue (Machine.Settled.sound h), fun t ht => ?_⟩
    cases ht
  | turn =>
    obtain ⟨⟨hm, -⟩, -, hworking⟩ := h
    refine ⟨hqueue hm, ?_⟩
    rintro t ⟨⟩
    exact hworking

end World

/-- **A conversion in compiled code is the conversion of the value**: with the same result, value or
    fault, and the same effects but for what calls remember about their arguments, whatever they
    remember rightly. To convert twice is to convert once; a value has the kind that the compiler
    knows it to have; to read an argument through what the call remembers is to convert it. Whatever
    is evaluated, in whatever order, calls remember rightly, and so they do in every state that a
    machine comes to, also in the middle of a turn. -/
theorem Act.compiled_cast_coerces {H : Type} [Host H] :
    (∀ (slot : Slot) (e : Expr) (t : Turn H), t.thread.Known →
      forget (eval (Compile.cast slot e) t) = forget (coerced slot e t)) ∧
    (∀ (slot : Slot) (v : Value), slot.coerce (slot.coerce v) = slot.coerce v) ∧
    (∀ (e : Expr) (slot : Slot) (t t' : Turn H) (v : Value), t.thread.Known →
      Compile.knownSlot e = some slot → eval e t = .ok v t' → slot.coerce v = v) ∧
    (∀ (c : Call) (i : Nat), c.Known →
      (.number (c.numberArg i).1 = Slot.coerce .number (c.arg i) ∧ (c.numberArg i).2.Known) ∧
      (.boolean (c.boolArg i).1 = Slot.coerce .boolean (c.arg i) ∧ (c.boolArg i).2.Known)) ∧
    (∀ (e : Expr) (t : Turn H), t.thread.Known → (after (eval e) t).thread.Known) ∧
    ∀ {p : Project} {programs : List Program} {o : Options} {host : H} {s : Surroundings}
      {m : Machine H}, Machine.load p programs o host s = .ok m →
        ∀ w, World.Arises m w → w.Known := by
  refine ⟨fun slot e t => forget_compiled_cast slot e, Slot.coerce_coerce,
    fun e slot t t' v => coerce_of_knownSlot, fun c i hc => ?_, knows_eval, ?_⟩
  · obtain ⟨hnumber, hnoted⟩ := hc.numberArg i
    obtain ⟨hbool, hnoted'⟩ := hc.boolArg i
    exact ⟨⟨congrArg Value.number hnumber, hnoted⟩, ⟨congrArg Value.boolean hbool, hnoted'⟩⟩
  · intro p programs o host s m hload w hw
    have hstart : World.Obeys (Regime.knowing H .cut) (.rest m) :=
      Machine.settled_load (fun _ _ => trivial) hload
    exact (hw.obeys hstart).known

/-- The first turn after the green flag inside of a procedure. -/
def Machine.firstInside? {H : Type} [Host H] (m : Machine H) : Option (World H) :=
  (World.rest m.greenFlag.2).seek? .cut
    (fun w => w.turn?.any fun t => !t.thread.calls.isEmpty) 99

/-- The first argument of each call as a text, and what the call remembers about it as a truth
    value. -/
def Turn.recalled {H : Type} (t : Turn H) : List (String × Option Bool) :=
  t.thread.calls.map fun c => ((c.arg 0).toText, c.args.head?.bind (·.boolean))

/-- Inside a procedure, the argument is first read as a truth value and then as a number. -/
theorem Act.counting_cast_coerces :
    ∃ m : Machine Headless, ∃ w : World Headless, ∃ t : Turn Headless,
      Player.loadProject countingProject {} {} .still = .ok m ∧
      World.Arises m w ∧ w.turn? = some t ∧ t.recalled = [("3", none)] ∧
      (after (eval (.cast .boolean (.argument 0))) t).recalled = [("3", some true)] ∧
      forget (eval (Compile.cast .number (.argument 0))
          (after (eval (.cast .boolean (.argument 0))) t)) =
        forget (coerced .number (.argument 0) (after (eval (.cast .boolean (.argument 0))) t)) := by
  have hrun : (((Player.loadProject countingProject {} ({} : Headless)
      .still).toOption.bind Machine.firstInside?).bind World.turn?).map
        (fun t => (t.recalled, (after (eval (.cast .boolean (.argument 0))) t).recalled)) =
      some ([("3", none)], [("3", some true)]) := by
    decide +kernel
  obtain ⟨t, hturn, hrecalled⟩ := Option.map_eq_some_iff.mp hrun
  obtain ⟨w, hinside, hturn⟩ := Option.bind_eq_some_iff.mp hturn
  obtain ⟨m, hm, hinside⟩ := Option.bind_eq_some_iff.mp hinside
  have hload := eq_ok_of_toOption hm
  obtain ⟨programs, -, hprograms⟩ := except_bind_eq_ok.mp hload
  have hreaches : World.Arises m w :=
    .head (.greenFlag m) (World.reaches_seek? hinside).1
  obtain ⟨hcast, -, -, -, hread, hstates⟩ := Act.compiled_cast_coerces (H := Headless)
  have hknown := (hstates hprograms w hreaches).working t hturn
  exact ⟨m, w, t, hload, hreaches, hturn, congrArg Prod.fst hrecalled, congrArg Prod.snd hrecalled,
    hcast .number (.argument 0) _ (hread (.cast .boolean (.argument 0)) t hknown)⟩

end BlockScript
