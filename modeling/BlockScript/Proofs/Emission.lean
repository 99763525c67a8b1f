import BlockScript.Compile.Target
import BlockScript.Proofs.Grammar

/-!
# What blocks are compiled to

A block whose inputs are compiled to expressions that fit into the script, and whose stacks to code
of the grammar, is compiled to such an expression or to such code itself.

* `Yields`, `Gives`: a computation gives what is right, or fails as it may;
* `Context.Proper`: what a context says about the script at hand is true;
* `Reporter.yields_compile`: reporters;
* `Command.gives_compile`: statement blocks, whatever their opcode.

Which faults there may be is left open here.
-/

namespace BlockScript.Compile

open Script (Emitted)

variable {E : Error → Prop} {α β : Type}

/-! ## 1. Computations that may fail -/

/-- The computation gives something right, or fails as it may. -/
inductive Yields (E : Error → Prop) (P : α → Prop) : Except Error α → Prop
  | ok {a : α} (h : P a) : Yields E P (.ok a)
  | error {e : Error} (h : E e) : Yields E P (.error e)

theorem Yields.bind {P : α → Prop} {Q : β → Prop} {x : Except Error α} {f : α → Except Error β}
    (hx : Yields E P x) (hf : ∀ a, P a → Yields E Q (f a)) : Yields E Q (x >>= f) := by
  cases hx with
  | ok h => exact hf _ h
  | error h => exact .error h

theorem Yields.mono {P Q : α → Prop} (h : ∀ a, P a → Q a) {x : Except Error α}
    (hx : Yields E P x) : Yields E Q x := by
  cases hx with
  | ok ha => exact .ok (h _ ha)
  | error he => exact .error he

/-- The computation takes labels from a number on, and gives something right up to the label at
    which it stops, or fails as it may. -/
def Gives (E : Error → Prop) (n : Nat) (Q : α → Nat → Prop) (x : Fresh α) : Prop :=
  Yields E (fun r => Q r.1 r.2) (x n)

theorem Gives.pure {n : Nat} {Q : α → Nat → Prop} {a : α} (h : Q a n) :
    Gives E n Q (pure a : Fresh α) :=
  .ok h

theorem Gives.bind {n : Nat} {P : α → Nat → Prop} {Q : β → Nat → Prop} {x : Fresh α}
    {f : α → Fresh β} (hx : Gives E n P x) (hf : ∀ a m, P a m → Gives E m Q (f a)) :
    Gives E n Q (x >>= f) := by
  show Yields E _ ((x n) >>= fun r => f r.1 r.2)
  exact Yields.bind hx fun r hr => hf r.1 r.2 hr

/-- What takes no labels at all. -/
theorem Gives.lifted {n : Nat} {P : α → Prop} {Q : α → Nat → Prop} {x : Except Error α}
    (hx : Yields E P x) (h : ∀ a, P a → Q a n) : Gives E n Q (liftM x : Fresh α) := by
  show Yields E _ (x >>= fun a => Except.ok (a, n))
  exact hx.bind fun a ha => .ok (h a ha)

theorem Gives.lift {n : Nat} {P : α → Prop} {Q : β → Nat → Prop} {x : Except Error α}
    {f : α → Fresh β} (hx : Yields E P x) (hf : ∀ a, P a → Gives E n Q (f a)) :
    Gives E n Q (liftM x >>= f) := by
  refine .bind (.lifted (Q := fun a m => P a ∧ m = n) hx fun a ha => ⟨ha, rfl⟩) ?_
  rintro a m ⟨ha, rfl⟩
  exact hf a ha

/-- The next label. -/
theorem Gives.fresh {n : Nat} {Q : β → Nat → Prop} {f : Label → Fresh β}
    (hf : Gives E (n + 1) Q (f n)) : Gives E n Q (freshLabel >>= f) := hf

/-- One computation after the other: `R` says what a list of them gives, from one label up to
    another. -/
theorem Gives.mapM {ι : Type} {f : ι → Fresh α} {R : List ι → Nat → List α → Nat → Prop}
    (hnil : ∀ n, R [] n [] n) {l : List ι}
    (hcons : ∀ i ∈ l, ∀ is n,
      Gives E n (fun a m => ∀ as k, R is m as k → R (i :: is) n (a :: as) k) (f i)) (n : Nat) :
    Gives E n (R l n) (l.mapM f) := by
  induction l generalizing n with
  | nil => exact .pure (hnil n)
  | cons i is ih =>
    rw [List.mapM_cons]
    refine .bind (hcons i List.mem_cons_self is n) fun a m ha => ?_
    refine .bind (ih (fun j hj => hcons j (List.mem_cons_of_mem _ hj)) m) fun as k has => ?_
    exact .pure (ha as k has)

theorem of_some {P : α → Prop} {a : α} (h : P a) : ∀ b, some a = some b → P b :=
  fun _ hb => Option.some.inj hb ▸ h

theorem of_none {P : α → Prop} : ∀ b, none = some b → P b := fun _ hb => nomatch hb

/-- What holds of both of two choices holds of the one that is made. -/
theorem orElse_of_forall {P : α → Prop} {x y : Option α} (hx : ∀ a, x = some a → P a)
    (hy : ∀ a, y = some a → P a) : ∀ a, (x <|> y) = some a → P a := by
  cases x with
  | none => exact hy
  | some a => exact hx

theorem getD_of_forall {P : α → Prop} {x : Option α} {a : α} (ha : P a)
    (hx : ∀ a, x = some a → P a) : P (x.getD a) := by
  cases x with
  | none => exact ha
  | some b => exact hx b rfl

/-! ## 2. Contexts -/

/-- The procedure that the script at hand defines. -/
def Context.own (c : Context) : Option Procedure := c.procedure.bind (c.procedures[·]?)

/-- What the context says about the script at hand is true. -/
structure Context.Proper (c : Context) : Prop where
  isSome_own : c.own.isSome = c.procedure.isSome
  params : c.scope.params.length = Procedure.arity c.own
  warp : c.warp = true → ∃ q, c.own = some q ∧ q.warp = true
  named : ∀ code id, c.procedureNamed? code = some id → ∃ q, c.procedures[id]? = some q

/-- The expression reads no register, and no argument that the script does not have. -/
abbrev Context.Allows (c : Context) (e : Expr) : Prop := e.Supplied (Procedure.arity c.own)

/-- The inputs of the site are compiled to expressions of the script. -/
structure Site.Sound (E : Error → Prop) (s : Site) : Prop where
  proper : s.context.Proper
  input : ∀ name slot, Yields E s.context.Allows (s.input name slot)

namespace Site.Sound

variable {s : Site} (hs : s.Sound E)

include hs

theorem number (name : String) : Yields E s.context.Allows (s.number name) := hs.input _ _

theorem text (name : String) : Yields E s.context.Allows (s.text name) := hs.input _ _

theorem boolean (name : String) : Yields E s.context.Allows (s.boolean name) := hs.input _ _

theorem any (name : String) : Yields E s.context.Allows (s.any name) := hs.input _ _

theorem asset (name : String) (names : List String) :
    Yields E s.context.Allows (s.asset name names) := by
  refine (hs.any name).bind fun e he => ?_
  split
  · split
    · exact .ok True.intro
    · exact .ok he
  · exact .ok he

/-- The position of a parameter is one of those that there are. -/
theorem argument {name : String} {i : Nat} (h : s.context.scope.argument? name = some i) :
    s.context.Allows (.argument i) := by
  have hi : i < s.context.scope.params.length := by
    obtain ⟨hlt, -⟩ := List.findIdx?_eq_some_iff_getElem.mp h
    exact hlt
  rw [hs.proper.params] at hi
  exact hi

end Site.Sound

/-! ## 3. Reporters -/

namespace Reporter

/-- One input under an operator. -/
theorem yields_one {P : Expr → Prop} {x : Except Error Expr} (hx : Yields E P x) {f : Expr → Expr}
    (hf : ∀ a, P a → P (f a)) : Yields E P (do return f (← x)) :=
  hx.bind fun a ha => .ok (hf a ha)

/-- Two inputs under an operator. -/
theorem yields_two {P : Expr → Prop} {x y : Except Error Expr} (hx : Yields E P x)
    (hy : Yields E P y) {f : Expr → Expr → Expr} (hf : ∀ a b, P a → P b → P (f a b)) :
    Yields E P (do return f (← x) (← y)) :=
  hx.bind fun a ha => hy.bind fun b hb => .ok (hf a b ha hb)

variable {s : Site} (hs : s.Sound E)

include hs

theorem yields_operator (opcode : String) :
    ∀ x, operator? s opcode = some x → Yields E s.context.Allows x := by
  unfold operator?
  split
  case h_1 | h_2 | h_3 | h_4 | h_5 =>
    exact of_some (yields_two (hs.number _) (hs.number _) fun _ _ => And.intro)
  case h_6 | h_7 | h_8 | h_12 =>
    exact of_some (yields_two (hs.any _) (hs.any _) fun _ _ => And.intro)
  case h_9 | h_10 =>
    exact of_some (yields_two (hs.boolean _) (hs.boolean _) fun _ _ => And.intro)
  case h_11 => exact of_some (yields_one (hs.boolean _) fun _ => id)
  case h_13 | h_16 => exact of_some (yields_two (hs.text _) (hs.text _) fun _ _ => And.intro)
  case h_14 => exact of_some (yields_two (hs.number _) (hs.text _) fun _ _ => And.intro)
  case h_15 => exact of_some (yields_one (hs.text _) fun _ => id)
  case h_17 => exact of_some (yields_one (hs.number _) fun _ => id)
  case h_18 =>
    refine of_some ((hs.number _).bind fun a ha => ?_)
    split
    · exact .ok ha
    · exact .ok True.intro
  case h_19 => exact of_none

theorem yields_data (opcode : String) :
    ∀ x, data? s opcode = some x → Yields E s.context.Allows x := by
  unfold data?
  split
  case h_1 | h_2 | h_5 => exact of_some (.ok True.intro)
  case h_3 | h_4 | h_6 => exact of_some (yields_one (hs.any _) fun _ => id)
  case h_7 | h_8 =>
    -- the name of no parameter stands for a constant
    refine of_some ?_
    split
    · rename_i hi
      exact .ok (hs.argument hi)
    · exact .ok True.intro
  case h_9 => exact of_none

theorem yields_sensing (opcode : String) :
    ∀ x, sensing? s opcode = some x → Yields E s.context.Allows x := by
  unfold sensing?
  split
  case h_1 =>
    refine of_some ?_
    split <;> exact .ok True.intro
  case h_2 | h_3 | h_4 => exact of_some (yields_one (hs.text _) fun _ => id)
  case h_5 =>
    intro x h
    obtain ⟨sensor, -, rfl⟩ := Option.map_eq_some_iff.mp h
    exact .ok True.intro

/-- **A reporter is compiled to an expression of the script.** -/
theorem yields_compile : Yields E s.context.Allows (compile s) := by
  unfold compile
  refine getD_of_forall (.ok True.intro) ?_
  exact orElse_of_forall (yields_operator hs _)
    (orElse_of_forall (yields_data hs _) (yields_sensing hs _))

end Reporter

theorem Context.allows_cast {c : Context} {e : Expr} (h : c.Allows e) (slot : Slot) :
    c.Allows (cast slot e) := by
  unfold cast
  split
  · exact True.intro
  · split
    · exact h
    · exact h

theorem Context.allows_negate {c : Context} {e : Expr} (h : c.Allows e) : c.Allows (negate e) := by
  unfold negate
  split
  · exact True.intro
  · exact ⟨True.intro, h⟩

/-! ## 4. Statement blocks -/

namespace Command

/-- The computation gives code of the script at hand, from whatever label on. -/
def Emits (E : Error → Prop) (c : Context) (x : Fresh (List Stmt)) : Prop :=
  ∀ n, Gives E n (Emitted c.procedures c.own n) x

/-- The inputs of the block are compiled to expressions of the script, its stacks to code of it. -/
structure Sound (E : Error → Prop) (s : Command) : Prop extends s.toSite.Sound E where
  substack : ∀ slot, Emits E s.context (s.substack slot)

/-- A loop, native where it can be. -/
def lower (s : Command) (loop : Loop) (body : List Stmt) : Fresh (List Stmt) := do
  if s.native body then return [loop.native body]
  return loop.yielding (← freshLabel) body

section Shapes

variable {c : Context}

/-- The statement names nothing but what its expressions name, and those are of the script. -/
def Plain (c : Context) (s : Stmt) : Prop := s.isLight = true ∧ ∀ e ∈ s.exprs, c.Allows e

theorem Plain.emitted {s : Stmt} (h : Plain c s) (n : Nat) :
    Emitted c.procedures c.own n [s] n :=
  .light h.1 h.2

theorem plain_zero {s : Stmt} (hs : s.isLight = true) (he : s.exprs = []) : Plain c s :=
  ⟨hs, fun _ h => absurd h (he ▸ List.not_mem_nil)⟩

theorem plain_one {s : Stmt} {a : Expr} (hs : s.isLight = true) (he : s.exprs = [a])
    (ha : c.Allows a) : Plain c s :=
  ⟨hs, fun _ h => List.mem_singleton.mp (he ▸ h) ▸ ha⟩

theorem plain_two {s : Stmt} {a b : Expr} (hs : s.isLight = true) (he : s.exprs = [a, b])
    (ha : c.Allows a) (hb : c.Allows b) : Plain c s := by
  refine ⟨hs, fun e h => ?_⟩
  rw [he] at h
  rcases List.mem_cons.mp h with rfl | h
  · exact ha
  · exact List.mem_singleton.mp h ▸ hb

theorem emits_nil : Emits E c (return []) := fun n => Gives.pure (.nil n)

theorem emits_zero {s : Stmt} (h : Plain c s) : Emits E c (return [s]) :=
  fun n => Gives.pure (h.emitted n)

theorem emits_one {x : Except Error Expr} (hx : Yields E c.Allows x) {f : Expr → Stmt}
    (hf : ∀ e, c.Allows e → Plain c (f e)) : Emits E c (do return [f (← x)]) :=
  fun n => .lift hx fun e he => .pure ((hf e he).emitted n)

theorem emits_two {x y : Except Error Expr} (hx : Yields E c.Allows x) (hy : Yields E c.Allows y)
    {f : Expr → Expr → Stmt} (hf : ∀ a b, c.Allows a → c.Allows b → Plain c (f a b)) :
    Emits E c (do return [f (← x) (← y)]) :=
  fun n => .lift hx fun a ha => .lift hy fun b hb => .pure ((hf a b ha hb).emitted n)

end Shapes

variable {s : Command} (hs : s.Sound E)

include hs

theorem emits_motion (opcode : String) :
    ∀ x, s.motion? opcode = some x → Emits E s.context x := by
  unfold motion?
  split
  case h_1 | h_2 | h_8 | h_10 | h_11 | h_12 | h_13 =>
    exact of_some (emits_one (hs.number _) fun _ he => plain_one rfl rfl he)
  case h_3 =>
    exact of_some (emits_one (hs.number _) fun _ he =>
      plain_one rfl rfl (Context.allows_negate he))
  case h_4 | h_9 => exact of_some (emits_one (hs.text _) fun _ he => plain_one rfl rfl he)
  case h_5 =>
    exact of_some (emits_two (hs.number _) (hs.number _) fun _ _ ha hb => plain_two rfl rfl ha hb)
  case h_6 =>
    refine of_some fun n => .lift (hs.number _) fun secs hsecs => .lift (hs.number _) fun x hx =>
      .lift (hs.number _) fun y hy => .fresh (.pure ?_)
    exact .glide hsecs hx hy
  case h_7 =>
    refine of_some fun n => .lift (hs.number _) fun secs hsecs =>
      .lift (hs.text _) fun target ht => .fresh (.pure ?_)
    exact .glide hsecs ht ht
  case h_14 => exact of_some (emits_zero (plain_zero rfl rfl))
  case h_15 =>
    refine of_some ?_
    split
    · exact emits_zero (plain_zero rfl rfl)
    · exact emits_nil
  case h_16 => exact of_none

theorem emits_speechFor (think : Bool) : Emits E s.context (s.speechFor think) := by
  intro n
  refine .lift (hs.any _) fun message hm => .lift (hs.number _) fun secs hsecs =>
    .fresh (.pure ?_)
  have hsay (e : Expr) (he : s.context.Allows e) (m : Nat) :
      Emitted s.context.procedures s.context.own m [.looks (.say e think)] m :=
    (plain_one rfl rfl he).emitted m
  exact ((hsay message hm n).append (.timedWait hsecs)).append (hsay (.text "") trivial _)

theorem emits_effect (input : String) (op : Effect → Expr → LooksOp)
    (hop : ∀ e a, (op e a).exprs = [a]) : Emits E s.context (s.effect input op) := by
  unfold effect
  split
  · exact emits_one (hs.number _) fun a ha => plain_one rfl (hop _ a) ha
  · exact emits_nil

theorem emits_looks (opcode : String) :
    ∀ x, s.looks? opcode = some x → Emits E s.context x := by
  unfold looks?
  split
  case h_1 | h_2 => exact of_some (emits_one (hs.any _) fun _ he => plain_one rfl rfl he)
  case h_3 | h_4 => exact of_some (emits_speechFor hs _)
  case h_5 | h_7 => exact of_some (emits_one (hs.asset _ _) fun _ he => plain_one rfl rfl he)
  case h_8 =>
    refine of_some fun n => .lift (hs.asset _ _) fun backdrop hb => .fresh (.pure ?_)
    exact .request (.switchBackdrop _) (List.forall_mem_singleton.mpr hb)
  case h_10 | h_11 => exact of_some (emits_one (hs.number _) fun _ he => plain_one rfl rfl he)
  case h_12 | h_13 => exact of_some (emits_effect hs _ _ fun _ _ => rfl)
  case h_9 => exact of_some (emits_zero (plain_one rfl rfl trivial))
  case h_6 | h_14 | h_15 | h_16 | h_17 => exact of_some (emits_zero (plain_zero rfl rfl))
  case h_18 =>
    refine of_some (emits_one (hs.number _) fun e he => plain_one rfl rfl ?_)
    split
    · exact Context.allows_negate he
    · exact he
  case h_19 => exact of_none

theorem emits_sound (opcode : String) :
    ∀ x, s.sound? opcode = some x → Emits E s.context x := by
  unfold sound?
  split
  case h_1 => exact of_some (emits_one (hs.asset _ _) fun _ he => plain_one rfl rfl he)
  case h_2 =>
    refine of_some fun n => .lift (hs.asset _ _) fun sound hsound => .fresh (.pure ?_)
    exact .request (.sound _) (List.forall_mem_singleton.mpr hsound)
  case h_3 => exact of_some (emits_zero (plain_zero rfl rfl))
  case h_4 | h_5 => exact of_some (emits_one (hs.number _) fun _ he => plain_one rfl rfl he)
  case h_6 => exact of_none

/-- Leaving a procedure ends the script, and so does ending it. -/
theorem emits_stop : Emits E s.context s.stop := by
  unfold stop
  split
  · exact fun n => .pure (((plain_zero rfl rfl).emitted n).append (.return n))
  · refine fun n => .pure ?_
    split
    · rename_i hproc
      have hend : Emitted s.context.procedures s.context.own n [.endCall] n :=
        .endCall (hs.proper.isSome_own.trans hproc) n
      exact hend.append (.return n)
    · exact .return n
  · exact emits_zero (plain_zero rfl rfl)
  · exact emits_zero (plain_zero rfl rfl)
  · exact emits_nil

/-- A loop is native only where the script may have native loops, and around no label. -/
theorem of_native {body : List Stmt} (h : s.native body = true) :
    (∃ q, s.context.own = some q ∧ q.warp = true) ∧ Stmt.anyLabel body = false := by
  obtain ⟨hwarp, hlabel⟩ := Bool.and_eq_true_iff.mp h
  exact ⟨hs.proper.warp hwarp, by simpa using hlabel⟩

/-- A loop is native where it can be, and yields elsewhere. -/
theorem gives_loop {n m : Nat} (loop : Loop) {body : List Stmt}
    (hloop : ∀ e ∈ loop.exprs, s.context.Allows e)
    (hbody : Emitted s.context.procedures s.context.own n body m) :
    Gives E m (Emitted s.context.procedures s.context.own n) (s.lower loop body) := by
  unfold lower
  split
  · rename_i hnative
    obtain ⟨hwarp, hnone⟩ := of_native hs hnative
    exact .pure (.native loop hloop hwarp hnone hbody)
  · exact .fresh (.pure (.yielding loop hloop hbody))

theorem emits_control (opcode : String) :
    ∀ x, s.control? opcode = some x → Emits E s.context x := by
  unfold control?
  split
  case h_1 | h_12 => exact of_some (emits_one (hs.text _) fun _ he => plain_one rfl rfl he)
  case h_2 =>
    refine of_some fun n => .lift (hs.text _) fun message hm => .fresh (.pure ?_)
    exact .request (.broadcast _) (List.forall_mem_singleton.mpr hm)
  case h_3 =>
    exact of_some fun n => .lift (hs.number _) fun duration hd =>
      .fresh (.pure (.timedWait hd))
  case h_4 =>
    exact of_some fun n => .lift (hs.number _) fun times ht =>
      .bind (hs.substack _ n) fun body m hbody =>
        gives_loop hs (.counted times) (List.forall_mem_singleton.mpr ht) hbody
  case h_5 =>
    exact of_some fun n => .bind (hs.substack _ n) fun body m hbody =>
      gives_loop hs .endless nofun hbody
  case h_6 =>
    exact of_some fun n => .lift (hs.boolean _) fun cond hc =>
      .bind (hs.substack _ n) fun yes m hyes => .pure (.branch hc hyes (.nil m))
  case h_7 =>
    exact of_some fun n => .lift (hs.boolean _) fun cond hc =>
      .bind (hs.substack _ n) fun yes m hyes =>
        .bind (hs.substack _ m) fun no k hno => .pure (.branch hc hyes hno)
  case h_8 =>
    exact of_some fun n => .lift (hs.boolean _) fun cond hc => .fresh (.pure (.poll hc))
  case h_9 =>
    exact of_some fun n => .lift (hs.boolean _) fun cond hc =>
      .bind (hs.substack _ n) fun body m hbody =>
        gives_loop hs (.conditional (.not cond)) (List.forall_mem_singleton.mpr hc) hbody
  case h_10 =>
    exact of_some fun n => .lift (hs.boolean _) fun cond hc =>
      .bind (hs.substack _ n) fun body m hbody =>
        gives_loop hs (.conditional cond) (List.forall_mem_singleton.mpr hc) hbody
  case h_11 => exact of_some (emits_stop hs)
  case h_13 | h_15 => exact of_some (emits_zero (plain_zero rfl rfl))
  case h_14 =>
    refine of_some fun n => .lift (hs.text _) fun question hq => .fresh (.pure ?_)
    exact .request (.question _) (List.forall_mem_singleton.mpr hq)
  case h_16 => exact of_none

theorem emits_data (opcode : String) :
    ∀ x, s.data? opcode = some x → Emits E s.context x := by
  unfold data?
  split
  case h_1 | h_3 | h_4 => exact of_some (emits_one (hs.any _) fun _ he => plain_one rfl rfl he)
  case h_2 => exact of_some (emits_one (hs.number _) fun _ he => plain_one rfl rfl he)
  case h_5 => exact of_some (emits_zero (plain_zero rfl rfl))
  case h_6 | h_7 =>
    exact of_some (emits_two (hs.any _) (hs.any _) fun _ _ ha hb => plain_two rfl rfl ha hb)
  case h_8 => exact of_none

theorem emits_pen (opcode : String) :
    ∀ x, s.pen? opcode = some x → Emits E s.context x := by
  unfold pen?
  split
  case h_1 | h_2 | h_3 | h_4 => exact of_some (emits_zero (plain_zero rfl rfl))
  case h_5 => exact of_some (emits_one (hs.input _ _) fun _ he => plain_one rfl rfl he)
  case h_6 | h_7 => exact of_some (emits_one (hs.number _) fun _ he => plain_one rfl rfl he)
  case h_8 => exact of_none

/-- As many arguments as positions, and no label is taken for them. -/
theorem gives_args (names : List String) (positions : List Nat) (n : Nat) :
    Gives E n (fun args m =>
        (args.length = positions.length ∧ ∀ e ∈ args, s.context.Allows e) ∧ m = n)
      (positions.mapM fun position =>
        match names[position]? with
        | some name => (s.any name : Fresh Expr)
        | none => pure (.const .empty)) := by
  refine Gives.mapM (R := fun is n as m =>
    (as.length = is.length ∧ ∀ e ∈ as, s.context.Allows e) ∧ m = n) ?_ (fun i _ is n => ?_) n
  · exact fun n => ⟨⟨rfl, fun _ h => absurd h List.not_mem_nil⟩, rfl⟩
  · have hcons (a : Expr) (ha : s.context.Allows a) (as : List Expr) (k : Nat)
        (h : (as.length = is.length ∧ ∀ e ∈ as, s.context.Allows e) ∧ k = n) :
        ((a :: as).length = (i :: is).length ∧ ∀ e ∈ a :: as, s.context.Allows e) ∧ k = n :=
      ⟨⟨congrArg (· + 1) h.1.1, List.forall_mem_cons.mpr ⟨ha, h.1.2⟩⟩, h.2⟩
    split
    · exact .lifted (hs.any _) hcons
    · exact .pure (hcons _ trivial)

theorem emits_call : Emits E s.context s.call := by
  unfold call
  dsimp only
  split
  · exact emits_nil
  · rename_i id hid
    obtain ⟨q, hq⟩ := hs.proper.named _ _ hid
    rw [hq]
    refine fun n => .bind (gives_args hs _ _ n) ?_
    rintro args m ⟨⟨hlen, hargs⟩, rfl⟩
    rw [List.length_range] at hlen
    exact .fresh (.pure (.call hq hlen hargs))

/-- **A statement block is compiled to code of the script**, whatever its opcode. -/
theorem emits_compile : Emits E s.context s.compile := by
  unfold compile compile?
  dsimp only
  split
  · exact emits_call hs
  · refine getD_of_forall emits_nil ?_
    exact orElse_of_forall (emits_motion hs _) (orElse_of_forall (emits_looks hs _)
      (orElse_of_forall (emits_sound hs _) (orElse_of_forall (emits_control hs _)
        (orElse_of_forall (emits_data hs _) (emits_pen hs _)))))

end Command

end BlockScript.Compile
