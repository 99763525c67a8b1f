import BlockScript.Machine.Frame
import BlockScript.Proofs.Statements

/-!
# What acts are made of

Evaluating an expression and executing a statement are long sequences of a few small acts. Here it
is said once which ones, so that a fact about all of them need only be shown of the small ones.

* `Act.Made`: an act that does nothing but acts of a given kind, one after the other;
* `Act.Sensing`: the acts that evaluation is made of (`Act.made_eval`);
* `Act.Working`: the acts that a statement is made of which lets its thread go on with the next one
  whatever happens (`Act.made_exec`).

Both say whether registers are read (`r`), and the latter whether they are written (`w`) and whether
threads or targets may come or go (`d`).
-/

namespace BlockScript

/-! ## 1. Targets of the same kind -/

/-- The same stage, or a sprite that is or is not a clone like the other. -/
inductive Body.Kin : Body → Body → Prop
  | stage (switches : Nat) : Kin (.stage switches) (.stage switches)
  | sprite {a b : Sprite} (h : b.cloneOf = a.cloneOf) : Kin (.sprite a) (.sprite b)

/-- The same target at two times: what never changes while it lives. -/
structure Target.Kin (t t' : Target) : Prop where
  id : t'.id = t.id
  name : t'.name = t.name
  program : t'.program = t.program
  costumes : t'.costumes = t.costumes
  sounds : t'.sounds = t.sounds
  body : Body.Kin t.body t'.body

theorem Body.Kin.refl : (b : Body) → Body.Kin b b
  | .stage n => .stage n
  | .sprite _ => .sprite rfl

namespace Target.Kin

theorem refl (t : Target) : Target.Kin t t := ⟨rfl, rfl, rfl, rfl, rfl, .refl _⟩

/-- A target stays a sprite, and stays the stage. -/
theorem isSome_sprite? {t t' : Target} (h : Target.Kin t t') :
    t'.sprite?.isSome = t.sprite?.isSome := by
  have hb := h.body
  unfold Target.sprite?
  generalize t.body = b at hb ⊢
  generalize t'.body = b' at hb ⊢
  cases hb <;> rfl

theorem isStage {t t' : Target} (h : Target.Kin t t') : t'.isStage = t.isStage := by
  have hs := h.isSome_sprite?
  unfold Target.isStage
  rw [← Option.not_isSome, ← Option.not_isSome, hs]

/-- A target stays a clone, or stays none. -/
theorem isClone {t t' : Target} (h : Target.Kin t t') : t'.isClone = t.isClone := by
  have hb := h.body
  unfold Target.isClone Target.sprite?
  generalize t.body = b at hb ⊢
  generalize t'.body = b' at hb ⊢
  cases hb with
  | stage => rfl
  | sprite h => exact congrArg Option.isSome h

/-- Another sprite in the same place of the same target. -/
theorem mapSprite (t : Target) {f : Sprite → Sprite} (hf : ∀ s, (f s).cloneOf = s.cloneOf) :
    Target.Kin t (t.mapSprite f) := by
  unfold Target.mapSprite
  split
  · rename_i s hs
    refine ⟨rfl, rfl, rfl, rfl, rfl, ?_⟩
    rw [hs]
    exact .sprite (hf s)
  · exact .refl t

theorem setVariable (t : Target) (name : String) (v : Value) :
    Target.Kin t (t.setVariable name v) :=
  ⟨rfl, rfl, rfl, rfl, rfl, .refl _⟩

theorem setItems (t : Target) (name : String) (items : List Value) :
    Target.Kin t (t.setItems name items) :=
  ⟨rfl, rfl, rfl, rfl, rfl, .refl _⟩

theorem setEffect (t : Target) (e : Effect) (x : Float) : Target.Kin t (t.setEffect e x) :=
  ⟨rfl, rfl, rfl, rfl, rfl, .refl _⟩

theorem setVolume (t : Target) (x : Float) : Target.Kin t (t.setVolume x) :=
  ⟨rfl, rfl, rfl, rfl, rfl, .refl _⟩

theorem dress (t : Target) (v : Value) (pick : Nat) : Target.Kin t (t.dress v pick) :=
  ⟨rfl, rfl, rfl, rfl, rfl, .refl _⟩

theorem nextCostume (t : Target) : Target.Kin t t.nextCostume := by
  unfold Target.nextCostume
  split
  · exact .refl t
  · exact ⟨rfl, rfl, rfl, rfl, rfl, .refl _⟩

end Target.Kin

/-- Whether the statement does some work and always lets its thread go on with the next one. To
    move a sprite is a case of its own, for only sprites can. -/
def Stmt.isPlain : Stmt → Bool
  | .setRegister .. | .setVariable .. | .changeVariable .. | .list _ | .looks _ | .sound _
  | .pen _ | .ask _ | .collectAnswer | .resetTimer | .createClone _ | .stopOthers => true
  | _ => false

/-- Whether threads or targets may come or go by the statement. -/
def Stmt.disturbs : Stmt → Bool
  | .broadcast .. | .switchBackdrop .. | .createClone _ | .deleteClone | .stopOthers | .stopAll =>
    true
  | _ => false

/-- The thread without its registers and without the copies of them that it saved last. -/
def Thread.bare (t : Thread) : Thread := { t.withSaveStack [] with registers := {} }

theorem Thread.bare_bare (t : Thread) : t.bare.bare = t.bare := by
  unfold Thread.bare Thread.withSaveStack
  cases t.calls <;> rfl

theorem Thread.target_bare (t : Thread) : t.bare.target = t.target := by
  unfold Thread.bare Thread.withSaveStack
  cases t.calls <;> rfl

/-- A thread that waits for no request has none to forget. -/
theorem Registers.forget_ticket {rs : Registers} (h : rs.ticket = none) :
    { rs with ticket := none } = rs := by
  rw [← h]

/-! ## 2. Acts made of others -/

namespace Act

variable {H : Type}

/-- An act that does acts of a kind, one after the other, and nothing else. -/
inductive Made (S : (α : Type) → Act H α → Prop) : (α : Type) → Act H α → Prop
  | pure {α : Type} (a : α) : Made S α (Pure.pure a)
  | prim {α : Type} {x : Act H α} (h : S α x) : Made S α x
  | bind {α β : Type} {x : Act H α} {f : α → Act H β} (hx : Made S α x)
      (hf : ∀ a, Made S β (f a)) : Made S β (x >>= f)

/-- What is made of a kind is made of any wider kind. -/
theorem Made.mono {S S' : (α : Type) → Act H α → Prop} (hS : ∀ α x, S α x → S' α x) {α : Type}
    {x : Act H α} (h : Made S α x) : Made S' α x := by
  induction h with
  | pure a => exact .pure a
  | prim h => exact .prim (hS _ _ h)
  | bind _ _ hx hf => exact .bind hx hf

theorem Made.ite {S : (α : Type) → Act H α → Prop} {α : Type} {c : Prop} [Decidable c]
    {x y : Act H α} (hx : Made S α x) (hy : Made S α y) : Made S α (if c then x else y) := by
  split
  · exact hx
  · exact hy

/-- The small acts of evaluation. -/
inductive Sensing (r : Prop) : (α : Type) → Act H α → Prop
  | current : Sensing r Target current
  | owner (s : Storage) : Sensing r Target (owner s)
  | machine : Sensing r (Machine H) machine
  | thread (h : r) : Sensing r Thread thread
  /-- What does not depend on registers may always be read from the thread. -/
  | look {α : Type} {x : Act H α} (f : Thread → α) (hf : ∀ t, f t.bare = f t)
      (hx : ∀ t, x t = .ok (f t.thread) t) : Sensing r α x
  | roll {α : Type} (f : Dice → α × Dice) : Sensing r α (roll f)
  | now : Sensing r Float (ask Machine.now)
  | timer : Sensing r Float (ask Machine.timer)
  | moment : Sensing r Moment (ask Machine.moment)
  | askHost {α : Type} (f : H → α × H) : Sensing r α (askHost f)
  | knownCast (slot : Slot) (e : Expr) : Sensing r (Option Value) (knownCast slot e)

/-! ## 3. Evaluation -/

variable {r w d : Prop}

theorem made_randomPlace : Made (Sensing r) Point (randomPlace (H := H)) :=
  .bind (.prim (.roll _)) fun _ => .bind (.prim (.roll _)) fun _ => .pure _

theorem made_items (list : Storage) : Made (Sensing r) (List Value) (items (H := H) list) :=
  .bind (.prim (.owner _)) fun _ => .pure _

theorem made_randomBetween (a b : Value) : Made (Sensing r) Float (randomBetween (H := H) a b) :=
  .ite (.pure _) (.bind (.prim (.roll _)) fun _ => .ite (.pure _) (.pure _))

theorem made_spriteNumber (f : Sprite → Float) : Made (Sensing r) Value (spriteNumber (H := H) f) :=
  .bind (.prim .current) fun _ => .pure _

section Eval

variable [Host H]

theorem made_sense (s : Sensor) : Made (Sensing r) Value (sense (H := H) s) := by
  cases s with
  | timer => exact .bind (.prim .timer) fun _ => .pure _
  | daysSince2000 | current => exact .bind (.prim .moment) fun _ => .pure _
  | x | y | direction | size => exact made_spriteNumber _
  | volume | costumeNumber | costumeName => exact .bind (.prim .current) fun _ => .pure _
  | _ => exact .bind (.prim .machine) fun _ => .pure _

theorem made_propertyOf (name object : String) :
    Made (Sensing r) Value (propertyOf (H := H) name object) := by
  unfold propertyOf
  refine .ite (.bind (.prim .machine) fun _ => .pure _)
    (.ite (.bind made_randomPlace fun _ => .pure _) (.bind (.prim .machine) fun _ => ?_))
  dsimp only
  split
  · exact .pure _
  · exact .pure _

theorem sensing_argument (i : Nat) : Sensing r Value (eval (H := H) (.argument i)) := by
  let f (t : Thread) : Value := (t.calls.head?.map (·.arg i)).getD .empty
  refine .look f (fun t => ?_) fun t => ?_
  · unfold f Thread.bare Thread.withSaveStack
    cases t.calls <;> rfl
  · simp only [eval, bind_apply, thread_apply, f]
    cases t.thread.calls <;> rfl

/-- **Evaluation is made of sensing acts**, and reads registers only where the expression says
    so. -/
theorem made_eval {e : Expr} (h : e.Frees r) : Made (Sensing r) Value (eval (H := H) e) := by
  induction e with
  | const v => exact .pure _
  | «variable» s => exact .bind (.prim (.owner _)) fun _ => .pure _
  | listItem list index ih =>
    exact .bind (ih h) fun _ => .bind (made_items _) fun _ => .bind (.prim (.roll _)) fun _ =>
      .bind (made_items _) fun _ => .pure _
  | listIndexOf list item ih =>
    refine .bind (ih h) fun _ => .bind (made_items _) fun _ => ?_
    split
    · exact .pure _
    · exact .pure _
  | listLength list => exact .bind (made_items _) fun _ => .pure _
  | listContains list item ih =>
    exact .bind (ih h) fun _ => .bind (made_items _) fun _ => .pure _
  | listContents list => exact .bind (made_items _) fun _ => .pure _
  | argument i => exact .prim (sensing_argument i)
  | register r => exact .bind (.prim (.thread h)) fun _ => .pure _
  | now => exact .bind (.prim .now) fun _ => .pure _
  | groupRunning =>
    refine .bind (.prim (.thread h)) fun _ => ?_
    split
    · exact .bind (.prim .machine) fun _ => .pure _
    · exact .pure _
  | ticketPending =>
    refine .bind (.prim (.thread h)) fun _ => ?_
    split
    · exact .bind (.prim (.askHost _)) fun _ => .pure _
    · exact .pure _
  | binary op lhs rhs ihl ihr =>
    exact .bind (ihl h.1) fun _ => .bind (ihr h.2) fun _ => .pure _
  | compare op lhs rhs ihl ihr =>
    exact .bind (ihl h.1) fun _ => .bind (ihr h.2) fun _ => .pure _
  | and lhs rhs ihl ihr =>
    exact .bind (ihl h.1) fun _ => .ite (.bind (ihr h.2) fun _ => .pure _) (.pure _)
  | or lhs rhs ihl ihr =>
    exact .bind (ihl h.1) fun _ => .ite (.pure _) (.bind (ihr h.2) fun _ => .pure _)
  | not e ih | math op arg ih | round e ih | length e ih => exact .bind (ih h) fun _ => .pure _
  | join lhs rhs ihl ihr => exact .bind (ihl h.1) fun _ => .bind (ihr h.2) fun _ => .pure _
  | letterOf index text ihi iht => exact .bind (ihi h.1) fun _ => .bind (iht h.2) fun _ => .pure _
  | contains text needle iht ihn => exact .bind (iht h.1) fun _ => .bind (ihn h.2) fun _ => .pure _
  | random low high ihl ihh =>
    exact .bind (ihl h.1) fun _ => .bind (ihh h.2) fun _ =>
      .bind (made_randomBetween _ _) fun _ => .pure _
  | sense s => exact made_sense s
  | keyPressed key ih => exact .bind (ih h) fun _ => .bind (.prim .machine) fun _ => .pure _
  | touching object ih =>
    refine .bind (ih h) fun _ => .bind (.prim .current) fun _ => ?_
    split
    · exact .pure _
    · exact .bind (.prim .machine) fun _ => .pure _
  | «attribute» name object ih => exact .bind (ih h) fun _ => made_propertyOf _ _
  | cast slot e ih =>
    refine .bind (.prim (.knownCast slot e)) fun _ => ?_
    split
    · exact .pure _
    · exact .bind (ih h) fun _ => .pure _

section Inputs

variable {e : Expr} (h : e.Frees r)

include h

theorem made_evalNumber : Made (Sensing r) Float (evalNumber (H := H) e) :=
  .bind (made_eval h) fun _ => .pure _

theorem made_evalText : Made (Sensing r) String (evalText (H := H) e) :=
  .bind (made_eval h) fun _ => .pure _

theorem made_evalBool : Made (Sensing r) Bool (evalBool (H := H) e) :=
  .bind (made_eval h) fun _ => .pure _

end Inputs

theorem made_evalAll {args : List Expr} (h : ∀ e ∈ args, e.Frees r) :
    Made (Sensing r) (List Value) (args.mapM (eval (H := H))) := by
  induction args with
  | nil =>
    rw [List.mapM_nil]
    exact .pure _
  | cons e rest ih =>
    obtain ⟨he, hrest⟩ := List.forall_mem_cons.mp h
    rw [List.mapM_cons]
    exact .bind (made_eval he) fun _ => .bind (ih hrest) fun _ => .pure _

/-! ## 4. Statements -/

/-- The small acts of statements after which the thread goes on with the next one. -/
inductive Working (r w d : Prop) : (α : Type) → Act H α → Prop
  | sensing {α : Type} {x : Act H α} (h : Sensing r α x) : Working r w d α x
  | modifyCurrent (f : Target → Target) (hf : ∀ t, Target.Kin t (f t)) :
      Working r w d Unit (modifyCurrent f)
  | modifyOwner (s : Storage) (f : Target → Target) (hf : ∀ t, Target.Kin t (f t)) :
      Working r w d Unit (modifyOwner s f)
  | wearCostume (v : Value) : Working r w d Unit (wearCostume v)
  | announce (id : TargetId) : Working r w d Unit (modifyMachine fun m => m.announceCostume id)
  | tellHost (f : H → H) : Working r w d Unit (tellHost f)
  | touchScreen : Working r w d Unit touchScreen
  | answer (a : String) : Working r w d Unit (modifyMachine fun m => { m with answer := a })
  | resetTimer : Working r w d Unit (modifyMachine Machine.resetTimer)
  /-- A thread may always forget which request it waits for. -/
  | registers (f : Registers → Registers) (h : w ∨ f = fun rs => { rs with ticket := none }) :
      Working r w d Unit (modifyThread fun t => { t with registers := f t.registers })
  | createClone (id : TargetId) (h : d) :
      Working r w d (Option TargetId) (ask fun m => m.createClone id)
  | stopOthers (h : d) : Working r w d Unit stopOthers

/-- Those, and the change of a sprite. -/
inductive Moving (r w d : Prop) : (α : Type) → Act H α → Prop
  | working {α : Type} {x : Act H α} (h : Working r w d α x) : Moving r w d α x
  | modifySprite (f : Sprite → Sprite) (hf : ∀ s, (f s).cloneOf = s.cloneOf) :
      Moving r w d Unit (modifySprite f)

/-- What senses only, works. -/
theorem Made.working {α : Type} {x : Act H α} (h : Made (Sensing r) α x) :
    Made (Working r w d) α x :=
  h.mono fun _ _ => .sensing

/-- What works, may be part of a move. -/
theorem Made.moving {α : Type} {x : Act H α} (h : Made (Working r w d) α x) :
    Made (Moving r w d) α x :=
  h.mono fun _ _ => .working

/-- First the thread is asked for something that does not depend on registers. -/
theorem Made.bare {α : Type} {f : Thread → Act H α} (hf : ∀ t, f t.bare = f t)
    (h : ∀ t, Made (Working r w d) α (f t)) : Made (Working r w d) α (thread >>= f) := by
  have heq : (thread >>= f) = ((do return (← thread).bare) >>= f) := by
    funext t
    simp only [bind_apply, thread_apply]
    exact congrFun (hf t.thread).symm t
  rw [heq]
  exact .bind (.prim (.sensing (.look Thread.bare Thread.bare_bare fun _ => rfl))) h

theorem made_current : Made (Working r w d) Target (current (H := H)) := .prim (.sensing .current)

theorem made_modifyCurrent {f : Target → Target} (hf : ∀ t, Target.Kin t (f t)) :
    Made (Working r w d) Unit (modifyCurrent (H := H) f) :=
  .prim (.modifyCurrent f hf)

theorem made_setItems (list : Storage) (f : List Value → List Value) :
    Made (Working r w d) Unit
      (modifyOwner (H := H) list fun t => t.setItems list.name (f (t.items list.name))) :=
  .prim (.modifyOwner list _ fun _ => .setItems _ _ _)

theorem made_itemIndex (n : Nat) (v : Value) :
    Made (Working r w d) ItemIndex (itemIndex (H := H) n v) :=
  .prim (.sensing (.roll _))

theorem made_execList (op : ListOp) (h : ∀ e ∈ op.exprs, e.Frees r) :
    Made (Working r w d) Unit (execList (H := H) op) := by
  cases op with
  | add list item =>
    exact .bind (made_eval (h _ List.mem_cons_self)).working fun v =>
      made_setItems list (· ++ [v])
  | delete list index =>
    exact .bind (made_eval (h _ List.mem_cons_self)).working fun _ =>
      .bind (made_items _).working fun _ =>
        .bind (made_itemIndex _ _) fun i => made_setItems list (Items.delete · i)
  | deleteAll list => exact made_setItems list fun _ => []
  | insert list index item | replace list index item =>
    obtain ⟨hindex, hitem⟩ := List.forall_mem_cons.mp h
    refine .bind (made_eval hindex).working fun _ =>
      .bind (made_eval (hitem _ List.mem_cons_self)).working fun x =>
        .bind (made_items _).working fun _ => .bind (made_itemIndex _ _) fun i => ?_
    split
    · exact .prim (.modifyOwner list _ fun _ => .setItems _ _ _)
    · exact .pure _

theorem made_touchTarget : Made (Working r w d) Unit (touchTarget (H := H)) :=
  .bind made_current fun _ => .ite (.prim .touchScreen) (.pure _)

/-! ### Motion -/

theorem made_placeOf (name : String) : Made (Sensing r) (Option Point) (placeOf (H := H) name) :=
  .ite (.bind (.prim .machine) fun _ => .pure _)
    (.ite (.bind made_randomPlace fun _ => .pure _) (.bind (.prim .machine) fun _ => .pure _))

/-- Only a step of a glide reads registers. -/
theorem made_destination (s : Sprite) (op : MotionOp) (h : ∀ e ∈ op.exprs, e.Frees r)
    (hr : op = .glideStep → r) : Made (Sensing r) (Option Point) (destination (H := H) s op) := by
  cases op with
  | gotoXY x y =>
    obtain ⟨hx, hy⟩ := List.forall_mem_cons.mp h
    exact .bind (made_evalNumber hx) fun _ =>
      .bind (made_evalNumber (hy _ List.mem_cons_self)) fun _ => .pure _
  | gotoTarget name =>
    exact .bind (made_evalText (h _ List.mem_cons_self)) fun _ => made_placeOf _
  | glideStep => exact .bind (.prim (.thread (hr rfl))) fun _ => .bind (.prim .now) fun _ => .pure _
  | move x | setX x | setY x | changeX x | changeY x =>
    exact .bind (made_evalNumber (h _ List.mem_cons_self)) fun _ => .pure _
  | turn | pointIn | pointTowards | bounce | setRotationStyle => exact .pure _

theorem cloneOf_setDirection (s : Sprite) (degrees : Float) :
    (s.setDirection degrees).cloneOf = s.cloneOf := by
  unfold Sprite.setDirection
  split <;> rfl

theorem cloneOf_bounce (s : Sprite) : s.bounce.cloneOf = s.cloneOf := by
  unfold Sprite.bounce
  dsimp only
  split
  · exact cloneOf_setDirection _ _
  · rfl

theorem made_pointing (degrees : Sprite → Float) :
    Made (Moving r w d) Unit (modifySprite (H := H) fun s => s.setDirection (degrees s)) :=
  .prim (.modifySprite _ fun s => cloneOf_setDirection s _)

theorem made_headingTo (s : Sprite) (name : String) :
    Made (Sensing r) (Option Float) (headingTo (H := H) s name) :=
  .ite (.bind (.prim (.roll _)) fun _ => .pure _) (.bind (made_placeOf _) fun _ => .pure _)

theorem made_execTurn (s : Sprite) (op : MotionOp) (h : ∀ e ∈ op.exprs, e.Frees r) :
    Made (Moving r w d) Unit (execTurn (H := H) s op) := by
  cases op with
  | turn degrees | pointIn degrees =>
    exact .bind (made_evalNumber (h _ List.mem_cons_self)).working.moving fun _ => made_pointing _
  | pointTowards name =>
    refine .bind (made_evalText (h _ List.mem_cons_self)).working.moving fun _ =>
      .bind (made_headingTo _ _).working.moving fun _ => ?_
    split
    · exact made_pointing _
    · exact .pure _
  | bounce => exact .prim (.modifySprite _ cloneOf_bounce)
  | setRotationStyle style => exact .prim (.modifySprite _ fun _ => rfl)
  | move | gotoXY | gotoTarget | glideStep | setX | setY | changeX | changeY => exact .pure _

theorem made_drawTrail (start : Point) : Made (Working r w d) Unit (drawTrail (H := H) start) := by
  refine .bind made_current fun _ => ?_
  split
  · exact .pure _
  · exact .ite (.prim (.tellHost _)) (.pure _)

theorem made_moveSprite (s : Sprite) (op : MotionOp) (h : ∀ e ∈ op.exprs, e.Frees r)
    (hr : op = .glideStep → r) : Made (Moving r w d) Unit (moveSprite (H := H) s op) := by
  refine .bind (made_destination _ _ h hr).working.moving fun _ => ?_
  dsimp only
  split
  · exact .bind (.prim (.modifySprite _ fun _ => rfl)) fun _ =>
      .bind (made_drawTrail _).moving fun _ => made_touchTarget.moving
  · exact .bind (made_execTurn _ _ h) fun _ =>
      .bind (made_drawTrail _).moving fun _ => made_touchTarget.moving

/-! ### Looks, sounds, pens -/

theorem made_changeLayer (change : LayerChange) :
    Made (Working r w d) Unit (changeLayer (H := H) change) :=
  .bind made_current fun _ => .ite (.prim (.tellHost _)) (.pure _)

theorem made_execLook (op : LooksOp) (h : ∀ e ∈ op.exprs, e.Frees r) :
    Made (Working r w d) Unit (execLook (H := H) op) := by
  cases op with
  | switchCostume costume =>
    exact .bind (made_eval (h _ List.mem_cons_self)).working fun _ => .prim (.wearCostume _)
  | nextCostume =>
    exact .bind (made_modifyCurrent .nextCostume) fun _ => .bind made_current fun _ =>
      .prim (.announce _)
  | say message think =>
    exact .bind (made_evalText (h _ List.mem_cons_self)).working fun _ =>
      .bind made_current fun _ => .prim (.tellHost _)
  | setSize size | changeSize size =>
    exact .bind (made_evalNumber (h _ List.mem_cons_self)).working fun _ =>
      made_modifyCurrent fun t => .mapSprite t fun _ => rfl
  | setEffect effect value | changeEffect effect value =>
    exact .bind (made_evalNumber (h _ List.mem_cons_self)).working fun _ =>
      made_modifyCurrent fun _ => .setEffect _ _ _
  | clearEffects => exact made_modifyCurrent fun _ => ⟨rfl, rfl, rfl, rfl, rfl, .refl _⟩
  | «show» | hide => exact made_modifyCurrent fun t => .mapSprite t fun _ => rfl
  | goToFront front => exact made_changeLayer _
  | changeLayer layers =>
    exact .bind (made_evalNumber (h _ List.mem_cons_self)).working fun _ =>
      .ite (made_changeLayer _) (.pure _)

theorem made_execLooks (op : LooksOp) (h : ∀ e ∈ op.exprs, e.Frees r) :
    Made (Working r w d) Unit (execLooks (H := H) op) := by
  refine .bind (made_execLook _ h) fun _ => ?_
  split
  · exact .prim .touchScreen
  · exact .prim .touchScreen
  · exact made_touchTarget

theorem made_setTicket (k : Option Ticket) (h : w ∨ k = none) :
    Made (Working r w d) Unit (modifyThread (H := H) fun t => t.setTicket k) := by
  refine .prim (.registers (fun rs => { rs with ticket := k }) (h.imp_right ?_))
  rintro rfl
  rfl

theorem made_startSound {sound : Expr} (h : sound.Frees r) :
    Made (Working r w d) (Option Ticket) (startSound (H := H) sound) := by
  refine .bind (made_eval h).working fun _ => .bind made_current fun _ => ?_
  split
  · exact .bind (made_setTicket _ (.inr rfl)) fun _ => .pure _
  · exact .bind (.prim (.sensing (.askHost _))) fun _ => .pure _

/-- Only a sound that is waited for is remembered. -/
theorem made_execSound (op : SoundOp) (h : ∀ e ∈ op.exprs, e.Frees r)
    (hw : (Stmt.sound op).isLight = true ∨ w) :
    Made (Working r w d) Unit (execSound (H := H) op) := by
  cases op with
  | play sound => exact .bind (made_startSound (h _ List.mem_cons_self)) fun _ => .pure _
  | playUntilDone sound =>
    refine .bind (made_startSound (h _ List.mem_cons_self)) fun _ => ?_
    split
    · exact made_setTicket _ (hw.elim nofun .inl)
    · exact .pure _
  | stopAll => exact .prim (.tellHost _)
  | setVolume volume | changeVolume volume =>
    exact .bind (made_evalNumber (h _ List.mem_cons_self)).working fun _ =>
      made_modifyCurrent fun _ => .setVolume _ _

theorem made_modifyPen (f : Pen → Pen) : Made (Working r w d) Unit (modifyPen (H := H) f) :=
  made_modifyCurrent fun t => .mapSprite t fun _ => rfl

theorem made_resizePen (f : Float → Float) :
    Made (Working r w d) (Option PenCommand) (resizePen (H := H) f) :=
  .bind (made_modifyPen _) fun _ => .bind made_current fun _ => .pure _

theorem made_penCommand (op : PenOp) (h : ∀ e ∈ op.exprs, e.Frees r) :
    Made (Working r w d) (Option PenCommand) (penCommand (H := H) op) := by
  cases op with
  | clear | stamp => exact .pure _
  | down | up => exact .bind (made_modifyPen _) fun _ => .pure _
  | setColor color =>
    exact .bind (made_eval (h _ List.mem_cons_self)).working fun _ =>
      .bind (made_modifyPen _) fun _ => .pure _
  | setSize size | changeSize size =>
    exact .bind (made_evalNumber (h _ List.mem_cons_self)).working fun _ => made_resizePen _

theorem made_execPen (op : PenOp) (h : ∀ e ∈ op.exprs, e.Frees r) :
    Made (Working r w d) Unit (execPen (H := H) op) := by
  refine .bind (made_penCommand _ h) fun _ => ?_
  split
  · exact .pure _
  · exact .bind made_current fun _ => .bind (.prim (.tellHost _)) fun _ => .prim .touchScreen

/-! ### Requests and clones -/

theorem made_execClone (h : d) (of : String) :
    Made (Working r w d) Unit (execClone (H := H) of) := by
  refine .bind (.prim (.sensing .machine)) fun _ => .bare (fun t => ?_) fun _ => ?_
  · rw [t.target_bare]
  · dsimp only
    split
    · exact .bind (.prim (.createClone _ h)) fun _ => .pure _
    · exact .pure _

theorem made_collectAnswer (hr : r) (hw : w) :
    Made (Working r w d) Unit (collectAnswer (H := H)) := by
  refine .bind (.prim (.sensing (.thread hr))) fun _ => ?_
  split
  · exact .pure _
  · refine .bind (made_setTicket _ (.inl hw)) fun _ =>
      .bind (.prim (.sensing (.askHost _))) fun _ => ?_
    split
    · exact .prim (.answer _)
    · exact .pure _

theorem made_execMotion (op : MotionOp) (h : ∀ e ∈ op.exprs, e.Frees r)
    (hr : op = .glideStep → r) : Made (Moving r w d) Unit (execMotion (H := H) op) := by
  refine .bind made_current.moving fun _ => ?_
  split
  · exact .pure _
  · exact made_moveSprite _ _ h hr

/-- **A plain statement works, and then its thread goes on with the next one.** One that does
    without registers reads them only in its expressions. -/
theorem made_exec {s : Stmt} (hs : s.isPlain = true) (he : ∀ e ∈ s.exprs, e.Frees r)
    (hu : s.isLight = true ∨ r ∧ w) (hd : s.disturbs = true → d) :
    ∃ x : Act H Unit, Made (Working r w d) Unit x ∧ exec s = x >>= fun _ => next := by
  cases s with
  | setRegister q e =>
    obtain ⟨-, hw⟩ := hu.resolve_left nofun
    exact ⟨_, .bind (made_evalNumber (he _ List.mem_cons_self)).working fun n =>
      .prim (.registers (fun rs => rs.set q n) (.inl hw)), (bind_assoc ..).symm⟩
  | setVariable v value =>
    exact ⟨_, .bind (made_eval (he _ List.mem_cons_self)).working fun x =>
      .prim (.modifyOwner v (fun t => t.setVariable v.name x) fun _ => .setVariable _ _ _),
      (bind_assoc ..).symm⟩
  | changeVariable v change =>
    exact ⟨_, .bind (made_evalNumber (he _ List.mem_cons_self)).working fun x =>
      .prim (.modifyOwner v
        (fun t => t.setVariable v.name (.number ((t.valueOf v.name).toNumber + x)))
        fun _ => .setVariable _ _ _),
      (bind_assoc ..).symm⟩
  | list op => exact ⟨_, made_execList op he, rfl⟩
  | looks op => exact ⟨_, made_execLooks op he, rfl⟩
  | sound op => exact ⟨_, made_execSound op he (hu.imp_right And.right), rfl⟩
  | pen op => exact ⟨_, made_execPen op he, rfl⟩
  | ask question =>
    obtain ⟨-, hw⟩ := hu.resolve_left nofun
    refine ⟨_, .bind (made_evalText (he _ List.mem_cons_self)).working fun text =>
      .bind (.prim (.sensing (.askHost fun h => Host.ask h text))) fun k =>
        made_setTicket (some k) (.inl hw), ?_⟩
    simp only [exec, bind_assoc]
  | collectAnswer =>
    obtain ⟨hr, hw⟩ := hu.resolve_left nofun
    exact ⟨_, made_collectAnswer hr hw, rfl⟩
  | resetTimer => exact ⟨_, .prim .resetTimer, rfl⟩
  | createClone of =>
    exact ⟨_, .bind (made_evalText (he _ List.mem_cons_self)).working fun name =>
      made_execClone (hd rfl) name, (bind_assoc ..).symm⟩
  | stopOthers => exact ⟨_, .prim (.stopOthers (hd rfl)), rfl⟩
  | _ => exact absurd hs Bool.false_ne_true

/-- A move, whatever it does with registers. -/
theorem made_motion (op : MotionOp) : Made (Moving True True False) Unit (execMotion (H := H) op) :=
  made_execMotion op (fun e _ => e.frees_true) fun _ => trivial

/-- A plain statement, whatever it does with registers. -/
theorem made_exec_plain {s : Stmt} (hs : s.isPlain = true) :
    ∃ x : Act H Unit, Made (Working True True True) Unit x ∧ exec s = x >>= fun _ => next :=
  made_exec hs (fun e _ => e.frees_true) (.inr ⟨trivial, trivial⟩) fun _ => trivial

end Eval

end Act

end BlockScript
