import BlockScript.Machine.Events
import BlockScript.Value.Items

/-!
# Turns

A turn is a thread at work: the machine, the thread that has left its seat, and the program of its
target. Actions read and change a turn; a fault ends the turn and keeps what was done before it.
-/

namespace BlockScript

/-- A thread at work. -/
structure Turn (H : Type) where
  machine : Machine H
  thread : Thread
  /-- The seat that the thread has left. -/
  seat : Nat
  program : Program

/-- What a thread at work does. -/
abbrev Act (H : Type) := EStateM Fault (Turn H)

namespace Act

variable {H : Type}

/-- Ends the turn. -/
def fail {α : Type} (e : RuntimeError) : Act H α := throw (.runtime e)

/-! ## 1. Parts of the turn -/

/-- The machine. -/
def machine : Act H (Machine H) := do return (← get).machine

/-- The thread. -/
def thread : Act H Thread := do return (← get).thread

/-- Changes the machine. -/
def modifyMachine (f : Machine H → Machine H) : Act H Unit :=
  modify fun t => { t with machine := f t.machine }

/-- Changes the thread. -/
def modifyThread (f : Thread → Thread) : Act H Unit :=
  modify fun t => { t with thread := f t.thread }

/-- Asks the machine for something, which may change it. -/
def ask {α : Type} (f : Machine H → α × Machine H) : Act H α := do
  let (a, m) := f (← get).machine
  modify fun t => { t with machine := m }
  return a

/-- Notes that something changed on the screen. -/
def touchScreen : Act H Unit := modifyMachine fun m => { m with visual := true }

/-! ## 2. Targets -/

/-- The target of the thread. -/
def current : Act H Target := do
  let t ← get
  match t.machine.target? t.thread.target with
  | some target => return target
  | none => fail (.targetGone t.thread.target)

/-- Changes the target of the thread. -/
def modifyCurrent (f : Target → Target) : Act H Unit := do
  let target ← current
  modifyMachine fun m => m.mapTarget target.id f

/-- The owner of a variable or list. -/
def owner (s : Storage) : Act H Target :=
  match s.owner with
  | .target => current
  | .stage => do
    match (← machine).stage? with
    | some stage => return stage
    | none => fail .stageMissing

/-- Changes the owner of a variable or list. -/
def modifyOwner (s : Storage) (f : Target → Target) : Act H Unit := do
  let target ← owner s
  modifyMachine fun m => m.mapTarget target.id f

/-- The sprite of the thread. -/
def sprite : Act H Sprite := do
  match (← current).sprite? with
  | some s => return s
  | none => fail .spriteOnly

/-- Notes that something changed on the screen, if the target shows. -/
def touchTarget : Act H Unit := do
  if (← current).isVisible then touchScreen

/-! ## 3. Chance and the host -/

/-- Rolls the dice. -/
def roll {α : Type} (f : Dice → α × Dice) : Act H α := ask fun m => m.roll f

/-- A place on the stage by chance. -/
def randomPlace : Act H Point := do
  let x ← roll Dice.unit
  let y ← roll Dice.unit
  return ⟨Number.round (stageHalfWidth * 2.0 * (x - 0.5)),
    Number.round (stageHalfHeight * 2.0 * (y - 0.5))⟩

/-- What a value means as an index into a list of a length. -/
def itemIndex (length : Nat) (v : Value) : Act H ItemIndex := roll fun d => ItemIndex.of length v d

/-- Tells the host something. -/
def tellHost (f : H → H) : Act H Unit := modifyMachine fun m => { m with host := f m.host }

/-- Asks the host for something. -/
def askHost {α : Type} (f : H → α × H) : Act H α :=
  ask fun m => ((f m.host).1, { m with host := (f m.host).2 })

variable [Host H]

/-- Where something named is: the mouse, a place by chance, or a sprite. -/
def placeOf (name : String) : Act H (Option Point) := do
  if name = "_mouse_" then return some (Host.mouse (← machine).host)
  if name = "_random_" then return some (← randomPlace)
  return ((← machine).find? name).bind fun t => t.sprite?.map Sprite.place

end Act

/-! ## 4. What the small acts do -/

namespace Act

variable {H α β : Type}

theorem bind_apply (x : Act H α) (f : α → Act H β) (t : Turn H) :
    (x >>= f) t = match x t with
      | .ok a t' => f a t'
      | .error e t' => .error e t' := by
  show EStateM.bind x f t = _
  unfold EStateM.bind
  cases x t <;> rfl

theorem fail_apply (e : RuntimeError) (t : Turn H) :
    (fail e : Act H α) t = .error (.runtime e) t := rfl

theorem get_apply (t : Turn H) : (get : Act H (Turn H)) t = .ok t t := rfl

theorem machine_apply (t : Turn H) : machine t = .ok t.machine t := rfl

theorem thread_apply (t : Turn H) : thread t = .ok t.thread t := rfl

theorem modifyMachine_apply (f : Machine H → Machine H) (t : Turn H) :
    modifyMachine f t = .ok () { t with machine := f t.machine } := rfl

theorem modifyThread_apply (f : Thread → Thread) (t : Turn H) :
    modifyThread f t = .ok () { t with thread := f t.thread } := rfl

theorem ask_apply (f : Machine H → α × Machine H) (t : Turn H) :
    ask f t = .ok (f t.machine).1 { t with machine := (f t.machine).2 } := rfl

theorem current_apply (t : Turn H) :
    current t = match t.machine.target? t.thread.target with
      | some target => .ok target t
      | none => .error (.runtime (.targetGone t.thread.target)) t := by
  simp only [current, bind_apply, get_apply]
  cases t.machine.target? t.thread.target <;> rfl

theorem modifyCurrent_apply (f : Target → Target) (t : Turn H) :
    modifyCurrent f t = match t.machine.target? t.thread.target with
      | some target => .ok () { t with machine := t.machine.mapTarget target.id f }
      | none => .error (.runtime (.targetGone t.thread.target)) t := by
  simp only [modifyCurrent, bind_apply, current_apply]
  cases t.machine.target? t.thread.target <;> rfl

theorem owner_apply (s : Storage) (t : Turn H) :
    owner s t = match s.owner with
      | .target => current t
      | .stage =>
        match t.machine.stage? with
        | some stage => .ok stage t
        | none => .error (.runtime .stageMissing) t := by
  unfold owner
  cases s.owner with
  | target => rfl
  | stage =>
    simp only [bind_apply, machine_apply]
    cases t.machine.stage? <;> rfl

theorem sprite_apply (t : Turn H) :
    sprite t = match t.machine.target? t.thread.target with
      | some target =>
        match target.sprite? with
        | some s => .ok s t
        | none => .error (.runtime .spriteOnly) t
      | none => .error (.runtime (.targetGone t.thread.target)) t := by
  simp only [sprite, bind_apply, current_apply]
  cases t.machine.target? t.thread.target with
  | none => rfl
  | some target => cases h : target.sprite? <;> simp only [h] <;> rfl

end Act

end BlockScript
