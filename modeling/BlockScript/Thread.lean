import BlockScript.Error
import BlockScript.Value.Basic

/-!
# Threads

A thread is a script at work: where it resumes, its registers with the copies that it saved, and
the procedures that it is inside of. The innermost call and the latest copy come first.

* `Thread.call`, `Thread.endCall?`: enter a procedure, leave the innermost one;
* `Thread.save`, `Thread.restore?`: copy the registers, take the latest copy back;
* `Thread.recentlyActive`: whether a procedure is among the innermost ones.
-/

namespace BlockScript

/-- The threads that one event started. -/
abbrev GroupId := Nat

/-- A request that takes time. -/
abbrev Ticket := Nat

/-! ## 1. Registers -/

/-- The scratch numbers of a thread, and what it waits for. -/
structure Registers where
  count : Float := 0.0
  start : Float := 0.0
  duration : Float := 0.0
  first : Float := 0.0
  fromX : Float := 0.0
  fromY : Float := 0.0
  toX : Float := 0.0
  toY : Float := 0.0
  /-- The group that the thread waits for. -/
  group : Option GroupId := none
  /-- The request that the thread waits for. -/
  ticket : Option Ticket := none

namespace Registers

/-- Reads a register. -/
def get (rs : Registers) : Register → Float
  | .count => rs.count
  | .start => rs.start
  | .duration => rs.duration
  | .first => rs.first
  | .fromX => rs.fromX
  | .fromY => rs.fromY
  | .toX => rs.toX
  | .toY => rs.toY

/-- Writes a register. -/
def set (rs : Registers) (r : Register) (x : Float) : Registers :=
  match r with
  | .count => { rs with count := x }
  | .start => { rs with start := x }
  | .duration => { rs with duration := x }
  | .first => { rs with first := x }
  | .fromX => { rs with fromX := x }
  | .fromY => { rs with fromY := x }
  | .toX => { rs with toX := x }
  | .toY => { rs with toY := x }

/-- What is written is read back, and every other register is as before. -/
theorem get_set (rs : Registers) (r q : Register) (x : Float) :
    (rs.set r x).get q = if q = r then x else rs.get q := by
  cases r <;> cases q <;> rfl

end Registers

/-! ## 2. Calls -/

/-- An argument, with its conversions once they are known. -/
structure Argument where
  raw : Value
  number : Option Float := none
  boolean : Option Bool := none

/-- A procedure at work. -/
structure Call where
  procedure : ProcId
  /-- Where the caller goes on. -/
  resume : Label
  args : List Argument
  /-- Whether the call made the thread run without yielding, or kept it so. -/
  warp : Bool
  /-- The caller's registers. -/
  caller : Registers
  /-- The copies of registers that the procedure saved. -/
  saved : List Registers := []

namespace Call

/-- An argument as it was given; what is not there is the empty text. -/
def arg (c : Call) (position : Nat) : Value :=
  (c.args[position]?.map (·.raw)).getD .empty

/-- Changes the argument at a position. -/
def mapArg (c : Call) (position : Nat) (f : Argument → Argument) : Call :=
  { c with args := c.args.modify position f }

/-- An argument as a number, and the call that knows it. -/
def numberArg (c : Call) (position : Nat) : Float × Call :=
  match c.args[position]?.bind (·.number) with
  | some n => (n, c)
  | none =>
    let n := (c.arg position).toNumber
    (n, c.mapArg position fun a => { a with number := some n })

/-- An argument as a truth value, and the call that knows it. -/
def boolArg (c : Call) (position : Nat) : Bool × Call :=
  match c.args[position]?.bind (·.boolean) with
  | some b => (b, c)
  | none =>
    let b := (c.arg position).toBool
    (b, c.mapArg position fun a => { a with boolean := some b })

end Call

/-! ## 3. Activations -/

/-- For each procedure at work, the depths of its calls, innermost first. -/
abbrev Activations := List (ProcId × List Nat)

namespace Activations

/-- The depths of the calls of a procedure, innermost first. -/
def depths (a : Activations) (p : ProcId) : List Nat := (a.lookup p).getD []

/-- Adds a call of a procedure. -/
def enter (p : ProcId) (depth : Nat) : Activations → Activations
  | [] => [(p, [depth])]
  | (q, ds) :: rest => if q = p then (q, depth :: ds) :: rest else (q, ds) :: enter p depth rest

/-- Removes the innermost call of a procedure. -/
def leave (p : ProcId) : Activations → Activations
  | [] => []
  | (q, ds) :: rest =>
    if q = p then
      match ds with
      | [] | [_] => rest
      | _ :: ds => (q, ds) :: rest
    else (q, ds) :: leave p rest

end Activations

/-! ## 4. Threads -/

/-- A script at work. -/
structure Thread where
  /-- Whose script it is. -/
  target : TargetId
  /-- Where the script starts. -/
  base : Label
  /-- Where it resumes. -/
  continuation : Label
  /-- The procedures that it is inside of. -/
  calls : List Call := []
  registers : Registers := {}
  /-- The copies of registers that it saved outside of any procedure. -/
  saved : List Registers := []
  /-- How many calls keep it from yielding. -/
  warp : Nat := 0
  /-- The event that started it. -/
  group : GroupId
  /-- Whether it may run in the pass at hand. -/
  ready : Bool := true
  active : Activations := []

namespace Thread

/-- A thread at the start of a script. -/
def start (target : TargetId) (base : Label) (group : GroupId) : Thread :=
  { target, base, continuation := base, group }

/-- Whether a procedure is among so many innermost ones. -/
def recentlyActive (t : Thread) (p : ProcId) (window : Nat) : Bool :=
  match t.active.depths p with
  | [] => false
  | d :: _ => t.calls.length ≤ d + window

/-- Enters a procedure, with registers of its own. -/
def call (t : Thread) (p : ProcId) (resume : Label) (args : List Value) (warp : Bool) : Thread :=
  { t with
    calls := ⟨p, resume, args.map fun v => { raw := v }, warp, t.registers, []⟩ :: t.calls
    registers := {}
    warp := if warp then t.warp + 1 else t.warp
    active := t.active.enter p t.calls.length }

/-- Leaves the innermost procedure: where the caller goes on, with its registers. -/
def endCall? (t : Thread) : Option (Label × Thread) :=
  match t.calls with
  | [] => none
  | c :: rest =>
    some (c.resume,
      { t with
        calls := rest
        registers := c.caller
        warp := if c.warp then t.warp - 1 else t.warp
        active := t.active.leave c.procedure })

/-- The copies that were saved since the innermost procedure was entered. -/
def saveStack (t : Thread) : List Registers :=
  match t.calls with
  | [] => t.saved
  | c :: _ => c.saved

/-- The thread with other copies in place of those. -/
def withSaveStack (t : Thread) (saved : List Registers) : Thread :=
  match t.calls with
  | [] => { t with saved }
  | c :: rest => { t with calls := { c with saved } :: rest }

/-- Saves a copy of the registers. -/
def save (t : Thread) : Thread := t.withSaveStack (t.registers :: t.saveStack)

/-- Takes the registers back from the latest copy. -/
def restore? (t : Thread) : Option Thread :=
  match t.saveStack with
  | [] => none
  | rs :: rest => some { t.withSaveStack rest with registers := rs }

/-- Writes a register. -/
def setRegister (t : Thread) (r : Register) (x : Float) : Thread :=
  { t with registers := t.registers.set r x }

/-- Remembers the group to wait for. -/
def setGroup (t : Thread) (g : Option GroupId) : Thread :=
  { t with registers := { t.registers with group := g } }

/-- Remembers the request to wait for. -/
def setTicket (t : Thread) (k : Option Ticket) : Thread :=
  { t with registers := { t.registers with ticket := k } }

end Thread

end BlockScript
