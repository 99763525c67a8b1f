import BlockScript.Machine.Exec

/-!
# Frames

A frame is one pass over the queue, or several. A pass visits each seat that was there when it
began, in order, and lets the thread in it take a turn, if it is ready. At the end of a pass empty
seats are removed and every thread is ready. Another pass follows when threads were added, unless
something changed on the screen or the options forbid it.

* `Machine.visit`: the turn of one seat;
* `Machine.step`: one frame.
-/

namespace BlockScript.Machine

variable {H : Type}

/-- What happens in a frame. -/
abbrev Ticking (H : Type) := EStateM Fault (Machine H)

/-- The thread in a seat, if it is ready. -/
def ready? (m : Machine H) (seat : Nat) : Option Thread :=
  match m.queue[seat]? with
  | some (.waiting t) => if t.ready then some t else none
  | _ => none

/-- Lets a thread leave its seat for its turn. -/
def lend (m : Machine H) (seat : Nat) (t : Thread) : Machine H :=
  { m with
    queue := m.queue.set seat .running
    running := some { seat, target := t.target, base := t.base, group := t.group } }

/-- Ends a turn: what is put in the seat, if the thread still had it. -/
def settle (m : Machine H) (seat : Nat) (s : Seat) : Machine H :=
  { m with
    queue := if m.isRunning seat then m.queue.set seat s else m.queue
    running := none }

/-- What is in the seat of a thread after its turn. -/
def seatAfter (t : Thread) : Outcome → Seat
  | .yielded => .waiting t
  | .finished | .detached => .empty

/-- Removes empty seats, and makes every thread ready. -/
def endPass (m : Machine H) : Machine H :=
  { m with
    queue := m.queue.filterMap fun
      | .waiting t => some (.waiting { t with ready := true })
      | _ => none }

variable [Host H]

/-- The turn of a thread that has left its seat. -/
def takeTurn (steps seat : Nat) (t : Thread) : Ticking H Unit := fun m =>
  match m.target? t.target with
  | none => .error (.runtime (.ownerGone t.target)) (m.settle seat .empty)
  | some target =>
    match Act.resume steps { machine := m, thread := t, seat, program := target.program } with
    | .ok outcome turn => .ok () (turn.machine.settle seat (seatAfter turn.thread outcome))
    | .error e turn => .error e (turn.machine.settle seat .empty)

/-- The turn of a seat. -/
def visit (steps seat : Nat) : Ticking H Unit := do
  match (← get).ready? seat with
  | none => return
  | some t =>
    modify fun m => m.lend seat t
    takeTurn steps seat t

/-- One pass over the seats that are there when it begins: whether threads were added. -/
def pass (steps : Nat) : Ticking H Bool := do
  modify fun m => { m with visual := false }
  let length := (← get).queue.length
  (List.range length).forM (visit steps)
  let added := length < (← get).queue.length
  modify endPass
  return added

/-- Whether a pass that added threads is followed by another. -/
def mayRepeat (m : Machine H) : Bool := !m.options.turbo && !m.visual

/-- Passes, at most so many. -/
def passes (steps : Nat) : Nat → Ticking H Unit
  | 0 => return
  | limit + 1 => do
    let added ← pass steps
    if added && (← get).mayRepeat then passes steps limit

/-- How many passes a frame has time for: frames that last no time at all have one pass. -/
def passLimit (o : Options) : Nat :=
  if o.frameNanos = 0 then 1 else 100000

/-- One frame, of at most so many passes. -/
def stepWithin (steps limit : Nat) : Ticking H Unit := do
  passes steps limit
  modify fun m => { m with clock := m.clock.advance, frame := m.frame + 1 }

/-- One frame. -/
def step (steps : Nat) : Ticking H Unit := do
  stepWithin steps (passLimit (← get).options)

end BlockScript.Machine
