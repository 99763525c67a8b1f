import BlockScript.Calendar
import BlockScript.Clock
import BlockScript.Dice
import BlockScript.Host.Basic
import BlockScript.Options.Basic
import BlockScript.Target.Basic

/-!
# The machine

A project at work: its targets, the queue of its threads, and everything that the threads share.

* `Machine.load`: the machine of a project and its programs;
* `Machine.target?`, `Machine.find?`: targets by identity and by name;
* `Machine.createClone`, `Machine.deleteClone`: targets come and go;
* `Machine.stopAll`, `Machine.stopTarget`: threads are ended.

The queue has a seat for each thread. A seat keeps its position until the end of a pass, whatever
happens to the thread in it; the thread at work has left its seat, which stays marked.
-/

namespace BlockScript

/-! ## 1. State -/

/-- A seat of the queue. -/
inductive Seat
  /-- Its thread has ended. -/
  | empty
  /-- A thread waits in it. -/
  | waiting (t : Thread)
  /-- Its thread is at work. -/
  | running

/-- Whose thread is at work. -/
structure Running where
  seat : Nat
  target : TargetId
  base : Label
  group : GroupId

/-- What a run takes from outside. -/
structure Surroundings where
  calendar : Calendar
  /-- The dice that belong to a seed, or to none. -/
  dice : Option Nat → Dice

/-- The calendar stands at the beginning of 1970, and all dice show zero. -/
def Surroundings.still : Surroundings :=
  { calendar := .standing { millis := 0 }, dice := fun _ => { words := fun _ => 0 } }

/-- A project at work, on a host. -/
structure Machine (H : Type) where
  /-- The targets by identity; a clone that was deleted leaves a gap. -/
  targets : List (Option Target)
  /-- The identities of the targets in the order of their making. -/
  order : List TargetId
  /-- The gaps, latest first. -/
  free : List TargetId := []
  stage : TargetId
  queue : List Seat := []
  running : Option Running := none
  options : Options
  host : H
  clock : Clock
  /-- When the timer was last set to zero. -/
  timerOrigin : Float := 0.0
  /-- The last answer. -/
  answer : String := ""
  dice : Dice
  calendar : Calendar
  /-- The group of the latest event. -/
  lastGroup : GroupId := 0
  /-- Whether anything changed on the screen in the pass at hand. -/
  visual : Bool := false
  /-- How many clones live. -/
  clones : Nat := 0
  /-- How many frames have been run. -/
  frame : Nat := 0

/-- What can keep a frame from ending. -/
inductive Fault
  /-- A script asked for something that is not there. -/
  | runtime (e : RuntimeError)
  /-- A thread did not come to its end within the steps it was given. -/
  | exhausted
  deriving DecidableEq, Repr

namespace Machine

variable {H : Type}

/-- The machine of a project, given the program of each target. -/
def load (p : Project) (programs : List Program) (options : Options) (host : H)
    (s : Surroundings) : Except Error (Machine H) := do
  let options ← options.validate
  if programs.length ≠ p.targets.length then
    throw (.internal (.tableCount programs.length p.targets.length))
  let targets := (p.targets.zip programs).zipIdx.map fun ((data, program), id) =>
    Target.ofData id data program
  match targets.find? Target.isStage with
  | none => throw (.project .noStage)
  | some stage =>
    return {
      targets := targets.map some
      order := targets.map (·.id)
      stage := stage.id
      options
      host
      clock := .fixed 0.0 options.frameSeconds
      dice := s.dice options.seed
      calendar := s.calendar }

/-- A machine that has nothing to do; the first of its targets is the stage. -/
def still (targets : List Target) (host : H) : Machine H where
  targets := targets.map some
  order := targets.map (·.id)
  stage := 0
  options := {}
  host
  clock := .fixed 0.0 1.0
  dice := Surroundings.still.dice none
  calendar := Surroundings.still.calendar

/-! ## 2. Targets -/

/-- A living target. -/
def target? (m : Machine H) (id : TargetId) : Option Target := m.targets[id]?.join

/-- The stage. -/
def stage? (m : Machine H) : Option Target := m.target? m.stage

/-- The living targets in the order of their making. -/
def living (m : Machine H) : List Target := m.order.filterMap m.target?

/-- The target with a name that is not a clone. -/
def find? (m : Machine H) (name : String) : Option Target :=
  m.living.find? fun t => t.name == name && !t.isClone

/-- Changes a target. -/
def mapTarget (m : Machine H) (id : TargetId) (f : Target → Target) : Machine H :=
  { m with targets := m.targets.modify id (Option.map f) }

/-! ## 3. The queue -/

/-- The threads that wait, in order. -/
def threads (m : Machine H) : List Thread :=
  m.queue.filterMap fun
    | .waiting t => some t
    | _ => none

/-- Whether no thread waits or works. -/
def isIdle (m : Machine H) : Bool :=
  m.queue.all fun
    | .empty => true
    | _ => false

/-- Whether the thread of a seat is at work. -/
def isRunning (m : Machine H) (seat : Nat) : Bool :=
  match m.queue[seat]? with
  | some .running => true
  | _ => false

/-- Whose script has the seat. -/
def occupant? (m : Machine H) (seat : Nat) : Option (TargetId × Label) :=
  match m.queue[seat]? with
  | some (.waiting t) => some (t.target, t.base)
  | some .running => (m.running.filter (·.seat == seat)).map fun r => (r.target, r.base)
  | _ => none

/-- Whether a thread of a group waits or works. -/
def isGroupRunning (m : Machine H) (g : GroupId) : Bool :=
  (match m.running with
    | some r => r.group == g && m.isRunning r.seat
    | none => false) || m.threads.any (·.group == g)

/-- Ends every thread of a target, except the one in a seat to keep. -/
def stopTarget (m : Machine H) (id : TargetId) (keep : Option Nat) : Machine H :=
  { m with
    queue := m.queue.mapIdx fun i seat =>
      if keep = some i then seat
      else if (m.occupant? i).map (·.1) = some id then .empty
      else seat }

/-- Removes every thread. -/
def halt (m : Machine H) : Machine H := { m with queue := [], running := none }

/-! ## 4. Time -/

/-- The time, and the machine after asking for it. -/
def now (m : Machine H) : Float × Machine H :=
  (m.clock.read.1, { m with clock := m.clock.read.2 })

/-- The timer, and the machine after asking for it. -/
def timer (m : Machine H) : Float × Machine H :=
  (m.clock.read.1 - m.timerOrigin, { m with clock := m.clock.read.2 })

/-- The moment, and the machine after asking for it. -/
def moment (m : Machine H) : Moment × Machine H :=
  (m.calendar.read.1, { m with calendar := m.calendar.read.2 })

/-- Sets the timer to zero. -/
def resetTimer (m : Machine H) : Machine H :=
  { m with timerOrigin := m.clock.read.1, clock := m.clock.read.2 }

/-- Takes another clock, and sets the timer to zero. -/
def setClock (m : Machine H) (clock : Clock) : Machine H :=
  { m with timerOrigin := clock.read.1, clock := clock.read.2 }

/-! ## 5. Chance -/

/-- Rolls the dice. -/
def roll {α : Type} (m : Machine H) (f : Dice → α × Dice) : α × Machine H :=
  ((f m.dice).1, { m with dice := (f m.dice).2 })

end Machine

end BlockScript
