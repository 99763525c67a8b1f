import BlockScript.Compile.Target
import BlockScript.Machine.Frame
import BlockScript.Project.Read
import BlockScript.Script.Listing

/-!
# Playing projects

A project is read, compiled and loaded; events are sent into it and frames are run. The first fault
of a run of frames halts every thread.

* `Player.load`: the machine of a project text;
* `Machine.runFrames`, `Machine.runUntilIdle`: frames, a number of them or until nothing is left to
  do;
* `Machine.valueNamed?`, `Machine.itemsNamed?`, `Machine.dump`: what a machine holds.
-/

namespace BlockScript

/-- The fault as an error of the whole. -/
def Fault.toError : Fault → Error
  | .runtime e => .runtime e
  | .exhausted => .exhausted

namespace Player

/-- How many steps a turn may take: more than a script that comes to its end ever takes. -/
def turnSteps : Nat := Nat.pow 10 18

/-- More frames than are ever run. -/
def endless : Nat := Nat.pow 2 64

/-- The machine of a project. -/
def loadProject {H : Type} (p : Project) (o : Options) (host : H) (s : Surroundings) :
    Except Error (Machine H) := do
  let programs ← p.compile
  Machine.load p programs o host s

/-- The machine of a project text. -/
def load {H : Type} (text : String) (o : Options) (host : H) (s : Surroundings) :
    Except Error (Machine H) := do
  loadProject (← Project.read text) o host s

end Player

namespace Machine

variable {H : Type}

/-! ## 1. Events from outside -/

/-- Sends a message. -/
def broadcast (m : Machine H) (message : String) : GroupId × Machine H :=
  m.trigger (.ofMessage message)

/-- Presses a key. -/
def pressKey (m : Machine H) (key : String) : GroupId × Machine H :=
  m.trigger (.ofKey key)

/-- Clicks the target with a name, if there is one. -/
def click (m : Machine H) (name : String) : Option GroupId × Machine H :=
  match m.find? name with
  | none => (none, m)
  | some t =>
    let (group, m) := m.triggerFor t.id .clicked
    (some group, m)

/-! ## 2. Frames -/

section Frames

variable [Host H]

/-- One frame, or the end of every thread. -/
def stepOrHalt (steps : Nat) : Ticking H Unit := fun m =>
  match step steps m with
  | .ok () m => .ok () m
  | .error e m => .error e m.halt

/-- A number of frames. -/
def runFrames (steps : Nat) : Nat → Ticking H Unit
  | 0 => return
  | frames + 1 => do
    stepOrHalt steps
    runFrames steps frames

/-- Frames until no thread is left, at most `limit`: how many, added to those run before. -/
def runFrom (steps : Nat) : (limit ran : Nat) → Ticking H Nat
  | 0, ran => return ran
  | limit + 1, ran => do
    if (← get).isIdle then return ran
    stepOrHalt steps
    runFrom steps limit (ran + 1)

/-- Frames until no thread is left, at most so many: how many were run. -/
def runUntilIdle (steps limit : Nat) : Ticking H Nat := runFrom steps limit 0

end Frames

/-! ## 3. What a machine holds -/

/-- The target with a name, the stage for none. -/
def named? (m : Machine H) : Option String → Option Target
  | some name => m.find? name
  | none => m.stage?

/-- A variable of a target, or else of the stage. -/
def valueNamed? (m : Machine H) (target : Option String) (name : String) : Option Value :=
  ((m.named? target).bind fun t => t.vars.get? name) <|>
    (m.stage?.bind fun s => s.vars.get? name)

/-- A list of a target. -/
def itemsNamed? (m : Machine H) (target : Option String) (name : String) : Option (List Value) :=
  (m.named? target).bind fun t => t.lists.get? name

/-- The program of a target as text. -/
def dumpTarget (t : Target) : String :=
  let procedure (p : Procedure) : String :=
    "procedure " ++ Text.quoted p.proccode ++ " -> " ++ p.entry.show ++
      (if p.warp then " (warp)" else "") ++ "\n"
  let continuation (c : Script.Continuation) : String :=
    c.label.show ++ ":\n" ++ Script.listing c.body
  "== " ++ t.name ++ " ==\n" ++ String.join (t.program.procedures.map procedure) ++
    String.join (t.program.continuations.map continuation)

/-- The programs of all targets as text. -/
def dump (m : Machine H) : String :=
  String.join ((m.living.filter fun t => !t.isClone).map dumpTarget)

/-- The machine in one line. -/
def summary (m : Machine H) : String :=
  "Runtime \x7b targets: " ++ toString m.targets.length ++ ", queue: " ++ toString m.queue.length ++
    ", frame: " ++ toString m.frame ++ ", .. \x7d"

end Machine

end BlockScript
