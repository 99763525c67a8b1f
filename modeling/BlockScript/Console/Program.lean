import BlockScript.Console.Arguments
import BlockScript.Console.Files
import BlockScript.Console.Session

/-!
# The program

From arguments and files to what is printed and how the program ends.

* `prepare`: reads the options and the project, and loads the machine;
* `execute`: the whole program, over a directory of files and the lines of its input.
-/

namespace BlockScript.Console

/-- Why the program fails, and what it was doing then. -/
structure Failure where
  doing : Option String := none
  error : Error

/-- An error in words. -/
def errorText : Error → String
  | .json => "json: the text is not a project"
  | .settings => "config: the text is not a settings document"
  | .file path e => "io: " ++ e.messageAt path ++ ": " ++ e.messageAt path
  | e => e.message?.getD ""

/-- A failure in words. -/
def Failure.text (f : Failure) : String :=
  (f.doing.elim "" fun d => d ++ ": ") ++ errorText f.error

/-- Spreads every bit of a word over the whole word. -/
def mix (w : UInt64) : UInt64 :=
  let w := (w ^^^ (w >>> 30)) * 0xbf58476d1ce4e5b9
  let w := (w ^^^ (w >>> 27)) * 0x94d049bb133111eb
  w ^^^ (w >>> 31)

/-- The dice that the program rolls: a sequence that starts at the seed, or else at a number by
    chance. -/
def diceFrom (entropy : Nat) (seed : Option Nat) : Dice :=
  { words := fun i => mix (UInt64.ofNat (seed.getD entropy) +
      UInt64.ofNat (i + 1) * 0x9e3779b97f4a7c15) }

/-- What the program is to do with a machine. -/
inductive Mode
  | dump
  | session
  /-- Frames until nothing is left to do, at most so many. -/
  | run (limit : Option Nat)

/-- A machine, and what is to be done with it. -/
structure Job where
  machine : Machine Headless
  mode : Mode

/-- Adds what the program was doing to an error. -/
def while' {α : Type} (doing : Option String) : Except Error α → Except Failure α
  | .ok a => .ok a
  | .error error => .error { doing, error }

/-- The options of a settings file. -/
def optionsIn (files : Files) (path : String) : Except Error Options :=
  match files path with
  | .error e => .error (.file none e)
  | .ok text => Options.ofDocument text

/-- The project in a file. -/
def projectIn (files : Files) (path : String) : Except Error Project :=
  match files path with
  | .error e => .error (.file (some path) e)
  | .ok text => Project.read text

/-- The options with those of the command line in place of their own. -/
def override (o : Options) (a : Arguments) : Options :=
  { o with
    fps := a.fps.getD o.fps
    turbo := a.turbo || o.turbo
    username := a.username.getD o.username
    seed := a.seed <|> o.seed }

/-- Reads the options and the project, and loads the machine. Without a limit of frames a terminal
    starts a session. -/
def prepare (files : Files) (terminal : Bool) (s : Surroundings) (a : Arguments) :
    Except Failure Job := do
  let options ←
    match a.config with
    | none => pure {}
    | some path => while' (some ("reading " ++ path)) (optionsIn files path)
  let options ← while' none (override options a).validate
  let path := a.project.getD ""
  let project ← while' none (projectIn files path)
  let machine ← while' (some ("loading " ++ path)) (Player.loadProject project options {} s)
  let mode :=
    if a.dump then .dump
    else if a.session || (a.frames.isNone && terminal) then .session
    else .run a.frames
  return { machine, mode }

/-- What is printed about a run. -/
def report (frames : Nat) (m : Machine Headless) : Printed :=
  printed (dimmed "frames" ++ " " ++ yellow (toString frames)) ++ state m

/-- How the program ends. -/
structure Ending where
  code : Nat
  printed : Printed
  /-- What went wrong. -/
  failure : Option Failure := none

/-- The end after a failure. -/
def failed (f : Failure) : Ending :=
  { code := 1, printed := complaint (errorMark ++ ": " ++ f.text), failure := some f }

/-- The end of a run. -/
def runJob (m : Machine Headless) (limit : Option Nat) : Ending :=
  match Machine.runUntilIdle Player.turnSteps (limit.getD Player.endless) m.greenFlag.2 with
  | .ok frames m => { code := 0, printed := report frames m }
  | .error e _ => failed { error := e.toError }

/-- What is to be run, or the end of the program if nothing is. -/
def toRun (args : List String) : Except Ending Arguments :=
  match Arguments.parse args with
  | .mistake => .error { code := 2, printed := { err := mistakeText } }
  | .help => .error { code := 0, printed := { out := helpText } }
  | .version => .error { code := 0, printed := { out := versionText } }
  | .run a => .ok a

/-- The whole program, over a directory of files and the lines of its input. -/
def execute (files : Files) (s : Surroundings) (args input : List String) : Ending :=
  match toRun args with
  | .error e => e
  | .ok a =>
    match prepare files false s a with
    | .error f => failed f
    | .ok job =>
      match job.mode with
      | .dump => { code := 0, printed := { out := job.machine.dump } }
      | .session =>
        let session : Session := { machine := job.machine }
        { code := 0, printed := session.banner ++ session.lines input }
      | .run limit => runJob job.machine limit

end BlockScript.Console
