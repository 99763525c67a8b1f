import BlockScript.Console.Program
import Std.Time.DateTime.Timestamp

/-!
# The command line

Everything that touches the world: arguments, files, the terminal, the time. What is printed and
why is said by the modules of the console.
-/

namespace BlockScript.Console

/-- Why a file could not be read. -/
def fileError : IO.Error → FileError
  | .noFileOrDirectory .. => .notFound
  | .invalidArgument .. => .nameTooLong
  | .inappropriateType _ code _ => if code = 21 then .isDirectory else .notDirectory
  | _ => .denied

/-- The text of a file. -/
def readText (path : String) : IO (Except FileError String) := do
  try
    match String.fromUTF8? (← IO.FS.readBinFile path) with
    | some text => return .ok text
    | none => return .error .notText
  catch e => return .error (fileError e)

/-- The files that the arguments name. -/
def readFiles (a : Arguments) : IO Files := do
  let paths := a.config.toList ++ a.project.toList
  let texts ← paths.mapM fun path => return (path, ← readText path)
  return fun path => (texts.lookup path).getD (.error .notFound)

/-- The moment at which it is asked for. -/
def presentMoment : IO Moment := do
  return { millis := (← Std.Time.Timestamp.now).toMillisecondsSinceUnixEpoch.val }

/-- Writes what is printed. -/
def write (p : Printed) : IO Unit := do
  let out ← IO.getStdout
  let err ← IO.getStderr
  err.putStr p.err
  out.putStr p.out
  out.flush

/-- The lines of a session, until one ends it or there are no more. -/
partial def converse (terminal : Bool) (s : Session) : IO Unit := do
  if terminal then write { out := s.prompt }
  let text ← (← IO.getStdin).getLine
  if text.isEmpty then write (Session.endOfInput ++ Session.farewell)
  else
    let moment ← presentMoment
    let text := if terminal then text else taken text
    let machine := { s.machine with calendar := .standing moment }
    let (s, p) := Session.line { s with machine } text
    write p
    if s.ended then write Session.farewell else converse terminal s

/-- Frames at the pace of the options, until no thread is left or the limit is reached. -/
partial def playPaced (period : UInt32) (limit : Option Nat) (ran : Nat) (m : Machine Headless) :
    IO Ending := do
  if m.isIdle || limit.any (· ≤ ran) then return { code := 0, printed := report ran m }
  let began ← IO.monoMsNow
  let moment ← presentMoment
  match Machine.stepOrHalt Player.turnSteps { m with calendar := .standing moment } with
  | .error e _ => return failed { error := e.toError }
  | .ok () m =>
    let spent := (← IO.monoMsNow) - began
    IO.sleep (period - UInt32.ofNat (min spent period.toNat))
    playPaced period limit (ran + 1) m

/-- Does a job, and tells how it ends. -/
def perform (terminal : Bool) (job : Job) : IO Ending := do
  match job.mode with
  | .dump => return { code := 0, printed := { out := job.machine.dump } }
  | .session =>
    let session : Session := { machine := job.machine }
    write session.banner
    converse terminal session
    return { code := 0, printed := {} }
  | .run limit =>
    let period := max 1 (1000 / job.machine.options.fps)
    playPaced (UInt32.ofNat period) limit 0 job.machine.greenFlag.2

/-- Does what the arguments ask for. -/
def start (args : List String) : IO Ending := do
  match toRun args with
  | .error e => return e
  | .ok a =>
    let terminal ← (← IO.getStdin).isTty
    let calendar := Calendar.standing (← presentMoment)
    let surroundings := { calendar, dice := diceFrom (← IO.rand 0 (Nat.pow 2 63)) }
    match prepare (← readFiles a) terminal surroundings a with
    | .error f => return failed f
    | .ok job => perform terminal job

end BlockScript.Console

/-- The program. -/
def main (args : List String) : IO UInt32 := do
  let ending ← BlockScript.Console.start args
  BlockScript.Console.write ending.printed
  return UInt32.ofNat ending.code
