import BlockScript.Console.Line
import BlockScript.Console.Style
import BlockScript.Host.Headless
import BlockScript.Player

/-!
# Sessions

In a session a project is played by hand: each line is a command that sends an event, runs frames
or shows something.

* `Command.parse?`: the command in a line;
* `Session.line`: what a line does, and what it prints.
-/

namespace BlockScript.Console

/-! ## 1. Commands -/

/-- What can be done in a session. -/
inductive Command
  | help
  | exit
  | flag
  | step
  | broadcast
  | key
  | click
  | answer
  | vars
  | threads
  | dump
  deriving DecidableEq, Repr

/-- The command that a word means, in lower case. -/
def Command.ofWord? : String → Option Command
  | "help" | "h" | "?" => some .help
  | "exit" | "quit" | "q" => some .exit
  | "flag" | "go" => some .flag
  | "step" | "s" => some .step
  | "broadcast" | "b" => some .broadcast
  | "key" | "k" => some .key
  | "click" => some .click
  | "answer" | "a" => some .answer
  | "vars" | "v" => some .vars
  | "threads" | "t" => some .threads
  | "dump" => some .dump
  | _ => none

/-- The command in a line without blanks around it, and what is said after it: a point, a word, and
    the rest after a blank. -/
def Command.parse? (line : String) : Option (Command × Option String) :=
  match line.toList with
  | '.' :: cs =>
    let word := cs.takeWhile fun c => !Text.isBlankChar c
    let rest := Text.trim (String.ofList (cs.dropWhile fun c => !Text.isBlankChar c))
    (Command.ofWord? (Text.lower (String.ofList word))).map fun c =>
      (c, if rest.isEmpty then none else some rest)
  | _ => none

/-- How each command is written, and what it does. -/
def Command.usages : List (String × String) :=
  [ (".help", "Show this help message"),
    (".exit", "Exit the REPL"),
    (".flag", "Stop everything and click the green flag"),
    (".step [n]", "Run n frames (default 1)"),
    (".broadcast <msg>", "Broadcast a message"),
    (".key <name>", "Press a key"),
    (".click <sprite>", "Click a sprite"),
    (".answer <text>", "Queue an answer for ask and wait"),
    (".vars", "Show variables, lists and speech"),
    (".threads", "Show queued threads"),
    (".dump", "Show compiled continuations") ]

/-! ## 2. What is printed -/

/-- What is printed, and what is complained about. -/
structure Printed where
  out : String := ""
  err : String := ""

/-- One after the other. -/
def Printed.append (p q : Printed) : Printed := ⟨p.out ++ q.out, p.err ++ q.err⟩

instance : Append Printed := ⟨Printed.append⟩

/-- A line that is printed. -/
def printed (s : String) : Printed := { out := s ++ "\n" }

/-- A line that complains. -/
def complaint (s : String) : Printed := { err := s ++ "\n" }

/-- How a command is used. -/
def usage (s : String) : Printed := complaint (bold (red "Usage") ++ ": " ++ cyan s)

/-- A target's variables and lists, if it has any. -/
def targetState (t : Target) : String :=
  if t.vars.entries.isEmpty && t.lists.entries.isEmpty then ""
  else
    let name (s : String) : String := "  " ++ cyan (padded 16 s) ++ " "
    let one (v : String × Value) : String := name v.1 ++ yellow v.2.toText ++ "\n"
    let many (l : String × List Value) : String :=
      name l.1 ++ "[" ++ green (", ".intercalate (l.2.map Value.toText)) ++ "]\n"
    bold (brightCyan t.name) ++ "\n" ++ String.join (t.vars.entries.map one) ++
      String.join (t.lists.entries.map many)

/-- All variables and lists, and what was said. -/
def state (m : Machine Headless) : Printed :=
  let said (s : String × String) : String :=
    dimmed "say" ++ " " ++ brightCyan s.1 ++ ": " ++ s.2 ++ "\n"
  { out := String.join ((m.living.filter fun t => !t.isClone).map targetState) ++
      String.join (m.host.speech.toList.map said) }

/-- A thread that waits. -/
def threadLine (m : Machine Headless) (t : Thread) : Printed :=
  let name := ((m.target? t.target).map (·.name)).getD "?"
  printed ("  " ++ brightCyan (padded 12 name) ++ " " ++ t.base.show ++ " -> " ++
    yellow t.continuation.show ++ " depth " ++ toString t.calls.length ++
    dimmed (if t.ready then "" else " (next pass)"))

/-- All threads that wait. -/
def threadLines (m : Machine Headless) : Printed :=
  if m.isIdle then printed (dimmed "idle")
  else m.threads.foldl (fun p t => p ++ threadLine m t) {}

/-- The commands and keys of a session. -/
def helpLines : Printed :=
  let row (style : String → String) (r : String × String) : String :=
    "  " ++ style (padded 18 r.1) ++ " " ++ dimmed r.2 ++ "\n"
  let keys :=
    [("Ctrl+C", "Cancel current input"), ("Ctrl+D", "Exit REPL"), ("Tab", "Autocomplete")]
  { out := "\n" ++ bold (white "REPL Commands:") ++ "\n\n" ++
      String.join (Command.usages.map (row cyan)) ++
      "\n" ++ bold (white "Keyboard Shortcuts:") ++ "\n\n" ++
      String.join (keys.map (row yellow)) ++ "\n" }

/-- How many threads an event started. -/
def started (g : GroupId) (m : Machine Headless) : Printed :=
  let count := m.threads.countP (·.group == g)
  printed (yellow (toString count) ++ " " ++ dimmed "threads started")

/-! ## 3. Sessions -/

/-- A session. -/
structure Session where
  machine : Machine Headless
  /-- Whether a command ended it. -/
  ended : Bool := false

namespace Session

/-- What a session prints at its start. -/
def banner (s : Session) : Printed :=
  printed "" ++
  printed ("  " ++ bold (brightCyan "Pounce") ++ " " ++ dimmed "v" ++ " " ++
    brightYellow "0.1.0") ++
  printed ("  " ++ yellow (toString s.machine.living.length) ++ " " ++ dimmed "targets loaded") ++
  printed "" ++
  printed ("  " ++ dimmed "Type" ++ " " ++ cyan ".help" ++ " " ++
    dimmed "for available commands") ++
  printed ""

/-- What a session shows before it reads a line; a star tells that threads wait. -/
def prompt (s : Session) : String :=
  let busy := if s.machine.isIdle then "" else "*"
  bold (brightGreen ("pounce[" ++ toString s.machine.frame ++ busy ++ "]>")) ++ " "

/-- What a session prints when its input ends. -/
def endOfInput : Printed := printed (dimmed "^D")

/-- What a session prints at its end. -/
def farewell : Printed := printed ""

/-- The session after an event. -/
def event (r : GroupId × Machine Headless) : Session × Printed := (⟨r.2, false⟩, started r.1 r.2)

/-- Runs frames. -/
def frames (s : Session) (count : Nat) : Session × Printed :=
  let (complaints, m) : Printed × Machine Headless :=
    match Machine.runFrames Player.turnSteps count s.machine with
    | .ok () m => ({}, m)
    | .error e m => (complaint (errorMark ++ ": " ++ (e.toError.message?.getD "")), m)
  (⟨m, false⟩, complaints ++ printed (dimmed "frame" ++ " " ++ yellow (toString m.frame) ++ " " ++
    dimmed "threads" ++ " " ++ yellow (toString m.threads.length)))

/-- Does what a command says. -/
def command (s : Session) (c : Command) (arg : Option String) : Session × Printed :=
  let m := s.machine
  match c, arg with
  | .help, _ => (s, helpLines)
  | .exit, _ => ({ s with ended := true }, {})
  | .flag, _ => event m.greenFlag
  | .step, none => s.frames 1
  | .step, some n =>
    match Number.natural? 10 Number.maxWord n.toList with
    | some count => s.frames count
    | none => (s, usage ".step [n]")
  | .broadcast, some message => event (m.broadcast message)
  | .broadcast, none => (s, usage ".broadcast <msg>")
  | .key, some key => event (m.pressKey key)
  | .key, none => (s, usage ".key <name>")
  | .click, some name =>
    match m.click name with
    | (some group, m) => event (group, m)
    | (none, _) => (s, complaint (errorMark ++ ": no sprite named '" ++ name ++ "'"))
  | .click, none => (s, usage ".click <sprite>")
  | .answer, some text => ({ s with machine := { m with host := m.host.pushAnswer text } }, {})
  | .answer, none => (s, usage ".answer <text>")
  | .vars, _ => (s, state m)
  | .threads, _ => (s, threadLines m)
  | .dump, _ => (s, { out := m.dump })

/-- What a line does, and what it prints. -/
def line (s : Session) (text : String) : Session × Printed :=
  let text := Text.trim text
  if text.isEmpty then (s, {})
  else
    match Command.parse? text with
    | some (c, arg) => s.command c arg
    | none =>
      (s, complaint (errorMark ++ ": unknown command '" ++ cyan text ++ "', try " ++ cyan ".help"))

/-- A whole session over the lines of its input, each as it was typed. -/
def lines (s : Session) : List String → Printed
  | [] => endOfInput ++ farewell
  | text :: rest =>
    let (s, p) := s.line (taken text)
    if s.ended then p ++ farewell else p ++ s.lines rest

end Session

end BlockScript.Console
