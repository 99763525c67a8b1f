import BlockScript.Number.Literal

/-!
# Arguments of the command line

A project, and what is to be done with it. Options are read from left to right, and the first
mistake ends the reading: an unknown option, a value that is missing or wrong, anything given twice.

* `Arguments.parse`: what a list of arguments asks for.
-/

namespace BlockScript.Console

/-- What the command line says. -/
structure Arguments where
  project : Option String := none
  config : Option String := none
  fps : Option Nat := none
  turbo : Bool := false
  username : Option String := none
  seed : Option Nat := none
  frames : Option Nat := none
  dump : Bool := false
  session : Bool := false
  verbose : Bool := false
  deriving DecidableEq, Repr

/-- What a list of arguments asks for. -/
inductive Request
  | run (a : Arguments)
  | help
  | version
  /-- The arguments make no sense. -/
  | mistake
  deriving DecidableEq, Repr

/-! ## 1. Values -/

/-- A path, which is not empty. -/
def path? (s : String) : Option String := if s.isEmpty then none else some s

/-- A whole number of sixty-four bits. -/
def word? (s : String) : Option Nat := Number.natural? 10 Number.maxWord s.toList

/-- A whole number of thirty-two bits. A minus sign is read, but nothing below zero is in range. -/
def smallWord? (s : String) : Option Nat :=
  match s.toList with
  | '-' :: '+' :: _ => none
  | '-' :: digits => Number.natural? 10 0 digits
  | digits => Number.natural? 10 (Nat.pow 2 32 - 1) digits

/-- Gives a value to what has none yet. -/
def once {α : Type} (old : Option α) (new : Option α) : Option (Option α) :=
  match old, new with
  | none, some a => some (some a)
  | _, _ => none

/-! ## 2. Options -/

/-- What an option does. -/
inductive Action
  | help
  | version
  /-- Sets a mark. -/
  | mark (f : Arguments → Option Arguments)
  /-- Takes a value. -/
  | take (f : Arguments → String → Option Arguments)

/-- Sets a mark that is not set yet. -/
def markOnce (get : Arguments → Bool) (set : Arguments → Arguments) : Action :=
  .mark fun a => if get a then none else some (set a)

/-- The options by their long names. -/
def long? : String → Option Action
  | "help" => some .help
  | "version" => some .version
  | "config" => some (.take fun a v => (once a.config (path? v)).map fun config =>
      { a with config })
  | "fps" => some (.take fun a v => (once a.fps (smallWord? v)).map fun fps => { a with fps })
  | "turbo" => some (markOnce (·.turbo) fun a => { a with turbo := true })
  | "username" => some (.take fun a v => (once a.username (some v)).map fun username =>
      { a with username })
  | "seed" => some (.take fun a v => (once a.seed (word? v)).map fun seed => { a with seed })
  | "frames" => some (.take fun a v => (once a.frames (word? v)).map fun frames =>
      { a with frames })
  | "dump" => some (markOnce (·.dump) fun a => { a with dump := true })
  | "repl" => some (markOnce (·.session) fun a => { a with session := true })
  | "verbose" => some (markOnce (·.verbose) fun a => { a with verbose := true })
  | _ => none

/-- The options by their letters. -/
def short? : Char → Option Action
  | 'h' => long? "help"
  | 'V' => long? "version"
  | 'c' => long? "config"
  | 'f' => long? "frames"
  | 'v' => long? "verbose"
  | _ => none

/-! ## 3. Reading -/

/-- What is left to do after an argument. -/
inductive Progress
  | more (a : Arguments)
  /-- The next argument is a value. -/
  | value (f : String → Option Arguments)
  | done (r : Request)

/-- The progress with the arguments, or a mistake. -/
def Progress.ofOption : Option Arguments → Progress
  | some a => .more a
  | none => .done .mistake

/-- An option with its name spelled out, and the value that is attached to it. -/
def longOption (a : Arguments) (name : String) (attached : Option String) : Progress :=
  match long? name, attached with
  | some .help, none => .done .help
  | some .version, none => .done .version
  | some (.mark f), none => .ofOption (f a)
  | some (.take f), some v => .ofOption (f a v)
  | some (.take f), none => .value (f a)
  | _, _ => .done .mistake

/-- Options by their letters, in a row; the first that takes a value takes the rest. -/
def shortOptions (a : Arguments) : List Char → Progress
  | [] => .more a
  | c :: rest =>
    match short? c with
    | none => .done .mistake
    | some .help => .done .help
    | some .version => .done .version
    | some (.mark f) =>
      match f a with
      | some a => shortOptions a rest
      | none => .done .mistake
    | some (.take f) =>
      match rest with
      | [] => .value (f a)
      | '=' :: attached => .ofOption (f a (String.ofList attached))
      | attached => .ofOption (f a (String.ofList attached))

/-- The project, which is given once. -/
def positional (a : Arguments) (s : String) : Progress :=
  .ofOption ((once a.project (path? s)).map fun project => { a with project })

/-- The name and the attached value of an option. -/
def splitAttached (cs : List Char) : String × Option String :=
  let name := String.ofList (cs.takeWhile (· != '='))
  match cs.dropWhile (· != '=') with
  | '=' :: value => (name, some (String.ofList value))
  | _ => (name, none)

/-- One argument. -/
def argument (a : Arguments) (s : String) : Progress :=
  match s.toList with
  | '-' :: '-' :: name =>
    let (name, attached) := splitAttached name
    longOption a name attached
  | '-' :: c :: rest => shortOptions a (c :: rest)
  | _ => positional a s

/-- Whether an argument can be the value of the option before it. -/
def isValue (s : String) : Bool := s == "-" || s.toList.head? != some '-'

/-- Arguments without options. -/
def readTrailing (a : Arguments) : List String → Request
  | [] => .run a
  | s :: rest =>
    match positional a s with
    | .more a => readTrailing a rest
    | _ => .mistake

/-- The arguments, after the option that waits for a value, if one does. -/
def readFrom (a : Arguments) (pending : Option (String → Option Arguments)) : List String → Request
  | [] => if pending.isSome then .mistake else .run a
  | s :: rest =>
    match pending with
    | some f =>
      if isValue s then
        match f s with
        | some a => readFrom a none rest
        | none => .mistake
      else .mistake
    | none =>
      if s = "--" then readTrailing a rest
      else
        match argument a s with
        | .more a => readFrom a none rest
        | .value f => readFrom a (some f) rest
        | .done r => r

/-- What a list of arguments asks for; to run something takes a project. -/
def Arguments.parse (args : List String) : Request :=
  match readFrom {} none args with
  | .run a => if a.project.isSome then .run a else .mistake
  | r => r

/-- The name of the program, and which one it is. -/
def versionText : String := "pounce 0.1.0\n"

/-- What the program can be asked for. -/
def helpText : String :=
  "Run Scratch-style block projects headlessly\n\n" ++
  "Usage: pounce [OPTIONS] <PROJECT>\n\n" ++
  "Arguments:\n" ++
  "  <PROJECT>  Project JSON to load\n\n" ++
  "Options:\n" ++
  "  -c, --config <CONFIG>      Player options as TOML\n" ++
  "      --fps <FPS>            Frames per second\n" ++
  "      --turbo                One drain per frame; " ++
    "threads started mid-frame wait for the next\n" ++
  "      --username <USERNAME>  Reported by the username block\n" ++
  "      --seed <SEED>          Seed for pick random\n" ++
  "  -f, --frames <FRAMES>      Run at most this many frames after the green flag\n" ++
  "      --dump                 Print the compiled continuations and exit\n" ++
  "      --repl                 Start the interactive REPL instead of running\n" ++
  "  -v, --verbose              Debug logging for pounce crates\n" ++
  "  -h, --help                 Print help\n" ++
  "  -V, --version              Print version\n"

/-- What is said about arguments that make no sense. -/
def mistakeText : String :=
  "error: the arguments make no sense\n\n" ++
  "Usage: pounce [OPTIONS] <PROJECT>\n\n" ++
  "For more information, try '--help'.\n"

end BlockScript.Console
