import BlockScript.Script.Stmt
import BlockScript.Text.Quoted

/-!
# Listings

The text of a script, one statement to a line, the bodies of branches and loops in braces and
indented by two spaces. Two forms of an expression occur:

* `Expr.brief`: as a formula, where a statement has a line of its own shape;
* `Expr.full`: part by part under its names, inside an operation on lists, motion, looks, sound or
  pen.

Texts are quoted in both, so that braces and line breaks inside them cannot be taken for those of
the listing.
-/

namespace BlockScript

/-! ## 1. Parts under their names -/

namespace Listing

/-- `name(a, b)`. -/
def apply (name : String) (args : List String) : String :=
  name ++ "(" ++ String.intercalate ", " args ++ ")"

/-- The name and the text of a field. -/
def field (f : String × String) : String := f.1 ++ ": " ++ f.2

/-- The name, and the fields in braces. -/
def record (name : String) (fields : List (String × String)) : String :=
  name ++ " \x7b " ++ String.intercalate ", " (fields.map field) ++ " \x7d"

/-- A truth value. -/
def ofBool (b : Bool) : String := if b then "true" else "false"

end Listing

open Listing

/-- The name of an owner. -/
def Owner.name : Owner → String
  | .target => "Target"
  | .stage => "Stage"

namespace Storage

/-- Storage as a formula: the quoted name, behind the stage if it owns it. -/
def brief (s : Storage) : String :=
  match s.owner with
  | .target => Text.quoted s.name
  | .stage => "stage." ++ Text.quoted s.name

/-- Storage part by part. -/
def full (s : Storage) : String :=
  record "VarRef" [("scope", s.owner.name), ("name", Text.quoted s.name)]

end Storage

/-- The name of a register. -/
def Register.name : Register → String
  | .count => "Count"
  | .start => "Start"
  | .duration => "Duration"
  | .first => "First"
  | .fromX => "FromX"
  | .fromY => "FromY"
  | .toX => "ToX"
  | .toY => "ToY"

/-- The name of an arithmetic operator. -/
def Arithmetic.name : Arithmetic → String
  | .add => "Add"
  | .subtract => "Subtract"
  | .multiply => "Multiply"
  | .divide => "Divide"
  | .mod => "Mod"

/-- The name of a comparison. -/
def Relation.name : Relation → String
  | .less => "Less"
  | .greater => "Greater"
  | .equal => "Equal"

/-- The name of a sensor. -/
def Sensor.name : Sensor → String
  | .timer => "Timer"
  | .answer => "Answer"
  | .username => "Username"
  | .mouseX => "MouseX"
  | .mouseY => "MouseY"
  | .mouseDown => "MouseDown"
  | .loudness => "Loudness"
  | .daysSince2000 => "DaysSince2000"
  | .current unit => apply "Current" [Menu.name unit]
  | .x => "X"
  | .y => "Y"
  | .direction => "Direction"
  | .size => "Size"
  | .volume => "Volume"
  | .costumeNumber => "CostumeNumber"
  | .costumeName => "CostumeName"
  | .backdropNumber => "BackdropNumber"
  | .backdropName => "BackdropName"

/-! ## 2. Expressions -/

namespace Value

/-- A value as a formula: text is quoted, all else as scripts show it. -/
def brief : Value → String
  | .text s => Text.quoted s
  | v => v.toText

/-- A value under the name of its kind. -/
def full : Value → String
  | .number n => apply "Number" [Number.listed.text n]
  | .text s => apply "String" [Text.quoted s]
  | .boolean b => apply "Boolean" [ofBool b]

end Value

namespace Expr

/-- An expression as a formula. -/
def brief : Expr → String
  | .const v => v.brief
  | .variable s => apply "var" [s.brief]
  | .listItem l i => apply "item" [l.brief, i.brief]
  | .listIndexOf l e => apply "indexof" [l.brief, e.brief]
  | .listLength l => apply "length" [l.brief]
  | .listContains l e => apply "listcontains" [l.brief, e.brief]
  | .listContents l => apply "contents" [l.brief]
  | .argument i => apply "arg" [toString i]
  | .register r => "R." ++ r.name
  | .now => "now()"
  | .groupRunning => "running(R.group)"
  | .ticketPending => "pending(R.ticket)"
  | .binary op a b => apply op.name [a.brief, b.brief]
  | .compare op a b => apply op.name [a.brief, b.brief]
  | .and a b => "(" ++ a.brief ++ " and " ++ b.brief ++ ")"
  | .or a b => "(" ++ a.brief ++ " or " ++ b.brief ++ ")"
  | .not a => apply "not" [a.brief]
  | .math op a => apply (Menu.text op) [a.brief]
  | .round a => apply "round" [a.brief]
  | .join a b => apply "join" [a.brief, b.brief]
  | .letterOf i t => apply "letter" [i.brief, t.brief]
  | .length a => apply "strlen" [a.brief]
  | .contains t n => apply "contains" [t.brief, n.brief]
  | .random a b => apply "random" [a.brief, b.brief]
  | .sense s => apply "sense" [s.name]
  | .keyPressed k => apply "key" [k.brief]
  | .touching o => apply "touching" [o.brief]
  | .attribute p o => apply "of" [Text.quoted p, o.brief]
  | .cast ty e => apply ty.name [e.brief]

/-- An expression part by part. -/
def full : Expr → String
  | .const v => apply "Const" [v.full]
  | .variable s => apply "Variable" [s.full]
  | .listItem l i => record "ListItem" [("list", l.full), ("index", i.full)]
  | .listIndexOf l e => record "ListIndexOf" [("list", l.full), ("item", e.full)]
  | .listLength l => apply "ListLength" [l.full]
  | .listContains l e => record "ListContains" [("list", l.full), ("item", e.full)]
  | .listContents l => apply "ListContents" [l.full]
  | .argument i => apply "Argument" [toString i]
  | .register r => apply "Register" [r.name]
  | .now => "Now"
  | .groupRunning => "GroupRunning"
  | .ticketPending => "TicketPending"
  | .binary op a b => record "Binary" [("op", op.name), ("lhs", a.full), ("rhs", b.full)]
  | .compare op a b => record "Compare" [("op", op.name), ("lhs", a.full), ("rhs", b.full)]
  | .and a b => apply "And" [a.full, b.full]
  | .or a b => apply "Or" [a.full, b.full]
  | .not a => apply "Not" [a.full]
  | .math op a => record "Math" [("op", Menu.name op), ("arg", a.full)]
  | .round a => apply "Round" [a.full]
  | .join a b => apply "Join" [a.full, b.full]
  | .letterOf i t => record "LetterOf" [("index", i.full), ("text", t.full)]
  | .length a => apply "Length" [a.full]
  | .contains t n => record "Contains" [("text", t.full), ("needle", n.full)]
  | .random a b => record "Random" [("from", a.full), ("to", b.full)]
  | .sense s => apply "Sense" [s.name]
  | .keyPressed k => apply "KeyPressed" [k.full]
  | .touching o => apply "Touching" [o.full]
  | .attribute p o => record "Of" [("property", Text.quoted p), ("object", o.full)]
  | .cast ty e => apply "Cast" [ty.name, e.full]

end Expr

/-! ## 3. Operations -/

/-- An operation on a list. -/
def ListOp.full : ListOp → String
  | .add l e => record "Add" [("list", l.full), ("item", e.full)]
  | .delete l i => record "Delete" [("list", l.full), ("index", i.full)]
  | .deleteAll l => apply "DeleteAll" [l.full]
  | .insert l i e => record "Insert" [("list", l.full), ("index", i.full), ("item", e.full)]
  | .replace l i e => record "Replace" [("list", l.full), ("index", i.full), ("item", e.full)]

/-- A move or turn. -/
def MotionOp.full : MotionOp → String
  | .move e => apply "Move" [e.full]
  | .turn e => apply "Turn" [e.full]
  | .gotoXY x y => record "GotoXY" [("x", x.full), ("y", y.full)]
  | .gotoTarget e => apply "GotoTarget" [e.full]
  | .glideStep => "GlideStep"
  | .setX e => apply "SetX" [e.full]
  | .setY e => apply "SetY" [e.full]
  | .changeX e => apply "ChangeX" [e.full]
  | .changeY e => apply "ChangeY" [e.full]
  | .pointIn e => apply "PointIn" [e.full]
  | .pointTowards e => apply "PointTowards" [e.full]
  | .bounce => "Bounce"
  | .setRotationStyle s => apply "SetRotationStyle" [Menu.name s]

/-- A change of appearance. -/
def LooksOp.full : LooksOp → String
  | .switchCostume e => apply "SwitchCostume" [e.full]
  | .nextCostume => "NextCostume"
  | .say e think => record "Say" [("message", e.full), ("think", ofBool think)]
  | .setSize e => apply "SetSize" [e.full]
  | .changeSize e => apply "ChangeSize" [e.full]
  | .setEffect f e => record "SetEffect" [("effect", Menu.name f), ("value", e.full)]
  | .changeEffect f e => record "ChangeEffect" [("effect", Menu.name f), ("by", e.full)]
  | .clearEffects => "ClearEffects"
  | .show => "Show"
  | .hide => "Hide"
  | .goToFront front => apply "GoToFront" [ofBool front]
  | .changeLayer e => apply "ChangeLayer" [e.full]

/-- A sound. -/
def SoundOp.full : SoundOp → String
  | .play e => apply "Play" [e.full]
  | .playUntilDone e => apply "PlayUntilDone" [e.full]
  | .stopAll => "StopAll"
  | .setVolume e => apply "SetVolume" [e.full]
  | .changeVolume e => apply "ChangeVolume" [e.full]

/-- A pen stroke. -/
def PenOp.full : PenOp → String
  | .clear => "Clear"
  | .stamp => "Stamp"
  | .down => "Down"
  | .up => "Up"
  | .setColor e => apply "SetColor" [e.full]
  | .setSize e => apply "SetSize" [e.full]
  | .changeSize e => apply "ChangeSize" [e.full]

/-! ## 4. Statements -/

namespace Listing

/-- The blanks before a line. -/
def indent (depth : Nat) : String :=
  String.ofList (List.replicate (2 * depth) ' ')

/-- What a waiting form of a statement adds to its name. -/
def waiting (wait : Bool) : String := if wait then "_and_wait" else ""

/-- The line of a statement that holds no list. -/
def simple : Stmt → String
  | .label l => l.show ++ ":"
  | .queue l => "queue " ++ l.show
  | .forceQueue l => "force_queue " ++ l.show
  | .save => "save"
  | .restore => "restore"
  | .setRegister r e => "R." ++ r.name ++ " = " ++ e.brief
  | .return => "return"
  | .endCall => "end_call"
  | .call p args l => "call " ++ apply p.show (args.map Expr.brief) ++ " -> " ++ l.show
  | .broadcast e wait => "broadcast" ++ waiting wait ++ " " ++ e.brief
  | .switchBackdrop e wait => "switch_backdrop" ++ waiting wait ++ " " ++ e.brief
  | .setVariable s e => "set " ++ s.brief ++ " = " ++ e.brief
  | .changeVariable s e => "change " ++ s.brief ++ " by " ++ e.brief
  | .list op => "list " ++ op.full
  | .motion op => "motion " ++ op.full
  | .looks op => "looks " ++ op.full
  | .sound op => "sound " ++ op.full
  | .pen op => "pen " ++ op.full
  | .ask e => "ask " ++ e.brief
  | .collectAnswer => "collect_answer"
  | .resetTimer => "reset_timer"
  | .createClone e => "create_clone " ++ e.brief
  | .deleteClone => "delete_clone"
  | .stopAll => "stop_all"
  | .stopOthers => "stop_other_scripts"
  | .branch .. | .repeat .. | .while .. | .forever .. => ""

/-- Lines in braces, the closing one as deep as the line that opened it. -/
def braces (depth : Nat) (inner : String) : String :=
  "\x7b\n" ++ inner ++ indent depth ++ "\x7d"

mutual

/-- The lines of a statement. -/
def stmt (depth : Nat) : Stmt → String
  | .branch c yes no =>
    indent depth ++ "if " ++ c.brief ++ " " ++ braces depth (lines (depth + 1) yes) ++
      (if no.isEmpty then "" else " else " ++ braces depth (lines (depth + 1) no)) ++ "\n"
  | .repeat e b =>
    indent depth ++ "repeat " ++ e.brief ++ " " ++ braces depth (lines (depth + 1) b) ++ "\n"
  | .while e b =>
    indent depth ++ "while " ++ e.brief ++ " " ++ braces depth (lines (depth + 1) b) ++ "\n"
  | .forever b => indent depth ++ "forever " ++ braces depth (lines (depth + 1) b) ++ "\n"
  | s => indent depth ++ simple s ++ "\n"

/-- The lines of a list of statements. -/
def lines (depth : Nat) : List Stmt → String
  | [] => ""
  | s :: rest => stmt depth s ++ lines depth rest

end

end Listing

/-- The text of a script. -/
def Script.listing (script : List Stmt) : String :=
  Listing.lines 0 script

end BlockScript
