import BlockScript.Compile.Lowering
import BlockScript.Compile.Scope
import BlockScript.Error
import BlockScript.Script.Program

/-!
# Compiling inputs

Blocks refer to each other by id, so what stands inside a block is found by following its inputs.
A block may not be reached from inside itself: the ids on the way down are kept as a path, and to
come upon one of them again is a fault (`ProjectError.cyclic`). The path holds no id twice, so it
never grows longer than the number of blocks.

* `Context`: what holds for a whole script;
* `Site`: one block, with the means to compile what stands in its inputs;
* `inputIn`: an input, given how reporters are compiled.
-/

namespace BlockScript.Compile

/-- What holds for a whole script. -/
structure Context where
  target : TargetData
  /-- The stage's costumes. -/
  backdrops : List String
  scope : Scope
  procedures : List Procedure
  /-- The positions of the procedures, by signature. -/
  index : Table ProcId
  /-- Whether the script runs without yielding. -/
  warp : Bool := false
  /-- The procedure that the script defines. -/
  procedure : Option ProcId := none

namespace Context

/-- The context of a target, before any script is at hand. -/
def of (target : TargetData) (stage : Option TargetData) (procedures : List Procedure) : Context :=
  let stage' := if target.isStage then some target else stage
  { target
    backdrops := (stage'.map (·.costumes)).getD []
    scope := .of target stage
    procedures
    index := Procedure.index procedures }

/-- The context inside a procedure. -/
def enter (c : Context) (id : ProcId) (p : Procedure) : Context :=
  { c with scope := c.scope.enter p.params, warp := p.warp, procedure := some id }

/-- The position of the procedure with a signature. -/
def procedureNamed? (c : Context) (proccode : String) : Option ProcId :=
  c.index.get? proccode

/-- More than the length of any path. -/
def depth (c : Context) : Nat :=
  c.target.blocks.entries.length + 1

end Context

/-- The ids of the blocks on the way down, innermost first. -/
abbrev Path := List String

/-- The path with one more block, which may not be on it. -/
def Path.enter (p : Path) (id : String) : Except Error Path :=
  if id ∈ p then .error (.project (.cyclic id)) else .ok (id :: p)

/-- Whether a block is a menu: a shadow that holds one field and nothing else. -/
def isMenu (b : Block) : Bool :=
  b.shadow && b.inputs.entries.isEmpty && b.fields.entries.length == 1

/-- An input of a block, before it is converted; none if nothing fills it. The first argument
    compiles a reporter whose path is given. -/
def inputIn? (reporter : Path → Block → Except Error Expr) (c : Context) (path : Path)
    (input : Option Input) : Except Error (Option Expr) :=
  match input with
  | none | some .empty => .ok none
  | some (.literal v) => .ok (some (.const v))
  | some (.broadcast message) => .ok (some (.text message))
  | some (.variable name id) => .ok (some (.variable (c.scope.resolve .variable name id)))
  | some (.list name id) => .ok (some (.listContents (c.scope.resolve .list name id)))
  | some (.block id) =>
    match c.target.block? id with
    | none => .ok none
    | some b =>
      if isMenu b then .ok (b.fields.values.head?.map fun f => .text f.value)
      else do
        let path ← path.enter id
        return some (← reporter path b)

/-- An input of a block, converted to the kind of its slot. -/
def inputIn (reporter : Path → Block → Except Error Expr) (c : Context) (path : Path)
    (b : Block) (name : String) (slot : Slot) : Except Error Expr := do
  match ← inputIn? reporter c path (b.inputs.get? name) with
  | some e => return cast slot e
  | none => return .const slot.default

/-- A block, with the means to compile its inputs. -/
structure Site where
  context : Context
  block : Block
  /-- Compiles an input. -/
  input : String → Slot → Except Error Expr

namespace Site

variable (s : Site)

/-- An input that takes a number. -/
def number (name : String) : Except Error Expr := s.input name .number

/-- An input that takes a text. -/
def text (name : String) : Except Error Expr := s.input name .text

/-- An input that takes a truth value. -/
def boolean (name : String) : Except Error Expr := s.input name .boolean

/-- An input that takes anything. -/
def any (name : String) : Except Error Expr := s.input name .any

/-- The choice in a field; an absent field chooses the empty text. -/
def field (name : String) : String := (s.block.field? name).getD ""

/-- The variable or list that a field names. -/
def reference (k : Kind) (name : String) : Storage :=
  match s.block.fields.get? name with
  | some f => s.context.scope.resolve k f.value f.id
  | none => s.context.scope.resolve k "" none

/-- An input that names an asset. A constant text that is one of the names becomes its number, so
    that a name which looks like a number still means the name. -/
def asset (name : String) (names : List String) : Except Error Expr := do
  let e ← s.any name
  match e with
  | .const (.text t) =>
    match names.findIdx? (· == t) with
    | some i => return .number (Number.ofNat (i + 1))
    | none => return e
  | e => return e

end Site

end BlockScript.Compile
