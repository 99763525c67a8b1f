import BlockScript.Json.Reader
import BlockScript.Value.Basic

/-!
# Projects

A project is a stage and sprites. Each target declares variables, lists and messages, names its
costumes and sounds, and holds its scripts as blocks that refer to each other by id.
-/

namespace BlockScript

/-- A declared variable or list: its name, and what it holds at the start. -/
structure Declaration where
  name : String
  value : Json

namespace Declaration

/-- What a variable holds at the start. -/
def initialValue (d : Declaration) : Value :=
  Value.ofJson d.value

/-- What a list holds at the start. -/
def initialItems (d : Declaration) : List Value :=
  match d.value with
  | .array items => items.map Value.ofJson
  | _ => []

end Declaration

/-- A fixed choice on a block, with the id of what it refers to. -/
structure Field where
  value : String
  id : Option String

/-- What fills an input of a block. -/
inductive Input
  | empty
  /-- A value typed in. -/
  | literal (v : Value)
  /-- A message. -/
  | broadcast (message : String)
  /-- A block: a reporter, a menu or the first block of a stack. -/
  | block (id : String)
  | variable (name : String) (id : Option String)
  | list (name : String) (id : Option String)

/-- The signature on the blocks that define and call procedures. The lists of arguments are JSON
    text inside the JSON. -/
structure Mutation where
  proccode : Option String := none
  argumentIds : Option String := none
  argumentNames : Option String := none
  warp : Option Json := none

namespace Mutation

/-- A list of texts in JSON text; anything else counts as no texts. -/
def texts (encoded : Option String) : List String :=
  match encoded.bind Json.read? with
  | some (.array items) =>
    (items.mapM fun (j : Json) =>
      match j with
      | .string s => some s
      | _ => none).getD []
  | _ => []

/-- The ids of the arguments, in order. -/
def ids (m : Mutation) : List String := texts m.argumentIds

/-- The names of the arguments, in order. -/
def names (m : Mutation) : List String := texts m.argumentNames

/-- Whether the procedure runs without yielding. -/
def isWarp (m : Mutation) : Bool :=
  match m.warp with
  | some (.bool b) => b
  | some (.string s) => s == "true"
  | _ => false

end Mutation

/-- A block. -/
structure Block where
  opcode : String
  /-- The block below it. -/
  next : Option String := none
  /-- The block around it. -/
  parent : Option String := none
  inputs : Table Input := Table.empty
  fields : Table Field := Table.empty
  /-- Whether it only fills an input of its parent. -/
  shadow : Bool := false
  /-- Whether it starts a stack. -/
  topLevel : Bool := false
  mutation : Option Mutation := none

/-- The choice in a field. -/
def Block.field? (b : Block) (name : String) : Option String :=
  (b.fields.get? name).map (·.value)

/-- An entry of the table of blocks. What is not a block is kept as it is, and starts nothing. -/
inductive BlockEntry
  | block (b : Block)
  | primitive (j : Json)

/-- The block of an entry. -/
def BlockEntry.block? : BlockEntry → Option Block
  | .block b => some b
  | .primitive _ => none

/-- A target as the project describes it. -/
structure TargetData where
  isStage : Bool := false
  name : String
  vars : Table Declaration := Table.empty
  lists : Table Declaration := Table.empty
  broadcasts : Table String := Table.empty
  blocks : Table BlockEntry := Table.empty
  /-- The names of the costumes. -/
  costumes : List String := []
  /-- The names of the sounds. -/
  sounds : List String := []
  /-- The position of the first costume shown. -/
  currentCostume : Nat := 0
  volume : Float := 100.0
  x : Float := 0.0
  y : Float := 0.0
  size : Float := 100.0
  direction : Float := 90.0
  visible : Bool := true
  rotationStyle : Option String := none

namespace TargetData

/-- The block with an id. -/
def block? (t : TargetData) (id : String) : Option Block :=
  (t.blocks.get? id).bind BlockEntry.block?

/-- The blocks that start a stack, in the order of their ids. -/
def topLevel (t : TargetData) : List (String × Block) :=
  t.blocks.entries.filterMap fun e =>
    match e.2 with
    | .block b => if b.topLevel then some (e.1, b) else none
    | .primitive _ => none

end TargetData

/-- A project. -/
structure Project where
  targets : List TargetData

/-- The stage of a project: the first target that is one. -/
def Project.stage? (p : Project) : Option TargetData :=
  p.targets.find? (·.isStage)

end BlockScript
