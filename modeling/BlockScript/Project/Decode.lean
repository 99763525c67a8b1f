import BlockScript.Json.Record
import BlockScript.Project.Basic

/-!
# Reading projects

How the trees of a project file become its parts. Declarations, fields and inputs have rules of
their own, whose breaches have words (`DecodeError.message?`); everything else is a record.

An entry of the block table that is not a block for any reason is kept as a primitive.
-/

namespace BlockScript

/-- Why a part of a project cannot be read. -/
inductive DecodeError
  /-- The tree has the wrong form for the part. -/
  | form
  /-- A declaration does not start with its name. -/
  | declarationName (got : Option Json)
  /-- A field holds nothing. -/
  | emptyField
  /-- An input is not an array. -/
  | inputForm (got : Json)
  /-- An input is filled by something unknown. -/
  | payload (got : Json)
  /-- A primitive does not start with its type. -/
  | noTypeCode
  /-- A primitive has an unknown type. -/
  | unknownPrimitive (code : Nat)

/-- The breach in words, where it has any. -/
def DecodeError.message? : DecodeError → Option String
  | .form => none
  | .declarationName got => some ("declaration name must be a string, got " ++ Json.shapeOption got)
  | .emptyField => some "empty field"
  | .inputForm got => some ("input must be an array, got " ++ got.text)
  | .payload got => some ("unsupported input payload " ++ got.text)
  | .noTypeCode => some "primitive without a type code"
  | .unknownPrimitive code => some ("unknown primitive type " ++ toString code)

/-! ## 1. Parts with rules of their own -/

/-- A declaration: its name, and a value that defaults to zero. -/
def Declaration.ofJson : Json → Except DecodeError Declaration
  | .array items =>
    match items with
    | .string name :: rest => .ok ⟨name, (rest.head?.getD (.number (.whole 0))).canonical⟩
    | items => .error (.declarationName (items.head?.map Json.canonical))
  | _ => .error .form

/-- A field: its value, and an id if text follows. -/
def Field.ofJson : Json → Except DecodeError Field
  | .array [] => .error .emptyField
  | .array (j :: rest) =>
    let id :=
      match rest.head? with
      | some (.string s) => some s
      | _ => none
    .ok ⟨(Value.ofJson j).toText, id⟩
  | _ => .error .form

/-- A number typed into a slot. Text that is blank or no number stays as it was typed. -/
def Input.numericLiteral : Value → Value
  | .text s =>
    let n := Number.ofText s
    if n.isNaN || Text.isBlank s then .text s else .number n
  | v => v

/-- A primitive: a type, a value and an id. -/
def Input.ofPrimitive (items : List Json) : Except DecodeError Input :=
  match items.head? with
  | some (.number (.whole code)) =>
    let value := (items[1]?.map Value.ofJson).getD default
    let id := items[2]?.bind Json.string?
    if 4 ≤ code ∧ code ≤ 8 then .ok (.literal (numericLiteral value))
    else if code = 9 ∨ code = 10 then .ok (.literal (.text value.toText))
    else if code = 11 then .ok (.broadcast value.toText)
    else if code = 12 then .ok (.variable value.toText id)
    else if code = 13 then .ok (.list value.toText id)
    else .error (.unknownPrimitive code)
  | _ => .error .noTypeCode

/-- An input: the second item of an array says what fills it. -/
def Input.ofJson : Json → Except DecodeError Input
  | .array items =>
    match (items[1]? : Option Json) with
    | none => .ok .empty
    | some .null => .ok .empty
    | some (.string id) => .ok (.block id)
    | some (.array primitive) => ofPrimitive primitive
    | some j => .error (.payload j.canonical)
  | j => .error (.inputForm j.canonical)

/-! ## 2. Records -/

/-- The result of a reading without its fault. -/
def DecodeError.forget {α : Type} : Except DecodeError α → Option α
  | .ok a => some a
  | .error _ => none

/-- A procedure's signature. -/
def Mutation.ofJson? (j : Json) : Option Mutation := do
  match j.record? false ["proccode", "argumentids", "argumentnames", "warp"] with
  | some [proccode, ids, names, warp] =>
    return {
      proccode := ← Json.optional Json.string? proccode
      argumentIds := ← Json.optional Json.string? ids
      argumentNames := ← Json.optional Json.string? names
      warp := ← Json.optional (fun j => some j.canonical) warp }
  | _ => none

/-- A block. -/
def Block.ofJson? (j : Json) : Option Block := do
  let fields := ["opcode", "next", "parent", "inputs", "fields", "shadow", "topLevel", "mutation"]
  match j.record? false fields with
  | some [opcode, next, parent, inputs, fields, shadow, topLevel, mutation] =>
    return {
      opcode := ← Json.required Json.string? opcode
      next := ← Json.optional Json.string? next
      parent := ← Json.optional Json.string? parent
      inputs := ← Json.defaulted Table.empty
        (Json.tableOf? fun j => DecodeError.forget (Input.ofJson j)) inputs
      fields := ← Json.defaulted Table.empty
        (Json.tableOf? fun j => DecodeError.forget (Field.ofJson j)) fields
      shadow := ← Json.defaulted false Json.bool? shadow
      topLevel := ← Json.defaulted false Json.bool? topLevel
      mutation := ← Json.optional Mutation.ofJson? mutation }
  | _ => none

/-- An entry of the block table. -/
def BlockEntry.ofJson (j : Json) : BlockEntry :=
  match Block.ofJson? j with
  | some b => .block b
  | none => .primitive j.canonical

/-- The name of a costume or sound. -/
def assetName? (j : Json) : Option String :=
  match j.record? false ["name"] with
  | some [name] => Json.required Json.string? name
  | _ => none

/-- The greatest whole number of a field. -/
def maxIndex : Nat := Number.maxWord

/-- Reads a field that is read in full, down to a depth. -/
def inFull {α : Type} (depth : Nat) (read : Json → Option α) (j : Json) : Option α :=
  if j.fits depth then read j else none

/-- A target, whose fields are read down to a depth. -/
def TargetData.ofJson? (depth : Nat) (j : Json) : Option TargetData := do
  let fields := ["isStage", "name", "variables", "lists", "broadcasts", "blocks", "costumes",
    "sounds", "currentCostume", "volume", "x", "y", "size", "direction", "visible",
    "rotationStyle"]
  let declarations :=
    inFull depth (Json.tableOf? fun j => DecodeError.forget (Declaration.ofJson j))
  match j.record? false fields with
  | some [isStage, name, vars, lists, broadcasts, blocks, costumes, sounds, currentCostume,
      volume, x, y, size, direction, visible, rotationStyle] =>
    return {
      isStage := ← Json.defaulted false Json.bool? isStage
      name := ← Json.required Json.string? name
      vars := ← Json.defaulted Table.empty declarations vars
      lists := ← Json.defaulted Table.empty declarations lists
      broadcasts := ← Json.defaulted Table.empty (Json.tableOf? Json.string?) broadcasts
      blocks := ← Json.defaulted Table.empty
        (inFull depth (Json.tableOf? fun j => some (BlockEntry.ofJson j))) blocks
      costumes := ← Json.defaulted [] (Json.listOf? assetName?) costumes
      sounds := ← Json.defaulted [] (Json.listOf? assetName?) sounds
      currentCostume := ← Json.defaulted 0 (Json.nat? maxIndex) currentCostume
      volume := ← Json.defaulted 100.0 Json.float? volume
      x := ← Json.defaulted 0.0 Json.float? x
      y := ← Json.defaulted 0.0 Json.float? y
      size := ← Json.defaulted 100.0 Json.float? size
      direction := ← Json.defaulted 90.0 Json.float? direction
      visible := ← Json.defaulted true Json.bool? visible
      rotationStyle := ← Json.optional Json.string? rotationStyle }
  | _ => none

/-! ## 3. Projects -/

/-- A project. The object, its list and each target take a level of the depth. -/
def Project.ofJson? (j : Json) : Option Project :=
  match j.record? false ["targets"] with
  | some [targets] =>
    let target := TargetData.ofJson? (Json.maxDepth - 3)
    (Json.required (Json.listOf? target) targets).map fun ts => ⟨ts⟩
  | _ => none

/-- Whether a text looks like a project: JSON with an array of targets. -/
def Project.sniff (text : String) : Bool :=
  match (Json.parse? text).bind (Json.member? "targets") with
  | some (.array _) => true
  | _ => false

end BlockScript
