import BlockScript.Compile.Site

/-!
# Compiling reporters

A reporter block becomes an expression. A reporter with an unknown opcode reports the empty text,
one with an unknown choice in its menu reports zero.
-/

namespace BlockScript.Compile

namespace Reporter

variable (s : Site)

/-- Arithmetic on two numbers. -/
def arithmetic (op : Arithmetic) : Except Error Expr := do
  return .binary op (← s.number "NUM1") (← s.number "NUM2")

/-- A comparison, which sees its operands as they are. -/
def relation (op : Relation) : Except Error Expr := do
  return .compare op (← s.any "OPERAND1") (← s.any "OPERAND2")

/-- Reporters that compute. -/
def operator? : String → Option (Except Error Expr)
  | "operator_add" => arithmetic s .add
  | "operator_subtract" => arithmetic s .subtract
  | "operator_multiply" => arithmetic s .multiply
  | "operator_divide" => arithmetic s .divide
  | "operator_mod" => arithmetic s .mod
  | "operator_lt" => relation s .less
  | "operator_gt" => relation s .greater
  | "operator_equals" => relation s .equal
  | "operator_and" => some do
    return .and (← s.boolean "OPERAND1") (← s.boolean "OPERAND2")
  | "operator_or" => some do
    return .or (← s.boolean "OPERAND1") (← s.boolean "OPERAND2")
  | "operator_not" => some do
    return .not (← s.boolean "OPERAND")
  | "operator_random" => some do
    return .random (← s.any "FROM") (← s.any "TO")
  | "operator_join" => some do
    return .join (← s.text "STRING1") (← s.text "STRING2")
  | "operator_letter_of" => some do
    return .letterOf (← s.number "LETTER") (← s.text "STRING")
  | "operator_length" => some do
    return .length (← s.text "STRING")
  | "operator_contains" => some do
    return .contains (← s.text "STRING1") (← s.text "STRING2")
  | "operator_round" => some do
    return .round (← s.number "NUM")
  | "operator_mathop" => some do
    let arg ← s.number "NUM"
    match Menu.parse? (s.field "OPERATOR") with
    | some op => return .math op arg
    | none => return zero
  | _ => none

/-- Reporters that read variables, lists and arguments. -/
def data? : String → Option (Except Error Expr)
  | "data_variable" => some (.ok (.variable (s.reference .variable "VARIABLE")))
  | "data_listcontents" => some (.ok (.listContents (s.reference .list "LIST")))
  | "data_itemoflist" => some do
    return .listItem (s.reference .list "LIST") (← s.any "INDEX")
  | "data_itemnumoflist" => some do
    return .listIndexOf (s.reference .list "LIST") (← s.any "ITEM")
  | "data_lengthoflist" => some (.ok (.listLength (s.reference .list "LIST")))
  | "data_listcontainsitem" => some do
    return .listContains (s.reference .list "LIST") (← s.any "ITEM")
  | "argument_reporter_string_number" => some (.ok (
    match s.context.scope.argument? (s.field "VALUE") with
    | some position => .argument position
    | none => zero))
  | "argument_reporter_boolean" => some (.ok (
    match s.context.scope.argument? (s.field "VALUE") with
    | some position => .argument position
    | none => .const (.boolean false)))
  | _ => none

/-- Reporters that ask about the target and its surroundings. -/
def sensor? : String → Option Sensor
  | "motion_xposition" => some .x
  | "motion_yposition" => some .y
  | "motion_direction" => some .direction
  | "looks_size" => some .size
  | "looks_costumenumbername" =>
    some (if s.field "NUMBER_NAME" = "name" then .costumeName else .costumeNumber)
  | "looks_backdropnumbername" =>
    some (if s.field "NUMBER_NAME" = "name" then .backdropName else .backdropNumber)
  | "sound_volume" => some .volume
  | "sensing_timer" => some .timer
  | "sensing_answer" => some .answer
  | "sensing_username" => some .username
  | "sensing_mousex" => some .mouseX
  | "sensing_mousey" => some .mouseY
  | "sensing_mousedown" => some .mouseDown
  | "sensing_loudness" => some .loudness
  | "sensing_dayssince2000" => some .daysSince2000
  | _ => none

/-- Reporters that ask about something they name. -/
def sensing? : String → Option (Except Error Expr)
  | "sensing_current" => some (.ok (
    match Menu.parse? (s.field "CURRENTMENU") with
    | some unit => .sense (.current unit)
    | none => zero))
  | "sensing_keypressed" => some do
    return .keyPressed (← s.text "KEY_OPTION")
  | "sensing_touchingobject" => some do
    return .touching (← s.text "TOUCHINGOBJECTMENU")
  | "sensing_of" => some do
    return .attribute (s.field "PROPERTY") (← s.text "OBJECT")
  | opcode => (sensor? s opcode).map fun sensor => .ok (.sense sensor)

/-- The expression of a reporter block. -/
def compile : Except Error Expr :=
  let opcode := s.block.opcode
  (operator? s opcode <|> data? s opcode <|> sensing? s opcode).getD (.ok (.text ""))

end Reporter

/-- The expression of the reporter at the end of a path, for paths that are at most so much longer.
    No path outgrows the number of blocks, so that many more are always enough. -/
def reporterAt (c : Context) : Nat → Path → Block → Except Error Expr
  | 0, _, _ => .error .exhausted
  | depth + 1, path, b =>
    Reporter.compile ⟨c, b, inputIn (reporterAt c depth) c path b⟩

/-- An input of a block, converted to the kind of its slot. -/
def inputOf (c : Context) (path : Path) (b : Block) : String → Slot → Except Error Expr :=
  inputIn (reporterAt c c.depth) c path b

end BlockScript.Compile
