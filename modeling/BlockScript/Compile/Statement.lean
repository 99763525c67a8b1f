import BlockScript.Compile.Reporter

/-!
# Compiling statement blocks

A statement block becomes a list of statements, and may take fresh labels for it. A block with an
unknown opcode becomes nothing, and so does one with an unknown choice in its menu.

* `Fresh`: a computation that takes labels, each one higher than the last;
* `Command`: a statement block, with the means to compile what it holds;
* `Command.compile?`: its statements, none if the opcode is unknown.
-/

namespace BlockScript.Compile

/-- Computations that take fresh labels and may fail. -/
abbrev Fresh := StateT Label (Except Error)

/-- The next label. -/
def freshLabel : Fresh Label := fun l => .ok (l, l + 1)

/-- A statement block, with the means to compile what it holds. -/
structure Command extends Site where
  /-- Compiles the stack in an input. -/
  substack : String → Fresh (List Stmt)

namespace Command

variable (s : Command)

/-! ## 1. Loops -/

/-- Whether a loop around the body can be native. -/
def native (body : List Stmt) : Bool :=
  s.context.warp && !Stmt.anyLabel body

/-- A counted loop. -/
def repeated (times : Expr) (body : List Stmt) : Fresh (List Stmt) := do
  if s.native body then return [.repeat times body]
  return yieldingRepeat (← freshLabel) times body

/-- An endless loop. -/
def endless (body : List Stmt) : Fresh (List Stmt) := do
  if s.native body then return [.forever body]
  return yieldingForever (← freshLabel) body

/-- A conditional loop. -/
def conditional (cond : Expr) (body : List Stmt) : Fresh (List Stmt) := do
  if s.native body then return [.while cond body]
  return yieldingWhile (← freshLabel) cond body

/-! ## 2. The families of blocks -/

/-- Moves and turns. -/
def motion? : String → Option (Fresh (List Stmt))
  | "motion_movesteps" => some do return [.motion (.move (← s.number "STEPS"))]
  | "motion_turnright" => some do return [.motion (.turn (← s.number "DEGREES"))]
  | "motion_turnleft" => some do return [.motion (.turn (negate (← s.number "DEGREES")))]
  | "motion_goto" => some do return [.motion (.gotoTarget (← s.text "TO"))]
  | "motion_gotoxy" => some do return [.motion (.gotoXY (← s.number "X") (← s.number "Y"))]
  | "motion_glidesecstoxy" => some do
    let secs ← s.number "SECS"
    let x ← s.number "X"
    let y ← s.number "Y"
    return glide (← freshLabel) secs x y
  | "motion_glideto" => some do
    let secs ← s.number "SECS"
    let target ← s.text "TO"
    return glide (← freshLabel) secs (.attribute "x position" target)
      (.attribute "y position" target)
  | "motion_pointindirection" => some do return [.motion (.pointIn (← s.number "DIRECTION"))]
  | "motion_pointtowards" => some do return [.motion (.pointTowards (← s.text "TOWARDS"))]
  | "motion_changexby" => some do return [.motion (.changeX (← s.number "DX"))]
  | "motion_setx" => some do return [.motion (.setX (← s.number "X"))]
  | "motion_changeyby" => some do return [.motion (.changeY (← s.number "DY"))]
  | "motion_sety" => some do return [.motion (.setY (← s.number "Y"))]
  | "motion_ifonedgebounce" => some (return [.motion .bounce])
  | "motion_setrotationstyle" => some (
    match Menu.parse? (s.field "STYLE") with
    | some style => return [.motion (.setRotationStyle style)]
    | none => return [])
  | _ => none

/-- Speech, for a time. -/
def speechFor (think : Bool) : Fresh (List Stmt) := do
  let message ← s.any "MESSAGE"
  let secs ← s.number "SECS"
  return .looks (.say message think) :: timedWait (← freshLabel) secs
    ++ [.looks (.say (.text "") think)]

/-- A block about a graphic effect, which an unknown effect makes void. -/
def effect (input : String) (op : Effect → Expr → LooksOp) : Fresh (List Stmt) :=
  match Menu.parse? (s.field "EFFECT") with
  | some e => do return [.looks (op e (← s.number input))]
  | none => return []

/-- Appearance. -/
def looks? : String → Option (Fresh (List Stmt))
  | "looks_say" => some do return [.looks (.say (← s.any "MESSAGE") false)]
  | "looks_think" => some do return [.looks (.say (← s.any "MESSAGE") true)]
  | "looks_sayforsecs" => s.speechFor false
  | "looks_thinkforsecs" => s.speechFor true
  | "looks_switchcostumeto" => some do
    return [.looks (.switchCostume (← s.asset "COSTUME" s.context.target.costumes))]
  | "looks_nextcostume" => some (return [.looks .nextCostume])
  | "looks_switchbackdropto" => some do
    return [.switchBackdrop (← s.asset "BACKDROP" s.context.backdrops) false]
  | "looks_switchbackdroptoandwait" => some do
    let backdrop ← s.asset "BACKDROP" s.context.backdrops
    return request (← freshLabel) (.switchBackdrop backdrop true) .groupRunning []
  | "looks_nextbackdrop" => some (return [.switchBackdrop (.text "next backdrop") false])
  | "looks_changesizeby" => some do return [.looks (.changeSize (← s.number "CHANGE"))]
  | "looks_setsizeto" => some do return [.looks (.setSize (← s.number "SIZE"))]
  | "looks_changeeffectby" => s.effect "CHANGE" .changeEffect
  | "looks_seteffectto" => s.effect "VALUE" .setEffect
  | "looks_cleargraphiceffects" => some (return [.looks .clearEffects])
  | "looks_show" => some (return [.looks .show])
  | "looks_hide" => some (return [.looks .hide])
  | "looks_gotofrontback" => some (return [.looks (.goToFront (s.field "FRONT_BACK" != "back"))])
  | "looks_goforwardbackwardlayers" => some do
    let layers ← s.number "NUM"
    let signed := if s.field "FORWARD_BACKWARD" = "backward" then negate layers else layers
    return [.looks (.changeLayer signed)]
  | _ => none

/-- Sounds. -/
def sound? : String → Option (Fresh (List Stmt))
  | "sound_play" => some do
    return [.sound (.play (← s.asset "SOUND_MENU" s.context.target.sounds))]
  | "sound_playuntildone" => some do
    let sound ← s.asset "SOUND_MENU" s.context.target.sounds
    return request (← freshLabel) (.sound (.playUntilDone sound)) .ticketPending []
  | "sound_stopallsounds" => some (return [.sound .stopAll])
  | "sound_setvolumeto" => some do return [.sound (.setVolume (← s.number "VOLUME"))]
  | "sound_changevolumeby" => some do return [.sound (.changeVolume (← s.number "VOLUME"))]
  | _ => none

/-- A stop block. Stopping this script inside a procedure leaves the procedure. -/
def stop : Fresh (List Stmt) :=
  match Menu.parse? (s.field "STOP_OPTION") with
  | some StopOption.all => return [.stopAll, .return]
  | some .thisScript =>
    return if s.context.procedure.isSome then [.endCall, .return] else [.return]
  | some .otherScripts | some .otherScriptsInStage => return [.stopOthers]
  | none => return []

/-- Messages, control flow, clones and questions. -/
def control? : String → Option (Fresh (List Stmt))
  | "event_broadcast" => some do return [.broadcast (← s.text "BROADCAST_INPUT") false]
  | "event_broadcastandwait" => some do
    let message ← s.text "BROADCAST_INPUT"
    return request (← freshLabel) (.broadcast message true) .groupRunning []
  | "control_wait" => some do
    let duration ← s.number "DURATION"
    return timedWait (← freshLabel) duration
  | "control_repeat" => some do
    let times ← s.number "TIMES"
    s.repeated times (← s.substack "SUBSTACK")
  | "control_forever" => some do s.endless (← s.substack "SUBSTACK")
  | "control_if" => some do
    let cond ← s.boolean "CONDITION"
    return [.branch cond (← s.substack "SUBSTACK") []]
  | "control_if_else" => some do
    let cond ← s.boolean "CONDITION"
    let yes ← s.substack "SUBSTACK"
    return [.branch cond yes (← s.substack "SUBSTACK2")]
  | "control_wait_until" => some do
    let cond ← s.boolean "CONDITION"
    return poll (← freshLabel) (.not cond)
  | "control_repeat_until" => some do
    let cond ← s.boolean "CONDITION"
    s.conditional (.not cond) (← s.substack "SUBSTACK")
  | "control_while" => some do
    let cond ← s.boolean "CONDITION"
    s.conditional cond (← s.substack "SUBSTACK")
  | "control_stop" => s.stop
  | "control_create_clone_of" => some do return [.createClone (← s.text "CLONE_OPTION")]
  | "control_delete_this_clone" => some (return [.deleteClone])
  | "sensing_askandwait" => some do
    let question ← s.text "QUESTION"
    return request (← freshLabel) (.ask question) .ticketPending [.collectAnswer]
  | "sensing_resettimer" => some (return [.resetTimer])
  | _ => none

/-- Variables and lists. -/
def data? : String → Option (Fresh (List Stmt))
  | "data_setvariableto" => some do
    return [.setVariable (s.reference .variable "VARIABLE") (← s.any "VALUE")]
  | "data_changevariableby" => some do
    return [.changeVariable (s.reference .variable "VARIABLE") (← s.number "VALUE")]
  | "data_addtolist" => some do return [.list (.add (s.reference .list "LIST") (← s.any "ITEM"))]
  | "data_deleteoflist" => some do
    return [.list (.delete (s.reference .list "LIST") (← s.any "INDEX"))]
  | "data_deletealloflist" => some (return [.list (.deleteAll (s.reference .list "LIST"))])
  | "data_insertatlist" => some do
    return [.list (.insert (s.reference .list "LIST") (← s.any "INDEX") (← s.any "ITEM"))]
  | "data_replaceitemoflist" => some do
    return [.list (.replace (s.reference .list "LIST") (← s.any "INDEX") (← s.any "ITEM"))]
  | _ => none

/-- A call of a procedure, with an argument for each parameter by position. A call of nothing is
    void. -/
def call : Fresh (List Stmt) := do
  let mutation := s.block.mutation.getD {}
  match s.context.procedureNamed? (mutation.proccode.getD "") with
  | none => return []
  | some id =>
    let arity := ((s.context.procedures[id]?).map (·.params.length)).getD 0
    let args ← (List.range arity).mapM fun position =>
      match mutation.ids[position]? with
      | some name => s.any name
      | none => pure (.const .empty)
    let resume ← freshLabel
    return [.call id args resume, .label resume]

/-- Drawing. -/
def pen? : String → Option (Fresh (List Stmt))
  | "pen_clear" => some (return [.pen .clear])
  | "pen_stamp" => some (return [.pen .stamp])
  | "pen_penDown" => some (return [.pen .down])
  | "pen_penUp" => some (return [.pen .up])
  | "pen_setPenColorToColor" => some do return [.pen (.setColor (← s.input "COLOR" .color))]
  | "pen_changePenSizeBy" => some do return [.pen (.changeSize (← s.number "SIZE"))]
  | "pen_setPenSizeTo" => some do return [.pen (.setSize (← s.number "SIZE"))]
  | _ => none

/-- The statements of a block, none if its opcode is unknown. -/
def compile? : Option (Fresh (List Stmt)) :=
  let opcode := s.block.opcode
  if opcode = "procedures_call" then some s.call
  else s.motion? opcode <|> s.looks? opcode <|> s.sound? opcode <|> s.control? opcode
    <|> s.data? opcode <|> s.pen? opcode

/-- The statements of a block. -/
def compile : Fresh (List Stmt) :=
  s.compile?.getD (return [])

end Command

/-! ## 3. Stacks -/

/-- A chain of blocks, and why it has no end, if it comes back to itself. -/
structure Stack where
  blocks : List (String × Block)
  fault : Option Error := none

/-- The chain from an id on: each block is followed by the next one until there is none. -/
def Stack.walk (t : TargetData) : Nat → List String → Option String → Stack
  | _, _, none => ⟨[], none⟩
  | 0, _, some _ => ⟨[], some .exhausted⟩
  | fuel + 1, seen, some id =>
    if id ∈ seen then ⟨[], some (.project (.linksBack id))⟩
    else
      match t.block? id with
      | none => ⟨[], none⟩
      | some b =>
        let rest := walk t fuel (id :: seen) b.next
        ⟨(id, b) :: rest.blocks, rest.fault⟩

/-- The chain from an id on. It holds no block twice, and so ends before it has as many as there
    are blocks, and one more look. -/
def Stack.from (t : TargetData) (first : Option String) : Stack :=
  walk t (t.blocks.entries.length + 1) [] first

/-- The statements of a chain of blocks, given how a block is compiled. -/
def Stack.compileWith (block : String → Block → Fresh (List Stmt)) (s : Stack) :
    Fresh (List Stmt) := do
  let parts ← s.blocks.mapM fun b => block b.1 b.2
  match s.fault with
  | some e => throw e
  | none => return parts.flatten

/-- The id of the stack in an input. -/
def Block.substack? (b : Block) (slot : String) : Option String :=
  match b.inputs.get? slot with
  | some (.block id) => some id
  | _ => none

/-- The statements of a stack at the end of a path, for paths that are at most so much longer. -/
def stackAt (c : Context) : Nat → Path → Option String → Fresh (List Stmt)
  | 0, _, _ => throw .exhausted
  | depth + 1, path, first =>
    (Stack.from c.target first).compileWith fun id b => do
      let path ← path.enter id
      Command.compile
        { context := c, block := b, input := inputOf c path b
          substack := fun slot => stackAt c depth path (Block.substack? b slot) }

/-- The statements of a stack. -/
def stackOf (c : Context) (first : Option String) : Fresh (List Stmt) :=
  stackAt c c.depth [] first

end BlockScript.Compile
