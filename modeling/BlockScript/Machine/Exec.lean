import BlockScript.Machine.Eval

/-!
# Executing statements

A statement of a thread at work does something and lets the thread go on, perhaps with other
statements first (the chosen side of a branch, the body of a loop and the loop once more), or it
makes the thread leave: to another label, to its seat, for good.

* `Act.exec`: one statement;
* `Act.block`: statements one after the other, until the thread leaves them;
* `Act.follow`: from continuation to continuation, until the thread leaves its turn.
-/

namespace BlockScript

/-- How a thread leaves the statements at hand. -/
inductive Exit
  /-- To a label, at once. -/
  | jump (l : Label)
  /-- To its seat, from where it resumes at a label. -/
  | yield (l : Label)
  /-- For good. -/
  | stop
  /-- For good, because its seat is no longer its own. -/
  | detached
  deriving DecidableEq, Repr

/-- What follows a statement. -/
inductive Control
  /-- These statements, then those after it. -/
  | onward (code : List Stmt)
  | leave (e : Exit)

/-- How a turn ends. -/
inductive Outcome
  /-- The script has come to its end. -/
  | finished
  /-- The thread goes back to its seat. -/
  | yielded
  /-- The thread has lost its seat. -/
  | detached
  deriving DecidableEq, Repr

/-- A call of a procedure that is among so many innermost ones waits for the next pass when the
    screen has changed. -/
def recursionWindow : Nat := 5

namespace Act

variable {H : Type}

/-- Goes on with the statements after this one. -/
def next : Act H Control := return .onward []

/-- Goes on if the seat is still the thread's own. -/
def ifSeated : Act H Control := do
  let t ← get
  if t.machine.isRunning t.seat then return .onward [] else return .leave .detached

variable [Host H]

/-! ## 1. Lists -/

/-- Changes a list. -/
def execList : ListOp → Act H Unit
  | .add list item => do
    let v ← eval item
    modifyOwner list fun t => t.setItems list.name (t.items list.name ++ [v])
  | .delete list index => do
    let v ← eval index
    let i ← itemIndex (← items list).length v
    modifyOwner list fun t => t.setItems list.name (Items.delete (t.items list.name) i)
  | .deleteAll list => modifyOwner list fun t => t.setItems list.name []
  | .insert list index item => do
    let v ← eval index
    let x ← eval item
    match ← itemIndex ((← items list).length + 1) v with
    | .at i => modifyOwner list fun t =>
        t.setItems list.name (Items.insert (t.items list.name) x (.at i))
    | _ => return
  | .replace list index item => do
    let v ← eval index
    let x ← eval item
    match ← itemIndex (← items list).length v with
    | .at i => modifyOwner list fun t =>
        t.setItems list.name (Items.replace (t.items list.name) x (.at i))
    | _ => return

/-! ## 2. Motion -/

/-- Where a glide is by now: at its end once the time is over, and on the way before. -/
def glidePlace (rs : Registers) (now : Float) : Point :=
  let elapsed := now - rs.start
  if rs.duration ≤ 0.0 || rs.duration ≤ elapsed then ⟨rs.toX, rs.toY⟩
  else
    let t := elapsed / rs.duration
    ⟨rs.fromX + (rs.toX - rs.fromX) * t, rs.fromY + (rs.toY - rs.fromY) * t⟩

/-- Where a sprite goes, if the operation moves it. -/
def destination (s : Sprite) : MotionOp → Act H (Option Point)
  | .move steps => do
    let n ← evalNumber steps
    let radians := Number.toRadians (90.0 - s.direction)
    return some ⟨s.x + n * radians.cos, s.y + n * radians.sin⟩
  | .gotoXY x y => do
    let x ← evalNumber x
    let y ← evalNumber y
    return some ⟨x, y⟩
  | .gotoTarget name => do placeOf (← evalText name)
  | .glideStep => do
    let rs := (← thread).registers
    return some (glidePlace rs (← ask Machine.now))
  | .setX x => do return some ⟨← evalNumber x, s.y⟩
  | .setY y => do return some ⟨s.x, ← evalNumber y⟩
  | .changeX dx => do return some ⟨s.x + (← evalNumber dx), s.y⟩
  | .changeY dy => do return some ⟨s.x, s.y + (← evalNumber dy)⟩
  | _ => return none

/-- The direction from one place to another. -/
def heading (start stop : Point) : Float :=
  90.0 - Number.toDegrees (Float.atan2 (stop.y - start.y) (stop.x - start.x))

/-- The direction towards something named. -/
def headingTo (s : Sprite) (name : String) : Act H (Option Float) := do
  if name = "_random_" then
    return some (Number.round ((← roll Dice.unit) * 359.0 - 179.0))
  return (← placeOf name).map (heading s.place)

/-- Changes the sprite of the thread. -/
def modifySprite (f : Sprite → Sprite) : Act H Unit := do
  let _ ← sprite
  modifyCurrent fun t => t.mapSprite f

/-- How a sprite turns, if the operation turns it. -/
def execTurn (s : Sprite) : MotionOp → Act H Unit
  | .turn degrees => do
    let n ← evalNumber degrees
    modifySprite fun sprite => sprite.setDirection (s.direction + n)
  | .pointIn degrees => do
    let n ← evalNumber degrees
    modifySprite fun sprite => sprite.setDirection n
  | .pointTowards name => do
    match ← headingTo s (← evalText name) with
    | some degrees => modifySprite fun sprite => sprite.setDirection degrees
    | none => return
  | .bounce => modifySprite Sprite.bounce
  | .setRotationStyle style => modifySprite fun sprite => { sprite with rotationStyle := style }
  | _ => return

/-- Draws a line from where the sprite was, if it moved with its pen down. -/
def drawTrail (start : Point) : Act H Unit := do
  let t ← current
  match t.sprite? with
  | none => return
  | some s =>
    if s.pen.down && !s.place.same start then
      tellHost fun h => Host.pen h t.name (.line start s.place)

/-- Moves or turns the sprite of the thread. -/
def moveSprite (s : Sprite) (op : MotionOp) : Act H Unit := do
  match ← destination s op with
  | some p => modifySprite fun sprite => sprite.moveTo p
  | none => execTurn s op
  drawTrail s.place
  touchTarget

/-- Moves or turns a sprite; the stage stays as it is. -/
def execMotion (op : MotionOp) : Act H Unit := do
  match (← current).sprite? with
  | none => return
  | some s => moveSprite s op

/-! ## 3. Looks, sounds, pens -/

/-- Changes a sprite's layer; the stage has only one. -/
def changeLayer (change : LayerChange) : Act H Unit := do
  let t ← current
  if !t.isStage then tellHost fun h => Host.layer h t.name change

/-- Puts the costume that a value means on the target of the thread. -/
def wearCostume (v : Value) : Act H Unit := do
  let t ← current
  if ← ask fun m => m.changeCostume t v then modifyMachine fun m => m.announceCostume t.id

/-- Changes the appearance of a target. -/
def execLook : LooksOp → Act H Unit
  | .switchCostume costume => do wearCostume (← eval costume)
  | .nextCostume => do
    modifyCurrent Target.nextCostume
    let t ← current
    modifyMachine fun m => m.announceCostume t.id
  | .say message think => do
    let text ← evalText message
    let t ← current
    tellHost fun h => Host.say h t.name text think
  | .setSize size => do
    let n ← evalNumber size
    modifyCurrent fun t => t.mapSprite fun s => s.setSize n
  | .changeSize by' => do
    let n ← evalNumber by'
    modifyCurrent fun t => t.mapSprite fun s => s.setSize (s.size + n)
  | .setEffect effect value => do
    let n ← evalNumber value
    modifyCurrent fun t => t.setEffect effect n
  | .changeEffect effect by' => do
    let n ← evalNumber by'
    modifyCurrent fun t => t.setEffect effect (t.effects.get effect + n)
  | .clearEffects => modifyCurrent fun t => { t with effects := {} }
  | .show => modifyCurrent fun t => t.mapSprite fun s => { s with visible := true }
  | .hide => modifyCurrent fun t => t.mapSprite fun s => { s with visible := false }
  | .goToFront front => changeLayer (if front then .front else .back)
  | .changeLayer by' => do
    let n ← evalNumber by'
    if n.isFinite then
      changeLayer (.forward (Number.truncWithin Value.minInteger Value.maxInteger (Number.round n)))

/-- Changes the appearance of a target. To show or to hide always changes the screen, anything else
    only if the target shows. -/
def execLooks (op : LooksOp) : Act H Unit := do
  execLook op
  match op with
  | .show | .hide => touchScreen
  | _ => touchTarget

/-- Starts a sound of the target, if there is one: its ticket. Without one the thread has nothing to
    wait for. -/
def startSound (sound : Expr) : Act H (Option Ticket) := do
  let v ← eval sound
  let t ← current
  match (Asset.find? t.sounds v).bind fun i => t.sounds[i]? with
  | none =>
    modifyThread fun t => t.setTicket none
    return none
  | some name => return some (← askHost fun h => Host.playSound h t.name name)

/-- Does something about sounds. -/
def execSound : SoundOp → Act H Unit
  | .play sound => do let _ ← startSound sound
  | .playUntilDone sound => do
    match ← startSound sound with
    | some k => modifyThread fun t => t.setTicket (some k)
    | none => return
  | .stopAll => tellHost Host.stopSounds
  | .setVolume volume => do
    let n ← evalNumber volume
    modifyCurrent fun t => t.setVolume n
  | .changeVolume by' => do
    let n ← evalNumber by'
    modifyCurrent fun t => t.setVolume (t.volume + n)

/-- Changes the pen of a sprite. -/
def modifyPen (f : Pen → Pen) : Act H Unit :=
  modifyCurrent fun t => t.mapSprite fun s => { s with pen := f s.pen }

/-- Changes the size of a sprite's pen; the stage has no pen. -/
def resizePen (f : Float → Float) : Act H (Option PenCommand) := do
  modifyPen fun p => { p with size := Pen.clampSize (f p.size) }
  return (← current).sprite?.map fun s => .size s.pen.size

/-- Changes the pen as an operation says: what the host is told. -/
def penCommand : PenOp → Act H (Option PenCommand)
  | .clear => return some .clear
  | .stamp => return some .stamp
  | .down => do
    modifyPen fun p => { p with down := true }
    return some .down
  | .up => do
    modifyPen fun p => { p with down := false }
    return some .up
  | .setColor color => do
    let rgb := (← eval color).toColor
    modifyPen fun p => { p with color := rgb }
    return some (.color rgb)
  | .setSize size => do
    let n ← evalNumber size
    resizePen fun _ => n
  | .changeSize by' => do
    let n ← evalNumber by'
    resizePen fun size => size + n

/-- Does something with a pen. -/
def execPen (op : PenOp) : Act H Unit := do
  match ← penCommand op with
  | none => return
  | some command =>
    let t ← current
    tellHost fun h => Host.pen h t.name command
    touchScreen

/-! ## 4. Control -/

/-- Enters a procedure. Its arguments are evaluated in the caller. -/
def execCall (p : ProcId) (args : List Expr) (resume : Label) : Act H Control := do
  match (← get).program.procedure? p with
  | none => fail (.noProcedure p)
  | some procedure =>
    let values ← args.mapM eval
    let t ← get
    let atomic := procedure.warp || 0 < t.thread.warp
    let deferred := !atomic && t.machine.visual && t.thread.recentlyActive p recursionWindow
    modifyThread fun t => t.call p resume values atomic
    return .leave (if deferred then .yield procedure.entry else .jump procedure.entry)

/-- Sends an event out, and goes on if the thread has kept its seat. A waiting sender remembers the
    group. -/
def execEvent (wait : Bool) (send : Machine H → GroupId × Machine H) : Act H Control := do
  let group ← ask send
  if wait then modifyThread fun t => t.setGroup (some group)
  ifSeated

/-- Clones a sprite by name, or the target of the thread. -/
def execClone (of : String) : Act H Unit := do
  let m ← machine
  let self := (← thread).target
  let source :=
    if of = "_myself_" then some self
    else ((m.find? of).filter fun t => !t.isStage).map (·.id)
  match source with
  | some id => let _ ← ask fun m => m.createClone id
  | none => return

/-- Ends the other threads of the target. -/
def stopOthers : Act H Unit := do
  let t ← get
  modifyMachine fun m => m.stopTarget t.thread.target (some t.seat)

/-- Takes the answer that the thread waited for. -/
def collectAnswer : Act H Unit := do
  match (← thread).registers.ticket with
  | none => return
  | some k =>
    modifyThread fun t => t.setTicket none
    match ← askHost fun h => Host.takeAnswer h k with
    | some answer => modifyMachine fun m => { m with answer }
    | none => return

/-- Executes a statement. -/
def exec : Stmt → Act H Control
  | .label _ => next
  | .queue l => do return .leave (if 0 < (← thread).warp then .jump l else .yield l)
  | .forceQueue l => return .leave (.yield l)
  | .save => do modifyThread Thread.save; next
  | .restore => do
    match (← thread).restore? with
    | some t => modifyThread fun _ => t; next
    | none => fail .restoreWithoutSave
  | .setRegister r e => do
    let n ← evalNumber e
    modifyThread fun t => t.setRegister r n
    next
  | .branch cond yes no => do return .onward (if ← evalBool cond then yes else no)
  | .repeat times body => do
    let count ← evalNumber times
    if 0.5 ≤ count then return .onward (body ++ [.repeat (.number (count - 1.0)) body]) else next
  | .while cond body => do
    if ← evalBool cond then return .onward (body ++ [.while cond body]) else next
  | .forever body => return .onward (body ++ [.forever body])
  | .return => return .leave .stop
  | .endCall => do
    match (← thread).endCall? with
    | some (l, t) => modifyThread fun _ => t; return .leave (.jump l)
    | none => next
  | .call p args resume => execCall p args resume
  | .broadcast message wait => do
    let name ← evalText message
    execEvent wait fun m => m.trigger (.ofMessage name)
  | .switchBackdrop backdrop wait => do
    let v ← eval backdrop
    touchScreen
    execEvent wait fun m => m.switchBackdrop v
  | .setVariable s value => do
    let v ← eval value
    modifyOwner s fun t => t.setVariable s.name v
    next
  | .changeVariable s by' => do
    let n ← evalNumber by'
    modifyOwner s fun t => t.setVariable s.name (.number ((t.valueOf s.name).toNumber + n))
    next
  | .list op => do execList op; next
  | .motion op => do execMotion op; next
  | .looks op => do execLooks op; next
  | .sound op => do execSound op; next
  | .pen op => do execPen op; next
  | .ask question => do
    let text ← evalText question
    let k ← askHost fun h => Host.ask h text
    modifyThread fun t => t.setTicket (some k)
    next
  | .collectAnswer => do collectAnswer; next
  | .resetTimer => do modifyMachine Machine.resetTimer; next
  | .createClone of => do execClone (← evalText of); next
  | .deleteClone => do
    let id := (← thread).target
    if ← ask fun m => m.deleteClone id then return .leave .detached else next
  | .stopAll => do modifyMachine Machine.stopAll; ifSeated
  | .stopOthers => do stopOthers; next

/-- The statements at a label. -/
def codeAt (l : Label) : Act H (List Stmt) := do
  match (← get).program.continuation? l with
  | some k => return k.body
  | none => fail (.noContinuation l)

/-- Executes statements one after the other, in at most so many steps: how the thread leaves them,
    none if it comes to their end. -/
def block : Nat → List Stmt → Act H (Option Exit)
  | 0, _ => throw .exhausted
  | _ + 1, [] => return none
  | steps + 1, s :: rest => do
    match ← exec s with
    | .onward code => block steps (code ++ rest)
    | .leave e => return some e

/-- Executes statements, and those at each label to which they lead at once, until the thread leaves
    its turn. -/
def follow : Nat → List Stmt → Act H Outcome
  | 0, _ => throw .exhausted
  | steps + 1, code => do
    match ← block (steps + 1) code with
    | none | some .stop => return .finished
    | some .detached => return .detached
    | some (.yield l) =>
      modifyThread fun t => { t with continuation := l }
      return .yielded
    | some (.jump l) => follow steps (← codeAt l)

/-- Resumes the thread where it stopped. -/
def resume (steps : Nat) : Act H Outcome := do
  follow steps (← codeAt (← thread).continuation)

end Act

end BlockScript
