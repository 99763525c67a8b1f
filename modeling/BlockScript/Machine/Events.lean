import BlockScript.Machine.Basic

/-!
# Events

An event starts every script that waits for it: those of the sprites in the order of their making,
then those of the stage. A script that is at work already starts over in its seat, so no script is
at work twice. All threads that an event starts form a group.

* `Machine.startThread`: start a script, or start it over;
* `Machine.trigger`, `Machine.triggerFor`: an event for all targets, or for one;
* `Machine.greenFlag`, `Machine.switchBackdrop`: events with a change of their own.
-/

namespace BlockScript.Machine

variable {H : Type}

/-- Starts a script. If it is at work already it starts over in its seat; when its thread is the
    one at work, the new one has to wait for the next pass. -/
def startThread (m : Machine H) (target : TargetId) (base : Label) (group : GroupId) : Machine H :=
  let thread := Thread.start target base group
  let seats := List.range m.queue.length
  match seats.find? fun i => m.occupant? i == some (target, base) with
  | some i =>
    let thread := { thread with ready := !m.isRunning i }
    { m with queue := m.queue.set i (.waiting thread) }
  | none => { m with queue := m.queue ++ [.waiting thread] }

/-- Starts the scripts of a target that wait for an event. -/
def startListeners (m : Machine H) (id : TargetId) (e : Event) (group : GroupId) : Machine H :=
  match m.target? id with
  | none => m
  | some t => (t.program.startedBy e).foldl (fun m base => m.startThread id base group) m

/-- A new group. -/
def newGroup (m : Machine H) : GroupId × Machine H :=
  (m.lastGroup + 1, { m with lastGroup := m.lastGroup + 1 })

/-- The identities of those that hear of an event, in order. -/
def audience (m : Machine H) : List TargetId :=
  (m.living.filter fun t => !t.isStage).map (·.id) ++ [m.stage]

/-- An event for all targets. -/
def trigger (m : Machine H) (e : Event) : GroupId × Machine H :=
  let (group, m) := m.newGroup
  (group, m.audience.foldl (fun m id => m.startListeners id e group) m)

/-- An event for one target. -/
def triggerFor (m : Machine H) (id : TargetId) (e : Event) : GroupId × Machine H :=
  let (group, m) := m.newGroup
  (group, m.startListeners id e group)

/-! ## 1. Clones -/

/-- Clones a sprite and starts the scripts that wait for that. There is no clone of the stage, and
    no more clones than the options allow. -/
def createClone (m : Machine H) (of : TargetId) : Option TargetId × Machine H :=
  if m.options.maxClones ≤ m.clones then (none, m)
  else
    let id := m.free.headD m.targets.length
    match (m.target? of).bind (·.clone? id) with
    | none => (none, m)
    | some clone =>
      let targets :=
        if m.free.isEmpty then m.targets ++ [some clone] else m.targets.set id (some clone)
      let m :=
        { m with
          targets
          free := m.free.tail
          order := m.order ++ [id]
          clones := m.clones + 1 }
      (some id, (m.triggerFor id .cloned).2)

/-- Deletes a clone with its threads. Nothing else can be deleted. -/
def deleteClone (m : Machine H) (id : TargetId) : Bool × Machine H :=
  match m.target? id with
  | none => (false, m)
  | some t =>
    if !t.isClone then (false, m)
    else
      let m := m.stopTarget id none
      (true,
        { m with
          targets := m.targets.set id none
          free := id :: m.free
          order := m.order.filter (· != id)
          clones := m.clones - 1 })

/-- The targets without the clones. -/
def withoutClones (targets : List (Option Target)) : List (Option Target) :=
  let kept := targets.map fun t => t.filter fun t => !t.isClone
  (kept.reverse.dropWhile Option.isNone).reverse

/-! ## 2. Events with a change of their own -/

variable [Host H]

/-- Ends every thread, deletes every clone and ends every sound. While a thread is at work the
    seats stay where they are. -/
def stopAll (m : Machine H) : Machine H :=
  let targets := withoutClones m.targets
  { m with
    queue := if m.running.isSome then m.queue.map fun _ => .empty else []
    targets
    free := []
    order := m.order.filter fun id => targets[id]?.join.isSome
    clones := 0
    host := Host.stopSounds m.host }

/-- The green flag: everything stops, the timer is set to zero, and the event goes out. -/
def greenFlag (m : Machine H) : GroupId × Machine H :=
  m.stopAll.resetTimer.trigger .flag

/-- Puts the costume that a value means on a target: whether it changed, and the machine. -/
def changeCostume (m : Machine H) (t : Target) (v : Value) : Bool × Machine H :=
  let (pick, m) :=
    match t.costumeFor v with
    | .another count => m.roll (·.below count)
    | _ => (0, m)
  let worn := t.dress v pick
  (worn.costume != t.costume, m.mapTarget t.id fun _ => worn)

/-- Tells the host which costume a target shows. -/
def announceCostume (m : Machine H) (id : TargetId) : Machine H :=
  match m.target? id with
  | none => m
  | some t => { m with host := Host.costumeChanged m.host t.name t.costumeName }

/-- Switches the backdrop, and tells those who wait for the one that shows then. -/
def switchBackdrop (m : Machine H) (v : Value) : GroupId × Machine H :=
  match m.stage? with
  | none => m.trigger (.ofBackdrop "")
  | some stage =>
    let m := (m.changeCostume stage v).2
    let m := (m.mapTarget stage.id Target.countSwitch).announceCostume stage.id
    m.trigger (.ofBackdrop ((m.stage?.map Target.costumeName).getD ""))

end BlockScript.Machine
