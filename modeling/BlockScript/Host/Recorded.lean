import BlockScript.Host.Basic

/-!
# Recorded hosts

A host that passes everything on to another host, and keeps a record of what it was told to do.
Questions about the state of the surroundings leave no trace.
-/

namespace BlockScript

/-- What a host was told to do, with what it handed out for it. -/
inductive HostCall
  | say (target message : String) (think : Bool)
  | ask (question : String) (ticket : Ticket)
  | playSound (target sound : String) (ticket : Ticket)
  | takeAnswer (ticket : Ticket) (answer : Option String)
  | stopSounds
  | pen (target : String) (command : PenCommand)
  | layer (sprite : String) (change : LayerChange)
  | costumeChanged (target costume : String)

/-- A host with a record. -/
structure Recorded (H : Type) where
  inner : H
  /-- Oldest first. -/
  calls : Array HostCall := #[]

namespace Recorded

variable {H : Type}

/-- Adds to the record. -/
def note (r : Recorded H) (inner : H) (call : HostCall) : Recorded H :=
  { inner, calls := r.calls.push call }

/-- The same host with an empty record. -/
def cleared (r : Recorded H) : Recorded H := { inner := r.inner }

end Recorded

instance {H : Type} [Host H] : Host (Recorded H) where
  touching r := Host.touching r.inner
  keyPressed r := Host.keyPressed r.inner
  mouse r := Host.mouse r.inner
  mouseDown r := Host.mouseDown r.inner
  loudness r := Host.loudness r.inner
  say r target message think :=
    r.note (Host.say r.inner target message think) (.say target message think)
  ask r question :=
    let (ticket, inner) := Host.ask r.inner question
    (ticket, r.note inner (.ask question ticket))
  playSound r target sound :=
    let (ticket, inner) := Host.playSound r.inner target sound
    (ticket, r.note inner (.playSound target sound ticket))
  poll r ticket :=
    let (pending, inner) := Host.poll r.inner ticket
    (pending, { r with inner })
  takeAnswer r ticket :=
    let (answer, inner) := Host.takeAnswer r.inner ticket
    (answer, r.note inner (.takeAnswer ticket answer))
  stopSounds r := r.note (Host.stopSounds r.inner) .stopSounds
  pen r target command := r.note (Host.pen r.inner target command) (.pen target command)
  layer r sprite change := r.note (Host.layer r.inner sprite change) (.layer sprite change)
  costumeChanged r target costume :=
    r.note (Host.costumeChanged r.inner target costume) (.costumeChanged target costume)

end BlockScript
