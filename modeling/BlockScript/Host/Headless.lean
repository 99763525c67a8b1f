import BlockScript.Host.Basic
import BlockScript.Script.Event
import BlockScript.Table

/-!
# A host without a screen

It keeps what scripts show, and answers from what it was given beforehand: answers to questions,
keys that are held, things that touch, how long a sound lasts.

* `Headless.poll`: a question waits for an answer, a sound lasts for a number of polls;
* `Headless.takeAnswer`: an answer is taken once.
-/

namespace BlockScript

/-- What a ticket stands for. -/
inductive Pending
  /-- A question without an answer. -/
  | question
  /-- A sound that lasts for so many polls. -/
  | sound (frames : Nat)
  /-- A question with its answer. -/
  | answered (text : String)

/-- A host without a screen. -/
structure Headless where
  /-- Who said what, oldest first. -/
  speech : Array (String × String) := #[]
  /-- The questions asked, oldest first. -/
  questions : Array String := #[]
  /-- The answers to come, next one first. -/
  answers : List String := []
  /-- Who played what, oldest first. -/
  sounds : Array (String × String) := #[]
  /-- For how many polls a new sound lasts. -/
  soundFrames : Nat := 0
  /-- Whose pen did what, oldest first. -/
  drawing : Array (String × PenCommand) := #[]
  /-- Who changed the layer, oldest first. -/
  layers : Array (String × LayerChange) := #[]
  /-- The keys that are held, in normal spelling. -/
  keys : Table Unit := Table.empty
  /-- What each sprite touches. -/
  contacts : Table (Table Unit) := Table.empty
  mouse : Point := ⟨0.0, 0.0⟩
  mouseDown : Bool := false
  /-- What each ticket stands for. -/
  pending : List (Ticket × Pending) := []
  nextTicket : Ticket := 0

namespace Headless

/-! ## 1. What it is given -/

/-- Gives an answer, after those given before. -/
def pushAnswer (h : Headless) (answer : String) : Headless :=
  { h with answers := h.answers ++ [answer] }

/-- Presses or releases a key. -/
def setKey (h : Headless) (key : String) (down : Bool) : Headless :=
  let key := Event.keyName key
  { h with keys := if down then h.keys.put key () else h.keys.erase key }

/-- What a sprite touches by arrangement. -/
def contactsOf (h : Headless) (sprite : String) : Table Unit :=
  (h.contacts.get? sprite).getD Table.empty

/-- Lets a sprite touch something, or not touch it. -/
def setTouching (h : Headless) (sprite object : String) (on : Bool) : Headless :=
  let touched := h.contactsOf sprite
  let touched := if on then touched.put object () else touched.erase object
  { h with contacts := h.contacts.put sprite touched }

/-- Moves the mouse. -/
def setMouse (h : Headless) (p : Point) (down : Bool) : Headless :=
  { h with mouse := p, mouseDown := down }

/-- What a target said, oldest first. -/
def speechOf (h : Headless) (target : String) : List String :=
  (h.speech.toList.filter fun s => s.1 == target).map (·.2)

/-! ## 2. What it is asked -/

/-- Whether a sprite touches something: by arrangement, at an edge, or at the very place of the
    mouse. -/
def touching (h : Headless) (sprite : SpriteView) (object : String) : Bool :=
  (h.contactsOf sprite.name).contains object ||
    (object == "_edge_" &&
      (Sprite.atEdge stageHalfWidth sprite.place.x ||
        Sprite.atEdge stageHalfHeight sprite.place.y)) ||
    (object == "_mouse_" && sprite.place.same h.mouse)

/-- Whether a key is held; the word for any key asks about all of them. -/
def keyPressed (h : Headless) (key : String) : Bool :=
  let key := Event.keyName key
  if key = "any" then !h.keys.entries.isEmpty else h.keys.contains key

/-- Hands out a ticket. -/
def issue (h : Headless) (p : Pending) : Ticket × Headless :=
  (h.nextTicket,
    { h with pending := h.pending ++ [(h.nextTicket, p)], nextTicket := h.nextTicket + 1 })

/-- Writes what a ticket stands for. -/
def setPending (h : Headless) (k : Ticket) (p : Pending) : Headless :=
  { h with pending := h.pending.map fun e => if e.1 = k then (k, p) else e }

/-- Forgets a ticket. -/
def forget (h : Headless) (k : Ticket) : Headless :=
  { h with pending := h.pending.filter fun e => e.1 != k }

/-- Asks a question. -/
def ask (h : Headless) (question : String) : Ticket × Headless :=
  { h with questions := h.questions.push question }.issue .question

/-- Starts a sound. -/
def playSound (h : Headless) (target sound : String) : Ticket × Headless :=
  { h with sounds := h.sounds.push (target, sound) }.issue (.sound h.soundFrames)

/-- Whether a request is still pending. A question takes the next answer if there is one, and a
    sound has one poll less to last. -/
def poll (h : Headless) (k : Ticket) : Bool × Headless :=
  match h.pending.lookup k with
  | none | some (.answered _) => (false, h)
  | some .question =>
    match h.answers with
    | [] => (true, h)
    | answer :: rest => (false, { h with answers := rest }.setPending k (.answered answer))
  | some (.sound 0) => (false, h.forget k)
  | some (.sound (frames + 1)) => (true, h.setPending k (.sound frames))

/-- Takes the answer to a question, and forgets the ticket whatever it stood for. -/
def takeAnswer (h : Headless) (k : Ticket) : Option String × Headless :=
  match h.pending.lookup k with
  | some (.answered answer) => (some answer, h.forget k)
  | _ => (none, h.forget k)

/-- Whether a ticket stands for a sound. -/
def isSound : Pending → Bool
  | .sound _ => true
  | _ => false

/-- Ends every sound. -/
def stopSounds (h : Headless) : Headless :=
  { h with pending := h.pending.filter fun e => !isSound e.2 }

end Headless

instance : Host Headless where
  touching := Headless.touching
  keyPressed := Headless.keyPressed
  mouse := Headless.mouse
  mouseDown := Headless.mouseDown
  say h target message _ := { h with speech := h.speech.push (target, message) }
  ask := Headless.ask
  playSound := Headless.playSound
  poll := Headless.poll
  takeAnswer := Headless.takeAnswer
  stopSounds := Headless.stopSounds
  pen h target command := { h with drawing := h.drawing.push (target, command) }
  layer h sprite change := { h with layers := h.layers.push (sprite, change) }

end BlockScript
