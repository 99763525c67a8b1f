import BlockScript.Target.Sprite
import BlockScript.Thread

/-!
# Hosts

What scripts cannot do by themselves they ask of a host: to draw, to play, to ask someone, to look
at the keys and the mouse. Requests that take time are answered with a ticket, about which the
waiting thread asks again in each frame.
-/

namespace BlockScript

/-- What a host is told about a sprite that asks what it touches. -/
structure SpriteView where
  name : String
  place : Point
  /-- In percent. -/
  size : Float

/-- What a pen does. -/
inductive PenCommand
  /-- Wipe everything that was drawn. -/
  | clear
  /-- Print the sprite where it is. -/
  | stamp
  | down
  | up
  /-- A 24-bit colour. -/
  | color (rgb : Nat)
  | size (x : Float)
  /-- A line drawn by moving. -/
  | line (start stop : Point)

/-- How a sprite changes its layer. -/
inductive LayerChange
  | front
  | back
  /-- So many layers up, or down if negative. -/
  | forward (layers : Int)

/-- What scripts ask of their surroundings. -/
class Host (H : Type) where
  /-- Whether a sprite touches something: another sprite, the mouse or the edge. -/
  touching : H → SpriteView → String → Bool
  /-- Whether a key is held. -/
  keyPressed : H → String → Bool
  /-- Where the mouse is. -/
  mouse : H → Point
  /-- Whether the mouse is pressed. -/
  mouseDown : H → Bool
  /-- How loud it is, and -1 where nobody listens. -/
  loudness : H → Float := fun _ => -1.0
  /-- Shows what a target says or thinks. -/
  say : H → (target message : String) → (think : Bool) → H
  /-- Asks a question. -/
  ask : H → (question : String) → Ticket × H
  /-- Starts a sound of a target. -/
  playSound : H → (target sound : String) → Ticket × H
  /-- Whether a request is still pending. -/
  poll : H → Ticket → Bool × H
  /-- Takes the answer to a question. -/
  takeAnswer : H → Ticket → Option String × H
  /-- Ends every sound. -/
  stopSounds : H → H
  /-- Lets a target's pen do something. -/
  pen : H → (target : String) → PenCommand → H
  /-- Changes a sprite's layer. -/
  layer : H → (sprite : String) → LayerChange → H
  /-- Tells that a target shows another costume. -/
  costumeChanged : H → (target costume : String) → H := fun h _ _ => h

end BlockScript
