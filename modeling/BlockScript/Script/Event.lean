import BlockScript.Text.Blank
import BlockScript.Text.Lowercase

/-!
# Events

What can start a script. Names of messages, backdrops and keys are kept in one normal spelling, so
that two spellings of one name are one event.
-/

namespace BlockScript

/-- What can start a script; names are in normal spelling. -/
inductive Event
  /-- The green flag. -/
  | flag
  /-- A message was sent. -/
  | message (name : String)
  /-- A key was pressed. -/
  | key (name : String)
  /-- The stage switched to a backdrop. -/
  | backdrop (name : String)
  /-- The target was clicked. -/
  | clicked
  /-- The target was made as a clone. -/
  | cloned
  deriving DecidableEq, Repr

/-- The normal spelling of a key: a single blank is the space bar, everything else is trimmed and
    in lower case. -/
def Event.keyName (name : String) : String :=
  if name = " " then "space" else Text.lower (Text.trim name)

namespace Event

/-- The event of a message, in any spelling. -/
def ofMessage (name : String) : Event := .message (Text.lower name)

/-- The event of a key, in any spelling. -/
def ofKey (name : String) : Event := .key (keyName name)

/-- The event of a backdrop, in any spelling. -/
def ofBackdrop (name : String) : Event := .backdrop (Text.lower name)

/-- The key event to which scripts listen that wait for any key. -/
def anyKey : Event := .key "any"

end Event

end BlockScript
