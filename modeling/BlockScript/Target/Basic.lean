import BlockScript.Project.Basic
import BlockScript.Script.Program
import BlockScript.Target.Asset
import BlockScript.Target.Sprite

/-!
# Targets

The stage, the sprites and their clones, as they are while a project runs. A clone has a copy of
everything that changes, and shares the program and the names of the assets.

* `Target.ofData`: a target at the start of a run;
* `Target.clone?`: a copy of a sprite;
* `Target.costumeFor`: what a value means as a costume.
-/

namespace BlockScript

/-! ## 1. Effects -/

/-- How strong each graphic effect is. -/
structure Effects where
  color : Float := 0.0
  fisheye : Float := 0.0
  whirl : Float := 0.0
  pixelate : Float := 0.0
  mosaic : Float := 0.0
  brightness : Float := 0.0
  ghost : Float := 0.0

namespace Effects

/-- How strong an effect is. -/
def get (e : Effects) : Effect → Float
  | .color => e.color
  | .fisheye => e.fisheye
  | .whirl => e.whirl
  | .pixelate => e.pixelate
  | .mosaic => e.mosaic
  | .brightness => e.brightness
  | .ghost => e.ghost

/-- The strength that an effect can have, nearest to a number. -/
def limit : Effect → Float → Float
  | .ghost, x => Number.clamp 0.0 100.0 x
  | .brightness, x => Number.clamp (-100.0) 100.0 x
  | _, x => x

/-- Makes an effect as strong as it can be, nearest to a number. -/
def set (e : Effects) (effect : Effect) (x : Float) : Effects :=
  let x := limit effect x
  match effect with
  | .color => { e with color := x }
  | .fisheye => { e with fisheye := x }
  | .whirl => { e with whirl := x }
  | .pixelate => { e with pixelate := x }
  | .mosaic => { e with mosaic := x }
  | .brightness => { e with brightness := x }
  | .ghost => { e with ghost := x }

end Effects

/-! ## 2. Targets -/

/-- What tells the stage from sprites. -/
inductive Body
  /-- The stage, and how often its backdrop was switched. -/
  | stage (backdropSwitches : Nat)
  | sprite (s : Sprite)

/-- The stage, a sprite or a clone, as it is while a project runs. -/
structure Target where
  id : TargetId
  name : String
  body : Body
  vars : Table Value := Table.empty
  lists : Table (List Value) := Table.empty
  program : Program := {}
  costumes : List String := []
  sounds : List String := []
  /-- The position of the costume that shows. -/
  costume : Nat := 0
  /-- In percent. -/
  volume : Float := 100.0
  effects : Effects := {}

namespace Target

/-- What tells a target from others at the start. -/
def bodyOf (d : TargetData) : Body :=
  if d.isStage then .stage 0
  else
    .sprite
      { x := d.x
        y := d.y
        direction := Number.wrapDegrees d.direction
        size := d.size
        visible := d.visible
        rotationStyle := (d.rotationStyle.bind Menu.parse?).getD .allAround }

/-- A target at the start of a run. -/
def ofData (id : TargetId) (d : TargetData) (program : Program) : Target :=
  { id
    name := d.name
    body := bodyOf d
    vars := .ofEntries (d.vars.values.map fun v => (v.name, v.initialValue))
    lists := .ofEntries (d.lists.values.map fun l => (l.name, l.initialItems))
    program
    costumes := d.costumes
    sounds := d.sounds
    costume := min d.currentCostume (d.costumes.length - 1)
    volume := d.volume }

/-- The sprite in a target, if it is one. -/
def sprite? (t : Target) : Option Sprite :=
  match t.body with
  | .sprite s => some s
  | .stage _ => none

/-- The target with another sprite in it. -/
def withSprite (t : Target) (s : Sprite) : Target := { t with body := .sprite s }

/-- Changes the sprite in a target, if it is one. -/
def mapSprite (t : Target) (f : Sprite → Sprite) : Target :=
  match t.body with
  | .sprite s => t.withSprite (f s)
  | .stage _ => t

/-- Whether the target is the stage. -/
def isStage (t : Target) : Bool := t.sprite?.isNone

/-- Whether the target is a clone. -/
def isClone (t : Target) : Bool := (t.sprite?.bind (·.cloneOf)).isSome

/-- Whether a change of the target shows. -/
def isVisible (t : Target) : Bool := (t.sprite?.map (·.visible)).getD true

/-- A copy of a sprite under a new identity. -/
def clone? (t : Target) (id : TargetId) : Option Target :=
  t.sprite?.map fun s => { t with id, body := .sprite { s with cloneOf := some t.id } }

/-! ## 3. Costumes -/

/-- The name of the costume that shows. -/
def costumeName (t : Target) : String := t.costumes.getD t.costume ""

/-- What a value means as a costume. -/
inductive CostumeChoice
  /-- The costume that shows already. -/
  | stay
  /-- The costume at a position. -/
  | wear (position : Nat)
  /-- One of the others, of which there are so many, by chance. -/
  | another (count : Nat)
  deriving DecidableEq, Repr

/-- What a text that names no costume means on the stage. -/
def backdropWord? (t : Target) (text : String) : Option CostumeChoice :=
  let count := t.costumes.length
  if !t.isStage then none
  else if text = "next backdrop" then some (.wear ((t.costume + 1) % count))
  else if text = "previous backdrop" then some (.wear ((t.costume + count - 1) % count))
  else if text = "random backdrop" then some (if 1 < count then .another (count - 1) else .stay)
  else none

/-- What a value means as a costume: a number counts from one and wraps around, a text is a name,
    on the stage one of the words for backdrops, or the spelling of a number. -/
def costumeFor (t : Target) (v : Value) : CostumeChoice :=
  let count := t.costumes.length
  let at? (position : Option Nat) : CostumeChoice := position.elim .stay .wear
  if count = 0 then .stay
  else
    match v with
    | .number n => at? (Asset.byNumber? count n)
    | v =>
      let text := v.toText
      match Asset.byName? t.costumes text, t.backdropWord? text with
      | some i, _ => .wear i
      | none, some choice => choice
      | none, none => at? (Asset.bySpelling? count text)

/-- The position of the costume that is chosen, when chance picks `pick` among the others. -/
def CostumeChoice.position (current pick : Nat) : CostumeChoice → Nat
  | .stay => current
  | .wear i => i
  | .another _ => if current ≤ pick then pick + 1 else pick

/-- Puts on the costume that a value means, when chance picks `pick`. -/
def dress (t : Target) (v : Value) (pick : Nat) : Target :=
  { t with costume := (t.costumeFor v).position t.costume pick }

/-- Puts on the next costume; the last is followed by the first. -/
def nextCostume (t : Target) : Target :=
  if t.costumes.isEmpty then t else { t with costume := (t.costume + 1) % t.costumes.length }

/-- Counts a switch of the backdrop, on the stage. -/
def countSwitch (t : Target) : Target :=
  match t.body with
  | .stage switches => { t with body := .stage (switches + 1) }
  | .sprite _ => t

/-! ## 4. Variables, lists, volume -/

/-- What a variable holds; one that nobody declared holds zero. -/
def valueOf (t : Target) (name : String) : Value := (t.vars.get? name).getD default

/-- Writes a variable. -/
def setVariable (t : Target) (name : String) (v : Value) : Target :=
  { t with vars := t.vars.put name v }

/-- The items of a list; one that nobody declared has none. -/
def items (t : Target) (name : String) : List Value := (t.lists.get? name).getD []

/-- Writes the items of a list. -/
def setItems (t : Target) (name : String) (items : List Value) : Target :=
  { t with lists := t.lists.put name items }

/-- Makes an effect as strong as it can be, nearest to a number. -/
def setEffect (t : Target) (effect : Effect) (x : Float) : Target :=
  { t with effects := t.effects.set effect x }

/-- Takes the volume nearest to a number. -/
def setVolume (t : Target) (volume : Float) : Target :=
  { t with volume := Number.clamp 0.0 100.0 volume }

end Target

end BlockScript
