import BlockScript.Error
import BlockScript.Json.Record
import BlockScript.Options.Document

/-!
# Options

How a project is run: how many frames make a second, whether threads that start in a frame wait for
the next one, who is playing, where the dice start, and how many clones may live at once.

* `Options.ofDocument`: options from a settings document;
* `Options.ofJson?`: options from a tree;
* `Options.validate`: at least one frame in a second.
-/

namespace BlockScript

/-- How a project is run. -/
structure Options where
  /-- Frames in a second. -/
  fps : Nat := 30
  /-- Whether each frame is a single pass. -/
  turbo : Bool := false
  /-- Who is playing. -/
  username : String := ""
  /-- Where the dice start. -/
  seed : Option Nat := none
  /-- How many clones may live at once. -/
  maxClones : Nat := 300
  deriving DecidableEq, Repr

namespace Options

/-- The most frames in a second. -/
def maxFps : Nat := Nat.pow 2 32 - 1

/-- Options that can be run: there is at least one frame in a second. -/
def validate (o : Options) : Except Error Options :=
  if o.fps = 0 then .error .noFrames else .ok o

/-- The length of a frame in seconds. -/
def frameSeconds (o : Options) : Float :=
  1.0 / Number.ofNat (max o.fps 1)

/-- The length of a frame in nanoseconds, to the nearest one. -/
def frameNanos (o : Options) : Nat :=
  match Number.view o.frameSeconds with
  | .finite _ units => Number.divRound (units * Nat.pow 10 9) Number.one
  | _ => 0

/-! ## 1. From a document -/

/-- A whole number from zero to a limit. -/
def natOf? (limit : Nat) (n : Int) : Option Nat :=
  if 0 ≤ n ∧ n ≤ limit then some n.toNat else none

/-- The options with one setting changed; none if there is no such setting. -/
def set? (o : Options) : String × Settings.Setting → Option Options
  | ("fps", .integer n) => (natOf? maxFps n).map fun fps => { o with fps }
  | ("turbo", .boolean turbo) => some { o with turbo }
  | ("username", .text username) => some { o with username }
  | ("seed", .integer n) => (natOf? Number.maxWord n).map fun seed => { o with seed := some seed }
  | ("max_clones", .integer n) =>
    (natOf? Number.maxWord n).map fun maxClones => { o with maxClones }
  | _ => none

/-- The options that a list of settings describes, each of which may stand once. -/
def ofEntries? (entries : List (String × Settings.Setting)) : Option Options :=
  if (entries.map (·.1)).Nodup then entries.foldlM set? {} else none

/-- The options that a settings document describes. -/
def ofDocument (text : String) : Except Error Options :=
  match (Settings.entries? text).bind ofEntries? with
  | some o => o.validate
  | none => .error .settings

/-! ## 2. From a tree -/

/-- The options that a tree describes. -/
def ofJson? (j : Json) : Option Options :=
  match j.record? true ["fps", "turbo", "username", "seed", "max_clones"] with
  | some [fps, turbo, username, seed, maxClones] => do
    return {
      fps := ← Json.defaulted 30 (Json.nat? maxFps) fps
      turbo := ← Json.defaulted false Json.bool? turbo
      username := ← Json.defaulted "" Json.string? username
      seed := ← Json.optional (Json.nat? Number.maxWord) seed
      maxClones := ← Json.defaulted 300 (Json.nat? Number.maxWord) maxClones }
  | _ => none

end Options

end BlockScript
