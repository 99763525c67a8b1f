import BlockScript.Text.Joining

/-!
# Clusters

A text falls into clusters: what a reader takes for one character, however many it is made of.
Between two characters a cluster goes on or ends by what their parts are (`Joining`), and in three
cases by what came before them:

* pictures go on after a joiner that follows a picture, with or without marks on it;
* consonants go on after a linker that follows a consonant;
* letters for flags go on in pairs.

**Clusters put together are the text** (`flatten_clusters`).
-/

namespace BlockScript.Text

/-! ## 1. What came before -/

/-- How far a chain of consonants has got. -/
inductive Conjunct
  | none
  /-- A consonant, perhaps with marks. -/
  | consonant
  /-- A consonant, perhaps with marks, and a linker. -/
  | linked
  deriving DecidableEq, Repr

/-- What the end of a text says about the next character. -/
structure Tail where
  last : Joining
  /-- Whether the letters for flags at the end are odd in number. -/
  unpaired : Bool := false
  /-- Whether a picture stands at the end, with or without marks on it. -/
  picture : Bool := false
  /-- Whether a joiner after such a picture stands at the end. -/
  joined : Bool := false
  conjunct : Conjunct := .none

/-- The chain of consonants after one more character. -/
def Conjunct.after (k : Conjunct) : Joining → Conjunct
  | .consonant => .consonant
  | .linker => if k = .none then .none else .linked
  | .extend | .joiner => k
  | _ => .none

/-- Whether a character is a mark on what is before it. -/
def Joining.isMark : Joining → Bool
  | .extend | .linker | .nonJoiner => true
  | _ => false

/-- The end of a text after one more character. -/
def Tail.after (t : Tail) (j : Joining) : Tail :=
  { last := j
    unpaired := j == .regional && !(t.last == .regional && t.unpaired)
    picture := j == .picture || (j.isMark && t.picture)
    joined := j == .joiner && t.picture
    conjunct := t.conjunct.after j }

/-- The end of a text of one character. -/
def Tail.of (j : Joining) : Tail := Tail.after { last := .control } j

/-! ## 2. Where clusters go on -/

/-- Whether a cluster goes on between the end of a text and a character. -/
def Tail.joins (t : Tail) (j : Joining) : Bool :=
  match t.last, j with
  | .carriageReturn, .lineFeed => true
  | .carriageReturn, _ | .lineFeed, _ | .control, _ => false
  | _, .carriageReturn | _, .lineFeed | _, .control => false
  | .leading, .leading | .leading, .vowel => true
  | .leading, .openSyllable | .leading, .closedSyllable => true
  | .vowel, .vowel | .vowel, .trailing => true
  | .openSyllable, .vowel | .openSyllable, .trailing => true
  | .trailing, .trailing | .closedSyllable, .trailing => true
  | _, .extend | _, .linker | _, .nonJoiner | _, .joiner | _, .spacing => true
  | .prepended, _ => true
  | _, .consonant => t.conjunct == .linked
  | _, .picture => t.joined
  | _, .regional => t.unpaired
  | _, _ => false

/-! ## 3. Clusters -/

/-- The clusters of `cs`, the first of which has begun with `begun` (latest first). -/
def clustersFrom (t : Tail) (begun : List Char) : List Char → List (List Char)
  | [] => [begun.reverse]
  | c :: cs =>
    let j := joining c
    if t.joins j then clustersFrom (t.after j) (c :: begun) cs
    else begun.reverse :: clustersFrom (t.after j) [c] cs

/-- The clusters of a text. -/
def clusters : List Char → List (List Char)
  | [] => []
  | c :: cs => clustersFrom (Tail.of (joining c)) [c] cs

theorem flatten_clustersFrom (t : Tail) (begun cs : List Char) :
    (clustersFrom t begun cs).flatten = begun.reverse ++ cs := by
  induction cs generalizing t begun with
  | nil => simp [clustersFrom]
  | cons c cs ih =>
    unfold clustersFrom
    simp only
    split
    · rw [ih]
      simp
    · rw [List.flatten_cons, ih]
      simp

/-- **Clusters put together are the text.** -/
theorem flatten_clusters (cs : List Char) : (clusters cs).flatten = cs := by
  cases cs with
  | nil => rfl
  | cons c cs => exact flatten_clustersFrom _ [c] cs

end BlockScript.Text
