import BlockScript.Dice
import BlockScript.Value.Basic

/-!
# Items of lists

Lists hold values, counted from one. An index is a number, whose fraction does not count, or one of
the words for the last item, for any item and for all items.

* `ItemIndex.of`: what a value means as an index into a list of a given length;
* `Items.contents`: a list as one text.
-/

namespace BlockScript

/-- What a value means as an index. -/
inductive ItemIndex
  /-- The item after so many others. -/
  | at (position : Nat)
  /-- All items. -/
  | all
  /-- No item. -/
  | none
  deriving DecidableEq, Repr

namespace ItemIndex

/-- What a number means as an index: its whole part counts the items from one. -/
def ofNumber (length : Nat) (x : Float) : ItemIndex :=
  match Number.floor? x with
  | some n => if 1 ≤ n ∧ n ≤ length then .at (n - 1).toNat else .none
  | Option.none => .none

/-- What a value means as an index into a list of a length. -/
def of (length : Nat) (v : Value) (dice : Dice) : ItemIndex × Dice :=
  match v with
  | .text "all" => (.all, dice)
  | .text "last" => (if 0 < length then .at (length - 1) else .none, dice)
  | .text "random" | .text "any" =>
    if 0 < length then
      let (position, dice) := dice.below length
      (.at position, dice)
    else (.none, dice)
  | v => (ofNumber length v.toNumber, dice)

end ItemIndex

namespace Items

/-- The item that an index means, and the empty text if it means none. -/
def get (items : List Value) : ItemIndex → Value
  | .at i => items.getD i .empty
  | _ => .empty

/-- The list without what an index means. -/
def delete (items : List Value) : ItemIndex → List Value
  | .at i => items.eraseIdx i
  | .all => []
  | .none => items

/-- The list with an item put where an index means. -/
def insert (items : List Value) (v : Value) : ItemIndex → List Value
  | .at i => items.take i ++ v :: items.drop i
  | _ => items

/-- The list with an item in place of the one that an index means. -/
def replace (items : List Value) (v : Value) : ItemIndex → List Value
  | .at i => items.set i v
  | _ => items

/-- Whether an item is a text of one character. -/
def isLetter : Value → Bool
  | .text s => s.length == 1
  | _ => false

/-- The items as one text: letters without blanks between them, anything else with. -/
def contents (items : List Value) : String :=
  let separator := if items.all isLetter then "" else " "
  separator.intercalate (items.map Value.toText)

end Items

/-- Whether a number drawn up to the value is whole. What is typed counts as it is written. -/
def Value.isWholeBound : Value → Bool
  | .number x => x.isNaN || Number.isWhole x
  | .boolean _ => true
  | .text s => !s.toList.contains '.'

end BlockScript
