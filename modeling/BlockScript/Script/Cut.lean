import BlockScript.Script.Stmt

/-!
# Cutting a script into continuations

To resume at a label is to run the rest of the list that holds it, then the rest of every list
around that one, innermost first; the other side of a branch is never entered.

* `after?`: the statements that follow a label, in that sense;
* `normal`: a list without labels, and without what follows a terminator;
* `cut`: one continuation for each label, in the order of the labels.

A native loop cannot be resumed in the middle, so a label inside one is a fault of whoever made the
script, as is a label that stands twice.
-/

namespace BlockScript.Script

/-- A part of a script that can be resumed. -/
structure Continuation where
  /-- Where it resumes. -/
  label : Label
  /-- What runs then. -/
  body : List Stmt

/-- Why a script cannot be cut. -/
inductive CutError
  /-- A label stands at two places. -/
  | placedTwice (l : Label)
  /-- A label stands inside a native loop. -/
  | insideLoop
  /-- A label of the script has no place in it. -/
  | vanished (l : Label)
  deriving DecidableEq, Repr

/-- The fault in words. -/
def CutError.message : CutError → String
  | .placedTwice l => "label " ++ l.show ++ " placed twice"
  | .insideLoop => "suspension point inside a native loop"
  | .vanished l => "label " ++ l.show ++ " vanished while splitting"

/-! ## 1. The labels of a script -/

mutual

/-- Adds the labels of a statement to those seen before it. -/
def labelsOf (seen : List Label) : Stmt → Except CutError (List Label)
  | .label l => if l ∈ seen then .error (.placedTwice l) else .ok (seen ++ [l])
  | .branch _ yes no => do labelsIn (← labelsIn seen yes) no
  | .repeat _ body | .while _ body | .forever body =>
    if Stmt.anyLabel body then .error .insideLoop else .ok seen
  | _ => .ok seen

/-- Adds the labels of a list to those seen before it. -/
def labelsIn (seen : List Label) : List Stmt → Except CutError (List Label)
  | [] => .ok seen
  | s :: rest => do labelsIn (← labelsOf seen s) rest

end

/-! ## 2. What follows a label -/

mutual

/-- What follows a label inside one statement. -/
def afterIn? (l : Label) : Stmt → Option (List Stmt)
  | .label m => if m = l then some [] else none
  | .branch _ yes no =>
    match after? l yes with
    | some rest => some rest
    | none => after? l no
  | _ => none

/-- What follows a label inside a list: the rest of its own list, then of each list around it. -/
def after? (l : Label) : List Stmt → Option (List Stmt)
  | [] => none
  | s :: rest =>
    match afterIn? l s with
    | some inner => some (inner ++ rest)
    | none => after? l rest

end

/-! ## 3. Normal form -/

mutual

/-- The statement with its branches in normal form. -/
def normalStmt : Stmt → Stmt
  | .branch cond yes no => .branch cond (normal yes) (normal no)
  | s => s

/-- The list without labels, up to and with its first terminator. -/
def normal : List Stmt → List Stmt
  | [] => []
  | .label _ :: rest => normal rest
  | s :: rest => if s.isTerminator then [normalStmt s] else normalStmt s :: normal rest

end

/-! ## 4. The cut -/

/-- The continuation at one label. -/
def continuationAt (script : List Stmt) (l : Label) : Except CutError Continuation :=
  match after? l script with
  | some rest => .ok ⟨l, normal rest⟩
  | none => .error (.vanished l)

/-- One continuation for each label of the script, in the order of the labels. -/
def cut (script : List Stmt) : Except CutError (List Continuation) := do
  let labels ← labelsIn [] script
  labels.mapM (continuationAt script)

end BlockScript.Script
