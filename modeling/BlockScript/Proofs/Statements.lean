import BlockScript.Script.Cut
import Mathlib.Data.List.Nodup

/-!
# Statements inside statements

Branches and native loops hold statements of their own, so a fact about a script is a fact about a
tree.

* `Stmt.exprs`, `Expr.Frees`: the expressions of a statement, and those that read no register;
* `Stmt.induction`: induction over a script, with the statements that hold others named;
* `Script.nodes`: every statement of a script, at whatever depth;
* `Script.labels`: the labels of a script in the order in which they stand, as far as branches go;
* `Script.Clear`: no label stands inside a native loop, so `Script.labels` has all of them
  (`Script.mem_labels_of_mem_nodes`).
-/

namespace BlockScript

/-! ## 1. Expressions -/

/-- The expressions of the operation. -/
def ListOp.exprs : ListOp → List Expr
  | .add _ e | .delete _ e => [e]
  | .deleteAll _ => []
  | .insert _ i e | .replace _ i e => [i, e]

@[inherit_doc ListOp.exprs]
def MotionOp.exprs : MotionOp → List Expr
  | .move e | .turn e | .gotoTarget e | .setX e | .setY e | .changeX e | .changeY e | .pointIn e
  | .pointTowards e => [e]
  | .gotoXY x y => [x, y]
  | .glideStep | .bounce | .setRotationStyle _ => []

@[inherit_doc ListOp.exprs]
def LooksOp.exprs : LooksOp → List Expr
  | .switchCostume e | .say e _ | .setSize e | .changeSize e | .setEffect _ e | .changeEffect _ e
  | .changeLayer e => [e]
  | .nextCostume | .clearEffects | .show | .hide | .goToFront _ => []

@[inherit_doc ListOp.exprs]
def SoundOp.exprs : SoundOp → List Expr
  | .play e | .playUntilDone e | .setVolume e | .changeVolume e => [e]
  | .stopAll => []

@[inherit_doc ListOp.exprs]
def PenOp.exprs : PenOp → List Expr
  | .setColor e | .setSize e | .changeSize e => [e]
  | .clear | .stamp | .down | .up => []

/-- The expression reads no register, unless that is granted. -/
def Expr.Frees (reads : Prop) : Expr → Prop
  | .register _ | .groupRunning | .ticketPending => reads
  | .listItem _ e | .listIndexOf _ e | .listContains _ e | .not e | .math _ e | .round e
  | .length e | .keyPressed e | .touching e | .attribute _ e | .cast _ e => e.Frees reads
  | .binary _ a b | .compare _ a b | .and a b | .or a b | .join a b | .letterOf a b
  | .contains a b | .random a b => a.Frees reads ∧ b.Frees reads
  | _ => True

theorem Expr.frees_true (e : Expr) : e.Frees True := by
  induction e with
  | register | groupRunning | ticketPending => exact trivial
  | listItem _ _ ih | listIndexOf _ _ ih | listContains _ _ ih | not _ ih | math _ _ ih
  | round _ ih | length _ ih | keyPressed _ ih | touching _ ih | «attribute» _ _ ih
  | cast _ _ ih => exact ih
  | binary _ _ _ ha hb | compare _ _ _ ha hb | and _ _ ha hb | or _ _ ha hb | join _ _ ha hb
  | letterOf _ _ ha hb | contains _ _ ha hb | random _ _ ha hb => exact ⟨ha, hb⟩
  | _ => exact trivial

namespace Stmt

/-- The expressions of the statement, those of statements inside it apart. -/
def exprs : Stmt → List Expr
  | .setRegister _ e | .branch e _ _ | .repeat e _ | .while e _ | .broadcast e _
  | .switchBackdrop e _ | .setVariable _ e | .changeVariable _ e | .ask e | .createClone e => [e]
  | .call _ args _ => args
  | .list op => op.exprs
  | .motion op => op.exprs
  | .looks op => op.exprs
  | .sound op => op.exprs
  | .pen op => op.exprs
  | _ => []

/-- Whether the statement does without registers: it reads none but in its expressions, and writes
    none unless the thread waits for a request. -/
def isLight : Stmt → Bool
  | .motion .glideStep | .sound (.playUntilDone _) | .broadcast _ true | .switchBackdrop _ true =>
    false
  | .motion _ | .sound _ | .broadcast .. | .switchBackdrop .. | .setVariable ..
  | .changeVariable .. | .list _ | .looks _ | .pen _ | .resetTimer | .createClone _ | .deleteClone
  | .stopAll | .stopOthers => true
  | _ => false

/-! ## 2. Induction -/

/-- Whether the statement holds no others. -/
def isLeaf : Stmt → Bool
  | .branch .. | .repeat .. | .while .. | .forever _ => false
  | _ => true

/-- **Induction over scripts**: over the statements of a list, and into branches and loops. -/
theorem induction {P : Stmt → Prop} {Q : List Stmt → Prop}
    (leaf : ∀ s, s.isLeaf = true → P s)
    (branch : ∀ cond yes no, Q yes → Q no → P (.branch cond yes no))
    («repeat» : ∀ times body, Q body → P (.repeat times body))
    («while» : ∀ cond body, Q body → P (.while cond body))
    (forever : ∀ body, Q body → P (.forever body))
    (nil : Q []) (cons : ∀ s rest, P s → Q rest → Q (s :: rest)) : ∀ script, Q script := by
  apply @Stmt.rec_1 P Q
  case branch => exact branch
  case «repeat» => exact «repeat»
  case «while» => exact «while»
  case forever => exact forever
  case nil => exact nil
  case cons => exact cons
  all_goals
    intros
    exact leaf _ rfl

end Stmt

namespace Script

/-! ## 3. The statements of a script -/

mutual

/-- The statement and every statement inside it. -/
def nodesOf : Stmt → List Stmt
  | .branch cond yes no => .branch cond yes no :: (nodes yes ++ nodes no)
  | .repeat times body => .repeat times body :: nodes body
  | .while cond body => .while cond body :: nodes body
  | .forever body => .forever body :: nodes body
  | s => [s]

/-- Every statement of a script, at whatever depth. -/
def nodes : List Stmt → List Stmt
  | [] => []
  | s :: rest => nodesOf s ++ nodes rest

end

theorem nodesOf_leaf {s : Stmt} (h : s.isLeaf = true) : nodesOf s = [s] := by
  cases s <;> first | rfl | cases h

theorem nodes_append (a b : List Stmt) : nodes (a ++ b) = nodes a ++ nodes b := by
  induction a with
  | nil => rfl
  | cons s rest ih =>
    rw [List.cons_append, nodes, nodes, ih, List.append_assoc]

theorem mem_nodesOf_self (s : Stmt) : s ∈ nodesOf s := by
  cases s <;> exact List.mem_cons_self

theorem mem_nodes_cons {n s : Stmt} {rest : List Stmt} :
    n ∈ nodes (s :: rest) ↔ n ∈ nodesOf s ∨ n ∈ nodes rest := by
  rw [nodes, List.mem_append]

theorem mem_nodes_append {n : Stmt} {a b : List Stmt} :
    n ∈ nodes (a ++ b) ↔ n ∈ nodes a ∨ n ∈ nodes b := by
  rw [nodes_append, List.mem_append]

section Nodes

variable {P : Stmt → Prop}

theorem forall_nodes_cons {s : Stmt} {rest : List Stmt} :
    (∀ n ∈ nodes (s :: rest), P n) ↔ (∀ n ∈ nodesOf s, P n) ∧ ∀ n ∈ nodes rest, P n := by
  rw [nodes, List.forall_mem_append]

theorem forall_nodes_append {a b : List Stmt} :
    (∀ n ∈ nodes (a ++ b), P n) ↔ (∀ n ∈ nodes a, P n) ∧ ∀ n ∈ nodes b, P n := by
  rw [nodes_append, List.forall_mem_append]

theorem forall_nodes_nil : ∀ n ∈ nodes [], P n := fun _ h => absurd h List.not_mem_nil

theorem forall_nodesOf_leaf {s : Stmt} (hs : s.isLeaf = true) : (∀ n ∈ nodesOf s, P n) ↔ P s := by
  rw [nodesOf_leaf hs, List.forall_mem_singleton]

theorem forall_nodesOf_branch {cond : Expr} {yes no : List Stmt} :
    (∀ n ∈ nodesOf (.branch cond yes no), P n) ↔
      P (.branch cond yes no) ∧ (∀ n ∈ nodes yes, P n) ∧ ∀ n ∈ nodes no, P n := by
  rw [nodesOf, List.forall_mem_cons, List.forall_mem_append]

end Nodes

/-! ## 4. The labels of a script -/

mutual

/-- The labels inside a statement, as far as branches go. -/
def labelsAt : Stmt → List Label
  | .label l => [l]
  | .branch _ yes no => labels yes ++ labels no
  | _ => []

/-- The labels of a script in the order in which they stand, as far as branches go. -/
def labels : List Stmt → List Label
  | [] => []
  | s :: rest => labelsAt s ++ labels rest

end

theorem labels_append (a b : List Stmt) : labels (a ++ b) = labels a ++ labels b := by
  induction a with
  | nil => rfl
  | cons s rest ih =>
    rw [List.cons_append, labels, labels, ih, List.append_assoc]

mutual

/-- No label stands inside a native loop of the statement. -/
def ClearAt : Stmt → Prop
  | .branch _ yes no => Clear yes ∧ Clear no
  | .repeat _ body | .while _ body | .forever body => Stmt.anyLabel body = false
  | _ => True

/-- No label stands inside a native loop of the script. -/
def Clear : List Stmt → Prop
  | [] => True
  | s :: rest => ClearAt s ∧ Clear rest

end

theorem clear_append {a b : List Stmt} : Clear (a ++ b) ↔ Clear a ∧ Clear b := by
  induction a with
  | nil => exact ⟨fun h => ⟨trivial, h⟩, And.right⟩
  | cons s rest ih =>
    rw [List.cons_append, Clear, Clear, ih, and_assoc]

/-- Where no label is found, none stands at any depth. -/
theorem label_not_mem_nodes (l : Label) (body : List Stmt) :
    Stmt.anyLabel body = false → .label l ∉ nodes body := by
  have hloop {loop : Stmt} {body : List Stmt} (hne : .label l ≠ loop) (h : .label l ∉ nodes body) :
      .label l ∉ loop :: nodes body :=
    List.not_mem_cons_of_ne_of_not_mem hne h
  apply @Stmt.induction
    (fun s => s.containsLabel = false → .label l ∉ nodesOf s)
    (fun body => Stmt.anyLabel body = false → .label l ∉ nodes body)
  case leaf =>
    intro s hs hlabel hmem
    rw [nodesOf_leaf hs, List.mem_singleton] at hmem
    cases hmem
    cases hlabel
  case branch =>
    intro cond yes no hyes hno h
    obtain ⟨h1, h2⟩ := Bool.or_eq_false_iff.mp h
    refine List.not_mem_cons_of_ne_of_not_mem nofun fun hmem => ?_
    rcases List.mem_append.mp hmem with hmem | hmem
    · exact hyes h1 hmem
    · exact hno h2 hmem
  case «repeat» => exact fun _ _ ih h => hloop nofun (ih h)
  case «while» => exact fun _ _ ih h => hloop nofun (ih h)
  case forever => exact fun _ ih h => hloop nofun (ih h)
  case nil => exact fun _ => List.not_mem_nil
  case cons =>
    intro s rest hs hrest h hmem
    obtain ⟨h1, h2⟩ := Bool.or_eq_false_iff.mp h
    rcases mem_nodes_cons.mp hmem with hmem | hmem
    · exact hs h1 hmem
    · exact hrest h2 hmem

/-- Where no label is found, there are none. -/
theorem labels_eq_nil (body : List Stmt) : Stmt.anyLabel body = false → labels body = [] := by
  apply @Stmt.induction
    (fun s => s.containsLabel = false → labelsAt s = [])
    (fun body => Stmt.anyLabel body = false → labels body = [])
  case leaf =>
    intro s hs h
    cases s with
    | label => cases h
    | branch => cases hs
    | _ => rfl
  case branch =>
    intro cond yes no hyes hno h
    obtain ⟨h1, h2⟩ := Bool.or_eq_false_iff.mp h
    rw [labelsAt, hyes h1, hno h2]
    rfl
  case «repeat» => exact fun _ _ _ _ => rfl
  case «while» => exact fun _ _ _ _ => rfl
  case forever => exact fun _ _ _ => rfl
  case nil => exact fun _ => rfl
  case cons =>
    intro s rest hs hrest h
    obtain ⟨h1, h2⟩ := Bool.or_eq_false_iff.mp h
    rw [labels, hs h1, hrest h2]
    rfl

/-- **If no label stands in a loop, the labels of a script are those at whatever depth.** -/
theorem mem_labels_of_mem_nodes (l : Label) (script : List Stmt) :
    Clear script → .label l ∈ nodes script → l ∈ labels script := by
  have hloop {loop : Stmt} {body : List Stmt} (hne : .label l ≠ loop)
      (h : Stmt.anyLabel body = false) : .label l ∉ loop :: nodes body :=
    List.not_mem_cons_of_ne_of_not_mem hne (label_not_mem_nodes l body h)
  apply @Stmt.induction
    (fun s => ClearAt s → .label l ∈ nodesOf s → l ∈ labelsAt s)
    (fun script => Clear script → .label l ∈ nodes script → l ∈ labels script)
  case leaf =>
    intro s hs _ hmem
    rw [nodesOf_leaf hs, List.mem_singleton] at hmem
    cases hmem
    exact List.mem_singleton.mpr rfl
  case branch =>
    intro cond yes no hyes hno h hmem
    rcases List.mem_cons.mp hmem with hmem | hmem
    · cases hmem
    · rcases List.mem_append.mp hmem with hmem | hmem
      · exact List.mem_append_left _ (hyes h.1 hmem)
      · exact List.mem_append_right _ (hno h.2 hmem)
  case «repeat» => exact fun _ _ _ h hmem => absurd hmem (hloop nofun h)
  case «while» => exact fun _ _ _ h hmem => absurd hmem (hloop nofun h)
  case forever => exact fun _ _ h hmem => absurd hmem (hloop nofun h)
  case nil => exact fun _ h => absurd h List.not_mem_nil
  case cons =>
    intro s rest hs hrest h hmem
    rcases mem_nodes_cons.mp hmem with hmem | hmem
    · exact List.mem_append_left _ (hs h.1 hmem)
    · exact List.mem_append_right _ (hrest h.2 hmem)

end Script

end BlockScript
