import BlockScript.Project.Basic
import BlockScript.Script.Expr

/-!
# Scope

Which variable or list a block means. A declared id decides before the name does, and the sprite's
declarations before the stage's; a name that nobody declares belongs to the stage, where it comes
into being when it is first written. Parameters of the procedure at hand are found by name.
-/

namespace BlockScript.Compile

/-- Which declarations a reference is looked up in. -/
inductive Kind
  | variable
  | list
  deriving DecidableEq, Repr

/-- A target's declarations of the kind. -/
def Kind.declared (k : Kind) (t : TargetData) : Table Declaration :=
  match k with
  | .variable => t.vars
  | .list => t.lists

/-- Where names are looked up. -/
structure Scope where
  /-- The sprite at hand, none for the stage. -/
  sprite : Option TargetData
  stage : Option TargetData
  /-- The parameters of the procedure at hand. -/
  params : List String := []

namespace Scope

/-- The scope of a target. -/
def of (target : TargetData) (stage : Option TargetData) : Scope :=
  if target.isStage then ⟨none, some target, []⟩ else ⟨some target, stage, []⟩

/-- The scope inside a procedure. -/
def enter (s : Scope) (params : List String) : Scope := { s with params }

/-- The scope outside every procedure. -/
def leave (s : Scope) : Scope := { s with params := [] }

/-- The position of a parameter. -/
def argument? (s : Scope) (name : String) : Option Nat :=
  s.params.findIdx? (· == name)

/-- The name under which a target declares an id. -/
def nameOf? (k : Kind) (t : Option TargetData) (id : String) : Option String :=
  t.bind fun t => ((k.declared t).get? id).map (·.name)

/-- Whether a target declares a name. -/
def declares (k : Kind) (t : Option TargetData) (name : String) : Bool :=
  match t with
  | some t => (k.declared t).values.any (·.name == name)
  | none => false

/-- The storage of a name on its own: the sprite's if it declares the name, else the stage's. -/
def resolveName (s : Scope) (k : Kind) (name : String) : Storage :=
  if declares k s.sprite name then .ofTarget name else .ofStage name

/-- The storage that a reference means. -/
def resolve (s : Scope) (k : Kind) (name : String) (id : Option String) : Storage :=
  match id with
  | none => s.resolveName k name
  | some id =>
    match nameOf? k s.sprite id with
    | some declared => .ofTarget declared
    | none =>
      match nameOf? k s.stage id with
      | some declared => .ofStage declared
      | none => s.resolveName k name

end Scope

end BlockScript.Compile
