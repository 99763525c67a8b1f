import BlockScript.Compile.Statement

/-!
# Compiling targets

Every stack that starts with a known hat is a script. Procedures come first and take the first
labels, so that a call may stand before the definition; then each hat in the order of the block ids
takes labels as it needs them. At the end all scripts are cut, and the continuations are put in the
order of their labels.

* `procedures`: what the hats of a target define;
* `hatEvent?`, `trigger?`, `hats`: what starts a hat's script;
* `compile`: the program of a target.
-/

namespace BlockScript.Compile

open Script (Continuation cut)

/-! ## 1. Procedures -/

/-- The signature on a definition, which stands on the prototype inside it. -/
def signature? (t : TargetData) (definition : Block) : Option Mutation := do
  let prototype ← t.block? (← Block.substack? definition "custom_block")
  return prototype.mutation.getD {}

/-- A procedure, with the id of the hat that defines it. -/
structure Definition where
  hat : String
  procedure : Procedure

/-- Adds the procedure that a hat defines, unless its signature is defined before. -/
def addDefinition (t : TargetData) (defs : List Definition) (hat : String × Block) :
    List Definition :=
  if hat.2.opcode != "procedures_definition" then defs
  else
    match signature? t hat.2 with
    | none => defs
    | some signature =>
      match signature.proccode with
      | none => defs
      | some proccode =>
        if defs.any (·.procedure.proccode == proccode) then defs
        else defs ++ [⟨hat.1, ⟨proccode, defs.length, signature.isWarp, signature.names⟩⟩]

/-- The procedures that a target defines, by position; the entry of each is its position. -/
def definitions (t : TargetData) : List Definition :=
  t.topLevel.foldl (addDefinition t) []

/-! ## 2. Scripts -/

/-- What starts a script. -/
inductive Trigger
  | event (e : Event)
  | procedure (id : ProcId)

/-- The event that a hat waits for; none if it waits for none that is known. -/
def hatEvent? (hat : Block) : Option Event :=
  let choice name := (hat.field? name).getD ""
  match hat.opcode with
  | "event_whenflagclicked" => some .flag
  | "event_whenbroadcastreceived" => some (.ofMessage (choice "BROADCAST_OPTION"))
  | "event_whenkeypressed" => some (.ofKey (choice "KEY_OPTION"))
  | "event_whenbackdropswitchesto" => some (.ofBackdrop (choice "BACKDROP"))
  | "event_whenthisspriteclicked" | "event_whenstageclicked" => some .clicked
  | "control_start_as_clone" => some .cloned
  | _ => none

/-- What starts the script of a hat; none if the block is not a known hat. -/
def trigger? (defs : List Definition) (id : String) (hat : Block) : Option Trigger :=
  match hatEvent? hat with
  | some e => some (.event e)
  | none =>
    if hat.opcode = "procedures_definition" then (defs.findIdx? (·.hat == id)).map .procedure
    else none

/-- A compiled script, not cut yet. -/
structure Labelled where
  trigger : Trigger
  entry : Label
  body : List Stmt

/-- The script below a hat. -/
def script (c : Context) (trigger : Trigger) (hat : Block) : Fresh Labelled :=
  match trigger with
  | .event _ => do
    let entry ← freshLabel
    let body ← stackOf c hat.next
    return ⟨trigger, entry, .label entry :: body ++ [.return]⟩
  | .procedure id => do
    let p := c.procedures.getD id ⟨"", 0, false, []⟩
    let body ← stackOf (c.enter id p) hat.next
    return ⟨trigger, p.entry, .label p.entry :: body ++ [.endCall, .return]⟩

/-- The hats of a target that start a script, in the order of their ids, each after what starts
    it. -/
def hats (t : TargetData) : List (Trigger × Block) :=
  t.topLevel.filterMap fun hat =>
    (trigger? (definitions t) hat.1 hat.2).map fun trigger => (trigger, hat.2)

/-- The scripts of a target, in the order of their hats. -/
def scripts (t : TargetData) (stage : Option TargetData) : Fresh (List Labelled) :=
  let c := Context.of t stage ((definitions t).map (·.procedure))
  (hats t).mapM fun hat => script c hat.1 hat.2

/-! ## 3. Programs -/

/-- The parts of all scripts. -/
def parts (scripts : List Labelled) : Except Error (List Continuation) := do
  let parts ← scripts.mapM fun s => (cut s.body).mapError (Error.internal ∘ .cut)
  return parts.flatten

/-- The continuations in the order of their labels, of which there are `count`. -/
def arrange (count : Nat) (parts : List Continuation) : Except Error (List Continuation) :=
  match parts.find? (fun p => count ≤ p.label) with
  | some p => .error (.internal (.unallocated p.label))
  | none =>
    (List.range count).mapM fun l =>
      match parts.find? (fun p => p.label == l) with
      | some p => .ok p
      | none => .error (.internal (.unplaced l))

/-- The scripts that wait for each event. -/
def listeners (scripts : List Labelled) : List (Event × List Label) :=
  scripts.foldl (fun ls s =>
    match s.trigger with
    | .event e => Program.addListener e s.entry ls
    | .procedure _ => ls) []

end BlockScript.Compile

namespace BlockScript

open Compile in
/-- The program of a target; the stage stands for the variables that all targets share. -/
def TargetData.compile (t : TargetData) (stage : Option TargetData) : Except Error Program := do
  let defs := definitions t
  let (scripts, count) ← (scripts t stage).run defs.length
  let parts ← parts scripts
  return {
    continuations := ← arrange count parts
    procedures := defs.map (·.procedure)
    index := Procedure.index (defs.map (·.procedure))
    listeners := listeners scripts }

/-- The programs of all targets of a project. -/
def Project.compile (p : Project) : Except Error (List Program) :=
  p.targets.mapM (·.compile p.stage?)

end BlockScript
