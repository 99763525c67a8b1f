import BlockScript.Script.Cut
import BlockScript.Script.Event
import BlockScript.Table

/-!
# Programs

The compiled scripts of one target: continuations by label, procedures by position and by
signature, and for each event the labels of the scripts that it starts. A target and its clones
share one program.
-/

namespace BlockScript

open Script (Continuation)

/-- A procedure that a target defines. -/
structure Procedure where
  /-- Its signature. -/
  proccode : String
  /-- Where its body starts. -/
  entry : Label
  /-- Whether it runs without yielding. -/
  warp : Bool
  /-- The names of its parameters, in order. -/
  params : List String := []

/-- The position of each procedure, under its signature. -/
def Procedure.index (procedures : List Procedure) : Table ProcId :=
  .ofEntries (procedures.zipIdx.map fun p => (p.1.proccode, p.2))

/-- The compiled scripts of one target. -/
structure Program where
  /-- By label. -/
  continuations : List Continuation := []
  /-- By position. -/
  procedures : List Procedure := []
  /-- The positions of the procedures, by signature. -/
  index : Table ProcId := Table.empty
  /-- The entries of the scripts that wait for an event, in the order of their hats. -/
  listeners : List (Event × List Label) := []

namespace Program

/-- The continuation at a label. -/
def continuation? (p : Program) (l : Label) : Option Continuation :=
  p.continuations[l]?

/-- The procedure at a position. -/
def procedure? (p : Program) (i : ProcId) : Option Procedure :=
  p.procedures[i]?

/-- The scripts that wait for an event. -/
def listening (p : Program) (e : Event) : List Label :=
  (p.listeners.lookup e).getD []

/-- The scripts that an event starts; a key also starts those that wait for any key. -/
def startedBy (p : Program) (e : Event) : List Label :=
  match e with
  | .key name => if name = "any" then p.listening e else p.listening e ++ p.listening .anyKey
  | e => p.listening e

/-- Adds a script that waits for an event. -/
def addListener (e : Event) (l : Label) : List (Event × List Label) → List (Event × List Label)
  | [] => [(e, [l])]
  | (k, ls) :: rest => if k = e then (k, ls ++ [l]) :: rest else (k, ls) :: addListener e l rest

/-- The number of scripts. -/
def scriptCount (p : Program) : Nat :=
  (p.listeners.flatMap (·.2)).length + p.procedures.length

/-- Lets scripts wait for an event, in place of those that did. -/
def listen (p : Program) (e : Event) (scripts : List Label) : Program :=
  { p with listeners := (p.listeners.filter fun l => l.1 != e) ++ [(e, scripts)] }

end Program

end BlockScript
