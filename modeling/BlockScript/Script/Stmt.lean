import BlockScript.Script.Expr

/-!
# Statements

A script is a list of statements; branches and native loops hold lists of their own. Labels mark
where a script can be resumed; they are cut away before it runs (`Script.Cut`).

* `Stmt.isTerminator`: after which nothing in the same list runs;
* `Stmt.containsLabel`: whether a label stands anywhere inside.
-/

namespace BlockScript

/-- Changes to a list. -/
inductive ListOp
  | add (list : Storage) (item : Expr)
  | delete (list : Storage) (index : Expr)
  | deleteAll (list : Storage)
  | insert (list : Storage) (index item : Expr)
  | replace (list : Storage) (index item : Expr)

/-- Moves and turns of a sprite. -/
inductive MotionOp
  | move (steps : Expr)
  | turn (degrees : Expr)
  | gotoXY (x y : Expr)
  | gotoTarget (name : Expr)
  /-- A step of the glide that the registers describe. -/
  | glideStep
  | setX (x : Expr)
  | setY (y : Expr)
  | changeX (by' : Expr)
  | changeY (by' : Expr)
  | pointIn (degrees : Expr)
  | pointTowards (name : Expr)
  | bounce
  | setRotationStyle (style : RotationStyle)

/-- Changes of appearance. -/
inductive LooksOp
  | switchCostume (costume : Expr)
  | nextCostume
  | say (message : Expr) (think : Bool)
  | setSize (size : Expr)
  | changeSize (by' : Expr)
  | setEffect (effect : Effect) (value : Expr)
  | changeEffect (effect : Effect) (by' : Expr)
  | clearEffects
  | show
  | hide
  | goToFront (front : Bool)
  | changeLayer (by' : Expr)

/-- Sounds. -/
inductive SoundOp
  | play (sound : Expr)
  /-- Starts a sound and remembers the request. -/
  | playUntilDone (sound : Expr)
  | stopAll
  | setVolume (volume : Expr)
  | changeVolume (by' : Expr)

/-- Drawing with the pen. -/
inductive PenOp
  | clear
  | stamp
  | down
  | up
  | setColor (color : Expr)
  | setSize (size : Expr)
  | changeSize (by' : Expr)

/-- Statements. -/
inductive Stmt
  /-- A place to resume at. -/
  | label (l : Label)
  /-- Go on at a label: at once inside a warp procedure, otherwise after yielding. -/
  | queue (l : Label)
  /-- Yield, and go on at a label. -/
  | forceQueue (l : Label)
  /-- Push a copy of the registers on the save stack. -/
  | save
  /-- Take the registers back from the save stack. -/
  | restore
  /-- Write a register. -/
  | setRegister (r : Register) (e : Expr)
  /-- One of two lists, by a condition. -/
  | branch (cond : Expr) (yes no : List Stmt)
  /-- A counted loop that does not yield. -/
  | repeat (times : Expr) (body : List Stmt)
  /-- A conditional loop that does not yield. -/
  | while (cond : Expr) (body : List Stmt)
  /-- An endless loop that does not yield. -/
  | forever (body : List Stmt)
  /-- End the thread. -/
  | return
  /-- Leave the procedure. -/
  | endCall
  /-- Enter a procedure and resume at a label. -/
  | call (procedure : ProcId) (args : List Expr) (resume : Label)
  /-- Send a message; a waiting sender remembers the group it starts. -/
  | broadcast (message : Expr) (wait : Bool)
  /-- Change the backdrop; a waiting sender remembers the group it starts. -/
  | switchBackdrop (backdrop : Expr) (wait : Bool)
  /-- Write a variable. -/
  | setVariable (s : Storage) (value : Expr)
  /-- Add to a variable. -/
  | changeVariable (s : Storage) (by' : Expr)
  | list (op : ListOp)
  | motion (op : MotionOp)
  | looks (op : LooksOp)
  | sound (op : SoundOp)
  | pen (op : PenOp)
  /-- Ask a question and remember the request. -/
  | ask (question : Expr)
  /-- Take the answer to the remembered request. -/
  | collectAnswer
  /-- Set the timer to zero. -/
  | resetTimer
  /-- Clone a sprite. -/
  | createClone (of : Expr)
  /-- Delete the running clone. -/
  | deleteClone
  /-- Stop every thread. -/
  | stopAll
  /-- Stop the other threads of the running target. -/
  | stopOthers

namespace Stmt

instance : Inhabited Stmt := ⟨.return⟩

/-- Whether nothing after the statement in its list runs. -/
def isTerminator : Stmt → Bool
  | .return | .endCall | .queue _ | .forceQueue _ | .call .. => true
  | _ => false

mutual

/-- Whether a label stands anywhere in the statement. -/
def containsLabel : Stmt → Bool
  | .label _ => true
  | .branch _ yes no => anyLabel yes || anyLabel no
  | .repeat _ body | .while _ body | .forever body => anyLabel body
  | _ => false

/-- Whether a label stands anywhere in the list. -/
def anyLabel : List Stmt → Bool
  | [] => false
  | s :: rest => s.containsLabel || anyLabel rest

end

end Stmt

end BlockScript
