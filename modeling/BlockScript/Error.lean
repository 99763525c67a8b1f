import BlockScript.Script.Cut

/-!
# Faults

Everything that can end in an error, by cause. The words of each fault are in one place,
`Error.message?`.

* `ProjectError`: the project itself is wrong;
* `InternalError`: tables that do not fit together, which the compiler never makes;
* `RuntimeError`: a running script asked for something that is not there;
* `FileError`: a file could not be read.
-/

namespace BlockScript

/-- The identity of a target in a running project. -/
abbrev TargetId := Nat

/-- A target's identity in words. -/
def TargetId.show (id : TargetId) : String := "#" ++ toString id

/-- What is wrong with a project. -/
inductive ProjectError
  /-- No target is a stage. -/
  | noStage
  /-- A block follows itself in a stack. -/
  | linksBack (id : String)
  /-- A block is reached from its own inputs. -/
  | cyclic (id : String)
  deriving DecidableEq, Repr

/-- The fault in words. -/
def ProjectError.message : ProjectError → String
  | .noStage => "project has no stage target"
  | .linksBack id => "block " ++ id ++ " links back into its own stack"
  | .cyclic id => "cyclic block graph at block " ++ id

/-- How tables can fail to fit together. -/
inductive InternalError
  /-- A script cannot be cut. -/
  | cut (e : Script.CutError)
  /-- A continuation carries a label that was never handed out. -/
  | unallocated (l : Label)
  /-- A label was handed out and no continuation carries it. -/
  | unplaced (l : Label)
  /-- There is not one table for each target. -/
  | tableCount (tables targets : Nat)
  deriving DecidableEq, Repr

/-- The fault in words. -/
def InternalError.message : InternalError → String
  | .cut e => e.message
  | .unallocated l => "label " ++ l.show ++ " was never allocated"
  | .unplaced l => "label " ++ l.show ++ " has no continuation"
  | .tableCount tables targets =>
    toString tables ++ " script tables for " ++ toString targets ++ " targets"

/-- What a running script can ask for in vain. -/
inductive RuntimeError
  | noContinuation (l : Label)
  | noProcedure (p : ProcId)
  /-- The target of a thread is gone. -/
  | ownerGone (id : TargetId)
  | targetGone (id : TargetId)
  | stageMissing
  /-- Only sprites can do what the block does. -/
  | spriteOnly
  /-- The save stack is empty. -/
  | restoreWithoutSave
  deriving DecidableEq, Repr

/-- The fault in words. -/
def RuntimeError.message : RuntimeError → String
  | .noContinuation l => "no continuation " ++ l.show
  | .noProcedure p => "no procedure " ++ p.show
  | .ownerGone id => "thread owner " ++ id.show ++ " no longer exists"
  | .targetGone id => "target " ++ id.show ++ " no longer exists"
  | .stageMissing => "the stage is missing"
  | .spriteOnly => "sprite block ran on the stage"
  | .restoreWithoutSave => "register restore without a matching save"

/-- Why a file could not be read. -/
inductive FileError
  | notFound
  /-- Something on the way to it is not a directory. -/
  | notDirectory
  | isDirectory
  /-- Its path, or a name in it, is longer than any. -/
  | nameTooLong
  /-- Reading it is not allowed. -/
  | denied
  | notText
  deriving DecidableEq, Repr

/-- The fault in words. -/
def FileError.message : FileError → String
  | .notFound => "No such file or directory (os error 2)"
  | .notDirectory => "Not a directory (os error 20)"
  | .isDirectory => "Is a directory (os error 21)"
  | .nameTooLong => "File name too long (os error 36)"
  | .denied => "Permission denied (os error 13)"
  | .notText => "stream did not contain valid UTF-8"

/-- The fault in words, with the path before it. -/
def FileError.messageAt (path : Option String) (e : FileError) : String :=
  (path.elim "" fun p => p ++ ": ") ++ e.message

/-- Everything that can go wrong. -/
inductive Error
  | project (e : ProjectError)
  /-- Text that is not JSON, or JSON of the wrong form. -/
  | json
  /-- A file, named by its path if more than one could be meant. -/
  | file (path : Option String) (e : FileError)
  /-- Settings that cannot be read. -/
  | settings
  /-- No frames in a second. -/
  | noFrames
  | internal (e : InternalError)
  | runtime (e : RuntimeError)
  /-- A script that did not come to its end. -/
  | exhausted
  deriving DecidableEq, Repr

/-- The fault in words; faults in the text of a document have none of their own. -/
def Error.message? : Error → Option String
  | .project e => some ("invalid project: " ++ e.message)
  | .json | .settings => none
  | .file path e => some ("io: " ++ e.messageAt path)
  | .noFrames => some "config: fps must be at least 1"
  | .internal e => some ("internal compiler error: " ++ e.message)
  | .runtime e => some ("runtime: " ++ e.message)
  | .exhausted => some "runtime: a script did not come to its end"

end BlockScript
