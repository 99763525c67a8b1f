import BlockScript.Error
import BlockScript.Project.Decode

/-!
# Project files

The text of a project file is JSON in the form of a project, and one of its targets is a stage.
-/

namespace BlockScript

/-- The project in a text. -/
def Project.read (text : String) : Except Error Project :=
  match (Json.read? text).bind Project.ofJson? with
  | none => .error .json
  | some p => if p.stage?.isSome then .ok p else .error (.project .noStage)

end BlockScript
