import PipelineEditor.Format.Operator
import PipelineEditor.Validation.Check

/-!
# The written form of findings
-/

namespace PipelineEditor

namespace Findings

def toJson (findings : Findings) : Json :=
  .object [
    ("operatorID", .string findings.id),
    ("isValid", .bool findings.isValid),
    ("errors", .ofDict .string findings.errors)]

end Findings

end PipelineEditor
