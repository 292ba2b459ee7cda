import PipelineEditor.Format.Event
import PipelineEditor.Format.Schema
import PipelineEditor.Inference.Propagation

/-!
# The written form of requests to the inference service and of what becomes of the answers
-/

namespace PipelineEditor

namespace Request

def toJson (request : Request) : Json :=
  .object [
    ("sequence", .ofNat request.sequence),
    ("revision", .ofNat request.revision),
    ("body", request.plan.toJson)]

end Request

namespace Outcome

/-- A failure is written by its text, in place of the answer. -/
def toJson (outcome : Outcome) : Json :=
  .object [
    ("sequence", .ofNat outcome.sequence),
    ("revision", .ofNat outcome.revision),
    match outcome.answer with
    | .ok response => ("response", response.toJson)
    | .error text => ("failed", .string text)]

end Outcome

namespace Applied

def toJson (applied : Applied) : Json :=
  .object [
    ("stale", .bool applied.stale),
    ("events", .ofList Event.toJson applied.events),
    ("corrected", .ofList .string applied.corrected)]

end Applied

end PipelineEditor
