import PipelineEditor.Content
import PipelineEditor.Format.Link
import PipelineEditor.Json.Parser
import PipelineEditor.Json.Printer

/-!
# The written form of saved pipelines
-/

namespace PipelineEditor

open Document

variable {σ : Type} [Document σ]

namespace Content

def toJson (content : Content) : Json :=
  .object [
    ("operators", .ofList Operator.toJson content.operators),
    ("operatorPositions", .ofDict Point.toJson content.positions),
    ("links", .ofList Link.toJson content.links),
    ("breakpoints", .ofDict Breakpoint.toJson content.breakpoints)]

def read? (doc : σ) : Option Content := do
  let fields ← record? ["operators", "operatorPositions", "links", "breakpoints"] doc
  return {
    operators := ← fields.required "operators" (list? Operator.read?)
    positions := ← fields.required "operatorPositions" (dict? Point.read?)
    links := ← fields.required "links" (list? Link.read?)
    breakpoints := ← fields.withDefault "breakpoints" ∅ (dict? Breakpoint.read?) }

/-- The text that a pipeline is saved as. -/
def toText (content : Content) : String := content.toJson.indented

/-- The pipeline that a text holds. -/
def ofText (text : String) : Except EditError Content :=
  match Json.Tree.parse? text >>= read? with
  | some content => .ok content
  | none => .error .malformedDocument

/-- The pipeline in a file with the given bytes, if there is such a file. -/
def ofFile (bytes : Option ByteArray) : Except EditError Content :=
  match bytes >>= String.fromUTF8? with
  | some text => ofText text
  | none => .error .fileUnusable

end Content

end PipelineEditor
