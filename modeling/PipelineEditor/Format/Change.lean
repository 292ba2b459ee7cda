import PipelineEditor.Change
import PipelineEditor.Format.Link

/-!
# The written form of changes

A change is written as a tagged record; its kind is the name of the step.
-/

namespace PipelineEditor

namespace Change

/-- A record of a kind, with its other fields. -/
def record (kind : String) (fields : List (String × Json)) : Json :=
  .object (("change", .string kind) :: fields)

/-- The fields of a step that puts an operator in place or takes it away. -/
def operatorFields (op : Operator) (position : Point) (links : List SavedLink) :
    List (String × Json) :=
  [("operator", op.toJson), ("position", position.toJson),
    ("links", .ofList SavedLink.toJson links)]

def toJson : Change → Json
  | addOperator op position links => record "addOperator" (operatorFields op position links)
  | deleteOperator op position links => record "deleteOperator" (operatorFields op position links)
  | addLink saved => record "addLink" [("snapshot", saved.toJson)]
  | deleteLink saved => record "deleteLink" [("snapshot", saved.toJson)]
  | setProperties id old new =>
    record "setProperty" [("operatorID", .string id), ("old", old), ("new", new)]
  | setDisabled id old new =>
    record "setDisabled" [("operatorID", .string id), ("old", .bool old), ("new", .bool new)]
  | setBreakpoint id old new =>
    record "setBreakpoint" [("linkID", .string id), ("old", .ofOption Breakpoint.toJson old),
      ("new", .ofOption Breakpoint.toJson new)]
  | move id start finish =>
    record "move" [("operatorID", .string id), ("from", start.toJson), ("to", finish.toJson)]

end Change

namespace Command

def toJson (command : Command) : Json := .ofList Change.toJson command

end Command

end PipelineEditor
