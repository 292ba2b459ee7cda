import PipelineEditor.Format.Link
import PipelineEditor.View.Bridge

/-!
# The written form of what is drawn

Gestures and intents are written as tagged records, requests to draw as lists that start with the
name of the request, and a canvas as the shapes on it.
-/

namespace PipelineEditor

namespace Anchor

def toJson : Anchor → Json
  | port ref => ref.toJson
  | loose point => point.toJson

end Anchor

namespace LinkShape

def toJson (shape : LinkShape) : Json := .array [shape.source.toJson, shape.target.toJson]

end LinkShape

namespace LinkEnd

/-- The written name. -/
def name : LinkEnd → String
  | source => "source"
  | target => "target"

end LinkEnd

namespace Gesture

/-- A record of a kind, with its other fields. -/
def record (kind : String) (fields : List (String × Json)) : Json :=
  .object (("gesture", .string kind) :: fields)

def toJson : Gesture → Json
  | linkDrawn id source target =>
    record "linkDrawn" [("linkID", .string id), ("source", source.toJson),
      ("target", target.toJson)]
  | linkEndMoved id moved destination =>
    record "linkEndMoved" [
      ("linkID", .string id), ("end", .string moved.name), ("to", destination.toJson)]
  | shapeDeleted id => record "shapeDeleted" [("operatorID", .string id)]
  | linkShapeDeleted id => record "linkShapeDeleted" [("linkID", .string id)]
  | shapesDeleted operators links =>
    record "shapesDeleted" [("operatorIDs", .ofList .string operators),
      ("linkIDs", .ofList .string links)]
  | shapeMoved id position =>
    record "shapeMoved" [("operatorID", .string id), ("position", position.toJson)]

end Gesture

namespace Intent

/-- A record of a kind, with its other fields. -/
def record (kind : String) (fields : List (String × Json)) : Json :=
  .object (("request", .string kind) :: fields)

def toJson : Intent → Json
  | addLink link => record "addLink" [("link", link.toJson)]
  | deleteLink id => record "deleteLink" [("linkID", .string id)]
  | deleteOperator id => record "deleteOperator" [("operatorID", .string id)]
  | moveOperator id position =>
    record "moveOperator" [("operatorID", .string id), ("position", position.toJson)]

end Intent

namespace NameSet

def toJson (names : NameSet) : Json := .ofList .string names.keys

end NameSet

namespace Canvas

def toJson (canvas : Canvas) : Json :=
  .object [
    ("operators", .ofDict Point.toJson canvas.operators),
    ("links", .ofDict Link.toJson canvas.links),
    ("highlighted", canvas.highlighted.toJson),
    ("disabled", canvas.disabled.toJson),
    ("invalid", canvas.invalid.toJson)]

end Canvas

namespace Stroke

def toJson : Stroke → Json
  | addOperator id p => .array [.string "addOperator", .string id, .ofDouble p.x, .ofDouble p.y]
  | removeOperator id => .array [.string "removeOperator", .string id]
  | addLink id => .array [.string "addLink", .string id]
  | removeLink id => .array [.string "removeLink", .string id]
  | moveOperator id p => .array [.string "moveOperator", .string id, .ofDouble p.x, .ofDouble p.y]
  | setHighlighted id on => .array [.string "setHighlighted", .string id, .bool on]
  | setDisabled id on => .array [.string "setDisabled", .string id, .bool on]
  | setBreakpoint id breakpoint =>
    .array [.string "setBreakpoint", .string id, .ofOption Breakpoint.toJson breakpoint]
  | setValidity id valid => .array [.string "setValidity", .string id, .bool valid]
  | clear => .array [.string "clear"]

end Stroke

end PipelineEditor
