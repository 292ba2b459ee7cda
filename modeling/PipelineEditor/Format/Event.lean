import PipelineEditor.Event
import PipelineEditor.Format.Link

/-!
# The written form of events

An event is a tagged record; its kind is the name of the event.
-/

namespace PipelineEditor

open Document

variable {σ : Type} [Document σ]

namespace Stream

/-- The written name. -/
def name : Stream → String
  | operatorAdded => "OperatorAdded"
  | operatorDeleted => "OperatorDeleted"
  | linkAdded => "LinkAdded"
  | linkDeleted => "LinkDeleted"
  | propertyChanged => "PropertyChanged"
  | auxiliary => "Auxiliary"
  | highlight => "Highlight"
  | validation => "Validation"
  | modification => "Modification"
  | propagation => "Propagation"

end Stream

namespace Event

def toJson : Event → Json
  | operatorAdded operator position =>
    .object [("type", .string "operatorAdded"), ("operator", operator.toJson),
      ("position", position.toJson)]
  | operatorDeleted operator =>
    .object [("type", .string "operatorDeleted"), ("operator", operator.toJson)]
  | linkAdded link => .object [("type", .string "linkAdded"), ("link", link.toJson)]
  | linkDeleted link => .object [("type", .string "linkDeleted"), ("link", link.toJson)]
  | propertyChanged id old new =>
    .object [("type", .string "propertyChanged"), ("operatorID", .string id),
      ("oldProperties", old), ("newProperties", new)]
  | operatorDisabledChanged id disabled =>
    .object [("type", .string "operatorDisabledChanged"), ("operatorID", .string id),
      ("disabled", .bool disabled)]
  | breakpointChanged id breakpoint =>
    .object [("type", .string "breakpointChanged"), ("linkID", .string id),
      ("breakpoint", .ofOption Breakpoint.toJson breakpoint)]
  | operatorMoved id position =>
    .object [("type", .string "operatorMoved"), ("operatorID", .string id),
      ("position", position.toJson)]
  | operatorsHighlighted ids =>
    .object [("type", .string "operatorsHighlighted"), ("operatorIDs", .ofList .string ids)]
  | operatorsUnhighlighted ids =>
    .object [("type", .string "operatorsUnhighlighted"), ("operatorIDs", .ofList .string ids)]
  | operatorValidityChanged id valid errors =>
    .object [("type", .string "operatorValidityChanged"), ("operatorID", .string id),
      ("isValid", .bool valid), ("errors", .ofDict .string errors)]
  | operatorValidationCleared id =>
    .object [("type", .string "operatorValidationCleared"), ("operatorID", .string id)]
  | modificationEnabledChanged enabled =>
    .object [("type", .string "modificationEnabledChanged"), ("enabled", .bool enabled)]
  | schemaOverlayChanged id schema =>
    .object [("type", .string "schemaOverlayChanged"), ("operatorID", .string id),
      ("schema", schema)]
  | propagationFailed sequence error =>
    .object [("type", .string "propagationFailed"), ("sequence", .ofNat sequence),
      ("error", .string error)]

/-- The breakpoint of a written event.  Among named fields it may be left out, among listed ones it
may not. -/
def breakpoint? (rest : Layer σ) (fields : Fields σ) : Option (Option Breakpoint) :=
  match rest with
  | .array _ => fields.required "breakpoint" (optional? Breakpoint.readNested?)
  | _ => fields.withDefault "breakpoint" none (optional? Breakpoint.readNested?)

/-- The event of a kind, from the level that holds its other fields. -/
def ofKind? (kind : String) (rest : Layer σ) : Option Event :=
  match kind with
  | "operatorAdded" => do
    let fields ← recordLayer? ["operator", "position"] rest
    return .operatorAdded (← fields.required "operator" Operator.read?)
      (← fields.required "position" Point.read?)
  | "operatorDeleted" => do
    let fields ← recordLayer? ["operator"] rest
    return .operatorDeleted (← fields.required "operator" Operator.read?)
  | "linkAdded" => do
    let fields ← recordLayer? ["link"] rest
    return .linkAdded (← fields.required "link" Link.read?)
  | "linkDeleted" => do
    let fields ← recordLayer? ["link"] rest
    return .linkDeleted (← fields.required "link" Link.read?)
  | "propertyChanged" => do
    let fields ← recordLayer? ["operatorID", "oldProperties", "newProperties"] rest
    return .propertyChanged (← fields.required "operatorID" string?)
      (← fields.required "oldProperties" value?) (← fields.required "newProperties" value?)
  | "operatorDisabledChanged" => do
    let fields ← recordLayer? ["operatorID", "disabled"] rest
    return .operatorDisabledChanged (← fields.required "operatorID" string?)
      (← fields.required "disabled" bool?)
  | "breakpointChanged" => do
    let fields ← recordLayer? ["linkID", "breakpoint"] rest
    return .breakpointChanged (← fields.required "linkID" string?) (← breakpoint? rest fields)
  | "operatorMoved" => do
    let fields ← recordLayer? ["operatorID", "position"] rest
    return .operatorMoved (← fields.required "operatorID" string?)
      (← fields.required "position" Point.read?)
  | "operatorsHighlighted" => do
    let fields ← recordLayer? ["operatorIDs"] rest
    return .operatorsHighlighted (← fields.required "operatorIDs" (list? string?))
  | "operatorsUnhighlighted" => do
    let fields ← recordLayer? ["operatorIDs"] rest
    return .operatorsUnhighlighted (← fields.required "operatorIDs" (list? string?))
  | "operatorValidityChanged" => do
    let fields ← recordLayer? ["operatorID", "isValid", "errors"] rest
    return .operatorValidityChanged (← fields.required "operatorID" string?)
      (← fields.required "isValid" bool?) (← fields.required "errors" (dict? string?))
  | "operatorValidationCleared" => do
    let fields ← recordLayer? ["operatorID"] rest
    return .operatorValidationCleared (← fields.required "operatorID" string?)
  | "modificationEnabledChanged" => do
    let fields ← recordLayer? ["enabled"] rest
    return .modificationEnabledChanged (← fields.required "enabled" bool?)
  | "schemaOverlayChanged" => do
    let fields ← recordLayer? ["operatorID", "schema"] rest
    return .schemaOverlayChanged (← fields.required "operatorID" string?)
      (← fields.required "schema" value?)
  | "propagationFailed" => do
    let fields ← recordLayer? ["sequence", "error"] rest
    return .propagationFailed (← fields.required "sequence" (nat? UInt64.size))
      (← fields.required "error" string?)
  | _ => none

def read? (doc : σ) : Option Event := do
  let (tag, rest) ← tagged? doc
  ofKind? (← string? tag) rest

end Event

end PipelineEditor
