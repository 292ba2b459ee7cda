import PipelineEditor.Catalogue
import PipelineEditor.Format.Operator
import PipelineEditor.Json.Parser

/-!
# The written form of metadata
-/

namespace PipelineEditor

open Document

variable {σ : Type} [Document σ]

namespace TypeInfo

def toJson (info : TypeInfo) : Json :=
  .object [
    ("userFriendlyName", .string info.friendlyName),
    ("operatorDescription", .ofOption .string info.description),
    ("operatorGroupName", .string info.group),
    ("numInputPorts", .ofNat info.inputCount),
    ("numOutputPorts", .ofNat info.outputCount)]

def read? (doc : σ) : Option TypeInfo := do
  let fields ← record? ["userFriendlyName", "operatorDescription", "operatorGroupName",
    "numInputPorts", "numOutputPorts"] doc
  return {
    friendlyName := ← fields.required "userFriendlyName" string?
    description := ← fields.withDefault "operatorDescription" none (optional? string?)
    group := ← fields.required "operatorGroupName" string?
    inputCount := ← fields.required "numInputPorts" (nat? UInt64.size)
    outputCount := ← fields.required "numOutputPorts" (nat? UInt64.size) }

end TypeInfo

namespace TypeSchema

def toJson (schema : TypeSchema) : Json :=
  .object [
    ("operatorType", .string schema.type),
    ("jsonSchema", schema.jsonSchema),
    ("additionalMetadata", schema.info.toJson),
    ("operatorVersion", .string schema.version)]

def read? (doc : σ) : Option TypeSchema := do
  let fields ← record? ["operatorType", "jsonSchema", "additionalMetadata", "operatorVersion"] doc
  return {
    type := ← fields.required "operatorType" string?
    jsonSchema := ← fields.required "jsonSchema" value?
    info := ← fields.required "additionalMetadata" TypeInfo.read?
    version := ← fields.withDefault "operatorVersion" "" string? }

end TypeSchema

namespace PaletteGroup

def toJson (group : PaletteGroup) : Json :=
  .object [("groupName", .string group.name), ("groupOrder", .ofNat group.order)]

def read? (doc : σ) : Option PaletteGroup := do
  let fields ← record? ["groupName", "groupOrder"] doc
  return {
    name := ← fields.required "groupName" string?
    order := ← fields.required "groupOrder" (nat? UInt32.size) }

end PaletteGroup

namespace AutofillKind

/-- The written name. -/
def label : AutofillKind → String
  | name => "name"
  | list => "list"

end AutofillKind

namespace Autofill

def toJson (field : Autofill) : Json :=
  .array [.string field.property, .string field.kind.label, .ofNat field.port]

end Autofill

namespace OperatorType

/-- A type with what was drawn out of its description. -/
def toJson (t : OperatorType) : Json :=
  .object [
    ("operatorType", .string t.schema.type),
    ("schema", t.schema.toJson),
    ("jsonSchema", t.jsonSchema),
    ("inputPorts", .ofNat t.inputCount),
    ("outputPorts", .ofNat t.outputCount),
    ("required", .ofList .string t.required),
    ("defaults", .ofDict id t.defaults),
    ("autofill", .ofList Autofill.toJson t.autofills)]

end OperatorType

namespace Metadata

def read? (doc : σ) : Option Metadata := do
  let fields ← record? ["operators", "groups"] doc
  return {
    types := ← fields.required "operators" (list? TypeSchema.read?)
    groups := ← fields.withDefault "groups" [] (list? PaletteGroup.read?) }

end Metadata

namespace Catalogue

/-- The catalogue that a document describes. -/
def ofDocument (doc : σ) : Except EditError Catalogue :=
  match Metadata.read? doc with
  | some metadata => .ok (ofMetadata metadata)
  | none => .error .malformedDocument

/-- The catalogue that a text describes. -/
def ofText (text : String) : Except EditError Catalogue :=
  match Json.Tree.parse? text with
  | some tree => ofDocument tree
  | none => .error .malformedDocument

end Catalogue

end PipelineEditor
