import PipelineEditor.Format.Operator
import PipelineEditor.Inference.Schema
import PipelineEditor.Json.Parser

/-!
# The written form of plans and answers

In a plan the properties of an operator stand beside its name and type, in one object; a property of
either of these names takes the place of the entry.
-/

namespace PipelineEditor

open Document

variable {σ : Type} [Document σ]

namespace Attribute

def toJson (attr : Attribute) : Json :=
  .object [("attributeName", .string attr.name), ("attributeType", .string attr.type)]

def read? (doc : σ) : Option Attribute := do
  let fields ← record? ["attributeName", "attributeType"] doc
  return {
    name := ← fields.required "attributeName" string?
    type := ← fields.required "attributeType" string? }

end Attribute

namespace PortSchemas

def toJson (ports : PortSchemas) : Json := .ofList (.ofOption (.ofList Attribute.toJson)) ports

def read? (doc : σ) : Option PortSchemas := list? (optional? (list? Attribute.read?)) doc

end PortSchemas

namespace InputSchemas

def toJson (schemas : InputSchemas) : Json := .ofDict PortSchemas.toJson schemas

def read? (doc : σ) : Option InputSchemas := dict? PortSchemas.read? doc

end InputSchemas

namespace PlanOperator

def toJson (op : PlanOperator) : Json :=
  op.properties.toList.foldl (fun entry property => entry.set property.1 property.2)
    (.object [("operatorID", .string op.id), ("operatorType", .string op.type)])

/-- Every member but name and type is a property. -/
def read? (doc : σ) : Option PlanOperator :=
  match layer doc with
  | .object _ => do
    let fields ← record? ["operatorID", "operatorType"] doc
    let whole ← value? doc
    return {
      id := ← fields.required "operatorID" string?
      type := ← fields.required "operatorType" string?
      properties :=
        .ofList (((whole.remove "operatorID").remove "operatorType").object?.getD []) }
  | _ => none

end PlanOperator

namespace PlanLink

def toJson (link : PlanLink) : Json :=
  .object [
    ("fromOpId", .string link.source.operator),
    ("fromPortId", .string link.source.port),
    ("toOpId", .string link.target.operator),
    ("toPortId", .string link.target.port)]

def read? (doc : σ) : Option PlanLink := do
  let fields ← record? ["fromOpId", "fromPortId", "toOpId", "toPortId"] doc
  return {
    source := ⟨← fields.required "fromOpId" string?, ← fields.required "fromPortId" string?⟩
    target := ⟨← fields.required "toOpId" string?, ← fields.required "toPortId" string?⟩ }

end PlanLink

namespace Plan

def toJson (plan : Plan) : Json :=
  .object [
    ("operators", .ofList PlanOperator.toJson plan.operators),
    ("links", .ofList PlanLink.toJson plan.links)]

def read? (doc : σ) : Option Plan := do
  let fields ← record? ["operators", "links"] doc
  return {
    operators := ← fields.required "operators" (list? PlanOperator.read?)
    links := ← fields.required "links" (list? PlanLink.read?) }

end Plan

namespace Response

def toJson (response : Response) : Json :=
  .object [
    ("code", .int response.code),
    ("result", response.result.toJson),
    ("message", .ofOption .string response.message)]

/-- The code fits 32 bits. -/
def read? (doc : σ) : Option Response := do
  let fields ← record? ["code", "result", "message"] doc
  return {
    code := ← fields.required "code" (int? (-0x80000000) 0x7FFFFFFF)
    result := ← fields.withDefault "result" ∅ InputSchemas.read?
    message := ← fields.withDefault "message" none (optional? string?) }

end Response

end PipelineEditor
