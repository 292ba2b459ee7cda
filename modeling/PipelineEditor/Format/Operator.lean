import PipelineEditor.Operator
import PipelineEditor.Json.Document

/-!
# The written form of operators and points

Each type has a `toJson`, with the fields in the order of the format, and a reader `read?`.
-/

namespace PipelineEditor

open Document

variable {σ : Type} [Document σ]

namespace Json

/-- A list of values, each written by `write`. -/
def ofList {α : Type} (write : α → Json) (items : List α) : Json := .array (items.map write)

/-- A map written as an object. -/
def ofDict {α : Type} (write : α → Json) (m : Dict α) : Json :=
  .object (m.toList.map fun entry => (entry.1, write entry.2))

/-- A value that may be absent, written as `null` then. -/
def ofOption {α : Type} (write : α → Json) : Option α → Json
  | some value => write value
  | none => .null

/-- A double; what is no finite number has no written form of its own and becomes `null`. -/
def ofDouble (x : Double) : Json := if x.isFinite then .float x else .null

def ofNat (n : Nat) : Json := .int n

end Json

namespace Port

def toJson (port : Port) : Json :=
  .object [("portID", .string port.id), ("displayName", .string port.displayName)]

def read? (doc : σ) : Option Port := do
  let fields ← record? ["portID", "displayName"] doc
  return {
    id := ← fields.required "portID" string?
    displayName := ← fields.required "displayName" string? }

end Port

namespace Operator

/-- The fields of a written operator, in order. -/
def fieldNames : List String :=
  ["operatorID", "operatorType", "operatorVersion", "operatorProperties", "inputPorts",
    "outputPorts", "isDisabled"]

def toJson (op : Operator) : Json :=
  .object [
    ("operatorID", .string op.id),
    ("operatorType", .string op.type),
    ("operatorVersion", .string op.version),
    ("operatorProperties", op.properties),
    ("inputPorts", .ofList Port.toJson op.inputs),
    ("outputPorts", .ofList Port.toJson op.outputs),
    ("isDisabled", .bool op.disabled)]

/-- Version, properties and the disabled flag may be left out. -/
def read? (doc : σ) : Option Operator := do
  let fields ← record? fieldNames doc
  return {
    id := ← fields.required "operatorID" string?
    type := ← fields.required "operatorType" string?
    version := ← fields.withDefault "operatorVersion" "" string?
    properties := ← fields.withDefault "operatorProperties" (.object []) value?
    inputs := ← fields.required "inputPorts" (list? Port.read?)
    outputs := ← fields.required "outputPorts" (list? Port.read?)
    disabled := ← fields.withDefault "isDisabled" false bool? }

end Operator

namespace PortRef

def toJson (ref : PortRef) : Json :=
  .object [("operatorID", .string ref.operator), ("portID", .string ref.port)]

def read? (doc : σ) : Option PortRef := do
  let fields ← record? ["operatorID", "portID"] doc
  return {
    operator := ← fields.required "operatorID" string?
    port := ← fields.required "portID" string? }

end PortRef

namespace Point

def toJson (point : Point) : Json :=
  .object [("x", .ofDouble point.x), ("y", .ofDouble point.y)]

def read? (doc : σ) : Option Point := do
  let fields ← record? ["x", "y"] doc
  return {
    x := ← fields.required "x" double?
    y := ← fields.required "y" double? }

end Point

end PipelineEditor
