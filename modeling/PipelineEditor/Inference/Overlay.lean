import PipelineEditor.Catalogue
import PipelineEditor.Inference.Schema

/-!
# Schemas that follow the data

The form of an operator follows the JSON schema of its type.  Once the attributes at an input port
are known, the properties that are filled in from it offer just those names.

## Main definitions

* `OperatorType.overlay?` — the schema of a type for known attributes.
* `Overlay`, `Overlay.apply` — the schemas that differ from those of the types, and how an answer
  replaces them.
-/

namespace PipelineEditor

/-- The definition of a property that offers attribute names. -/
def Autofill.offer (kind : AutofillKind) (names : List String) (definition : Json) : Json :=
  let choices : Json := .array (names.map .string)
  match kind with
  | .name => definition.set "enum" choices
  | .list =>
    let items := (definition.get? "items").getD (.object [("type", .string "string")])
    (definition.set "items" (items.set "enum" choices)).set "uniqueItems" (.bool true)

/-- The schema in which a property offers attribute names, if the schema defines the property by an
object. -/
def Autofill.applyTo? (field : Autofill) (names : List String) (schema : Json) : Option Json := do
  let properties ← schema.get? "properties"
  match properties.get? field.property with
  | some (.object members) =>
    some (schema.set "properties"
      (properties.set field.property (offer field.kind names (.object members))))
  | _ => none

/-- The schema of a type with the attribute names that reach its ports, or `none` if nothing is
known that concerns it. -/
def OperatorType.overlay? (t : OperatorType) (ports : PortSchemas) : Option Json :=
  t.autofills.foldl (fun overlaid field =>
    match ports.attributes? field.port with
    | none => overlaid
    | some attributes =>
      match field.applyTo? (attributes.map (·.name)) (overlaid.getD t.jsonSchema) with
      | some schema => some schema
      | none => overlaid) none

/-- The schemas that differ from those of the types, and the attributes last reported. -/
structure Overlay where
  schemas : Dict Json
  inputs : InputSchemas
  deriving DecidableEq, Inhabited

namespace Overlay

/-- Nothing is known. -/
def empty : Overlay := ⟨∅, ∅⟩

/-- The schema that the form of an operator follows. -/
def schemaOf? (overlay : Overlay) (catalogue : Catalogue) (id : OperatorId) (type : String) :
    Option Json :=
  match overlay.schemas.get? id with
  | some schema => some schema
  | none => (catalogue.type? type).map (·.jsonSchema)

/-- Whether the form of an operator follows a schema of its own. -/
def covers (overlay : Overlay) (id : OperatorId) : Bool := overlay.schemas.contains id

/-- The attribute names last reported at an input port. -/
def attributeNames? (overlay : Overlay) (id : OperatorId) (port : Nat) : Option (List String) := do
  let ports ← overlay.inputs.get? id
  let attributes ← ports.attributes? port
  return attributes.map (·.name)

/-- Drops what concerns operators that are gone. -/
def forgetMissing (overlay : Overlay) (g : Graph) : Overlay :=
  ⟨overlay.schemas.filterKeys g.hasOperator, overlay.inputs.filterKeys g.hasOperator⟩

/-- Whether two schemas, where there are any, are equal. -/
def sameSchema : Option Json → Option Json → Bool
  | some a, some b => a.same b
  | none, none => true
  | _, _ => false

/-- Takes over what an answer says on one operator, and tells whether its schema changed. -/
def applyTo (overlay : Overlay) (catalogue : Catalogue) (result : InputSchemas) (op : Operator) :
    Overlay × List Event :=
  match catalogue.type? op.type with
  | none => (overlay, [])
  | some t =>
    let ports := (result.get? op.id).filter (!·.isEmpty)
    let schema := ports.bind t.overlay?
    let inputs :=
      match ports with
      | some known => overlay.inputs.insert op.id known
      | none => overlay.inputs.erase op.id
    if sameSchema (overlay.schemas.get? op.id) schema then ({ overlay with inputs }, [])
    else
      match schema with
      | some new => (⟨overlay.schemas.insert op.id new, inputs⟩, [.schemaOverlayChanged op.id new])
      | none =>
        (⟨overlay.schemas.erase op.id, inputs⟩, [.schemaOverlayChanged op.id t.jsonSchema])

/-- Takes an answer over.  An operator that the answer leaves out follows the schema of its type
again. -/
def apply (overlay : Overlay) (g : Graph) (catalogue : Catalogue) (result : InputSchemas) :
    Overlay × List Event :=
  g.operators.values.foldl (fun (overlay, events) op =>
    let (overlay, more) := overlay.applyTo catalogue result op
    (overlay, events ++ more)) (overlay.forgetMissing g, [])

end Overlay

end PipelineEditor
