import PipelineEditor.Dict
import PipelineEditor.Error

/-!
# The catalogue of operator types

The catalogue lists the operator types with their JSON schemas and port counts.  What the editor
needs from a schema is drawn out once: the required properties, the default values, and the
properties that are filled in from the attributes at an input port.  The catalogue also makes new
operators.

## Main definitions

* `TypeSchema`, `Metadata` — types as the metadata service describes them.
* `OperatorType`, `OperatorType.ofSchema` — what is drawn out of a description.
* `Catalogue`, `Catalogue.ofMetadata` — all types by name, and the palette groups.
* `Catalogue.newOperator`, `Catalogue.checkPorts` — the ports that a type prescribes.
-/

namespace PipelineEditor

/-- How a type is shown, and how many ports its operators have. -/
structure TypeInfo where
  friendlyName : String
  description : Option String
  group : String
  inputCount : Nat
  outputCount : Nat
  deriving DecidableEq, Inhabited

/-- An operator type as the metadata service describes it. -/
structure TypeSchema where
  type : String
  jsonSchema : Json
  info : TypeInfo
  version : String
  deriving DecidableEq, Inhabited

/-- A group of the palette. -/
structure PaletteGroup where
  name : String
  order : Nat
  deriving DecidableEq, Inhabited

/-- What the metadata service answers. -/
structure Metadata where
  types : List TypeSchema
  groups : List PaletteGroup
  deriving DecidableEq, Inhabited

/-- What a property takes from the attributes at a port: one name, or a list of them. -/
inductive AutofillKind where
  | name
  | list
  deriving DecidableEq, Inhabited

/-- A property filled in with the attribute names that reach an input port. -/
structure Autofill where
  property : String
  kind : AutofillKind
  /-- The number of the input port. -/
  port : Nat
  deriving DecidableEq, Inhabited

/-- An operator type with what its schema says. -/
structure OperatorType where
  schema : TypeSchema
  /-- The properties that must be set. -/
  required : List String
  /-- The values that properties start with. -/
  defaults : Dict Json
  autofills : List Autofill
  deriving DecidableEq, Inhabited

namespace OperatorType

/-- The properties that a schema requires. -/
def requiredOf (jsonSchema : Json) : List String :=
  match jsonSchema.get? "required" with
  | some (.array items) => items.filterMap Json.string?
  | _ => []

/-- The properties that a schema defines, with their definitions. -/
def propertiesOf (jsonSchema : Json) : List (String × Json) :=
  match jsonSchema.get? "properties" with
  | some (.object members) => members
  | _ => []

/-- The autofill that the definition of a property asks for. -/
def autofillOf? (property : String) (definition : Json) : Option Autofill :=
  let port := ((definition.get? "autofillAttributeOnPort").bind Json.nat?).getD 0
  match definition.get? "autofill" with
  | some (.string "attributeName") => some ⟨property, .name, port⟩
  | some (.string "attributeNameList") => some ⟨property, .list, port⟩
  | _ => none

/-- Draws out of a description what the editor needs. -/
def ofSchema (schema : TypeSchema) : OperatorType :=
  let properties := propertiesOf schema.jsonSchema
  { schema
    required := requiredOf schema.jsonSchema
    defaults := .ofList (properties.filterMap fun member =>
      (member.2.get? "default").map (member.1, ·))
    autofills := properties.filterMap fun member => autofillOf? member.1 member.2 }

/-- How many input ports an operator of the type has. -/
def inputCount (t : OperatorType) : Nat := t.schema.info.inputCount

/-- How many output ports an operator of the type has. -/
def outputCount (t : OperatorType) : Nat := t.schema.info.outputCount

def jsonSchema (t : OperatorType) : Json := t.schema.jsonSchema

def version (t : OperatorType) : String := t.schema.version

end OperatorType

/-- All operator types by name, and the palette groups in their order. -/
structure Catalogue where
  types : Dict OperatorType
  groups : List PaletteGroup
  deriving DecidableEq, Inhabited

namespace Catalogue

/-- The catalogue of a description; of two types of one name the later counts, and groups of equal
order stay in the order of the description. -/
def ofMetadata (metadata : Metadata) : Catalogue :=
  { types := .ofList (metadata.types.map fun schema => (schema.type, .ofSchema schema))
    groups := metadata.groups.mergeSort fun a b => a.order ≤ b.order }

def type? (catalogue : Catalogue) (name : String) : Option OperatorType :=
  catalogue.types.get? name

def hasType (catalogue : Catalogue) (name : String) : Bool := catalogue.types.contains name

def findType (catalogue : Catalogue) (name : String) : Except EditError OperatorType :=
  match catalogue.type? name with
  | some t => .ok t
  | none => .error (.unknownOperatorType name)

/-- The types of a palette group, by name. -/
def typesIn (catalogue : Catalogue) (group : String) : List OperatorType :=
  catalogue.types.values.filter (·.schema.info.group = group)

/-- The ports with the given first part of the name, numbered from zero. -/
def ports (stem : String) (count : Nat) : List Port :=
  (List.range count).map fun index => ⟨Port.numbered stem index, ""⟩

/-- The name of a new operator, with a token that makes it unique. -/
def operatorName (type token : String) : OperatorId := type ++ "-operator-" ++ token

/-- The name of a new link, with a token that makes it unique. -/
def linkName (token : String) : LinkId := "link-" ++ token

/-- A new operator of a type under the given name, its properties at their defaults. -/
def newOperator (catalogue : Catalogue) (type : String) (id : OperatorId) :
    Except EditError Operator := do
  let t ← catalogue.findType type
  return {
    id, type
    version := t.version
    properties := .object t.defaults.toList
    inputs := ports Port.inputStem t.inputCount
    outputs := ports Port.outputStem t.outputCount
    disabled := false }

/-- Whether ports are exactly the numbered ones, in order; their display names are free. -/
def arePorts (stem : String) (count : Nat) (ports : List Port) : Bool :=
  ports.length = count && ports.zipIdx.all fun (port, index) => port.id = Port.numbered stem index

/-- An operator must have a type of the catalogue and exactly the ports of that type. -/
def checkPorts (catalogue : Catalogue) (op : Operator) : Except EditError Unit := do
  let t ← catalogue.findType op.type
  if arePorts Port.inputStem t.inputCount op.inputs &&
      arePorts Port.outputStem t.outputCount op.outputs then
    return ()
  else throw (.portMismatch op.id op.type)

end Catalogue

end PipelineEditor
