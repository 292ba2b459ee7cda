import PipelineEditor.Catalogue
import PipelineEditor.Inference.Schema

/-!
# Properties that name lost attributes

When an attribute no longer reaches an operator, the properties that name it are corrected: a single
name goes back to the default of its property if that is still to be had, and is taken away
otherwise; from a list of names the lost ones are taken out.

## Main definitions

* `Autofill.correction?` — what has to become of one property, if anything.
* `Graph.corrections` — the property documents as they have to be for an answer.
-/

namespace PipelineEditor

/-- Whether a value is the name of an attribute that is to be had. -/
def isAvailable (attributes : List Attribute) : Json → Bool
  | .string name => attributes.any (·.name = name)
  | _ => false

/-- What becomes of a property that names a lost attribute. -/
inductive Correction where
  | replace (value : Json)
  | remove
  deriving DecidableEq

/-- The correction that a value needs where only the given attributes are to be had.  Values of
another form than the property asks for need none. -/
def Autofill.correction? (kind : AutofillKind) (fallback : Option Json)
    (attributes : List Attribute) (current : Json) : Option Correction :=
  match kind, current with
  | .name, .string name =>
    if name.isEmpty || isAvailable attributes current then none
    else
      match fallback.filter (isAvailable attributes) with
      | some value => some (.replace value)
      | none => some .remove
  | .list, .array items =>
    let kept := items.filter (isAvailable attributes)
    if kept.length = items.length then none else some (.replace (.array kept))
  | _, _ => none

/-- Applies a correction to a property of a document. -/
def Correction.applyTo (property : String) (document : List (String × Json)) :
    Correction → List (String × Json)
  | .replace value => Entries.insert property value document
  | .remove => Entries.erase property document

namespace OperatorType

/-- The correction that a field of a document needs. -/
def correction? (t : OperatorType) (ports : PortSchemas) (document : List (String × Json))
    (field : Autofill) : Option Correction := do
  let attributes ← ports.attributes? field.port
  let current ← Entries.find? field.property document
  Autofill.correction? field.kind (t.defaults.get? field.property) attributes current

/-- The document with every field corrected, if any field needs it. -/
def correct? (t : OperatorType) (ports : PortSchemas) (document : List (String × Json)) :
    Option (List (String × Json)) :=
  t.autofills.foldl (fun corrected field =>
    match t.correction? ports document field with
    | some correction => some (correction.applyTo field.property (corrected.getD document))
    | none => corrected) none

end OperatorType

namespace Graph

/-- The corrected property document of an operator, if it needs one. -/
def corrected? (g : Graph) (catalogue : Catalogue) (id : OperatorId) (ports : PortSchemas) :
    Option Json := do
  let op ← g.operators.get? id
  let t ← catalogue.type? op.type
  let document ← op.properties.object?
  (t.correct? ports document).map .object

/-- The corrected property documents where just the given attributes are to be had, for the
operators that need one. -/
def corrections (g : Graph) (catalogue : Catalogue) (result : InputSchemas) :
    List (OperatorId × Json) :=
  result.toList.filterMap fun entry =>
    (g.corrected? catalogue entry.1 entry.2).map (entry.1, ·)

end Graph

end PipelineEditor
