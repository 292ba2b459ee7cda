import PipelineEditor.Graph

/-!
# What the inference service is asked and answers

The inference service is sent the enabled part of a graph as a plan and answers, for each operator
and input port, which attributes reach it.

## Main definitions

* `Attribute`, `PortSchemas`, `InputSchemas` — what reaches the input ports.
* `Plan`, `Plan.ofGraph` — the enabled part of a graph.
* `Response`, `Response.inferred` — an answer, and what it says or complains of.
-/

namespace PipelineEditor

/-- An attribute of the data at a port. -/
structure Attribute where
  name : String
  type : String
  deriving DecidableEq, Inhabited

/-- The attributes at each input port of an operator; `none` where nothing is known. -/
abbrev PortSchemas : Type := List (Option (List Attribute))

/-- What is known of the input ports of every operator. -/
abbrev InputSchemas : Type := Dict PortSchemas

namespace PortSchemas

/-- The attributes at the port with the given number, if they are known. -/
def attributes? (ports : PortSchemas) (port : Nat) : Option (List Attribute) := (ports[port]?).join

end PortSchemas

/-- An operator of a plan, with its properties by name. -/
structure PlanOperator where
  id : OperatorId
  type : String
  properties : Dict Json
  deriving DecidableEq, Inhabited

/-- A link of a plan. -/
structure PlanLink where
  source : PortRef
  target : PortRef
  deriving DecidableEq, Inhabited

/-- What the inference service is asked about. -/
structure Plan where
  operators : List PlanOperator
  links : List PlanLink
  deriving DecidableEq, Inhabited

namespace Plan

/-- The entry of an operator; a property document that is no object has no properties to show. -/
def entryOf (op : Operator) : PlanOperator :=
  { id := op.id
    type := op.type
    properties := .ofList (op.properties.object?.getD []) }

/-- The enabled operators of a graph and the links between them, ordered by name. -/
def ofGraph (g : Graph) : Plan :=
  { operators := (g.operators.values.filter (!·.disabled)).map entryOf
    links := (g.links.values.filter fun link =>
      g.isEnabled link.source.operator && g.isEnabled link.target.operator).map
        fun link => ⟨link.source, link.target⟩ }

end Plan

/-- An answer of the inference service. -/
structure Response where
  /-- Zero for success. -/
  code : Int
  result : InputSchemas
  message : Option String
  deriving DecidableEq, Inhabited

namespace Response

/-- The inferred schemas, or the failure that the service reports. -/
def inferred (response : Response) : Except EditError InputSchemas :=
  if response.code = 0 then .ok response.result
  else
    .error (.inferenceFailed ("inference service returned code " ++ toString response.code ++
      ": " ++ response.message.getD "no message"))

end Response

end PipelineEditor
