import PipelineEditor.Operator
import PipelineEditor.Text.Quoted

/-!
# Why an edit fails

`EditError` lists the causes for which a call on a pipeline is refused, and `EditError.message`
gives each its wording.

## Main definitions

* `EditError`, `EditError.message` — the causes and their texts.
* `Attempt` — a computation that may fail and keeps what it had done by then.
-/

namespace PipelineEditor

/-- What a look-up was for. -/
inductive Entity where
  | operator
  | link
  deriving DecidableEq

def Entity.name : Entity → String
  | operator => "operator"
  | link => "link"

/-- A cause for which a call is refused. -/
inductive EditError where
  /-- An operator of this name is there already. -/
  | duplicateOperator (id : OperatorId)
  /-- A link of this name, or one between these ports, is there already. -/
  | duplicateLink (id : LinkId) (source target : PortRef)
  /-- An end of the link is at no port of the right direction. -/
  | danglingReference (id : LinkId) (port : PortRef)
  | notFound (entity : Entity) (id : String)
  /-- The pipeline is locked against changes. -/
  | locked
  | unknownOperatorType (type : String)
  /-- The ports are not the ones that the type defines. -/
  | portMismatch (id : OperatorId) (type : String)
  /-- The inference service failed, or reported a failure. -/
  | inferenceFailed (reason : String)
  /-- A document does not have the form of its kind. -/
  | malformedDocument
  /-- A file is missing, is no text, or cannot be written. -/
  | fileUnusable
  deriving DecidableEq

/-- A port as messages name it. -/
def PortRef.describe (ref : PortRef) : String :=
  "LogicalPort \x7b operator_id: " ++ Text.quoted ref.operator ++
    ", port_id: " ++ Text.quoted ref.port ++ " \x7d"

/-- The pair of ports that a look-up of a link was for. -/
def PortRef.route (source target : PortRef) : String :=
  source.operator ++ ":" ++ source.port ++ " -> " ++ target.operator ++ ":" ++ target.port

namespace EditError

/-- The wording of a cause. -/
def message : EditError → String
  | duplicateOperator id => "Operator '" ++ id ++ "' already exists"
  | duplicateLink id source target =>
    "Link '" ++ id ++ "' duplicates an existing link from " ++ source.describe ++ " to " ++
      target.describe
  | danglingReference id port =>
    "Link '" ++ id ++ "' references missing endpoint " ++ port.describe
  | notFound entity id => entity.name ++ " '" ++ id ++ "' not found"
  | locked => "Workflow graph is locked for modification"
  | unknownOperatorType type => "Unknown operator type: " ++ type
  | portMismatch id type =>
    "Operator '" ++ id ++ "' does not have the ports of type '" ++ type ++ "'"
  | inferenceFailed reason => "Schema propagation request failed: " ++ reason
  | malformedDocument => "Serialization error"
  | fileUnusable => "I/O error"

end EditError

/-- A computation on a state of type `σ` that may fail.  Failing leaves the state as it was at that
moment: what had been done before stays done, and undoing it is up to the caller. -/
abbrev Attempt (σ α : Type) : Type := ExceptT EditError (StateM σ) α

namespace Attempt

variable {σ α : Type}

/-- The outcome of an attempt and the state it leaves. -/
def exec (attempt : Attempt σ α) (state : σ) : Except EditError α × σ := attempt.run.run state

/-- An attempt given by its outcome and the state it leaves. -/
def of (step : σ → Except EditError α × σ) : Attempt σ α := ExceptT.mk (StateT.mk step)

/-- The outcome of a check, which leaves the state alone. -/
def check : Except EditError α → Attempt σ α
  | .ok value => pure value
  | .error cause => throw cause

end Attempt

end PipelineEditor
