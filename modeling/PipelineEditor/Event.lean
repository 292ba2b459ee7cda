import PipelineEditor.Link

/-!
# Events

An event tells subscribers what has changed: the graph itself, or what is shown and derived beside
it.

## Main definitions

* `Event`, `Event.stream` — the events, and the stream each belongs to.
* `Event.affectsSchema` — whether an event can change what reaches an operator's input ports.
-/

namespace PipelineEditor

/-- The streams by which events can be followed. -/
inductive Stream where
  | operatorAdded
  | operatorDeleted
  | linkAdded
  | linkDeleted
  | propertyChanged
  /-- Disabled flags, breakpoints and positions. -/
  | auxiliary
  | highlight
  | validation
  | modification
  | propagation
  deriving DecidableEq

/-- Something that happened while a pipeline was edited. -/
inductive Event where
  | operatorAdded (operator : Operator) (position : Point)
  | operatorDeleted (operator : Operator)
  | linkAdded (link : Link)
  | linkDeleted (link : Link)
  /-- The property document of an operator was replaced. -/
  | propertyChanged (id : OperatorId) (old new : Json)
  | operatorDisabledChanged (id : OperatorId) (disabled : Bool)
  /-- A breakpoint was set, or taken away. -/
  | breakpointChanged (id : LinkId) (breakpoint : Option Breakpoint)
  | operatorMoved (id : OperatorId) (position : Point)
  | operatorsHighlighted (ids : List OperatorId)
  | operatorsUnhighlighted (ids : List OperatorId)
  /-- The findings on an operator changed, or are its first. -/
  | operatorValidityChanged (id : OperatorId) (valid : Bool) (errors : Dict String)
  /-- The findings on an operator were dropped with the operator. -/
  | operatorValidationCleared (id : OperatorId)
  /-- The pipeline was locked or unlocked. -/
  | modificationEnabledChanged (enabled : Bool)
  /-- The schema that an operator's form follows changed. -/
  | schemaOverlayChanged (id : OperatorId) (schema : Json)
  /-- A request to the inference service failed; earlier schemas stay. -/
  | propagationFailed (sequence : Nat) (error : String)
  deriving DecidableEq

namespace Event

/-- The stream an event belongs to. -/
def stream : Event → Stream
  | operatorAdded .. => .operatorAdded
  | operatorDeleted .. => .operatorDeleted
  | linkAdded .. => .linkAdded
  | linkDeleted .. => .linkDeleted
  | propertyChanged .. => .propertyChanged
  | operatorDisabledChanged .. | breakpointChanged .. | operatorMoved .. => .auxiliary
  | operatorsHighlighted .. | operatorsUnhighlighted .. => .highlight
  | operatorValidityChanged .. | operatorValidationCleared .. => .validation
  | modificationEnabledChanged .. => .modification
  | schemaOverlayChanged .. | propagationFailed .. => .propagation

/-- Whether the event changes the shape of the graph or the configuration of an operator, and so
what is known about the data that reaches other operators. -/
def affectsSchema : Event → Bool
  | operatorAdded .. | operatorDeleted .. | linkAdded .. | linkDeleted .. | propertyChanged ..
  | operatorDisabledChanged .. => true
  | _ => false

/-- Whether the event can change the findings on an operator. -/
def affectsValidation (event : Event) : Bool := event.affectsSchema

/-- The events of one stream. -/
def inStream (events : List Event) (stream : Stream) : List Event :=
  events.filter fun event => event.stream = stream

end Event

end PipelineEditor
