import PipelineEditor.Json.Value

/-!
# Operators and where they stand

An operator is one step of a pipeline: it has a type, a property document that configures it, and
lists of input and output ports.  Each operator stands at a point of the canvas.

## Main definitions

* `Port`, `Operator` — operators with their ports.
* `PortRef` — one port of one operator, as the end of a link.
* `Point`, `Point.same` — canvas positions, compared as numbers.
-/

namespace PipelineEditor

/-- Identifies an operator in its graph. -/
abbrev OperatorId : Type := String

/-- Identifies a link in its graph. -/
abbrev LinkId : Type := String

/-- Identifies a port among those of one operator. -/
abbrev PortId : Type := String

/-- An input or output of an operator. -/
structure Port where
  id : PortId
  displayName : String
  deriving DecidableEq, Inhabited

/-- The first part of the name of every input port; its number follows. -/
def Port.inputStem : String := "input-"

/-- The first part of the name of every output port; its number follows. -/
def Port.outputStem : String := "output-"

/-- The name of the port with the given number. -/
def Port.numbered (stem : String) (index : Nat) : PortId := stem ++ toString index

/-- One step of a pipeline. -/
structure Operator where
  id : OperatorId
  /-- The name of its type in the catalogue. -/
  type : String
  /-- The version of its type that its properties were made for. -/
  version : String
  properties : Json
  inputs : List Port
  outputs : List Port
  disabled : Bool
  deriving DecidableEq, Inhabited

namespace Operator

def hasInput (op : Operator) (port : PortId) : Bool := op.inputs.any (·.id = port)

def hasOutput (op : Operator) (port : PortId) : Bool := op.outputs.any (·.id = port)

/-- Where an input port stands among the inputs. -/
def inputIndex? (op : Operator) (port : PortId) : Option Nat := op.inputs.findIdx? (·.id = port)

/-- A top-level property. -/
def property? (op : Operator) (key : String) : Option Json := op.properties.get? key

end Operator

/-- A port of an operator, as the end of a link. -/
structure PortRef where
  operator : OperatorId
  port : PortId
  deriving DecidableEq, Inhabited

/-- A position on the canvas. -/
structure Point where
  x : Double
  y : Double
  deriving DecidableEq, Inhabited

namespace Point

/-- Where operators without a position stand. -/
def origin : Point := ⟨0, 0⟩

/-- Equality of both coordinates as numbers. -/
def same (p q : Point) : Bool := p.x.same q.x && p.y.same q.y

end Point

end PipelineEditor
