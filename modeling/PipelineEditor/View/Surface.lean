import PipelineEditor.Dict
import PipelineEditor.Link

/-!
# Surfaces and gestures

A surface draws a pipeline and reports what the user does to the drawing.  It holds no fact that
the graph does not have, and can be redrawn from the graph at any time.

## Main definitions

* `Anchor`, `LinkShape`, `Gesture` — link shapes, and what a user does.
* `Surface` — the types that can draw.
* `Canvas` — a surface in memory that keeps the shapes it was asked to draw.
* `Blank`, `Traced` — a surface that draws nothing, and one that notes each request.
-/

namespace PipelineEditor

/-- Where an end of a link shape sits. -/
inductive Anchor where
  | port (ref : PortRef)
  /-- At a point of the canvas. -/
  | loose (point : Point)
  deriving DecidableEq

def Anchor.port? : Anchor → Option PortRef
  | port ref => some ref
  | loose _ => none

/-- A link as it is drawn; either end may be loose. -/
structure LinkShape where
  source : Anchor
  target : Anchor
  deriving DecidableEq

/-- The shape of a link. -/
def LinkShape.ofLink (link : Link) : LinkShape := ⟨.port link.source, .port link.target⟩

/-- Whether both ends of a shape sit where the link says. -/
def LinkShape.isOf (shape : LinkShape) (link : Link) : Bool :=
  shape.source.port? = some link.source && shape.target.port? = some link.target

/-- One of the two ends of a link. -/
inductive LinkEnd where
  | source
  | target
  deriving DecidableEq

/-- Something that a user does to the drawing, or that the surface reports as if a user had. -/
inductive Gesture where
  /-- A new link shape was drawn. -/
  | linkDrawn (id : LinkId) (source target : Anchor)
  /-- An end of a link shape was dragged elsewhere. -/
  | linkEndMoved (id : LinkId) (moved : LinkEnd) (destination : Anchor)
  | shapeDeleted (id : OperatorId)
  | linkShapeDeleted (id : LinkId)
  /-- Several shapes were deleted at once. -/
  | shapesDeleted (operators : List OperatorId) (links : List LinkId)
  | shapeMoved (id : OperatorId) (position : Point)
  deriving DecidableEq

/-- The types that can draw.  A surface need not show highlights, disabled flags, breakpoints or
findings, and need not report gestures. -/
class Surface (σ : Type) where
  /-- Draws an operator in place of any shape of that name. -/
  addOperator : Operator → Point → σ → σ
  removeOperator : OperatorId → σ → σ
  /-- Draws a link in place of any shape of that name. -/
  addLink : Link → σ → σ
  removeLink : LinkId → σ → σ
  moveOperator : OperatorId → Point → σ → σ
  setHighlighted : OperatorId → Bool → σ → σ := fun _ _ surface => surface
  setDisabled : OperatorId → Bool → σ → σ := fun _ _ surface => surface
  setBreakpoint : LinkId → Option Breakpoint → σ → σ := fun _ _ surface => surface
  setValidity : OperatorId → Bool → σ → σ := fun _ _ surface => surface
  /-- Removes every shape. -/
  clear : σ → σ
  /-- The gestures since they were last taken, among them echoes of what was drawn. -/
  takeGestures : σ → List Gesture × σ := fun surface => ([], surface)

/-! ## A surface in memory -/

/-- A surface in memory.  With `echo` it reports, as a real canvas would, the link shapes it was
asked to remove and the moves it was asked to make. -/
structure Canvas where
  operators : Dict Point
  links : Dict Link
  highlighted : NameSet
  disabled : NameSet
  invalid : NameSet
  echo : Bool
  pending : List Gesture
  deriving DecidableEq

namespace Canvas

/-- The canvas without shapes. -/
def empty (echo : Bool) : Canvas :=
  { operators := ∅, links := ∅, highlighted := ∅, disabled := ∅, invalid := ∅, echo, pending := [] }

/-- Reports a gesture. -/
def report (gesture : Gesture) (canvas : Canvas) : Canvas :=
  { canvas with pending := canvas.pending ++ [gesture] }

/-- Reports an echo, if the canvas echoes. -/
def reportEcho (gesture : Gesture) (canvas : Canvas) : Canvas :=
  if canvas.echo then canvas.report gesture else canvas

/-- A set with a name in it or not. -/
def mark (names : NameSet) (name : String) (marked : Bool) : NameSet :=
  if marked then names.add name else names.erase name

instance : Surface Canvas where
  addOperator op position canvas :=
    { canvas with operators := canvas.operators.insert op.id position }
  removeOperator id canvas :=
    { canvas with
      operators := canvas.operators.erase id
      highlighted := canvas.highlighted.erase id
      disabled := canvas.disabled.erase id
      invalid := canvas.invalid.erase id }
  addLink link canvas := { canvas with links := canvas.links.insert link.id link }
  removeLink id canvas :=
    if canvas.links.contains id then
      { canvas with links := canvas.links.erase id }.reportEcho (.linkShapeDeleted id)
    else canvas
  moveOperator id position canvas :=
    { canvas with operators := canvas.operators.insert id position }.reportEcho
      (.shapeMoved id position)
  setHighlighted id on canvas := { canvas with highlighted := mark canvas.highlighted id on }
  setDisabled id on canvas := { canvas with disabled := mark canvas.disabled id on }
  setValidity id valid canvas := { canvas with invalid := mark canvas.invalid id (!valid) }
  clear canvas :=
    { canvas with operators := ∅, links := ∅, highlighted := ∅, disabled := ∅, invalid := ∅ }
  takeGestures canvas := (canvas.pending, { canvas with pending := [] })

end Canvas

/-! ## Other surfaces -/

/-- A surface that draws nothing. -/
structure Blank where

instance : Surface Blank where
  addOperator _ _ surface := surface
  removeOperator _ surface := surface
  addLink _ surface := surface
  removeLink _ surface := surface
  moveOperator _ _ surface := surface
  clear surface := surface

/-- A request to draw. -/
inductive Stroke where
  | addOperator (id : OperatorId) (position : Point)
  | removeOperator (id : OperatorId)
  | addLink (id : LinkId)
  | removeLink (id : LinkId)
  | moveOperator (id : OperatorId) (position : Point)
  | setHighlighted (id : OperatorId) (on : Bool)
  | setDisabled (id : OperatorId) (on : Bool)
  | setBreakpoint (id : LinkId) (breakpoint : Option Breakpoint)
  | setValidity (id : OperatorId) (valid : Bool)
  | clear
  deriving DecidableEq

/-- A surface that notes each request before it passes it on. -/
structure Traced (σ : Type) where
  strokes : List Stroke
  inner : σ

namespace Traced

variable {σ : Type} [Surface σ]

/-- Notes a request and passes it on. -/
def stroke (request : Stroke) (draw : σ → σ) (surface : Traced σ) : Traced σ :=
  ⟨surface.strokes ++ [request], draw surface.inner⟩

instance : Surface (Traced σ) where
  addOperator op position := stroke (.addOperator op.id position) (Surface.addOperator op position)
  removeOperator id := stroke (.removeOperator id) (Surface.removeOperator id)
  addLink link := stroke (.addLink link.id) (Surface.addLink link)
  removeLink id := stroke (.removeLink id) (Surface.removeLink id)
  moveOperator id position := stroke (.moveOperator id position) (Surface.moveOperator id position)
  setHighlighted id on := stroke (.setHighlighted id on) (Surface.setHighlighted id on)
  setDisabled id on := stroke (.setDisabled id on) (Surface.setDisabled id on)
  setBreakpoint id breakpoint :=
    stroke (.setBreakpoint id breakpoint) (Surface.setBreakpoint id breakpoint)
  setValidity id valid := stroke (.setValidity id valid) (Surface.setValidity id valid)
  clear := stroke .clear Surface.clear
  takeGestures surface :=
    let (gestures, inner) := Surface.takeGestures surface.inner
    (gestures, { surface with inner })

end Traced

end PipelineEditor
