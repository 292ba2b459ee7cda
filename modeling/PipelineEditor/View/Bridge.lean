import PipelineEditor.Editor
import PipelineEditor.View.Surface

/-!
# Keeping drawing and graph in step

From graph to drawing, each event is projected onto the surface.  From drawing to graph, a gesture
is lifted into the requests it implies.  A link reaches the graph only once both of its ends sit on
ports of the right direction, and a change to a link is always a removal followed, where the shape
is complete, by an addition.  While history is replayed gestures are dropped, for then they are
echoes.

## Main definitions

* `Bridge`, `View` — what is remembered of the drawing; bridge and surface together.
* `View.project`, `View.redraw` — one event onto the surface, or all of a graph.
* `Bridge.lift`, `Bridge.forward` — what a gesture asks for, and how it is carried out.
-/

namespace PipelineEditor

/-- What a gesture asks of the graph. -/
inductive Intent where
  | addLink (link : Link)
  | deleteLink (id : LinkId)
  | deleteOperator (id : OperatorId)
  | moveOperator (id : OperatorId) (position : Point)
  deriving DecidableEq

namespace Intent

/-- Has the editor do what is asked. -/
def perform : Intent → Attempt Editor Unit
  | addLink link => Editor.addLink link
  | deleteLink id => Editor.deleteLink id
  | deleteOperator id => Editor.deleteOperator id
  | moveOperator id position => Editor.moveOperator id position

/-- Has the editor do all that is asked, as one call. -/
def performAll : List Intent → Attempt Editor Unit
  | [] => pure ()
  | [intent] => intent.perform
  | intents => Editor.bundle (intents.forM perform)

/-- The link that an intent is about. -/
def link? : Intent → Option LinkId
  | addLink link => some link.id
  | deleteLink id => some id
  | deleteOperator _ | moveOperator .. => none

end Intent

/-- What is remembered of the drawing. -/
structure Bridge where
  /-- The link shapes on the surface, those with a loose end too. -/
  shapes : Dict LinkShape
  highlighted : NameSet
  /-- Whether gestures are dropped. -/
  replaying : Bool
  deriving DecidableEq

namespace Bridge

/-- Nothing is drawn. -/
def start : Bridge := ⟨∅, ∅, false⟩

/-- Remembers the shape of a link. -/
def setShape (bridge : Bridge) (id : LinkId) (shape : LinkShape) : Bridge :=
  { bridge with shapes := bridge.shapes.insert id shape }

/-- Forgets the shape of a link. -/
def dropShape (bridge : Bridge) (id : LinkId) : Bridge :=
  { bridge with shapes := bridge.shapes.erase id }

/-- The operators among `ids` that are there and not highlighted yet. -/
def newlyHighlighted (bridge : Bridge) (g : Graph) (ids : List OperatorId) : List OperatorId :=
  ids.filter fun id => g.hasOperator id && !bridge.highlighted.contains id

/-- The operators among `ids` that are highlighted. -/
def currentlyHighlighted (bridge : Bridge) (ids : List OperatorId) : List OperatorId :=
  ids.filter bridge.highlighted.contains

/-! ## From drawing to graph -/

/-- The link that a shape stands for: both ends sit on ports of the right direction, and no other
link joins them. -/
def linkOf? (g : Graph) (id : LinkId) (shape : LinkShape) : Option Link := do
  let source ← shape.source.port?
  let target ← shape.target.port?
  if !g.hasSource source || !g.hasTarget target then none
  else
    match g.linkBetween? source target with
    | some other => if other.id ≠ id then none else some ⟨id, source, target⟩
    | none => some ⟨id, source, target⟩

/-- What makes the graph agree with the shape of a link. -/
def reconcile (bridge : Bridge) (g : Graph) (id : LinkId) : List Intent :=
  let desired := (bridge.shapes.get? id).bind (linkOf? g id)
  match g.links.get? id, desired with
  | some existing, some link =>
    -- A link cannot be changed in place, so it is taken away and added again.
    if existing.sameEnds link then [] else [.deleteLink id, .addLink link]
  | some _, none => [.deleteLink id]
  | none, some link => [.addLink link]
  | none, none => []

/-- A shape with one end elsewhere. -/
def moveEnd (shape : LinkShape) (moved : LinkEnd) (destination : Anchor) : LinkShape :=
  match moved with
  | .source => { shape with source := destination }
  | .target => { shape with target := destination }

/-- Whether deleting the operators takes the link away too, or it is not there to begin with. -/
def goesWith (g : Graph) (operators : List OperatorId) (id : LinkId) : Bool :=
  match g.links.get? id with
  | some link => operators.any link.touches
  | none => true

/-- The requests that a gesture implies: none during a replay, none for what leaves a link
incomplete, and none for what the graph agrees with already. -/
def lift (bridge : Bridge) (g : Graph) (gesture : Gesture) : List Intent × Bridge :=
  if bridge.replaying then ([], bridge)
  else
    match gesture with
    | .linkDrawn id source target =>
      let bridge := bridge.setShape id ⟨source, target⟩
      (bridge.reconcile g id, bridge)
    | .linkEndMoved id moved destination =>
      match bridge.shapes.get? id <|> (g.links.get? id).map .ofLink with
      | some shape =>
        let bridge := bridge.setShape id (moveEnd shape moved destination)
        (bridge.reconcile g id, bridge)
      | none => ([], bridge)
    | .shapeDeleted id => (if g.hasOperator id then [.deleteOperator id] else [], bridge)
    | .linkShapeDeleted id =>
      (if g.hasLink id then [.deleteLink id] else [], bridge.dropShape id)
    | .shapesDeleted operators links =>
      -- Links that go with an operator are left to its deletion.
      ((links.filter (!goesWith g operators ·)).map .deleteLink ++
        (operators.filter g.hasOperator).map .deleteOperator,
        links.foldl dropShape bridge)
    | .shapeMoved id position =>
      match g.positions.get? id with
      | some current =>
        (if current.same position then [] else [.moveOperator id position], bridge)
      | none => ([], bridge)

/-- Puts the remembered shape of a link back to what the graph says. -/
def restoreShape (g : Graph) (bridge : Bridge) (id : LinkId) : Bridge :=
  match g.links.get? id with
  | some link => bridge.setShape id (.ofLink link)
  | none => bridge.dropShape id

/-- Lifts a gesture and has the editor do what it asks, as one call.  Answers how many requests
there were; if they are refused, the shapes they were about go back to what the graph says. -/
def forward (bridge : Bridge) (editor : Editor) (gesture : Gesture) :
    Except EditError Nat × Bridge × Editor :=
  let (intents, bridge) := bridge.lift editor.graph gesture
  match (Intent.performAll intents).exec editor with
  | (.ok (), editor) => (.ok intents.length, bridge, editor)
  | (.error cause, editor) =>
    (.error cause, (intents.filterMap Intent.link?).foldl (restoreShape editor.graph) bridge,
      editor)

end Bridge

/-! ## From graph to drawing -/

/-- The drawing of a pipeline and what is remembered of it. -/
structure View (σ : Type) where
  bridge : Bridge
  surface : σ

namespace View

variable {σ : Type} [Surface σ]

/-- A view of nothing, on the given surface. -/
def start (surface : σ) : View σ := ⟨.start, surface⟩

/-- A request to the surface. -/
def draw (request : σ → σ) (view : View σ) : View σ := { view with surface := request view.surface }

/-- Draws an operator. -/
def drawOperator (op : Operator) (position : Point) (view : View σ) : View σ :=
  let view := view.draw (Surface.addOperator op position)
  if op.disabled then view.draw (Surface.setDisabled op.id true) else view

/-- Draws a link and remembers its shape. -/
def drawLink (link : Link) (view : View σ) : View σ :=
  { view with bridge := view.bridge.setShape link.id (.ofLink link) }.draw (Surface.addLink link)

/-- Removes a link, unless its shape has come loose: then it stays for the user to attach. -/
def eraseLink (link : Link) (view : View σ) : View σ :=
  let attached := ((view.bridge.shapes.get? link.id).map (·.isOf link)).getD true
  if attached then
    { view with bridge := view.bridge.dropShape link.id }.draw (Surface.removeLink link.id)
  else view

/-- Highlights an operator, or takes the highlight away. -/
def highlight (id : OperatorId) (on : Bool) (view : View σ) : View σ :=
  let highlighted := view.bridge.highlighted
  { view with bridge := { view.bridge with
      highlighted := if on then highlighted.add id else highlighted.erase id } }.draw
    (Surface.setHighlighted id on)

/-- Shows an event on the surface. -/
def project (view : View σ) : Event → View σ
  | .operatorAdded op position => view.drawOperator op position
  | .operatorDeleted op =>
    { view with bridge := { view.bridge with
        highlighted := view.bridge.highlighted.erase op.id } }.draw (Surface.removeOperator op.id)
  | .linkAdded link => view.drawLink link
  | .linkDeleted link => view.eraseLink link
  | .operatorMoved id position => view.draw (Surface.moveOperator id position)
  | .operatorDisabledChanged id disabled => view.draw (Surface.setDisabled id disabled)
  | .breakpointChanged id breakpoint => view.draw (Surface.setBreakpoint id breakpoint)
  | .operatorsHighlighted ids => ids.foldl (fun view id => view.highlight id true) view
  | .operatorsUnhighlighted ids => ids.foldl (fun view id => view.highlight id false) view
  | .operatorValidityChanged id valid _ => view.draw (Surface.setValidity id valid)
  | .propertyChanged .. | .operatorValidationCleared .. | .modificationEnabledChanged ..
  | .schemaOverlayChanged .. | .propagationFailed .. => view

/-- Draws a link with its breakpoint. -/
def drawSaved (g : Graph) (view : View σ) (link : Link) : View σ :=
  match g.breakpoints.get? link.id with
  | some breakpoint => (view.drawLink link).draw (Surface.setBreakpoint link.id (some breakpoint))
  | none => view.drawLink link

/-- Draws all of a graph anew. -/
def redraw (view : View σ) (g : Graph) : View σ :=
  let highlighted := view.bridge.highlighted.filterKeys g.hasOperator
  let cleared : View σ :=
    { view with bridge := { view.bridge with shapes := ∅, highlighted } }.draw Surface.clear
  let operators := g.operators.values.foldl
    (fun view op => view.drawOperator op (g.positionOf op.id)) cleared
  let links := g.links.values.foldl (drawSaved g) operators
  highlighted.keys.foldl (fun view id => view.draw (Surface.setHighlighted id true)) links

end View

end PipelineEditor
