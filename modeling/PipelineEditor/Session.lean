import PipelineEditor.Content
import PipelineEditor.Inference.Dispatcher
import PipelineEditor.Settings
import PipelineEditor.Validation.Check
import PipelineEditor.View.Bridge

/-!
# Editing sessions

A session is opened for one pipeline.  It owns the editor, the view, the findings and the requests
to the inference service.  After each call the events it announced are handed on in a fixed order:
first they are shown, then the pipeline is checked, then a request to the inference service is
scheduled, and at last they are published.  So checks see the graph after the whole call and never
in the middle of a bundle.

## Main definitions

* `Session`, `Session.settle` — the state, and what follows every call.
* `Session.run` — a call to the editor; with it `Session.bundle`, `Session.undo`, `Session.load`.
* `Session.handleGesture`, `Session.highlight`, `Session.redraw` — the view.
* `Session.applyOutcome`, `Session.pump`, `Session.next` — the inference service.
-/

namespace PipelineEditor

/-- One pipeline under edit, drawn on a surface of type `σ`. -/
structure Session (σ : Type) where
  settings : Settings
  editor : Editor
  view : View σ
  validation : Validation
  propagation : Propagation
  /-- The way to the inference service, once there is one. -/
  dispatcher : Option Dispatcher
  /-- How often the graph has changed in a way that concerns schemas. -/
  revision : Nat
  /-- Every event published so far. -/
  published : List Event

namespace Session

variable {σ α : Type}

/-- A session with an empty pipeline. -/
def start (catalogue : Catalogue) (settings : Settings) (clock : Nat → Nat) (surface : σ) :
    Session σ :=
  { settings
    editor := .start catalogue settings.undoLimit settings.mergeWindow clock
    view := .start surface
    validation := .start
    propagation := .start
    dispatcher := none
    revision := 0
    published := [] }

def graph (s : Session σ) : Graph := s.editor.graph

def catalogue (s : Session σ) : Catalogue := s.editor.catalogue

/-- Publishes events. -/
def publish (events : List Event) (s : Session σ) : Session σ :=
  { s with published := s.published ++ events }

/-! ## Handing events on -/

/-- Submits a request for the present graph, if there is a way to the inference service. -/
def schedule (s : Session σ) : Session σ :=
  match s.dispatcher with
  | none => s
  | some dispatcher =>
    let (request, propagation) := s.propagation.prepare s.graph s.revision
    { s with propagation, dispatcher := some (dispatcher.submit request) }

section

variable [Surface σ]

/-- Shows events. -/
def project (events : List Event) (s : Session σ) : Session σ :=
  { s with view := events.foldl View.project s.view }

/-- Shows and publishes events that do not come from the graph. -/
def dispatch (events : List Event) (s : Session σ) : Session σ :=
  (s.project events).publish events

/-- Checks the graph, and shows what has changed in the findings. -/
def revalidate (s : Session σ) : List Event × Session σ :=
  let (validation, events) := s.validation.refresh s.graph s.catalogue
  (events, { s with validation }.project events)

/-- Counts a change that concerns schemas. -/
def revise (s : Session σ) : Session σ :=
  { s with
    revision := s.revision + 1
    propagation :=
      { s.propagation with overlay := s.propagation.overlay.forgetMissing s.graph } }.schedule

/-- Hands the events of a call on. -/
def settle (s : Session σ) : Session σ :=
  let (events, editor) := s.editor.takeEvents
  let s := { s with editor }
  if events.isEmpty then s
  else
    let s := s.project events
    -- The checks see the graph after the whole call, so they come after all of its events.
    let (findings, s) := if events.any Event.affectsValidation then s.revalidate else ([], s)
    let s := if events.any Event.affectsSchema then s.revise else s
    s.publish (events ++ findings)

/-! ## Calls to the editor -/

/-- A call to the editor, before its events are handed on. -/
def onEditor (call : Attempt Editor α) : Attempt (Session σ) α :=
  Attempt.of fun s =>
    let (result, editor) := call.exec s.editor
    (result, { s with editor })

/-- A call to the editor.  Its events are handed on whether it succeeds or not. -/
def run (call : Attempt Editor α) : Attempt (Session σ) α :=
  Attempt.of fun s =>
    let (result, s) := (onEditor call).exec s
    (result, s.settle)

/-- Several calls to the editor as one. -/
def bundle (calls : Attempt Editor α) : Attempt (Session σ) α := run (Editor.bundle calls)

/-- Locks or unlocks the pipeline.  Unlocking makes up for corrections that had to wait. -/
def setEnabled (enabled : Bool) (s : Session σ) : Session σ :=
  let s := { s with editor := s.editor.setEnabled enabled }
  if enabled then
    -- A correction that is refused here leaves its operator as it is; the call itself succeeds.
    let (_, propagation, editor) := s.propagation.applyDeferred s.editor
    { s with propagation, editor }.settle
  else s.settle

/-! ## Gestures -/

/-- Hands a gesture to the bridge, before the events that come of it are handed on. -/
def forward (gesture : Gesture) (s : Session σ) : Except EditError Nat × Session σ :=
  let (result, bridge, editor) := s.view.bridge.forward s.editor gesture
  (result, { s with editor, view := { s.view with bridge } })

/-- Does what a gesture asks.  Answers how many requests it made. -/
def handleGesture (gesture : Gesture) : Attempt (Session σ) Nat :=
  Attempt.of fun s =>
    let (result, s) := s.forward gesture
    (result, s.settle)

/-- The gestures that the surface reports, and the session without them. -/
def takeGestures (s : Session σ) : List Gesture × Session σ :=
  let (gestures, surface) := Surface.takeGestures s.view.surface
  (gestures, { s with view := { s.view with surface } })

/-- Does what each of the gestures asks, up to the first that is refused. -/
def handleAll (gestures : List Gesture) : Attempt (Session σ) Nat :=
  gestures.foldlM (fun count gesture => return count + (← handleGesture gesture)) 0

/-- Does what the gestures ask that the surface reports. -/
def processGestures : Attempt (Session σ) Nat := do
  let gestures ← modifyGet takeGestures
  handleAll gestures

/-- Whether gestures are dropped. -/
def setReplaying (replaying : Bool) (s : Session σ) : Session σ :=
  { s with view := { s.view with bridge := { s.view.bridge with replaying } } }

/-- Drops the gestures that the surface reports. -/
def dropEchoes (s : Session σ) : Session σ :=
  let (gestures, s) := s.takeGestures
  gestures.foldl (fun s gesture => (s.forward gesture).2) s

/-- Replays history, and drops whatever the surface reports meanwhile. -/
def replay (call : Attempt Editor Bool) : Attempt (Session σ) Bool :=
  Attempt.of fun s =>
    let (result, s) := (run call).exec (s.setReplaying true)
    -- What the surface reports now echoes the replay and must not become an edit.
    (result, s.dropEchoes.setReplaying false)

/-- Undoes the latest command.  Answers whether there was one. -/
def undo : Attempt (Session σ) Bool := replay Editor.undo

/-- Carries the latest undone command out again.  Answers whether there was one. -/
def redo : Attempt (Session σ) Bool := replay Editor.redo

/-! ## The view -/

/-- Draws all of the pipeline anew, with its findings. -/
def redraw (s : Session σ) : Session σ :=
  let view := s.validation.results.toList.foldl
    (fun view entry => view.draw (Surface.setValidity entry.1 entry.2.isValid))
    (s.view.redraw s.graph)
  { s with view }

/-- Highlights those of the operators that are there and not highlighted yet. -/
def highlight (ids : List OperatorId) (s : Session σ) : Session σ :=
  let fresh := s.view.bridge.newlyHighlighted s.graph ids
  if fresh.isEmpty then s else s.dispatch [.operatorsHighlighted fresh]

/-- Takes the highlight from those of the operators that have it. -/
def unhighlight (ids : List OperatorId) (s : Session σ) : Session σ :=
  let current := s.view.bridge.currentlyHighlighted ids
  if current.isEmpty then s else s.dispatch [.operatorsUnhighlighted current]

/-! ## Inference -/

/-- The schema that the form of an operator follows. -/
def operatorSchema? (s : Session σ) (id : OperatorId) : Option Json := do
  let op ← s.graph.operators.get? id
  s.propagation.overlay.schemaOf? s.catalogue id op.type

/-- A request for the present graph, for a host that sends requests itself. -/
def buildRequest (s : Session σ) : Request × Session σ :=
  let (request, propagation) := s.propagation.prepare s.graph s.revision
  (request, { s with propagation })

/-- Takes over what came back for a request. -/
def applyOutcome (outcome : Outcome) : Attempt (Session σ) Applied :=
  Attempt.of fun s =>
    let (result, propagation, editor) := s.propagation.apply s.editor outcome s.revision
    let s := { s with propagation, editor }
    match result with
    | .ok applied => (.ok applied, (s.dispatch applied.events).settle)
    | .error cause => (.error cause, s.settle)

/-- Opens a way to an inference service, in place of any earlier one, and submits a request. -/
def attach (s : Session σ) : Session σ :=
  { s with dispatcher := some (.start s.settings.quietPeriod) }.schedule

/-- Opens the way to the inference service of the settings.  Answers whether they name one. -/
def connect (s : Session σ) : Bool × Session σ :=
  match s.settings.inferenceEndpoint with
  | some _ => (true, s.attach)
  | none => (false, s)

/-- Lets so much time pass. -/
def advance (s : Session σ) (service : Service) (duration : Nat) : Session σ × Service :=
  match s.dispatcher with
  | none => (s, service)
  | some dispatcher =>
    let (dispatcher, service) := dispatcher.advance service duration
    ({ s with dispatcher := some dispatcher }, service)

/-- The first answer that has come back, and the session without it. -/
def takeOutcome? (s : Session σ) : Option (Outcome × Session σ) := do
  let dispatcher ← s.dispatcher
  let (outcome, dispatcher) ← dispatcher.take?
  return (outcome, { s with dispatcher := some dispatcher })

/-- Takes over at most so many of the answers that have come back. -/
def pumpUpTo : Nat → Attempt (Session σ) Nat
  | 0 => return 0
  | bound + 1 => do
    match (← get).takeOutcome? with
    | none => return 0
    | some (outcome, s) =>
      set s
      let _ ← applyOutcome outcome
      return (← pumpUpTo bound) + 1

/-- Takes over all answers that have come back.  Answers how many there were; taking one over sends
nothing, so no other comes back meanwhile. -/
def pump : Attempt (Session σ) Nat := do
  pumpUpTo (((← get).dispatcher.map (·.outcomes.length)).getD 0)

/-- What waiting for an answer ends with. -/
inductive Awaited where
  /-- There is no way to an inference service. -/
  | detached
  /-- No answer came in time. -/
  | timeout
  | answered (applied : Applied)

/-- Waits for an answer, up to so long, and takes it over. -/
def next (service : Service) (patience : Nat) (s : Session σ) :
    Except EditError Awaited × Session σ × Service :=
  match s.dispatcher with
  | none => (.ok .detached, s, service)
  | some dispatcher =>
    let (outcome, dispatcher, service) := dispatcher.await service patience
    let s := { s with dispatcher := some dispatcher }
    match outcome with
    | none => (.ok .timeout, s, service)
    | some outcome =>
      let (result, s) := (applyOutcome outcome).exec s
      (result.map .answered, s, service)

/-! ## Saving and loading -/

/-- What the pipeline is saved as. -/
def content (s : Session σ) : Content := .ofGraph s.graph

/-- Replaces the pipeline by a saved one, as one call.  A saved pipeline lists its breakpoints in no
order of its own, so they are set in an order that is given. -/
def replaceBy (content : Content) (order : List (LinkId × Breakpoint)) : Attempt Editor Unit :=
  Editor.bundle do
    -- Operators take their links with them.
    Editor.deleteAll (← get).graph.operators.keys []
    Editor.addAll (content.operators.map fun op => (op, content.positionOf op.id)) content.links
    order.forM fun (id, breakpoint) => Editor.setBreakpoint id (some breakpoint)

/-- Replaces the pipeline by a saved one, with breakpoints set in the given order.  This cannot be
undone: history is forgotten.  If it fails, pipeline and history stay. -/
def loadInOrder (content : Content) (order : List (LinkId × Breakpoint)) :
    Attempt (Session σ) Unit :=
  run do
    replaceBy content order
    modify Editor.clearHistory

/-- Replaces the pipeline by a saved one, with breakpoints set in the order of their links.  In each
other order the same pipelines are loaded, with the same result: it is the events about breakpoints
that come in that order, and where several links are missing, the first of them is named. -/
def load (content : Content) : Attempt (Session σ) Unit :=
  loadInOrder content content.breakpoints.toList

end

end Session

end PipelineEditor
