import PipelineEditor.Proofs.Turns

/-!
# Replays and what the surface reports

While history is replayed the surface may report anything: echoes of what it is asked to draw, and
whatever else it likes.  The reports are taken from it while gestures are dropped, so none of them
reaches the editor or the records of link shapes.  A replay does to a session what the call to the
editor does alone, and what comes of showing the events that the call announced.

## Main definitions

* `Event.reshape`: what showing an event does to the records of link shapes
* `Session.ReplaysAs`: a call on the session is the call on its editor alone, whatever is reported

## Main results

* `View.shapes_projectAll`: the records after some events
* `Session.replaysAs_replay`: a replay is the call alone
* `Session.replays_after`: so are undo and redo after every run, on every surface
-/

namespace PipelineEditor

/-! ## What events do to the records -/

/-- **What showing an event does to the records of link shapes**: a link that comes is recorded as
it is, and one that goes takes its record along, unless the record is of a shape that came loose. -/
def Event.reshape (shapes : Dict LinkShape) : Event → Dict LinkShape
  | linkAdded link => shapes.insert link.id (.ofLink link)
  | linkDeleted link =>
    match shapes.get? link.id with
    | some shape => if shape.isOf link then shapes.erase link.id else shapes
    | none => shapes
  | _ => shapes

/-- Findings concern no record. -/
theorem Event.reshape_of_stream {event : Event} (h : event.stream = .validation)
    (shapes : Dict LinkShape) : event.reshape shapes = shapes := by
  cases event <;> first | rfl | cases h

namespace View

variable {σ : Type} [Surface σ]

theorem shapes_project (view : View σ) (event : Event) :
    (view.project event).bridge.shapes = event.reshape view.bridge.shapes := by
  cases event with
  | operatorAdded op position =>
    unfold project drawOperator
    dsimp only
    split <;> rfl
  | linkDeleted link =>
    simp only [project, eraseLink, Event.reshape]
    cases hshape : view.bridge.shapes.get? link.id with
    | none => exact Dict.erase_of_get?_eq_none hshape
    | some shape => cases hloose : shape.isOf link <;> simp [hloose, draw, Bridge.dropShape]
  | operatorsHighlighted ids | operatorsUnhighlighted ids =>
    exact highlightAll_eq (f := fun view => view.bridge.shapes) (fun _ _ => rfl) ids view
  | _ => rfl

/-- The records after events have been shown depend on the events and on the records before, and on
nothing that the surface does. -/
theorem shapes_projectAll (view : View σ) (events : List Event) :
    (events.foldl project view).bridge.shapes =
      events.foldl Event.reshape view.bridge.shapes := by
  induction events generalizing view with
  | nil => rfl
  | cons event rest ih => rw [List.foldl_cons, ih, shapes_project, List.foldl_cons]

end View

namespace Session

variable {σ : Type} [Surface σ] {s : Session σ}

/-- Of what is handed on, the events that were announced change the records, and the findings do
not. -/
theorem settle_shapes (s : Session σ) : s.settle.view.bridge.shapes =
    s.editor.draft.announced.foldl Event.reshape s.view.bridge.shapes := by
  have hfindings (events : List Event) (h : ∀ event ∈ events, event.stream = .validation)
      (shapes : Dict LinkShape) : events.foldl Event.reshape shapes = shapes := by
    induction events with
    | nil => rfl
    | cons event rest ih =>
      rw [List.foldl_cons, Event.reshape_of_stream (h event List.mem_cons_self)]
      exact ih fun other hmem => h other (List.mem_cons_of_mem _ hmem)
  rw [settle_view, View.shapes_projectAll, List.foldl_append, hfindings _ s.stream_findings]

/-! ## Replays -/

/-- **A call on the session is the call on its editor alone**, whatever the surface reports
meanwhile: it answers the same, leaves the same graph and the same history, changes the records of
link shapes only as the events say that the call announced, and leaves gestures to be followed. -/
structure ReplaysAs (s : Session σ) (replayed : Attempt (Session σ) Bool)
    (call : Attempt Editor Bool) : Prop where
  answer : (replayed.exec s).1 = (call.exec s.editor).1
  graph : (replayed.exec s).2.graph = (call.exec s.editor).2.graph
  undoable : (replayed.exec s).2.editor.history.undoable = (call.exec s.editor).2.history.undoable
  redoable : (replayed.exec s).2.editor.history.redoable = (call.exec s.editor).2.history.redoable
  shapes : (replayed.exec s).2.view.bridge.shapes =
    (call.exec s.editor).2.takeEvents.1.foldl Event.reshape s.view.bridge.shapes
  following : (replayed.exec s).2.view.bridge.replaying = false

/-- **A replay is the call alone**, with the reports of the surface taken from it and dropped. -/
theorem replaysAs_replay (call : Attempt Editor Bool) (s : Session σ) :
    s.ReplaysAs (replay call) call := by
  have heditor := replay_editor call s
  refine ⟨congrArg Prod.fst (exec_replay call s), ?_, ?_, ?_, ?_, ?_⟩
  · rw [Session.graph, heditor]
    rfl
  · rw [heditor]
    rfl
  · rw [heditor]
    rfl
  · -- Taking the reports from the surface leaves the bridge alone.
    rw [exec_replay]
    exact settle_shapes _
  · rw [exec_replay]
    rfl

/-- **Replays are immune to what the surface reports.**  After every run, on a surface of any kind,
undoing and redoing do to the graph, to both stacks and to the answer what the editor does alone.
No events wait beforehand, so those that the records of link shapes follow are the ones replayed;
and gestures are followed again afterwards, whether the call succeeded or not.  What the surface
reports meanwhile is not restricted, and occurs nowhere in what is left. -/
theorem replays_after (catalogue : Catalogue) (settings : Settings) (clock : Nat → Nat)
    (surface : σ) (calls : List (Call σ)) :
    let s := (start catalogue settings clock surface).after calls
    s.Settled ∧ s.ReplaysAs undo Editor.undo ∧ s.ReplaysAs redo Editor.redo := by
  intro s
  have hrest : s.AtRest catalogue := atRest_after catalogue settings clock surface calls
  exact ⟨hrest.settled, replaysAs_replay Editor.undo s, replaysAs_replay Editor.redo s⟩

end Session

end PipelineEditor
