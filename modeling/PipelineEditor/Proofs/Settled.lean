import PipelineEditor.Proofs.Run

/-!
# Handing events on

A session is settled when no events wait to be handed on, as it is once it has handed on what was
announced.  The replays are the case to look at: what the surface reports meanwhile is lifted after
the events have been handed on, and must come to nothing.

## Main definitions

* `Session.findings`: what the check tells that follows a call
* `Session.Settled`: no events wait to be handed on

## Main results

* `Session.settle_eq`: what was announced is shown and published, and then the findings
* `Session.settled_settle`, `Session.Settled.settle_eq_self`: handing on leaves the session settled,
  and a settled session as it is
* `Session.dropEchoes_eq`: what the surface reports during a replay does nothing
-/

namespace PipelineEditor

open Attempt (Keeps)

namespace Session

variable {σ : Type} [Surface σ] {s : Session σ}

/-! ## What is handed on -/

omit [Surface σ] in
theorem schedule_published (s : Session σ) : s.schedule.published = s.published := by
  unfold schedule
  split <;> rfl

omit [Surface σ] in
theorem schedule_view (s : Session σ) : s.schedule.view = s.view := by
  unfold schedule
  split <;> rfl

omit [Surface σ] in
theorem schedule_validation (s : Session σ) : s.schedule.validation = s.validation := by
  unfold schedule
  split <;> rfl

omit [Surface σ] in
/-- What a check of the graph tells of, where something was announced that calls for one. -/
def findings (s : Session σ) : List Event :=
  if s.editor.draft.announced.any Event.affectsValidation then
    (s.validation.refresh s.graph s.catalogue).2
  else []

omit [Surface σ] in
theorem stream_findings (s : Session σ) : ∀ event ∈ s.findings, event.stream = .validation := by
  intro event hmem
  unfold findings at hmem
  split at hmem
  · rcases List.mem_append.mp hmem with hmem | hmem
    · obtain ⟨_, -, rfl⟩ := List.mem_map.mp hmem
      rfl
    · obtain ⟨_, -, rfl⟩ := List.mem_map.mp hmem
      rfl
  · cases hmem

/-- **What is handed on**: the events that were announced, and after them the findings that come of
them, are shown and published; and the findings are those on the present graph if a check was called
for. -/
theorem settle_eq (s : Session σ) :
    s.settle.view = (s.editor.draft.announced ++ s.findings).foldl View.project s.view ∧
    s.settle.published = s.published ++ (s.editor.draft.announced ++ s.findings) ∧
    s.settle.validation =
      if s.editor.draft.announced.any Event.affectsValidation then
        (s.validation.refresh s.graph s.catalogue).1
      else s.validation := by
  unfold settle findings Editor.takeEvents
  dsimp only
  split
  · rename_i hempty
    rw [List.isEmpty_iff.mp hempty]
    simp
  · split <;> split <;>
      simp [publish, revise, schedule_view, schedule_published, schedule_validation, revalidate,
        project, graph, catalogue, Editor.graph, Draft.start]

theorem settle_view (s : Session σ) :
    s.settle.view = (s.editor.draft.announced ++ s.findings).foldl View.project s.view :=
  s.settle_eq.1

theorem settle_published (s : Session σ) :
    s.settle.published = s.published ++ (s.editor.draft.announced ++ s.findings) :=
  s.settle_eq.2.1

theorem settle_validation (s : Session σ) : s.settle.validation =
    if s.editor.draft.announced.any Event.affectsValidation then
      (s.validation.refresh s.graph s.catalogue).1
    else s.validation :=
  s.settle_eq.2.2

/-! ## Settled sessions -/

/-- **No events wait to be handed on.** -/
def Settled (s : Session σ) : Prop := s.editor.draft.announced = []

/-- A session that was settled is settled still. -/
def StaysSettled (s s' : Session σ) : Prop := s.Settled → s'.Settled

theorem settled_settle (s : Session σ) : s.settle.Settled := by
  unfold Settled
  rw [settle_editor]
  rfl

omit [Surface σ] in
/-- Where no events wait, the draft is as if it had just been started. -/
theorem Settled.draft_eq (h : s.Settled) : s.editor.draft = .start s.graph := by
  have hnone : s.editor.draft.announced = [] := h
  calc s.editor.draft = ⟨s.editor.draft.graph, s.editor.draft.announced⟩ := rfl
    _ = .start s.graph := by rw [hnone]; rfl

omit [Surface σ] in
/-- Where no events wait, there are none to take. -/
theorem Settled.takeEvents_eq (h : s.Settled) : s.editor.takeEvents = ([], s.editor) := by
  have hnone : s.editor.draft.announced = [] := h
  have hdraft : s.editor.draft = .start s.editor.graph := h.draft_eq
  unfold Editor.takeEvents
  rw [hnone, ← hdraft]

/-- Where no events wait, there is nothing to hand on. -/
theorem Settled.settle_eq_self (h : s.Settled) : s.settle = s := by
  unfold settle
  rw [h.takeEvents_eq]
  rfl

end Session

/-! ## Replays drop gestures -/

namespace View

variable {σ : Type} [Surface σ]

/-- What one highlight leaves as it is, any number of them does. -/
theorem highlightAll_eq {β : Type} {f : View σ → β} {on : Bool}
    (h : ∀ (view : View σ) id, f (view.highlight id on) = f view) (ids : List OperatorId)
    (view : View σ) : f (ids.foldl (fun view id => view.highlight id on) view) = f view := by
  induction ids generalizing view with
  | nil => rfl
  | cons id rest ih => exact (ih _).trans (h view id)

theorem project_replaying (view : View σ) (event : Event) :
    (view.project event).bridge.replaying = view.bridge.replaying := by
  cases event with
  | operatorAdded op position =>
    unfold project drawOperator
    dsimp only
    split <;> rfl
  | linkDeleted link =>
    unfold project eraseLink
    dsimp only
    split <;> rfl
  | operatorsHighlighted ids | operatorsUnhighlighted ids =>
    exact highlightAll_eq (f := fun view => view.bridge.replaying) (fun _ _ => rfl) ids view
  | _ => rfl

theorem foldl_project_replaying (events : List Event) (view : View σ) :
    (events.foldl project view).bridge.replaying = view.bridge.replaying := by
  induction events generalizing view with
  | nil => rfl
  | cons event rest ih => exact (ih _).trans (view.project_replaying event)

end View

/-- A bridge that drops gestures makes no requests. -/
theorem Bridge.forward_of_replaying {bridge : Bridge} (h : bridge.replaying = true) (e : Editor)
    (gesture : Gesture) : bridge.forward e gesture = (.ok 0, bridge, e) := by
  unfold forward lift
  rw [if_pos h]
  rfl

namespace Session

variable {σ : Type} [Surface σ] {s : Session σ}

theorem settle_replaying (s : Session σ) :
    s.settle.view.bridge.replaying = s.view.bridge.replaying := by
  rw [settle_view, View.foldl_project_replaying]

/-- What the surface reports during a replay is taken from it, and does nothing. -/
theorem dropEchoes_eq (h : s.view.bridge.replaying = true) : s.dropEchoes = s.takeGestures.2 := by
  have hfold (gestures : List Gesture) (s : Session σ) (h : s.view.bridge.replaying = true) :
      gestures.foldl (fun s gesture => (s.forward gesture).2) s = s := by
    induction gestures generalizing s with
    | nil => rfl
    | cons gesture rest ih =>
      have hnothing : (s.forward gesture).2 = s := by
        unfold forward
        rw [Bridge.forward_of_replaying h]
      rw [List.foldl_cons, hnothing]
      exact ih s h
  exact hfold _ _ h

end Session

end PipelineEditor
