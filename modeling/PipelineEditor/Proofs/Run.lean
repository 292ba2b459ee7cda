import PipelineEditor.Proofs.Evolution
import PipelineEditor.Session

/-!
# Runs of a session

A host makes calls on a session in any order.  Whatever a call does comes down to steps of a few
kinds: the editor evolves, the drawing changes, events are handed on, and the requests to the
inference service are kept account of.  What every step keeps, every run keeps.

## Main definitions

* `Session.Call`, `Session.after`: the calls of a host, and the session after some of them
* `Session.Step host`: one step; the traffic with the inference service is the host's

## Main results

* `Session.handleAll_keeps`, `Session.pumpUpTo_keeps`: what each gesture, or each answer, keeps
* `Session.Call.steps`: each call takes a session along by steps
* `Session.graph_wellFormed_after`: the graph is well-formed after every run
-/

namespace PipelineEditor

/-- Whether the event tells of a change of the graph. -/
def Event.isOfGraph : Event → Bool
  | .operatorAdded .. | .operatorDeleted .. | .linkAdded .. | .linkDeleted .. | .propertyChanged ..
  | .operatorDisabledChanged .. | .breakpointChanged .. | .operatorMoved .. => true
  | _ => false

/-! ## The events of a draft -/

/-- Whether the event may be announced by an editor: it tells of the graph, or of the lock. -/
def Event.isOfEditor (event : Event) : Bool := event.isOfGraph || event.stream = .modification

/-- Mutations tell of the graph only. -/
theorem Mutation.isOfGraph {m : Mutation} {g g' : Graph} {events : List Event}
    (hstep : m.step g = .ok (g', events)) : ∀ event ∈ events, event.isOfGraph = true := by
  -- By what each mutation tells; a cascade tells of links, and then of the operator.
  cases m with
  | addOperator op position =>
    obtain ⟨-, heq⟩ := Graph.addOperator_eq_ok_iff.mp hstep
    cases heq
    simp [Event.isOfGraph]
  | deleteOperator id =>
    obtain ⟨op, -, heq⟩ := Graph.deleteOperator_eq_ok_iff.mp hstep
    cases heq
    intro event hmem
    rcases List.mem_append.mp hmem with hmem | hmem
    · obtain ⟨link, -, rfl⟩ := List.mem_map.mp hmem
      rfl
    · rw [List.mem_singleton.mp hmem]
      rfl
  | addLink link =>
    obtain ⟨-, heq⟩ := Graph.addLink_eq_ok_iff.mp hstep
    cases heq
    simp [Event.isOfGraph]
  | deleteLink id =>
    obtain ⟨link, -, heq⟩ := Graph.deleteLink_eq_ok_iff.mp hstep
    cases heq
    simp [Event.isOfGraph]
  | setProperties id properties =>
    obtain ⟨op, -, heq⟩ := Graph.setProperties_eq_ok_iff.mp hstep
    cases heq
    simp [Event.isOfGraph]
  | setDisabled id disabled =>
    obtain ⟨op, -, heq⟩ := Graph.setDisabled_eq_ok_iff.mp hstep
    cases heq
    split <;> simp [Event.isOfGraph]
  | setBreakpoint id breakpoint =>
    obtain ⟨-, heq⟩ := Graph.setBreakpoint_eq_ok_iff.mp hstep
    cases heq
    split <;> simp [Event.isOfGraph]
  | setPosition id position =>
    obtain ⟨-, heq⟩ := Graph.setPosition_eq_ok_iff.mp hstep
    cases heq
    split <;> simp [Event.isOfGraph]

/-- All that steps add to what is announced is of the editor. -/
theorem Draft.Steps.isOfEditor {catalogue : Catalogue} {d d' : Draft}
    (hsteps : Draft.Steps catalogue d d') (h : ∀ event ∈ d.announced, event.isOfEditor = true) :
    ∀ event ∈ d'.announced, event.isOfEditor = true := by
  induction hsteps with
  | refl => exact h
  | tail _ hstep ih =>
    intro event hmem
    cases hstep with
    | mutation m _ hm =>
      rcases List.mem_append.mp hmem with hmem | hmem
      · exact ih event hmem
      · simp [Event.isOfEditor, m.isOfGraph hm event hmem]
    | lock =>
      rcases List.mem_append.mp hmem with hmem | hmem
      · exact ih event hmem
      · rw [List.mem_singleton.mp hmem]
        rfl

/-! ## The events of an answer -/

/-- What belongs to the streams of the inference service and of the checks does not tell of the
graph. -/
theorem Event.isOfGraph_of_stream {event : Event}
    (h : event.stream = .propagation ∨ event.stream = .validation) : event.isOfGraph = false := by
  cases event <;> first | rfl | simp [stream] at h

/-- Taking over an answer tells of schemas only. -/
theorem Overlay.stream_apply (overlay : Overlay) (g : Graph) (catalogue : Catalogue)
    (result : InputSchemas) :
    ∀ event ∈ (overlay.apply g catalogue result).2, event.stream = .propagation := by
  have hone (overlay : Overlay) (op : Operator) :
      ∀ event ∈ (overlay.applyTo catalogue result op).2, event.stream = .propagation := by
    intro event hmem
    unfold applyTo at hmem
    dsimp only at hmem
    split at hmem
    · cases hmem
    · split at hmem
      · cases hmem
      · split at hmem <;> rw [List.mem_singleton.mp hmem] <;> rfl
  refine List.foldlRecOn (motive := fun told : Overlay × List Event =>
    ∀ event ∈ told.2, event.stream = .propagation) g.operators.values _ ?_ ?_
  · intro event hmem
    cases hmem
  · intro told ih op _ event hmem
    rcases List.mem_append.mp hmem with hmem | hmem
    · exact ih event hmem
    · exact hone told.1 op event hmem

/-- So does an outcome that is taken over, or it tells of a failure. -/
theorem Propagation.stream_apply {p p' : Propagation} {e e' : Editor} {outcome : Outcome}
    {revision : Nat} {applied : Applied} (h : p.apply e outcome revision = (.ok applied, p', e')) :
    ∀ event ∈ applied.events, event.stream = .propagation := by
  unfold apply at h
  split at h
  · cases h
    exact fun _ hmem => nomatch hmem
  · split at h
    · cases h
      intro event hmem
      rw [List.mem_singleton.mp hmem]
      rfl
    · rename_i result _
      have hoverlay := p.overlay.stream_apply e.graph e.catalogue result
      dsimp only at h
      rcases hcorrect : ({ p with overlay := (p.overlay.apply e.graph e.catalogue result).1 } :
        Propagation).correct e result with ⟨cause | corrected, p'', e''⟩
      · rw [hcorrect] at h
        cases h
      · rw [hcorrect] at h
        cases h
        exact hoverlay

open Attempt (Keeps)
open Editor (Evolves)

namespace Session

variable {σ α : Type}

/-! ## Calls -/

/-- A call of a host.  What is bundled may be any program of editor calls. -/
inductive Call (σ : Type) : Type 1 where
  | act (action : Action)
  | bundle {α : Type} (calls : Attempt Editor α) (h : Program (fun _ => True) calls)
  | undo
  | redo
  | load (content : Content)
  | setEnabled (enabled : Bool)
  | handleGesture (gesture : Gesture)
  | processGestures
  /-- The host uses the surface, which may report gestures from then on. -/
  | useSurface (use : σ → σ)
  | redraw
  | highlight (ids : List OperatorId)
  | unhighlight (ids : List OperatorId)
  | buildRequest
  | attach
  | connect
  | advance (service : Service) (duration : Nat)
  | next (service : Service) (patience : Nat)
  | pump
  | applyOutcome (outcome : Outcome)

variable [Surface σ]

/-- The session after a call, whether it succeeded or not. -/
def Call.exec (s : Session σ) : Call σ → Session σ
  | act action => ((run action.perform).exec s).2
  | bundle calls _ => ((Session.bundle calls).exec s).2
  | undo => (Session.undo.exec s).2
  | redo => (Session.redo.exec s).2
  | load content => ((Session.load content).exec s).2
  | setEnabled enabled => s.setEnabled enabled
  | handleGesture gesture => ((Session.handleGesture gesture).exec s).2
  | processGestures => (Session.processGestures.exec s).2
  | useSurface use => { s with view := s.view.draw use }
  | redraw => s.redraw
  | highlight ids => s.highlight ids
  | unhighlight ids => s.unhighlight ids
  | buildRequest => s.buildRequest.2
  | attach => s.attach
  | connect => s.connect.2
  | advance service duration => (s.advance service duration).1
  | next service patience => (s.next service patience).2.1
  | pump => (Session.pump.exec s).2
  | applyOutcome outcome => ((Session.applyOutcome outcome).exec s).2

/-- The session after calls. -/
def after (s : Session σ) (calls : List (Call σ)) : Session σ := calls.foldl Call.exec s

/-! ## What calls come down to -/

section

variable {s s' : Session σ}

omit [Surface σ] in
/-- An answer that is taken is the first that the dispatcher has. -/
theorem takeOutcome?_eq_some {outcome : Outcome} (h : s.takeOutcome? = some (outcome, s')) :
    ∃ d left, s.dispatcher = some d ∧ d.take? = some (outcome, left) ∧
      s' = { s with dispatcher := some left } := by
  unfold takeOutcome? at h
  simp only [Option.bind_eq_bind, Option.bind_eq_some_iff] at h
  obtain ⟨d, hdispatcher, ⟨outcome, left⟩, htake, heq⟩ := h
  cases heq
  exact ⟨d, left, hdispatcher, htake, rfl⟩

omit [Surface σ] in
theorem advance_cases (service : Service) (duration : Nat) (s : Session σ) :
    (s.advance service duration).1 = s ∨ ∃ d, s.dispatcher = some d ∧
      (s.advance service duration).1 =
        { s with dispatcher := some (d.advance service duration).1 } := by
  unfold advance
  split
  · exact .inl rfl
  · rename_i d hdispatcher
    exact .inr ⟨d, hdispatcher, rfl⟩

omit [Surface σ] in
theorem connect_cases (s : Session σ) : s.connect.2 = s ∨ s.connect.2 = s.attach := by
  unfold connect
  split
  · exact .inr rfl
  · exact .inl rfl

theorem highlight_cases (ids : List OperatorId) (s : Session σ) :
    s.highlight ids = s ∨ s.highlight ids =
      s.dispatch [.operatorsHighlighted (s.view.bridge.newlyHighlighted s.graph ids)] := by
  unfold highlight
  dsimp only
  split
  · exact .inl rfl
  · exact .inr rfl

theorem unhighlight_cases (ids : List OperatorId) (s : Session σ) :
    s.unhighlight ids = s ∨ s.unhighlight ids =
      s.dispatch [.operatorsUnhighlighted (s.view.bridge.currentlyHighlighted ids)] := by
  unfold unhighlight
  dsimp only
  split
  · exact .inl rfl
  · exact .inr rfl

/-- Who waits for an answer lets the dispatcher go on, and takes over what comes of it. -/
theorem next_cases (service : Service) (patience : Nat) (s : Session σ) :
    (s.next service patience).2.1 = s ∨ ∃ d outcome? left, s.dispatcher = some d ∧
      (d.await service patience).1 = outcome? ∧ (d.await service patience).2.1 = left ∧
      (s.next service patience).2.1 =
        match outcome? with
        | none => { s with dispatcher := some left }
        | some outcome => ((applyOutcome outcome).exec { s with dispatcher := some left }).2 := by
  unfold next
  split
  · exact .inl rfl
  · rename_i d hdispatcher
    refine .inr ⟨d, _, _, hdispatcher, rfl, rfl, ?_⟩
    dsimp only
    rcases d.await service patience with ⟨_ | outcome, left, service'⟩
    · rfl
    · rfl

variable {R : Session σ → Session σ → Prop} [Std.Refl R] [IsTrans (Session σ) R]

/-- What each of the gestures keeps, all of them keep. -/
theorem handleAll_keeps {gestures : List Gesture}
    (hgesture : ∀ gesture ∈ gestures, Keeps R (handleGesture gesture : Attempt (Session σ) Nat)) :
    Keeps R (handleAll gestures : Attempt (Session σ) Nat) := by
  have hfold (count : Nat) : Keeps R (gestures.foldlM (fun count gesture => do
      return count + (← handleGesture gesture)) count : Attempt (Session σ) Nat) := by
    induction gestures generalizing count with
    | nil => exact .pure _
    | cons gesture rest ih =>
      rw [List.foldlM_cons]
      refine .bind (.bind (hgesture gesture List.mem_cons_self) fun _ => .pure _) ?_
      exact ih fun other hmem => hgesture other (List.mem_cons_of_mem _ hmem)
  exact hfold 0

/-- What is kept as an answer is taken, and as it is taken over, is kept as all are. -/
theorem pumpUpTo_keeps
    (htake : ∀ {s s' : Session σ} {outcome}, s.takeOutcome? = some (outcome, s') → R s s')
    (happly : ∀ outcome, Keeps R (applyOutcome outcome : Attempt (Session σ) Applied))
    (bound : Nat) : Keeps R (pumpUpTo bound : Attempt (Session σ) Nat) := by
  induction bound with
  | zero => exact .pure _
  | succ bound ih =>
    intro s
    unfold pumpUpTo
    rw [Attempt.exec_get_bind]
    cases htaken : s.takeOutcome? with
    | none => exact refl_of R s
    | some taken =>
      obtain ⟨outcome, s'⟩ := taken
      have hrest : Keeps R (do
          let _ ← applyOutcome outcome
          return (← pumpUpTo bound) + 1 : Attempt (Session σ) Nat) :=
        .bind (happly outcome) fun _ => .bind ih fun _ => .pure _
      exact trans_of R (htake htaken) (hrest s')

end

/-! ## Steps -/

/-- **One step of a session.**  Where `host` holds, the step may be one of the traffic between the
host, the session and the inference service. -/
inductive Step (host : Prop) : Session σ → Session σ → Prop
  | edit (s : Session σ) {editor : Editor} (h : Evolves s.editor editor) :
      Step host s { s with editor }
  | draw (s : Session σ) (view : View σ) : Step host s { s with view }
  /-- Events that do not come from the graph are shown and published. -/
  | notify (s : Session σ) {events : List Event} (h : ∀ event ∈ events, event.isOfGraph = false) :
      Step host s (s.dispatch events)
  | settle (s : Session σ) : Step host s s.settle
  /-- What an answer says is taken over, or forgotten. -/
  | learn (s : Session σ) (overlay : Overlay) (deferred : Bool) :
      Step host s { s with propagation := { s.propagation with overlay, deferred } }
  | exchange (h : host) (s : Session σ) (propagation : Propagation)
      (dispatcher : Option Dispatcher) : Step host s { s with propagation, dispatcher }

/-- With less of the traffic in it, a step is a step still. -/
theorem Step.mono {host host' : Prop} (h : host → host') {s s' : Session σ}
    (hstep : Step host s s') : Step host' s s' := by
  cases hstep with
  | edit _ hedit => exact .edit s hedit
  | draw _ view => exact .draw s view
  | notify _ hevents => exact .notify s hevents
  | settle => exact .settle s
  | learn _ overlay deferred => exact .learn s overlay deferred
  | exchange hhost _ p d => exact .exchange (h hhost) s p d

/-- Any number of steps. -/
abbrev Steps (host : Prop) : Session σ → Session σ → Prop := Relation.ReflTransGen (Step host)

variable {host : Prop} {s s' : Session σ}

theorem run_keeps {call : Attempt Editor α} (hcall : Keeps Evolves call) :
    Keeps (Steps host) (run call : Attempt (Session σ) α) := fun s =>
  .tail (.single (.edit s (hcall s.editor))) (.settle _)

theorem forward_steps (gesture : Gesture) (s : Session σ) :
    Steps host s (s.forward gesture).2 :=
  .tail (.single (.edit s (Bridge.forward_evolves ..))) (.draw _ _)

theorem handleGesture_keeps (gesture : Gesture) :
    Keeps (Steps host) (handleGesture gesture : Attempt (Session σ) Nat) := fun s =>
  .tail (forward_steps gesture s) (.settle _)

theorem dropEchoes_steps (s : Session σ) : Steps host s s.dropEchoes := by
  have hfold (gestures : List Gesture) (s : Session σ) :
      Steps host s (gestures.foldl (fun s gesture => (s.forward gesture).2) s) := by
    induction gestures generalizing s with
    | nil => exact .refl
    | cons gesture rest ih => exact (forward_steps gesture s).trans (ih _)
  exact .trans (.single (.draw s _)) (hfold _ _)

theorem replay_keeps {call : Attempt Editor Bool} (hcall : Keeps Evolves call) :
    Keeps (Steps host) (replay call : Attempt (Session σ) Bool) := by
  intro s
  have hrun : Steps host (s.setReplaying true) _ := run_keeps hcall _
  exact .tail (.trans (.trans (.single (.draw s _)) hrun) (dropEchoes_steps _)) (.draw _ _)

theorem load_evolves (content : Content) (order : List (LinkId × Breakpoint)) :
    Keeps Evolves (do replaceBy content order; modify Editor.clearHistory : Attempt Editor Unit) := by
  have haction (action : Action) : Keeps Evolves action.perform :=
    action.keeps Editor.respects_evolves
  -- What replaces the pipeline is one bundle; history is forgotten after it.
  refine .bind (Editor.bundle_evolves ?_) fun _ => Editor.clearHistory_evolves
  refine .read fun e => .bind (haction (.deleteAll e.graph.operators.keys [])) fun _ =>
    .bind (haction (.addAll _ _)) fun _ => .forM ?_
  rintro ⟨id, breakpoint⟩ -
  exact haction (.setBreakpoint id (some breakpoint))

theorem setEnabled_steps (enabled : Bool) (s : Session σ) :
    Steps host s (s.setEnabled enabled) := by
  have hlock : Steps host s { s with editor := s.editor.setEnabled enabled } :=
    .single (.edit s (Editor.setEnabled_evolves enabled s.editor))
  unfold setEnabled
  cases enabled with
  | false => exact hlock.tail (.settle _)
  | true =>
    obtain ⟨overlay, deferred, hlearn⟩ :=
      s.propagation.applyDeferred_propagation (s.editor.setEnabled true)
    rw [if_pos rfl]
    dsimp only
    rw [hlearn]
    -- Corrections that had to wait are made up for before the events are handed on.
    exact ((hlock.tail (.learn _ overlay deferred)).tail
      (.edit _ (s.propagation.applyDeferred_evolves _))).tail (.settle _)

theorem applyOutcome_keeps (outcome : Outcome) :
    Keeps (Steps host) (applyOutcome outcome : Attempt (Session σ) Applied) := by
  intro s
  unfold applyOutcome
  rw [Attempt.exec_of]
  obtain ⟨overlay, deferred, hlearn⟩ :=
    s.propagation.apply_propagation s.editor outcome s.revision
  have hedit := s.propagation.apply_evolves s.editor outcome s.revision
  rcases happly : s.propagation.apply s.editor outcome s.revision with ⟨result, p, editor⟩
  rw [happly] at hlearn hedit
  obtain rfl : p = _ := hlearn
  have hlearned : Steps host s _ := .single (.learn s overlay deferred)
  have hsteps := hlearned.tail (.edit _ hedit)
  rcases result with cause | applied
  · exact hsteps.tail (.settle _)
  · have hquiet : ∀ event ∈ applied.events, event.isOfGraph = false := fun event hmem =>
      Event.isOfGraph_of_stream (.inl (Propagation.stream_apply happly event hmem))
    exact (hsteps.tail (.notify _ hquiet)).tail (.settle _)

/-- The calls of a host but those that concern the inference service. -/
def Call.isInternal : Call σ → Bool
  | buildRequest | attach | connect | advance .. | next .. | pump | applyOutcome _ => false
  | _ => true

/-- **A call takes a session along by steps**, those of the traffic with the inference service only
where it concerns that. -/
theorem Call.steps (s : Session σ) (call : Call σ) :
    Steps (call.isInternal = false) s (call.exec s) := by
  cases call with
  | act action => exact run_keeps (action.keeps Editor.respects_evolves) s
  | bundle calls h => exact run_keeps (Editor.bundle_evolves (Editor.program_evolves h)) s
  | undo => exact replay_keeps Editor.undo_evolves s
  | redo => exact replay_keeps Editor.redo_evolves s
  | load content => exact run_keeps (load_evolves content _) s
  | setEnabled enabled => exact setEnabled_steps enabled s
  | handleGesture gesture => exact handleGesture_keeps gesture s
  | processGestures =>
    exact .trans (.single (.draw s _))
      (handleAll_keeps (fun gesture _ => handleGesture_keeps gesture) s.takeGestures.2)
  | useSurface use => exact .single (.draw s _)
  | redraw => exact .single (.draw s _)
  | highlight ids =>
    show Steps _ s (s.highlight ids)
    rcases highlight_cases ids s with heq | heq <;> rw [heq]
    exact .single (.notify s (by simp [Event.isOfGraph]))
  | unhighlight ids =>
    show Steps _ s (s.unhighlight ids)
    rcases unhighlight_cases ids s with heq | heq <;> rw [heq]
    exact .single (.notify s (by simp [Event.isOfGraph]))
  | buildRequest => exact .single (.exchange rfl s _ s.dispatcher)
  | attach => exact .single (.exchange rfl s _ _)
  | connect =>
    show Steps _ s s.connect.2
    rcases connect_cases s with heq | heq <;> rw [heq]
    exact .single (.exchange rfl s _ _)
  | advance service duration =>
    show Steps _ s (s.advance service duration).1
    rcases advance_cases service duration s with heq | ⟨d, -, heq⟩ <;> rw [heq]
    exact .single (.exchange rfl s s.propagation _)
  | next service patience =>
    show Steps _ s (s.next service patience).2.1
    rcases next_cases service patience s with
      heq | ⟨d, _ | outcome, left, -, -, -, heq⟩ <;> rw [heq]
    · exact .single (.exchange rfl s s.propagation _)
    · exact .trans (.single (.exchange rfl s s.propagation _)) (applyOutcome_keeps outcome _)
  | pump =>
    refine pumpUpTo_keeps (fun htaken => ?_) applyOutcome_keeps _ s
    obtain ⟨d, left, -, -, rfl⟩ := takeOutcome?_eq_some htaken
    exact .single (.exchange rfl _ _ _)
  | applyOutcome outcome => exact applyOutcome_keeps outcome s

/-- A run takes a session along by steps. -/
theorem after_steps (s : Session σ) (calls : List (Call σ)) : Steps True s (s.after calls) := by
  induction calls generalizing s with
  | nil => exact .refl
  | cons call rest ih =>
    exact .trans ((call.steps s).lift id fun _ _ => Step.mono fun _ => trivial) (ih _)

/-! ## Well-formed graphs -/

@[simp] theorem project_editor (events : List Event) (s : Session σ) :
    (s.project events).editor = s.editor := rfl

omit [Surface σ] in
@[simp] theorem schedule_editor (s : Session σ) : s.schedule.editor = s.editor := by
  unfold schedule
  split <;> rfl

/-- Handing events on takes them from the editor, and leaves the rest of it alone. -/
@[simp] theorem settle_editor (s : Session σ) : s.settle.editor = s.editor.takeEvents.2 := by
  unfold settle
  dsimp only
  split
  · rfl
  · split <;> split <;> simp [publish, revise, revalidate]

theorem settle_graph (s : Session σ) : s.settle.graph = s.graph := by
  unfold graph
  rw [settle_editor]
  rfl

theorem settle_catalogue (s : Session σ) : s.settle.catalogue = s.catalogue := by
  unfold catalogue
  rw [settle_editor]
  rfl

/-- Steps keep the editor sound, with the catalogue it has. -/
theorem Step.sound (hstep : Step host s s') (h : s.editor.Sound) :
    s'.editor.Sound ∧ s'.catalogue = s.catalogue := by
  cases hstep with
  | edit _ hedit => exact ⟨(hedit.2 h).1, hedit.1⟩
  | settle =>
    unfold catalogue
    rw [settle_editor]
    exact ⟨⟨h.graph, h.history, h.bundled⟩, rfl⟩
  | draw | notify | learn | exchange => exact ⟨h, rfl⟩

theorem Steps.sound (hsteps : Steps host s s') (h : s.editor.Sound) :
    s'.editor.Sound ∧ s'.catalogue = s.catalogue := by
  induction hsteps with
  | refl => exact ⟨h, rfl⟩
  | tail _ hstep ih =>
    obtain ⟨hsound, hcat⟩ := ih
    obtain ⟨hsound', hcat'⟩ := hstep.sound hsound
    exact ⟨hsound', hcat'.trans hcat⟩

/-- **After every run the graph is well-formed**: whatever calls were made, in whatever order, with
whatever success. -/
theorem graph_wellFormed_after (catalogue : Catalogue) (settings : Settings) (clock : Nat → Nat)
    (surface : σ) (calls : List (Call σ)) :
    ((start catalogue settings clock surface).after calls).graph.WellFormed catalogue := by
  have hstart : (start catalogue settings clock surface).editor.Sound := Editor.sound_start ..
  obtain ⟨hsound, hcat⟩ := (after_steps _ calls).sound hstart
  have hwf := hsound.graph
  unfold Session.catalogue at hcat
  rw [hcat] at hwf
  exact hwf

end Session

end PipelineEditor
