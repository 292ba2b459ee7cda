import PipelineEditor.Proofs.Settled

/-!
# Calls by stages

Between two moments at which all events have been handed on, a session goes through one stage.
There are few kinds of them: the editor is worked on and its events are handed on, a gesture is
followed, the view is drawn anew, and so on.  Each call of a host is a sequence of stages, so what
is to hold of a session after every call needs to be shown for stages only.

## Main definitions

* `Editor.Worked e e'`: a program of editor calls leads from one editor to the other
* `Session.Stage gestures uses`: one stage, in which only such gestures are followed and the host
  uses the surface only in such ways
* `Session.Call.Hands`, `Session.Call.Uses`: the gestures and the uses that a call brings in
* `Session.Ever`: what happens at some call of a run

## Main results

* `Session.Call.stages`: each call is a sequence of stages
* `Session.Stage.worked`: what a stage makes of the editor
* `Session.atRest_after`: between calls the session is at rest, after every run
-/

namespace PipelineEditor

open Attempt (Keeps)

/-! ## Programs of several parts -/

namespace Program

variable {allowed : Control → Prop} {α β : Type} {items : List α}

theorem forM {step : α → Attempt Editor PUnit} (h : ∀ item, Program allowed (step item)) :
    Program allowed (items.forM step) := by
  induction items with
  | nil => exact .pure _
  | cons item rest ih => exact .bind (h item) fun _ => ih

theorem mapM {step : α → Attempt Editor β} (h : ∀ item, Program allowed (step item)) :
    Program allowed (items.mapM step) := by
  induction items with
  | nil => exact .pure _
  | cons item rest ih =>
    rw [List.mapM_cons]
    exact .bind (h item) fun _ => .bind ih fun _ => .pure _

end Program

namespace Editor

/-! ## Bundles in progress -/

/-- A bundle is in progress in both editors, or in neither. -/
def SameBundling (e e' : Editor) : Prop := e'.bundled.isSome = e.bundled.isSome

instance : Std.Refl SameBundling := ⟨fun _ => rfl⟩

instance : IsTrans Editor SameBundling := ⟨fun _ _ _ h h' => h'.trans h⟩

theorem note_bundled (change : Change) (e : Editor) : SameBundling e (note change e) := by
  unfold SameBundling note
  cases e.bundled <;> rfl

theorem respects_sameBundling : Respects SameBundling where
  single := by
    rintro call ⟨choice, -, hexec⟩ e
    rw [hexec]
    rcases choice e.catalogue e.enabled e.graph with cause | _ | change
    · exact refl_of SameBundling e
    · exact refl_of SameBundling e
    · rw [carryOut, exec_commit]
      rcases change.apply.exec e.draft with ⟨_ | _, draft⟩
      · rfl
      · exact note_bundled ..
  bundle := by
    intro α calls hcalls e
    cases hbundled : e.bundled with
    | some changes =>
      rw [exec_bundle_some hbundled]
      exact hcalls e
    | none =>
      unfold SameBundling
      rw [exec_bundle_none hbundled, hbundled]
      rcases calls.exec { e with bundled := some [] } with ⟨_ | _, e'⟩ <;> rfl

theorem replay_sameBundling (step : History → Draft → Except EditError Bool × History × Draft) :
    Keeps SameBundling (replay step) :=
  .bind requireEnabled_keeps fun _ _ => rfl

/-! ## Editors that were worked on -/

/-- **A program of calls leads from one editor to the other.** -/
def Worked (e e' : Editor) : Prop :=
  ∃ calls : Attempt Editor Unit, Program (fun _ => True) calls ∧ e' = (calls.exec e).2

namespace Worked

variable {e e' e'' : Editor}

theorem of_program {α : Type} {calls : Attempt Editor α} (h : Program (fun _ => True) calls)
    (e : Editor) : e.Worked (calls.exec e).2 := by
  refine ⟨calls >>= fun _ => pure (), .bind h fun _ => .pure (), ?_⟩
  rw [Attempt.exec_bind]
  rcases calls.exec e with ⟨_ | _, e'⟩ <;> rfl

theorem refl (e : Editor) : e.Worked e := of_program (.pure ()) e

theorem trans (h : e.Worked e') (h' : e'.Worked e'') : e.Worked e'' := by
  obtain ⟨first, hfirst, rfl⟩ := h
  obtain ⟨second, hsecond, rfl⟩ := h'
  -- The second program is to run whether the first fails or not.
  refine ⟨tryCatch first (fun _ => pure ()) >>= fun _ => second,
    .bind (.handle hfirst fun _ => .pure ()) fun _ => hsecond, ?_⟩
  rw [Attempt.exec_bind, Attempt.exec_tryCatch]
  rcases first.exec e with ⟨_ | _, e'⟩ <;> rfl

theorem evolves (h : e.Worked e') : Evolves e e' := by
  obtain ⟨calls, hcalls, rfl⟩ := h
  exact program_evolves hcalls e

theorem sameBundling (h : e.Worked e') : SameBundling e e' := by
  obtain ⟨calls, hcalls, rfl⟩ := h
  refine hcalls.keeps respects_sameBundling (fun _ => replay_sameBundling _)
    (fun _ => replay_sameBundling _) (fun _ _ => rfl) (fun _ enabled e => ?_) e
  unfold SameBundling setEnabled
  split <;> rfl

end Worked

end Editor

open Editor (Worked)

namespace Propagation

/-- Corrections are a program of calls, or there are none. -/
theorem correct_worked (p : Propagation) (e : Editor) (result : InputSchemas) :
    e.Worked (p.correct e result).2.2 := by
  unfold correct
  dsimp only
  split
  · exact .refl e
  · split
    · exact .refl e
    · refine .of_program (.mapM ?_) e
      rintro ⟨id, document⟩
      exact .bind (.bundle (.act (.setProperties id document))) fun _ => .pure _

theorem apply_worked (p : Propagation) (e : Editor) (outcome : Outcome) (revision : Nat) :
    e.Worked (p.apply e outcome revision).2.2 := by
  unfold apply
  split
  · exact .refl e
  · split
    · exact .refl e
    · exact correct_worked ..

theorem applyDeferred_worked (p : Propagation) (e : Editor) :
    e.Worked (p.applyDeferred e).2.2 := by
  unfold applyDeferred
  split
  · exact .refl e
  · exact correct_worked ..

end Propagation

/-- What is asked for is an action. -/
theorem Intent.exists_action (intent : Intent) : ∃ action : Action, intent.perform = action.perform := by
  cases intent with
  | addLink link => exact ⟨.addLink link, rfl⟩
  | deleteLink id => exact ⟨.deleteLink id, rfl⟩
  | deleteOperator id => exact ⟨.deleteOperator id, rfl⟩
  | moveOperator id position => exact ⟨.moveOperator id position, rfl⟩

theorem Intent.program_perform {allowed : Control → Prop} (intent : Intent) :
    Program allowed intent.perform := by
  obtain ⟨action, heq⟩ := intent.exists_action
  exact heq ▸ .act action

theorem Intent.program_performAll {allowed : Control → Prop} (intents : List Intent) :
    Program allowed (performAll intents) := by
  unfold performAll
  split
  · exact .pure ()
  · exact program_perform _
  · exact .bundle (.forM program_perform)

/-- Following a gesture is doing what it asks for. -/
theorem Bridge.forward_worked (bridge : Bridge) (e : Editor) (gesture : Gesture) :
    e.Worked (bridge.forward e gesture).2.2 := by
  unfold forward
  dsimp only
  have h := Worked.of_program (Intent.program_performAll (bridge.lift e.graph gesture).1) e
  rcases hexec : (Intent.performAll (bridge.lift e.graph gesture).1).exec e with ⟨_ | _, e'⟩ <;>
    rw [hexec] at h
  · exact h
  · exact h

namespace Session

variable {σ α : Type}

/-- The calls that replace the pipeline, before they are bundled. -/
theorem exists_replaceBy (allowed : Control → Prop) (content : Content)
    (order : List (LinkId × Breakpoint)) : ∃ calls : Attempt Editor Unit, Program allowed calls ∧
      replaceBy content order = Editor.bundle calls := by
  refine ⟨_, .read fun e => .bind (.act (.deleteAll _ [])) fun _ =>
    .bind (.act (.addAll _ _)) fun _ => .forM ?_, rfl⟩
  rintro ⟨id, breakpoint⟩
  exact .act (.setBreakpoint id (some breakpoint))

theorem program_replaceBy {allowed : Control → Prop} (content : Content)
    (order : List (LinkId × Breakpoint)) : Program allowed (replaceBy content order) := by
  obtain ⟨calls, hcalls, heq⟩ := exists_replaceBy allowed content order
  exact heq ▸ .bundle hcalls

variable [Surface σ]

/-! ## Stages -/

/-- **One stage of a session**: from a moment at which all events have been handed on to the
next. -/
inductive Stage (gestures : Gesture → Prop) (uses : (σ → σ) → Prop) (s : Session σ) :
    Session σ → Prop
  | edit {editor : Editor} (h : s.editor.Worked editor) :
      Stage gestures uses s (settle { s with editor })
  | gesture {gesture : Gesture} (h : gestures gesture) :
      Stage gestures uses s ((handleGesture gesture).exec s).2
  /-- What an answer says of schemas is shown and published. -/
  | tell {events : List Event} (h : ∀ event ∈ events, event.stream = .propagation) :
      Stage gestures uses s (s.dispatch events)
  | exchange (propagation : Propagation) (dispatcher : Option Dispatcher) :
      Stage gestures uses s { s with propagation, dispatcher }
  | highlight (ids : List OperatorId) : Stage gestures uses s (s.highlight ids)
  | unhighlight (ids : List OperatorId) : Stage gestures uses s (s.unhighlight ids)
  | redraw : Stage gestures uses s s.redraw
  | use {use : σ → σ} (h : uses use) : Stage gestures uses s { s with view := s.view.draw use }
  | takeGestures : Stage gestures uses s s.takeGestures.2
  | setReplaying (replaying : Bool) : Stage gestures uses s (s.setReplaying replaying)

/-- Any number of stages. -/
abbrev Stages (gestures : Gesture → Prop) (uses : (σ → σ) → Prop) : Session σ → Session σ → Prop :=
  Relation.ReflTransGen (Stage gestures uses)

/-- The call has the session follow the gesture. -/
def Call.Hands (s : Session σ) (gesture : Gesture) : Call σ → Prop
  | handleGesture handled => gesture = handled
  | processGestures => gesture ∈ s.takeGestures.1
  | _ => False

omit [Surface σ] in
/-- The call is the use of the surface. -/
def Call.Uses (use : σ → σ) : Call σ → Prop
  | useSurface used => use = used
  | _ => False

variable {gestures : Gesture → Prop} {uses : (σ → σ) → Prop} {s s' : Session σ}

theorem run_stages {call : Attempt Editor α} (h : Program (fun _ => True) call) :
    Keeps (Stages gestures uses) (run call : Attempt (Session σ) α) := fun s =>
  .single (.edit (.of_program h s.editor))

/-- A replay drops what the surface reports, so nothing but the history acts on the editor. -/
theorem replay_stages {call : Attempt Editor Bool} (h : Program (fun _ => True) call) :
    Keeps (Stages gestures uses) (replay call : Attempt (Session σ) Bool) := by
  intro s
  have hrun : Stages gestures uses s ((run call).exec (s.setReplaying true)).2 :=
    .head (.setReplaying true) (run_stages h _)
  have hreplaying : ((run call).exec (s.setReplaying true)).2.view.bridge.replaying = true :=
    settle_replaying _
  -- Replaying is still on when the reports are taken, so none of them is followed.
  have hdropped := hrun.tail .takeGestures
  rw [← dropEchoes_eq hreplaying] at hdropped
  exact hdropped.tail (.setReplaying false)

theorem applyOutcome_stages (outcome : Outcome) :
    Keeps (Stages gestures uses) (applyOutcome outcome : Attempt (Session σ) Applied) := by
  intro s
  unfold applyOutcome
  rw [Attempt.exec_of]
  have hworked := s.propagation.apply_worked s.editor outcome s.revision
  rcases happly : s.propagation.apply s.editor outcome s.revision with ⟨result, p, editor⟩
  rw [happly] at hworked
  have hlearned : Stages gestures uses s _ := .single (.exchange p s.dispatcher)
  rcases result with cause | applied
  · exact hlearned.tail (.edit hworked)
  · -- What is told of schemas does not touch the editor, so the order makes no difference.
    exact (hlearned.tail (.tell (Propagation.stream_apply happly))).tail (.edit hworked)

theorem setEnabled_stages (enabled : Bool) (s : Session σ) :
    Stages gestures uses s (s.setEnabled enabled) := by
  have hlock : s.editor.Worked (s.editor.setEnabled enabled) :=
    .of_program (.setEnabled trivial enabled) s.editor
  unfold setEnabled
  cases enabled with
  | false => exact .single (.edit hlock)
  | true =>
    -- The corrections that waited for the lock are made before events are handed on.
    have hdeferred := s.propagation.applyDeferred_worked (s.editor.setEnabled true)
    exact .tail (.single (.exchange _ s.dispatcher)) (.edit (hlock.trans hdeferred))

/-- **A call is a sequence of stages**, in which no gesture is followed but those that the call
hands on. -/
theorem Call.stages (s : Session σ) (call : Call σ)
    (hgestures : ∀ gesture, call.Hands s gesture → gestures gesture)
    (huses : ∀ use, call.Uses use → uses use) : Stages gestures uses s (call.exec s) := by
  -- Most calls are one stage; answers are taken from the dispatcher first, which is a stage of its
  -- own.
  cases call with
  | act action => exact run_stages (.act action) s
  | bundle calls h => exact run_stages (.bundle h) s
  | undo => exact replay_stages (.undo trivial) s
  | redo => exact replay_stages (.redo trivial) s
  | load content =>
    exact run_stages (.bind (program_replaceBy content _) fun _ => .clearHistory trivial) s
  | setEnabled enabled => exact setEnabled_stages enabled s
  | handleGesture gesture => exact .single (.gesture (hgestures gesture rfl))
  | processGestures =>
    refine .trans (.single .takeGestures) (handleAll_keeps (fun gesture hmem s => ?_) _)
    exact .single (.gesture (hgestures gesture hmem))
  | useSurface use => exact .single (.use (huses use rfl))
  | redraw => exact .single .redraw
  | highlight ids => exact .single (.highlight ids)
  | unhighlight ids => exact .single (.unhighlight ids)
  | buildRequest => exact .single (.exchange _ s.dispatcher)
  | attach => exact .single (.exchange _ _)
  | connect =>
    show Stages gestures uses s s.connect.2
    rcases connect_cases s with heq | heq <;> rw [heq]
    exact .single (.exchange _ _)
  | advance service duration =>
    show Stages gestures uses s (s.advance service duration).1
    rcases advance_cases service duration s with heq | ⟨d, -, heq⟩ <;> rw [heq]
    exact .single (.exchange s.propagation _)
  | next service patience =>
    show Stages gestures uses s (s.next service patience).2.1
    rcases next_cases service patience s with
      heq | ⟨d, _ | outcome, left, -, -, -, heq⟩ <;> rw [heq]
    · exact .single (.exchange s.propagation _)
    · exact .trans (.single (.exchange s.propagation _)) (applyOutcome_stages outcome _)
  | pump =>
    refine pumpUpTo_keeps (fun htaken => ?_) applyOutcome_stages _ s
    obtain ⟨d, left, -, -, rfl⟩ := takeOutcome?_eq_some htaken
    exact .single (.exchange _ _)
  | applyOutcome outcome => exact applyOutcome_stages outcome s

/-! ## Runs by stages -/

/-- **At some call of the run the property holds**, of the call and the session it is made on. -/
def Ever (P : Session σ → Call σ → Prop) (s : Session σ) : List (Call σ) → Prop
  | [] => False
  | call :: rest => P s call ∨ Ever P (call.exec s) rest

/-- A run is a sequence of stages, in which no gesture is followed but those that some call hands
on, and the surface is used only as some call uses it. -/
theorem after_stages_of {calls : List (Call σ)}
    (hgestures : ∀ gesture, s.Ever (fun s call => call.Hands s gesture) calls → gestures gesture)
    (huses : ∀ call ∈ calls, ∀ use, call.Uses use → uses use) :
    Stages gestures uses s (s.after calls) := by
  induction calls generalizing s with
  | nil => exact .refl
  | cons call rest ih =>
    refine .trans (call.stages s (fun gesture hhands => hgestures gesture (.inl hhands))
      (huses call List.mem_cons_self)) (ih (fun gesture hever => ?_) fun other hmem => ?_)
    · exact hgestures gesture (.inr hever)
    · exact huses other (List.mem_cons_of_mem _ hmem)

/-- What every stage keeps, every run keeps, whatever gestures are followed and however the surface
is used. -/
theorem after_stages (s : Session σ) (calls : List (Call σ)) :
    Stages (fun _ => True) (fun _ => True) s (s.after calls) :=
  after_stages_of (fun _ _ => trivial) fun _ _ _ _ => trivial

/-! ## What stages leave -/

/-- The editor after a stage was worked on, up to events that have been handed on. -/
theorem Stage.worked (hstage : Stage gestures uses s s') :
    ∃ editor, s.editor.Worked editor ∧ (s'.editor = editor ∨ s'.editor = editor.takeEvents.2) := by
  cases hstage with
  | edit h => exact ⟨_, h, .inr (settle_editor _)⟩
  | gesture => exact ⟨_, Bridge.forward_worked .., .inr (settle_editor _)⟩
  | highlight ids =>
    rcases highlight_cases ids s with heq | heq <;> rw [heq]
    · exact ⟨_, .refl _, .inl rfl⟩
    · exact ⟨_, .refl _, .inl rfl⟩
  | unhighlight ids =>
    rcases unhighlight_cases ids s with heq | heq <;> rw [heq]
    · exact ⟨_, .refl _, .inl rfl⟩
    · exact ⟨_, .refl _, .inl rfl⟩
  | tell | exchange | redraw | use | takeGestures | setReplaying => exact ⟨_, .refl _, .inl rfl⟩

/-- Each stage hands on the events that it announced. -/
theorem Stage.settled (hstage : Stage gestures uses s s') : StaysSettled s s' := by
  cases hstage with
  | edit | gesture => exact fun _ => settled_settle _
  | highlight ids =>
    rcases highlight_cases ids s with heq | heq <;> rw [heq]
    · exact id
    · exact id
  | unhighlight ids =>
    rcases unhighlight_cases ids s with heq | heq <;> rw [heq]
    · exact id
    · exact id
  | tell | exchange | redraw | use | takeGestures | setReplaying => exact id

theorem Stages.settled (hstages : Stages gestures uses s s') : StaysSettled s s' := by
  induction hstages with
  | refl => exact id
  | tail _ hstage ih => exact fun hsettled => hstage.settled (ih hsettled)

/-- **Each call hands on all of its events.** -/
theorem Call.settled (call : Call σ) : StaysSettled s (call.exec s) :=
  (call.stages s (fun _ _ => trivial) fun _ _ => trivial :
    Stages (fun _ => True) (fun _ => True) s _).settled

/-- **After every run the session is settled.** -/
theorem settled_after (h : s.Settled) (calls : List (Call σ)) : (s.after calls).Settled :=
  (after_stages s calls).settled h

/-! ## What a session is between calls -/

/-- **What a session is between calls**: the editor is sound, no bundle is in progress, and all
events have been handed on. -/
structure AtRest (catalogue : Catalogue) (s : Session σ) : Prop where
  sound : s.editor.Sound
  idle : s.editor.bundled = none
  settled : s.Settled
  catalogue : s.catalogue = catalogue

variable {catalogue : Catalogue}

omit [Surface σ] in
theorem AtRest.wellFormed (h : s.AtRest catalogue) : s.graph.WellFormed catalogue :=
  h.catalogue ▸ h.sound.graph

omit [Surface σ] in
/-- Work on a session at rest goes on from the graph by steps, with nothing announced before. -/
theorem AtRest.steps (h : s.AtRest catalogue) {editor : Editor} (hworked : s.editor.Worked editor) :
    Draft.Steps catalogue (.start s.graph) editor.draft := by
  obtain ⟨-, hevolves⟩ := hworked.evolves
  obtain ⟨-, hsteps⟩ := hevolves h.sound
  have hcatalogue : s.editor.catalogue = catalogue := h.catalogue
  rwa [h.settled.draft_eq, hcatalogue] at hsteps

theorem Stage.atRest (h : s.AtRest catalogue) (hstage : Stage gestures uses s s') :
    s'.AtRest catalogue := by
  obtain ⟨editor, hworked, heditor⟩ := hstage.worked
  obtain ⟨hcat, hevolves⟩ := hworked.evolves
  obtain ⟨hsound, -⟩ := hevolves h.sound
  have hidle : editor.bundled = none := by
    have hsame := hworked.sameBundling
    unfold Editor.SameBundling at hsame
    rwa [h.idle, Option.isSome_none, Option.isSome_eq_false_iff, Option.isNone_iff_eq_none]
      at hsame
  refine ⟨?_, ?_, hstage.settled h.settled, ?_⟩
  · rcases heditor with heq | heq <;> rw [heq]
    · exact hsound
    · exact ⟨hsound.graph, hsound.history, hsound.bundled⟩
  · rcases heditor with heq | heq <;> rw [heq]
    · exact hidle
    · exact hidle
  · refine Eq.trans ?_ (hcat.trans h.catalogue)
    unfold Session.catalogue
    rcases heditor with heq | heq <;> rw [heq]
    rfl

theorem Stages.atRest (h : s.AtRest catalogue) (hstages : Stages gestures uses s s') :
    s'.AtRest catalogue := by
  induction hstages with
  | refl => exact h
  | tail _ hstage ih => exact hstage.atRest ih

/-- **What each stage keeps of a session at rest, any number of stages keeps.** -/
theorem Stages.invariant {P : Session σ → Prop}
    (hstep : ∀ {s s' : Session σ}, s.AtRest catalogue → P s → Stage gestures uses s s' → P s')
    (hrest : s.AtRest catalogue) (h : P s) (hstages : Stages gestures uses s s') : P s' := by
  induction hstages with
  | refl => exact h
  | tail hbefore hstage ih => exact hstep (Stages.atRest hrest hbefore) ih hstage

omit [Surface σ] in
theorem atRest_start (catalogue : Catalogue) (settings : Settings) (clock : Nat → Nat)
    (surface : σ) : (start catalogue settings clock surface).AtRest catalogue where
  sound := Editor.sound_start ..
  idle := rfl
  settled := rfl
  catalogue := rfl

/-- **Between calls the session is at rest**, after every run. -/
theorem atRest_after (catalogue : Catalogue) (settings : Settings) (clock : Nat → Nat)
    (surface : σ) (calls : List (Call σ)) :
    ((start catalogue settings clock surface).after calls).AtRest catalogue :=
  (after_stages _ calls).atRest (atRest_start ..)

end Session

end PipelineEditor
