import PipelineEditor.Proofs.Stage
import PipelineEditor.Proofs.Timeline

/-!
# Turns of an editor

Outside a bundle an editor goes on by turns: it makes a call that edits, runs a bundle, replays its
history or forgets it, is locked or unlocked, or has its events taken.  A session does nothing else
to its editor, so what every turn keeps of an editor, every call of a host keeps.  What the bundles
may do is a parameter.

## Main definitions

* `Editor.Turn allowed e e'`: one turn, in which bundles make only the calls allowed
* `Session.Call.Bundles allowed`: the bundle of a call, if it is one, makes only those

## Main results

* `Editor.Turns.sound`, `Editor.Turns.idle`: editors stay sound, and no bundle stays in progress
* `Editor.Turns.limit`: the number of entries kept is fixed once and for all
* `Bridge.forward_cases`, `Session.exec_replay`: what a gesture and a replay come down to
* `Session.Call.turns`, `Session.after_turns`: what calls do to the editor are turns
-/

namespace PipelineEditor

open Attempt (Keeps)

/-- Programs may do what they are allowed where more is allowed. -/
theorem Program.mono {allowed allowed' : Control → Prop}
    (hmono : ∀ control, allowed control → allowed' control) {α : Type} {calls : Attempt Editor α}
    (h : Program allowed calls) : Program allowed' calls := by
  induction h with
  | pure value => exact .pure value
  | throw cause => exact .throw cause
  | read _ ih => exact .read ih
  | bind _ _ ih ihnext => exact .bind ih ihnext
  | handle _ _ ih ihhandler => exact .handle ih ihhandler
  | act action => exact .act action
  | bundle _ ih => exact .bundle ih
  | undo h => exact .undo (hmono _ h)
  | redo h => exact .redo (hmono _ h)
  | clearHistory h => exact .clearHistory (hmono _ h)
  | setEnabled h enabled => exact .setEnabled (hmono _ h) enabled

namespace Editor

/-! ## What recording leaves alone -/

/-- The editors agree in what is asked of them. -/
def Agree {β : Type} (ask : Editor → β) (e e' : Editor) : Prop := ask e' = ask e

instance {β : Type} (ask : Editor → β) : Std.Refl (Agree ask) := ⟨fun _ => rfl⟩

instance {β : Type} (ask : Editor → β) : IsTrans Editor (Agree ask) := ⟨fun _ _ _ h h' => h'.trans h⟩

/-- **What neither the draft nor the recording of commands decides, editing leaves alone.** -/
theorem respects_agree {β : Type} {ask : Editor → β}
    (hdraft : ∀ e draft, ask { e with draft } = ask e)
    (hbundled : ∀ e bundled, ask { e with bundled } = ask e)
    (hrecord : ∀ e command, ask { e with history := e.history.record command } = ask e) :
    Respects (Agree ask) where
  single := by
    rintro call ⟨choice, -, hexec⟩ e
    rw [hexec]
    -- A single call is refused, does nothing, or commits one change.
    rcases choice e.catalogue e.enabled e.graph with cause | _ | change
    · exact refl_of (Agree ask) e
    · exact refl_of (Agree ask) e
    · rw [carryOut, exec_commit]
      rcases change.apply.exec e.draft with ⟨_ | _, draft⟩
      · exact hdraft e draft
      · refine Eq.trans ?_ (hdraft e draft)
        show ask (note change { e with draft }) = ask { e with draft }
        unfold note
        split
        · exact hbundled { e with draft } _
        · exact hrecord { e with draft } _
  bundle := by
    intro α calls hcalls e
    cases hbundled' : e.bundled with
    | some changes =>
      rw [exec_bundle_some hbundled']
      exact hcalls e
    | none =>
      rw [exec_bundle_none hbundled']
      -- The bundle is opened, run and closed; then its changes are taken back or recorded.
      have hrun := (hcalls { e with bundled := some [] }).trans (hbundled e _)
      rcases hexec : calls.exec { e with bundled := some [] } with ⟨_ | _, e'⟩ <;> rw [hexec] at hrun
      · exact (hdraft { e' with bundled := none } _).trans ((hbundled e' none).trans hrun)
      · exact (hrecord { e' with bundled := none } _).trans ((hbundled e' none).trans hrun)

/-- How many entries history keeps. -/
def limit (e : Editor) : Nat := e.history.limit

theorem respects_limit : Respects (Agree limit) :=
  respects_agree (fun _ _ => rfl) (fun _ _ => rfl) fun e command => e.history.record_limit command

theorem respects_enabled : Respects (Agree enabled) :=
  respects_agree (fun _ _ => rfl) (fun _ _ => rfl) fun _ _ => rfl

theorem replay_limit {step : History → Draft → Except EditError Bool × History × Draft}
    (hstep : ∀ h d, (step h d).2.1.limit = h.limit) : Keeps (Agree limit) (replay step) :=
  .bind requireEnabled_keeps fun _ e => hstep e.history e.draft

theorem replay_enabled (step : History → Draft → Except EditError Bool × History × Draft) :
    Keeps (Agree enabled) (replay step) :=
  .bind requireEnabled_keeps fun _ _ => rfl

/-- Programs that neither lock nor unlock leave the lock alone. -/
theorem program_enabled {allowed : Control → Prop} (hlock : ¬ allowed .lock) {α : Type}
    {calls : Attempt Editor α} (h : Program allowed calls) : Keeps (Agree enabled) calls :=
  h.keeps respects_enabled (fun _ => replay_enabled _) (fun _ => replay_enabled _)
    (fun _ _ => rfl) fun hallowed => absurd hallowed hlock

/-- **Programs leave the number of entries kept alone.** -/
theorem program_limit {allowed : Control → Prop} {α : Type} {calls : Attempt Editor α}
    (h : Program allowed calls) : Keeps (Agree limit) calls := by
  refine h.keeps respects_limit (fun _ => replay_limit fun h d => ?_)
    (fun _ => replay_limit fun h d => ?_) (fun _ _ => rfl) fun _ enabled e => ?_
  · unfold History.undo
    split
    · rfl
    · split <;> rfl
  · unfold History.redo
    split
    · rfl
    · split <;> rfl
  · unfold Agree setEnabled
    split <;> rfl

/-! ## Turns -/

variable {allowed : Control → Prop} {e e' : Editor}

/-- **One turn of an editor** outside a bundle. -/
inductive Turn (allowed : Control → Prop) (e : Editor) : Editor → Prop
  | act (action : Action) : Turn allowed e (action.perform.exec e).2
  | bundle {α : Type} {calls : Attempt Editor α} (h : Program allowed calls) :
      Turn allowed e ((Editor.bundle calls).exec e).2
  | undo : Turn allowed e (Editor.undo.exec e).2
  | redo : Turn allowed e (Editor.redo.exec e).2
  | clearHistory : Turn allowed e e.clearHistory
  | setEnabled (enabled : Bool) : Turn allowed e (e.setEnabled enabled)
  | takeEvents : Turn allowed e e.takeEvents.2

/-- Any number of turns. -/
abbrev Turns (allowed : Control → Prop) : Editor → Editor → Prop :=
  Relation.ReflTransGen (Turn allowed)

/-- A turn is work on the editor, or takes its events. -/
theorem Turn.worked (h : Turn allowed e e') : e.Worked e' ∨ e' = e.takeEvents.2 := by
  have hall {α : Type} {calls : Attempt Editor α} (hcalls : Program (fun _ => True) calls) :
      e.Worked (calls.exec e).2 := .of_program hcalls e
  cases h with
  | act action => exact .inl (hall (.act action))
  | bundle h => exact .inl (hall (.bundle (h.mono fun _ _ => trivial)))
  | undo => exact .inl (hall (.undo trivial))
  | redo => exact .inl (hall (.redo trivial))
  | clearHistory => exact .inl (hall (.clearHistory trivial))
  | setEnabled enabled => exact .inl (hall (.setEnabled trivial enabled))
  | takeEvents => exact .inr rfl

theorem Turns.sound (h : Turns allowed e e') (hsound : e.Sound) : e'.Sound := by
  induction h with
  | refl => exact hsound
  | tail _ hturn ih =>
    rcases hturn.worked with hworked | rfl
    · exact (hworked.evolves.2 ih).1
    · exact ⟨ih.graph, ih.history, ih.bundled⟩

theorem Turns.idle (h : Turns allowed e e') (hidle : e.bundled = none) : e'.bundled = none := by
  induction h with
  | refl => exact hidle
  | tail _ hturn ih =>
    rcases hturn.worked with hworked | rfl
    · have hsame := hworked.sameBundling
      unfold SameBundling at hsame
      simpa [ih] using hsame
    · exact ih

theorem Turns.limit (h : Turns allowed e e') : Agree limit e e' := by
  induction h with
  | refl => rfl
  | tail _ hturn ih =>
    rcases hturn.worked with ⟨calls, hcalls, rfl⟩ | rfl
    · exact (program_limit hcalls _).trans ih
    · exact ih

end Editor

open Editor (Turn Turns)

variable {allowed : Control → Prop}

theorem Intent.performAll_turns (intents : List Intent) :
    Keeps (Turns allowed) (Intent.performAll intents) := by
  intro e
  unfold performAll
  split
  · exact .refl
  · rename_i intent
    obtain ⟨action, heq⟩ := intent.exists_action
    exact heq ▸ .single (.act action)
  · exact .single (.bundle (.forM program_perform))

/-- **What a gesture asks for is done, or it is refused**; then the shapes it was about go back to
what the graph says. -/
theorem Bridge.forward_cases (bridge : Bridge) (e : Editor) (gesture : Gesture) :
    (∃ e', (Intent.performAll (bridge.lift e.graph gesture).1).exec e = (.ok (), e') ∧
      bridge.forward e gesture =
        (.ok (bridge.lift e.graph gesture).1.length, (bridge.lift e.graph gesture).2, e')) ∨
    ∃ cause e', (Intent.performAll (bridge.lift e.graph gesture).1).exec e = (.error cause, e') ∧
      bridge.forward e gesture = (.error cause,
        ((bridge.lift e.graph gesture).1.filterMap Intent.link?).foldl (restoreShape e'.graph)
          (bridge.lift e.graph gesture).2, e') := by
  unfold forward
  dsimp only
  rcases (Intent.performAll (bridge.lift e.graph gesture).1).exec e with ⟨cause | ⟨⟩, e'⟩
  · exact .inr ⟨cause, e', rfl, rfl⟩
  · exact .inl ⟨e', rfl, rfl⟩

/-- What a gesture does to the editor, its requests do. -/
theorem Bridge.forward_editor (bridge : Bridge) (e : Editor) (gesture : Gesture) :
    (bridge.forward e gesture).2.2 =
      ((Intent.performAll (bridge.lift e.graph gesture).1).exec e).2 := by
  rcases bridge.forward_cases e gesture with ⟨e', hexec, heq⟩ | ⟨cause, e', hexec, heq⟩ <;>
    rw [heq, hexec]

theorem Bridge.forward_turns (bridge : Bridge) (e : Editor) (gesture : Gesture) :
    Turns allowed e (bridge.forward e gesture).2.2 := by
  rw [forward_editor]
  exact Intent.performAll_turns _ e

namespace Propagation

theorem replaceAll_turns (documents : List (OperatorId × Json)) :
    Keeps (Turns allowed) (replaceAll documents) := by
  refine .mapM ?_
  rintro ⟨id, document⟩ -
  exact .bind (fun e => .single (.bundle (.act (.setProperties id document)))) fun _ => .pure _

theorem correct_turns (p : Propagation) (e : Editor) (result : InputSchemas) :
    Turns allowed e (p.correct e result).2.2 := by
  unfold correct
  dsimp only
  split
  · exact .refl
  · split
    · exact .refl
    · exact replaceAll_turns _ e

theorem apply_turns (p : Propagation) (e : Editor) (outcome : Outcome) (revision : Nat) :
    Turns allowed e (p.apply e outcome revision).2.2 := by
  unfold apply
  split
  · exact .refl
  · split
    · exact .refl
    · exact correct_turns ..

theorem applyDeferred_turns (p : Propagation) (e : Editor) :
    Turns allowed e (p.applyDeferred e).2.2 := by
  unfold applyDeferred
  split
  · exact .refl
  · exact correct_turns ..

end Propagation

namespace Session

variable {σ α : Type} [Surface σ] {s : Session σ}

/-! ## The turns of a session's editor -/

/-- The editors of two sessions are turns apart. -/
def EditorTurns (allowed : Control → Prop) (s s' : Session σ) : Prop :=
  Turns allowed s.editor s'.editor

omit [Surface σ] in
instance : Std.Refl (EditorTurns allowed : Session σ → Session σ → Prop) := ⟨fun _ => .refl⟩

omit [Surface σ] in
instance : IsTrans (Session σ) (EditorTurns allowed) := ⟨fun _ _ _ h h' => h.trans h'⟩

omit [Surface σ] in
/-- The bundle of the call, if the call is one, makes only the calls that are allowed. -/
def Call.Bundles (allowed : Control → Prop) : Call σ → Prop
  | bundle calls _ => Program allowed calls
  | _ => True

theorem settle_turns {editor : Editor} (h : Turns allowed s.editor editor) :
    EditorTurns allowed s (settle { s with editor }) := by
  unfold EditorTurns
  rw [settle_editor]
  exact h.tail .takeEvents

theorem run_turns {call : Attempt Editor α} (hcall : Keeps (Turns allowed) call) :
    Keeps (EditorTurns allowed) (run call : Attempt (Session σ) α) := fun s =>
  settle_turns (hcall s.editor)

theorem handleGesture_turns (gesture : Gesture) :
    Keeps (EditorTurns allowed) (handleGesture gesture : Attempt (Session σ) Nat) := by
  intro s
  unfold EditorTurns handleGesture
  rw [Attempt.exec_of]
  dsimp only
  rw [settle_editor]
  exact (Bridge.forward_turns s.view.bridge s.editor gesture).tail .takeEvents

/-- **A replay is a call during which gestures are dropped**: what the surface reports meanwhile is
taken from it, and nothing comes of it. -/
theorem exec_replay (call : Attempt Editor Bool) (s : Session σ) :
    (replay call).exec s = ((call.exec s.editor).1,
      ((run call).exec (s.setReplaying true)).2.takeGestures.2.setReplaying false) := by
  have hreplaying : ((run call).exec (s.setReplaying true)).2.view.bridge.replaying = true :=
    settle_replaying _
  rw [← dropEchoes_eq hreplaying]
  rfl

/-- What a replay does to the editor, the call does. -/
theorem replay_editor (call : Attempt Editor Bool) (s : Session σ) :
    ((replay call).exec s).2.editor = (call.exec s.editor).2.takeEvents.2 := by
  rw [exec_replay]
  exact settle_editor _

theorem replay_turns {call : Attempt Editor Bool} (hcall : Keeps (Turns allowed) call) :
    Keeps (EditorTurns allowed) (replay call : Attempt (Session σ) Bool) := by
  intro s
  unfold EditorTurns
  rw [replay_editor]
  exact (hcall s.editor).tail .takeEvents

theorem applyOutcome_turns (outcome : Outcome) :
    Keeps (EditorTurns allowed) (applyOutcome outcome : Attempt (Session σ) Applied) := by
  intro s
  unfold applyOutcome
  rw [Attempt.exec_of]
  have hturns : Turns allowed s.editor _ := s.propagation.apply_turns s.editor outcome s.revision
  rcases happly : s.propagation.apply s.editor outcome s.revision with ⟨_ | applied, p, editor⟩ <;>
    rw [happly] at hturns
  · unfold EditorTurns
    dsimp only
    rw [settle_editor]
    exact hturns.tail .takeEvents
  · unfold EditorTurns
    dsimp only
    rw [settle_editor]
    exact hturns.tail .takeEvents

theorem setEnabled_turns (enabled : Bool) (s : Session σ) :
    EditorTurns allowed s (s.setEnabled enabled) := by
  have hlock : Turns allowed s.editor (s.editor.setEnabled enabled) := .single (.setEnabled enabled)
  unfold EditorTurns setEnabled
  cases enabled with
  | false =>
    rw [if_neg Bool.false_ne_true, settle_editor]
    exact hlock.tail .takeEvents
  | true =>
    rw [if_pos rfl]
    dsimp only
    rw [settle_editor]
    exact (hlock.trans (s.propagation.applyDeferred_turns _)).tail .takeEvents

/-- **What a call does to the editor are turns.** -/
theorem Call.turns (s : Session σ) {call : Call σ} (h : call.Bundles allowed) :
    Turns allowed s.editor (call.exec s).editor := by
  show EditorTurns allowed s (call.exec s)
  cases call with
  | act action => exact run_turns (fun e => .single (.act action)) s
  | bundle calls _ => exact run_turns (fun e => .single (.bundle h)) s
  | undo => exact replay_turns (fun e => .single .undo) s
  | redo => exact replay_turns (fun e => .single .redo) s
  | load content =>
    -- A load is two turns: a bundle that replaces the pipeline, and history forgotten.
    obtain ⟨calls, hcalls, heq⟩ := exists_replaceBy allowed content _
    refine run_turns (.bind (fun e => ?_) fun _ e => .single .clearHistory) s
    rw [heq]
    exact .single (.bundle hcalls)
  | setEnabled enabled => exact setEnabled_turns enabled s
  | handleGesture gesture => exact handleGesture_turns gesture s
  | processGestures =>
    exact handleAll_keeps (fun gesture _ => handleGesture_turns gesture) s.takeGestures.2
  | useSurface | redraw | buildRequest => exact refl_of (EditorTurns allowed) s
  | highlight ids =>
    show EditorTurns allowed s (s.highlight ids)
    rcases highlight_cases ids s with heq | heq <;> rw [heq] <;>
      exact refl_of (EditorTurns allowed) s
  | unhighlight ids =>
    show EditorTurns allowed s (s.unhighlight ids)
    rcases unhighlight_cases ids s with heq | heq <;> rw [heq] <;>
      exact refl_of (EditorTurns allowed) s
  | attach =>
    show Turns allowed s.editor (schedule _).editor
    rw [schedule_editor]
  | connect =>
    show EditorTurns allowed s s.connect.2
    rcases connect_cases s with heq | heq <;> rw [heq]
    · exact refl_of (EditorTurns allowed) s
    · show Turns allowed s.editor (schedule _).editor
      rw [schedule_editor]
  | advance service duration =>
    show EditorTurns allowed s (s.advance service duration).1
    rcases advance_cases service duration s with heq | ⟨d, -, heq⟩ <;> rw [heq] <;>
      exact refl_of (EditorTurns allowed) s
  | next service patience =>
    show EditorTurns allowed s (s.next service patience).2.1
    rcases next_cases service patience s with
      heq | ⟨d, _ | outcome, left, -, -, -, heq⟩ <;> rw [heq]
    · exact refl_of (EditorTurns allowed) s
    · exact refl_of (EditorTurns allowed) s
    · exact applyOutcome_turns outcome { s with dispatcher := some left }
  | pump =>
    -- By induction on the answers: taking one from the queue does not touch the editor.
    refine pumpUpTo_keeps (fun htaken => ?_) applyOutcome_turns _ s
    obtain ⟨d, left, -, -, rfl⟩ := takeOutcome?_eq_some htaken
    exact refl_of (EditorTurns allowed) _
  | applyOutcome outcome => exact applyOutcome_turns outcome s

/-- **What a run does to the editor are turns.** -/
theorem after_turns (s : Session σ) {calls : List (Call σ)}
    (h : ∀ call ∈ calls, call.Bundles allowed) :
    Turns allowed s.editor (s.after calls).editor := by
  induction calls generalizing s with
  | nil => exact .refl
  | cons call rest ih =>
    exact (Call.turns s (h call List.mem_cons_self)).trans
      (ih _ fun other hmem => h other (List.mem_cons_of_mem _ hmem))

omit [Surface σ] in
/-- Bundles of any kind make all the calls that there are. -/
theorem Call.bundles (call : Call σ) : call.Bundles fun _ => True := by
  cases call with
  | bundle calls h => exact h
  | _ => trivial

end Session

end PipelineEditor
