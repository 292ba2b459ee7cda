import PipelineEditor.Proofs.Bundling

/-!
# Refused calls

A call that is refused leaves pipeline and history as they were, wherever in it the refusal comes
from.  Undo and redo are refused while the pipeline is locked, and then nothing happens either; or a
command cannot be replayed, and then it is dropped from its stack.  The latter takes a bundle in
which history was replayed: where no bundle replays anything, all that history holds can be
replayed.

## Main definitions

* `Editor.NotesOrForgets`: in a bundle, calls note what they do, and may forget history
* `Session.Untouched s s'`: pipeline and history are what they were

## Main results

* `Action.exec_refused`, `Intent.performAll_refused`: actions and requests that are refused
* `Timeline.Holds.turns`: where bundles replay nothing, the editor stays on a timeline
* `Session.refused_after`: what a refusal leaves after any run
-/

namespace PipelineEditor

open Attempt (Keeps)
open Editor (MayReplay Turn Turns)

/-! ## Calls to the editor -/

section

variable {e e' : Editor} {cause : EditError}

/-- **An action that is refused leaves graph and history as they were.** -/
theorem Action.exec_refused {action : Action} (hidle : e.bundled = none)
    (hwf : e.graph.WellFormed e.catalogue) (hexec : action.perform.exec e = (.error cause, e')) :
    e'.graph = e.graph ∧ e'.history = e.history := by
  rw [← action.exec_bundle hidle] at hexec
  exact Editor.exec_bundle_refused (action.keeps Editor.respects_notes) hidle hwf hexec

/-- **So do requests that are refused.** -/
theorem Intent.performAll_refused {intents : List Intent} (hidle : e.bundled = none)
    (hwf : e.graph.WellFormed e.catalogue)
    (hexec : (performAll intents).exec e = (.error cause, e')) :
    e'.graph = e.graph ∧ e'.history = e.history := by
  unfold performAll at hexec
  split at hexec
  · cases hexec
  · rename_i intent
    obtain ⟨action, heq⟩ := intent.exists_action
    rw [heq] at hexec
    exact action.exec_refused hidle hwf hexec
  · refine Editor.exec_bundle_refused (.forM fun intent _ => ?_) hidle hwf hexec
    obtain ⟨action, heq⟩ := intent.exists_action
    exact heq ▸ action.keeps Editor.respects_notes

namespace Editor

/-- **An undo that is refused**: the pipeline is locked, and nothing happens, or the latest command
cannot be reversed, and is dropped. -/
theorem undo_refused (hexec : undo.exec e = (.error cause, e')) :
    e.enabled = false ∧ e' = e ∨ e.enabled = true ∧ e.history.undoable ≠ [] ∧
      e'.history = { e.history with undoable := e.history.undoable.tail } := by
  cases henabled : e.enabled with
  | false =>
    rw [undo, Timeline.exec_replay_locked henabled] at hexec
    cases hexec
    exact .inl ⟨rfl, rfl⟩
  | true =>
    rw [undo, Timeline.exec_replay henabled] at hexec
    unfold History.undo at hexec
    split at hexec
    · cases hexec
    · rename_i last rest hundoable
      rw [hundoable]
      split at hexec <;> cases hexec
      exact .inr ⟨rfl, List.cons_ne_nil _ _, rfl⟩

/-- **A redo that is refused**: the pipeline is locked, and nothing happens, or the command cannot
be carried out again, and is dropped. -/
theorem redo_refused (hexec : redo.exec e = (.error cause, e')) :
    e.enabled = false ∧ e' = e ∨ e.enabled = true ∧ e.history.redoable ≠ [] ∧
      e'.history = { e.history with redoable := e.history.redoable.tail } := by
  cases henabled : e.enabled with
  | false =>
    rw [redo, Timeline.exec_replay_locked henabled] at hexec
    cases hexec
    exact .inl ⟨rfl, rfl⟩
  | true =>
    rw [redo, Timeline.exec_replay henabled] at hexec
    unfold History.redo at hexec
    split at hexec
    · cases hexec
    · rename_i command rest hredoable
      rw [hredoable]
      split at hexec <;> cases hexec
      exact .inr ⟨rfl, List.cons_ne_nil _ _, rfl⟩

/-! ## Bundles that replay nothing -/

/-- **In a bundle, calls note what they do, and may forget history.** -/
def NotesOrForgets (e e' : Editor) : Prop :=
  e.bundled.isSome = true → e'.bundled.isSome = true ∧
    (e'.history = e.history ∨ e'.history = e.history.clear) ∧
      Notes e { e' with history := e.history }

theorem Notes.withHistory {e e' : Editor} (h : Notes e e') (history : History) :
    Notes { e with history } { e' with history } := by
  intro changes hbundled hwf
  obtain ⟨hcat, -, hwf', hmore⟩ := h changes hbundled hwf
  exact ⟨hcat, rfl, hwf', hmore⟩

instance : Std.Refl NotesOrForgets where
  refl e hbundled := ⟨hbundled, .inl rfl, refl_of Notes e⟩

instance : IsTrans Editor NotesOrForgets where
  trans := by
    intro e e' e'' h h' hbundled
    obtain ⟨hbundled', hhist, hnotes⟩ := h hbundled
    obtain ⟨hbundled'', hhist', hnotes'⟩ := h' hbundled'
    refine ⟨hbundled'', ?_, trans_of Notes hnotes (hnotes'.withHistory e.history)⟩
    rcases hhist with hhist | hhist <;> rcases hhist' with hhist' | hhist'
    · exact .inl (hhist'.trans hhist)
    · exact .inr (hhist'.trans (congrArg History.clear hhist))
    · exact .inr (hhist'.trans hhist)
    · right
      rw [hhist', hhist]
      rfl

theorem respects_notesOrForgets : Respects NotesOrForgets where
  single := by
    intro call hcall e hbundled
    have hhist := hcall.history_eq hbundled
    refine ⟨(respects_sameBundling.single hcall e).trans hbundled, .inl hhist, ?_⟩
    rw [← hhist]
    exact hcall.notes e
  bundle := by
    intro α calls hcalls e hbundled
    obtain ⟨changes, hchanges⟩ := Option.isSome_iff_exists.mp hbundled
    rw [exec_bundle_some hchanges]
    exact hcalls e hbundled

theorem program_notesOrForgets {α : Type} {calls : Attempt Editor α}
    (h : Program (fun control => ¬ MayReplay control) calls) : Keeps NotesOrForgets calls := by
  refine h.keeps respects_notesOrForgets (fun hundo => absurd (.inl rfl) hundo)
    (fun hredo => absurd (.inr rfl) hredo) (fun _ e hbundled => ?_) fun _ enabled e hbundled => ?_
  · exact ⟨hbundled, .inr rfl, refl_of Notes e⟩
  · have hnotes := setEnabled_notes enabled e
    unfold setEnabled at hnotes ⊢
    split
    · exact ⟨hbundled, .inl rfl, refl_of Notes e⟩
    · rename_i hne
      rw [if_neg hne] at hnotes
      exact ⟨hbundled, .inl rfl, hnotes⟩

end Editor

end

/-! ## Timelines -/

namespace Timeline

variable {t : Timeline} {e e' : Editor}

/-- A bundle that replays nothing keeps the editor on a timeline. -/
theorem Holds.bundle {α : Type} {calls : Attempt Editor α} (h : t.Holds e)
    (hcalls : Program (fun control => ¬ MayReplay control) calls) :
    ∃ t' : Timeline, t'.Holds ((Editor.bundle calls).exec e).2 := by
  have hwf : e.graph.WellFormed e.catalogue := by
    rw [h.graph]
    exact h.wellFormed
  obtain ⟨-, hhist, hnotes⟩ := Editor.program_notesOrForgets hcalls { e with bundled := some [] } rfl
  rcases hexec : calls.exec { e with bundled := some [] } with ⟨result, e'⟩
  rw [hexec] at hhist hnotes
  have hrecords := Editor.records_of_notes h.idle hwf hexec hnotes
  -- The command goes on the history that the calls have left.
  obtain ⟨line, hline⟩ : ∃ line : Timeline, line.Holds { e with history := e'.history } := by
    rcases hhist with hhist | hhist <;> dsimp only at hhist <;> rw [hhist]
    · exact ⟨t, h⟩
    · exact ⟨_, h.clear⟩
  obtain ⟨t', ht', -⟩ := hline.record hrecords
  exact ⟨t', ht'⟩

/-- **Where bundles replay nothing, a turn keeps the editor on a timeline.** -/
theorem Holds.turn (h : t.Holds e) (hturn : Turn (fun control => ¬ MayReplay control) e e') :
    ∃ t' : Timeline, t'.Holds e' := by
  cases hturn with
  | act action =>
    rw [← action.exec_bundle h.idle]
    exact h.bundle (.act action)
  | bundle hcalls => exact h.bundle hcalls
  | undo =>
    cases henabled : e.enabled with
    | false => exact ⟨t, by rw [Editor.undo, exec_replay_locked henabled]; exact h⟩
    | true => exact ⟨_, (h.undo henabled).2.1⟩
  | redo =>
    cases henabled : e.enabled with
    | false => exact ⟨t, by rw [Editor.redo, exec_replay_locked henabled]; exact h⟩
    | true => exact ⟨_, (h.redo henabled).2.1⟩
  | clearHistory => exact ⟨_, h.clear⟩
  | setEnabled enabled => exact ⟨t, h.setEnabled enabled⟩
  | takeEvents =>
    exact ⟨t, h.idle, h.graph, h.wellFormed, h.undoable, h.redoable, h.leadsTo, h.leadsFrom, h.bound⟩

/-- **So do any number of turns.** -/
theorem Holds.turns (h : t.Holds e) (hturns : Turns (fun control => ¬ MayReplay control) e e') :
    ∃ t' : Timeline, t'.Holds e' := by
  induction hturns with
  | refl => exact ⟨t, h⟩
  | tail _ hturn ih =>
    obtain ⟨t', ht'⟩ := ih
    exact ht'.turn hturn

/-- On a timeline all can be undone, so an undo is refused only while the pipeline is locked. -/
theorem Holds.undo_refused (h : t.Holds e) {cause : EditError}
    (hexec : Editor.undo.exec e = (.error cause, e')) : e' = e := by
  rcases Editor.undo_refused hexec with ⟨-, heq⟩ | ⟨henabled, -⟩
  · exact heq
  · have hok := (h.undo henabled).1
    rw [hexec] at hok
    cases hok

theorem Holds.redo_refused (h : t.Holds e) {cause : EditError}
    (hexec : Editor.redo.exec e = (.error cause, e')) : e' = e := by
  rcases Editor.redo_refused hexec with ⟨-, heq⟩ | ⟨henabled, -⟩
  · exact heq
  · have hok := (h.redo henabled).1
    rw [hexec] at hok
    cases hok

end Timeline

namespace Session

variable {σ α : Type} [Surface σ] {s : Session σ} {catalogue : Catalogue}

/-! ## Calls to a session -/

/-- **Pipeline and history are what they were.** -/
def Untouched (s s' : Session σ) : Prop :=
  s'.graph = s.graph ∧ s'.editor.history = s.editor.history

omit [Surface σ] in
theorem Untouched.trans {s' s'' : Session σ} (h : s.Untouched s') (h' : s'.Untouched s'') :
    s.Untouched s'' :=
  ⟨h'.1.trans h.1, h'.2.trans h.2⟩

/-- **If the call is refused**, this holds of what it leaves. -/
def IfRefused (s : Session σ) (call : Attempt (Session σ) α) (P : Session σ → Prop) : Prop :=
  ∀ cause, (call.exec s).1 = .error cause → P (call.exec s).2

omit [Surface σ] in
theorem IfRefused.mono {call : Attempt (Session σ) α} {P Q : Session σ → Prop}
    (h : s.IfRefused call P) (himp : ∀ t, P t → Q t) : s.IfRefused call Q :=
  fun cause hcause => himp _ (h cause hcause)

omit [Surface σ] in
/-- Pipeline and history are in the editor, and handing events on leaves them there. -/
theorem untouched_of_editor {s' : Session σ} {e' : Editor} (heditor : s'.editor = e'.takeEvents.2)
    (h : e'.graph = s.graph ∧ e'.history = s.editor.history) : s.Untouched s' := by
  unfold Untouched Session.graph
  rw [heditor]
  exact h

theorem run_refused {call : Attempt Editor α}
    (hcall : ∀ cause e', call.exec s.editor = (.error cause, e') →
      e'.graph = s.graph ∧ e'.history = s.editor.history) :
    s.IfRefused (run call) s.Untouched := by
  intro cause hcause
  exact untouched_of_editor (settle_editor _) (hcall cause _ (Prod.ext hcause rfl))

theorem load_refused (hrest : s.AtRest catalogue) (content : Content) :
    s.IfRefused (load content) s.Untouched := by
  refine run_refused fun cause e' hexec => ?_
  -- History is forgotten last, so it is the replacement that was refused.
  rw [Attempt.exec_bind] at hexec
  let order := content.breakpoints.toList
  obtain ⟨calls, hcalls, heq⟩ := exists_replaceBy (fun _ => False) content order
  rcases hreplace : (replaceBy content order).exec s.editor with ⟨_ | _, e⟩ <;>
    rw [hreplace] at hexec <;> cases hexec
  rw [heq] at hreplace
  refine Editor.exec_bundle_refused ?_ hrest.idle hrest.sound.graph hreplace
  exact hcalls.keeps Editor.respects_notes nofun nofun nofun nofun

theorem handleGesture_refused (hrest : s.AtRest catalogue) (gesture : Gesture) :
    s.IfRefused (handleGesture gesture) s.Untouched := by
  intro cause hcause
  have hresult : (s.view.bridge.forward s.editor gesture).1 = .error cause := hcause
  rcases s.view.bridge.forward_cases s.editor gesture with
    ⟨e', -, heq⟩ | ⟨cause', e', hperformed, heq⟩
  · rw [heq] at hresult
    cases hresult
  · obtain ⟨hgraph, hhist⟩ := Intent.performAll_refused hrest.idle hrest.sound.graph hperformed
    have heditor : (s.forward gesture).2.editor = e' := congrArg (·.2.2) heq
    exact untouched_of_editor (settle_editor _) (heditor.symm ▸ ⟨hgraph, hhist⟩)

theorem replay_refused {call : Attempt Editor Bool} {cause : EditError}
    (hcause : ((replay call).exec s).1 = .error cause) :
    ∃ e', call.exec s.editor = (.error cause, e') ∧
      ((replay call).exec s).2.editor = e'.takeEvents.2 :=
  ⟨_, Prod.ext hcause rfl, replay_editor call s⟩

theorem untouched_replay {call : Attempt Editor Bool}
    (hcall : ∀ cause e', call.exec s.editor = (.error cause, e') → e' = s.editor) :
    s.IfRefused (replay call) s.Untouched := by
  intro cause hcause
  obtain ⟨e', hcalled, heditor⟩ := replay_refused hcause
  obtain rfl := hcall cause e' hcalled
  exact untouched_of_editor heditor ⟨rfl, rfl⟩

/-- What a replay leaves that is refused: all is as it was, or this is what has become of history. -/
theorem replay_drops {call : Attempt Editor Bool} {c : Prop} {left : History}
    (hcall : ∀ cause e', call.exec s.editor = (.error cause, e') →
      s.editor.enabled = false ∧ e' = s.editor ∨ s.editor.enabled = true ∧ c ∧ e'.history = left) :
    s.IfRefused (replay call) fun s' => s.editor.enabled = false ∧ s.Untouched s' ∨
      s.editor.enabled = true ∧ c ∧ s'.editor.history = left := by
  intro cause hcause
  obtain ⟨e', hcalled, heditor⟩ := replay_refused hcause
  rcases hcall cause e' hcalled with ⟨hlocked, rfl⟩ | ⟨henabled, hc, hleft⟩
  · exact .inl ⟨hlocked, untouched_of_editor heditor ⟨rfl, rfl⟩⟩
  · right
    rw [heditor]
    exact ⟨henabled, hc, hleft⟩

/-- Where bundles replay nothing, the editor is on a timeline after every run. -/
theorem exists_holds_after (catalogue : Catalogue) (settings : Settings) (clock : Nat → Nat)
    (surface : σ) {calls : List (Call σ)}
    (hcalls : ∀ call ∈ calls, call.Bundles fun control => ¬ MayReplay control) :
    ∃ t : Timeline, t.Holds ((start catalogue settings clock surface).after calls).editor :=
  (Timeline.holds_start ..).turns
    (after_turns (start catalogue settings clock surface) hcalls)

/-- **What is refused leaves pipeline and history as they were**, in every session that can be
reached.  An undo or redo that is refused may drop the command that cannot be replayed, and leaves
the others in their places; but not so where no bundle has replayed anything. -/
theorem refused_after (catalogue : Catalogue) (settings : Settings) (clock : Nat → Nat)
    (surface : σ) (calls : List (Call σ)) :
    let s := (start catalogue settings clock surface).after calls
    (∀ action : Action, s.IfRefused (run action.perform) s.Untouched) ∧
    (∀ content, s.IfRefused (load content) s.Untouched) ∧
    (∀ gesture, s.IfRefused (handleGesture gesture) s.Untouched) ∧
    (s.IfRefused undo fun s' => s.editor.enabled = false ∧ s.Untouched s' ∨
      s.editor.enabled = true ∧ s.editor.history.undoable ≠ [] ∧ s'.editor.history =
        { s.editor.history with undoable := s.editor.history.undoable.tail }) ∧
    (s.IfRefused redo fun s' => s.editor.enabled = false ∧ s.Untouched s' ∨
      s.editor.enabled = true ∧ s.editor.history.redoable ≠ [] ∧ s'.editor.history =
        { s.editor.history with redoable := s.editor.history.redoable.tail }) ∧
    ((∀ call ∈ calls, call.Bundles fun control => ¬ MayReplay control) →
      s.IfRefused undo s.Untouched ∧ s.IfRefused redo s.Untouched) := by
  intro s
  have hrest : s.AtRest catalogue := atRest_after catalogue settings clock surface calls
  refine ⟨fun action => run_refused fun cause e' => action.exec_refused hrest.idle hrest.sound.graph,
    load_refused hrest, handleGesture_refused hrest, replay_drops fun _ _ => Editor.undo_refused,
    replay_drops fun _ _ => Editor.redo_refused, fun hcalls => ?_⟩
  obtain ⟨t, ht⟩ := exists_holds_after catalogue settings clock surface hcalls
  exact ⟨untouched_replay fun _ _ => ht.undo_refused, untouched_replay fun _ _ => ht.redo_refused⟩

/-- A document that pauses on a link it does not hold is not loaded, though by then the pipeline has
been replaced by its operators. -/
theorem refused_after_missing :
    let scan : Operator := ⟨"scan", "Scan", "1", .object [], [], [], false⟩
    let content : Content := ⟨[{ scan with id := "other" }], ∅, [], .ofList [("l", .count 1)]⟩
    let calls : List (Call Blank) := [.act (.addOperator scan .origin)]
    let s := (start (.ofMetadata ⟨[⟨"Scan", .object [], ⟨"Scan", none, "Input", 0, 0⟩, "1"⟩], []⟩)
      .initial id Blank.mk).after calls
    ((load content).exec s).1 = .error (.notFound .link "l") ∧
      s.Untouched ((load content).exec s).2 ∧
      (∀ call ∈ calls, call.Bundles fun control => ¬ MayReplay control) ∧
      s.IfRefused undo s.Untouched := by
  intro scan content calls s
  have herror : ((load content).exec s).1 = .error (.notFound .link "l") := by decide +kernel
  have hcalls : ∀ call ∈ calls, call.Bundles fun control => ¬ MayReplay control := by
    intro call hmem
    rw [List.mem_singleton.mp hmem]
    trivial
  obtain ⟨-, hload, -, -, -, hreplay⟩ := refused_after
    (.ofMetadata ⟨[⟨"Scan", .object [], ⟨"Scan", none, "Input", 0, 0⟩, "1"⟩], []⟩) .initial id
    Blank.mk calls
  exact ⟨herror, hload content _ herror, hcalls, (hreplay hcalls).1⟩

/-- A bundle in which an addition is undone goes on to hold the move of what is gone; its undo fails
half-way, and the command is lost. -/
theorem not_untouched_undo :
    let scan : Operator := ⟨"a", "Scan", "1", .object [], [], [], false⟩
    let program : Attempt Editor Bool := do
      Editor.moveOperator "b" ⟨⟨1⟩, 0⟩
      Editor.moveOperator "a" ⟨⟨1⟩, 0⟩
      Editor.undo
    let hprogram : Program (fun _ => True) program :=
      .bind (.act (.moveOperator "b" ⟨⟨1⟩, 0⟩)) fun _ =>
        .bind (.act (.moveOperator "a" ⟨⟨1⟩, 0⟩)) fun _ => .undo trivial
    let s := (start (.ofMetadata ⟨[⟨"Scan", .object [], ⟨"Scan", none, "Input", 0, 0⟩, "1"⟩], []⟩)
      .initial id Blank.mk).after [.act (.addOperator scan .origin),
        .act (.addOperator { scan with id := "b" } .origin), .bundle program hprogram]
    (undo.exec s).1 = .error (.notFound .operator "b") ∧ ¬ s.Untouched (undo.exec s).2 ∧
      (undo.exec s).2.graph ≠ s.graph ∧
      (undo.exec s).2.editor.history.undoable.length < s.editor.history.undoable.length := by
  intro scan program hprogram s
  have hgraph : (undo.exec s).2.graph ≠ s.graph := by decide +kernel
  refine ⟨?_, fun huntouched => hgraph huntouched.1, hgraph, ?_⟩ <;> decide +kernel

end Session

end PipelineEditor
