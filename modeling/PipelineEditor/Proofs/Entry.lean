import PipelineEditor.Proofs.Granted

/-!
# An entry of its own

What a call does is recorded as one command.  It may go on with a drag that was recorded last; but
a command that lets operators or links come or go is no move, so it has an entry of its own, and one
undo leads back to the graph before the call.

## Main definitions

* `Session.AddsEntry s s'`: history has one entry more, and undoing it leads back

## Main results

* `Editor.Records.undone`: what is no move has an entry of its own, which one undo takes back
* `Editor.Realizes.granted`: outside a bundle a call is granted where its effect is defined
* `Session.handleGesture_granted`, `Session.act_granted`: what gestures and calls that are granted
  leave of pipeline and history
-/

namespace PipelineEditor

namespace History

/-- A command that opens an entry is put on top of those that are there. -/
theorem undoable_record_of_opens {h : History} {command : Command}
    (hopens : h.opens command = true) :
    ∃ entry, (h.record command).undoable = (entry :: h.undoable).take h.limit := by
  unfold opens at hopens
  obtain ⟨hsome, hnew⟩ := Bool.and_eq_true_iff.mp hopens
  have hnew : h.merge? command = none := Option.isNone_iff_eq_none.mp hnew
  have hempty : ¬ command.isEmpty = true := by simpa using hsome
  refine ⟨⟨command, h.now, true⟩, ?_⟩
  unfold record
  rw [if_neg hempty]
  dsimp only
  rw [merge?_forgetting, hnew]
  rfl

end History

namespace Editor

variable {e e' : Editor} {command : Command}

/-! ## Commands that are no moves -/

/-- A move leaves operators and links, so it is not what has let them come or go. -/
theorem Records.opens (h : e.Records command e')
    (hchanged : e'.graph.operators ≠ e.graph.operators ∨ e'.graph.links ≠ e.graph.links) :
    e.history.opens command = true := by
  have hne : command ≠ [] := by
    rintro rfl
    rw [h.nothing.1] at hchanged
    simp at hchanged
  have hnew : ¬ (e.history.merge? command).isSome = true := by
    rw [History.merge?_isSome_iff]
    rintro ⟨id, start, -, origin, finish, rfl⟩
    obtain ⟨-, hgraph⟩ :=
      Draft.takes_setPosition_iff.mp (Command.takes_redo_singleton.mp h.swaps.1)
    rw [hgraph] at hchanged
    simp at hchanged
  unfold History.opens
  rw [Bool.and_eq_true_iff]
  exact ⟨by simpa using hne, by simpa using hnew⟩

/-- **What is no move has an entry of its own**, and one undo takes it back. -/
theorem Records.undone (h : e.Records command e') (henabled : e'.enabled = true)
    (hlimit : 0 < e.limit)
    (hchanged : e'.graph.operators ≠ e.graph.operators ∨ e'.graph.links ≠ e.graph.links) :
    (∃ entry, e'.history.undoable = (entry :: e.history.undoable).take e.limit) ∧
      (Editor.undo.exec e').1 = .ok true ∧ (Editor.undo.exec e').2.graph = e.graph := by
  have hopens := h.opens hchanged
  obtain ⟨entry, hentry⟩ := History.undoable_record_of_opens hopens
  unfold History.opens at hopens
  obtain ⟨hsome, hnew⟩ := Bool.and_eq_true_iff.mp hopens
  have hne : command ≠ [] := by simpa using hsome
  have hnodrag : ¬ ∃ id start, e.history.Drags command id start := by
    rw [← History.merge?_isSome_iff]
    simpa using hnew
  obtain ⟨hanswer, hgraph, -⟩ := h.undo henabled hlimit hne
  rw [← h.history] at hentry
  exact ⟨⟨entry, hentry⟩, hanswer, hgraph hnodrag⟩

/-- Taking the events leaves what has been recorded. -/
theorem Records.takeEvents (h : e.Records command e') : e.Records command e'.takeEvents.2 :=
  ⟨h.idle, h.catalogue, h.history, h.wellFormed, h.swaps⟩

/-! ## Calls that are granted -/

/-- **Outside a bundle a call is granted where its effect is defined**, and recorded. -/
theorem Realizes.granted {call : Attempt Editor Unit} {effect : Graph → Except EditError Graph}
    (h : Realizes e.catalogue call effect) (hprogram : Program (fun _ => False) call)
    (hidle : e.bundled = none) (hwf : e.graph.WellFormed e.catalogue) (henabled : e.enabled = true)
    {g : Graph} (heffect : effect e.graph = .ok g) :
    ∃ e', (Editor.bundle call).exec e = (.ok (), e') ∧ e'.graph = g ∧ e'.enabled = true ∧
      e.Records (noted call e) e' := by
  have hmeets := h { e with bundled := some [] } ⟨henabled, rfl, rfl, hwf⟩
  have hinside : effect (graph { e with bundled := some [] }) = .ok g := heffect
  rw [hinside] at hmeets
  obtain ⟨inside, hexec, hgraph, -⟩ := hmeets
  have hrecords := exec_bundle_records
    (hprogram.keeps respects_notes nofun nofun nofun nofun) hidle hwf
  have hlock : ((Editor.bundle call).exec e).2.enabled = e.enabled :=
    program_enabled (fun hnever => hnever) (.bundle hprogram) e
  have hbundle : (Editor.bundle call).exec e = _ := exec_bundle_none hidle
  rw [hexec] at hbundle
  rw [hbundle] at hrecords hlock
  exact ⟨_, hbundle, hgraph, hlock.trans henabled, hrecords⟩

end Editor

namespace Session

variable {σ : Type} [Surface σ] {s s' : Session σ} {catalogue : Catalogue} {g : Graph}

/-- **History has one entry more**, unless there is no room for the oldest, and undoing it leads
back to the graph before. -/
structure AddsEntry (s s' : Session σ) : Prop where
  entry : ∃ entry, s'.editor.history.undoable =
    (entry :: s.editor.history.undoable).take s.editor.history.limit
  answer : (Session.undo.exec s').1 = .ok true
  graph : (Session.undo.exec s').2.graph = s.graph

omit [Surface σ] in
/-- Handing events on leaves the graph. -/
theorem graph_of_editor {e' : Editor} (heditor : s'.editor = e'.takeEvents.2) :
    s'.graph = e'.graph := by
  unfold Session.graph
  rw [heditor]
  rfl

/-- What an undo does to the editor, it does to the session. -/
theorem undo_eq (s : Session σ) : (Session.undo.exec s).1 = (Editor.undo.exec s.editor).1 ∧
    (Session.undo.exec s).2.graph = (Editor.undo.exec s.editor).2.graph :=
  ⟨congrArg Prod.fst (exec_replay Editor.undo s), graph_of_editor (replay_editor Editor.undo s)⟩

/-- A command that is no move, recorded by a call, adds an entry. -/
theorem addsEntry_of_records {e' : Editor} {command : Command}
    (hrecords : s.editor.Records command e') (henabled : e'.enabled = true)
    (hlimit : 0 < s.editor.limit) (heditor : s'.editor = e'.takeEvents.2)
    (hchanged : e'.graph.operators ≠ s.graph.operators ∨ e'.graph.links ≠ s.graph.links) :
    s.AddsEntry s' := by
  obtain ⟨hentry, hanswer, hgraph⟩ := hrecords.takeEvents.undone henabled hlimit hchanged
  rw [← heditor] at hentry hanswer hgraph
  obtain ⟨hanswer', hgraph'⟩ := undo_eq s'
  exact ⟨hentry, hanswer'.trans hanswer, hgraph'.trans hgraph⟩

/-- History keeps at least one entry. -/
theorem limit_pos_after (catalogue : Catalogue) (settings : Settings) (clock : Nat → Nat)
    (surface : σ) (calls : List (Call σ)) :
    0 < ((start catalogue settings clock surface).after calls).editor.limit := by
  have hlimit : Editor.Agree Editor.limit _ _ :=
    (after_turns (start catalogue settings clock surface) fun call (_ : call ∈ calls) =>
      call.bundles).limit
  rw [hlimit]
  show 0 < max settings.undoLimit 1
  omega

/-- **A gesture is granted where what it asks is defined**, one request after the other.  If it asks
for nothing, nothing is recorded. -/
theorem handleGesture_granted (hrest : s.AtRest catalogue) (henabled : s.editor.enabled = true)
    (hlimit : 0 < s.editor.limit) {gesture : Gesture}
    (heffect : Intent.effectAll (s.view.bridge.lift s.graph gesture).1 s.graph = .ok g) :
    ((handleGesture gesture).exec s).1 = .ok (s.view.bridge.lift s.graph gesture).1.length ∧
      ((handleGesture gesture).exec s).2.graph = g ∧
      ((s.view.bridge.lift s.graph gesture).1 = [] →
        s.Untouched ((handleGesture gesture).exec s).2) ∧
      (g.operators ≠ s.graph.operators ∨ g.links ≠ s.graph.links →
        s.AddsEntry ((handleGesture gesture).exec s).2) := by
  obtain ⟨e', hexec, rfl, henabled', hrecords⟩ :=
    (Editor.Realizes.forM Intent.realizes_perform
      (s.view.bridge.lift s.graph gesture).1).granted (.forM Intent.program_perform)
      hrest.idle hrest.sound.graph henabled heffect
  rw [← Intent.exec_performAll hrest.idle] at hexec
  rcases s.view.bridge.forward_cases s.editor gesture with
    ⟨e'', hperformed, hforward⟩ | ⟨cause, e'', hperformed, -⟩
  · cases hexec.symm.trans hperformed
    have hafter : ((handleGesture gesture).exec s).2.editor = e'.takeEvents.2 := by
      refine (settle_editor _).trans ?_
      exact congrArg (fun answered => answered.2.2.takeEvents.2) hforward
    refine ⟨congrArg Prod.fst hforward, graph_of_editor hafter, fun hnothing => ?_,
      addsEntry_of_records hrecords henabled' hlimit hafter⟩
    rw [hnothing] at hexec
    obtain rfl : s.editor = e' := (Prod.mk.inj hexec).2
    exact untouched_of_editor hafter ⟨rfl, rfl⟩
  · cases hexec.symm.trans hperformed

/-- **A call that edits is granted where its effect is defined.** -/
theorem act_granted (hrest : s.AtRest catalogue) (henabled : s.editor.enabled = true)
    (hlimit : 0 < s.editor.limit) (action : Action) {effect : Graph → Except EditError Graph}
    (hrealizes : Editor.Realizes s.editor.catalogue action.perform effect)
    (heffect : effect s.graph = .ok g) :
    ((run action.perform).exec s).1 = .ok () ∧
      ((run action.perform).exec s).2.graph = g ∧
      (g.operators ≠ s.graph.operators ∨ g.links ≠ s.graph.links →
        s.AddsEntry ((run action.perform).exec s).2) := by
  obtain ⟨e', hexec, rfl, henabled', hrecords⟩ :=
    hrealizes.granted (.act action) hrest.idle hrest.sound.graph henabled heffect
  rw [action.exec_bundle hrest.idle] at hexec
  have hafter : ((run action.perform).exec s).2.editor = e'.takeEvents.2 := by
    refine (settle_editor _).trans ?_
    exact congrArg (fun answered => answered.2.takeEvents.2) hexec
  exact ⟨congrArg Prod.fst hexec, graph_of_editor hafter,
    addsEntry_of_records hrecords henabled' hlimit hafter⟩

end Session

end PipelineEditor
