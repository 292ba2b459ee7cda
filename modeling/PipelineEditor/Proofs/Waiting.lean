import PipelineEditor.Proofs.Delivery
import PipelineEditor.Proofs.Findings
import PipelineEditor.Proofs.Frozen

/-!
# Corrections that wait for the lock

While the pipeline is locked, corrections are not made but waited with, and of all the answers that
come meanwhile only a flag is kept beside the attributes that were last reported.  That is enough:
once the pipeline is unlocked, the corrections are made that the last of the answers that counted
asks for, and the session is what it would have become by that answer alone, with no lock.

## Main definitions

* `Session.lastCounted?`: of the outcomes that come, the last that counts
* `Session.Heard s last m`: a locked session `m` knows of schemas what one outcome says
* `Session.Agrees s s'`: the same pipeline, history, findings and revision, and the same known of
  schemas

## Main results

* `Session.defersLocked_after`: corrections wait only while the pipeline is locked
* `Session.Heard.receive`: what is known while outcomes come is what the last that counted says
* `Session.waiting_after`: locking, taking over outcomes and unlocking is taking over the last that
  counted
-/

namespace PipelineEditor

open Attempt (Keeps)
open Editor (Agree)

namespace Session

variable {σ α : Type} {s s' : Session σ}

/-! ## What handing events on leaves of answers -/

/-- A schema change forgets what is known of operators that are gone. -/
theorem revise_propagation (s : Session σ) :
    s.revise.propagation.overlay = s.propagation.overlay.forgetMissing s.graph ∧
      s.revise.propagation.deferred = s.propagation.deferred := by
  unfold revise schedule
  cases s.dispatcher with
  | none => exact ⟨rfl, rfl⟩
  | some d => exact ⟨rfl, rfl⟩

variable [Surface σ]

/-- Handing events on has to do with answers only where they concern schemas. -/
theorem settle_propagation (s : Session σ) :
    s.settle.propagation =
      if s.editor.draft.announced.any Event.affectsSchema then s.revise.propagation
      else s.propagation := by
  unfold settle Editor.takeEvents
  dsimp only
  split
  · rename_i hempty
    rw [List.isEmpty_iff.mp hempty]
    rfl
  · split
    · split
      · unfold publish revise schedule revalidate project
        dsimp only
        cases s.dispatcher <;> rfl
      · rfl
    · split
      · unfold publish revise schedule project
        dsimp only
        cases s.dispatcher <;> rfl
      · rfl

theorem settle_deferred (s : Session σ) :
    s.settle.propagation.deferred = s.propagation.deferred := by
  rw [settle_propagation]
  split
  · exact s.revise_propagation.2
  · rfl

theorem settle_enabled (s : Session σ) : s.settle.editor.enabled = s.editor.enabled := by
  rw [settle_editor]
  rfl

/-- Where nothing concerns schemas, nothing is learned, checked or revised. -/
theorem settle_of_undisturbed (h : s.editor.draft.Undisturbed) :
    s.settle.propagation = s.propagation ∧ s.settle.validation = s.validation ∧
      s.settle.revision = s.revision := by
  have hquiet : s.editor.draft.announced.any Event.affectsSchema = false :=
    List.any_eq_false.mpr fun event hmem => Bool.eq_false_iff.mp (h event hmem)
  have hunchecked : s.editor.draft.announced.any Event.affectsValidation = false := hquiet
  have htraffic := settle_traffic s
  rw [hquiet, if_neg Bool.false_ne_true] at htraffic
  refine ⟨?_, ?_, (Traffic.mk.inj htraffic).2.2.2⟩
  · rw [settle_propagation, hquiet, if_neg Bool.false_ne_true]
  · rw [settle_validation, hunchecked, if_neg Bool.false_ne_true]

/-! ## When corrections wait -/

omit [Surface σ] in
/-- **Corrections wait only while the pipeline is locked.** -/
def DefersLocked (s : Session σ) : Prop :=
  s.propagation.deferred = true → s.editor.enabled = false

omit [Surface σ] in
/-- If corrections waited only for the lock, they do so still. -/
def StaysDeferring (s s' : Session σ) : Prop := s.DefersLocked → s'.DefersLocked

omit [Surface σ] in
instance : Std.Refl (StaysDeferring : Session σ → Session σ → Prop) := ⟨fun _ => id⟩

omit [Surface σ] in
instance : IsTrans (Session σ) StaysDeferring := ⟨fun _ _ _ h h' hs => h' (h hs)⟩

omit [Surface σ] in
theorem DefersLocked.congr (h : s.DefersLocked)
    (hdeferred : s'.propagation.deferred = s.propagation.deferred)
    (henabled : s'.editor.enabled = s.editor.enabled) : s'.DefersLocked := by
  intro hwaits
  rw [henabled]
  exact h (hdeferred ▸ hwaits)

theorem DefersLocked.settle (h : s.DefersLocked) : s.settle.DefersLocked :=
  h.congr s.settle_deferred s.settle_enabled

theorem run_staysDeferring {call : Attempt Editor α} (hcall : Keeps (Agree Editor.enabled) call) :
    Keeps StaysDeferring (run call : Attempt (Session σ) α) := by
  intro s h
  have hafter : DefersLocked ((onEditor call).exec s).2 := h.congr rfl (hcall s.editor)
  exact hafter.settle

theorem handleGesture_staysDeferring (gesture : Gesture) :
    Keeps StaysDeferring (handleGesture gesture : Attempt (Session σ) Nat) := by
  intro s h
  have henabled : (s.forward gesture).2.editor.enabled = s.editor.enabled := by
    have hprogram : Program (fun _ => False) _ :=
      Intent.program_performAll (s.view.bridge.lift s.graph gesture).1
    have hintents := Editor.program_enabled id hprogram s.editor
    unfold Session.forward
    dsimp only
    rw [Bridge.forward_editor]
    exact hintents
  have hafter : DefersLocked (s.forward gesture).2 := h.congr rfl henabled
  exact hafter.settle

theorem replay_staysDeferring {call : Attempt Editor Bool}
    (hcall : Keeps (Agree Editor.enabled) call) :
    Keeps StaysDeferring (replay call : Attempt (Session σ) Bool) := by
  intro s h
  rw [exec_replay]
  exact run_staysDeferring hcall (s.setReplaying true) h

/-- Corrections wait only where the pipeline is locked as the answer is taken over. -/
theorem applyOutcome_staysDeferring (outcome : Outcome) :
    Keeps StaysDeferring (applyOutcome outcome : Attempt (Session σ) Applied) := by
  intro s h
  -- Corrections are put off by the lock alone, and that lock is still on when the answer is done.
  have hlearned (p : Propagation) (e : Editor) (result : InputSchemas) :
      (p.correct e result).2.1.deferred = true → (p.correct e result).2.2.enabled = false := by
    cases henabled : e.enabled with
    | true =>
      rw [Propagation.correct_of_enabled henabled]
      exact fun hwaits => nomatch hwaits
    | false =>
      by_cases hnone : e.graph.corrections e.catalogue result = []
      · rw [Propagation.correct_of_nil hnone]
        exact fun hwaits => nomatch hwaits
      · rw [Propagation.correct_of_locked henabled hnone]
        exact fun _ => henabled
  have happlied : (s.propagation.apply s.editor outcome s.revision).2.1.deferred = true →
      (s.propagation.apply s.editor outcome s.revision).2.2.enabled = false := by
    cases hcurrent : s.propagation.isCurrent outcome.sequence outcome.revision s.revision with
    | false =>
      rw [Propagation.apply_stale hcurrent]
      exact h
    | true =>
      rcases hinferred : outcome.inferred with cause | result
      · rw [Propagation.apply_failed hcurrent hinferred]
        exact h
      · rw [Propagation.apply_inferred hcurrent hinferred]
        exact hlearned _ _ _
  -- Handing on what is announced changes neither the lock nor what waits.
  unfold applyOutcome
  rw [Attempt.exec_of]
  rcases happly : s.propagation.apply s.editor outcome s.revision with ⟨_ | applied, p, e⟩ <;>
    rw [happly] at happlied
  · have hafter : DefersLocked { s with propagation := p, editor := e } := happlied
    exact hafter.settle
  · have hafter : DefersLocked ({ s with propagation := p, editor := e }.dispatch applied.events) :=
      happlied
    exact hafter.settle

theorem setEnabled_staysDeferring (enabled : Bool) (s : Session σ) :
    StaysDeferring s (s.setEnabled enabled) := by
  intro h
  unfold setEnabled
  cases enabled with
  | false =>
    rw [if_neg Bool.false_ne_true]
    refine DefersLocked.settle fun _ => ?_
    unfold Editor.setEnabled
    split
    · assumption
    · rfl
  | true =>
    rw [if_pos rfl]
    have henabled : (s.editor.setEnabled true).enabled = true := by
      unfold Editor.setEnabled
      split
      · assumption
      · rfl
    -- What waited is made up for, so nothing waits any more.
    have hdone : (s.propagation.applyDeferred (s.editor.setEnabled true)).2.1.deferred = false := by
      unfold Propagation.applyDeferred
      rw [henabled]
      cases hdeferred : s.propagation.deferred with
      | false => exact hdeferred
      | true =>
        simp only [Bool.not_true, Bool.or_self, Bool.false_eq_true, ↓reduceIte]
        rw [Propagation.correct_of_enabled henabled]
    exact DefersLocked.settle fun hwaits => absurd (hdone.symm.trans hwaits) Bool.false_ne_true

/-- **Every call keeps it that corrections wait only for the lock**, if no bundle changes the
lock. -/
theorem Call.staysDeferring {call : Call σ} (hcall : call.Bundles (· ≠ .lock)) (s : Session σ) :
    StaysDeferring s (call.exec s) := by
  have hprogram {α : Type} {calls : Attempt Editor α} (h : Program (· ≠ .lock) calls) :
      Keeps (Agree Editor.enabled) calls := Editor.program_enabled (fun hne => hne rfl) h
  -- Answers and the lock decide what waits; no other call touches either.
  cases call with
  | act action => exact run_staysDeferring (hprogram (.act action)) s
  | bundle calls _ => exact run_staysDeferring (hprogram (.bundle hcall)) s
  | undo => exact replay_staysDeferring (hprogram (.undo nofun)) s
  | redo => exact replay_staysDeferring (hprogram (.redo nofun)) s
  | load content =>
    exact run_staysDeferring
      (hprogram (.bind (program_replaceBy content _) fun _ => .clearHistory nofun)) s
  | setEnabled enabled => exact setEnabled_staysDeferring enabled s
  | handleGesture gesture => exact handleGesture_staysDeferring gesture s
  | processGestures =>
    exact handleAll_keeps (fun gesture _ => handleGesture_staysDeferring gesture) s.takeGestures.2
  | useSurface | redraw | buildRequest => exact id
  | highlight ids =>
    show StaysDeferring s (s.highlight ids)
    rcases highlight_cases ids s with heq | heq <;> rw [heq]
    · exact id
    · exact id
  | unhighlight ids =>
    show StaysDeferring s (s.unhighlight ids)
    rcases unhighlight_cases ids s with heq | heq <;> rw [heq]
    · exact id
    · exact id
  | attach => exact id
  | connect =>
    show StaysDeferring s s.connect.2
    rcases connect_cases s with heq | heq <;> rw [heq]
    · exact id
    · exact id
  | advance service duration =>
    show StaysDeferring s (s.advance service duration).1
    rcases advance_cases service duration s with heq | ⟨d, -, heq⟩ <;> rw [heq]
    · exact id
    · exact id
  | next service patience =>
    show StaysDeferring s (s.next service patience).2.1
    rcases next_cases service patience s with
      heq | ⟨d, _ | outcome, left, -, -, -, heq⟩ <;> rw [heq]
    · exact id
    · exact id
    · exact applyOutcome_staysDeferring outcome { s with dispatcher := some left }
  | pump =>
    refine pumpUpTo_keeps (fun htaken => ?_) applyOutcome_staysDeferring _ s
    obtain ⟨d, left, -, -, rfl⟩ := takeOutcome?_eq_some htaken
    exact id
  | applyOutcome outcome => exact applyOutcome_staysDeferring outcome s

/-- **After every run in which no bundle changes the lock, corrections wait only for the lock.** -/
theorem defersLocked_after (h : s.DefersLocked) {calls : List (Call σ)}
    (hcalls : ∀ call ∈ calls, call.Bundles (· ≠ .lock)) : (s.after calls).DefersLocked := by
  induction calls generalizing s with
  | nil => exact h
  | cons call rest ih =>
    exact ih (Call.staysDeferring (hcalls call List.mem_cons_self) s h) fun other hmem =>
      hcalls other (List.mem_cons_of_mem _ hmem)

/-! ## While the pipeline is locked -/

/-- **The last of the outcomes that counts** at the moment it comes. -/
def lastCounted? (s : Session σ) : List Delivery → Option Outcome
  | [] => none
  | delivery :: rest =>
    (lastCounted? (s.deliver delivery).2 rest).or ((s.collect delivery).1.filter s.counts)

/-- The corrections that an outcome asks for, where it comes to a session. -/
def correctionsOf (s : Session σ) (outcome : Option Outcome) : List (OperatorId × Json) :=
  match outcome.map Outcome.inferred with
  | some (.ok result) => s.graph.corrections s.catalogue result
  | _ => []

/-- What is known where an outcome has come to a session. -/
def overlayAfter (s : Session σ) (outcome : Option Outcome) : Overlay :=
  match outcome.map Outcome.inferred with
  | some (.ok result) => (s.propagation.overlay.apply s.graph s.catalogue result).1
  | _ => s.propagation.overlay

/-- **What a locked session knows while outcomes come**: what the last that counted says, and
whether corrections wait that it asks for. -/
structure Heard (s : Session σ) (last : Option Outcome) (m : Session σ) : Prop where
  editor : m.editor = { s.editor with enabled := false }
  validation : m.validation = s.validation
  revision : m.revision = s.revision
  latest : m.propagation.latestIssued = s.propagation.latestIssued
  overlay : m.propagation.overlay.Alike (s.overlayAfter last)
  deferred : m.propagation.deferred = !(s.correctionsOf last).isEmpty
  counts : ∀ outcome ∈ last, s.counts outcome = true

omit [Surface σ] in
theorem Heard.counts_eq {last : Option Outcome} {m : Session σ} (h : s.Heard last m)
    (outcome : Outcome) : m.counts outcome = s.counts outcome := by
  unfold Session.counts Propagation.isCurrent
  rw [h.latest, h.revision]

/-- Locking leaves what is known as it is. -/
theorem heard_setEnabled (hsettled : s.Settled) (henabled : s.editor.enabled = true)
    (hnone : s.propagation.deferred = false) : s.Heard none (s.setEnabled false) := by
  have hlock : s.editor.setEnabled false = { s.editor with
      enabled := false, draft := ⟨s.graph, [.modificationEnabledChanged false]⟩ } := by
    have hannounced : s.editor.draft.announced = [] := hsettled
    unfold Editor.setEnabled
    rw [henabled, if_neg Bool.noConfusion, hannounced]
    rfl
  have hdraft : s.editor.draft = .start s.graph := by
    have htaken := congrArg (·.2.draft) hsettled.takeEvents_eq
    exact htaken.symm
  unfold setEnabled
  rw [if_neg Bool.false_ne_true, hlock]
  obtain ⟨hpropagation, hvalidation, hrevision⟩ := settle_of_undisturbed (s := { s with
    editor := { s.editor with
      enabled := false, draft := ⟨s.graph, [.modificationEnabledChanged false]⟩ } })
    (fun event hmem => List.mem_singleton.mp hmem ▸ rfl)
  refine ⟨?_, hvalidation, hrevision, ?_, ?_, ?_, fun _ h => nomatch h⟩
  · rw [settle_editor]
    exact congrArg (fun draft => ({ s.editor with enabled := false, draft } : Editor)) hdraft.symm
  · rw [hpropagation]
  · rw [hpropagation]
    exact .refl _
  · rw [hpropagation]
    exact hnone

/-- **An outcome that counts replaces what was known**, and any other is forgotten. -/
theorem Heard.applyOutcome {catalogue : Catalogue} (hrest : s.AtRest catalogue)
    {last : Option Outcome} {m : Session σ} (h : s.Heard last m) (outcome : Outcome) :
    s.Heard ((if m.counts outcome then some outcome else none).or last)
      ((Session.applyOutcome outcome).exec m).2 := by
  have hsettled : m.Settled := by
    unfold Settled
    rw [h.editor]
    exact hrest.settled
  have hlocked : m.editor.enabled = false := by rw [h.editor]
  have hgraph : m.editor.graph = s.graph := by
    rw [h.editor]
    rfl
  have hcatalogue : m.editor.catalogue = s.catalogue := by
    rw [h.editor]
    rfl
  cases hcounts : m.counts outcome with
  | false =>
    obtain ⟨applied, hexec, -⟩ := exec_applyOutcome_of_not_counts hsettled hcounts
    rw [hexec]
    exact ⟨h.editor, h.validation, h.revision, h.latest, h.overlay, h.deferred, h.counts⟩
  | true =>
    obtain ⟨hcurrent, result, hinferred⟩ := counts_iff.mp hcounts
    have hlearned : s.overlayAfter (some outcome) =
        (s.propagation.overlay.apply s.graph s.catalogue result).1 := by
      unfold overlayAfter
      rw [Option.map_some, hinferred]
    have hasked : s.correctionsOf (some outcome) = s.graph.corrections s.catalogue result := by
      unfold correctionsOf
      rw [Option.map_some, hinferred]
    have hwf : s.graph.WellFormed s.catalogue := hrest.sound.graph
    have halike := Overlay.alike_apply hwf m.propagation.overlay s.propagation.overlay result
    have happly := Propagation.apply_inferred hcurrent hinferred m.editor
    rw [hgraph, hcatalogue] at happly
    dsimp only at happly
    -- The editor is left alone, so nothing is handed on.
    obtain ⟨applied, happly⟩ : ∃ applied, m.propagation.apply m.editor outcome m.revision =
        (.ok applied, { m.propagation with
          overlay := (m.propagation.overlay.apply s.graph s.catalogue result).1
          deferred := !(s.graph.corrections s.catalogue result).isEmpty }, m.editor) := by
      by_cases hnone : s.graph.corrections s.catalogue result = []
      · rw [Propagation.correct_of_nil (by rw [hgraph, hcatalogue]; exact hnone)] at happly
        exact ⟨_, happly.trans (by rw [hnone]; rfl)⟩
      · rw [Propagation.correct_of_locked hlocked (by rw [hgraph, hcatalogue]; exact hnone)]
          at happly
        have hwaits : (!(s.graph.corrections s.catalogue result).isEmpty) = true := by
          simpa using hnone
        exact ⟨_, happly.trans (by rw [hwaits]; rfl)⟩
    have hsettle (p : Propagation) := Settled.settle_eq_self
      (s := { m with propagation := p }.dispatch applied.events) hsettled
    rw [exec_applyOutcome happly, hsettle]
    refine ⟨h.editor, h.validation, h.revision, h.latest, hlearned ▸ halike, hasked ▸ rfl, ?_⟩
    rintro _ ⟨⟩
    rw [← h.counts_eq]
    exact hcounts

omit [Surface σ] in
/-- Where the dispatcher goes on, nothing else is known. -/
theorem Heard.collect {last : Option Outcome} {m : Session σ} (h : s.Heard last m)
    (delivery : Delivery) : s.Heard last (m.collect delivery).2 :=
  ⟨h.editor, h.validation, h.revision, h.latest, h.overlay, h.deferred, h.counts⟩

/-- **While outcomes come, what is known is what the last that counted says.** -/
theorem Heard.receive {catalogue : Catalogue} (hrest : s.AtRest catalogue) {last : Option Outcome}
    {m : Session σ} (h : s.Heard last m) (deliveries : List Delivery) :
    s.Heard ((m.lastCounted? deliveries).or last) (m.receive deliveries) := by
  induction deliveries generalizing m last with
  | nil => exact h
  | cons delivery rest ih =>
    have hnext : s.Heard (((m.collect delivery).1.filter m.counts).or last)
        (m.deliver delivery).2 := by
      unfold deliver
      cases hcollect : (m.collect delivery).1 with
      | none => exact h.collect delivery
      | some outcome =>
        have happlied := (h.collect delivery).applyOutcome hrest outcome
        rw [Option.filter_some]
        exact happlied
    have hlast := ih hnext
    rw [lastCounted?, Option.or_assoc]
    exact hlast

/-! ## Once it is unlocked -/

omit [Surface σ] in
/-- **The same pipeline, history, findings and revision, and the same known of schemas**; these are
compared as an overlay compares them, by value and without the signs of zeros. -/
structure Agrees (s s' : Session σ) : Prop where
  graph : s.graph = s'.graph
  history : s.editor.history = s'.editor.history
  overlay : s.propagation.overlay.Alike s'.propagation.overlay
  validation : s.validation = s'.validation
  revision : s.revision = s'.revision

theorem settle_revision (s : Session σ) :
    s.settle.revision =
      if s.editor.draft.announced.any Event.affectsSchema then s.revision + 1 else s.revision := by
  have htraffic := congrArg Traffic.revision s.settle_traffic
  refine htraffic.trans ?_
  split
  · rw [revise_traffic]
    cases s.dispatcher with
    | none => rfl
    | some d => rfl
  · rfl

/-- Handing events on comes to the same, if others that concern no schemas come first. -/
theorem Agrees.settle {told : List Event} (htold : told.any Event.affectsSchema = false)
    (heditor : s.editor = s'.editor.foretell told)
    (hoverlay : s.propagation.overlay.Alike s'.propagation.overlay)
    (hvalidation : s.validation = s'.validation) (hrevision : s.revision = s'.revision) :
    s.settle.Agrees s'.settle := by
  have hgraph : s.graph = s'.graph := (congrArg Editor.graph heditor).trans rfl
  have hcatalogue : s.catalogue = s'.catalogue := (congrArg Editor.catalogue heditor).trans rfl
  have hschema : s.editor.draft.announced.any Event.affectsSchema =
      s'.editor.draft.announced.any Event.affectsSchema := by
    rw [heditor]
    exact (List.any_append).trans (by rw [htold, Bool.false_or])
  have hchecked : s.editor.draft.announced.any Event.affectsValidation =
      s'.editor.draft.announced.any Event.affectsValidation := hschema
  refine ⟨?_, ?_, ?_, ?_, ?_⟩
  · rw [settle_graph, settle_graph, hgraph]
  · rw [settle_editor, settle_editor, heditor]
    rfl
  · rw [settle_propagation, settle_propagation, hschema]
    split
    · rw [s.revise_propagation.1, s'.revise_propagation.1, hgraph]
      exact hoverlay.forgetMissing _
    · exact hoverlay
  · rw [settle_validation, settle_validation, hchecked, hvalidation, hgraph, hcatalogue]
  · rw [settle_revision, settle_revision, hschema, hrevision]

omit [Surface σ] in
/-- Where corrections wait, they are drawn from the attributes that are known. -/
theorem Heard.corrections {catalogue : Catalogue} (hrest : s.AtRest catalogue)
    {last : Option Outcome} {m : Session σ} (h : s.Heard last m)
    (hwaits : m.propagation.deferred = true) :
    s.graph.corrections s.catalogue m.propagation.overlay.inputs = s.correctionsOf last := by
  rw [h.overlay.inputs]
  have hsome := h.deferred.symm.trans hwaits
  unfold correctionsOf overlayAfter at *
  split at hsome
  · exact Graph.corrections_apply hrest.sound.graph _ _
  · cases hsome

omit [Surface σ] in
/-- **What an outcome asks for can be done** on an unlocked session, whatever has been announced
before. -/
theorem exec_correctionsOf {catalogue : Catalogue} (hrest : s.AtRest catalogue)
    (henabled : s.editor.enabled = true) (outcome : Option Outcome) :
    ∃ corrected e,
      (Propagation.replaceAll (s.correctionsOf outcome)).exec s.editor = (.ok corrected, e) ∧
        e.graph = s.graph.rewrite (s.correctionsOf outcome) ∧
        ∀ told, (Propagation.replaceAll (s.correctionsOf outcome)).exec (s.editor.foretell told) =
          (.ok corrected, e.foretell told) := by
  unfold correctionsOf
  split
  · rename_i result _
    obtain ⟨e, hexec, hrewritten, htold⟩ :=
      Propagation.exec_replaceAll_corrections henabled hrest.idle result
    exact ⟨_, e, hexec, hrewritten, htold⟩
  · exact ⟨[], s.editor, rfl, rfl, fun _ => rfl⟩

/-- **Unlocking makes the corrections that the last outcome asks for that counted.** -/
theorem Heard.setEnabled {catalogue : Catalogue} (hrest : s.AtRest catalogue)
    (henabled : s.editor.enabled = true) {last : Option Outcome} {m : Session σ}
    (h : s.Heard last m) {e : Editor} {corrected : List OperatorId}
    (hexec : (Propagation.replaceAll (s.correctionsOf last)).exec s.editor = (.ok corrected, e))
    (htold : (Propagation.replaceAll (s.correctionsOf last)).exec
      (s.editor.foretell [.modificationEnabledChanged true]) =
        (.ok corrected, e.foretell [.modificationEnabledChanged true])) :
    m.setEnabled true = Session.settle { m with
      propagation := { m.propagation with deferred := false }
      editor := e.foretell [.modificationEnabledChanged true] } := by
  have hopen : m.editor.setEnabled true =
      s.editor.foretell [.modificationEnabledChanged true] := by
    have hannounced : s.editor.draft.announced = [] := hrest.settled
    rw [h.editor]
    unfold Editor.setEnabled Editor.foretell
    rw [if_neg Bool.noConfusion, hannounced, ← henabled]
    rfl
  have hunlocked : (s.editor.foretell [.modificationEnabledChanged true]).enabled = true := henabled
  have happly : m.propagation.applyDeferred (s.editor.foretell [.modificationEnabledChanged true]) =
      (.ok (if m.propagation.deferred then corrected else []),
        { m.propagation with deferred := false },
        e.foretell [.modificationEnabledChanged true]) := by
    unfold Propagation.applyDeferred
    rw [hunlocked]
    cases hwaits : m.propagation.deferred with
    | true =>
      have hdocuments : Graph.corrections
          (s.editor.foretell [.modificationEnabledChanged true]).graph
          (s.editor.foretell [.modificationEnabledChanged true]).catalogue
          m.propagation.overlay.inputs = s.correctionsOf last := h.corrections hrest hwaits
      simp only [Bool.not_true, Bool.or_self, Bool.false_eq_true, ↓reduceIte]
      rw [Propagation.correct_of_enabled hunlocked, hdocuments, htold]
    | false =>
      -- Nothing is asked for, so nothing is done.
      have hnone : s.correctionsOf last = [] := by
        have hempty := h.deferred.symm.trans hwaits
        simpa using hempty
      rw [hnone] at hexec
      obtain ⟨-, rfl⟩ := Prod.mk.inj hexec
      have hpropagation : { m.propagation with deferred := false } = m.propagation := by
        rw [← hwaits]
      rw [hpropagation]
      rfl
  unfold Session.setEnabled
  rw [if_pos rfl]
  dsimp only
  rw [hopen, happly]

/-- **An outcome that counts** is learned from, and the corrections it asks for are made. -/
theorem exec_applyOutcome_counts (henabled : s.editor.enabled = true) {outcome : Outcome}
    (hcounts : s.counts outcome = true) {e : Editor} {corrected : List OperatorId}
    (hexec : (Propagation.replaceAll (s.correctionsOf (some outcome))).exec s.editor =
      (.ok corrected, e)) :
    ∃ told, ((Session.applyOutcome outcome).exec s).2 = (Session.dispatch told { s with
      propagation :=
        { s.propagation with overlay := s.overlayAfter (some outcome), deferred := false }
      editor := e }).settle := by
  obtain ⟨hcurrent, result, hinferred⟩ := counts_iff.mp hcounts
  have happly := Propagation.apply_inferred hcurrent hinferred s.editor
  unfold correctionsOf at hexec
  unfold overlayAfter
  rw [Option.map_some, hinferred] at hexec ⊢
  dsimp only at happly hexec
  have hmade : (Propagation.replaceAll
      (s.editor.graph.corrections s.editor.catalogue result)).exec s.editor =
        (.ok corrected, e) := hexec
  rw [Propagation.correct_of_enabled henabled, hmade] at happly
  exact ⟨_, congrArg Prod.snd (exec_applyOutcome happly)⟩

/-- **Corrections that waited for the lock are the right ones.**  However a session has come to be
unlocked, where no bundle changes the lock: it is locked, outcomes come in whatever way, and it is
unlocked.  The lock keeps the pipeline as it is, and then the corrections are made that the last
outcome asks for that counted.  The session agrees with what it would have become by that outcome
alone, taken over without the lock at a moment when it counts; or with what it was, if none
counted. -/
theorem waiting_after (catalogue : Catalogue) (settings : Settings) (clock : Nat → Nat)
    (surface : σ) {calls : List (Call σ)} (hcalls : ∀ call ∈ calls, call.Bundles (· ≠ .lock))
    (henabled : ((start catalogue settings clock surface).after calls).editor.enabled = true)
    (deliveries : List Delivery) :
    let s := (start catalogue settings clock surface).after calls
    let locked := s.setEnabled false
    let last := locked.lastCounted? deliveries
    let opened := (locked.receive deliveries).setEnabled true
    (locked.receive deliveries).graph = s.graph ∧
      opened.graph = s.graph.rewrite (s.correctionsOf last) ∧
      match last with
      | none => opened.Agrees s
      | some outcome => s.counts outcome = true ∧
          opened.Agrees ((Session.applyOutcome outcome).exec s).2 := by
  intro s locked last opened
  have hrest : s.AtRest catalogue := atRest_after catalogue settings clock surface calls
  have hnone : s.propagation.deferred = false := by
    have hdefers : s.DefersLocked :=
      defersLocked_after (fun hwaits => absurd hwaits Bool.false_ne_true) hcalls
    by_contra hwaits
    exact Bool.noConfusion (henabled.symm.trans (hdefers (by simpa using hwaits)))
  have hheard : s.Heard last (locked.receive deliveries) := by
    have hreceive := (heard_setEnabled hrest.settled henabled hnone).receive hrest deliveries
    rwa [Option.or_none] at hreceive
  have hgraph : (locked.receive deliveries).graph = s.graph :=
    (congrArg Editor.graph hheard.editor).trans rfl
  obtain ⟨corrected, e, hexec, hrewritten, htold⟩ := exec_correctionsOf hrest henabled last
  have hopened := hheard.setEnabled hrest henabled hexec (htold _)
  refine ⟨hgraph, ?_, ?_⟩
  · show ((locked.receive deliveries).setEnabled true).graph = _
    rw [hopened, settle_graph]
    exact hrewritten
  · -- On both sides the same is handed on, but that it is told that the lock is gone.
    have hagrees {s' : Session σ} (heditor : s'.editor = e)
        (hoverlay : s'.propagation.overlay = s.overlayAfter last)
        (hvalidation : s'.validation = s.validation) (hrevision : s'.revision = s.revision) :
        opened.Agrees s'.settle := by
      show ((locked.receive deliveries).setEnabled true).Agrees s'.settle
      rw [hopened]
      have htold : [Event.modificationEnabledChanged true].any Event.affectsSchema = false := rfl
      refine .settle htold ?_ ?_ ?_ ?_
      · rw [heditor]
      · rw [hoverlay]
        exact hheard.overlay
      · rw [hvalidation]
        exact hheard.validation
      · rw [hrevision]
        exact hheard.revision
    cases hlast : last with
    | none =>
      rw [hlast] at hexec hagrees
      obtain ⟨-, rfl⟩ := Prod.mk.inj hexec
      have hsettle : opened.Agrees s.settle := hagrees rfl rfl rfl rfl
      rwa [Settled.settle_eq_self hrest.settled] at hsettle
    | some outcome =>
      rw [hlast] at hexec hagrees
      have hcounts : s.counts outcome = true := hheard.counts outcome hlast
      obtain ⟨told, happlied⟩ := exec_applyOutcome_counts henabled hcounts hexec
      refine ⟨hcounts, ?_⟩
      rw [happlied]
      exact hagrees rfl rfl rfl rfl

/-- A filter names an attribute that is lost.  While the pipeline is locked, the answer comes that
tells so, and then a failure; once it is unlocked, the filter names no attribute any more, as by the
answer alone. -/
theorem waiting_after_lost :
    let schema : Json := .object [("properties", .object [("attribute",
      .object [("autofill", .string "attributeName")])])]
    let filter : Operator :=
      ⟨"f", "Filter", "1", .object [("attribute", .string "lost")], [⟨"input-0", ""⟩], [], false⟩
    let calls : List (Call Blank) := [.act (.addOperator filter .origin), .buildRequest]
    let answer : Outcome := ⟨1, 1, .ok ⟨0, .ofList [("f", [some [⟨"kept", "string"⟩]])], none⟩⟩
    let failure : Outcome := ⟨1, 1, .error "gone"⟩
    let s := (start (.ofMetadata ⟨[⟨"Filter", schema, ⟨"Filter", none, "Filter", 1, 0⟩, "1"⟩], []⟩)
      .initial id Blank.mk).after calls
    let opened := ((s.setEnabled false).receive [.handed answer, .handed failure]).setEnabled true
    (∀ call ∈ calls, call.Bundles (· ≠ .lock)) ∧ s.editor.enabled = true ∧
      opened.graph = s.graph.rewrite [("f", .object [])] ∧
      opened.Agrees ((Session.applyOutcome answer).exec s).2 := by
  intro schema filter calls answer failure s opened
  have hcalls : ∀ call ∈ calls, call.Bundles (· ≠ .lock) := by
    intro call hmem
    rcases List.mem_cons.mp hmem with rfl | hmem
    · trivial
    · rw [List.mem_singleton.mp hmem]
      trivial
  have henabled : s.editor.enabled = true := by decide +kernel
  have hasked : s.correctionsOf (some answer) = [("f", .object [])] := by decide +kernel
  have hlast : (s.setEnabled false).lastCounted? [.handed answer, .handed failure] =
      some answer := by
    have hcounts : (s.setEnabled false).counts answer = true := by decide +kernel
    have hfailed : ((s.setEnabled false).deliver (.handed answer)).2.counts failure = false := by
      decide +kernel
    show ((none : Option Outcome).or (Option.filter _ (some failure))).or
      (Option.filter _ (some answer)) = _
    rw [Option.filter_some, Option.filter_some, hcounts, hfailed]
    rfl
  have hwaited := waiting_after _ _ _ _ hcalls henabled [.handed answer, .handed failure]
  have hgraph : opened.graph = s.graph.rewrite [("f", .object [])] := by
    rw [← hasked, ← hlast]
    exact hwaited.2.1
  dsimp only at hwaited
  split at hwaited
  · rename_i hnone
    cases hlast.symm.trans hnone
  · rename_i outcome hsome
    obtain rfl : answer = outcome := Option.some.inj (hlast.symm.trans hsome)
    exact ⟨hcalls, henabled, hgraph, hwaited.2.2.2⟩

end Session

end PipelineEditor
