import PipelineEditor.Proofs.Answer
import PipelineEditor.Proofs.Once
import PipelineEditor.Proofs.Refusal

/-!
# Locked pipelines are frozen

Each call to the editor asks for the lock by itself, and bundles, gestures, answers and loading ask
for it only through the calls they make.  Still nothing reaches a locked pipeline: the editor stays
as it is under all calls that do not unlock it.  What the lock costs is seen by making the same call
on the same session with the lock taken away: if it would have changed something there, it is
refused because of the lock, or it takes over an answer and leaves the corrections for later.

## Main definitions

* `Script calls`: edits, bundles and replays one after the other, whose errors are passed on
* `Session.Call.cause?`: the error that a call answers with, if it fails
* `Session.unlocked s`: the session as it is, with the lock taken away
* `Session.LockBound call`: the lock is all that keeps the call from what it does without it

## Main results

* `Script.exec_locked`: a script is refused because of the lock, or the lock makes no difference
* `Propagation.apply_locked`: the lock makes no difference to an answer, or its corrections wait
* `Session.frozen_after`: locked pipelines stay as they are, and what the lock keeps out is told
-/

namespace PipelineEditor

open Attempt (Keeps)
open Editor (MayReplay)

/-! ## Scripts -/

/-- **The attempt is a script**: edits, bundles and replays one after the other.  It may look at the
editor in between, but not at the lock, and it passes on the errors of its parts. -/
inductive Script : {α : Type} → Attempt Editor α → Prop
  | pure {α : Type} (value : α) : Script (pure value)
  | throw {α : Type} (cause : EditError) : Script (throw cause : Attempt Editor α)
  | read {α : Type} {next : Editor → Attempt Editor α} (h : ∀ e, Script (next e))
      (hblind : ∀ e enabled, next { e with enabled } = next e) : Script (get >>= next)
  | bind {α β : Type} {first : Attempt Editor α} {next : α → Attempt Editor β}
      (h : Script first) (hnext : ∀ value, Script (next value)) : Script (first >>= next)
  | act (action : Action) : Script action.perform
  | bundle {α : Type} {calls : Attempt Editor α} (h : Script calls) : Script (Editor.bundle calls)
  | undo : Script Editor.undo
  | redo : Script Editor.redo

/-- The editor as it is, with the lock taken away. -/
def Editor.unlocked (e : Editor) : Editor := { e with enabled := true }

namespace Script

variable {α : Type} {calls : Attempt Editor α}

theorem program (h : Script calls) : Program MayReplay calls := by
  induction h with
  | pure value => exact .pure value
  | throw cause => exact .throw cause
  | read _ _ ih => exact .read ih
  | bind _ _ ih ihnext => exact .bind ih ihnext
  | act action => exact .act action
  | bundle _ ih => exact .bundle ih
  | undo => exact .undo (.inl rfl)
  | redo => exact .redo (.inr rfl)

theorem forM {items : List α} {step : α → Attempt Editor PUnit} (h : ∀ item, Script (step item)) :
    Script (items.forM step) := by
  induction items with
  | nil => exact .pure _
  | cons item rest ih => exact .bind (h item) fun _ => ih

/-- On a locked pipeline a script leaves the editor as it is. -/
theorem exec_eq (h : Script calls) {e : Editor} (hlocked : e.enabled = false) :
    calls.exec e = ((calls.exec e).1, e) :=
  Prod.ext rfl (h.program.exec_locked (by simp [MayReplay]) (by simp [MayReplay]) hlocked)

/-- **On a locked pipeline a script is refused because of the lock, or the lock makes no
difference** to it. -/
theorem exec_locked (h : Script calls) {e : Editor} (hlocked : e.enabled = false) :
    (calls.exec e).1 = .error .locked ∨
      calls.exec e.unlocked = ((calls.exec e).1, e.unlocked) := by
  induction h generalizing e with
  | pure value => exact .inr rfl
  | throw cause => exact .inr rfl
  | @read _ next _ hblind ih =>
    have hsame : next e.unlocked = next e := hblind e true
    rw [Attempt.exec_get_bind, Attempt.exec_get_bind, hsame]
    exact ih e hlocked
  | @bind _ _ first next h hnext ih ihnext =>
    have hexec := h.exec_eq hlocked
    rcases ih hlocked with hfirst | hfirst
    · rw [hfirst] at hexec
      exact .inl (congrArg Prod.fst (Attempt.exec_bind_error hexec))
    · rcases hresult : (first.exec e).1 with cause | value <;> rw [hresult] at hfirst hexec
      · rw [Attempt.exec_bind_error hexec, Attempt.exec_bind_error hfirst]
        exact .inr rfl
      · rw [Attempt.exec_bind_ok hexec, Attempt.exec_bind_ok hfirst]
        exact ihnext value hlocked
  | act action => exact .inl (congrArg Prod.fst (action.exec_locked hlocked))
  | @bundle _ calls h ih =>
    cases hbundled : e.bundled with
    | some changes =>
      have hbundled' : e.unlocked.bundled = some changes := hbundled
      rw [Editor.exec_bundle_some hbundled, Editor.exec_bundle_some hbundled']
      exact ih hlocked
    | none =>
      -- The bundle is opened and closed again around calls that do nothing.
      have hbundled' : e.unlocked.bundled = none := hbundled
      have hinside := h.exec_eq (e := { e with bundled := some [] }) hlocked
      have hboth := ih (e := { e with bundled := some [] }) hlocked
      rw [Editor.exec_bundle_none hbundled, Editor.exec_bundle_none hbundled', hinside]
      rcases hboth with hrefused | hsame
      · rw [hrefused]
        exact .inl rfl
      · have hcalls : calls.exec { e.unlocked with bundled := some [] } =
            ((calls.exec { e with bundled := some [] }).1,
              { e.unlocked with bundled := some [] }) := hsame
        rw [hcalls]
        obtain ⟨catalogue, draft, history, enabled, bundled⟩ := e
        cases hbundled
        rcases (calls.exec _).1 with cause | value
        · exact .inr rfl
        · exact .inr rfl
  | undo | redo => exact .inl (congrArg Prod.fst (Timeline.exec_replay_locked hlocked))

end Script

theorem Intent.script_performAll (intents : List Intent) : Script (performAll intents) := by
  have hone (intent : Intent) : Script intent.perform := by
    obtain ⟨action, heq⟩ := intent.exists_action
    exact heq ▸ .act action
  unfold performAll
  split
  · exact .pure ()
  · exact hone _
  · exact .bundle (.forM hone)

/-- **A gesture on a locked pipeline** leaves the editor as it is, and is refused because of the
lock, or the lock makes no difference to it. -/
theorem Bridge.forward_locked (bridge : Bridge) {e : Editor} (hlocked : e.enabled = false)
    (gesture : Gesture) : ∃ result bridge', bridge.forward e gesture = (result, bridge', e) ∧
      (result = .error .locked ∨
        bridge.forward e.unlocked gesture = (result, bridge', e.unlocked)) := by
  have hscript := Intent.script_performAll (bridge.lift e.graph gesture).1
  have hexec := hscript.exec_eq hlocked
  have hboth := hscript.exec_locked hlocked
  have hgraph : e.unlocked.graph = e.graph := rfl
  unfold forward
  rw [hgraph]
  dsimp only
  rcases hresult : ((Intent.performAll (bridge.lift e.graph gesture).1).exec e).1 with
    cause | ⟨⟩ <;>
    rw [hresult] at hexec hboth <;> rw [hexec]
  · refine ⟨_, _, rfl, ?_⟩
    rcases hboth with hrefused | hsame
    · exact .inl (Except.error.inj hrefused ▸ rfl)
    · rw [hsame]
      exact .inr rfl
  · refine ⟨_, _, rfl, ?_⟩
    rcases hboth with hrefused | hsame
    · cases hrefused
    · rw [hsame]
      exact .inr rfl

/-- A bundle is refused because of the lock if what is bundled is. -/
theorem Editor.exec_bundle_locked {α : Type} {calls : Attempt Editor α}
    (h : ∀ e : Editor, e.enabled = false → calls.exec e = (.error .locked, e)) {e : Editor}
    (hlocked : e.enabled = false) : (bundle calls).exec e = (.error .locked, e) := by
  cases hbundled : e.bundled with
  | some changes =>
    rw [exec_bundle_some hbundled]
    exact h e hlocked
  | none => exact exec_bundle_error hbundled (h _ hlocked)

/-! ## Answers -/

/-- **On a locked pipeline an answer is taken over without touching the editor**, and the lock makes
no difference, or there are corrections, which wait. -/
theorem Propagation.apply_locked (p : Propagation) {e : Editor} (hlocked : e.enabled = false)
    (outcome : Outcome) (revision : Nat) :
    ∃ applied p', p.apply e outcome revision = (.ok applied, p', e) ∧
      (p.apply e.unlocked outcome revision = (.ok applied, p', e.unlocked) ∨
        p'.deferred = true ∧ p.latestIssued = some outcome.sequence) := by
  rcases hcurrent : p.isCurrent outcome.sequence outcome.revision revision with _ | _
  · exact ⟨_, _, apply_stale hcurrent e, .inl (apply_stale hcurrent _)⟩
  · have hlatest : p.latestIssued = some outcome.sequence := by
      simpa using (Bool.and_eq_true_iff.mp hcurrent).1
    rcases hinferred : outcome.inferred with cause | result
    · exact ⟨_, _, apply_failed hcurrent hinferred e, .inl (apply_failed hcurrent hinferred _)⟩
    · rw [apply_inferred hcurrent hinferred, apply_inferred hcurrent hinferred]
      by_cases hnone : e.graph.corrections e.catalogue result = []
      · have hnone' : e.unlocked.graph.corrections e.unlocked.catalogue result = [] := hnone
        simp only [correct_of_nil hnone, correct_of_nil hnone']
        exact ⟨_, _, rfl, .inl rfl⟩
      · simp only [correct_of_locked hlocked hnone]
        exact ⟨_, _, rfl, .inr ⟨rfl, hlatest⟩⟩

/-! ## Errors of calls -/

/-- The error that is answered, if there is one. -/
def EditError.of? {α : Type} : Except EditError α → Option EditError
  | .ok _ => none
  | .error cause => some cause

namespace Session

variable {σ α β : Type} [Surface σ] {s : Session σ}

/-- **The error that a call answers with**, if it fails. -/
def Call.cause? (s : Session σ) : Call σ → Option EditError
  | act action => EditError.of? ((run action.perform).exec s).1
  | bundle calls _ => EditError.of? ((Session.bundle calls).exec s).1
  | undo => EditError.of? (Session.undo.exec s).1
  | redo => EditError.of? (Session.redo.exec s).1
  | load content => EditError.of? ((Session.load content).exec s).1
  | handleGesture gesture => EditError.of? ((Session.handleGesture gesture).exec s).1
  | processGestures => EditError.of? (Session.processGestures.exec s).1
  | next service patience => EditError.of? (s.next service patience).1
  | pump => EditError.of? (Session.pump.exec s).1
  | applyOutcome outcome => EditError.of? ((Session.applyOutcome outcome).exec s).1
  | _ => none

omit [Surface σ] in
/-- The call does not unlock the pipeline, nor do the calls that it bundles. -/
def Call.StaysLocked : Call σ → Prop
  | setEnabled enabled => enabled = false
  | bundle calls _ => Program MayReplay calls
  | _ => True

omit [Surface σ] in
/-- The call, if it is a bundle, is one that passes on the errors of its calls. -/
def Call.PassesErrorsOn : Call σ → Prop
  | bundle calls _ => Script calls
  | _ => True

omit [Surface σ] in
/-- The call takes over what came back for requests. -/
def Call.Delivers : Call σ → Prop
  | next .. | pump | applyOutcome _ => True
  | _ => False

/-! ## Locked sessions -/

omit [Surface σ] in
/-- **The session as it is, with the lock taken away.** -/
def unlocked (s : Session σ) : Session σ := { s with editor := s.editor.unlocked }

omit [Surface σ] in
/-- What comes back has nothing to do with the lock. -/
theorem takeOutcome?_unlocked (s : Session σ) :
    s.unlocked.takeOutcome? = s.takeOutcome?.map fun taken => (taken.1, taken.2.unlocked) := by
  unfold takeOutcome?
  rw [show s.unlocked.dispatcher = s.dispatcher from rfl]
  cases s.dispatcher with
  | none => rfl
  | some d =>
    simp only [Option.bind_eq_bind, Option.bind_some]
    cases d.take? with
    | none => rfl
    | some taken => rfl

omit [Surface σ] in
/-- The pipeline is locked, and no events wait to be handed on. -/
structure Locked (s : Session σ) : Prop where
  lock : s.editor.enabled = false
  settled : s.Settled

omit [Surface σ] in
theorem Locked.congr {s' : Session σ} (h : s.Locked) (heditor : s'.editor = s.editor) :
    s'.Locked := by
  refine ⟨heditor ▸ h.lock, ?_⟩
  unfold Settled
  rw [heditor]
  exact h.settled

/-- **The lock is all that stops the call**: on a locked session it leaves the editor alone, and
either it is refused because of the lock, or it does just the same on the unlocked session. -/
def LockBound (call : Attempt (Session σ) α) : Prop :=
  ∀ s, s.Locked → (call.exec s).2.editor = s.editor ∧
    ((call.exec s).1 = .error .locked ∨
      call.exec s.unlocked = ((call.exec s).1, (call.exec s).2.unlocked))

namespace LockBound

omit [Surface σ] in
theorem pure (value : α) : LockBound (σ := σ) (pure value) := fun _ _ => ⟨rfl, .inr rfl⟩

omit [Surface σ] in
theorem bind {call : Attempt (Session σ) α} {next : α → Attempt (Session σ) β}
    (h : LockBound call) (hnext : ∀ value, LockBound (next value)) : LockBound (call >>= next) := by
  intro s hs
  obtain ⟨heditor, hresult⟩ := h s hs
  rcases hexec : call.exec s with ⟨cause | value, s'⟩ <;> rw [hexec] at heditor hresult
  · rw [Attempt.exec_bind_error hexec]
    refine ⟨heditor, ?_⟩
    rcases hresult with hrefused | hsame
    · exact .inl (Except.error.inj hrefused ▸ rfl)
    · exact .inr (Attempt.exec_bind_error hsame)
  · rw [Attempt.exec_bind_ok hexec]
    rcases hresult with hrefused | hsame
    · cases hrefused
    · obtain ⟨heditor', hresult'⟩ := hnext value s' (hs.congr heditor)
      rw [Attempt.exec_bind_ok hsame]
      exact ⟨heditor'.trans heditor, hresult'⟩

/-- A script is run on the editor, and there is nothing to hand on. -/
theorem run {call : Attempt Editor α} (h : Script call) : LockBound (σ := σ) (run call) := by
  intro s hs
  have hexec : (Session.run call).exec s = ((call.exec s.editor).1, s) := by
    unfold Session.run onEditor
    rw [Attempt.exec_of, Attempt.exec_of, h.exec_eq hs.lock]
    exact Prod.ext rfl hs.settled.settle_eq_self
  rw [hexec]
  refine ⟨rfl, ?_⟩
  rcases h.exec_locked hs.lock with hrefused | hsame
  · exact .inl hrefused
  · right
    have hsettled : s.unlocked.Settled := hs.settled
    unfold Session.run onEditor
    rw [Attempt.exec_of, Attempt.exec_of]
    have hcall : call.exec s.unlocked.editor = ((call.exec s.editor).1, s.unlocked.editor) := hsame
    rw [hcall]
    exact Prod.ext rfl hsettled.settle_eq_self

theorem handleGesture (gesture : Gesture) :
    LockBound (Session.handleGesture gesture : Attempt (Session σ) Nat) := by
  intro s hs
  obtain ⟨result, bridge, hforward, hboth⟩ := s.view.bridge.forward_locked hs.lock gesture
  have hexec (s : Session σ) (hs : s.Settled)
      (hforward : s.view.bridge.forward s.editor gesture = (result, bridge, s.editor)) :
      (Session.handleGesture gesture).exec s =
        (result, { s with view := { s.view with bridge } }) := by
    have hafter : s.forward gesture = (result, { s with view := { s.view with bridge } }) := by
      unfold Session.forward
      rw [hforward]
    unfold Session.handleGesture
    rw [Attempt.exec_of, hafter]
    exact Prod.ext rfl (Settled.settle_eq_self (s := { s with view := { s.view with bridge } }) hs)
  rw [hexec s hs.settled hforward]
  exact ⟨rfl, hboth.imp id fun hsame => hexec s.unlocked hs.settled hsame⟩

theorem handleAll (gestures : List Gesture) :
    LockBound (Session.handleAll gestures : Attempt (Session σ) Nat) := by
  have hfold (count : Nat) : LockBound (gestures.foldlM (fun count gesture => do
      return count + (← Session.handleGesture gesture)) count : Attempt (Session σ) Nat) := by
    induction gestures generalizing count with
    | nil => exact pure count
    | cons gesture rest ih =>
      rw [List.foldlM_cons]
      exact bind (bind (handleGesture gesture) fun _ => pure _) fun count => ih count
  exact hfold 0

theorem processGestures : LockBound (Session.processGestures : Attempt (Session σ) Nat) := by
  refine bind (fun s _ => ⟨rfl, .inr rfl⟩) fun gestures => handleAll gestures

/-- A replay is refused because of the lock. -/
theorem replay {call : Attempt Editor Bool}
    (h : ∀ e : Editor, e.enabled = false → call.exec e = (.error .locked, e)) :
    LockBound (Session.replay call : Attempt (Session σ) Bool) := by
  intro s hs
  have hcall := h s.editor hs.lock
  refine ⟨?_, .inl ?_⟩
  · rw [replay_editor, hcall]
    exact congrArg Prod.snd hs.settled.takeEvents_eq
  · rw [exec_replay, hcall]

/-- Loading is refused because of the lock, even if there is nothing to take away or add. -/
theorem load (content : Content) : LockBound (Session.load content : Attempt (Session σ) Unit) := by
  have hload (e : Editor) (hlocked : e.enabled = false) :
      (do replaceBy content content.breakpoints.toList; modify Editor.clearHistory :
        Attempt Editor Unit).exec e = (.error .locked, e) := by
    have hreplace : (replaceBy content content.breakpoints.toList).exec e = (.error .locked, e) := by
      refine Editor.exec_bundle_locked (fun e hlocked => ?_) hlocked
      -- The first of the calls takes all operators away, and asks for the lock whatever they are.
      rw [Attempt.exec_get_bind]
      exact Attempt.exec_bind_error ((Action.deleteAll _ []).exec_locked hlocked)
    exact Attempt.exec_bind_error hreplace
  intro s hs
  have hcall := hload s.editor hs.lock
  unfold Session.load Session.loadInOrder Session.run onEditor
  rw [Attempt.exec_of, Attempt.exec_of, hcall]
  exact ⟨congrArg Session.editor hs.settled.settle_eq_self, .inl rfl⟩

end LockBound

/-! ## Deliveries -/

/-- **On a locked pipeline an answer is taken over without touching the editor or the traffic**, and
the lock makes no difference, or there are corrections, which wait. -/
theorem exec_applyOutcome_locked (h : s.Locked) (outcome : Outcome) :
    ∃ applied s', (applyOutcome outcome).exec s = (.ok applied, s') ∧ s'.editor = s.editor ∧
      s'.traffic = s.traffic ∧
      ((applyOutcome outcome).exec s.unlocked = (.ok applied, s'.unlocked) ∨
        s'.propagation.deferred = true ∧
          s.propagation.latestIssued = some outcome.sequence) := by
  obtain ⟨applied, p, happly, hboth⟩ := s.propagation.apply_locked h.lock outcome s.revision
  obtain ⟨overlay, deferred, hlearned⟩ :=
    s.propagation.apply_propagation s.editor outcome s.revision
  rw [happly] at hlearned
  dsimp only at hlearned
  have hsettle (s : Session σ) (hs : s.Settled) :
      ({ s with propagation := p, editor := s.editor }.dispatch applied.events).settle =
        { s with propagation := p, editor := s.editor }.dispatch applied.events :=
    Settled.settle_eq_self
      (s := { s with propagation := p, editor := s.editor }.dispatch applied.events) hs
  refine ⟨applied, { s with propagation := p, editor := s.editor }.dispatch applied.events, ?_, rfl,
    ?_, ?_⟩
  · rw [exec_applyOutcome happly, hsettle s h.settled]
  · unfold traffic dispatch publish project
    rw [hlearned]
  · refine hboth.imp (fun hsame => ?_) fun hwaits => ⟨hwaits.1, hwaits.2⟩
    have hunlocked : s.unlocked.propagation.apply s.unlocked.editor outcome s.unlocked.revision =
      (.ok applied, p, s.unlocked.editor) := hsame
    rw [exec_applyOutcome hunlocked, hsettle s.unlocked h.settled]
    rfl

/-- **Corrections wait on while answers to older requests are pumped.** -/
theorem exec_pumpUpTo_deferred (bound : Nat) (h : s.Locked)
    (hdeferred : s.propagation.deferred = true)
    (hold : ∀ d ∈ s.dispatcher, ∀ outcome ∈ d.outcomes,
      s.propagation.latestIssued ≠ some outcome.sequence) :
    ∃ count s', (pumpUpTo bound).exec s = (.ok count, s') ∧ s'.editor = s.editor ∧
      s'.propagation.deferred = true := by
  induction bound generalizing s with
  | zero => exact ⟨0, s, rfl, rfl, hdeferred⟩
  | succ bound ih =>
    unfold pumpUpTo
    rw [Attempt.exec_get_bind]
    cases htake : s.takeOutcome? with
    | none => exact ⟨0, s, rfl, rfl, hdeferred⟩
    | some taken =>
      obtain ⟨outcome, first⟩ := taken
      obtain ⟨d, left, hdispatcher, hfirst, rfl⟩ := takeOutcome?_eq_some htake
      obtain ⟨rest, houtcomes, hleft⟩ := Dispatcher.take?_eq_some hfirst
      have hall := hold d hdispatcher
      rw [houtcomes] at hall
      -- An answer to an older request is dropped before anything could be corrected.
      have hstale :
          s.propagation.isCurrent outcome.sequence outcome.revision s.revision = false := by
        simp [Propagation.isCurrent, hall outcome List.mem_cons_self]
      have happly : (applyOutcome outcome).exec { s with dispatcher := some left } =
          (.ok ⟨true, [], []⟩, { s with dispatcher := some left }.dispatch []) := by
        rw [exec_applyOutcome (s := { s with dispatcher := some left })
          (Propagation.apply_stale hstale s.editor)]
        exact Prod.ext rfl (Settled.settle_eq_self
          (s := { s with dispatcher := some left }.dispatch []) h.settled)
      obtain ⟨count, last, hpump, heditor, hdeferred'⟩ :=
        ih (s := { s with dispatcher := some left }.dispatch []) ⟨h.lock, h.settled⟩ hdeferred (by
          rintro _ ⟨⟩ other hmem
          rw [hleft] at hmem
          exact hall other (List.mem_cons_of_mem _ hmem))
      refine ⟨count + 1, last, ?_, heditor, hdeferred'⟩
      dsimp only
      rw [Attempt.exec_set_bind, Attempt.exec_bind_ok happly, Attempt.exec_bind_ok hpump]
      rfl

/-- **Pumping on a locked pipeline** leaves the editor as it is, and the lock makes no difference,
or there are corrections, which wait: of the answers that come, only one counts. -/
theorem exec_pumpUpTo_locked (bound : Nat) (h : s.Locked) (honce : s.Once) :
    ∃ count s', (pumpUpTo bound).exec s = (.ok count, s') ∧ s'.editor = s.editor ∧
      ((pumpUpTo bound).exec s.unlocked = (.ok count, s'.unlocked) ∨
        s'.propagation.deferred = true) := by
  -- Both sessions go on alike, until corrections wait; then no later answer counts.
  induction bound generalizing s with
  | zero => exact ⟨0, s, rfl, rfl, .inl rfl⟩
  | succ bound ih =>
    unfold pumpUpTo
    rw [Attempt.exec_get_bind, Attempt.exec_get_bind]
    cases htake : s.takeOutcome? with
    | none =>
      rw [takeOutcome?_unlocked, htake]
      exact ⟨0, s, rfl, rfl, .inl rfl⟩
    | some taken =>
      obtain ⟨outcome, first⟩ := taken
      have honce' : first.Once := once_taken htake honce
      have htake' := s.takeOutcome?_unlocked
      rw [htake] at htake'
      obtain ⟨d, left, hdispatcher, hfirst, rfl⟩ := takeOutcome?_eq_some htake
      have hlocked : Locked { s with dispatcher := some left } := ⟨h.lock, h.settled⟩
      obtain ⟨applied, second, happly, heditor, htraffic, hboth⟩ :=
        exec_applyOutcome_locked hlocked outcome
      have hsecond : second.Locked := hlocked.congr heditor
      rw [htake']
      dsimp only [Option.map_some]
      rw [Attempt.exec_set_bind, Attempt.exec_set_bind, Attempt.exec_bind_ok happly]
      rcases hboth with hsame | ⟨hdeferred, hlatest⟩
      · obtain ⟨count, last, hpump, heditor', hrest⟩ := ih hsecond (honce'.congr htraffic)
        rw [Attempt.exec_bind_ok hsame, Attempt.exec_bind_ok hpump]
        refine ⟨count + 1, last, rfl, heditor'.trans heditor, hrest.imp (fun hpump' => ?_) id⟩
        rw [Attempt.exec_bind_ok hpump']
        rfl
      · -- The number of the answer that counted is on its way no more.
        obtain ⟨-, hlatest', hdispatcher', -⟩ := Traffic.mk.inj htraffic
        have hgone : left.copies outcome.sequence = 0 := by
          have hlt := (Dispatcher.copies_take? hfirst).2
          have hone := honce d hdispatcher outcome.sequence
          split at hone <;> omega
        obtain ⟨count, last, hpump, heditor', hwaits⟩ :=
          exec_pumpUpTo_deferred bound hsecond hdeferred (by
            rw [hdispatcher', hlatest', hlatest]
            rintro _ ⟨⟩ other hmem heq
            have hzero : left.outcomes.countP (·.sequence = outcome.sequence) = 0 := by
              unfold Dispatcher.copies at hgone
              omega
            have hnone := List.countP_eq_zero.mp hzero other hmem
            simp [(Option.some.inj heq).symm] at hnone)
        rw [Attempt.exec_bind_ok hpump]
        exact ⟨count + 1, last, rfl, heditor'.trans heditor, .inr hwaits⟩

/-- **Waiting for an answer on a locked pipeline** leaves the editor as it is, and the lock makes no
difference, or there are corrections, which wait. -/
theorem next_locked (h : s.Locked) (service : Service) (patience : Nat) :
    ∃ awaited s' service', s.next service patience = (.ok awaited, s', service') ∧
      s'.editor = s.editor ∧
      (s.unlocked.next service patience = (.ok awaited, s'.unlocked, service') ∨
        s'.propagation.deferred = true) := by
  unfold next
  rw [show s.unlocked.dispatcher = s.dispatcher from rfl]
  cases s.dispatcher with
  | none => exact ⟨_, _, _, rfl, rfl, .inl rfl⟩
  | some d =>
    dsimp only
    rcases d.await service patience with ⟨_ | outcome, left, service'⟩
    · exact ⟨_, _, _, rfl, rfl, .inl rfl⟩
    · obtain ⟨applied, s', happly, heditor, -, hboth⟩ :=
        exec_applyOutcome_locked (s := { s with dispatcher := some left }) ⟨h.lock, h.settled⟩
          outcome
      dsimp only
      rw [happly]
      refine ⟨_, _, _, rfl, heditor, hboth.imp (fun hsame => ?_) And.left⟩
      have hunlocked : (applyOutcome outcome).exec { s.unlocked with dispatcher := some left } =
        (.ok applied, s'.unlocked) := hsame
      rw [hunlocked]
      rfl

/-! ## Calls -/

omit [Surface σ] in
/-- Pipeline and history are parts of the editor. -/
theorem untouched_of_editor_eq {s' : Session σ} (heditor : s'.editor = s.editor) :
    s.Untouched s' :=
  ⟨congrArg Editor.graph heditor, congrArg Editor.history heditor⟩

omit [Surface σ] in
/-- The call has nothing to do with the editor. -/
def Call.LeavesEditor : Call σ → Prop
  | useSurface _ | redraw | highlight _ | unhighlight _ | buildRequest | attach | connect
  | advance .. => True
  | _ => False

theorem Call.editor_of_leavesEditor (s : Session σ) {call : Call σ} (h : call.LeavesEditor) :
    (call.exec s).editor = s.editor := by
  cases call with
  | useSurface | redraw | buildRequest => rfl
  | highlight ids =>
    show (s.highlight ids).editor = s.editor
    rcases highlight_cases ids s with heq | heq <;> rw [heq]
    rfl
  | unhighlight ids =>
    show (s.unhighlight ids).editor = s.editor
    rcases unhighlight_cases ids s with heq | heq <;> rw [heq]
    rfl
  | attach => exact schedule_editor _
  | connect =>
    show s.connect.2.editor = s.editor
    rcases connect_cases s with heq | heq <;> rw [heq]
    exact schedule_editor _
  | advance service duration =>
    show (s.advance service duration).1.editor = s.editor
    rcases advance_cases service duration s with heq | ⟨d, -, heq⟩ <;> rw [heq]
  | _ => exact h.elim

omit [Surface σ] in
/-- What the lock is all that stops from changing pipeline or history, it stops. -/
theorem LockBound.refused {call : Attempt (Session σ) α} (hcall : LockBound call) (h : s.Locked)
    (hchanges : ¬ s.unlocked.Untouched (call.exec s.unlocked).2) :
    (call.exec s).1 = .error .locked := by
  obtain ⟨heditor, hboth⟩ := hcall s h
  refine hboth.resolve_right fun hsame => hchanges ?_
  rw [hsame]
  exact untouched_of_editor_eq (congrArg Editor.unlocked heditor)

/-- **A call that does not unlock the pipeline leaves the editor as it is.** -/
theorem Call.editor_of_locked (h : s.Locked) (honce : s.Once) {call : Call σ}
    (hstays : call.StaysLocked) : (call.exec s).editor = s.editor := by
  cases call with
  | act action => exact (LockBound.run (.act action) s h).1
  | bundle calls _ =>
    have hbundle : Program MayReplay (Editor.bundle calls) := .bundle hstays
    -- Replays may stand in the bundle: they ask for the lock as actions do.
    have hnothing := hbundle.exec_locked (by simp [MayReplay]) (by simp [MayReplay]) h.lock
    have heditor : ((Session.bundle calls).exec s).2.editor =
      ((Editor.bundle calls).exec s.editor).2.takeEvents.2 := settle_editor _
    refine heditor.trans ?_
    rw [hnothing, h.settled.takeEvents_eq]
  | undo => exact (LockBound.replay (fun _ => Timeline.exec_replay_locked) s h).1
  | redo => exact (LockBound.replay (fun _ => Timeline.exec_replay_locked) s h).1
  | load content => exact (LockBound.load content s h).1
  | setEnabled enabled =>
    obtain rfl : enabled = false := hstays
    show (settle _).editor = s.editor
    rw [settle_editor, Editor.setEnabled, if_pos h.lock, h.settled.takeEvents_eq]
  | handleGesture gesture => exact (LockBound.handleGesture gesture s h).1
  | processGestures => exact (LockBound.processGestures s h).1
  | next service patience =>
    obtain ⟨awaited, s', service', hnext, heditor, -⟩ := next_locked h service patience
    show (s.next service patience).2.1.editor = s.editor
    rw [hnext]
    exact heditor
  | pump =>
    obtain ⟨count, s', hpump, heditor, -⟩ := exec_pumpUpTo_locked _ h honce
    show (Session.pump.exec s).2.editor = s.editor
    unfold Session.pump
    rw [Attempt.exec_get_bind, hpump]
    exact heditor
  | applyOutcome outcome =>
    obtain ⟨applied, s', happly, heditor, -⟩ := exec_applyOutcome_locked h outcome
    show ((Session.applyOutcome outcome).exec s).2.editor = s.editor
    rw [happly]
    exact heditor
  -- All other calls leave the editor alone, locked or not.
  | _ => exact Call.editor_of_leavesEditor s trivial

/-- **What the lock keeps out is told**: a call that would change pipeline or history is refused
because of the lock, or takes over an answer and leaves the corrections for later. -/
theorem Call.cause?_of_locked (h : s.Locked) (honce : s.Once) {call : Call σ}
    (hstays : call.StaysLocked) (hpasses : call.PassesErrorsOn)
    (hchanges : ¬ s.unlocked.Untouched (call.exec s.unlocked)) :
    call.cause? s = some .locked ∨
      call.Delivers ∧ call.cause? s = none ∧ (call.exec s).propagation.deferred = true := by
  have hrefused {α : Type} {attempt : Attempt (Session σ) α} (hbound : LockBound attempt)
      (hexec : call.exec s.unlocked = (attempt.exec s.unlocked).2) :
      EditError.of? (attempt.exec s).1 = some .locked := by
    rw [hexec] at hchanges
    rw [hbound.refused h hchanges]
    rfl
  -- Where the same would be done, what is done leaves the editor as it is.
  have hsame {s' : Session σ} (heditor : s'.editor = s.editor)
      (hexec : call.exec s.unlocked = s'.unlocked) : False := by
    rw [hexec] at hchanges
    exact hchanges (untouched_of_editor_eq (congrArg Editor.unlocked heditor))
  cases call with
  | act action => exact .inl (hrefused (.run (.act action)) rfl)
  | bundle calls _ => exact .inl (hrefused (.run (.bundle hpasses)) rfl)
  | undo => exact .inl (hrefused (.replay fun _ => Timeline.exec_replay_locked) rfl)
  | redo => exact .inl (hrefused (.replay fun _ => Timeline.exec_replay_locked) rfl)
  | load content => exact .inl (hrefused (.load content) rfl)
  | handleGesture gesture => exact .inl (hrefused (.handleGesture gesture) rfl)
  | processGestures => exact .inl (hrefused .processGestures rfl)
  | next service patience =>
    obtain ⟨awaited, s', service', hnext, heditor, hboth⟩ := next_locked h service patience
    refine .inr ⟨trivial, ?_, ?_⟩
    · show EditError.of? (s.next service patience).1 = none
      rw [hnext]
      rfl
    · show (s.next service patience).2.1.propagation.deferred = true
      rw [hnext]
      exact hboth.resolve_left fun hnext' => hsame heditor (congrArg (·.2.1) hnext')
  | pump =>
    obtain ⟨count, s', hpump, heditor, hboth⟩ := exec_pumpUpTo_locked
      ((s.dispatcher.map (·.outcomes.length)).getD 0) h honce
    have hexec : Session.pump.exec s = (.ok count, s') := hpump
    refine .inr ⟨trivial, ?_, ?_⟩
    · show EditError.of? (Session.pump.exec s).1 = none
      rw [hexec]
      rfl
    · show (Session.pump.exec s).2.propagation.deferred = true
      rw [hexec]
      exact hboth.resolve_left fun hpump' => hsame heditor (congrArg Prod.snd hpump')
  | applyOutcome outcome =>
    obtain ⟨applied, s', happly, heditor, -, hboth⟩ := exec_applyOutcome_locked h outcome
    refine .inr ⟨trivial, ?_, ?_⟩
    · show EditError.of? ((Session.applyOutcome outcome).exec s).1 = none
      rw [happly]
      rfl
    · show ((Session.applyOutcome outcome).exec s).2.propagation.deferred = true
      rw [happly]
      exact (hboth.resolve_left fun happly' => hsame heditor (congrArg Prod.snd happly')).1
  | setEnabled enabled =>
    obtain rfl : enabled = false := hstays
    refine absurd (untouched_of_editor (settle_editor _) ?_) hchanges
    unfold Editor.setEnabled
    dsimp only
    split
    · exact ⟨rfl, rfl⟩
    · exact ⟨rfl, rfl⟩
  | _ =>
    exact hchanges.elim (untouched_of_editor_eq (Call.editor_of_leavesEditor s.unlocked trivial))

/-- Calls that do not unlock the pipeline leave the editor as it is. -/
theorem editor_after_of_locked (h : s.Locked) (honce : s.Once) {calls : List (Call σ)}
    (hcalls : ∀ call ∈ calls, call.StaysLocked) :
    (s.after calls).editor = s.editor ∧ (s.after calls).Once := by
  induction calls generalizing s with
  | nil => exact ⟨rfl, honce⟩
  | cons call rest ih =>
    have heditor := Call.editor_of_locked h honce (hcalls call List.mem_cons_self)
    obtain ⟨hrest, honce'⟩ := ih (h.congr heditor) (call.once honce) fun other hmem =>
      hcalls other (List.mem_cons_of_mem _ hmem)
    exact ⟨hrest.trans heditor, honce'⟩

/-- **Locked pipelines are frozen.**  However a session has come to be locked, pipeline and history
stay as they are under all calls that do not unlock it, and it stays locked; and each call that
would have changed them, had the pipeline not been locked at that moment, is refused because of the
lock, or takes over an answer and leaves its corrections for later. -/
theorem frozen_after (catalogue : Catalogue) (settings : Settings) (clock : Nat → Nat)
    (surface : σ) (before : List (Call σ))
    (hlocked : ((start catalogue settings clock surface).after before).editor.enabled = false)
    {calls : List (Call σ)} (hcalls : ∀ call ∈ calls, call.StaysLocked) :
    let s := (start catalogue settings clock surface).after before
    s.Untouched (s.after calls) ∧ (s.after calls).editor.enabled = false ∧
      ∀ call : Call σ, call.StaysLocked → call.PassesErrorsOn →
        ¬ (s.after calls).unlocked.Untouched (call.exec (s.after calls).unlocked) →
          call.cause? (s.after calls) = some .locked ∨
            call.Delivers ∧ call.cause? (s.after calls) = none ∧
              (call.exec (s.after calls)).propagation.deferred = true := by
  intro s
  have h : s.Locked := ⟨hlocked, (atRest_after catalogue settings clock surface before).settled⟩
  obtain ⟨heditor, honce⟩ :=
    editor_after_of_locked h (once_after catalogue settings clock surface before) hcalls
  refine ⟨untouched_of_editor_eq heditor, ?_, ?_⟩
  · rw [heditor]
    exact hlocked
  · intro call hstays hpasses hchanges
    exact Call.cause?_of_locked (h.congr heditor) honce hstays hpasses hchanges

/-- A filter names an attribute that is lost.  While the pipeline is locked the answer that tells so
is taken over, and the filter cannot be moved; either would change the pipeline were it not
locked. -/
theorem frozen_after_lost :
    let schema : Json := .object [("properties", .object [("attribute",
      .object [("autofill", .string "attributeName")])])]
    let filter : Operator :=
      ⟨"f", "Filter", "1", .object [("attribute", .string "lost")], [⟨"input-0", ""⟩], [], false⟩
    let before : List (Call Blank) :=
      [.act (.addOperator filter .origin), .buildRequest, .setEnabled false]
    let answer : Call Blank :=
      .applyOutcome ⟨1, 1, .ok ⟨0, .ofList [("f", [some [⟨"kept", "string"⟩]])], none⟩⟩
    let move : Call Blank := .act (.moveOperator "f" ⟨⟨1⟩, 0⟩)
    let s := (start (.ofMetadata ⟨[⟨"Filter", schema, ⟨"Filter", none, "Filter", 1, 0⟩, "1"⟩], []⟩)
      .initial id Blank.mk).after before
    s.editor.enabled = false ∧ s.Untouched (s.after [answer]) ∧
      ¬ s.unlocked.Untouched (answer.exec s.unlocked) ∧
      (answer.exec s).propagation.deferred = true ∧
      ¬ (s.after [answer]).unlocked.Untouched (move.exec (s.after [answer]).unlocked) ∧
      move.cause? (s.after [answer]) = some .locked := by
  intro schema filter before answer move s
  have hlocked : s.editor.enabled = false := by decide +kernel
  have hanswer : ¬ s.unlocked.Untouched (answer.exec s.unlocked) := fun h =>
    absurd h.1 (by decide +kernel)
  have hmove : ¬ (s.after [answer]).unlocked.Untouched (move.exec (s.after [answer]).unlocked) :=
    fun h => absurd h.1 (by decide +kernel)
  have hnone : ∀ call ∈ ([] : List (Call Blank)), call.StaysLocked := fun _ hmem => nomatch hmem
  have hone : ∀ call ∈ [answer], call.StaysLocked := fun _ hmem =>
    List.mem_singleton.mp hmem ▸ trivial
  have hnow : ∀ call : Call Blank, call.StaysLocked → call.PassesErrorsOn →
      ¬ s.unlocked.Untouched (call.exec s.unlocked) → call.cause? s = some .locked ∨
        call.Delivers ∧ call.cause? s = none ∧ (call.exec s).propagation.deferred = true :=
    (frozen_after _ _ _ _ before hlocked hnone).2.2
  have haccepted : answer.cause? s ≠ some .locked := by decide +kernel
  obtain ⟨-, -, hdeferred⟩ := (hnow answer trivial trivial hanswer).resolve_left haccepted
  obtain ⟨hfrozen, -, hlater⟩ := frozen_after _ _ _ _ before hlocked hone
  refine ⟨hlocked, hfrozen, hanswer, hdeferred, hmove, ?_⟩
  exact (hlater move trivial trivial hmove).resolve_right And.left

end Session

end PipelineEditor
