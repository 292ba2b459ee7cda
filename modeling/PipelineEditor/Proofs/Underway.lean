import Mathlib.Data.List.Induction
import PipelineEditor.Proofs.Answer
import PipelineEditor.Proofs.Exchange

/-!
# The request that counts is on its way

Once a way to the inference service is open, every change that concerns schemas makes for a request,
so the latest request is always one for the present graph, and it has been handed to the dispatcher
that is there.  Whatever the host does, its answer counts if it comes before the next change; only a
host that builds requests of its own takes that away, for these supersede the others and are not
submitted.

## Main definitions

* `Session.Awaits s request`: the request is the latest, and for the present revision
* `Session.Prompts s s'`: the awaited request goes on to be awaited, or another has been submitted
* `Session.Call.Opens`, `Session.Call.Builds`: calls that open a way, or build a request for the
  host
* `Session.Submitted`: the request was handed to the dispatcher that is there

## Main results

* `Session.Step.prompts`, `Session.Call.prompts`: what each step, and each call, makes of requests
* `Session.underway_after`: after every run the latest request is for the present graph, has been
  submitted, and has an answer that counts
-/

namespace PipelineEditor

open Attempt (Keeps)

/-- Outside a bundle an outcome that is current is not reported stale. -/
theorem Propagation.apply_not_stale {p : Propagation} {e : Editor} {outcome : Outcome}
    {revision : Nat} (hidle : e.bundled = none)
    (hcurrent : p.isCurrent outcome.sequence outcome.revision revision = true) :
    ∃ applied, (p.apply e outcome revision).1 = .ok applied ∧ applied.stale = false := by
  rcases hinferred : outcome.inferred with cause | result
  · rw [apply_failed hcurrent hinferred]
    exact ⟨_, rfl, rfl⟩
  · obtain ⟨corrected, hok⟩ := correct_ok hidle
      { p with overlay := (p.overlay.apply e.graph e.catalogue result).1 } result
    rw [apply_inferred hcurrent hinferred]
    dsimp only
    rw [hok]
    exact ⟨_, rfl, rfl⟩

namespace Session

variable {σ : Type} {s s' s'' : Session σ} {request : Request}

/-! ## The request that is awaited -/

/-- **The request is the latest, and for the present revision.** -/
structure Awaits (s : Session σ) (request : Request) : Prop where
  latest : s.propagation.latestIssued = some request.sequence
  revision : request.revision = s.revision

theorem Awaits.of_traffic (h : s.Awaits request) (htraffic : s'.traffic = s.traffic) :
    s'.Awaits request := by
  obtain ⟨-, hlatest, -, hrevision⟩ := Traffic.mk.inj htraffic
  exact ⟨hlatest.trans h.latest, h.revision.trans hrevision.symm⟩

/-- A request has been submitted that is awaited. -/
def Asks (s : Session σ) : Prop := ∃ request ∈ s.outbox, s.Awaits request

/-- Who has requests in the outbox has a way to the service. -/
theorem Asks.attached (h : s.Asks) : s.dispatcher.isSome := by
  obtain ⟨request, hmem, -⟩ := h
  unfold outbox at hmem
  cases hdispatcher : s.dispatcher with
  | none =>
    rw [hdispatcher] at hmem
    cases hmem
  | some d => rfl

/-- **With a way to the service open, the request that is awaited goes on to be**, or another has
been submitted that is. -/
structure Prompts (s s' : Session σ) : Prop where
  attached : s.dispatcher.isSome → s'.dispatcher.isSome
  outbox : s.outbox ⊆ s'.outbox
  awaits : s.dispatcher.isSome → (∀ request, s.Awaits request → s'.Awaits request) ∨ s'.Asks

namespace Prompts

theorem of_traffic (htraffic : s'.traffic = s.traffic) : s.Prompts s' := by
  obtain ⟨-, -, hdispatcher, -⟩ := Traffic.mk.inj htraffic
  refine ⟨fun h => hdispatcher ▸ h, ?_, fun _ => .inl fun request h => h.of_traffic htraffic⟩
  unfold Session.outbox
  rw [hdispatcher]
  exact List.Subset.refl _

theorem trans (h : s.Prompts s') (h' : s'.Prompts s'') : s.Prompts s'' := by
  refine ⟨h'.attached ∘ h.attached, fun _ hmem => h'.outbox (h.outbox hmem), fun hattached => ?_⟩
  rcases h'.awaits (h.attached hattached) with hkept | hasks
  · rcases h.awaits hattached with hkept' | ⟨request, hmem, hawaits⟩
    · exact .inl fun request hawaits => hkept request (hkept' request hawaits)
    · exact .inr ⟨request, h'.outbox hmem, hkept request hawaits⟩
  · exact .inr hasks

instance : Std.Refl (Prompts : Session σ → Session σ → Prop) := ⟨fun _ => of_traffic rfl⟩

instance : IsTrans (Session σ) Prompts := ⟨fun _ _ _ h h' => h.trans h'⟩

end Prompts

variable [Surface σ]

/-- **Handing events on submits a request where they concern schemas**, and it is for the revision
that they make. -/
theorem prompts_settle (s : Session σ) : s.Prompts s.settle := by
  have htraffic := settle_traffic s
  split at htraffic
  · rw [revise_traffic] at htraffic
    cases hdispatcher : s.dispatcher with
    | none =>
      -- No one is waiting for requests, so it does not matter what the latest was.
      rw [hdispatcher] at htraffic
      have hnone : s.settle.dispatcher = none :=
        (Traffic.mk.inj htraffic).2.2.1.trans hdispatcher
      refine ⟨fun h => ?_, ?_, fun h => ?_⟩
      · rw [hdispatcher] at h
        cases h
      · unfold outbox
        rw [hdispatcher]
        exact List.nil_subset _
      · rw [hdispatcher] at h
        cases h
    | some d =>
      rw [hdispatcher] at htraffic
      obtain ⟨-, hlatest, hsubmitted, hrevision⟩ := Traffic.mk.inj htraffic
      let request : Request := ⟨s.propagation.nextSequence, s.revision + 1, .ofGraph s.graph⟩
      have hbox : s.settle.outbox = d.submitted ++ [request] := by
        unfold outbox
        rw [hsubmitted]
        rfl
      have hattached : s.settle.dispatcher.isSome := by
        rw [hsubmitted]
        rfl
      refine ⟨fun _ => hattached, ?_, fun _ => .inr ⟨request, ?_, hlatest, hrevision.symm⟩⟩
      · rw [hbox]
        unfold outbox
        rw [hdispatcher]
        exact List.subset_append_left _ _
      · rw [hbox]
        exact List.mem_append_right _ (List.mem_singleton_self _)
  · exact .of_traffic htraffic

/-- **Each step without traffic keeps a request awaited**, or submits one that is. -/
theorem Step.prompts (hstep : Step False s s') : s.Prompts s' := by
  cases hstep with
  | edit | draw | notify | learn => exact .of_traffic rfl
  | settle => exact prompts_settle s
  | exchange hfalse => exact hfalse.elim

theorem Steps.prompts (hsteps : Steps False s s') : s.Prompts s' := by
  induction hsteps with
  | refl => exact refl_of Prompts s
  | tail _ hstep ih => exact ih.trans hstep.prompts

theorem applyOutcome_prompts (outcome : Outcome) :
    Keeps Prompts (applyOutcome outcome : Attempt (Session σ) Applied) := fun s =>
  Steps.prompts (applyOutcome_keeps outcome s)

/-! ## What calls make of requests -/

omit [Surface σ] in
/-- The call opens a way to the inference service. -/
def Call.Opens (s : Session σ) : Call σ → Prop
  | attach => True
  | connect => s.settings.inferenceEndpoint.isSome
  | _ => False

omit [Surface σ] in
/-- The call builds a request for the host. -/
def Call.Builds : Call σ → Prop
  | buildRequest => True
  | _ => False

omit [Surface σ] in
/-- A way that is opened is asked at once. -/
theorem asks_attach (s : Session σ) : s.attach.Asks :=
  ⟨⟨s.propagation.nextSequence, s.revision, .ofGraph s.graph⟩, List.mem_singleton_self _, rfl, rfl⟩

/-- A call that opens a way asks it at once. -/
theorem Call.Opens.asks {call : Call σ} (h : call.Opens s) : (call.exec s).Asks := by
  cases call with
  | attach => exact asks_attach s
  | connect =>
    obtain ⟨endpoint, hendpoint⟩ := Option.isSome_iff_exists.mp h
    have hconnect : s.connect.2 = s.attach := by
      unfold Session.connect
      rw [hendpoint]
    show s.connect.2.Asks
    rw [hconnect]
    exact asks_attach s
  | _ => exact h.elim

/-- **With a way to the service open, no call takes it away that a request is awaited**, but one
that builds a request for the host. -/
theorem Call.prompts {call : Call σ} (hbuilds : ¬ call.Builds) (hattached : s.dispatcher.isSome) :
    (call.exec s).dispatcher.isSome ∧
      ((∀ request, s.Awaits request → (call.exec s).Awaits request) ∧ ¬ call.Opens s ∨
        (call.exec s).Asks) := by
  have hkept {s' : Session σ} (hopens : ¬ call.Opens s) (h : s.Prompts s') :
      s'.dispatcher.isSome ∧
        ((∀ request, s.Awaits request → s'.Awaits request) ∧ ¬ call.Opens s ∨ s'.Asks) :=
    ⟨h.attached hattached, (h.awaits hattached).imp_left (⟨·, hopens⟩)⟩
  by_cases hopens : call.Opens s
  · exact ⟨hopens.asks.attached, .inr hopens.asks⟩
  have hinternal (h : call.isInternal = true) : s.Prompts (call.exec s) := by
    refine Steps.prompts ((call.steps s).lift id fun _ _ => Step.mono fun hexternal => ?_)
    rw [h] at hexternal
    cases hexternal
  -- What has been received is gone from the outbox, and awaited as before.
  have hgoesOn (d : Dispatcher) : ∀ request, s.Awaits request →
      Awaits { s with dispatcher := some d } request := fun _ h => ⟨h.latest, h.revision⟩
  cases call with
  | buildRequest => exact absurd trivial hbuilds
  | attach => exact absurd trivial hopens
  | connect =>
    have hnone : s.settings.inferenceEndpoint = none := by
      simpa [Opens] using hopens
    have hsame : s.connect.2 = s := by
      unfold Session.connect
      rw [hnone]
    have hprompts : s.Prompts s.connect.2 := by
      rw [hsame]
      exact refl_of Prompts s
    exact hkept hopens hprompts
  | advance service duration =>
    show (s.advance service duration).1.dispatcher.isSome ∧
      ((∀ request, s.Awaits request → (s.advance service duration).1.Awaits request) ∧ _ ∨
        (s.advance service duration).1.Asks)
    rcases advance_cases service duration s with heq | ⟨d, -, heq⟩ <;> rw [heq]
    · exact hkept hopens (refl_of Prompts s)
    · exact ⟨rfl, .inl ⟨hgoesOn _, hopens⟩⟩
  | next service patience =>
    show (s.next service patience).2.1.dispatcher.isSome ∧
      ((∀ request, s.Awaits request → (s.next service patience).2.1.Awaits request) ∧ _ ∨
        (s.next service patience).2.1.Asks)
    rcases next_cases service patience s with
      heq | ⟨d, _ | outcome, left, -, -, -, heq⟩ <;> rw [heq]
    · exact hkept hopens (refl_of Prompts s)
    · exact ⟨rfl, .inl ⟨hgoesOn left, hopens⟩⟩
    · have happly := applyOutcome_prompts outcome { s with dispatcher := some left }
      refine ⟨happly.attached rfl, (happly.awaits rfl).imp_left fun hawaits => ⟨?_, hopens⟩⟩
      exact fun request h => hawaits request (hgoesOn left request h)
  | pump =>
    have htake {s s' : Session σ} {outcome : Outcome}
        (htaken : s.takeOutcome? = some (outcome, s')) : s.Prompts s' := by
      have hbox := outbox_of_taken htaken
      obtain ⟨d, left, -, -, rfl⟩ := takeOutcome?_eq_some htaken
      exact ⟨fun _ => rfl, hbox ▸ List.Subset.refl _, fun _ => .inl fun _ h =>
        ⟨h.latest, h.revision⟩⟩
    exact hkept hopens (pumpUpTo_keeps htake applyOutcome_prompts _ s)
  | applyOutcome outcome => exact hkept hopens (applyOutcome_prompts outcome s)
  | _ => exact hkept hopens (hinternal rfl)

/-! ## Runs -/

theorem after_append (s : Session σ) (calls more : List (Call σ)) :
    s.after (calls ++ more) = (s.after calls).after more := List.foldl_append

/-- The session after one more call. -/
theorem after_concat (s : Session σ) (calls : List (Call σ)) (call : Call σ) :
    s.after (calls ++ [call]) = call.exec (s.after calls) := after_append s calls [call]

/-- What happens at some call of a run happens at the last one, or before. -/
theorem ever_concat {P : Session σ → Call σ → Prop} {calls : List (Call σ)} {call : Call σ} :
    s.Ever P (calls ++ [call]) ↔ s.Ever P calls ∨ P (s.after calls) call := by
  induction calls generalizing s with
  | nil => exact or_comm
  | cons first rest ih => exact (or_congr_right ih).trans or_assoc.symm

/-- **The request was handed to the dispatcher that is there**: it stood in the outbox after some
call, and no way to the service has been opened since. -/
def Submitted (s : Session σ) (calls : List (Call σ)) (request : Request) : Prop :=
  ∃ earlier later, calls = earlier ++ later ∧ request ∈ (s.after earlier).outbox ∧
    ¬ (s.after earlier).Ever (fun s call => call.Opens s) later

/-- Once a way to the service is open, a request is awaited that has been submitted. -/
theorem exists_submitted {calls rest : List (Call σ)} {opening : Call σ}
    (hopens : opening.Opens (s.after calls)) (hbuilds : ∀ call ∈ rest, ¬ call.Builds) :
    (s.after (calls ++ opening :: rest)).dispatcher.isSome ∧
      ∃ request, (s.after (calls ++ opening :: rest)).Awaits request ∧
        s.Submitted (calls ++ opening :: rest) request := by
  have hasks {calls : List (Call σ)} (h : (s.after calls).Asks) :
      (s.after calls).dispatcher.isSome ∧
        ∃ request, (s.after calls).Awaits request ∧ s.Submitted calls request := by
    obtain ⟨request, hmem, hawaits⟩ := h
    exact ⟨Asks.attached ⟨request, hmem, hawaits⟩, request, hawaits, calls, [],
      (List.append_nil _).symm, hmem, fun hever => hever⟩
  -- From the end of the run: the last call keeps what is awaited, or asks anew.
  induction rest using List.reverseRecOn with
  | nil =>
    refine hasks ?_
    rw [after_concat]
    exact hopens.asks
  | append_singleton rest call ih =>
    obtain ⟨hattached, request, hawaits, earlier, later, heq, hmem, hnone⟩ :=
      ih fun other hother => hbuilds other (List.mem_append_left _ hother)
    have hlonger : calls ++ opening :: (rest ++ [call]) = (calls ++ opening :: rest) ++ [call] := by
      simp
    have hcall := Call.prompts (hbuilds call (by simp)) hattached
    rw [← after_concat, ← hlonger] at hcall
    obtain ⟨hattached', ⟨hkept, hstays⟩ | hnew⟩ := hcall
    · refine ⟨hattached', request, hkept request hawaits, earlier, later ++ [call], ?_, hmem, ?_⟩
      · rw [hlonger, heq, List.append_assoc]
      · rw [ever_concat, ← after_append, ← heq]
        exact not_or.mpr ⟨hnone, hstays⟩
    · exact hasks hnew

/-- A run keeps the ledger, and adds to it. -/
theorem exists_ledger_after {issued : List Request} (h : s.Ledger issued) (calls : List (Call σ)) :
    ∃ more, (s.after calls).Ledger (issued ++ more) := by
  induction calls generalizing s issued with
  | nil => exact ⟨[], by rwa [List.append_nil]⟩
  | cons call rest ih =>
    obtain ⟨more, hmore⟩ := ih (call.ledger h)
    exact ⟨call.issued s ++ more, by rwa [← List.append_assoc]⟩

/-- **The request that counts is on its way**: once a way to the inference service is open, and
while the host builds no requests of its own, the latest request is for the present revision and the
plan of the present graph, and it has been submitted to the dispatcher that is there.  Whatever the
service says to it is taken over if it comes now. -/
theorem underway_after (catalogue : Catalogue) (settings : Settings) (clock : Nat → Nat)
    (surface : σ) (calls rest : List (Call σ)) (opening : Call σ)
    (hopens : opening.Opens ((start catalogue settings clock surface).after calls))
    (hbuilds : ∀ call ∈ rest, ¬ call.Builds) :
    let start := start catalogue settings clock surface
    let s := start.after (calls ++ opening :: rest)
    ∃ request, s.propagation.latestIssued = some request.sequence ∧
      request.revision = s.revision ∧ request.plan = .ofGraph s.graph ∧
      start.Submitted (calls ++ opening :: rest) request ∧
      ∀ reply, ∃ applied, ((Session.applyOutcome (.ofReply request reply)).exec s).1 =
        .ok applied ∧ applied.stale = false := by
  intro start s
  have hrest : s.AtRest catalogue := atRest_after ..
  obtain ⟨-, request, hawaits, hsubmitted⟩ := exists_submitted hopens hbuilds
  refine ⟨request, hawaits.latest, hawaits.revision, ?_, hsubmitted, fun reply => ?_⟩
  · obtain ⟨earlier, later, heq, hmem, -⟩ := hsubmitted
    -- What was submitted is on the ledger, and the latest of the ledger has its number.
    have hledger : start.Ledger [] := (Exchange.sound_start ..).ledger
    obtain ⟨issued, hthen⟩ := exists_ledger_after hledger earlier
    obtain ⟨more, hnow⟩ := exists_ledger_after hthen later
    rw [← after_append, ← heq] at hnow
    have hissued := List.mem_append_left more (hthen.outbox_subset hmem)
    obtain ⟨last, hlast, hsequence⟩ := Option.map_eq_some_iff.mp
      (hnow.latest.symm.trans hawaits.latest)
    obtain rfl := hnow.sequence_inj (List.mem_of_getLast? hlast) hissued hsequence
    refine hnow.plan last hlast hawaits.revision fun event hevent => ?_
    have hnone : s.editor.draft.announced = [] := hrest.settled
    rw [hnone] at hevent
    cases hevent
  · have hcurrent : s.propagation.isCurrent (Outcome.ofReply request reply).sequence
        (Outcome.ofReply request reply).revision s.revision = true := by
      unfold Propagation.isCurrent
      rw [hawaits.latest, ← hawaits.revision]
      simp [Outcome.ofReply]
    obtain ⟨applied, hok, hstale⟩ := Propagation.apply_not_stale hrest.idle hcurrent
    refine ⟨applied, ?_, hstale⟩
    unfold Session.applyOutcome
    rw [Attempt.exec_of]
    dsimp only
    rw [hok]

/-- A way is opened, an operator is added and its request sent; then a bundle fails, and the
addition is undone.  Each makes for a request, and the answer to the last counts. -/
theorem underway_after_failed :
    let scan : Operator := ⟨"scan", "Scan", "1", .object [], [], [], false⟩
    let failing : Attempt Editor Unit := do
      Editor.deleteOperator "scan"
      throw .malformedDocument
    let hfailing : Program (fun _ => True) failing :=
      .bind (.act (.deleteOperator "scan")) fun _ => .throw _
    let catalogue : Catalogue :=
      .ofMetadata ⟨[⟨"Scan", .object [], ⟨"Scan", none, "Input", 0, 0⟩, "1"⟩], []⟩
    let start := start catalogue .initial id Blank.mk
    let rest : List (Call Blank) := [.act (.addOperator scan .origin),
      .advance (.scripted [] ⟨0, .ok ⟨0, ∅, none⟩⟩) 1000, .bundle failing hfailing, .undo]
    let s := start.after ([] ++ .attach :: rest)
    (∀ call ∈ rest, ¬ call.Builds) ∧ s.propagation.latestIssued = some 4 ∧ s.revision = 3 ∧
      ∃ request, s.propagation.latestIssued = some request.sequence ∧
        request.revision = s.revision ∧ request.plan = .ofGraph s.graph ∧
        start.Submitted ([] ++ .attach :: rest) request ∧
        ∀ reply, ∃ applied, ((Session.applyOutcome (.ofReply request reply)).exec s).1 =
          .ok applied ∧ applied.stale = false := by
  intro scan failing hfailing catalogue start rest s
  have hbuilds : ∀ call ∈ rest, ¬ call.Builds := by simp [rest, Call.Builds]
  refine ⟨hbuilds, by decide +kernel, by decide +kernel, ?_⟩
  dsimp only [s, start]
  exact underway_after catalogue .initial id Blank.mk [] rest .attach trivial hbuilds

end Session

end PipelineEditor
