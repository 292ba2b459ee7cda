import PipelineEditor.Proofs.Ledger
import PipelineEditor.Proofs.Stage

/-!
# Answers that count

Answers to requests come back in any order, late, more than once or never, and the host goes on with
the pipeline meanwhile.  An answer that is not reported stale is one to the latest request, and that
was made from the graph as it is when the answer is taken over.

## Main definitions

* `Session.Call.issued`: the requests that a call issues
* `Exchange`, `Exchange.Step`: a session with the requests issued so far, and what happens to it
* `Exchange.Sound`: the requests are a ledger of the session, which is settled

## Main results

* `Session.Call.ledger`: every call keeps the ledger
* `Exchange.Sound.taken`, `Exchange.Sound.awaited`: what comes back answers a request of the ledger
* `Exchange.pump_turns`: pumping is answers being taken, and taken over, in turn
* `Exchange.latest_of_not_stale`: only an answer to the present graph is taken over
-/

namespace PipelineEditor

open Attempt (Keeps)

namespace Session

variable {σ : Type}

/-! ## What is issued -/

/-- The requests in the outbox that have a given number or a higher one. -/
def issuedSince (s : Session σ) (number : Nat) : List Request :=
  s.outbox.filter fun request => number ≤ request.sequence

/-- **The requests that a call issues**: the one that is built for the host, or those that have come
to the outbox. -/
def Call.issued [Surface σ] (s : Session σ) : Call σ → List Request
  | buildRequest => [s.buildRequest.1]
  | call => (call.exec s).issuedSince s.propagation.nextSequence

variable {s s' : Session σ} {issued : List Request}

theorem Ledger.outbox_subset (h : s.Ledger issued) : s.outbox ⊆ issued := by
  unfold outbox
  cases hdispatcher : s.dispatcher with
  | none => exact List.nil_subset _
  | some d => exact (h.carried d hdispatcher).submitted

/-- What goes on the ledger is what comes to the outbox with new numbers. -/
theorem Grows.ledger (hgrows : Grows s s') (h : s.Ledger issued) :
    s'.Ledger (issued ++ s'.issuedSince s.propagation.nextSequence) := by
  obtain ⟨new, hbox, hledger⟩ := hgrows issued h
  -- New requests go on from the numbers on the ledger, old ones have lower numbers.
  have hnumbers : new.map (·.sequence) = List.range' (1 + issued.length) new.length := by
    have hall := hledger.numbers
    rw [List.map_append, List.length_append, ← List.range'_append_1, h.numbers] at hall
    exact List.append_cancel_left hall
  have hold : s.outbox.filter (fun request => s.propagation.nextSequence ≤ request.sequence) =
      [] := by
    refine List.filter_eq_nil_iff.mpr fun request hmem => ?_
    have hnumber : request.sequence ∈ List.range' 1 issued.length :=
      h.numbers ▸ List.mem_map_of_mem (h.outbox_subset hmem)
    have hbound := (List.mem_range'_1.mp hnumber).2
    rw [decide_eq_true_eq, h.next]
    omega
  have hnew : new.filter (fun request => s.propagation.nextSequence ≤ request.sequence) = new := by
    refine List.filter_eq_self.mpr fun request hmem => ?_
    have hnumber : request.sequence ∈ List.range' (1 + issued.length) new.length :=
      hnumbers ▸ List.mem_map_of_mem hmem
    have hbound := (List.mem_range'_1.mp hnumber).1
    rw [decide_eq_true_eq, h.next]
    omega
  rwa [issuedSince, hbox, List.filter_append, hold, hnew, List.nil_append]

/-- The dispatcher may go on with what is on the ledger. -/
theorem Ledger.setDispatcher (h : s.Ledger issued) {d : Dispatcher} (hd : d.Carries issued) :
    Ledger { s with dispatcher := some d } issued := by
  refine ⟨h.sound, h.numbers, h.next, h.latest, h.revision, h.plan, ?_⟩
  rintro _ ⟨⟩
  exact hd

theorem Ledger.attach (h : s.Ledger issued) :
    s.attach.Ledger (issued ++ s.attach.issuedSince s.propagation.nextSequence) := by
  let request : Request := ⟨s.propagation.nextSequence, s.revision, .ofGraph s.graph⟩
  have hissued : s.attach.issuedSince s.propagation.nextSequence = [request] := by
    have hbox : s.attach.outbox = [request] := rfl
    unfold issuedSince
    rw [hbox]
    simp [request]
  rw [hissued]
  refine h.issue rfl rfl rfl rfl rfl h.sound ?_
  rintro _ ⟨⟩
  exact (Dispatcher.carries_start issued _).submit request

/-- An answer that is taken is one to a request of the ledger. -/
theorem Ledger.taken (h : s.Ledger issued) {outcome : Outcome}
    (htake : s.takeOutcome? = some (outcome, s')) : outcome.Answers issued ∧ s'.Ledger issued := by
  obtain ⟨d, left, hdispatcher, hfirst, rfl⟩ := takeOutcome?_eq_some htake
  obtain ⟨houtcome, hleft⟩ := (h.carried d hdispatcher).take? hfirst
  exact ⟨houtcome, h.setDispatcher hleft⟩

theorem outbox_of_taken {outcome : Outcome} (htake : s.takeOutcome? = some (outcome, s')) :
    s'.outbox = s.outbox := by
  obtain ⟨d, left, hdispatcher, hfirst, rfl⟩ := takeOutcome?_eq_some htake
  obtain ⟨rest, -, rfl⟩ := Dispatcher.take?_eq_some hfirst
  unfold outbox
  rw [hdispatcher]
  rfl

variable [Surface σ]

theorem applyOutcome_grows (outcome : Outcome) :
    Keeps Grows (applyOutcome outcome : Attempt (Session σ) Applied) := fun s =>
  Steps.grows (applyOutcome_keeps outcome s)

theorem Call.grows {call : Call σ} (hinternal : call.isInternal = true) (s : Session σ) :
    Grows s (call.exec s) := by
  refine Steps.grows ((call.steps s).lift id fun _ _ => Step.mono fun hexternal => ?_)
  rw [hinternal] at hexternal
  cases hexternal

/-- **Every call keeps the ledger.** -/
theorem Call.ledger (h : s.Ledger issued) (call : Call σ) :
    (call.exec s).Ledger (issued ++ call.issued s) := by
  cases call with
  | buildRequest =>
    refine h.issue rfl rfl rfl rfl rfl h.sound fun d hd => ?_
    exact (h.carried d hd).mono (List.subset_append_left _ _)
  | attach => exact h.attach
  | connect =>
    show s.connect.2.Ledger (issued ++ s.connect.2.issuedSince s.propagation.nextSequence)
    rcases connect_cases s with heq | heq <;> rw [heq]
    · exact (refl_of Grows s).ledger h
    · exact h.attach
  | advance service duration =>
    show (s.advance service duration).1.Ledger
      (issued ++ (s.advance service duration).1.issuedSince s.propagation.nextSequence)
    rcases advance_cases service duration s with heq | ⟨d, hdispatcher, heq⟩ <;> rw [heq]
    · exact (refl_of Grows s).ledger h
    · have hleft := (h.carried d hdispatcher).advance service duration
      exact (refl_of Grows _).ledger (h.setDispatcher hleft)
  | next service patience =>
    show (s.next service patience).2.1.Ledger
      (issued ++ (s.next service patience).2.1.issuedSince s.propagation.nextSequence)
    rcases next_cases service patience s with heq | ⟨d, outcome?, left, hdispatcher, -, hleft, heq⟩
    · rw [heq]
      exact (refl_of Grows s).ledger h
    · -- The dispatcher receives first, and what is issued after that stays in the outbox.
      have hcarried : left.Carries issued :=
        hleft ▸ ((h.carried d hdispatcher).await service patience).2
      rw [heq]
      cases outcome? with
      | none => exact (refl_of Grows _).ledger (h.setDispatcher hcarried)
      | some outcome =>
        have hgrows := applyOutcome_grows outcome { s with dispatcher := some left }
        exact hgrows.ledger (h.setDispatcher hcarried)
  | pump =>
    have hset {s s' : Session σ} {outcome : Outcome}
        (htake : s.takeOutcome? = some (outcome, s')) : Grows s s' :=
      grows_of_ledger (outbox_of_taken htake) fun _ h => (h.taken htake).2
    exact Grows.ledger (pumpUpTo_keeps hset applyOutcome_grows _ s) h
  | applyOutcome outcome => exact Grows.ledger (applyOutcome_grows outcome s) h
  | _ => exact Grows.ledger (Call.grows rfl s) h

end Session

/-! ## Exchanges -/

/-- A session with the requests issued so far, oldest first. -/
structure Exchange (σ : Type) where
  session : Session σ
  issued : List Request

namespace Exchange

open Session (Call Settled)

variable {σ : Type} {e e' : Exchange σ}

/-- The exchange of a session that is opened. -/
def start (catalogue : Catalogue) (settings : Settings) (clock : Nat → Nat) (surface : σ) :
    Exchange σ := ⟨.start catalogue settings clock surface, []⟩

/-- **The requests are a ledger of the session**, which has handed on all events. -/
structure Sound (e : Exchange σ) : Prop where
  ledger : e.session.Ledger e.issued
  settled : e.session.Settled

theorem sound_start (catalogue : Catalogue) (settings : Settings) (clock : Nat → Nat)
    (surface : σ) : (start catalogue settings clock surface).Sound where
  ledger := ⟨Editor.sound_start .., rfl, rfl, rfl, fun _ h => (nomatch h), fun _ h => (nomatch h),
    fun _ h => (nomatch h)⟩
  settled := rfl

namespace Sound

/-- **What is pumped answers a request of the ledger.** -/
theorem taken (h : e.Sound) {outcome : Outcome} {s : Session σ}
    (htake : e.session.takeOutcome? = some (outcome, s)) : outcome.Answers e.issued :=
  (h.ledger.taken htake).1

/-- **What was waited for answers a request of the ledger.** -/
theorem awaited (h : e.Sound) {d : Dispatcher} (hdispatcher : e.session.dispatcher = some d)
    (service : Service) (patience : Nat) :
    ∀ outcome ∈ (d.await service patience).1, outcome.Answers e.issued :=
  ((h.ledger.carried d hdispatcher).await service patience).1

/-- An answer that counts is one to the latest request, made from the present graph. -/
theorem latest_of_isCurrent (h : e.Sound) {request : Request} (hissued : request ∈ e.issued)
    (hcurrent : e.session.propagation.isCurrent request.sequence request.revision
      e.session.revision = true) :
    e.issued.getLast? = some request ∧ request.plan = .ofGraph e.session.graph := by
  obtain ⟨hlatest, hrevision⟩ := Bool.and_eq_true_iff.mp hcurrent
  rw [decide_eq_true_eq] at hlatest hrevision
  rw [h.ledger.latest] at hlatest
  obtain ⟨last, hlast, hsequence⟩ := Option.map_eq_some_iff.mp hlatest
  obtain rfl := h.ledger.sequence_inj (List.mem_of_getLast? hlast) hissued hsequence
  refine ⟨hlast, h.ledger.plan last hlast hrevision fun event hmem => ?_⟩
  have hnone := h.settled
  unfold Settled at hnone
  rw [hnone] at hmem
  cases hmem

end Sound

variable [Surface σ]

/-- The exchange after a call. -/
def after (e : Exchange σ) (call : Call σ) : Exchange σ :=
  ⟨call.exec e.session, e.issued ++ call.issued e.session⟩

/-- **What happens to an exchange.**  The host may hand in any outcome at any time.  `Call.pump` and
`Call.next` take several parts: an answer is taken, or waited for, and then taken over as by
`Call.applyOutcome`.  So that the state between is seen, the first part is a step of its own. -/
inductive Step (e : Exchange σ) : Exchange σ → Prop
  | call (call : Call σ) : Step e (e.after call)
  | take {outcome : Outcome} {s : Session σ} (h : e.session.takeOutcome? = some (outcome, s)) :
      Step e ⟨s, e.issued⟩
  | wait {d : Dispatcher} (h : e.session.dispatcher = some d) (service : Service)
      (patience : Nat) :
      Step e ⟨{ e.session with dispatcher := some (d.await service patience).2.1 }, e.issued⟩

/-- Any number of steps. -/
abbrev Steps : Exchange σ → Exchange σ → Prop := Relation.ReflTransGen Step

/-- An answer is taken, and taken over. -/
inductive Turn (e : Exchange σ) : Exchange σ → Prop
  | intro {outcome : Outcome} {s : Session σ} (h : e.session.takeOutcome? = some (outcome, s)) :
      Turn e (after ⟨s, e.issued⟩ (.applyOutcome outcome))

/-- **Pumping is answers being taken, and taken over, in turn.** -/
theorem pump_turns (e : Exchange σ) :
    ∃ e', Relation.ReflTransGen Turn e e' ∧ e'.session = Call.exec e.session .pump := by
  have hpump (bound : Nat) (e : Exchange σ) : ∃ e', Relation.ReflTransGen Turn e e' ∧
      e'.session = ((Session.pumpUpTo bound).exec e.session).2 := by
    induction bound generalizing e with
    | zero => exact ⟨e, .refl, rfl⟩
    | succ bound ih =>
      unfold Session.pumpUpTo
      rw [Attempt.exec_get_bind]
      cases htake : e.session.takeOutcome? with
      | none => exact ⟨e, .refl, rfl⟩
      | some taken =>
        obtain ⟨outcome, s⟩ := taken
        have hturn : Turn e _ := .intro htake
        have hsession : (after ⟨s, e.issued⟩ (.applyOutcome outcome)).session =
            ((Session.applyOutcome outcome).exec s).2 := rfl
        dsimp only
        rw [Attempt.exec_set_bind, Attempt.exec_bind]
        rcases happly : (Session.applyOutcome outcome).exec s with ⟨cause | applied, s'⟩ <;>
          rw [happly] at hsession
        · -- A refused correction ends the pumping; later answers wait for the next.
          exact ⟨_, .single hturn, hsession⟩
        · obtain ⟨e', hturns, hlast⟩ := ih (after ⟨s, e.issued⟩ (.applyOutcome outcome))
          refine ⟨e', .head hturn hturns, hlast.trans ?_⟩
          rw [hsession]
          dsimp only
          rw [Attempt.exec_bind]
          rcases (Session.pumpUpTo bound).exec s' with ⟨_ | count, last⟩
          · rfl
          · rfl
  exact hpump _ e

theorem Step.sound (hstep : Step e e') (h : e.Sound) : e'.Sound := by
  cases hstep with
  | call call => exact ⟨call.ledger h.ledger, call.settled h.settled⟩
  | take htake =>
    refine ⟨(h.ledger.taken htake).2, ?_⟩
    obtain ⟨d, left, -, -, rfl⟩ := Session.takeOutcome?_eq_some htake
    exact h.settled
  | wait hdispatcher service patience =>
    have hleft := ((h.ledger.carried _ hdispatcher).await service patience).2
    exact ⟨h.ledger.setDispatcher hleft, h.settled⟩

theorem Steps.sound (hsteps : Steps e e') (h : e.Sound) : e'.Sound := by
  induction hsteps with
  | refl => exact h
  | tail _ hstep ih => exact hstep.sound ih

/-- **Only an answer to the present graph is taken over**: whatever happened before, if what came
back for a request is taken over and not reported stale, then no later request was issued, and this
one was made from the graph as it is at that moment. -/
theorem latest_of_not_stale (catalogue : Catalogue) (settings : Settings) (clock : Nat → Nat)
    (surface : σ) (hsteps : Steps (start catalogue settings clock surface) e) {request : Request}
    (hissued : request ∈ e.issued) (reply : Except EditError Response)
    (hcounts : ∀ applied, ((Session.applyOutcome (.ofReply request reply)).exec e.session).1 =
      .ok applied → applied.stale = false) :
    e.issued.getLast? = some request ∧ request.plan = .ofGraph e.session.graph := by
  have hsound := hsteps.sound (sound_start catalogue settings clock surface)
  refine hsound.latest_of_isCurrent hissued ?_
  by_contra hold
  rw [Bool.not_eq_true] at hold
  have hstale : e.session.propagation.apply e.session.editor (.ofReply request reply)
      e.session.revision = (.ok ⟨true, [], []⟩, e.session.propagation, e.session.editor) := by
    unfold Propagation.apply Outcome.ofReply
    rw [hold]
    rfl
  have hreported := hcounts ⟨true, [], []⟩ (by
    unfold Session.applyOutcome
    rw [Attempt.exec_of, hstale])
  cases hreported

/-- A request is built, an operator is added, another request is built, and its answer comes. -/
theorem latest_of_not_stale_second :
    let scan : TypeSchema := ⟨"Scan", .object [], ⟨"Scan", none, "Input", 0, 0⟩, "1"⟩
    let opened := start (.ofMetadata ⟨[scan], []⟩) .initial id Blank.mk
    let drawn := (opened.after .buildRequest).after
      (.act (.addOperator ⟨"scan", "Scan", "1", .object [], [], [], false⟩ .origin))
    let e := drawn.after .buildRequest
    let request := drawn.session.buildRequest.1
    let reply : Except EditError Response := .ok ⟨0, ∅, none⟩
    ((Session.applyOutcome (.ofReply request reply)).exec e.session).1 = .ok ⟨false, [], []⟩ ∧
      e.issued.length = 2 ∧ e.issued.getLast? = some request ∧
      request.plan = .ofGraph e.session.graph := by
  intro scan opened drawn e request reply
  have hresult : ((Session.applyOutcome (.ofReply request reply)).exec e.session).1 =
      .ok ⟨false, [], []⟩ := rfl
  have hsteps : Steps opened e :=
    ((Relation.ReflTransGen.single (.call _)).tail (.call _)).tail (.call _)
  have hissued : request ∈ e.issued := List.mem_append_right _ (List.mem_singleton_self request)
  refine ⟨hresult, rfl, latest_of_not_stale _ _ _ _ hsteps hissued reply fun applied happlied => ?_⟩
  rw [hresult] at happlied
  cases happlied
  rfl

end Exchange

end PipelineEditor
