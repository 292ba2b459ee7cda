import PipelineEditor.Proofs.Answer

/-!
# How outcomes come to a session

A host hands an outcome in, takes the first of the answers that have come back, or waits for one.
Each time it is the dispatcher alone that the outcome is got from, and then the outcome is taken
over.

## Main definitions

* `Delivery`: how an outcome comes
* `Event.isFailureNotice`: the event tells that a request has failed
* `Session.counts s outcome`: the outcome answers the latest request on the present graph, and is
  no failure
* `Session.collect`, `Session.deliver`: the outcome is got, and then it is taken over
* `Session.receive`: the session after outcomes have come one by one

## Main results

* `Session.counts_eq_false_iff`: which outcomes do not count
* `Session.exec_applyOutcome_of_not_counts`: an outcome that does not count is at most told of
* `Session.deliver_ok`: what has come is taken over with success
* `Session.next_eq`, `Session.exec_pump_eq`: waiting and pumping are deliveries
-/

namespace PipelineEditor

/-- The event tells that a request has failed. -/
def Event.isFailureNotice : Event → Bool
  | propagationFailed .. => true
  | _ => false

/-- **How an outcome comes to a session.** -/
inductive Delivery where
  /-- The host hands it in. -/
  | handed (outcome : Outcome)
  /-- It is the first that has come back and was not taken yet. -/
  | pumped
  /-- The host waits for it, up to so long. -/
  | awaited (service : Service) (patience : Nat)

/-- The outcome that comes, if one does, and what becomes of the dispatcher. -/
def Delivery.collect (way : Option Dispatcher) : Delivery → Option Outcome × Option Dispatcher
  | handed outcome => (some outcome, way)
  | pumped =>
    match way with
    | none => (none, none)
    | some d =>
      match d.take? with
      | none => (none, some d)
      | some (outcome, left) => (some outcome, some left)
  | awaited service patience =>
    match way with
    | none => (none, none)
    | some d => ((d.await service patience).1, some (d.await service patience).2.1)

namespace Session

variable {σ : Type}

/-- **The outcome counts**: it answers the latest request, which was made from the present graph,
and it is no failure. -/
def counts (s : Session σ) (outcome : Outcome) : Bool :=
  s.propagation.isCurrent outcome.sequence outcome.revision s.revision && outcome.inferred.isOk

theorem counts_iff {s : Session σ} {outcome : Outcome} : s.counts outcome = true ↔
    s.propagation.isCurrent outcome.sequence outcome.revision s.revision = true ∧
      ∃ result, outcome.inferred = .ok result := by
  unfold counts
  rw [Bool.and_eq_true]
  refine and_congr_right fun _ => ?_
  cases outcome.inferred with
  | error cause => exact ⟨fun h => (nomatch h), fun ⟨_, h⟩ => (nomatch h)⟩
  | ok result => exact ⟨fun _ => ⟨result, rfl⟩, fun _ => rfl⟩

/-- **An outcome does not count** if it is stale, if it tells of a failed request, or if the service
reports a failure by its code. -/
theorem counts_eq_false_iff {s : Session σ} {outcome : Outcome} : s.counts outcome = false ↔
    s.propagation.isCurrent outcome.sequence outcome.revision s.revision = false ∨
      (∃ text, outcome.answer = .error text) ∨
      ∃ response, outcome.answer = .ok response ∧ response.code ≠ 0 := by
  have hinferred : outcome.inferred.isOk = false ↔ (∃ text, outcome.answer = .error text) ∨
      ∃ response, outcome.answer = .ok response ∧ response.code ≠ 0 := by
    unfold Outcome.inferred
    rcases outcome.answer with text | response
    · simp [Except.isOk, Except.toBool]
    · unfold Response.inferred
      by_cases hcode : response.code = 0
      · simp [hcode, Except.isOk, Except.toBool]
      · simp [hcode, Except.isOk, Except.toBool]
  unfold counts
  rw [Bool.and_eq_false_iff, hinferred]

/-- The outcome that comes, if one does, and the session that is to take it over. -/
def collect (s : Session σ) (delivery : Delivery) : Option Outcome × Session σ :=
  ((delivery.collect s.dispatcher).1, { s with dispatcher := (delivery.collect s.dispatcher).2 })

variable [Surface σ]

/-- An outcome comes and is taken over.  Answers what came of it. -/
def deliver (s : Session σ) (delivery : Delivery) : Option (Except EditError Applied) × Session σ :=
  match (s.collect delivery).1 with
  | none => (none, (s.collect delivery).2)
  | some outcome =>
    (some ((applyOutcome outcome).exec (s.collect delivery).2).1,
      ((applyOutcome outcome).exec (s.collect delivery).2).2)

/-- **The session after outcomes have come one by one.** -/
def receive (s : Session σ) (deliveries : List Delivery) : Session σ :=
  deliveries.foldl (fun s delivery => (s.deliver delivery).2) s

variable {s : Session σ} {catalogue : Catalogue}

/-- **An outcome that does not count** is at most told of: nothing else comes of it. -/
theorem exec_applyOutcome_of_not_counts (hsettled : s.Settled) {outcome : Outcome}
    (h : s.counts outcome = false) : ∃ applied : Applied,
      (applyOutcome outcome).exec s = (.ok applied, s.publish applied.events) ∧
        ∀ event ∈ applied.events, event.isFailureNotice = true := by
  -- The notice is not shown, and the editor has nothing to hand on.
  have hexec {applied : Applied} (happly : s.propagation.apply s.editor outcome s.revision =
      (.ok applied, s.propagation, s.editor)) (hshown : s.dispatch applied.events =
        s.publish applied.events) :
      (applyOutcome outcome).exec s = (.ok applied, s.publish applied.events) := by
    have hpublished : (s.publish applied.events).Settled := hsettled
    rw [exec_applyOutcome happly]
    exact congrArg (Except.ok applied, ·) ((congrArg settle hshown).trans hpublished.settle_eq_self)
  rcases hcurrent : s.propagation.isCurrent outcome.sequence outcome.revision s.revision with _ | _
  · exact ⟨_, hexec (Propagation.apply_stale hcurrent _) rfl, fun _ hmem => nomatch hmem⟩
  · rcases hinferred : outcome.inferred with cause | result
    · refine ⟨_, hexec (Propagation.apply_failed hcurrent hinferred _) rfl, fun event hmem => ?_⟩
      rw [List.mem_singleton.mp hmem]
      rfl
    · rw [counts_iff.mpr ⟨hcurrent, result, hinferred⟩] at h
      cases h

omit [Surface σ] in
theorem AtRest.collect (h : s.AtRest catalogue) (delivery : Delivery) :
    (s.collect delivery).2.AtRest catalogue :=
  ⟨h.sound, h.idle, h.settled, h.catalogue⟩

theorem AtRest.deliver (h : s.AtRest catalogue) (delivery : Delivery) :
    (s.deliver delivery).2.AtRest catalogue := by
  unfold Session.deliver
  split
  · exact h.collect delivery
  · rename_i outcome _
    have hstages : Stages (fun _ => False) (fun _ => False) _ _ :=
      applyOutcome_stages outcome (s.collect delivery).2
    exact hstages.atRest (h.collect delivery)

/-- **What has come is taken over with success.** -/
theorem deliver_ok (h : s.AtRest catalogue) (delivery : Delivery) :
    ∀ reply ∈ (s.deliver delivery).1, ∃ applied, reply = .ok applied := by
  unfold deliver
  split
  · exact fun _ hmem => nomatch hmem
  · rintro _ ⟨⟩
    exact applyOutcome_ok (h.collect delivery).idle _

/-- **Who waits for an outcome has it delivered.** -/
theorem next_eq (service : Service) (patience : Nat) (s : Session σ) :
    (s.next service patience).2.1 = (s.deliver (.awaited service patience)).2 := by
  unfold next deliver collect Delivery.collect
  cases s with
  | mk settings editor view validation propagation dispatcher revision published =>
    cases dispatcher with
    | none => rfl
    | some d =>
      dsimp only
      rcases d.await service patience with ⟨_ | outcome, left, service'⟩
      · rfl
      · rfl

omit [Surface σ] in
theorem collect_pumped (s : Session σ) : s.collect .pumped =
    match s.takeOutcome? with
    | none => (none, s)
    | some (outcome, left) => (some outcome, left) := by
  obtain ⟨settings, editor, view, validation, propagation, dispatcher, revision, published⟩ := s
  unfold collect Delivery.collect takeOutcome?
  cases dispatcher with
  | none => rfl
  | some d =>
    dsimp only [Option.bind_eq_bind, Option.bind_some]
    rcases d.take? with _ | ⟨outcome, left⟩
    · rfl
    · rfl

/-- Where nothing has come back, nothing is taken. -/
theorem receive_pumped_of_none (h : s.takeOutcome? = none) (bound : Nat) :
    s.receive (List.replicate bound .pumped) = s := by
  have hdeliver : (s.deliver .pumped).2 = s := by
    unfold deliver
    rw [collect_pumped, h]
  induction bound with
  | zero => rfl
  | succ bound ih =>
    rw [List.replicate_succ]
    exact (congrArg (receive · _) hdeliver).trans ih

/-- So many outcomes are taken over as there are, up to the bound. -/
theorem exec_pumpUpTo_eq (h : s.AtRest catalogue) (bound : Nat) :
    ∃ count, (pumpUpTo bound).exec s = (.ok count, s.receive (List.replicate bound .pumped)) := by
  -- The loop goes on to the bound, for no answer that is taken over makes it fail.
  induction bound generalizing s with
  | zero => exact ⟨0, rfl⟩
  | succ bound ih =>
    cases htake : s.takeOutcome? with
    | none =>
      rw [receive_pumped_of_none htake]
      unfold pumpUpTo
      rw [Attempt.exec_get_bind, htake]
      exact ⟨0, rfl⟩
    | some taken =>
      obtain ⟨outcome, left⟩ := taken
      have hdeliver : s.deliver .pumped = (some ((applyOutcome outcome).exec left).1,
          ((applyOutcome outcome).exec left).2) := by
        unfold deliver
        rw [collect_pumped, htake]
      have hrest := h.deliver .pumped
      obtain ⟨applied, hok⟩ := deliver_ok h .pumped _ (congrArg Prod.fst hdeliver)
      rw [hdeliver] at hrest
      obtain ⟨count, hpump⟩ := ih hrest
      refine ⟨count + 1, ?_⟩
      unfold pumpUpTo
      rw [Attempt.exec_get_bind, htake]
      dsimp only
      rw [Attempt.exec_set_bind, Attempt.exec_bind_ok (Prod.ext hok rfl),
        Attempt.exec_bind_ok hpump, List.replicate_succ]
      unfold receive
      rw [List.foldl_cons, hdeliver]
      rfl

/-- **Pumping has all that has come back delivered**, one by one. -/
theorem exec_pump_eq (h : s.AtRest catalogue) : ∃ count, Session.pump.exec s = (.ok count,
    s.receive (List.replicate ((s.dispatcher.map (·.outcomes.length)).getD 0) .pumped)) :=
  exec_pumpUpTo_eq h _

end Session

end PipelineEditor
