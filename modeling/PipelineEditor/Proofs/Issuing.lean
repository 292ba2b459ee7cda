import Mathlib.Data.List.Nodup
import Mathlib.Data.List.Perm.Basic
import Mathlib.Logic.Relation
import PipelineEditor.Proofs.Ledger

/-!
# Which requests are sent

A dispatcher receives what is submitted in the order in which it was, holds the newest, and sends it
when the quiet period ends; and the service answers the calls in any order.  Whatever the order of
all these events, requests are sent in the order of their numbers, none is left behind but for a
newer one, and each call brings back one outcome at most, its own.

Nothing is assumed of time: the quiet period may end at any moment, and any call in flight may be
answered next.  What falls due as time passes on the clock is one such order of events.

## Main definitions

* `Dispatcher.Record`: a dispatcher and its service, with a log of what has happened
* `Dispatcher.Record.Step`: one event
* `Dispatcher.Record.Superseded`: a newer request has come while the request was held

## Main results

* `Dispatcher.Record.Step.ordered`, `Dispatcher.Record.Step.accounted`: what each event keeps
* `Dispatcher.Record.issuing`: what has been sent, and what has come back, in every order of events
* `Dispatcher.exists_advance`, `Dispatcher.exists_await`: the clock brings about such events
-/

namespace PipelineEditor

namespace Dispatcher

/-! ## Logs -/

/-- What is seen of a dispatcher. -/
inductive Entry where
  | submitted (request : Request)
  | received (request : Request)
  /-- The request is sent, and this is what the service will say to it. -/
  | sent (request : Request) (reply : Reply)
  | taken (outcome : Outcome)

namespace Entry

def submitted? : Entry → Option Request
  | submitted request => some request
  | _ => none

def received? : Entry → Option Request
  | received request => some request
  | _ => none

def sent? : Entry → Option (Request × Reply)
  | sent request reply => some (request, reply)
  | _ => none

def taken? : Entry → Option Outcome
  | taken outcome => some outcome
  | _ => none

end Entry

/-- **A dispatcher at work**, with the service it calls and a log of what has happened. -/
structure Record where
  log : List Entry
  dispatcher : Dispatcher
  service : Service

namespace Record

/-- The requests that have been submitted, in their order. -/
def submitted (r : Record) : List Request := r.log.filterMap Entry.submitted?

/-- The requests that have been received. -/
def received (r : Record) : List Request := r.log.filterMap Entry.received?

/-- The requests that have been sent, with what the service says to them. -/
def sent (r : Record) : List (Request × Reply) := r.log.filterMap Entry.sent?

/-- The requests that have been sent. -/
def issued (r : Record) : List Request := r.sent.map (·.1)

/-- The outcomes that have come back: those that have been taken, and those that wait. -/
def outcomes (r : Record) : List Outcome :=
  r.log.filterMap Entry.taken? ++ r.dispatcher.outcomes

/-- The request that is held, if there is one. -/
def held (r : Record) : List Request := r.dispatcher.held.toList.map (·.1)

/-- **A newer request has been received while the request was held**: nothing was sent after the
request had been received and before the newer one was. -/
def Superseded (r : Record) (request : Request) : Prop :=
  ∃ newer before between after,
    r.log = before ++ .received request :: between ++ .received newer :: after ∧
      (∀ entry ∈ between, entry.sent? = none) ∧ request.sequence < newer.sequence

/-! ## Events -/

/-- **One event.**  Requests are submitted in the order of their numbers. -/
inductive Step (r : Record) : Record → Prop
  | submit (request : Request) (h : ∀ earlier ∈ r.submitted, earlier.sequence < request.sequence) :
      Step r ⟨r.log ++ [.submitted request], r.dispatcher.submit request, r.service⟩
  | receive {request : Request} {rest : List Request}
      (h : r.dispatcher.submitted = request :: rest) :
      Step r ⟨r.log ++ [.received request], r.dispatcher.receive, r.service⟩
  /-- The quiet period ends. -/
  | send {request : Request} {quiet : Nat} (h : r.dispatcher.held = some (request, quiet)) :
      Step r ⟨r.log ++ [.sent request (r.service.call request.plan).1],
        (r.dispatcher.send r.service).1, (r.dispatcher.send r.service).2⟩
  /-- The call at a place among those in flight is answered. -/
  | deliver (place : Nat) : Step r { r with dispatcher := r.dispatcher.deliver place }
  | take {outcome : Outcome} {left : Dispatcher}
      (h : r.dispatcher.take? = some (outcome, left)) :
      Step r ⟨r.log ++ [.taken outcome], left, r.service⟩
  | wait (now : Nat) : Step r { r with dispatcher := { r.dispatcher with now } }

/-- Any number of events. -/
abbrev Steps : Record → Record → Prop := Relation.ReflTransGen Step

variable {r r' : Record}

/-! ## Requests -/

/-- **What is received and sent**: requests are received in the order in which they were submitted,
those that are sent or held are the newest of what was received at some moment, and every other
request was superseded. -/
structure Ordered (r : Record) : Prop where
  increasing : r.submitted.Pairwise (·.sequence < ·.sequence)
  queue : r.received ++ r.dispatcher.submitted = r.submitted
  kept : (r.issued ++ r.held).Sublist r.received
  last : (r.issued ++ r.held).getLast? = r.received.getLast?
  /-- Nothing has been sent since the request was received that is held. -/
  since : ∀ request ∈ r.held, ∃ before after,
    r.log = before ++ .received request :: after ∧ ∀ entry ∈ after, entry.sent? = none
  skipped : ∀ request ∈ r.received, request ∈ r.issued ++ r.held ∨ r.Superseded request

section

variable {more : List Entry} (hlog : r'.log = r.log ++ more)

include hlog

theorem submitted_of_log : r'.submitted = r.submitted ++ more.filterMap Entry.submitted? := by
  unfold submitted
  rw [hlog, List.filterMap_append]

theorem received_of_log : r'.received = r.received ++ more.filterMap Entry.received? := by
  unfold received
  rw [hlog, List.filterMap_append]

theorem sent_of_log : r'.sent = r.sent ++ more.filterMap Entry.sent? := by
  unfold sent
  rw [hlog, List.filterMap_append]

theorem issued_of_log : r'.issued = r.issued ++ (more.filterMap Entry.sent?).map (·.1) := by
  unfold issued
  rw [sent_of_log hlog, List.map_append]

theorem outcomes_of_log
    (houtcomes : more.filterMap Entry.taken? ++ r'.dispatcher.outcomes = r.dispatcher.outcomes) :
    r'.outcomes = r.outcomes := by
  unfold outcomes
  rw [hlog, List.filterMap_append, List.append_assoc, houtcomes]

/-- What was superseded stays so. -/
theorem Superseded.of_log {request : Request} (h : r.Superseded request) :
    r'.Superseded request := by
  obtain ⟨newer, before, between, after, heq, hnone, hlt⟩ := h
  exact ⟨newer, before, between, after ++ more, by simp [hlog, heq], hnone, hlt⟩

/-- Where nothing is received and nothing is sent, what is held goes on to be held. -/
theorem Ordered.of_log (h : r.Ordered) (hnone : ∀ entry ∈ more, entry.received? = none)
    (hquiet : ∀ entry ∈ more, entry.sent? = none)
    (hheld : r'.dispatcher.held = r.dispatcher.held)
    (hincreasing : r'.submitted.Pairwise (·.sequence < ·.sequence))
    (hqueue : r'.received ++ r'.dispatcher.submitted = r'.submitted) : r'.Ordered := by
  have hreceived : r'.received = r.received := by
    rw [received_of_log hlog, List.filterMap_eq_nil_iff.mpr hnone, List.append_nil]
  have hkept : r'.issued ++ r'.held = r.issued ++ r.held := by
    unfold held
    rw [issued_of_log hlog, List.filterMap_eq_nil_iff.mpr hquiet, hheld, List.map_nil,
      List.append_nil]
  refine ⟨hincreasing, hqueue, ?_, ?_, fun request hmem => ?_, ?_⟩
  · rw [hkept, hreceived]
    exact h.kept
  · rw [hkept, hreceived]
    exact h.last
  · have hbefore : request ∈ r.held := by
      unfold held at hmem
      rwa [hheld] at hmem
    obtain ⟨before, after, heq, hafter⟩ := h.since request hbefore
    refine ⟨before, after ++ more, by simp [hlog, heq], fun entry hentry => ?_⟩
    exact (List.mem_append.mp hentry).elim (hafter entry) (hquiet entry)
  · rw [hkept, hreceived]
    exact fun request hmem => (h.skipped request hmem).imp_right (·.of_log hlog)

end

/-- Events that have to do with answers only keep the order of requests. -/
theorem Ordered.congr (h : r.Ordered) {more : List Entry} (hlog : r'.log = r.log ++ more)
    (hmore : ∀ entry ∈ more, ∃ outcome, entry = .taken outcome)
    (hqueue : r'.dispatcher.submitted = r.dispatcher.submitted)
    (hheld : r'.dispatcher.held = r.dispatcher.held) : r'.Ordered := by
  have hnone {β : Type} (see : Entry → Option β) (hsee : ∀ outcome, see (.taken outcome) = none) :
      ∀ entry ∈ more, see entry = none := by
    intro entry hentry
    obtain ⟨outcome, rfl⟩ := hmore entry hentry
    exact hsee outcome
  have hsubmitted : r'.submitted = r.submitted := by
    rw [submitted_of_log hlog, List.filterMap_eq_nil_iff.mpr (hnone _ fun _ => rfl),
      List.append_nil]
  have hreceived : r'.received = r.received := by
    rw [received_of_log hlog, List.filterMap_eq_nil_iff.mpr (hnone _ fun _ => rfl),
      List.append_nil]
  refine h.of_log hlog (hnone _ fun _ => rfl) (hnone _ fun _ => rfl) hheld ?_ ?_
  · rw [hsubmitted]
    exact h.increasing
  · rw [hreceived, hqueue, hsubmitted]
    exact h.queue

/-- A request is submitted after all others. -/
theorem Ordered.submit (h : r.Ordered) {request : Request}
    (hnew : ∀ earlier ∈ r.submitted, earlier.sequence < request.sequence)
    (hlog : r'.log = r.log ++ [.submitted request])
    (hdispatcher : r'.dispatcher = r.dispatcher.submit request) : r'.Ordered := by
  have hsubmitted : r'.submitted = r.submitted ++ [request] := submitted_of_log hlog
  have hreceived : r'.received = r.received := (received_of_log hlog).trans (List.append_nil _)
  have hnone {β : Type} (see : Entry → Option β) (hsee : see (.submitted request) = none) :
      ∀ entry ∈ [Entry.submitted request], see entry = none := by
    intro entry hentry
    rw [List.mem_singleton.mp hentry]
    exact hsee
  refine h.of_log hlog (hnone _ rfl) (hnone _ rfl) (by rw [hdispatcher]; rfl) ?_ ?_
  · rw [hsubmitted, List.pairwise_append]
    exact ⟨h.increasing, List.pairwise_singleton .., fun earlier hmem _ hlast =>
      List.mem_singleton.mp hlast ▸ hnew earlier hmem⟩
  · rw [hsubmitted, hreceived, hdispatcher, ← h.queue, List.append_assoc]
    rfl

/-- A request that is received supersedes the one that was held. -/
theorem Ordered.receive (h : r.Ordered) {request : Request} {rest : List Request}
    (hqueue : r.dispatcher.submitted = request :: rest)
    (hlog : r'.log = r.log ++ [.received request])
    (hdispatcher : r'.dispatcher = r.dispatcher.receive) : r'.Ordered := by
  have hsubmitted : r'.submitted = r.submitted :=
    (submitted_of_log hlog).trans (List.append_nil _)
  have hreceived : r'.received = r.received ++ [request] := received_of_log hlog
  have hissued : r'.issued = r.issued := (issued_of_log hlog).trans (List.append_nil _)
  have hall : r.received ++ request :: rest = r.submitted := hqueue ▸ h.queue
  have hafter : r'.dispatcher.submitted = rest ∧ r'.held = [request] := by
    unfold held
    rw [hdispatcher, Dispatcher.receive, hqueue]
    exact ⟨rfl, rfl⟩
  obtain ⟨hrest, hheld⟩ := hafter
  have hnewer : ∀ earlier ∈ r.received, earlier.sequence < request.sequence := by
    have hincreasing := h.increasing
    rw [← hall, List.pairwise_append] at hincreasing
    exact fun earlier hmem => hincreasing.2.2 earlier hmem request List.mem_cons_self
  refine ⟨?_, ?_, ?_, ?_, fun held hmem => ?_, fun other hmem => ?_⟩
  · rw [hsubmitted]
    exact h.increasing
  · rw [hreceived, hrest, hsubmitted, ← hall, List.append_assoc]
    rfl
  · rw [hissued, hheld, hreceived]
    exact ((List.sublist_append_left ..).trans h.kept).append_right _
  · rw [hissued, hheld, hreceived, List.getLast?_concat, List.getLast?_concat]
  · rw [hheld] at hmem
    rw [List.mem_singleton.mp hmem]
    exact ⟨r.log, [], hlog, fun _ hnil => nomatch hnil⟩
  · rw [hissued, hheld]
    rw [hreceived] at hmem
    rcases List.mem_append.mp hmem with hmem | hmem
    · rcases h.skipped other hmem with hkept | hsuperseded
      · rcases List.mem_append.mp hkept with hissued | hheld
        · exact .inl (List.mem_append_left _ hissued)
        · -- The request that was held has been followed by nothing that was sent.
          obtain ⟨before, after, heq, hnone⟩ := h.since other hheld
          refine .inr ⟨request, before, after, [], ?_, hnone, hnewer other hmem⟩
          simp [hlog, heq]
      · exact .inr (hsuperseded.of_log hlog)
    · exact .inl (List.mem_append_right _ hmem)

/-- The request that is sent was held. -/
theorem Ordered.send (h : r.Ordered) {request : Request} {quiet : Nat} {reply : Reply}
    (hheld : r.dispatcher.held = some (request, quiet))
    (hlog : r'.log = r.log ++ [.sent request reply])
    (hdispatcher : r'.dispatcher = (r.dispatcher.send r.service).1) : r'.Ordered := by
  have hsubmitted : r'.submitted = r.submitted :=
    (submitted_of_log hlog).trans (List.append_nil _)
  have hreceived : r'.received = r.received := (received_of_log hlog).trans (List.append_nil _)
  have hafter : r'.dispatcher.submitted = r.dispatcher.submitted ∧ r'.held = [] := by
    unfold held
    rw [hdispatcher, Dispatcher.send, hheld]
    exact ⟨rfl, rfl⟩
  obtain ⟨hqueue, hnone⟩ := hafter
  -- The request moves from what is held to what is issued, so both together stay as they are.
  have hkept : r'.issued ++ r'.held = r.issued ++ r.held := by
    have hbefore : r.held = [request] := by
      unfold held
      rw [hheld]
      rfl
    rw [issued_of_log hlog, hnone, hbefore, List.append_nil]
    rfl
  refine ⟨?_, ?_, ?_, ?_, fun held hmem => ?_, ?_⟩
  · rw [hsubmitted]
    exact h.increasing
  · rw [hreceived, hqueue, hsubmitted]
    exact h.queue
  · rw [hkept, hreceived]
    exact h.kept
  · rw [hkept, hreceived]
    exact h.last
  · rw [hnone] at hmem
    cases hmem
  · rw [hkept, hreceived]
    exact fun other hmem => (h.skipped other hmem).imp_right (·.of_log hlog)

/-- **Each event keeps the order of requests.** -/
theorem Step.ordered (h : r.Ordered) (hstep : Step r r') : r'.Ordered := by
  have hnone : ∀ entry ∈ ([] : List Entry), ∃ outcome, entry = .taken outcome :=
    fun _ hmem => nomatch hmem
  cases hstep with
  | submit request hnew => exact h.submit hnew rfl rfl
  | receive hqueue => exact h.receive hqueue rfl rfl
  | send hheld => exact h.send hheld rfl rfl
  | deliver place =>
    refine h.congr (List.append_nil _).symm hnone ?_ ?_
    · unfold Dispatcher.deliver
      split <;> rfl
    · unfold Dispatcher.deliver
      split <;> rfl
  | take htake =>
    obtain ⟨rest, -, rfl⟩ := take?_eq_some htake
    exact h.congr rfl (fun entry hmem => ⟨_, List.mem_singleton.mp hmem⟩) rfl rfl
  | wait now => exact h.congr (List.append_nil _).symm hnone rfl rfl

/-! ## Answers -/

/-- **What is called and answered**: the service has been called for each request that was sent, and
each of the calls is in flight still or has brought back one outcome, its own. -/
structure Accounted (plans : List Plan) (r : Record) : Prop where
  plans : r.service.calls = plans ++ r.issued.map (·.plan)
  inFlight : ∀ call ∈ r.dispatcher.inFlight,
    ∃ sent ∈ r.sent, call.request = sent.1 ∧ call.result = sent.2.result
  outcomes : ∀ outcome ∈ r.outcomes, ∃ sent ∈ r.sent, outcome = .ofReply sent.1 sent.2.result
  balance : (r.outcomes.map (·.sequence) ++
    r.dispatcher.inFlight.map (·.request.sequence)).Perm (r.issued.map (·.sequence))

/-- Events that have to do with requests before they are sent leave the answers as they are. -/
theorem Accounted.congr {plans : List Plan} (h : r.Accounted plans) (hsent : r'.sent = r.sent)
    (houtcomes : r'.outcomes = r.outcomes)
    (hinFlight : r'.dispatcher.inFlight = r.dispatcher.inFlight)
    (hservice : r'.service = r.service) : r'.Accounted plans := by
  have hissued : r'.issued = r.issued := congrArg (List.map _) hsent
  refine ⟨?_, ?_, ?_, ?_⟩
  · rw [hservice, hissued]
    exact h.plans
  · rw [hinFlight, hsent]
    exact h.inFlight
  · rw [houtcomes, hsent]
    exact h.outcomes
  · rw [houtcomes, hinFlight, hissued]
    exact h.balance

/-- A request that is sent is one more call in flight. -/
theorem Accounted.send {plans : List Plan} (h : r.Accounted plans) {request : Request}
    {quiet : Nat} (hheld : r.dispatcher.held = some (request, quiet)) :
    Accounted plans ⟨r.log ++ [.sent request (r.service.call request.plan).1],
      (r.dispatcher.send r.service).1, (r.dispatcher.send r.service).2⟩ := by
  have hsend : r.dispatcher.send r.service = ({ r.dispatcher with
      held := none
      inFlight := r.dispatcher.inFlight ++ [⟨request,
        r.dispatcher.now + (r.service.call request.plan).1.delay,
        (r.service.call request.plan).1.result⟩] }, (r.service.call request.plan).2) := by
    unfold Dispatcher.send
    rw [hheld]
  rw [hsend]
  -- The reply is fixed as the request is sent; from here on only its delay and its result count.
  generalize hreply : (r.service.call request.plan).1 = reply
  let r' : Record := ⟨r.log ++ [.sent request reply], { r.dispatcher with
    held := none
    inFlight := r.dispatcher.inFlight ++ [⟨request, r.dispatcher.now + reply.delay,
      reply.result⟩] }, (r.service.call request.plan).2⟩
  have hlog : r'.log = r.log ++ [.sent request reply] := rfl
  have hsent : r'.sent = r.sent ++ [(request, reply)] := sent_of_log hlog
  have hissued : r'.issued = r.issued ++ [request] := issued_of_log hlog
  have houtcomes : r'.outcomes = r.outcomes := outcomes_of_log hlog rfl
  show r'.Accounted plans
  refine ⟨?_, fun call hmem => ?_, fun outcome hmem => ?_, ?_⟩
  · rw [hissued, List.map_append, ← List.append_assoc, ← h.plans]
    rfl
  · rw [hsent]
    rcases List.mem_append.mp hmem with hmem | hmem
    · obtain ⟨sent, hsent, heq⟩ := h.inFlight call hmem
      exact ⟨sent, List.mem_append_left _ hsent, heq⟩
    · rw [List.mem_singleton.mp hmem]
      exact ⟨_, List.mem_append_right _ (List.mem_singleton_self _), rfl, rfl⟩
  · rw [houtcomes] at hmem
    obtain ⟨sent, hmem, heq⟩ := h.outcomes outcome hmem
    exact ⟨sent, hsent ▸ List.mem_append_left _ hmem, heq⟩
  · have hinFlight : r'.dispatcher.inFlight.map (·.request.sequence) =
        r.dispatcher.inFlight.map (·.request.sequence) ++ [request.sequence] := List.map_append
    rw [houtcomes, hissued, hinFlight, List.map_append, ← List.append_assoc]
    exact h.balance.append_right _

/-- A call that is answered is in flight no more, and its outcome comes last. -/
theorem Accounted.deliver {plans : List Plan} (h : r.Accounted plans) (place : Nat) :
    Accounted plans { r with dispatcher := r.dispatcher.deliver place } := by
  unfold Dispatcher.deliver
  split
  · exact h
  · rename_i call hcall
    obtain ⟨hplace, rfl⟩ := List.getElem?_eq_some_iff.mp hcall
    have hmem : r.dispatcher.inFlight[place] ∈ r.dispatcher.inFlight := List.getElem_mem hplace
    let r' : Record := { r with dispatcher := { r.dispatcher with
      inFlight := r.dispatcher.inFlight.eraseIdx place
      outcomes := r.dispatcher.outcomes ++ [.ofReply r.dispatcher.inFlight[place].request
        r.dispatcher.inFlight[place].result] } }
    have houtcomes : r'.outcomes = r.outcomes ++ [.ofReply r.dispatcher.inFlight[place].request
        r.dispatcher.inFlight[place].result] := (List.append_assoc ..).symm
    show r'.Accounted plans
    refine ⟨h.plans, fun other hother => ?_, fun outcome houtcome => ?_, ?_⟩
    · exact h.inFlight other (List.mem_of_mem_eraseIdx hother)
    · rw [houtcomes] at houtcome
      rcases List.mem_append.mp houtcome with houtcome | houtcome
      · exact h.outcomes outcome houtcome
      · obtain ⟨sent, hsent, hrequest, hresult⟩ := h.inFlight _ hmem
        rw [List.mem_singleton.mp houtcome, hrequest, hresult]
        exact ⟨sent, hsent, rfl⟩
    · -- The number moves from the calls to the outcomes.
      have hcalls := (List.getElem_cons_eraseIdx_perm hplace).map (·.request.sequence)
      rw [houtcomes, List.map_append, List.append_assoc]
      exact (hcalls.append_left _).trans h.balance

/-- **Each event keeps account of what was sent.** -/
theorem Step.accounted {plans : List Plan} (h : r.Accounted plans) (hstep : Step r r') :
    r'.Accounted plans := by
  cases hstep with
  | submit request =>
    exact h.congr ((sent_of_log rfl).trans (List.append_nil _)) (outcomes_of_log rfl rfl) rfl rfl
  | receive hqueue =>
    have hsame : r.dispatcher.receive.outcomes = r.dispatcher.outcomes ∧
        r.dispatcher.receive.inFlight = r.dispatcher.inFlight := by
      unfold Dispatcher.receive
      rw [hqueue]
      exact ⟨rfl, rfl⟩
    exact h.congr ((sent_of_log rfl).trans (List.append_nil _)) (outcomes_of_log rfl hsame.1)
      hsame.2 rfl
  | send hheld => exact h.send hheld
  | deliver place => exact h.deliver place
  | take htake =>
    obtain ⟨rest, houtcomes, rfl⟩ := take?_eq_some htake
    exact h.congr ((sent_of_log rfl).trans (List.append_nil _))
      (outcomes_of_log rfl houtcomes.symm) rfl rfl
  | wait now => exact h.congr rfl rfl rfl rfl

/-! ## Whatever the order of events -/

/-- A dispatcher that has just been started. -/
def start (quietPeriod : Nat) (service : Service) : Record := ⟨[], .start quietPeriod, service⟩

theorem Steps.ordered {quietPeriod : Nat} {service : Service}
    (hsteps : Steps (start quietPeriod service) r) : r.Ordered := by
  induction hsteps with
  | refl => exact ⟨.nil, rfl, .slnil, rfl, fun _ h => (nomatch h), fun _ h => (nomatch h)⟩
  | tail _ hstep ih => exact hstep.ordered ih

theorem Steps.accounted {quietPeriod : Nat} {service : Service}
    (hsteps : Steps (start quietPeriod service) r) : r.Accounted service.calls := by
  induction hsteps with
  | refl => exact ⟨(List.append_nil _).symm, fun _ h => (nomatch h), fun _ h => (nomatch h), .nil⟩
  | tail _ hstep ih => exact hstep.accounted ih

/-- Requests are sent in the order of their numbers. -/
theorem Ordered.issued_sublist (h : r.Ordered) : r.issued.Sublist r.submitted := by
  rw [← h.queue]
  exact ((List.sublist_append_left ..).trans h.kept).trans (List.sublist_append_left ..)

/-- **What has been sent and what has come back, in every order of events.**

* Requests are received as they were submitted.  The service is called for those that are sent, one
  after the other; these are some of the requests, in the order of their numbers.
* A request that was submitted has been sent, is to be received or held still, or was superseded.
* Where no request waits, the last that was submitted has been sent, once.
* No two outcomes that come back are of one number, and each is what the service said to the request
  of its number, whatever other calls are in flight; what has been sent and brought back no outcome
  is in flight. -/
theorem issuing {quietPeriod : Nat} {service : Service}
    (hsteps : Steps (start quietPeriod service) r) :
    (r.received <+: r.submitted ∧ r.service.calls = service.calls ++ r.issued.map (·.plan) ∧
      r.issued.Sublist r.submitted ∧ r.issued.Pairwise (·.sequence < ·.sequence)) ∧
    (∀ request ∈ r.submitted, request ∈ r.issued ∨ request ∈ r.dispatcher.submitted ∨
      request ∈ r.held ∨ r.Superseded request) ∧
    (r.dispatcher.submitted = [] → r.dispatcher.held = none →
      ∀ last, r.submitted.getLast? = some last → r.issued.count last = 1) ∧
    (r.outcomes.map (·.sequence)).Nodup ∧
    (∀ outcome ∈ r.outcomes, ∃ sent ∈ r.sent, outcome = .ofReply sent.1 sent.2.result ∧
      outcome.sequence = sent.1.sequence ∧ outcome.revision = sent.1.revision) ∧
    (r.outcomes.map (·.sequence) ++ r.dispatcher.inFlight.map (·.request.sequence)).Perm
      (r.issued.map (·.sequence)) := by
  have hordered := hsteps.ordered
  have haccounted := hsteps.accounted
  have hincreasing : r.issued.Pairwise (·.sequence < ·.sequence) :=
    hordered.increasing.sublist hordered.issued_sublist
  refine ⟨⟨⟨_, hordered.queue⟩, haccounted.plans, hordered.issued_sublist, hincreasing⟩,
    fun request hmem => ?_, fun hqueue hheld last hlast => ?_, ?_, fun outcome hmem => ?_,
    haccounted.balance⟩
  · rw [← hordered.queue] at hmem
    rcases List.mem_append.mp hmem with hreceived | hqueued
    · -- What was received is kept, or a later request has taken its place.
      rcases hordered.skipped request hreceived with hkept | hsuperseded
      · rcases List.mem_append.mp hkept with hissued | hheld
        · exact .inl hissued
        · exact .inr (.inr (.inl hheld))
      · exact .inr (.inr (.inr hsuperseded))
    · exact .inr (.inl hqueued)
  · have hreceived : r.received = r.submitted := by
      rw [← hordered.queue, hqueue, List.append_nil]
    have hkept : r.issued ++ r.held = r.issued := by
      unfold held
      rw [hheld]
      exact List.append_nil _
    have hsent := hordered.last
    rw [hkept, hreceived, hlast] at hsent
    -- Numbers increase, so no request is issued twice.
    have hnodup : r.issued.Nodup :=
      hincreasing.imp fun hlt heq => absurd (heq ▸ hlt) (Nat.lt_irrefl _)
    exact List.count_eq_one_of_mem hnodup (List.mem_of_getLast? hsent)
  · have hnumbers : (r.issued.map (·.sequence)).Nodup :=
      List.pairwise_map.mpr (hincreasing.imp Nat.ne_of_lt)
    exact (List.nodup_append.mp (haccounted.balance.nodup_iff.mpr hnumbers)).1
  · obtain ⟨sent, hsent, rfl⟩ := haccounted.outcomes outcome hmem
    exact ⟨sent, hsent, rfl, rfl, rfl⟩

/-- A second request comes while the first is held, and a third while the second is in flight; the
third is answered first. -/
theorem issuing_overtaken :
    let request (number : Nat) : Request := ⟨number, number, ⟨[], []⟩⟩
    let reply : Reply := ⟨0, .ok ⟨0, ∅, none⟩⟩
    let outcome (number : Nat) : Outcome := .ofReply (request number) reply.result
    let r : Record := ⟨[.submitted (request 1), .submitted (request 2), .received (request 1),
      .received (request 2), .sent (request 2) reply, .submitted (request 3), .received (request 3),
      .sent (request 3) reply, .taken (outcome 3)],
      { Dispatcher.start 10 with outcomes := [outcome 2] },
      ⟨fun _ _ => reply, [⟨[], []⟩, ⟨[], []⟩]⟩⟩
    Steps (.start 10 ⟨fun _ _ => reply, []⟩) r ∧ r.issued = [request 2, request 3] ∧
      r.issued.count (request 3) = 1 ∧ r.Superseded (request 1) ∧
      r.outcomes.map (·.sequence) = [3, 2] := by
  intro request reply outcome r
  let service (calls : List Plan) : Service := ⟨fun _ _ => reply, calls⟩
  have hburst : Steps (.start 10 (service [])) ⟨[.submitted (request 1), .submitted (request 2),
      .received (request 1), .received (request 2)],
      { Dispatcher.start 10 with held := some (request 2, 10) }, service []⟩ :=
    .trans (.tail (.single (.submit (request 1) fun _ hmem => nomatch hmem))
      (.submit (request 2) (by decide))) (.tail (.single (.receive rfl)) (.receive rfl))
  have hsecond : Steps _ ⟨[.submitted (request 1), .submitted (request 2), .received (request 1),
      .received (request 2), .sent (request 2) reply, .submitted (request 3),
      .received (request 3)], { Dispatcher.start 10 with
        held := some (request 3, 10), inFlight := [⟨request 2, 0, reply.result⟩] },
      service [⟨[], []⟩]⟩ :=
    .tail (.tail (.tail hburst (.send rfl)) (.submit (request 3) (by decide))) (.receive rfl)
  have hsteps : Steps _ r :=
    .tail (.tail (.tail (.tail hsecond (.send rfl)) (.deliver 1)) (.take rfl)) (.deliver 0)
  obtain ⟨-, hskipped, hsent, -⟩ := issuing hsteps
  refine ⟨hsteps, rfl, hsent rfl rfl (request 3) rfl, ?_, rfl⟩
  rcases hskipped (request 1) List.mem_cons_self with hissued | hqueued | hheld | hsuperseded
  · exact absurd hissued (by decide)
  · cases hqueued
  · cases hheld
  · exact hsuperseded

end Record

/-! ## As time passes -/

open Record (Steps)

theorem exists_receive (log : List Entry) (d : Dispatcher) (service : Service) :
    ∃ log', Steps ⟨log, d, service⟩ ⟨log', d.receive, service⟩ := by
  cases hqueue : d.submitted with
  | nil =>
    have hsame : d.receive = d := by
      unfold receive
      rw [hqueue]
    rw [hsame]
    exact ⟨log, .refl⟩
  | cons request rest => exact ⟨_, .single (.receive hqueue)⟩

theorem exists_receiveAll (log : List Entry) (d : Dispatcher) (service : Service) :
    ∃ log', Steps ⟨log, d, service⟩ ⟨log', d.receiveAll, service⟩ := by
  have hfold (requests : List Request) (log : List Entry) (d : Dispatcher) :
      ∃ log', Steps ⟨log, d, service⟩
        ⟨log', requests.foldl (fun d _ => d.receive) d, service⟩ := by
    induction requests generalizing log d with
    | nil => exact ⟨log, .refl⟩
    | cons request rest ih =>
      obtain ⟨middle, hfirst⟩ := exists_receive log d service
      obtain ⟨last, hrest⟩ := ih middle d.receive
      exact ⟨last, hfirst.trans hrest⟩
  exact hfold _ log d

theorem exists_fire (log : List Entry) (d : Dispatcher) (service : Service) (timer : Timer) :
    ∃ log', Steps ⟨log, d, service⟩
      ⟨log', (d.fire service timer).1, (d.fire service timer).2⟩ := by
  cases timer with
  | quiet =>
    show ∃ log', Steps ⟨log, d, service⟩ ⟨log', (d.send service).1, (d.send service).2⟩
    cases hheld : d.held with
    | none =>
      have hsame : d.send service = (d, service) := by
        unfold send
        rw [hheld]
      rw [hsame]
      exact ⟨log, .refl⟩
    | some waiting => exact ⟨_, .single (.send hheld)⟩
  | answer place => exact ⟨log, .single (.deliver place)⟩

/-- What falls due as time passes is one order of events. -/
theorem exists_elapse (untilAnswer : Bool) (moment timers : Nat) (log : List Entry)
    (d : Dispatcher) (service : Service) :
    ∃ log', Steps ⟨log, d, service⟩ ⟨log', (d.elapse untilAnswer moment timers service).1,
      (d.elapse untilAnswer moment timers service).2⟩ := by
  induction timers generalizing log d service with
  | zero => exact ⟨log, .single (.wait moment)⟩
  | succ timers ih =>
    unfold elapse
    split
    · exact ⟨log, .refl⟩
    · split
      · exact ⟨log, .single (.wait moment)⟩
      · rename_i timer due _
        split
        · obtain ⟨middle, hfirst⟩ :=
            exists_fire log { d with now := max d.now due } service timer
          obtain ⟨last, hrest⟩ := ih middle _ _
          exact ⟨last, .head (.wait (max d.now due)) (hfirst.trans hrest)⟩
        · exact ⟨log, .single (.wait moment)⟩

/-- **As time passes, a dispatcher goes through events in some order.** -/
theorem exists_advance (log : List Entry) (d : Dispatcher) (service : Service) (duration : Nat) :
    ∃ log', Steps ⟨log, d, service⟩
      ⟨log', (d.advance service duration).1, (d.advance service duration).2⟩ := by
  unfold advance
  split
  · exact ⟨log, .refl⟩
  · obtain ⟨middle, hreceived⟩ := exists_receiveAll log d service
    obtain ⟨last, helapsed⟩ := exists_elapse false (d.receiveAll.now + duration)
      d.receiveAll.timerBound middle d.receiveAll service
    exact ⟨last, hreceived.trans helapsed⟩

/-- **So it does while an answer is waited for**, which is taken last. -/
theorem exists_await (log : List Entry) (d : Dispatcher) (service : Service) (patience : Nat) :
    ∃ log', Steps ⟨log, d, service⟩
      ⟨log' ++ (d.await service patience).1.toList.map .taken, (d.await service patience).2.1,
        (d.await service patience).2.2⟩ := by
  unfold await
  cases htake : d.take? with
  | some taken => exact ⟨log, .single (.take htake)⟩
  | none =>
    obtain ⟨middle, hreceived⟩ := exists_receiveAll log d service
    obtain ⟨last, helapsed⟩ := exists_elapse true (d.receiveAll.now + patience)
      d.receiveAll.timerBound middle d.receiveAll service
    dsimp only
    generalize d.receiveAll.elapse true _ _ service = left at helapsed ⊢
    obtain ⟨later, service'⟩ := left
    dsimp only at helapsed ⊢
    cases htake' : later.take? with
    | some taken => exact ⟨last, (hreceived.trans helapsed).tail (.take htake')⟩
    | none =>
      refine ⟨last, ?_⟩
      rw [Option.toList_none, List.map_nil, List.append_nil]
      exact hreceived.trans helapsed

end Dispatcher

end PipelineEditor
