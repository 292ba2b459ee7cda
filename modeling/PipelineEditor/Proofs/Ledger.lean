import Mathlib.Data.List.Nodup
import PipelineEditor.Proofs.Run

/-!
# The ledger of requests

Requests are numbered as they are issued, and each is made from the graph of its moment.  A ledger
lists them.  Between calls the latest request is of the present revision only as long as the plan of
the graph has stayed the same: whatever changes the plan is announced, and makes for a new revision
when the events are handed on.

## Main definitions

* `Graph.SameShape g g'`: the same operators and the same links
* `Draft.Undisturbed`: nothing that is announced concerns schemas
* `Dispatcher.Carries issued`: a dispatcher holds requests of the ledger and their answers only
* `Session.Ledger s issued`: the requests issued so far
* `Session.Grows s s'`: what is issued from one state to another goes to the outbox

## Main results

* `Draft.Steps.sameShape`: an undisturbed draft has the operators and links it had
* `Session.Ledger.settle`: handing events on keeps the ledger
* `Session.Steps.grows`: so do all steps without traffic
-/

namespace PipelineEditor

/-! ## What concerns schemas -/

/-- **The same operators and the same links**, wherever the operators stand. -/
structure Graph.SameShape (g g' : Graph) : Prop where
  operators : g'.operators = g.operators
  links : g'.links = g.links

namespace Graph.SameShape

variable {g g' g'' : Graph}

theorem refl (g : Graph) : g.SameShape g := ⟨rfl, rfl⟩

theorem trans (h : g.SameShape g') (h' : g'.SameShape g'') : g.SameShape g'' :=
  ⟨h'.operators.trans h.operators, h'.links.trans h.links⟩

/-- Neither breakpoints nor positions are part of a plan. -/
theorem plan_eq (h : g.SameShape g') : Plan.ofGraph g' = Plan.ofGraph g := by
  obtain ⟨_, _, _, _⟩ := g
  obtain ⟨_, _, _, _⟩ := g'
  obtain ⟨rfl, rfl⟩ := h
  rfl

end Graph.SameShape

/-- What a mutation changes of operators and links, it tells of. -/
theorem Mutation.sameShape {m : Mutation} {g g' : Graph} {events : List Event}
    (hstep : m.step g = .ok (g', events)) (hquiet : ∀ event ∈ events, event.affectsSchema = false) :
    g.SameShape g' := by
  cases m with
  | addOperator op position =>
    obtain ⟨-, heq⟩ := Graph.addOperator_eq_ok_iff.mp hstep
    cases heq
    cases hquiet _ (List.mem_singleton_self _)
  | deleteOperator id =>
    obtain ⟨op, -, heq⟩ := Graph.deleteOperator_eq_ok_iff.mp hstep
    cases heq
    cases hquiet _ (List.mem_append_right _ (List.mem_singleton_self _))
  | addLink link =>
    obtain ⟨-, heq⟩ := Graph.addLink_eq_ok_iff.mp hstep
    cases heq
    cases hquiet _ (List.mem_singleton_self _)
  | deleteLink id =>
    obtain ⟨link, -, heq⟩ := Graph.deleteLink_eq_ok_iff.mp hstep
    cases heq
    cases hquiet _ (List.mem_singleton_self _)
  | setProperties id properties =>
    obtain ⟨op, -, heq⟩ := Graph.setProperties_eq_ok_iff.mp hstep
    cases heq
    cases hquiet _ (List.mem_singleton_self _)
  | setDisabled id disabled =>
    obtain ⟨op, hget, heq⟩ := Graph.setDisabled_eq_ok_iff.mp hstep
    cases heq
    -- Setting the flag to what it is announces nothing, and replaces the operator by itself.
    by_cases hsame : op.disabled = disabled
    · rw [← hsame, Dict.insert_self hget]
      exact .refl g
    · rw [if_neg hsame] at hquiet
      cases hquiet _ (List.mem_singleton_self _)
  | setBreakpoint id breakpoint =>
    obtain ⟨-, heq⟩ := Graph.setBreakpoint_eq_ok_iff.mp hstep
    cases heq
    exact ⟨rfl, rfl⟩
  | setPosition id position =>
    obtain ⟨-, heq⟩ := Graph.setPosition_eq_ok_iff.mp hstep
    cases heq
    exact ⟨rfl, rfl⟩

namespace Draft

variable {catalogue : Catalogue} {d d' : Draft}

/-- **Nothing that is announced concerns schemas.** -/
def Undisturbed (d : Draft) : Prop := ∀ event ∈ d.announced, event.affectsSchema = false

theorem Step.sameShape (hstep : Step catalogue d d') (h : d'.Undisturbed) :
    d.Undisturbed ∧ d.graph.SameShape d'.graph := by
  cases hstep with
  | mutation m _ hm =>
    exact ⟨fun event hmem => h event (List.mem_append_left _ hmem),
      m.sameShape hm fun event hmem => h event (List.mem_append_right _ hmem)⟩
  | lock => exact ⟨fun event hmem => h event (List.mem_append_left _ hmem), .refl _⟩

/-- **An undisturbed draft has the operators and links it had.** -/
theorem Steps.sameShape (hsteps : Steps catalogue d d') (h : d'.Undisturbed) :
    d.Undisturbed ∧ d.graph.SameShape d'.graph := by
  induction hsteps with
  | refl => exact ⟨h, .refl _⟩
  | tail _ hstep ih =>
    obtain ⟨hquiet, hlast⟩ := hstep.sameShape h
    obtain ⟨hquiet', hbefore⟩ := ih hquiet
    exact ⟨hquiet', hbefore.trans hlast⟩

end Draft

/-! ## Dispatchers -/

/-- The outcome is what came back for one of the requests. -/
def Outcome.Answers (issued : List Request) (outcome : Outcome) : Prop :=
  ∃ request ∈ issued, ∃ reply, outcome = .ofReply request reply

theorem Outcome.Answers.mono {issued more : List Request} (hsub : issued ⊆ more) {outcome : Outcome}
    (h : outcome.Answers issued) : outcome.Answers more := by
  obtain ⟨request, hmem, reply, rfl⟩ := h
  exact ⟨request, hsub hmem, reply, rfl⟩

namespace Dispatcher

/-- **All that the dispatcher carries is of the ledger**: the requests, and the answers to them. -/
structure Carries (issued : List Request) (d : Dispatcher) : Prop where
  submitted : d.submitted ⊆ issued
  held : ∀ waiting ∈ d.held, waiting.1 ∈ issued
  inFlight : ∀ call ∈ d.inFlight, call.request ∈ issued
  outcomes : ∀ outcome ∈ d.outcomes, outcome.Answers issued

theorem carries_start (issued : List Request) (quietPeriod : Nat) :
    (start quietPeriod).Carries issued :=
  ⟨List.nil_subset _, fun _ h => (nomatch h), fun _ h => (nomatch h), fun _ h => (nomatch h)⟩

/-- What is taken is the first of the answers. -/
theorem take?_eq_some {d left : Dispatcher} {outcome : Outcome}
    (htake : d.take? = some (outcome, left)) :
    ∃ rest, d.outcomes = outcome :: rest ∧ left = { d with outcomes := rest } := by
  unfold take? at htake
  split at htake
  · cases htake
  · rename_i rest houtcomes
    cases htake
    exact ⟨rest, houtcomes, rfl⟩

namespace Carries

variable {issued : List Request} {d : Dispatcher}

theorem mono (h : d.Carries issued) {more : List Request} (hsub : issued ⊆ more) :
    d.Carries more where
  submitted _ hmem := hsub (h.submitted hmem)
  held waiting hmem := hsub (h.held waiting hmem)
  inFlight call hmem := hsub (h.inFlight call hmem)
  outcomes outcome hmem := (h.outcomes outcome hmem).mono hsub

theorem submit (h : d.Carries issued) (request : Request) :
    (d.submit request).Carries (issued ++ [request]) := by
  have hmore := h.mono (List.subset_append_left issued [request])
  exact ⟨List.append_subset.mpr ⟨hmore.submitted, List.subset_append_right _ _⟩, hmore.held,
    hmore.inFlight, hmore.outcomes⟩

theorem receive (h : d.Carries issued) : d.receive.Carries issued := by
  unfold Dispatcher.receive
  split
  · exact h
  · rename_i request rest hsubmitted
    have hall := hsubmitted ▸ h.submitted
    obtain ⟨hrequest, hrest⟩ := List.cons_subset.mp hall
    refine ⟨hrest, ?_, h.inFlight, h.outcomes⟩
    rintro _ ⟨⟩
    exact hrequest

theorem receiveAll (h : d.Carries issued) : d.receiveAll.Carries issued := by
  have hfold (requests : List Request) {d : Dispatcher} (h : d.Carries issued) :
      (requests.foldl (fun d _ => d.receive) d).Carries issued := by
    induction requests generalizing d with
    | nil => exact h
    | cons request rest ih => exact ih h.receive
  exact hfold _ h

theorem send (h : d.Carries issued) (service : Service) : (d.send service).1.Carries issued := by
  unfold Dispatcher.send
  split
  · exact h
  · rename_i request quiet hheld
    refine ⟨h.submitted, fun _ hmem => (nomatch hmem), fun call hmem => ?_, h.outcomes⟩
    rcases List.mem_append.mp hmem with hmem | hmem
    · exact h.inFlight call hmem
    · obtain rfl := List.mem_singleton.mp hmem
      exact h.held _ hheld

theorem deliver (h : d.Carries issued) (place : Nat) : (d.deliver place).Carries issued := by
  unfold Dispatcher.deliver
  split
  · exact h
  · rename_i call hcall
    refine ⟨h.submitted, h.held, fun other hmem => ?_, fun outcome hmem => ?_⟩
    · exact h.inFlight other (List.mem_of_mem_eraseIdx hmem)
    · rcases List.mem_append.mp hmem with hmem | hmem
      · exact h.outcomes outcome hmem
      · obtain rfl := List.mem_singleton.mp hmem
        exact ⟨call.request, h.inFlight call (List.mem_of_getElem? hcall), call.result, rfl⟩

theorem fire (h : d.Carries issued) (service : Service) (timer : Timer) :
    (d.fire service timer).1.Carries issued := by
  cases timer with
  | quiet => exact h.send service
  | answer place => exact h.deliver place

theorem setNow (h : d.Carries issued) (now : Nat) : Carries issued { d with now } :=
  ⟨h.submitted, h.held, h.inFlight, h.outcomes⟩

theorem elapse (h : d.Carries issued) (untilAnswer : Bool) (moment timers : Nat)
    (service : Service) : (d.elapse untilAnswer moment timers service).1.Carries issued := by
  induction timers generalizing d service with
  | zero => exact h.setNow moment
  | succ timers ih =>
    unfold Dispatcher.elapse
    split
    · exact h
    · split
      · exact h.setNow moment
      · split
        · exact ih ((h.setNow _).fire service _) _
        · exact h.setNow moment

theorem advance (h : d.Carries issued) (service : Service) (duration : Nat) :
    (d.advance service duration).1.Carries issued := by
  unfold Dispatcher.advance
  split
  · exact h
  · exact h.receiveAll.elapse ..

/-- An answer that is taken is one to a request of the ledger. -/
theorem take? (h : d.Carries issued) {outcome : Outcome} {left : Dispatcher}
    (htake : d.take? = some (outcome, left)) : outcome.Answers issued ∧ left.Carries issued := by
  obtain ⟨rest, houtcomes, rfl⟩ := take?_eq_some htake
  have hall : ∀ other ∈ outcome :: rest, other.Answers issued := houtcomes ▸ h.outcomes
  exact ⟨hall _ List.mem_cons_self, h.submitted, h.held, h.inFlight,
    fun other hmem => hall other (List.mem_cons_of_mem _ hmem)⟩

/-- So is an answer that was waited for. -/
theorem await (h : d.Carries issued) (service : Service) (patience : Nat) :
    (∀ outcome ∈ (d.await service patience).1, outcome.Answers issued) ∧
      (d.await service patience).2.1.Carries issued := by
  unfold Dispatcher.await
  cases htake : d.take? with
  | some taken =>
    obtain ⟨houtcome, hleft⟩ := h.take? htake
    exact ⟨fun _ heq => Option.some.inj heq ▸ houtcome, hleft⟩
  | none =>
    have hlater := h.receiveAll.elapse true (d.receiveAll.now + patience) d.receiveAll.timerBound
      service
    dsimp only
    generalize d.receiveAll.elapse true _ _ service = left at hlater
    obtain ⟨later, service'⟩ := left
    dsimp only at hlater ⊢
    cases htake' : later.take? with
    | some taken =>
      obtain ⟨houtcome, hleft⟩ := hlater.take? htake'
      exact ⟨fun _ heq => Option.some.inj heq ▸ houtcome, hleft⟩
    | none => exact ⟨fun _ heq => (nomatch heq), hlater⟩

end Carries

end Dispatcher

/-! ## Traffic -/

/-- What a session keeps of its traffic with the inference service. -/
structure Traffic where
  nextSequence : Nat
  latestIssued : Option Nat
  dispatcher : Option Dispatcher
  revision : Nat

namespace Session

variable {σ : Type} {s s' : Session σ} {issued : List Request}

def traffic (s : Session σ) : Traffic :=
  ⟨s.propagation.nextSequence, s.propagation.latestIssued, s.dispatcher, s.revision⟩

@[simp] theorem publish_traffic (events : List Event) (s : Session σ) :
    (s.publish events).traffic = s.traffic := rfl

/-- The requests that wait for the dispatcher to receive them. -/
def outbox (s : Session σ) : List Request := (s.dispatcher.map (·.submitted)).getD []

/-- A schema change counts, and makes for a request if there is a way to the service. -/
theorem revise_traffic (s : Session σ) :
    s.revise.traffic =
      match s.dispatcher with
      | none => { s.traffic with revision := s.revision + 1 }
      | some d =>
        ⟨s.propagation.nextSequence + 1, some s.propagation.nextSequence,
          some (d.submit ⟨s.propagation.nextSequence, s.revision + 1, .ofGraph s.graph⟩),
          s.revision + 1⟩ := by
  unfold traffic revise schedule
  cases s.dispatcher with
  | none => rfl
  | some d => rfl

/-- Handing events on is traffic only where they concern schemas. -/
theorem settle_traffic [Surface σ] (s : Session σ) :
    s.settle.traffic =
      if s.editor.draft.announced.any Event.affectsSchema then s.revise.traffic else s.traffic := by
  unfold settle Editor.takeEvents
  dsimp only
  split
  · rename_i hempty
    rw [List.isEmpty_iff.mp hempty]
    rfl
  · split <;> split <;> simp only [publish_traffic, revise_traffic] <;> rfl

/-! ## Ledgers -/

/-- **The requests issued so far**, oldest first: they are numbered from one on, and the latest is
made from the present graph if the graph has not been revised since. -/
structure Ledger (s : Session σ) (issued : List Request) : Prop where
  sound : s.editor.Sound
  numbers : issued.map (·.sequence) = List.range' 1 issued.length
  next : s.propagation.nextSequence = issued.length + 1
  latest : s.propagation.latestIssued = issued.getLast?.map (·.sequence)
  revision : ∀ request ∈ issued.getLast?, request.revision ≤ s.revision
  plan : ∀ request ∈ issued.getLast?, request.revision = s.revision →
    s.editor.draft.Undisturbed → request.plan = .ofGraph s.graph
  carried : ∀ d ∈ s.dispatcher, d.Carries issued

namespace Ledger

/-- Of two requests with one number, both are the same. -/
theorem sequence_inj (h : s.Ledger issued) {request other : Request} (hmem : request ∈ issued)
    (hmem' : other ∈ issued) (heq : request.sequence = other.sequence) : request = other := by
  have hnodup : (issued.map (·.sequence)).Nodup := h.numbers ▸ List.nodup_range'
  exact List.inj_on_of_nodup_map hnodup hmem hmem' heq

/-- Where there is no traffic and the plan stays, the ledger is as before. -/
theorem congr (h : s.Ledger issued) (htraffic : s'.traffic = s.traffic)
    (hsound : s'.editor.Sound)
    (hplan : s'.editor.draft.Undisturbed →
      s.editor.draft.Undisturbed ∧ Plan.ofGraph s'.graph = Plan.ofGraph s.graph) :
    s'.Ledger issued := by
  obtain ⟨hnext, hlatest, hdispatcher, hrevision⟩ := Traffic.mk.inj htraffic
  refine ⟨hsound, h.numbers, hnext.trans h.next, hlatest.trans h.latest, ?_, ?_, ?_⟩
  · exact fun request hlast => hrevision ▸ h.revision request hlast
  · intro request hlast hcurrent hquiet
    obtain ⟨hquiet', heq⟩ := hplan hquiet
    rw [heq]
    exact h.plan request hlast (hcurrent.trans hrevision) hquiet'
  · rw [hdispatcher]
    exact h.carried

/-- A request that is made from the present graph, with the next number, goes on the ledger. -/
theorem issue (h : s.Ledger issued) {request : Request}
    (hsequence : request.sequence = s.propagation.nextSequence)
    (hrevision : request.revision = s'.revision) (hplan : request.plan = .ofGraph s'.graph)
    (hnext : s'.propagation.nextSequence = s.propagation.nextSequence + 1)
    (hlatest : s'.propagation.latestIssued = some request.sequence) (hsound : s'.editor.Sound)
    (hcarried : ∀ d ∈ s'.dispatcher, d.Carries (issued ++ [request])) :
    s'.Ledger (issued ++ [request]) := by
  have hlast {last : Request} (hmem : last ∈ (issued ++ [request]).getLast?) : last = request := by
    rw [List.getLast?_concat] at hmem
    exact (Option.some.inj hmem).symm
  refine ⟨hsound, ?_, ?_, ?_, ?_, ?_, hcarried⟩
  · rw [List.map_append, h.numbers, List.map_singleton, hsequence, h.next, List.length_append,
      List.length_singleton, List.range'_concat, Nat.one_mul, Nat.add_comm]
  · rw [hnext, h.next, List.length_append, List.length_singleton]
  · rw [hlatest, List.getLast?_concat]
    rfl
  · intro last hmem
    rw [hlast hmem]
    exact Nat.le_of_eq hrevision
  · intro last hmem _ _
    rw [hlast hmem, hplan]

/-- Where the graph is revised and nothing is issued, no request of the ledger is current. -/
theorem outdate (h : s.Ledger issued)
    (htraffic : s'.traffic = { s.traffic with revision := s.revision + 1 })
    (hsound : s'.editor.Sound) : s'.Ledger issued := by
  obtain ⟨hnext, hlatest, hdispatcher, hrevision⟩ := Traffic.mk.inj htraffic
  refine ⟨hsound, h.numbers, hnext.trans h.next, hlatest.trans h.latest, ?_, ?_, ?_⟩
  · intro request hlast
    have hbefore := h.revision request hlast
    omega
  · intro request hlast hcurrent
    have hbefore := h.revision request hlast
    omega
  · rw [hdispatcher]
    exact h.carried

/-- **Handing events on keeps the ledger**: it issues at most one request, by the outbox. -/
theorem settle [Surface σ] (h : s.Ledger issued) :
    ∃ new, s.settle.outbox = s.outbox ++ new ∧ s.settle.Ledger (issued ++ new) := by
  have hsound : s.settle.editor.Sound := by
    rw [settle_editor]
    exact ⟨h.sound.graph, h.sound.history, h.sound.bundled⟩
  have htraffic := settle_traffic s
  split at htraffic
  · rw [revise_traffic] at htraffic
    cases hdispatcher : s.dispatcher with
    | none =>
      rw [hdispatcher] at htraffic
      refine ⟨[], ?_, ?_⟩
      · unfold outbox
        rw [(Traffic.mk.inj htraffic).2.2.1, traffic, List.append_nil]
      · rw [List.append_nil]
        exact h.outdate htraffic hsound
    | some d =>
      rw [hdispatcher] at htraffic
      obtain ⟨hnext, hlatest, hdispatcher', hrevision⟩ := Traffic.mk.inj htraffic
      -- The request that is scheduled is made from the graph after the whole call.
      let request : Request := ⟨s.propagation.nextSequence, s.revision + 1, .ofGraph s.graph⟩
      refine ⟨[request], ?_, h.issue rfl hrevision.symm ?_ hnext hlatest hsound ?_⟩
      · unfold outbox
        rw [hdispatcher', hdispatcher]
        rfl
      · rw [settle_graph]
      · rw [hdispatcher']
        rintro _ ⟨⟩
        exact (h.carried d hdispatcher).submit _
  · rename_i hquiet
    refine ⟨[], ?_, ?_⟩
    · unfold outbox
      rw [(Traffic.mk.inj htraffic).2.2.1, List.append_nil]
    · rw [List.append_nil]
      refine h.congr htraffic hsound fun _ => ⟨?_, congrArg _ (settle_graph s)⟩
      simpa [Draft.Undisturbed] using hquiet

end Ledger

/-! ## Growth -/

/-- **What is issued from one state to the other goes to the outbox**, and on the ledger. -/
def Grows (s s' : Session σ) : Prop :=
  ∀ issued, s.Ledger issued → ∃ new, s'.outbox = s.outbox ++ new ∧ s'.Ledger (issued ++ new)

instance : Std.Refl (α := Session σ) Grows :=
  ⟨fun s issued h => ⟨[], by rw [List.append_nil], by rwa [List.append_nil]⟩⟩

instance : IsTrans (Session σ) Grows where
  trans s s' s'' h h' issued hledger := by
    obtain ⟨new, hbox, hledger'⟩ := h issued hledger
    obtain ⟨more, hbox', hledger''⟩ := h' _ hledger'
    refine ⟨new ++ more, ?_, ?_⟩
    · rw [hbox', hbox, List.append_assoc]
    · rwa [← List.append_assoc]

/-- Where nothing is issued, the ledger grows by nothing. -/
theorem grows_of_ledger (hbox : s'.outbox = s.outbox)
    (h : ∀ issued, s.Ledger issued → s'.Ledger issued) : Grows s s' := fun issued hledger =>
  ⟨[], by rw [hbox, List.append_nil], by rw [List.append_nil]; exact h issued hledger⟩

variable [Surface σ]

/-- A step without traffic issues what the outbox tells. -/
theorem Step.grows (hstep : Step False s s') : Grows s s' := by
  cases hstep with
  | edit _ hedit =>
    refine grows_of_ledger rfl fun issued h => h.congr rfl (hedit.2 h.sound).1 fun hquiet => ?_
    obtain ⟨hquiet', hshape⟩ := (hedit.2 h.sound).2.sameShape hquiet
    exact ⟨hquiet', hshape.plan_eq⟩
  | draw =>
    exact grows_of_ledger rfl fun issued h => h.congr rfl h.sound fun hquiet => ⟨hquiet, rfl⟩
  | notify =>
    exact grows_of_ledger rfl fun issued h => h.congr rfl h.sound fun hquiet => ⟨hquiet, rfl⟩
  | settle => exact fun issued h => h.settle
  | learn =>
    exact grows_of_ledger rfl fun issued h => h.congr rfl h.sound fun hquiet => ⟨hquiet, rfl⟩
  | exchange hfalse => exact hfalse.elim

/-- **Steps without traffic issue what the outbox tells.** -/
theorem Steps.grows (hsteps : Steps False s s') : Grows s s' := by
  induction hsteps with
  | refl => exact refl_of Grows s
  | tail _ hstep ih => exact trans_of Grows ih hstep.grows

end Session

end PipelineEditor
