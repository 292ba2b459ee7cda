import Mathlib.Data.List.Perm.Basic
import Mathlib.Order.Basic
import PipelineEditor.Proofs.Ledger

/-!
# Requests are answered at most once

A dispatcher moves each request along, from those handed in over the one held to those in flight and
at last to the answers, and may drop it on the way; it never makes another copy.  As no number is
given twice, at most one request of a number is on its way at any time, or its answer.

## Main definitions

* `Dispatcher.copies d number`: how many requests and answers of a number are on their way
* `Session.Once s`: no number is on its way twice, and none that is still to be given

## Main results

* `Dispatcher.copies_advance`, `Dispatcher.copies_await`: as time passes, nothing is copied
* `Session.once_after`: after every run each request is answered at most once
-/

namespace PipelineEditor

open Attempt (Keeps)

namespace Dispatcher

variable {d : Dispatcher} {number : Nat}

/-- **How often a number is on its way**, on a request or on its answer. -/
def copies (d : Dispatcher) (number : Nat) : Nat :=
  d.submitted.countP (·.sequence = number) + d.held.toList.countP (·.1.sequence = number) +
    d.inFlight.countP (·.request.sequence = number) + d.outcomes.countP (·.sequence = number)

theorem copies_submit (d : Dispatcher) (request : Request) (number : Nat) :
    (d.submit request).copies number =
      d.copies number + if request.sequence = number then 1 else 0 := by
  simp only [copies, submit, List.countP_append, List.countP_singleton, decide_eq_true_eq]
  omega

/-- The request held before, if there is one, is dropped. -/
theorem copies_receive (d : Dispatcher) (number : Nat) :
    d.receive.copies number ≤ d.copies number := by
  unfold receive
  split
  · exact Nat.le_refl _
  · rename_i request rest hsubmitted
    simp only [copies, hsubmitted, List.countP_cons, Option.toList_some, List.countP_nil]
    omega

theorem copies_receiveAll (d : Dispatcher) (number : Nat) :
    d.receiveAll.copies number ≤ d.copies number := by
  have hfold (requests : List Request) (d : Dispatcher) :
      (requests.foldl (fun d _ => d.receive) d).copies number ≤ d.copies number := by
    induction requests generalizing d with
    | nil => exact Nat.le_refl _
    | cons request rest ih => exact Nat.le_trans (ih d.receive) (d.copies_receive number)
  exact hfold _ d

theorem copies_send (d : Dispatcher) (service : Service) (number : Nat) :
    (d.send service).1.copies number = d.copies number := by
  unfold send
  split
  · rfl
  · rename_i request quiet hheld
    simp only [copies, hheld, List.countP_append, List.countP_cons, Option.toList_some,
      Option.toList_none, List.countP_nil]
    omega

/-- A call that is answered is in flight no more. -/
theorem copies_deliver (d : Dispatcher) (place number : Nat) :
    (d.deliver place).copies number = d.copies number := by
  unfold deliver
  split
  · rfl
  · rename_i call hcall
    obtain ⟨hplace, rfl⟩ := List.getElem?_eq_some_iff.mp hcall
    -- Counting does not see at which place the call was.
    have hperm := (List.getElem_cons_eraseIdx_perm hplace).countP_eq (·.request.sequence = number)
    rw [List.countP_cons] at hperm
    simp only [copies, Outcome.ofReply, List.countP_append, List.countP_singleton]
    omega

theorem copies_fire (d : Dispatcher) (service : Service) (timer : Timer) (number : Nat) :
    (d.fire service timer).1.copies number = d.copies number := by
  cases timer with
  | quiet => exact d.copies_send service number
  | answer place => exact d.copies_deliver place number

theorem copies_elapse (d : Dispatcher) (untilAnswer : Bool) (moment timers : Nat)
    (service : Service) (number : Nat) :
    (d.elapse untilAnswer moment timers service).1.copies number = d.copies number := by
  induction timers generalizing d service with
  | zero => rfl
  | succ timers ih =>
    unfold elapse
    split
    · rfl
    · split
      · rfl
      · split
        · exact (ih _ _).trans (copies_fire _ service _ number)
        · rfl

/-- **As time passes nothing is copied**; what a newer request has replaced is dropped. -/
theorem copies_advance (d : Dispatcher) (service : Service) (duration number : Nat) :
    (d.advance service duration).1.copies number ≤ d.copies number := by
  unfold advance
  split
  · exact Nat.le_refl _
  · exact (copies_elapse _ _ _ _ _ number).trans_le (d.copies_receiveAll number)

/-- An answer that is taken is on its way no more. -/
theorem copies_take? {outcome : Outcome} {left : Dispatcher}
    (htake : d.take? = some (outcome, left)) :
    (∀ number, left.copies number ≤ d.copies number) ∧
      left.copies outcome.sequence < d.copies outcome.sequence := by
  obtain ⟨rest, houtcomes, rfl⟩ := take?_eq_some htake
  simp only [copies, houtcomes, List.countP_cons, decide_true, if_true]
  refine ⟨fun number => ?_, ?_⟩ <;> omega

/-- **While an answer is waited for nothing is copied.** -/
theorem copies_await (d : Dispatcher) (service : Service) (patience : Nat) :
    (∀ number, (d.await service patience).2.1.copies number ≤ d.copies number) ∧
      ∀ outcome ∈ (d.await service patience).1,
        (d.await service patience).2.1.copies outcome.sequence < d.copies outcome.sequence := by
  unfold await
  cases htake : d.take? with
  | some taken =>
    obtain ⟨hle, hlt⟩ := copies_take? htake
    exact ⟨hle, fun _ heq => Option.some.inj heq ▸ hlt⟩
  | none =>
    -- Nothing has come back yet, so time passes, up to the first answer.
    have hlater (number : Nat) : (d.receiveAll.elapse true (d.receiveAll.now + patience)
        d.receiveAll.timerBound service).1.copies number ≤ d.copies number :=
      (copies_elapse _ _ _ _ _ number).trans_le (d.copies_receiveAll number)
    dsimp only
    generalize d.receiveAll.elapse true _ _ service = left at hlater
    obtain ⟨later, service'⟩ := left
    dsimp only at hlater ⊢
    cases htake' : later.take? with
    | some taken =>
      obtain ⟨hle, hlt⟩ := copies_take? htake'
      refine ⟨fun number => Nat.le_trans (hle number) (hlater number), fun _ heq => ?_⟩
      obtain rfl := Option.some.inj heq
      exact Nat.lt_of_lt_of_le hlt (hlater _)
    | none => exact ⟨hlater, fun _ heq => nomatch heq⟩

end Dispatcher

namespace Session

variable {σ : Type} {s s' : Session σ}

/-- **No number is on its way twice**, and none that is still to be given. -/
def Once (s : Session σ) : Prop :=
  ∀ d ∈ s.dispatcher, ∀ number,
    d.copies number ≤ if number < s.propagation.nextSequence then 1 else 0

/-- Numbers on their way are a matter of the traffic. -/
theorem Once.congr (h : s.Once) (htraffic : s'.traffic = s.traffic) : s'.Once := by
  obtain ⟨hnext, -, hdispatcher, -⟩ := Traffic.mk.inj htraffic
  unfold Once
  rwa [hnext, hdispatcher]

theorem Once.setDispatcher (h : s.Once) {d left : Dispatcher} (hdispatcher : s.dispatcher = some d)
    (hleft : ∀ number, left.copies number ≤ d.copies number) :
    Once { s with dispatcher := some left } := by
  rintro _ ⟨⟩ number
  exact Nat.le_trans (hleft number) (h d hdispatcher number)

/-- A request takes the next number, which no other has. -/
theorem once_submit {d : Dispatcher}
    (hd : ∀ number, d.copies number ≤ if number < s.propagation.nextSequence then 1 else 0)
    {request : Request} (hsequence : request.sequence = s.propagation.nextSequence)
    (hnext : s'.propagation.nextSequence = s.propagation.nextSequence + 1)
    (hdispatcher : s'.dispatcher = some (d.submit request)) : s'.Once := by
  rw [Once, hdispatcher, hnext]
  rintro _ ⟨⟩ number
  have hbefore := hd number
  rw [Dispatcher.copies_submit, hsequence]
  -- The count grows only at the new number, of which there was none.
  split at hbefore <;> split <;> split <;> omega

variable [Surface σ]

theorem Once.settle (h : s.Once) : s.settle.Once := by
  have htraffic := settle_traffic s
  split at htraffic
  · rw [revise_traffic] at htraffic
    cases hdispatcher : s.dispatcher with
    | none =>
      rw [hdispatcher] at htraffic
      have hnone : s.settle.dispatcher = none := (Traffic.mk.inj htraffic).2.2.1.trans hdispatcher
      rw [Once, hnone]
      exact fun _ hmem => nomatch hmem
    | some d =>
      rw [hdispatcher] at htraffic
      obtain ⟨hnext, -, hdispatcher', -⟩ := Traffic.mk.inj htraffic
      exact once_submit (h d hdispatcher) rfl hnext hdispatcher'
  · exact h.congr htraffic

theorem Step.once (hstep : Step False s s') (h : s.Once) : s'.Once := by
  cases hstep with
  | settle => exact h.settle
  | exchange hfalse => exact hfalse.elim
  | edit | draw | notify | learn => exact h

theorem Steps.once (hsteps : Steps False s s') (h : s.Once) : s'.Once := by
  induction hsteps with
  | refl => exact h
  | tail _ hstep ih => exact hstep.once ih

/-- The sessions keep each number on its way once, if they did. -/
def StaysOnce (s s' : Session σ) : Prop := s.Once → s'.Once

omit [Surface σ] in
instance : Std.Refl (StaysOnce : Session σ → Session σ → Prop) := ⟨fun _ => id⟩

omit [Surface σ] in
instance : IsTrans (Session σ) StaysOnce := ⟨fun _ _ _ h h' hs => h' (h hs)⟩

theorem applyOutcome_once (outcome : Outcome) :
    Keeps StaysOnce (applyOutcome outcome : Attempt (Session σ) Applied) := fun s =>
  (applyOutcome_keeps outcome s : Steps False s _).once

omit [Surface σ] in
theorem once_taken {outcome : Outcome} (htake : s.takeOutcome? = some (outcome, s')) :
    StaysOnce s s' := by
  obtain ⟨d, left, hdispatcher, hfirst, rfl⟩ := takeOutcome?_eq_some htake
  exact fun h => h.setDispatcher hdispatcher (Dispatcher.copies_take? hfirst).1

omit [Surface σ] in
theorem once_attach (s : Session σ) : s.attach.Once :=
  once_submit (s := s) (d := .start s.settings.quietPeriod) (fun _ => Nat.zero_le _) rfl rfl rfl

theorem Call.once_of_isInternal {call : Call σ} (hinternal : call.isInternal = true) :
    StaysOnce s (call.exec s) := by
  refine Steps.once ((call.steps s).lift id fun _ _ => Step.mono fun hexternal => ?_)
  rw [hinternal] at hexternal
  cases hexternal

/-- **Every call keeps each number on its way once.** -/
theorem Call.once (call : Call σ) : StaysOnce s (call.exec s) := by
  cases call with
  | buildRequest =>
    -- A number is given, but no request with it is handed in.
    intro h d hd number
    refine Nat.le_trans (h d hd number) ?_
    show _ ≤ if number < s.propagation.nextSequence + 1 then 1 else 0
    split <;> split <;> omega
  | attach => exact fun _ => s.once_attach
  | connect =>
    show StaysOnce s s.connect.2
    rcases connect_cases s with heq | heq <;> rw [heq]
    · exact id
    · exact fun _ => s.once_attach
  | advance service duration =>
    show StaysOnce s (s.advance service duration).1
    rcases advance_cases service duration s with heq | ⟨d, hdispatcher, heq⟩ <;> rw [heq]
    · exact id
    · exact fun h => h.setDispatcher hdispatcher (d.copies_advance service duration)
  | next service patience =>
    show StaysOnce s (s.next service patience).2.1
    rcases next_cases service patience s with heq | ⟨d, outcome?, left, hdispatcher, -, rfl, heq⟩
    · rw [heq]
      exact id
    · have hleft : StaysOnce s { s with dispatcher := some (d.await service patience).2.1 } :=
        fun h => h.setDispatcher hdispatcher (d.copies_await service patience).1
      rw [heq]
      cases outcome? with
      | none => exact hleft
      | some outcome => exact fun h => applyOutcome_once outcome _ (hleft h)
  | pump => exact pumpUpTo_keeps once_taken applyOutcome_once _ s
  | applyOutcome outcome => exact applyOutcome_once outcome s
  | _ => exact Call.once_of_isInternal rfl

/-- **After every run each request is answered at most once.** -/
theorem once_after (catalogue : Catalogue) (settings : Settings) (clock : Nat → Nat) (surface : σ)
    (calls : List (Call σ)) : ((start catalogue settings clock surface).after calls).Once := by
  have hrun (s : Session σ) (h : s.Once) : (s.after calls).Once := by
    induction calls generalizing s with
    | nil => exact h
    | cons call rest ih => exact ih _ (call.once h)
  exact hrun _ fun _ hmem => nomatch hmem

end Session

end PipelineEditor
