import PipelineEditor.Proofs.Evolution

/-!
# Events that last

An event of the graph lasts as long as the graph is still as it says: a link that was deleted is
gone, and an operator that was moved stands where it was moved.  What one change tells lasts when
it is done, for no change goes back on what it has told; a sequence of changes may.

## Main definitions

* `Event.echo?`: the gesture by which a surface may echo the event
* `Event.Lasts g`: the graph is still as the event says
* `Action.MakesOne`: the action makes at most one change

## Main results

* `Mutation.lasts`, `Change.lasts`: what a mutation, or a change, tells lasts
* `Editor.Single.lasts`, `Intent.lasts_performAll`: so does what a single call, or a single request
  of a gesture, tells
-/

namespace PipelineEditor

open Attempt (Keeps)

/-! ## Events and graphs -/

namespace Event

/-- The gesture by which a surface may echo the event. -/
def echo? : Event → Option Gesture
  | linkDeleted link => some (.linkShapeDeleted link.id)
  | operatorMoved id position => some (.shapeMoved id position)
  | _ => none

/-- **The graph is still as the event says**: the link is gone, or the operator, if it is there,
stands where it was moved. -/
def Lasts (g : Graph) : Event → Prop
  | linkDeleted link => g.links.get? link.id = none
  | operatorMoved id position =>
    ∀ current, g.positions.get? id = some current → current.same position = true
  | _ => True

theorem lasts_of_echo?_eq_none {event : Event} (h : event.echo? = none) (g : Graph) :
    event.Lasts g := by
  cases event with
  | linkDeleted | operatorMoved => cases h
  | _ => trivial

/-- What belongs to the streams of the inference service, of highlights and of the checks is not
echoed. -/
theorem echo?_of_stream {event : Event} (h : event.stream ≠ .linkDeleted)
    (h' : event.stream ≠ .auxiliary) : event.echo? = none := by
  cases event <;> first | rfl | exact absurd rfl h | exact absurd rfl h'

end Event

/-! ## Mutations and changes -/

/-- Operators are moved to points that are the same as themselves: no coordinate is not-a-number. -/
def Event.Numeric (events : List Event) : Prop :=
  ∀ id position, Event.operatorMoved id position ∈ events → position.same position = true

/-- **What a mutation tells lasts right after it.** -/
theorem Mutation.lasts {m : Mutation} {g g' : Graph} {events : List Event} (h : g.Coherent)
    (hstep : m.step g = .ok (g', events)) (hnumeric : Event.Numeric events) :
    ∀ event ∈ events, event.Lasts g' := by
  cases m with
  | addOperator op position =>
    obtain ⟨-, heq⟩ := Graph.addOperator_eq_ok_iff.mp hstep
    cases heq
    simp [Event.Lasts]
  | deleteOperator id =>
    obtain ⟨op, -, heq⟩ := Graph.deleteOperator_eq_ok_iff.mp hstep
    cases heq
    intro event hmem
    rcases List.mem_append.mp hmem with hmem | hmem
    · obtain ⟨link, hlink, rfl⟩ := List.mem_map.mp hmem
      -- Of a deletion, what is told of the links is what has to last: they are gone.
      show (g.dropLinks (g.linksAt id)).links.get? link.id = none
      rw [Graph.get?_dropLinks_links, if_pos (List.mem_map_of_mem hlink)]
    · rw [List.mem_singleton.mp hmem]
      trivial
  | addLink link =>
    obtain ⟨-, heq⟩ := Graph.addLink_eq_ok_iff.mp hstep
    cases heq
    simp [Event.Lasts]
  | deleteLink id =>
    obtain ⟨link, hget, heq⟩ := Graph.deleteLink_eq_ok_iff.mp hstep
    cases heq
    obtain rfl := h.link_id hget
    simp [Event.Lasts, Graph.dropLink]
  | setProperties id properties =>
    obtain ⟨op, -, heq⟩ := Graph.setProperties_eq_ok_iff.mp hstep
    cases heq
    simp [Event.Lasts]
  | setDisabled id disabled =>
    obtain ⟨op, -, heq⟩ := Graph.setDisabled_eq_ok_iff.mp hstep
    cases heq
    split <;> simp [Event.Lasts]
  | setBreakpoint id breakpoint =>
    obtain ⟨-, heq⟩ := Graph.setBreakpoint_eq_ok_iff.mp hstep
    cases heq
    split <;> simp [Event.Lasts]
  | setPosition id position =>
    obtain ⟨-, heq⟩ := Graph.setPosition_eq_ok_iff.mp hstep
    cases heq
    -- A move onto an equal point is not told, so there is nothing that could last.
    by_cases hsame : (g.positionOf id).same position = true
    · rw [if_pos hsame]
      exact fun _ hmem => absurd hmem List.not_mem_nil
    · rw [if_neg hsame] at hnumeric ⊢
      intro event hmem
      rw [List.mem_singleton.mp hmem]
      intro current hget
      rw [Dict.get?_insert_self] at hget
      cases hget
      exact hnumeric id position List.mem_cons_self

namespace Draft

/-- What was announced is not echoed, and neither is what has been announced since. -/
def StaysSilent (d d' : Draft) : Prop :=
  (∀ event ∈ d.announced, event.echo? = none) → ∀ event ∈ d'.announced, event.echo? = none

instance : Std.Refl StaysSilent := ⟨fun _ h => h⟩

instance : IsTrans Draft StaysSilent := ⟨fun _ _ _ h h' hsilent => h' (h hsilent)⟩

theorem mutate_staysSilent {m : Mutation} (hm : ∀ {g g' : Graph} {events : List Event},
    m.step g = .ok (g', events) → ∀ event ∈ events, event.echo? = none) :
    Keeps StaysSilent (mutate m.step) := by
  intro d hsilent
  rw [exec_mutate]
  rcases hstep : m.step d.graph with cause | ⟨g, events⟩
  · exact hsilent
  · intro event hmem
    exact (List.mem_append.mp hmem).elim (hsilent event) (hm hstep event)

/-- A mutation is the first that announces something, so all that is announced lasts. -/
theorem mutate_lasts (m : Mutation) {d : Draft} (h : d.graph.Coherent) (hstart : d.announced = [])
    (hnumeric : Event.Numeric ((mutate m.step).exec d).2.announced) :
    ∀ event ∈ ((mutate m.step).exec d).2.announced,
      event.Lasts ((mutate m.step).exec d).2.graph := by
  rw [exec_mutate] at hnumeric ⊢
  rcases hstep : m.step d.graph with cause | ⟨g, events⟩ <;> rw [hstep] at hnumeric
  · rw [hstart]
    exact fun _ hmem => nomatch hmem
  · dsimp only at hnumeric ⊢
    rw [hstart, List.nil_append] at hnumeric ⊢
    exact m.lasts h hstep hnumeric

end Draft

namespace Change

theorem restoreLink_staysSilent (saved : SavedLink) :
    Keeps Draft.StaysSilent (restoreLink saved) := by
  refine .bind (Draft.mutate_staysSilent (m := .addLink saved.link) fun hstep => ?_) fun _ => ?_
  · obtain ⟨-, heq⟩ := Graph.addLink_eq_ok_iff.mp hstep
    cases heq
    exact List.forall_mem_singleton.mpr rfl
  · cases saved.breakpoint with
    | none => exact .pure _
    | some breakpoint =>
      refine Draft.mutate_staysSilent (m := .setBreakpoint saved.link.id (some breakpoint))
        fun {g _ events} hstep => ?_
      have hset : g.setBreakpoint saved.link.id (some breakpoint) = .ok (_, events) := hstep
      obtain ⟨-, heq⟩ := Graph.setBreakpoint_eq_ok_iff.mp hset
      cases heq
      split
      · exact fun _ hmem => nomatch hmem
      · exact List.forall_mem_singleton.mpr rfl

/-- **What a change tells lasts**: it is one mutation, or it only adds. -/
theorem lasts {change : Change} {d : Draft} (h : d.graph.Coherent) (hstart : d.announced = [])
    (hnumeric : Event.Numeric (change.apply.exec d).2.announced) :
    ∀ event ∈ (change.apply.exec d).2.announced, event.Lasts (change.apply.exec d).2.graph := by
  have hsilent (hkeeps : Keeps Draft.StaysSilent change.apply) :
      ∀ event ∈ (change.apply.exec d).2.announced, event.Lasts (change.apply.exec d).2.graph := by
    intro event hmem
    refine Event.lasts_of_echo?_eq_none (hkeeps d ?_ event hmem) _
    rw [hstart]
    exact fun _ hmem => nomatch hmem
  cases change with
  | addOperator op position links =>
    refine hsilent (.bind (Draft.mutate_staysSilent (m := .addOperator op position)
      fun hstep => ?_) fun _ => .forM fun saved _ => restoreLink_staysSilent saved)
    obtain ⟨-, heq⟩ := Graph.addOperator_eq_ok_iff.mp hstep
    cases heq
    exact List.forall_mem_singleton.mpr rfl
  | addLink saved => exact hsilent (restoreLink_staysSilent saved)
  | deleteOperator op _ _ => exact Draft.mutate_lasts (.deleteOperator op.id) h hstart hnumeric
  | deleteLink saved => exact Draft.mutate_lasts (.deleteLink saved.link.id) h hstart hnumeric
  | setProperties id _ new => exact Draft.mutate_lasts (.setProperties id new) h hstart hnumeric
  | setDisabled id _ new => exact Draft.mutate_lasts (.setDisabled id new) h hstart hnumeric
  | setBreakpoint id _ new => exact Draft.mutate_lasts (.setBreakpoint id new) h hstart hnumeric
  | move id _ finish => exact Draft.mutate_lasts (.setPosition id finish) h hstart hnumeric

end Change

/-! ## Single calls -/

/-- **What a single call tells lasts.** -/
theorem Editor.Single.lasts {call : Attempt Editor Unit} (hcall : Single call) {e : Editor}
    (h : e.graph.Coherent) (hstart : e.draft.announced = [])
    (hnumeric : Event.Numeric (call.exec e).2.draft.announced) :
    ∀ event ∈ (call.exec e).2.draft.announced, event.Lasts (call.exec e).2.graph := by
  obtain ⟨choice, -, hexec⟩ := hcall
  have hnothing : ∀ event ∈ e.draft.announced, event.Lasts e.graph := by
    rw [hstart]
    exact fun _ hmem => nomatch hmem
  rw [hexec] at hnumeric ⊢
  rcases hchoice : choice e.catalogue e.enabled e.graph with cause | _ | change <;>
    rw [hchoice] at hnumeric
  · exact hnothing
  · exact hnothing
  · have hdraft : ((carryOut (.ok (some change))).exec e).2.draft =
        (change.apply.exec e.draft).2 := by
      rw [carryOut, exec_commit]
      rcases change.apply.exec e.draft with ⟨_ | _, draft⟩
      · rfl
      · exact note_draft change _
    show ∀ event ∈ ((carryOut (.ok (some change))).exec e).2.draft.announced,
      event.Lasts ((carryOut (.ok (some change))).exec e).2.draft.graph
    rw [hdraft] at hnumeric ⊢
    exact Change.lasts h hstart hnumeric

/-- The action makes at most one change. -/
def Action.MakesOne : Action → Prop
  | addAll .. | deleteAll .. | setDisabled .. => False
  | _ => True

theorem Action.MakesOne.single {action : Action} (h : action.MakesOne) :
    Editor.Single action.perform := by
  cases action with
  | addAll | deleteAll | setDisabled => exact h.elim
  | addOperator op position => exact Editor.single_addOperator op position
  | deleteOperator id => exact Editor.single_deleteOperator id
  | addLink link => exact Editor.single_addLink link
  | deleteLink id => exact Editor.single_deleteLink id
  | deleteLinkBetween source target => exact Editor.single_deleteLinkBetween source target
  | setProperties id properties => exact Editor.single_setProperties id properties
  | setBreakpoint id breakpoint => exact Editor.single_setBreakpoint id breakpoint
  | moveOperator id position => exact Editor.single_moveOperator id position

theorem Intent.single_perform (intent : Intent) : Editor.Single intent.perform := by
  cases intent with
  | addLink link => exact Editor.single_addLink link
  | deleteLink id => exact Editor.single_deleteLink id
  | deleteOperator id => exact Editor.single_deleteOperator id
  | moveOperator id position => exact Editor.single_moveOperator id position

/-- So does what a single request tells, or none. -/
theorem Intent.lasts_performAll {intents : List Intent} (hone : intents.length ≤ 1) {e : Editor}
    (h : e.graph.Coherent) (hstart : e.draft.announced = [])
    (hnumeric : Event.Numeric ((performAll intents).exec e).2.draft.announced) :
    ∀ event ∈ ((performAll intents).exec e).2.draft.announced,
      event.Lasts ((performAll intents).exec e).2.graph := by
  match intents, hone with
  | [], _ =>
    intro event hmem
    have hnothing : event ∈ e.draft.announced := hmem
    rw [hstart] at hnothing
    cases hnothing
  | [intent], _ => exact intent.single_perform.lasts h hstart hnumeric

end PipelineEditor
