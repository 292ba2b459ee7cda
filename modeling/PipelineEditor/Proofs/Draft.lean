import Mathlib.Logic.Relation
import PipelineEditor.Change
import PipelineEditor.Proofs.Attempt
import PipelineEditor.Proofs.WellFormed

/-!
# Drafts, mutation by mutation

Whatever is done to a draft comes down to a sequence of mutations that are carried out, and of
notices about the lock.  An invariant of drafts needs to be shown for these only.

## Main definitions

* `Mutation`, `Mutation.step`: the eight mutations of a graph
* `Draft.Step catalogue`: a mutation carried out, or a notice about the lock
* `Change.Fits catalogue`, `Command.Fits catalogue`: changes whose operators fit the catalogue

## Main results

* `Draft.Steps.wellFormed`: steps keep graphs well-formed
* `Command.redo_keeps`, `Command.undo_keeps`: a command that fits takes a draft along by steps,
  also where it breaks off
-/

namespace PipelineEditor

open Attempt (Keeps)

/-- A mutation of a graph. -/
inductive Mutation where
  | addOperator (operator : Operator) (position : Point)
  | deleteOperator (id : OperatorId)
  | addLink (link : Link)
  | deleteLink (id : LinkId)
  | setProperties (id : OperatorId) (properties : Json)
  | setDisabled (id : OperatorId) (disabled : Bool)
  | setBreakpoint (id : LinkId) (breakpoint : Option Breakpoint)
  | setPosition (id : OperatorId) (position : Point)

namespace Mutation

/-- Carries the mutation out, or refuses it. -/
def step : Mutation → Graph → Except EditError (Graph × List Event)
  | addOperator op position => (·.addOperator op position)
  | deleteOperator id => (·.deleteOperator id)
  | addLink link => (·.addLink link)
  | deleteLink id => (·.deleteLink id)
  | setProperties id properties => (·.setProperties id properties)
  | setDisabled id disabled => (·.setDisabled id disabled)
  | setBreakpoint id breakpoint => (·.setBreakpoint id breakpoint)
  | setPosition id position => (·.setPosition id position)

/-- An operator that the mutation adds fits the catalogue. -/
def Fits (catalogue : Catalogue) : Mutation → Prop
  | addOperator op _ => catalogue.Fits op
  | _ => True

/-- A mutation that is carried out keeps a graph well-formed. -/
theorem wellFormed {catalogue : Catalogue} {m : Mutation} (hfits : m.Fits catalogue)
    {g g' : Graph} {events : List Event} (h : g.WellFormed catalogue)
    (hstep : m.step g = .ok (g', events)) : g'.WellFormed catalogue := by
  -- Coherence is kept by one lemma for each mutation; that operators fit is to be seen only where
  -- one is put in.
  cases m with
  | addOperator op position =>
    obtain ⟨hfree, heq⟩ := Graph.addOperator_eq_ok_iff.mp hstep
    cases heq
    refine ⟨h.toCoherent.addOperator position hfree, fun hget => ?_⟩
    rw [Dict.get?_insert] at hget
    split at hget
    · cases hget
      exact hfits
    · exact h.fits hget
  | deleteOperator id =>
    obtain ⟨op, -, heq⟩ := Graph.deleteOperator_eq_ok_iff.mp hstep
    cases heq
    refine ⟨h.toCoherent.deleteOperator id, fun hget => ?_⟩
    rw [Graph.withoutOperator_operators, Dict.get?_erase] at hget
    split at hget
    · cases hget
    · exact h.fits hget
  | addLink link =>
    obtain ⟨hok, heq⟩ := Graph.addLink_eq_ok_iff.mp hstep
    cases heq
    exact ⟨h.toCoherent.addLink hok, h.fits⟩
  | deleteLink id =>
    obtain ⟨link, hget, heq⟩ := Graph.deleteLink_eq_ok_iff.mp hstep
    cases heq
    exact ⟨h.toCoherent.deleteLink hget, h.fits⟩
  | setProperties id properties =>
    obtain ⟨op, hget, heq⟩ := Graph.setProperties_eq_ok_iff.mp hstep
    cases heq
    exact h.replaceOperator hget rfl rfl rfl rfl
  | setDisabled id disabled =>
    obtain ⟨op, hget, heq⟩ := Graph.setDisabled_eq_ok_iff.mp hstep
    cases heq
    exact h.replaceOperator hget rfl rfl rfl rfl
  | setBreakpoint id breakpoint =>
    obtain ⟨hlink, heq⟩ := Graph.setBreakpoint_eq_ok_iff.mp hstep
    cases heq
    exact ⟨h.toCoherent.setBreakpoint breakpoint hlink, h.fits⟩
  | setPosition id position =>
    obtain ⟨hop, heq⟩ := Graph.setPosition_eq_ok_iff.mp hstep
    cases heq
    exact ⟨h.toCoherent.setPosition position hop, h.fits⟩

end Mutation

namespace Draft

/-- **One step of a draft**: a mutation is carried out and its events are announced, or a change of
the lock is announced. -/
inductive Step (catalogue : Catalogue) : Draft → Draft → Prop
  | mutation {d : Draft} {g : Graph} {events : List Event} (m : Mutation)
      (hfits : m.Fits catalogue) (h : m.step d.graph = .ok (g, events)) :
      Step catalogue d ⟨g, d.announced ++ events⟩
  | lock (d : Draft) (enabled : Bool) :
      Step catalogue d ⟨d.graph, d.announced ++ [.modificationEnabledChanged enabled]⟩

/-- Any number of steps. -/
abbrev Steps (catalogue : Catalogue) : Draft → Draft → Prop :=
  Relation.ReflTransGen (Step catalogue)

variable {catalogue : Catalogue} {d d' : Draft}

theorem Step.wellFormed (h : d.graph.WellFormed catalogue) (hstep : Step catalogue d d') :
    d'.graph.WellFormed catalogue := by
  cases hstep with
  | mutation m hfits hm => exact m.wellFormed hfits h hm
  | lock => exact h

/-- **Steps keep graphs well-formed.** -/
theorem Steps.wellFormed (h : d.graph.WellFormed catalogue) (hsteps : Steps catalogue d d') :
    d'.graph.WellFormed catalogue := by
  induction hsteps with
  | refl => exact h
  | tail _ hstep ih => exact hstep.wellFormed ih

theorem exec_mutate (step : Graph → Except EditError (Graph × List Event)) (d : Draft) :
    (mutate step).exec d =
      match step d.graph with
      | .ok (g, events) => (.ok (), ⟨g, d.announced ++ events⟩)
      | .error cause => (.error cause, d) := rfl

/-- A mutation takes a draft along by steps, whether it is refused or not. -/
theorem mutate_keeps {m : Mutation} (hfits : m.Fits catalogue) :
    Keeps (Steps catalogue) (mutate m.step) := by
  intro d
  rw [exec_mutate]
  rcases hstep : m.step d.graph with cause | ⟨g, events⟩
  · exact .refl
  · exact .single (.mutation m hfits hstep)

end Draft

namespace Change

variable {catalogue : Catalogue}

/-- An operator that the change, or its inverse, adds fits the catalogue. -/
def Fits (catalogue : Catalogue) : Change → Prop
  | addOperator op _ _ | deleteOperator op _ _ => catalogue.Fits op
  | _ => True

theorem Fits.inverse {change : Change} (h : change.Fits catalogue) :
    change.inverse.Fits catalogue := by
  cases change <;> exact h

theorem restoreLink_keeps (saved : SavedLink) :
    Keeps (Draft.Steps catalogue) (restoreLink saved) := by
  refine .bind (Draft.mutate_keeps (m := .addLink saved.link) trivial) fun _ => ?_
  cases saved.breakpoint with
  | none => exact .pure _
  | some breakpoint =>
    -- The link is back by now, so the breakpoint has one to be on.
    exact Draft.mutate_keeps (m := .setBreakpoint saved.link.id (some breakpoint)) trivial

/-- A change that fits takes a draft along by steps, also where it breaks off. -/
theorem apply_keeps {change : Change} (h : change.Fits catalogue) :
    Keeps (Draft.Steps catalogue) change.apply := by
  cases change with
  | addOperator op position links =>
    exact .bind (Draft.mutate_keeps (m := .addOperator op position) h) fun _ =>
      .forM fun saved _ => restoreLink_keeps saved
  | deleteOperator op _ _ => exact Draft.mutate_keeps (m := .deleteOperator op.id) trivial
  | addLink saved => exact restoreLink_keeps saved
  | deleteLink saved => exact Draft.mutate_keeps (m := .deleteLink saved.link.id) trivial
  | setProperties id _ new => exact Draft.mutate_keeps (m := .setProperties id new) trivial
  | setDisabled id _ new => exact Draft.mutate_keeps (m := .setDisabled id new) trivial
  | setBreakpoint id _ new => exact Draft.mutate_keeps (m := .setBreakpoint id new) trivial
  | move id _ finish => exact Draft.mutate_keeps (m := .setPosition id finish) trivial

end Change

namespace Command

variable {catalogue : Catalogue} {command : Command}

/-- All changes of the command fit the catalogue. -/
def Fits (catalogue : Catalogue) (command : Command) : Prop :=
  ∀ change ∈ command, change.Fits catalogue

theorem fits_nil : Fits catalogue [] := fun _ h => nomatch h

theorem Fits.append {later : Command} (h : command.Fits catalogue) (h' : later.Fits catalogue) :
    Fits catalogue (command ++ later) := fun change hmem =>
  (List.mem_append.mp hmem).elim (h change) (h' change)

theorem fits_singleton {change : Change} (h : change.Fits catalogue) :
    Fits catalogue [change] := fun _ hmem => List.mem_singleton.mp hmem ▸ h

theorem Fits.inverse (h : command.Fits catalogue) : command.inverse.Fits catalogue := by
  intro change hmem
  obtain ⟨original, horiginal, rfl⟩ := List.mem_map.mp hmem
  exact (h original (List.mem_reverse.mp horiginal)).inverse

/-- One move in place of two fits, as every move does. -/
theorem fits_of_merge? {earlier later merged : Command} (h : earlier.merge? later = some merged) :
    merged.Fits catalogue := by
  unfold merge? at h
  split at h
  · split at h
    · cases h
      exact fits_singleton trivial
    · cases h
  · cases h

theorem redo_keeps (h : command.Fits catalogue) : Keeps (Draft.Steps catalogue) command.redo :=
  .forM fun change hmem => Change.apply_keeps (h change hmem)

theorem undo_keeps (h : command.Fits catalogue) : Keeps (Draft.Steps catalogue) command.undo :=
  redo_keeps h.inverse

end Command

end PipelineEditor
