import PipelineEditor.Proofs.Replay

/-!
# Calls that do not look at history

Two editors with the same graph, lock and bundle in progress may differ in their histories and in
what they have announced.  The calls that edit do not notice: they come to the same result in both,
and leave both with the same graph again.  What is bundled need not be so, since a program may look
at the whole editor before it goes on; it is if none of its parts looks at history.

## Main definitions

* `Attempt.Ignores R`: the attempt ignores what related states may differ in
* `Editor.SameStage`: the editors differ at most in their histories and in what they announced
* `Editor.Call.Unaware`: what is bundled, if anything, does not look at history

## Main results

* `Attempt.Ignores.bind`, `Attempt.Ignores.forM`: attempts put together from such attempts
* `Editor.bundle_ignores`, `Action.ignores`: bundles and actions do not look at history
* `Editor.noted_eq_of_ignores`: both editors note the same
-/

namespace PipelineEditor

/-! ## Attempts that ignore part of the state -/

namespace Attempt

variable {σ α β : Type} {R : σ → σ → Prop}

/-- **The attempt ignores what related states may differ in**: from any two of them it comes to the
same result, and the states that it leaves are related again. -/
def Ignores (R : σ → σ → Prop) (attempt : Attempt σ α) : Prop :=
  ∀ s s', R s s' →
    (attempt.exec s).1 = (attempt.exec s').1 ∧ R (attempt.exec s).2 (attempt.exec s').2

namespace Ignores

theorem exec {attempt : Attempt σ α} (h : Ignores R attempt) {s s' : σ} (hrel : R s s') :
    ∃ result t t', attempt.exec s = (result, t) ∧ attempt.exec s' = (result, t') ∧ R t t' := by
  obtain ⟨hresult, hleft⟩ := h s s' hrel
  exact ⟨(attempt.exec s).1, (attempt.exec s).2, (attempt.exec s').2, rfl,
    Prod.ext hresult.symm rfl, hleft⟩

theorem pure (value : α) : Ignores R (pure value) := fun _ _ hrel => ⟨rfl, hrel⟩

theorem bind {attempt : Attempt σ α} {next : α → Attempt σ β} (h : Ignores R attempt)
    (hnext : ∀ value, Ignores R (next value)) : Ignores R (attempt >>= next) := by
  intro s s' hrel
  obtain ⟨result, t, t', hexec, hexec', hleft⟩ := h.exec hrel
  rw [exec_bind, exec_bind, hexec, hexec']
  cases result with
  | error cause => exact ⟨rfl, hleft⟩
  | ok value => exact hnext value t t' hleft

/-- The state may be looked at if related states look the same to what follows. -/
theorem read {next : σ → Attempt σ β} (h : ∀ s, Ignores R (next s))
    (hsame : ∀ s s', R s s' → next s = next s') : Ignores R (get >>= next) := by
  intro s s' hrel
  rw [exec_get_bind, exec_get_bind, ← hsame s s' hrel]
  exact h s s s' hrel

theorem ite {c : Prop} [Decidable c] {attempt other : Attempt σ α} (h : Ignores R attempt)
    (h' : Ignores R other) : Ignores R (if c then attempt else other) := by
  split
  · exact h
  · exact h'

theorem forM {items : List α} {step : α → Attempt σ PUnit} (h : ∀ item, Ignores R (step item)) :
    Ignores R (items.forM step) := by
  induction items with
  | nil => exact pure _
  | cons item rest ih => exact bind (h item) fun _ => ih

end Ignores

end Attempt

open Attempt (Ignores)

/-! ## Drafts -/

/-- The drafts differ at most in what has been announced. -/
def Draft.SameGraph (d d' : Draft) : Prop := d.graph = d'.graph

open Draft (SameGraph)

theorem Draft.mutate_ignores (step : Graph → Except EditError (Graph × List Event)) :
    Ignores SameGraph (mutate step) := by
  intro d d' hrel
  rw [exec_mutate, exec_mutate, show d.graph = d'.graph from hrel]
  rcases step d'.graph with cause | ⟨g, events⟩
  · exact ⟨rfl, hrel⟩
  · exact ⟨rfl, rfl⟩

theorem Change.restoreLink_ignores (saved : SavedLink) : Ignores SameGraph (restoreLink saved) := by
  refine .bind (Draft.mutate_ignores _) fun _ => ?_
  cases saved.breakpoint with
  | none => exact .pure _
  | some breakpoint => exact Draft.mutate_ignores _

theorem Change.apply_ignores (change : Change) : Ignores SameGraph change.apply := by
  cases change with
  | addOperator op position links =>
    exact .bind (Draft.mutate_ignores _) fun _ => .forM restoreLink_ignores
  | addLink saved => exact restoreLink_ignores saved
  | _ => exact Draft.mutate_ignores _

theorem Command.redo_ignores (command : Command) : Ignores SameGraph command.redo :=
  .forM Change.apply_ignores

theorem Command.undo_ignores (command : Command) : Ignores SameGraph command.undo :=
  redo_ignores command.inverse

/-! ## Editors -/

namespace Editor

/-- **The editors differ at most in their histories and in what they have announced.** -/
structure SameStage (e e' : Editor) : Prop where
  catalogue : e.catalogue = e'.catalogue
  graph : e.graph = e'.graph
  enabled : e.enabled = e'.enabled
  bundled : e.bundled = e'.bundled

/-- They still do as a bundle is opened in both. -/
theorem SameStage.opened {e e' : Editor} (h : SameStage e e') :
    SameStage { e with bundled := some [] } { e' with bundled := some [] } :=
  ⟨h.catalogue, h.graph, h.enabled, rfl⟩

theorem note_sameStage {e e' : Editor} (h : SameStage e e') (change : Change) :
    SameStage (note change e) (note change e') := by
  unfold note
  rw [h.bundled]
  cases e'.bundled with
  | none => exact ⟨h.catalogue, h.graph, h.enabled, rfl⟩
  | some changes => exact ⟨h.catalogue, h.graph, h.enabled, rfl⟩

theorem commit_ignores (change : Change) : Ignores SameStage (commit change) := by
  intro e e' h
  obtain ⟨result, d, d', hexec, hexec', hdraft⟩ := change.apply_ignores.exec h.graph
  rw [exec_commit, exec_commit, hexec, hexec']
  have hleft : SameStage { e with draft := d } { e' with draft := d' } :=
    ⟨h.catalogue, hdraft, h.enabled, h.bundled⟩
  cases result with
  | error cause => exact ⟨rfl, hleft⟩
  | ok _ => exact ⟨rfl, note_sameStage hleft change⟩

/-- A single call decides by catalogue, lock and graph. -/
theorem Single.ignores {call : Attempt Editor Unit} (hcall : Single call) :
    Ignores SameStage call := by
  obtain ⟨choice, -, hexec⟩ := hcall
  intro e e' h
  rw [hexec, hexec, h.catalogue, h.enabled, h.graph]
  rcases choice e'.catalogue e'.enabled e'.graph with cause | _ | change
  · exact ⟨rfl, h⟩
  · exact ⟨rfl, h⟩
  · exact commit_ignores change e e' h

theorem requireEnabled_ignores : Ignores SameStage requireEnabled := by
  intro e e' h
  rw [exec_requireEnabled, exec_requireEnabled, h.enabled]
  exact ⟨rfl, h⟩

theorem lookUp_ignores {α : Type} (query : Graph → Except EditError α) :
    Ignores SameStage (lookUp query) := by
  intro e e' h
  rw [exec_lookUp, exec_lookUp, h.graph]
  exact ⟨rfl, h⟩

/-- **A bundle does not look at history if its calls do not.** -/
theorem bundle_ignores {α : Type} {calls : Attempt Editor α} (hcalls : Ignores SameStage calls) :
    Ignores SameStage (bundle calls) := by
  intro e e' h
  cases hbundled : e'.bundled with
  | some changes =>
    rw [exec_bundle_some (h.bundled.trans hbundled), exec_bundle_some hbundled]
    exact hcalls e e' h
  | none =>
    obtain ⟨result, f, f', hexec, hexec', hleft⟩ := hcalls.exec h.opened
    rw [exec_bundle_none (h.bundled.trans hbundled), exec_bundle_none hbundled, hexec, hexec']
    cases result with
    | ok value => exact ⟨rfl, hleft.catalogue, hleft.graph, hleft.enabled, rfl⟩
    | error cause =>
      -- The same command is taken back from the same graph.
      have hback := (Command.undo_ignores (f'.bundled.getD []) f.draft f'.draft hleft.graph).2
      dsimp only
      rw [hleft.bundled]
      exact ⟨rfl, hleft.catalogue, hback, hleft.enabled, rfl⟩

/-- Both editors note the same. -/
theorem noted_eq_of_ignores {α : Type} {calls : Attempt Editor α}
    (hcalls : Ignores SameStage calls) {e e' : Editor} (h : SameStage e e') :
    noted calls e = noted calls e' := by
  obtain ⟨result, f, f', hexec, hexec', hleft⟩ := hcalls.exec h.opened
  rw [noted, noted, hexec, hexec']
  cases result with
  | error cause => rfl
  | ok value => exact congrArg (·.getD []) hleft.bundled

theorem setEnabled_sameStage {e e' : Editor} (h : SameStage e e') (enabled : Bool) :
    SameStage (e.setEnabled enabled) (e'.setEnabled enabled) := by
  unfold setEnabled
  rw [h.enabled]
  split
  · exact h
  · exact ⟨h.catalogue, h.graph, rfl, h.bundled⟩

/-- **What is bundled does not look at history.** -/
def Call.Unaware : Call → Prop
  | .bundle calls _ => Ignores SameStage calls
  | _ => True

end Editor

open Editor (SameStage)

/-- **Actions do not look at history.** -/
theorem Action.ignores (action : Action) : Ignores SameStage action.perform := by
  cases action with
  | addOperator op position => exact (Editor.single_addOperator op position).ignores
  | deleteOperator id => exact (Editor.single_deleteOperator id).ignores
  | addLink link => exact (Editor.single_addLink link).ignores
  | deleteLink id => exact (Editor.single_deleteLink id).ignores
  | deleteLinkBetween source target => exact (Editor.single_deleteLinkBetween source target).ignores
  | setProperties id properties => exact (Editor.single_setProperties id properties).ignores
  | setBreakpoint id breakpoint => exact (Editor.single_setBreakpoint id breakpoint).ignores
  | moveOperator id position => exact (Editor.single_moveOperator id position).ignores
  | addAll operators links =>
    refine .bind Editor.requireEnabled_ignores fun _ =>
      Editor.bundle_ignores (.bind (.forM ?_) fun _ => .forM ?_)
    · exact fun (op, position) => (Editor.single_addOperator op position).ignores
    · exact fun link => (Editor.single_addLink link).ignores
  | deleteAll operators links =>
    refine .bind Editor.requireEnabled_ignores fun _ =>
      Editor.bundle_ignores (.bind (.forM fun id => ?_) fun _ => .forM ?_)
    · -- Whether a link is still there is seen in the graph.
      refine .read (fun e => .ite (Editor.single_deleteLink id).ignores (.pure _)) ?_
      intro e e' h
      rw [h.graph]
    · exact fun id => (Editor.single_deleteOperator id).ignores
  | setDisabled ids disabled =>
    refine .bind Editor.requireEnabled_ignores fun _ => .bind (.forM fun id => ?_) fun _ =>
      Editor.bundle_ignores (.forM fun id => (Editor.single_setFlag id disabled).ignores)
    exact .bind (Editor.lookUp_ignores _) fun _ => .pure _

end PipelineEditor
