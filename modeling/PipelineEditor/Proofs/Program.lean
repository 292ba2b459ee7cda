import PipelineEditor.Proofs.Single

/-!
# Programs of editor calls

What is bundled is a program: it makes calls one after the other, looks at the editor in between,
and goes on by what it has found; it may fail, and handle the failure of its parts.  So a property
of programs comes down to one of single calls, of bundles, and of the few calls beside editing that
the program is allowed.

## Main definitions

* `Action`, `Action.perform`: the calls that edit
* `Control`, `Program allowed`: the calls beside editing, and programs that make only those allowed

## Main results

* `Action.keeps`, `Program.keeps`: what single calls and bundles keep, actions and programs keep
* `Action.exec_bundle`: outside a bundle, an action is as good as a bundle of its own
-/

namespace PipelineEditor

open Attempt (Keeps)

/-- A call that edits. -/
inductive Action where
  | addOperator (operator : Operator) (position : Point)
  | addAll (operators : List (Operator × Point)) (links : List Link)
  | deleteOperator (id : OperatorId)
  | deleteAll (operators : List OperatorId) (links : List LinkId)
  | addLink (link : Link)
  | deleteLink (id : LinkId)
  | deleteLinkBetween (source target : PortRef)
  | setProperties (id : OperatorId) (properties : Json)
  | setDisabled (ids : List OperatorId) (disabled : Bool)
  | setBreakpoint (id : LinkId) (breakpoint : Option Breakpoint)
  | moveOperator (id : OperatorId) (position : Point)

/-- Makes the call. -/
def Action.perform : Action → Attempt Editor Unit
  | addOperator op position => Editor.addOperator op position
  | addAll operators links => Editor.addAll operators links
  | deleteOperator id => Editor.deleteOperator id
  | deleteAll operators links => Editor.deleteAll operators links
  | addLink link => Editor.addLink link
  | deleteLink id => Editor.deleteLink id
  | deleteLinkBetween source target => Editor.deleteLinkBetween source target
  | setProperties id properties => Editor.setProperties id properties
  | setDisabled ids disabled => Editor.setDisabled ids disabled
  | setBreakpoint id breakpoint => Editor.setBreakpoint id breakpoint
  | moveOperator id position => Editor.moveOperator id position

/-- The calls beside editing. -/
inductive Control where
  | undo
  | redo
  | clearHistory
  | lock

/-- **The attempt is a program of editor calls**, and makes no calls beside editing but those that
are allowed. -/
inductive Program (allowed : Control → Prop) : {α : Type} → Attempt Editor α → Prop
  | pure {α : Type} (value : α) : Program allowed (pure value)
  | throw {α : Type} (cause : EditError) : Program allowed (throw cause : Attempt Editor α)
  /-- Goes on by what the editor shows. -/
  | read {α : Type} {next : Editor → Attempt Editor α} (h : ∀ e, Program allowed (next e)) :
      Program allowed (get >>= next)
  | bind {α β : Type} {first : Attempt Editor α} {next : α → Attempt Editor β}
      (h : Program allowed first) (hnext : ∀ value, Program allowed (next value)) :
      Program allowed (first >>= next)
  /-- Goes on after a failure. -/
  | handle {α : Type} {calls : Attempt Editor α} {handler : EditError → Attempt Editor α}
      (h : Program allowed calls) (hhandler : ∀ cause, Program allowed (handler cause)) :
      Program allowed (tryCatch calls handler)
  | act (action : Action) : Program allowed action.perform
  | bundle {α : Type} {calls : Attempt Editor α} (h : Program allowed calls) :
      Program allowed (Editor.bundle calls)
  | undo (h : allowed .undo) : Program allowed Editor.undo
  | redo (h : allowed .redo) : Program allowed Editor.redo
  | clearHistory (h : allowed .clearHistory) : Program allowed (modify Editor.clearHistory)
  | setEnabled (h : allowed .lock) (enabled : Bool) :
      Program allowed (modify (Editor.setEnabled enabled))

namespace Editor

/-! ## What single calls and bundles keep -/

section

variable {R : Editor → Editor → Prop} [Std.Refl R]

theorem requireEnabled_keeps : Keeps R requireEnabled := by
  intro e
  rw [exec_requireEnabled]
  exact refl_of R e

theorem lookUp_keeps {α : Type} (query : Graph → Except EditError α) :
    Keeps R (lookUp query) := by
  intro e
  rw [exec_lookUp]
  exact refl_of R e

end

/-- **Single calls and bundles keep the relation**: every single call does, and a bundle does as
soon as what is bundled does. -/
structure Respects (R : Editor → Editor → Prop) : Prop where
  single : ∀ {call}, Single call → Keeps R call
  bundle : ∀ {α : Type} {calls : Attempt Editor α}, Keeps R calls → Keeps R (Editor.bundle calls)

end Editor

open Editor (Respects Single requireEnabled_keeps lookUp_keeps)

variable {R : Editor → Editor → Prop} [Std.Refl R] [IsTrans Editor R]

/-- **Actions keep what single calls and bundles keep.** -/
theorem Action.keeps (hR : Respects R) (action : Action) : Keeps R action.perform := by
  cases action with
  | addOperator op position => exact hR.single (Editor.single_addOperator op position)
  | deleteOperator id => exact hR.single (Editor.single_deleteOperator id)
  | addLink link => exact hR.single (Editor.single_addLink link)
  | deleteLink id => exact hR.single (Editor.single_deleteLink id)
  | deleteLinkBetween source target =>
    exact hR.single (Editor.single_deleteLinkBetween source target)
  | setProperties id properties => exact hR.single (Editor.single_setProperties id properties)
  | setBreakpoint id breakpoint => exact hR.single (Editor.single_setBreakpoint id breakpoint)
  | moveOperator id position => exact hR.single (Editor.single_moveOperator id position)
  | addAll operators links =>
    refine .bind requireEnabled_keeps fun _ => hR.bundle (.bind (.forM ?_) fun _ => .forM ?_)
    · rintro ⟨op, position⟩ -
      exact hR.single (Editor.single_addOperator op position)
    · rintro link -
      exact hR.single (Editor.single_addLink link)
  | deleteAll operators links =>
    refine .bind requireEnabled_keeps fun _ => hR.bundle (.bind (.forM ?_) fun _ => .forM ?_)
    · rintro id -
      -- Links that have gone with an operator are passed over.
      exact .read fun e => .ite (hR.single (Editor.single_deleteLink id)) (.pure _)
    · rintro id -
      exact hR.single (Editor.single_deleteOperator id)
  | setDisabled ids disabled =>
    refine .bind requireEnabled_keeps fun _ => .bind (.forM ?_) fun _ => hR.bundle (.forM ?_)
    · rintro id -
      exact .bind (lookUp_keeps _) fun _ => .pure _
    · rintro id -
      exact hR.single (Editor.single_setFlag id disabled)

/-- **Programs keep what single calls and bundles keep**, if the calls beside editing that they are
allowed keep it. -/
theorem Program.keeps {allowed : Control → Prop} (hR : Respects R)
    (hundo : allowed .undo → Keeps R Editor.undo) (hredo : allowed .redo → Keeps R Editor.redo)
    (hclear : allowed .clearHistory → ∀ e, R e e.clearHistory)
    (hlock : allowed .lock → ∀ enabled e, R e (e.setEnabled enabled))
    {α : Type} {calls : Attempt Editor α} (h : Program allowed calls) : Keeps R calls := by
  induction h with
  | pure value => exact .pure value
  | throw cause => exact .throw cause
  | read _ ih => exact .read ih
  | bind _ _ ih ihnext => exact ih.bind ihnext
  | handle _ _ ih ihhandler => exact ih.tryCatch ihhandler
  | act action => exact action.keeps hR
  | bundle _ ih => exact hR.bundle ih
  | undo h => exact hundo h
  | redo h => exact hredo h
  | clearHistory h => exact hclear h
  | setEnabled h enabled => exact hlock h enabled

/-! ## Actions outside a bundle -/

namespace Editor

/-- The attempt looks at lock and graph, and leaves the editor as it is. -/
def Looks {α : Type} (look : Attempt Editor α) : Prop :=
  ∃ found : Bool → Graph → Except EditError α, ∀ e, look.exec e = (found e.enabled e.graph, e)

/-- **The call is compact**: made outside a bundle, it is as good as a bundle of its own. -/
def Compact {α : Type} (call : Attempt Editor α) : Prop :=
  ∀ e, e.bundled = none → (bundle call).exec e = call.exec e

theorem looks_requireEnabled : Looks requireEnabled :=
  ⟨fun enabled _ => if enabled then .ok () else .error .locked, exec_requireEnabled⟩

theorem looks_lookUp {α : Type} (query : Graph → Except EditError α) : Looks (lookUp query) :=
  ⟨fun _ => query, exec_lookUp query⟩

theorem Looks.bind {α β : Type} {look : Attempt Editor α} {next : α → Attempt Editor β}
    (h : Looks look) (hnext : ∀ value, Looks (next value)) : Looks (look >>= next) := by
  obtain ⟨found, hfound⟩ := h
  choose found' hfound' using hnext
  refine ⟨fun enabled g => found enabled g >>= fun value => found' value enabled g, fun e => ?_⟩
  have hlook := hfound e
  dsimp only
  rcases hresult : found e.enabled e.graph with cause | value <;> rw [hresult] at hlook
  · exact Attempt.exec_bind_error hlook
  · exact (Attempt.exec_bind_ok hlook).trans (hfound' value e)

theorem Looks.forM {α : Type} {look : α → Attempt Editor PUnit} (h : ∀ item, Looks (look item))
    (items : List α) : Looks (items.forM look) := by
  induction items with
  | nil => exact ⟨fun _ _ => .ok (), fun _ => rfl⟩
  | cons item rest ih => exact (h item).bind fun _ => ih

/-- The bundle of calls that fail at once leaves the editor as it is. -/
theorem exec_bundle_error {α : Type} {call : Attempt Editor α} {e : Editor} {cause : EditError}
    (hidle : e.bundled = none)
    (h : call.exec { e with bundled := some [] } = (.error cause, { e with bundled := some [] })) :
    (bundle call).exec e = (.error cause, e) := by
  rw [exec_bundle_none hidle, h]
  obtain ⟨catalogue, draft, history, enabled, bundled⟩ := e
  cases hidle
  rfl

theorem compact_bundle {α : Type} (calls : Attempt Editor α) : Compact (bundle calls) := by
  intro e hidle
  rw [exec_bundle_none hidle, exec_bundle_none hidle, exec_bundle_some rfl]

theorem Compact.look {α β : Type} {look : Attempt Editor α} {next : α → Attempt Editor β}
    (h : Looks look) (hnext : ∀ value, Compact (next value)) : Compact (look >>= next) := by
  obtain ⟨found, hfound⟩ := h
  intro e hidle
  have houtside := hfound e
  have hinside : look.exec { e with bundled := some [] } =
      (found e.enabled e.graph, { e with bundled := some [] }) := hfound _
  rcases hresult : found e.enabled e.graph with cause | value <;>
    rw [hresult] at houtside hinside
  · rw [Attempt.exec_bind_error houtside]
    exact exec_bundle_error hidle (Attempt.exec_bind_error hinside)
  · rw [Attempt.exec_bind_ok houtside, ← hnext value e hidle, exec_bundle_none hidle,
      exec_bundle_none hidle, Attempt.exec_bind_ok hinside]

theorem Single.compact {call : Attempt Editor Unit} (h : Single call) : Compact call := by
  obtain ⟨choice, -, hexec⟩ := h
  intro e hidle
  have hinside : call.exec { e with bundled := some [] } =
    (carryOut (choice e.catalogue e.enabled e.graph)).exec { e with bundled := some [] } := hexec _
  rw [hexec e]
  rcases hchoice : choice e.catalogue e.enabled e.graph with cause | _ | change <;>
    rw [hchoice] at hinside
  · exact exec_bundle_error hidle hinside
  · rw [exec_bundle_none hidle, hinside]
    obtain ⟨catalogue, draft, history, enabled, bundled⟩ := e
    cases hidle
    rfl
  · rw [exec_bundle_none hidle, hinside, carryOut, exec_commit, exec_commit]
    obtain ⟨catalogue, draft, history, enabled, bundled⟩ := e
    cases hidle
    rcases change.apply.exec draft with ⟨cause | _, draft'⟩ <;> rfl

end Editor

/-- **Outside a bundle, an action is as good as a bundle of its own.** -/
theorem Action.exec_bundle (action : Action) {e : Editor} (hidle : e.bundled = none) :
    (Editor.bundle action.perform).exec e = action.perform.exec e := by
  refine (show Editor.Compact action.perform from ?_) e hidle
  cases action with
  | addOperator op position => exact (Editor.single_addOperator op position).compact
  | deleteOperator id => exact (Editor.single_deleteOperator id).compact
  | addLink link => exact (Editor.single_addLink link).compact
  | deleteLink id => exact (Editor.single_deleteLink id).compact
  | deleteLinkBetween source target =>
    exact (Editor.single_deleteLinkBetween source target).compact
  | setProperties id properties => exact (Editor.single_setProperties id properties).compact
  | setBreakpoint id breakpoint => exact (Editor.single_setBreakpoint id breakpoint).compact
  | moveOperator id position => exact (Editor.single_moveOperator id position).compact
  | addAll operators links =>
    exact .look Editor.looks_requireEnabled fun _ => Editor.compact_bundle _
  | deleteAll operators links =>
    exact .look Editor.looks_requireEnabled fun _ => Editor.compact_bundle _
  | setDisabled ids disabled =>
    have hlook (id : OperatorId) : Editor.Looks (do
        let _ ← Editor.lookUp (·.findOperator id) : Attempt Editor PUnit) :=
      (Editor.looks_lookUp _).bind fun _ => ⟨fun _ _ => .ok (), fun _ => rfl⟩
    exact .look Editor.looks_requireEnabled fun _ => .look (.forM hlook ids) fun _ =>
      Editor.compact_bundle _

end PipelineEditor
