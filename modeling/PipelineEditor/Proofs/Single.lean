import PipelineEditor.Editor
import PipelineEditor.Proofs.Reversal

/-!
# Single calls to the editor

Adding or deleting an operator or a link, replacing a property document, setting a flag or a
breakpoint, and moving an operator are all of one kind.  The catalogue, the lock and the graph
decide whether the call is refused, has nothing to do, or carries one change out; and on a
well-formed graph the change it decides on is faithful and succeeds.

## Main definitions

* `Editor.Choice`: what a call decides on, by catalogue, lock and graph
* `Editor.Choice.Sound`: the change decided on fits, is faithful and can be carried out
* `Editor.Single call`: the call carries out what a sound choice decides on

## Main results

* `Editor.single_addOperator`, `Editor.single_deleteOperator`, …: the calls are single
-/

namespace PipelineEditor

namespace Editor

open Draft (Takes)

/-! ## The parts of a call -/

@[simp] theorem exec_requireEnabled (e : Editor) :
    requireEnabled.exec e = (if e.enabled then .ok () else .error .locked, e) := by
  unfold requireEnabled
  rw [Attempt.exec_get_bind]
  cases e.enabled <;> rfl

@[simp] theorem exec_lookUp {α : Type} (query : Graph → Except EditError α) (e : Editor) :
    (lookUp query).exec e = (query e.graph, e) := by
  unfold lookUp
  rw [Attempt.exec_get_bind, Attempt.exec_check]

theorem exec_requireEnabled_bind {α : Type} (next : Unit → Attempt Editor α) (e : Editor) :
    (requireEnabled >>= next).exec e =
      if e.enabled then (next ()).exec e else (.error .locked, e) := by
  rw [Attempt.exec_bind, exec_requireEnabled]
  cases e.enabled <;> rfl

theorem exec_lookUp_bind {α β : Type} (query : Graph → Except EditError α)
    (next : α → Attempt Editor β) (e : Editor) :
    (lookUp query >>= next).exec e =
      match query e.graph with
      | .ok value => (next value).exec e
      | .error cause => (.error cause, e) := by
  rw [Attempt.exec_bind, exec_lookUp]
  cases query e.graph <;> rfl

theorem exec_commit (change : Change) (e : Editor) :
    (commit change).exec e =
      match change.apply.exec e.draft with
      | (.ok (), draft) => (.ok (), note change { e with draft })
      | (.error cause, draft) => (.error cause, { e with draft }) := by
  unfold commit
  rw [Attempt.exec_bind, onDraft, Attempt.exec_of]
  rcases change.apply.exec e.draft with ⟨_ | _, draft⟩ <;> rfl

/-- A bundle inside a bundle is part of it. -/
theorem exec_bundle_some {α : Type} {calls : Attempt Editor α} {e : Editor} {changes : Command}
    (h : e.bundled = some changes) : (bundle calls).exec e = calls.exec e := by
  rw [bundle, Attempt.exec_of, h]

/-- A bundle of its own notes the changes, and records them or takes them back. -/
theorem exec_bundle_none {α : Type} {calls : Attempt Editor α} {e : Editor}
    (h : e.bundled = none) : (bundle calls).exec e =
      match calls.exec { e with bundled := some [] } with
      | (.ok value, e') => (.ok value, { e' with
          bundled := none
          history := e'.history.record (e'.bundled.getD []) })
      | (.error cause, e') => (.error cause, { e' with
          bundled := none
          draft := (Command.undo (e'.bundled.getD [])).exec e'.draft |>.2 }) := by
  rw [bundle, Attempt.exec_of, h]
  dsimp only
  rcases calls.exec { e with bundled := some [] } with ⟨_ | _, e'⟩ <;> rfl

/-! ## Choices -/

/-- What a call decides on, by catalogue, lock and graph: it is refused, has nothing to do, or
carries a change out. -/
abbrev Choice : Type := Catalogue → Bool → Graph → Except EditError (Option Change)

/-- Carries out what has been decided on. -/
def carryOut : Except EditError (Option Change) → Attempt Editor Unit
  | .error cause => throw cause
  | .ok none => pure ()
  | .ok (some change) => commit change

/-- A change that is carried out unless it would make no difference. -/
theorem exec_commit_unless (c : Prop) [Decidable c] (change : Change) (e : Editor) :
    (if c then pure () else commit change : Attempt Editor Unit).exec e =
      (carryOut (.ok (if c then none else some change))).exec e := by
  by_cases hc : c
  · rw [if_pos hc, if_pos hc]
    rfl
  · rw [if_neg hc, if_neg hc]
    rfl

/-- **The choice is sound**: on a well-formed graph a change that it decides on fits the catalogue,
is faithful to the graph, and can be carried out. -/
def Choice.Sound (choice : Choice) : Prop :=
  ∀ {catalogue enabled g change}, g.WellFormed catalogue →
    choice catalogue enabled g = .ok (some change) →
      change.Fits catalogue ∧ change.Faithful g ∧ ∃ g', Takes change.apply g g'

/-- **The call is single**: it carries out what a sound choice decides on. -/
def Single (call : Attempt Editor Unit) : Prop :=
  ∃ choice : Choice, choice.Sound ∧
    ∀ e, call.exec e = (carryOut (choice e.catalogue e.enabled e.graph)).exec e

/-- The choice of a call that is refused while the pipeline is locked. -/
def Choice.guarded (choice : Catalogue → Graph → Except EditError (Option Change)) : Choice :=
  fun catalogue enabled g => if enabled then choice catalogue g else .error .locked

/-- A call that asks for the lock first is single if what follows is. -/
theorem single_of_guarded {call : Attempt Editor Unit}
    {c : Catalogue → Graph → Except EditError (Option Change)}
    (hexec : ∀ e, call.exec e = (carryOut (c e.catalogue e.graph)).exec e)
    (hsound : ∀ {catalogue g change}, g.WellFormed catalogue →
      c catalogue g = .ok (some change) →
        change.Fits catalogue ∧ change.Faithful g ∧ ∃ g', Takes change.apply g g') :
    Single (requireEnabled >>= fun _ => call) := by
  refine ⟨Choice.guarded c, fun {catalogue enabled g change} h hchoice => ?_, fun e => ?_⟩
  · cases enabled with
    | false => cases hchoice
    | true => exact hsound h hchoice
  · rw [exec_requireEnabled_bind, Choice.guarded]
    cases e.enabled with
    | false => rfl
    | true => exact hexec e

/-! ## Operators -/

theorem single_addOperator (op : Operator) (position : Point) :
    Single (addOperator op position) := by
  unfold addOperator
  refine single_of_guarded (c := fun catalogue g => do
    catalogue.checkPorts op
    g.checkOperator op
    return some (.addOperator op position []))
    (fun e => ?_) fun {catalogue g change} h hchoice => ?_
  · rw [Attempt.exec_get_bind, Attempt.exec_check_bind]
    rcases e.catalogue.checkPorts op with cause | _
    · rfl
    · rw [exec_lookUp_bind]
      rcases e.graph.checkOperator op with cause | _ <;> rfl
  · obtain ⟨_, hports, hchoice⟩ := bind_eq_ok_iff.mp hchoice
    obtain ⟨_, hfree, hchoice⟩ := bind_eq_ok_iff.mp hchoice
    cases hchoice
    have habsent := Graph.checkOperator_eq_ok_iff.mp hfree
    have htakes : Takes (Change.addOperator op position []).apply g _ :=
      .bind (Draft.takes_addOperator_iff.mpr ⟨habsent, rfl⟩) (.pure _)
    exact ⟨Catalogue.checkPorts_eq_ok_iff.mp hports, ⟨habsent, fun _ h => nomatch h⟩, _, htakes⟩

theorem single_deleteOperator (id : OperatorId) : Single (deleteOperator id) := by
  unfold deleteOperator
  refine single_of_guarded (c := fun _ g => do
    let op ← g.findOperator id
    return some (.deleteOperator op (g.positionOf id) ((g.linksAt id).map g.saved)))
    (fun e => ?_) fun {catalogue g change} h hchoice => ?_
  · rw [exec_lookUp_bind]
    rcases e.graph.findOperator id with cause | op <;> rfl
  · obtain ⟨op, hfind, hchoice⟩ := bind_eq_ok_iff.mp hchoice
    cases hchoice
    have hget := Graph.findOperator_eq_ok_iff.mp hfind
    obtain rfl := h.operator_id hget
    -- Every operator has a position, so what is recorded is what is stored.
    obtain ⟨position, hpos⟩ : ∃ position, g.positions.get? op.id = some position := by
      rw [← Option.isSome_iff_exists, h.position_iff, hget]
      rfl
    refine ⟨h.fits hget, ⟨hget, ?_, .refl _⟩, _, Draft.takes_deleteOperator_iff.mpr ⟨?_, rfl⟩⟩
    · rw [Graph.positionOf, hpos]
      rfl
    · rw [hget]
      rfl

theorem single_setProperties (id : OperatorId) (properties : Json) :
    Single (setProperties id properties) := by
  unfold setProperties
  refine single_of_guarded (c := fun _ g => do
    let op ← g.findOperator id
    return if op.properties.same properties then none
      else some (.setProperties id op.properties properties))
    (fun e => ?_) fun {catalogue g change} h hchoice => ?_
  · rw [exec_lookUp_bind]
    rcases e.graph.findOperator id with cause | op
    · rfl
    · exact exec_commit_unless ..
  · obtain ⟨op, hfind, hchoice⟩ := bind_eq_ok_iff.mp hchoice
    have hget := Graph.findOperator_eq_ok_iff.mp hfind
    split at hchoice <;> cases hchoice
    exact ⟨trivial, ⟨op, hget, rfl⟩, _, Draft.takes_setProperties_iff.mpr ⟨op, hget, rfl⟩⟩

theorem single_moveOperator (id : OperatorId) (position : Point) :
    Single (moveOperator id position) := by
  unfold moveOperator
  refine single_of_guarded (c := fun _ g => do
    let start ← g.findPosition id
    return if start.same position then none else some (.move id start position))
    (fun e => ?_) fun {catalogue g change} h hchoice => ?_
  · rw [exec_lookUp_bind]
    rcases e.graph.findPosition id with cause | start
    · rfl
    · exact exec_commit_unless ..
  · obtain ⟨start, hfind, hchoice⟩ := bind_eq_ok_iff.mp hchoice
    have hget := Graph.findPosition_eq_ok_iff.mp hfind
    split at hchoice <;> cases hchoice
    have hop : (g.operators.get? id).isSome := by
      rw [← h.position_iff, hget]
      rfl
    exact ⟨trivial, hget, _, Draft.takes_setPosition_iff.mpr ⟨hop, rfl⟩⟩

/-- The part of `setDisabled` for one operator; the lock has been asked for by then. -/
theorem single_setFlag (id : OperatorId) (disabled : Bool) :
    Single (do
      let op ← lookUp (·.findOperator id)
      unless op.disabled = disabled do
        commit (.setDisabled id op.disabled disabled)) := by
  refine ⟨fun _ _ g => do
    let op ← g.findOperator id
    return if op.disabled = disabled then none else some (.setDisabled id op.disabled disabled),
    fun {catalogue enabled g change} h hchoice => ?_, fun e => ?_⟩
  · obtain ⟨op, hfind, hchoice⟩ := bind_eq_ok_iff.mp hchoice
    have hget := Graph.findOperator_eq_ok_iff.mp hfind
    split at hchoice <;> cases hchoice
    exact ⟨trivial, ⟨op, hget, rfl⟩, _, Draft.takes_setDisabled_iff.mpr ⟨op, hget, rfl⟩⟩
  · rw [exec_lookUp_bind]
    dsimp only
    rcases e.graph.findOperator id with cause | op
    · rfl
    · exact exec_commit_unless ..

/-! ## Links -/

theorem single_addLink (link : Link) : Single (addLink link) := by
  unfold addLink
  refine single_of_guarded (c := fun _ g => do
    g.checkLink link
    return some (.addLink ⟨link, none⟩))
    (fun e => ?_) fun {catalogue g change} h hchoice => ?_
  · rw [exec_lookUp_bind]
    rcases e.graph.checkLink link with cause | _ <;> rfl
  · obtain ⟨_, hok, hchoice⟩ := bind_eq_ok_iff.mp hchoice
    cases hchoice
    exact ⟨trivial, trivial, _, Change.takes_restoreLink hok⟩

/-- Deleting a link that has been found is faithful and succeeds. -/
theorem sound_deleteLink {catalogue : Catalogue} {g : Graph} (h : g.WellFormed catalogue)
    {id : LinkId} {link : Link} (hget : g.links.get? id = some link) :
    (Change.deleteLink ⟨link, g.breakpoints.get? id⟩).Fits catalogue ∧
      (Change.deleteLink ⟨link, g.breakpoints.get? id⟩).Faithful g ∧
      ∃ g', Takes (Change.deleteLink ⟨link, g.breakpoints.get? id⟩).apply g g' := by
  obtain rfl := h.link_id hget
  refine ⟨trivial, ⟨hget, rfl⟩, _, Draft.takes_deleteLink_iff.mpr ⟨?_, rfl⟩⟩
  rw [hget]
  rfl

theorem single_deleteLink (id : LinkId) : Single (deleteLink id) := by
  unfold deleteLink
  refine single_of_guarded (c := fun _ g => do
    let link ← g.findLink id
    return some (.deleteLink ⟨link, g.breakpoints.get? id⟩))
    (fun e => ?_) fun {catalogue g change} h hchoice => ?_
  · rw [exec_lookUp_bind]
    rcases e.graph.findLink id with cause | link <;> rfl
  · obtain ⟨link, hfind, hchoice⟩ := bind_eq_ok_iff.mp hchoice
    cases hchoice
    exact sound_deleteLink h (Graph.findLink_eq_ok_iff.mp hfind)

theorem single_deleteLinkBetween (source target : PortRef) :
    Single (deleteLinkBetween source target) := by
  refine ⟨.guarded fun _ g => do
    let found ← g.findLinkBetween source target
    let link ← g.findLink found.id
    return some (.deleteLink ⟨link, g.breakpoints.get? found.id⟩),
    fun {catalogue enabled g change} h hchoice => ?_, fun e => ?_⟩
  · cases enabled with
    | false => cases hchoice
    | true =>
      obtain ⟨found, -, hchoice⟩ := bind_eq_ok_iff.mp hchoice
      obtain ⟨link, hfind, hchoice⟩ := bind_eq_ok_iff.mp hchoice
      cases hchoice
      exact sound_deleteLink h (Graph.findLink_eq_ok_iff.mp hfind)
  · -- The lock is asked for twice: for this call, and for the deletion it makes.
    unfold deleteLinkBetween deleteLink Choice.guarded
    rw [exec_requireEnabled_bind]
    cases henabled : e.enabled with
    | false => rfl
    | true =>
      simp only [↓reduceIte, exec_lookUp_bind, exec_requireEnabled_bind, henabled]
      rcases e.graph.findLinkBetween source target with cause | found
      · rfl
      · rcases hfind : e.graph.findLink found.id with cause | link <;>
          simp only [bind, Except.bind, hfind] <;> rfl

theorem single_setBreakpoint (id : LinkId) (breakpoint : Option Breakpoint) :
    Single (setBreakpoint id breakpoint) := by
  unfold setBreakpoint
  refine single_of_guarded (c := fun _ g => do
    let _ ← g.findLink id
    return if g.breakpoints.get? id = breakpoint then none
      else some (.setBreakpoint id (g.breakpoints.get? id) breakpoint))
    (fun e => ?_) fun {catalogue g change} h hchoice => ?_
  · rw [exec_lookUp_bind]
    rcases e.graph.findLink id with cause | link
    · rfl
    · exact exec_commit_unless ..
  · obtain ⟨link, hfind, hchoice⟩ := bind_eq_ok_iff.mp hchoice
    have hget := Graph.findLink_eq_ok_iff.mp hfind
    split at hchoice <;> cases hchoice
    have hlink : (g.links.get? id).isSome := by
      rw [hget]
      rfl
    exact ⟨trivial, rfl, _, Draft.takes_setBreakpoint_iff.mpr ⟨hlink, rfl⟩⟩

end Editor

end PipelineEditor
