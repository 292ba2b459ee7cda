import PipelineEditor.Proofs.Evolution

/-!
# What bundled calls make of a graph

Inside a bundle a call is refused by what it finds in the graph, or carries its change out; nothing
else of the editor has a say, as long as the pipeline is not locked.  So a call is, in effect, a
function of graphs that may fail, and a sequence of calls is the sequence of these functions.

## Main definitions

* `Mutation.result`: the graph that a mutation leaves
* `Editor.Open catalogue e`: a bundle is in progress on a well-formed graph that is not locked
* `Editor.Realizes catalogue call effect`: the call is, in effect, the function of graphs

## Main results

* `Editor.Realizes.bind`, `Editor.Realizes.forM`: sequences of calls are sequences of functions
* `Editor.realizes_addAll`, `Editor.realizes_deleteSelection`, `Editor.realizes_setBreakpoint`: what
  the calls are in effect
-/

namespace PipelineEditor

open Draft (Takes)

namespace Mutation

/-- The graph that a mutation leaves, whatever it announces. -/
def result (m : Mutation) (g : Graph) : Except EditError Graph := (m.step g).map Prod.fst

variable {g g' : Graph}

/-- The result is where the mutation takes a draft of the graph. -/
theorem result_eq_ok_iff {m : Mutation} :
    m.result g = .ok g' ↔ Takes (Draft.mutate m.step) g g' := by
  rw [Draft.takes_mutate_iff, result]
  cases m.step g with
  | error cause => simp [Except.map]
  | ok result => simp [Except.map, Prod.ext_iff]

theorem result_addOperator (op : Operator) (position : Point) :
    (addOperator op position).result g = (g.checkOperator op).map fun _ => { g with
      operators := g.operators.insert op.id op
      positions := g.positions.insert op.id position } := by
  simp only [result, step, Graph.addOperator]
  cases g.checkOperator op <;> rfl

theorem result_deleteOperator (id : OperatorId) :
    (deleteOperator id).result g = (g.findOperator id).map fun _ => g.withoutOperator id := by
  cases hfind : g.findOperator id with
  | error cause => simp [result, step, Graph.deleteOperator, hfind, bind, Except.bind, Except.map]
  | ok op =>
    have hstep := Graph.deleteOperator_eq_ok_iff.mpr
      ⟨op, Graph.findOperator_eq_ok_iff.mp hfind, rfl⟩
    simp [result, step, hstep, Except.map]

theorem result_addLink (link : Link) :
    (addLink link).result g = (g.checkLink link).map fun _ =>
      { g with links := g.links.insert link.id link } := by
  simp only [result, step, Graph.addLink]
  cases g.checkLink link <;> rfl

theorem result_deleteLink (id : LinkId) :
    (deleteLink id).result g = (g.findLink id).map fun _ => g.dropLink id := by
  simp only [result, step, Graph.deleteLink]
  cases g.findLink id <;> rfl

theorem result_setPosition (id : OperatorId) (position : Point) :
    (setPosition id position).result g = (g.findOperator id).map fun _ =>
      { g with positions := g.positions.insert id position } := by
  simp only [result, step, Graph.setPosition]
  cases g.findOperator id <;> rfl

theorem result_setBreakpoint (id : LinkId) (breakpoint : Option Breakpoint) :
    (setBreakpoint id breakpoint).result g = (g.findLink id).map fun _ =>
      { g with breakpoints := g.breakpointsWith id breakpoint } := by
  simp only [result, step, Graph.setBreakpoint]
  cases g.findLink id with
  | error cause => rfl
  | ok link => cases breakpoint <;> rfl

end Mutation

namespace Editor

variable {catalogue : Catalogue} {e : Editor}

/-! ## Calls inside a bundle -/

/-- **A bundle is in progress on a well-formed graph**, and the pipeline is not locked. -/
structure Open (catalogue : Catalogue) (e : Editor) : Prop where
  enabled : e.enabled = true
  bundling : e.bundled.isSome = true
  catalogue_eq : e.catalogue = catalogue
  wellFormed : e.graph.WellFormed catalogue

/-- The call fails for the given cause, or succeeds and leaves the given graph. -/
def Meets (catalogue : Catalogue) (call : Attempt Editor Unit) (e : Editor) :
    Except EditError Graph → Prop
  | .error cause => ∃ e', call.exec e = (.error cause, e')
  | .ok g => ∃ e', call.exec e = (.ok (), e') ∧ e'.graph = g ∧ e'.Open catalogue

/-- **The call is, in effect, a function of graphs**: inside a bundle it fails for the same cause,
and if it succeeds it leaves the graph that the function yields. -/
def Realizes (catalogue : Catalogue) (call : Attempt Editor Unit)
    (effect : Graph → Except EditError Graph) : Prop :=
  ∀ e, Open catalogue e → Meets catalogue call e (effect e.graph)

namespace Realizes

variable {call next : Attempt Editor Unit} {effect effect' : Graph → Except EditError Graph}

theorem nothing : Realizes catalogue (pure ()) .ok := fun e hopen => ⟨e, rfl, rfl, hopen⟩

theorem bind (h : Realizes catalogue call effect) (h' : Realizes catalogue next effect') :
    Realizes catalogue (call >>= fun _ => next) fun g => effect g >>= effect' := by
  intro e hopen
  have hcall := h e hopen
  dsimp only
  cases heffect : effect e.graph with
  | error cause =>
    rw [heffect] at hcall
    obtain ⟨e', hexec⟩ := hcall
    exact ⟨e', Attempt.exec_bind_error hexec⟩
  | ok g =>
    rw [heffect] at hcall
    obtain ⟨e', hexec, rfl, hopen'⟩ := hcall
    -- The next call starts from the graph that this one has left.
    have hnext := h' e' hopen'
    show Meets catalogue _ e (effect' e'.graph)
    cases heffect' : effect' e'.graph with
    | error cause =>
      rw [heffect'] at hnext
      obtain ⟨e'', hexec'⟩ := hnext
      exact ⟨e'', (Attempt.exec_bind_ok hexec).trans hexec'⟩
    | ok g' =>
      rw [heffect'] at hnext
      obtain ⟨e'', hexec', hopen''⟩ := hnext
      exact ⟨e'', (Attempt.exec_bind_ok hexec).trans hexec', hopen''⟩

/-- One call for each item is, in effect, a fold over the items. -/
theorem forM {α : Type} {step : α → Attempt Editor Unit}
    {effect : α → Graph → Except EditError Graph}
    (h : ∀ item, Realizes catalogue (step item) (effect item)) (items : List α) :
    Realizes catalogue (items.forM step) fun g => items.foldlM (fun g item => effect item g) g := by
  induction items with
  | nil => exact nothing
  | cons item rest ih => exact (h item).bind ih

/-- Asking for the lock makes no difference where the pipeline is not locked. -/
theorem guarded (h : Realizes catalogue call effect) :
    Realizes catalogue (requireEnabled >>= fun _ => call) effect := by
  intro e hopen
  have hcall := h e hopen
  unfold Meets at hcall ⊢
  simpa only [exec_requireEnabled_bind, if_pos hopen.enabled] using hcall

/-- A bundle inside a bundle is part of it. -/
theorem bundle (h : Realizes catalogue call effect) :
    Realizes catalogue (Editor.bundle call) effect := by
  intro e hopen
  obtain ⟨changes, hbundled⟩ := Option.isSome_iff_exists.mp hopen.bundling
  have hcall := h e hopen
  unfold Meets at hcall ⊢
  simpa only [exec_bundle_some hbundled] using hcall

end Realizes

/-! ## Single calls -/

/-- A change that can be carried out is carried out and noted in the bundle. -/
theorem Open.meets_commit (h : e.Open catalogue) {change : Change} {g : Graph}
    (hfits : change.Fits catalogue) (htakes : Takes change.apply e.graph g) :
    Meets catalogue (commit change) e (.ok g) := by
  obtain ⟨draft, hexec, rfl⟩ := htakes.exec (d := e.draft) rfl
  -- A change that fits is made of steps, which keep the graph well-formed.
  have hsteps := Change.apply_keeps hfits e.draft
  rw [hexec] at hsteps
  have hwf : draft.graph.WellFormed catalogue := hsteps.wellFormed h.wellFormed
  refine ⟨note change { e with draft }, ?_, ?_, ?_⟩
  · rw [exec_commit, hexec]
  · rw [graph, note_draft]
  · obtain ⟨changes, hbundled⟩ := Option.isSome_iff_exists.mp h.bundling
    unfold note
    rw [hbundled]
    exact ⟨h.enabled, rfl, h.catalogue_eq, hwf⟩

/-- An operator is added if it fits the catalogue and its name is free. -/
theorem realizes_addOperator (op : Operator) (position : Point) :
    Realizes catalogue (addOperator op position) fun g =>
      catalogue.checkPorts op >>= fun _ => (Mutation.addOperator op position).result g := by
  refine .guarded fun e hopen => ?_
  simp only [Mutation.result_addOperator]
  unfold Meets
  simp only [Attempt.exec_get_bind, Attempt.exec_check_bind, hopen.catalogue_eq]
  cases hports : catalogue.checkPorts op with
  | error cause => exact ⟨e, rfl⟩
  | ok _ =>
    simp only [exec_lookUp_bind]
    cases hfree : e.graph.checkOperator op with
    | error cause => exact ⟨e, rfl⟩
    | ok _ =>
      have habsent := Graph.checkOperator_eq_ok_iff.mp hfree
      refine hopen.meets_commit (Catalogue.checkPorts_eq_ok_iff.mp hports) (.bind ?_ (.pure _))
      exact Draft.takes_addOperator_iff.mpr ⟨habsent, rfl⟩

theorem realizes_deleteOperator (id : OperatorId) :
    Realizes catalogue (deleteOperator id) (Mutation.deleteOperator id).result := by
  refine .guarded fun e hopen => ?_
  rw [Mutation.result_deleteOperator]
  unfold Meets
  simp only [exec_lookUp_bind]
  cases hfind : e.graph.findOperator id with
  | error cause => exact ⟨e, rfl⟩
  | ok op =>
    have hget := Graph.findOperator_eq_ok_iff.mp hfind
    obtain rfl := hopen.wellFormed.operator_id hget
    have hstored : (e.graph.operators.get? op.id).isSome := by simp [hget]
    -- What is saved along with the operator plays no part in whether the change fits.
    have hfits (position : Point) (links : List SavedLink) :
        (Change.deleteOperator op position links).Fits catalogue := hopen.wellFormed.fits hget
    exact hopen.meets_commit (hfits _ _) (Draft.takes_deleteOperator_iff.mpr ⟨hstored, rfl⟩)

theorem realizes_addLink (link : Link) :
    Realizes catalogue (addLink link) (Mutation.addLink link).result := by
  refine .guarded fun e hopen => ?_
  rw [Mutation.result_addLink]
  unfold Meets
  simp only [exec_lookUp_bind]
  cases hok : e.graph.checkLink link with
  | error cause => exact ⟨e, rfl⟩
  | ok _ =>
    have hadd : Takes (Change.restoreLink ⟨link, none⟩) e.graph _ := Change.takes_restoreLink hok
    exact hopen.meets_commit trivial hadd

theorem realizes_deleteLink (id : LinkId) :
    Realizes catalogue (deleteLink id) (Mutation.deleteLink id).result := by
  refine .guarded fun e hopen => ?_
  rw [Mutation.result_deleteLink]
  unfold Meets
  simp only [exec_lookUp_bind]
  cases hfind : e.graph.findLink id with
  | error cause => exact ⟨e, rfl⟩
  | ok link =>
    have hget := Graph.findLink_eq_ok_iff.mp hfind
    obtain rfl := hopen.wellFormed.link_id hget
    have hstored : (e.graph.links.get? link.id).isSome := by simp [hget]
    simp only [Attempt.exec_get_bind]
    exact hopen.meets_commit trivial (Draft.takes_deleteLink_iff.mpr ⟨hstored, rfl⟩)

/-- An operator that stands at the position already stays there. -/
theorem realizes_moveOperator (id : OperatorId) (position : Point) :
    Realizes catalogue (moveOperator id position) fun g => g.findPosition id >>= fun start =>
      if start.same position then .ok g else (Mutation.setPosition id position).result g := by
  refine .guarded fun e hopen => ?_
  simp only [Mutation.result_setPosition]
  cases hfind : e.graph.findPosition id with
  | error cause =>
    refine ⟨e, ?_⟩
    simp only [exec_lookUp_bind, hfind]
  | ok start =>
    have hstored : (e.graph.operators.get? id).isSome :=
      (hopen.wellFormed.position_iff id).mp (by simp [Graph.findPosition_eq_ok_iff.mp hfind])
    obtain ⟨op, hop⟩ := Option.isSome_iff_exists.mp hstored
    have hmove : Takes (Change.move id start position).apply e.graph
        { e.graph with positions := e.graph.positions.insert id position } :=
      Draft.takes_setPosition_iff.mpr ⟨hstored, rfl⟩
    -- As the operator is there, the reference does not fail either, and both sides ask the same
    -- question.
    have heffect : (e.graph.findPosition id >>= fun start =>
        if start.same position then .ok e.graph
        else (e.graph.findOperator id).map fun _ =>
          { e.graph with positions := e.graph.positions.insert id position }) =
        .ok (if start.same position then e.graph
          else { e.graph with positions := e.graph.positions.insert id position }) := by
      rw [hfind, Graph.findOperator_eq_ok_iff.mpr hop]
      exact (apply_ite Except.ok ..).symm
    rw [← hfind, heffect]
    unfold Meets
    simp only [exec_lookUp_bind, hfind]
    split
    · exact ⟨e, rfl, rfl, hopen⟩
    · exact hopen.meets_commit trivial hmove

theorem realizes_setBreakpoint (id : LinkId) (breakpoint : Option Breakpoint) :
    Realizes catalogue (setBreakpoint id breakpoint)
      (Mutation.setBreakpoint id breakpoint).result := by
  refine .guarded fun e hopen => ?_
  rw [Mutation.result_setBreakpoint]
  unfold Meets
  simp only [exec_lookUp_bind]
  cases hfind : e.graph.findLink id with
  | error cause => exact ⟨e, rfl⟩
  | ok link =>
    by_cases hsame : e.graph.breakpoints.get? id = breakpoint
    · -- The breakpoint that is set already is passed over, which leaves the same graph.
      refine ⟨e, ?_, ?_, hopen⟩
      · simp only [Attempt.exec_get_bind, hsame, ↓reduceIte]
        rfl
      · rw [← hsame, Graph.breakpointsWith_self]
    · have hstored : (e.graph.links.get? id).isSome := by
        simp [Graph.findLink_eq_ok_iff.mp hfind]
      simp only [Attempt.exec_get_bind, hsame, ↓reduceIte]
      exact hopen.meets_commit trivial (Draft.takes_setBreakpoint_iff.mpr ⟨hstored, rfl⟩)

/-! ## Several at once -/

/-- Operators are added one after the other, and then the links. -/
theorem realizes_addAll (operators : List (Operator × Point)) (links : List Link) :
    Realizes catalogue (addAll operators links) fun g =>
      operators.foldlM (fun g (op, position) =>
        catalogue.checkPorts op >>= fun _ => (Mutation.addOperator op position).result g) g >>=
      fun g => links.foldlM (fun g link => (Mutation.addLink link).result g) g :=
  .guarded (.bundle (.bind
    (.forM (fun (op, position) => realizes_addOperator op position) operators)
    (.forM realizes_addLink links)))

/-- A link that is not there is passed over. -/
theorem realizes_deleteLink_if (id : LinkId) :
    Realizes catalogue (do if (← get).graph.hasLink id then deleteLink id) fun g =>
      if g.hasLink id then (Mutation.deleteLink id).result g else .ok g := by
  intro e hopen
  by_cases hthere : e.graph.hasLink id = true
  · have hcall := realizes_deleteLink id e hopen
    unfold Meets at hcall ⊢
    simpa only [Attempt.exec_get_bind, if_pos hthere] using hcall
  · unfold Meets
    simp only [Attempt.exec_get_bind, if_neg hthere]
    exact ⟨e, rfl, rfl, hopen⟩

/-- The links are taken away one after the other, and then the operators. -/
theorem realizes_deleteSelection (operators : List OperatorId) (links : List LinkId) :
    Realizes catalogue (deleteAll operators links) fun g =>
      links.foldlM (fun g id =>
        if g.hasLink id then (Mutation.deleteLink id).result g else .ok g) g >>=
      fun g => operators.foldlM (fun g id => (Mutation.deleteOperator id).result g) g :=
  .guarded (.bundle (.bind (.forM realizes_deleteLink_if links)
    (.forM realizes_deleteOperator operators)))

/-- Operators are taken away one after the other. -/
theorem realizes_deleteAll (operators : List OperatorId) :
    Realizes catalogue (deleteAll operators []) fun g =>
      operators.foldlM (fun g id => (Mutation.deleteOperator id).result g) g :=
  realizes_deleteSelection operators []

end Editor

end PipelineEditor
