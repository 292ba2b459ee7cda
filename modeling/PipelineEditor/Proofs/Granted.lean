import PipelineEditor.Proofs.Effect
import PipelineEditor.Proofs.Frozen

/-!
# Requests that are granted

What a gesture asks for is done as one call.  If it is granted, the graph is what the requests make
of it, one after the other; and where all of them delete something, nothing of that is left, and
nothing comes instead.

## Main definitions

* `Intent.effect`, `Intent.effectAll`: what requests make of a graph
* `Intent.IsDeletion`, `Intent.Gone g`: requests to delete, and that what one names is not there
* `Intent.Fewer g g'`: nothing has been added

## Main results

* `Intent.effectAll_of_granted`: what is granted is what the requests make of the graph
* `Intent.fewer_of_effectAll`: requests to delete add nothing, and what they name is gone
-/

namespace PipelineEditor

namespace Intent

variable {catalogue : Catalogue} {e e' : Editor} {g g' : Graph} {intents : List Intent}

/-- **What a request makes of a graph.** -/
def effect : Intent → Graph → Except EditError Graph
  | addLink link => (Mutation.addLink link).result
  | deleteLink id => (Mutation.deleteLink id).result
  | deleteOperator id => (Mutation.deleteOperator id).result
  | moveOperator id position => fun g => g.findPosition id >>= fun start =>
    if start.same position then .ok g else (Mutation.setPosition id position).result g

/-- What several requests make of a graph, one after the other. -/
def effectAll (intents : List Intent) (g : Graph) : Except EditError Graph :=
  intents.foldlM (fun g intent => intent.effect g) g

theorem realizes_perform (intent : Intent) :
    Editor.Realizes catalogue intent.perform intent.effect := by
  cases intent with
  | addLink link => exact Editor.realizes_addLink link
  | deleteLink id => exact Editor.realizes_deleteLink id
  | deleteOperator id => exact Editor.realizes_deleteOperator id
  | moveOperator id position => exact Editor.realizes_moveOperator id position

/-- Outside a bundle, requests are as good as a bundle of them. -/
theorem exec_performAll (hidle : e.bundled = none) (intents : List Intent) :
    (performAll intents).exec e = (Editor.bundle (intents.forM perform)).exec e := by
  unfold performAll
  split
  · rw [Editor.exec_bundle_none hidle]
    obtain ⟨catalogue, draft, history, enabled, bundled⟩ := e
    cases hidle
    rfl
  · rename_i intent
    obtain ⟨action, heq⟩ := intent.exists_action
    have hforM : [intent].forM perform = action.perform := by
      rw [← heq]
      exact bind_pure intent.perform
    rw [hforM, heq, action.exec_bundle hidle]
  · rfl

/-- On a locked pipeline no request is granted. -/
theorem enabled_of_granted {intent : Intent} {rest : List Intent}
    (hexec : ((intent :: rest).forM perform).exec e = (.ok (), e')) : e.enabled = true := by
  by_contra hlocked
  obtain ⟨action, heq⟩ := intent.exists_action
  have hrefused := action.exec_locked (Bool.not_eq_true _ ▸ hlocked)
  rw [← heq] at hrefused
  cases hexec.symm.trans (Attempt.exec_bind_error hrefused)

/-- **What is granted is what the requests make of the graph.** -/
theorem effectAll_of_granted (hidle : e.bundled = none) (hwf : e.graph.WellFormed e.catalogue)
    (hexec : (performAll intents).exec e = (.ok (), e')) :
    effectAll intents e.graph = .ok e'.graph := by
  rw [exec_performAll hidle, Editor.exec_bundle_none hidle] at hexec
  rcases hcalls : (intents.forM perform).exec { e with bundled := some [] } with
    ⟨cause | _, inside⟩ <;> rw [hcalls] at hexec
  · cases hexec
  · -- Closing the bundle leaves the graph as the requests have made it.
    obtain ⟨-, rfl⟩ := Prod.mk.inj hexec
    show effectAll intents e.graph = .ok inside.graph
    cases intents with
    | nil =>
      obtain ⟨-, rfl⟩ := Prod.mk.inj hcalls
      rfl
    | cons intent rest =>
      have hopen : Editor.Open e.catalogue { e with bundled := some [] } :=
        ⟨enabled_of_granted hcalls, rfl, rfl, hwf⟩
      have hmeets := Editor.Realizes.forM realizes_perform (intent :: rest) _ hopen
      have heffect : Editor.Meets e.catalogue ((intent :: rest).forM perform)
        { e with bundled := some [] } (effectAll (intent :: rest) e.graph) := hmeets
      cases hall : effectAll (intent :: rest) e.graph with
      | error cause =>
        rw [hall] at heffect
        obtain ⟨_, hfails⟩ := heffect
        cases hcalls.symm.trans hfails
      | ok g =>
        rw [hall] at heffect
        obtain ⟨_, hsucceeds, hgraph, -⟩ := heffect
        cases hcalls.symm.trans hsucceeds
        rw [hgraph]

/-! ## Requests to delete something -/

/-- The request deletes a link or an operator. -/
def IsDeletion : Intent → Prop
  | deleteLink _ | deleteOperator _ => True
  | addLink _ | moveOperator .. => False

/-- What a request deletes is not there. -/
def Gone (g : Graph) : Intent → Prop
  | deleteLink id => g.links.get? id = none
  | deleteOperator id => g.operators.get? id = none
  | addLink _ | moveOperator .. => True

/-- No link and no operator has come. -/
structure Fewer (g g' : Graph) : Prop where
  links : ∀ {id link}, g'.links.get? id = some link → g.links.get? id = some link
  operators : ∀ {id op}, g'.operators.get? id = some op → g.operators.get? id = some op

theorem Fewer.gone (h : Fewer g g') {intent : Intent} (hgone : intent.Gone g) : intent.Gone g' := by
  cases intent with
  | deleteLink id => exact Option.eq_none_iff_forall_ne_some.mpr fun link hget =>
      nomatch hgone.symm.trans (h.links hget)
  | deleteOperator id => exact Option.eq_none_iff_forall_ne_some.mpr fun op hget =>
      nomatch hgone.symm.trans (h.operators hget)
  | addLink | moveOperator => trivial

theorem fewer_of_effect {intent : Intent} (hdeletes : intent.IsDeletion)
    (h : intent.effect g = .ok g') : Fewer g g' ∧ intent.Gone g' := by
  have hleft {β : Type} {m : Dict β} {key other : String} {value : β}
      (hget : (m.erase key).get? other = some value) : m.get? other = some value := by
    rw [Dict.get?_erase] at hget
    split at hget
    · cases hget
    · exact hget
  cases intent with
  | deleteLink id =>
    obtain ⟨-, rfl⟩ := Draft.takes_deleteLink_iff.mp (Mutation.result_eq_ok_iff.mp h)
    exact ⟨⟨hleft, fun hget => hget⟩, Dict.get?_erase_self ..⟩
  | deleteOperator id =>
    obtain ⟨-, rfl⟩ := Draft.takes_deleteOperator_iff.mp (Mutation.result_eq_ok_iff.mp h)
    refine ⟨⟨fun {key link} hget => ?_, hleft⟩, Dict.get?_erase_self ..⟩
    have hkept : (g.dropLinks (g.linksAt id)).links.get? key = some link := hget
    rw [Graph.get?_dropLinks_links] at hkept
    split at hkept
    · cases hkept
    · exact hkept
  | addLink | moveOperator => cases hdeletes

/-- **Where all requests delete something**, that is gone, and nothing has come. -/
theorem fewer_of_effectAll (hdeletes : ∀ intent ∈ intents, intent.IsDeletion)
    (h : effectAll intents g = .ok g') : Fewer g g' ∧ ∀ intent ∈ intents, intent.Gone g' := by
  induction intents generalizing g with
  | nil =>
    cases h
    exact ⟨⟨id, id⟩, fun _ hmem => nomatch hmem⟩
  | cons intent rest ih =>
    obtain ⟨middle, hfirst, hrest⟩ := bind_eq_ok_iff.mp h
    obtain ⟨hfewer, hgone⟩ := fewer_of_effect (hdeletes intent List.mem_cons_self) hfirst
    obtain ⟨hfewer', hgone'⟩ :=
      ih (fun other hmem => hdeletes other (List.mem_cons_of_mem _ hmem)) hrest
    refine ⟨⟨hfewer.links ∘ hfewer'.links, hfewer.operators ∘ hfewer'.operators⟩, ?_⟩
    rintro other (_ | ⟨_, hmem⟩)
    · exact hfewer'.gone hgone
    · exact hgone' other hmem

end Intent

end PipelineEditor
