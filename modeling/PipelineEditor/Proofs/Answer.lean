import PipelineEditor.Proofs.Learning
import PipelineEditor.Proofs.Subscriber
import PipelineEditor.Proofs.Turns

/-!
# Taking over an answer

An answer is stale, tells of a failure, or is learned from; and what is learned asks for corrections
that are made, or wait for the pipeline to be unlocked.  Corrections never fail: each is for an
operator that is there, and is one call to the editor.

## Main definitions

* `Graph.rewrite g documents`: a graph with the property documents of some operators replaced

## Main results

* `Propagation.apply_stale`, `Propagation.apply_failed`, `Propagation.apply_inferred`: what becomes
  of an answer
* `Propagation.exec_replaceAll`: corrections are made, one command each
* `Session.applyOutcome_ok`: taking over an answer succeeds
-/

namespace PipelineEditor

/-- **The graph with property documents replaced**, for the operators that are there. -/
def Graph.rewrite (g : Graph) (documents : List (OperatorId × Json)) : Graph :=
  documents.foldl
    (fun g entry => g.modifyOperator entry.1 fun op => { op with properties := entry.2 }) g

/-- Another operator is not modified. -/
theorem Graph.get?_modifyOperator_of_ne (g : Graph) {id other : OperatorId} (hne : id ≠ other)
    (change : Operator → Operator) :
    (g.modifyOperator id change).operators.get? other = g.operators.get? other := by
  unfold modifyOperator
  split
  · rw [Dict.get?_insert, if_neg hne]
  · rfl

/-- The editor as it is, but with events announced before all others. -/
def Editor.foretell (told : List Event) (e : Editor) : Editor :=
  { e with draft := ⟨e.graph, told ++ e.draft.announced⟩ }

/-! ## Corrections that are made -/

/-- Replacing a document by another succeeds on a pipeline that is not locked. -/
theorem Editor.exec_setProperties {e : Editor} (henabled : e.enabled = true)
    (hidle : e.bundled = none) {id : OperatorId} {op : Operator} {document : Json}
    (hget : e.graph.operators.get? id = some op) (hdiffers : op.properties.same document = false) :
    (setProperties id document).exec e = (.ok (), { e with
      draft := ⟨e.graph.modifyOperator id fun op => { op with properties := document },
        e.draft.announced ++ [.propertyChanged id op.properties document]⟩
      history := e.history.record [.setProperties id op.properties document] }) := by
  have hstep : e.draft.graph.setProperties id document =
      .ok (e.graph.modifyOperator id fun op => { op with properties := document },
        [.propertyChanged id op.properties document]) := by
    unfold Graph.modifyOperator
    rw [hget]
    exact Graph.setProperties_eq_ok_iff.mpr ⟨op, hget, rfl⟩
  unfold setProperties
  rw [exec_requireEnabled_bind, if_pos henabled, exec_lookUp_bind,
    Graph.findOperator_eq_ok_iff.mpr hget]
  dsimp only
  rw [hdiffers, if_neg Bool.false_ne_true, exec_commit, Change.apply, Draft.exec_mutate, hstep]
  obtain ⟨catalogue, draft, history, enabled, bundled⟩ := e
  cases hidle
  rfl

namespace Propagation

variable {p : Propagation} {e : Editor} {outcome : Outcome} {revision : Nat}
  {result : InputSchemas}

/-- **Documents are replaced one by one**, where each is for an operator that is there and differs
from the one it has; what was announced before makes no difference. -/
theorem exec_replaceAll (henabled : e.enabled = true) (hidle : e.bundled = none)
    {documents : List (OperatorId × Json)} (hnodup : (documents.map (·.1)).Nodup)
    (hdocuments : ∀ entry ∈ documents, ∃ op, e.graph.operators.get? entry.1 = some op ∧
      op.properties.same entry.2 = false) :
    ∃ e', (replaceAll documents).exec e = (.ok (documents.map (·.1)), e') ∧
      e'.graph = e.graph.rewrite documents ∧ ∀ told, (replaceAll documents).exec (e.foretell told) =
        (.ok (documents.map (·.1)), e'.foretell told) := by
  -- By induction on the documents, for the editor as the earlier replacements have left it.
  induction documents generalizing e with
  | nil => exact ⟨e, rfl, rfl, fun _ => rfl⟩
  | cons entry rest ih =>
    obtain ⟨id, document⟩ := entry
    obtain ⟨hfresh, hrest⟩ := List.nodup_cons.mp hnodup
    obtain ⟨op, hget, hdiffers⟩ := hdocuments _ List.mem_cons_self
    -- One document is replaced, in whichever editor that knows the operator.
    have hcons {e first last : Editor}
        (hexec : (Editor.setProperties id document).exec e = (.ok (), first))
        (hidle : e.bundled = none) (hrest : (replaceAll rest).exec first =
          (.ok (rest.map (·.1)), last)) :
        (replaceAll ((id, document) :: rest)).exec e =
          (.ok (((id, document) :: rest).map (·.1)), last) := by
      have hbundle : (Editor.bundle (Editor.setProperties id document)).exec e = (.ok (), first) :=
        ((Action.setProperties id document).exec_bundle hidle).trans hexec
      unfold replaceAll at hrest ⊢
      have hone : Attempt.exec (do
          Editor.bundle (Editor.setProperties id document)
          return id) e = (.ok id, first) := Attempt.exec_bind_ok hbundle
      rw [List.mapM_cons, Attempt.exec_bind_ok hone]
      exact Attempt.exec_bind_ok hrest
    have hexec := Editor.exec_setProperties henabled hidle hget hdiffers
    obtain ⟨last, hlast, hgraph, htold⟩ := ih (e := { e with
      draft := ⟨e.graph.modifyOperator id fun op => { op with properties := document },
        e.draft.announced ++ [.propertyChanged id op.properties document]⟩
      history := e.history.record [.setProperties id op.properties document] })
      henabled hidle hrest fun other hmem => by
        -- The other operators are as they were.
        have hne : id ≠ other.1 := by
          rintro rfl
          exact hfresh (List.mem_map.mpr ⟨other, hmem, rfl⟩)
        obtain ⟨found, hfound⟩ := hdocuments other (List.mem_cons_of_mem _ hmem)
        refine ⟨found, ?_⟩
        rw [← hfound.1]
        exact ⟨Graph.get?_modifyOperator_of_ne _ hne _, hfound.2⟩
    refine ⟨last, hcons hexec hidle hlast, hgraph, fun told => ?_⟩
    have hexec' := Editor.exec_setProperties (e := e.foretell told) henabled hidle hget hdiffers
    refine hcons hexec' hidle (Eq.trans ?_ (htold told))
    unfold Editor.foretell
    rw [List.append_assoc]
    rfl

/-- Corrections that are asked for can be made. -/
theorem exec_replaceAll_corrections (henabled : e.enabled = true) (hidle : e.bundled = none)
    (result : InputSchemas) :
    let documents := e.graph.corrections e.catalogue result
    ∃ e', (replaceAll documents).exec e = (.ok (documents.map (·.1)), e') ∧
      e'.graph = e.graph.rewrite documents ∧ ∀ told, (replaceAll documents).exec (e.foretell told) =
        (.ok (documents.map (·.1)), e'.foretell told) := by
  refine exec_replaceAll henabled hidle ?_ fun entry hmem => Graph.not_same_of_mem_corrections hmem
  obtain ⟨hordered, -⟩ := e.graph.find?_corrections e.catalogue result
  exact (⟨_, hordered⟩ : Dict Json).nodup_keys

/-! ## What becomes of an answer -/

/-- Where no document needs a correction, nothing is corrected, and nothing waits. -/
theorem correct_of_nil (hnone : e.graph.corrections e.catalogue result = []) :
    p.correct e result = (.ok [], { p with deferred := false }, e) := by
  unfold correct
  rw [hnone]
  rfl

/-- **While the pipeline is locked, corrections wait.** -/
theorem correct_of_locked (hlocked : e.enabled = false)
    (hsome : e.graph.corrections e.catalogue result ≠ []) :
    p.correct e result = (.ok [], { p with deferred := true }, e) := by
  unfold correct
  dsimp only
  rw [if_neg (fun hempty => hsome (List.isEmpty_iff.mp hempty)), hlocked]
  rfl

/-- **While it is not, they are made.** -/
theorem correct_of_enabled (henabled : e.enabled = true) :
    p.correct e result =
      (((replaceAll (e.graph.corrections e.catalogue result)).exec e).1,
        { p with deferred := false },
        ((replaceAll (e.graph.corrections e.catalogue result)).exec e).2) := by
  unfold correct
  dsimp only
  split
  · rename_i hempty
    rw [List.isEmpty_iff.mp hempty]
    rfl
  · rw [henabled]
    rfl

theorem correct_ok (hidle : e.bundled = none) (p : Propagation) (result : InputSchemas) :
    ∃ corrected, (p.correct e result).1 = .ok corrected := by
  cases henabled : e.enabled with
  | true =>
    obtain ⟨e', hexec, -⟩ := exec_replaceAll_corrections henabled hidle result
    rw [correct_of_enabled henabled, hexec]
    exact ⟨_, rfl⟩
  | false =>
    by_cases hnone : e.graph.corrections e.catalogue result = []
    · rw [correct_of_nil hnone]
      exact ⟨_, rfl⟩
    · rw [correct_of_locked henabled hnone]
      exact ⟨_, rfl⟩

/-- **A stale answer does nothing.** -/
theorem apply_stale (hstale : p.isCurrent outcome.sequence outcome.revision revision = false)
    (e : Editor) : p.apply e outcome revision = (.ok ⟨true, [], []⟩, p, e) := by
  unfold apply
  rw [hstale]
  rfl

/-- **A failure is told of**, and nothing else comes of it. -/
theorem apply_failed (hcurrent : p.isCurrent outcome.sequence outcome.revision revision = true)
    {cause : EditError} (hfailed : outcome.inferred = .error cause) (e : Editor) :
    p.apply e outcome revision =
      (.ok ⟨false, [.propagationFailed outcome.sequence cause.message], []⟩, p, e) := by
  unfold apply
  rw [hcurrent, hfailed]
  rfl

/-- **What is inferred is learned**, and then properties are corrected. -/
theorem apply_inferred (hcurrent : p.isCurrent outcome.sequence outcome.revision revision = true)
    (hinferred : outcome.inferred = .ok result) (e : Editor) :
    p.apply e outcome revision =
      let learned := p.overlay.apply e.graph e.catalogue result
      let corrected := { p with overlay := learned.1 }.correct e result
      (corrected.1.map (⟨false, learned.2, ·⟩), corrected.2) := by
  unfold apply
  rw [hcurrent, hinferred]
  rfl

/-- **Outside a bundle taking over an answer succeeds**, whatever it says. -/
theorem apply_ok (hidle : e.bundled = none) (p : Propagation) (outcome : Outcome)
    (revision : Nat) : ∃ applied, (p.apply e outcome revision).1 = .ok applied := by
  rcases hcurrent : p.isCurrent outcome.sequence outcome.revision revision with _ | _
  · rw [apply_stale hcurrent]
    exact ⟨_, rfl⟩
  · rcases hinferred : outcome.inferred with cause | result
    · rw [apply_failed hcurrent hinferred]
      exact ⟨_, rfl⟩
    · rw [apply_inferred hcurrent hinferred]
      obtain ⟨corrected, hok⟩ := correct_ok hidle
        { p with overlay := (p.overlay.apply e.graph e.catalogue result).1 } result
      dsimp only
      rw [hok]
      exact ⟨_, rfl⟩

end Propagation

namespace Session

variable {σ : Type} [Surface σ] {s : Session σ}

/-- **Taking over an answer succeeds.** -/
theorem applyOutcome_ok (hidle : s.editor.bundled = none) (outcome : Outcome) :
    ∃ applied, ((applyOutcome outcome).exec s).1 = .ok applied := by
  obtain ⟨applied, hok⟩ := s.propagation.apply_ok hidle outcome s.revision
  refine ⟨applied, ?_⟩
  unfold applyOutcome
  rw [Attempt.exec_of]
  dsimp only
  rw [hok]

/-- An answer that is taken over tells of what was learned, and then what was corrected is handed
on. -/
theorem exec_applyOutcome {outcome : Outcome} {applied : Applied} {p : Propagation} {e : Editor}
    (happly : s.propagation.apply s.editor outcome s.revision = (.ok applied, p, e)) :
    (applyOutcome outcome).exec s =
      (.ok applied, ({ s with propagation := p, editor := e }.dispatch applied.events).settle) := by
  unfold applyOutcome
  rw [Attempt.exec_of, happly]

end Session

end PipelineEditor
