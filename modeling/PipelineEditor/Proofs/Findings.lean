import PipelineEditor.Proofs.Ledger
import PipelineEditor.Proofs.Listing
import PipelineEditor.Proofs.Stage

/-!
# Findings are never out of date

The graph is checked when something is announced that can change what a check finds, and only the
differences to the last check are told.  Neither loses anything: what is not announced leaves the
operators and the links, on which alone the checks depend, and who follows the differences holds the
findings themselves.

## Main definitions

* `Validation.of g catalogue`: the findings on a graph
* `Verdict`, `Verdict.follow`: what a subscriber holds of the findings on an operator
* `Session.Validated`: the findings are those on the present graph, and subscribers hold them

## Main results

* `Validation.followAll_refresh`: who follows the differences holds the new findings
* `Session.validated_after`: after every run the findings are current, and what was published tells
  them
-/

namespace PipelineEditor

/-! ## What checks depend on -/

/-- The findings on a graph. -/
def Validation.of (g : Graph) (catalogue : Catalogue) : Validation :=
  ⟨(g.checkAll catalogue).1, (g.checkAll catalogue).2⟩

/-- Checks depend on operators and links only. -/
theorem Graph.SameShape.validation_eq {g g' : Graph} (h : g.SameShape g')
    (catalogue : Catalogue) : Validation.of g' catalogue = .of g catalogue := by
  obtain ⟨_, _, _, _⟩ := g
  obtain ⟨_, _, _, _⟩ := g'
  obtain ⟨rfl, rfl⟩ := h
  rfl

/-! ## What subscribers hold -/

/-- What is told of the findings on an operator. -/
structure Verdict where
  valid : Bool
  errors : Dict String
  deriving DecidableEq

/-- What subscribers are told of findings. -/
def Findings.verdict (findings : Findings) : Verdict := ⟨findings.isValid, findings.errors⟩

namespace Verdict

/-- **What a subscriber holds after an event**, if it held verdicts before. -/
def follow (held : Dict Verdict) : Event → Dict Verdict
  | .operatorValidityChanged id valid errors => held.insert id ⟨valid, errors⟩
  | .operatorValidationCleared id => held.erase id
  | _ => held

/-- What a subscriber holds after several events. -/
def followAll (held : Dict Verdict) (events : List Event) : Dict Verdict := events.foldl follow held

theorem followAll_append (held : Dict Verdict) (events more : List Event) :
    followAll held (events ++ more) = followAll (followAll held events) more := List.foldl_append

/-- Events of other streams leave what a subscriber holds as it is. -/
theorem followAll_of_stream_ne {events : List Event}
    (h : ∀ event ∈ events, event.stream ≠ .validation) (held : Dict Verdict) :
    followAll held events = held := by
  induction events with
  | nil => rfl
  | cons event rest ih =>
    have hevent := h event List.mem_cons_self
    have hfollow : follow held event = held := by
      cases event <;> first | rfl | exact absurd rfl hevent
    have hrest := ih fun other hmem => h other (List.mem_cons_of_mem _ hmem)
    calc followAll held (event :: rest) = followAll (follow held event) rest := rfl
      _ = held := by rw [hfollow, hrest]

theorem followAll_changed (held : Dict Verdict) (entries : List (OperatorId × Findings)) :
    followAll held (entries.map fun entry =>
      .operatorValidityChanged entry.1 entry.2.isValid entry.2.errors) =
      held.insertAll (entries.map fun entry => (entry.1, entry.2.verdict)) := by
  induction entries generalizing held with
  | nil => rfl
  | cons entry rest ih => exact ih _

theorem followAll_cleared (held : Dict Verdict) (ids : List OperatorId) :
    followAll held (ids.map .operatorValidationCleared) = held.eraseAll ids := by
  induction ids generalizing held with
  | nil => rfl
  | cons id rest ih => exact ih _

/-- **Who follows the differences holds the new findings.** -/
theorem followAll_differences (before after : Dict Findings) :
    followAll (before.map Findings.verdict)
      (Validation.changed before after ++ Validation.cleared before after) =
      after.map Findings.verdict := by
  let told (id : OperatorId) : Verdict := ((after.get? id).map Findings.verdict).getD ⟨true, ∅⟩
  have hvalues : ∀ entry ∈ (after.toList.filter fun entry =>
      before.get? entry.1 ≠ some entry.2).map fun entry => (entry.1, entry.2.verdict),
      entry.2 = told entry.1 := by
    intro entry hmem
    obtain ⟨⟨id, findings⟩, hlisted, rfl⟩ := List.mem_map.mp hmem
    simp [told, Dict.mem_toList.mp (List.mem_filter.mp hlisted).1]
  rw [followAll_append, Validation.changed, followAll_changed, Validation.cleared,
    followAll_cleared]
  refine Dict.ext_get? fun id => ?_
  rw [Dict.get?_eraseAll, Dict.get?_insertAll_of_eq hvalues, Dict.get?_map, Dict.get?_map]
  have hcleared : id ∈ before.keys.filter (!after.contains ·) ↔
      (before.get? id).isSome ∧ after.get? id = none := by
    rw [List.mem_filter, Dict.mem_keys, Dict.contains_eq]
    simp
  have hchanged : id ∈ ((after.toList.filter fun entry =>
      before.get? entry.1 ≠ some entry.2).map fun entry => (entry.1, entry.2.verdict)).map (·.1) ↔
      ∃ findings, after.get? id = some findings ∧ before.get? id ≠ some findings := by
    simp [Dict.mem_toList]
  simp only [hcleared, hchanged]
  -- An operator is gone, or its findings are new, or they are what they were.
  cases hafter : after.get? id with
  | none => cases before.get? id <;> simp
  | some findings =>
    by_cases hsame : before.get? id = some findings
    · simp [hsame]
    · simp [hsame, told, hafter]

end Verdict

namespace Validation

theorem followAll_refresh (v : Validation) (g : Graph) (catalogue : Catalogue) :
    Verdict.followAll (v.results.map Findings.verdict) (v.refresh g catalogue).2 =
      (of g catalogue).results.map Findings.verdict :=
  Verdict.followAll_differences v.results (g.checkAll catalogue).1

end Validation

/-! ## Sessions -/

namespace Session

variable {σ : Type} [Surface σ] {s s' : Session σ} {catalogue : Catalogue}
variable {gestures : Gesture → Prop} {uses : (σ → σ) → Prop}

/-- **The findings are those on the present graph, and subscribers hold them.** -/
structure Validated (s : Session σ) : Prop where
  current : s.validation = .of s.graph s.catalogue
  told : Verdict.followAll ∅ s.published = s.validation.results.map Findings.verdict

omit [Surface σ] in
/-- What an editor announces tells of the graph or of the lock. -/
theorem AtRest.isOfEditor (hrest : s.AtRest catalogue) {editor : Editor}
    (hworked : s.editor.Worked editor) :
    ∀ event ∈ editor.draft.announced, event.isOfEditor = true := by
  have hnone : ∀ event ∈ (Draft.start s.graph).announced, event.isOfEditor = true :=
    fun _ hmem => nomatch hmem
  exact (hrest.steps hworked).isOfEditor hnone

omit [Surface σ] in
/-- What an editor announces are no findings. -/
theorem AtRest.stream_ne (hrest : s.AtRest catalogue) {editor : Editor}
    (hworked : s.editor.Worked editor) :
    ∀ event ∈ editor.draft.announced, event.stream ≠ .validation := by
  intro event hmem hstream
  have heditor := hrest.isOfEditor hworked event hmem
  -- An editor tells of the graph and of its lock, and findings are neither.
  simp [Event.isOfEditor, Event.isOfGraph_of_stream (.inr hstream), hstream] at heditor

/-- Where nothing was announced that calls for a check, the findings are those of before. -/
theorem Validated.settle (h : s.Validated) (hrest : s.AtRest catalogue)
    (hworked : s.editor.Worked s'.editor) (hvalidation : s'.validation = s.validation)
    (hpublished : s'.published = s.published) : s'.settle.Validated := by
  obtain ⟨hcatalogue, -⟩ := hworked.evolves
  have hannounced := hrest.stream_ne hworked
  constructor
  · rw [settle_validation, settle_graph, settle_catalogue]
    split
    · rfl
    · -- No check was made, for nothing was announced that could change what it finds.
      rename_i hquiet
      have hundisturbed : s'.editor.draft.Undisturbed := by
        simpa [Draft.Undisturbed, Event.affectsValidation] using hquiet
      obtain ⟨-, hshape⟩ := (hrest.steps hworked).sameShape hundisturbed
      have hsame : s'.catalogue = s.catalogue := hcatalogue
      rw [hvalidation, h.current, hsame]
      exact (hshape.validation_eq _).symm
  · rw [settle_published, hpublished, Verdict.followAll_append, Verdict.followAll_append, h.told,
      Verdict.followAll_of_stream_ne hannounced, settle_validation, findings, hvalidation]
    split
    · exact Validation.followAll_refresh ..
    · rfl

/-- What is published of other streams makes no difference. -/
theorem Validated.dispatch (h : s.Validated) {events : List Event}
    (hevents : ∀ event ∈ events, event.stream ≠ .validation) : (s.dispatch events).Validated := by
  refine ⟨h.current, ?_⟩
  show Verdict.followAll ∅ (s.published ++ events) = _
  rw [Verdict.followAll_append, h.told]
  exact Verdict.followAll_of_stream_ne hevents _

/-- **Each stage keeps the findings current.** -/
theorem Stage.validated (hrest : s.AtRest catalogue) (h : s.Validated)
    (hstage : Stage gestures uses s s') : s'.Validated := by
  cases hstage with
  | edit hworked => exact h.settle hrest hworked rfl rfl
  | gesture => exact h.settle hrest (Bridge.forward_worked ..) rfl rfl
  | tell hevents => exact h.dispatch fun event hmem => by simp [hevents event hmem]
  | highlight ids =>
    rcases highlight_cases ids s with heq | heq <;> rw [heq]
    · exact h
    · exact h.dispatch (by simp [Event.stream])
  | unhighlight ids =>
    rcases unhighlight_cases ids s with heq | heq <;> rw [heq]
    · exact h
    · exact h.dispatch (by simp [Event.stream])
  | exchange | redraw | use | takeGestures | setReplaying => exact ⟨h.current, h.told⟩

theorem Stages.validated (hrest : s.AtRest catalogue) (h : s.Validated)
    (hstages : Stages gestures uses s s') : s'.Validated :=
  hstages.invariant (fun hrest h hstage => hstage.validated hrest h) hrest h

/-- **After every run the findings are current, and what was published tells them**: they are what a
check of the present graph finds, so whether the pipeline may be run is decided on that graph; and
who follows the events from the empty session on holds the findings on each operator. -/
theorem validated_after (catalogue : Catalogue) (settings : Settings) (clock : Nat → Nat)
    (surface : σ) (calls : List (Call σ)) :
    let s := (start catalogue settings clock surface).after calls
    s.validation.results = (s.graph.checkAll catalogue).1 ∧
      s.validation.pipeline = (s.graph.checkAll catalogue).2 ∧
      s.validation.isValid = (s.graph.checkAll catalogue).2.isEmpty ∧
      Verdict.followAll ∅ s.published = s.validation.results.map Findings.verdict := by
  intro s
  have hstart : (start catalogue settings clock surface).Validated := ⟨rfl, rfl⟩
  have hrest := atRest_start catalogue settings clock surface
  have hvalidated : s.Validated := (after_stages _ calls).validated hrest hstart
  have hcatalogue : s.catalogue = catalogue := (atRest_after _ _ _ _ calls).catalogue
  have hcurrent := hvalidated.current
  rw [hcatalogue] at hcurrent
  rw [hcurrent]
  exact ⟨rfl, rfl, rfl, hcurrent ▸ hvalidated.told⟩

end Session

end PipelineEditor
