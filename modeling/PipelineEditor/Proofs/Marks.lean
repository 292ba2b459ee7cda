import PipelineEditor.Proofs.Depiction
import PipelineEditor.Proofs.Findings

/-!
# Marks on operators

A canvas marks the operators that the last check has rejected.  The mark goes with the operator, and
comes with the news that the findings have changed.  So a call that takes an operator away and puts
it back loses the mark if the findings stay what they were: there is no news of them.  This is the
only way in which marks and findings come apart, and marks are only ever missing.

## Main definitions

* `Validation.rejects`: the last check has rejected the operator
* `Event.markAfter`: what an event makes of the mark on an operator
* `Session.Call.Restores`: the call takes the operator away and puts it back

## Main results

* `Session.marks_settle`: what handing events on makes of a mark
* `Session.marks_after`: after every run only rejected operators are marked, and all of them but
  those that some call has put back
* `Session.marks_after_load`: loading the same pipeline again loses a mark
-/

namespace PipelineEditor

/-! ## What the last check has found -/

/-- The last check has rejected the operator. -/
def Validation.rejects (v : Validation) (id : OperatorId) : Bool :=
  (v.results.get? id).any (!·.isValid)

/-- A check has findings on the operators that are there. -/
theorem Graph.Coherent.isSome_checkAll {g : Graph} (h : g.Coherent) (catalogue : Catalogue)
    (id : OperatorId) :
    ((Validation.of g catalogue).results.get? id).isSome ↔ (g.operators.get? id).isSome := by
  let found (id : OperatorId) : Findings :=
    g.check catalogue ((g.operators.get? id).getD default)
  have hvalues : ∀ entry ∈ g.operators.values.map fun op => (op.id, g.check catalogue op),
      entry.2 = found entry.1 := by
    intro entry hmem
    obtain ⟨op, hop, rfl⟩ := List.mem_map.mp hmem
    obtain ⟨key, hget⟩ := Dict.mem_values.mp hop
    obtain rfl := h.operator_id hget
    simp [found, hget]
  -- Operators are stored under their own names, so those checked are those that are there.
  have hkeys : (g.operators.values.map fun op => (op.id, g.check catalogue op)).map (·.1) =
      g.operators.keys := by
    rw [List.map_map]
    exact Dict.map_values h.operator_id
  have hget : (Validation.of g catalogue).results.get? id = _ := Dict.get?_ofList_of_eq hvalues id
  rw [hget, hkeys, ← Dict.mem_keys]
  split <;> simp_all

/-! ## What events make of a mark -/

namespace Event

variable {id : OperatorId}

/-- Whether the event takes the operator away. -/
def deletes (id : OperatorId) : Event → Bool
  | .operatorDeleted op => op.id = id
  | _ => false

theorem affectsValidation_of_deletes {event : Event} (h : event.deletes id = true) :
    event.affectsValidation = true := by
  cases event <;> first | rfl | cases h

/-- **What an event makes of the mark on an operator.** -/
def markAfter (id : OperatorId) (mark : Bool) : Event → Bool
  | .operatorDeleted op => if op.id = id then false else mark
  | .operatorValidityChanged other valid _ => if other = id then !valid else mark
  | _ => mark

/-- News of other kinds than findings takes the mark away where it takes the operator away. -/
theorem foldl_markAfter_of_stream_ne {events : List Event}
    (h : ∀ event ∈ events, event.stream ≠ .validation) (mark : Bool) :
    events.foldl (markAfter id) mark = (mark && !events.any (deletes id)) := by
  induction events generalizing mark with
  | nil => simp
  | cons event rest ih =>
    have hfirst : markAfter id mark event = (mark && !event.deletes id) := by
      have hstream := h event List.mem_cons_self
      cases event with
      | operatorDeleted op =>
        by_cases heq : op.id = id <;> simp [markAfter, deletes, heq]
      | operatorValidityChanged | operatorValidationCleared => exact absurd rfl hstream
      | _ => simp [markAfter, deletes]
    rw [List.foldl_cons, ih fun other hmem => h other (List.mem_cons_of_mem _ hmem), hfirst,
      List.any_cons, Bool.not_or, Bool.and_assoc]

/-- Where each operator is told of once, its mark is what is told. -/
theorem foldl_markAfter_changed {entries : List (OperatorId × Findings)}
    {found : OperatorId → Findings} (h : ∀ entry ∈ entries, entry.2 = found entry.1) (mark : Bool) :
    (entries.map fun entry => operatorValidityChanged entry.1 entry.2.isValid
      entry.2.errors).foldl (markAfter id) mark =
      if id ∈ entries.map (·.1) then !(found id).isValid else mark := by
  induction entries generalizing mark with
  | nil => rfl
  | cons entry rest ih =>
    rw [List.map_cons, List.foldl_cons, ih fun other hmem => h other (List.mem_cons_of_mem _ hmem),
      markAfter, h entry List.mem_cons_self]
    by_cases hrest : id ∈ rest.map (·.1)
    · simp [hrest]
    · by_cases hid : entry.1 = id
      · simp [hid]
      · simp [hid, hrest, Ne.symm hid]

/-- Where some of the findings are told, an operator has its mark from those on it. -/
theorem foldl_markAfter_told (results : Dict Findings) (told : OperatorId × Findings → Bool)
    (mark : Bool) : ((results.toList.filter told).map fun entry =>
      operatorValidityChanged entry.1 entry.2.isValid entry.2.errors).foldl (markAfter id) mark =
      match results.get? id with
      | some findings => if told (id, findings) then !findings.isValid else mark
      | none => mark := by
  let found (id : OperatorId) : Findings := (results.get? id).getD default
  have hvalues : ∀ entry ∈ results.toList.filter told, entry.2 = found entry.1 := by
    rintro ⟨key, findings⟩ hmem
    simp [found, Dict.mem_toList.mp (List.mem_filter.mp hmem).1]
  have hkeys : id ∈ (results.toList.filter told).map (·.1) ↔
      ∃ findings, results.get? id = some findings ∧ told (id, findings) := by
    simp [Dict.mem_toList]
  rw [foldl_markAfter_changed hvalues]
  simp only [hkeys]
  cases hget : results.get? id with
  | none => simp
  | some findings => simp [found, hget]

theorem foldl_markAfter_cleared (ids : List OperatorId) (mark : Bool) :
    (ids.map operatorValidationCleared).foldl (markAfter id) mark = mark := by
  induction ids with
  | nil => rfl
  | cons _ rest ih => exact ih

/-- **The differences to the last check bring the mark where the findings are new**, and leave it
where they are not. -/
theorem foldl_markAfter_differences (before after : Dict Findings) (mark : Bool) :
    (Validation.changed before after ++ Validation.cleared before after).foldl (markAfter id) mark =
      match after.get? id with
      | some findings => if before.get? id = some findings then mark else !findings.isValid
      | none => mark := by
  rw [List.foldl_append, Validation.changed, foldl_markAfter_told, Validation.cleared,
    foldl_markAfter_cleared]
  cases after.get? id with
  | none => rfl
  | some findings => by_cases hsame : before.get? id = some findings <;> simp [hsame]

end Event

/-- **How a mark and the findings come apart**: after the differences have been told, a marked
operator is a rejected one, and the other way round unless the operator was gone in between. -/
theorem Findings.mark_differences {before after : Option Findings} {mark gone next : Bool}
    (hnext : next = match after with
      | some findings => if before = some findings then mark && !gone else !findings.isValid
      | none => mark && !gone)
    (hthere : gone = false → before.isSome → after.isSome) :
    ((mark → before.any (!·.isValid)) → next → after.any (!·.isValid)) ∧
      (mark = before.any (!·.isValid) → next = after.any (!·.isValid) ∨ gone) := by
  subst hnext
  cases after with
  | none =>
    -- Findings are cleared only where the operator is gone, and then so is its mark.
    cases gone with
    | true => simp
    | false =>
      have hnone : before = none := by simpa using hthere rfl
      simp [hnone]
  | some findings =>
    dsimp only
    split
    · -- No news: the mark stays while the operator does, and is lost where it was gone.
      rename_i hsame
      subst hsame
      cases gone <;> simp
    · -- New findings bring the mark with them, whatever it was.
      simp

/-- An operator that is not taken away is there still. -/
theorem Graph.isSome_followAll {r : Graph} {events : List Event} {id : OperatorId}
    (h : events.any (Event.deletes id) = false) (hop : (r.operators.get? id).isSome) :
    ((r.followAll events).operators.get? id).isSome := by
  induction events generalizing r with
  | nil => exact hop
  | cons event rest ih =>
    obtain ⟨hfirst, hrest⟩ := Bool.or_eq_false_iff.mp ((List.any_cons ..).symm.trans h)
    -- Only a deletion could take the operator away, and this is none of it.
    refine ih hrest ?_
    cases event with
    | operatorAdded op position =>
      show ((r.operators.insert op.id op).get? id).isSome
      rw [Dict.get?_insert]
      split
      · rfl
      · exact hop
    | operatorDeleted op =>
      show ((r.operators.erase op.id).get? id).isSome
      rw [Dict.get?_erase, if_neg (of_decide_eq_false hfirst)]
      exact hop
    | propertyChanged other =>
      show ((r.modifyOperator other _).operators.get? id).isSome
      rw [get?_modifyOperator]
      split
      · rename_i heq
        rwa [heq, Option.isSome_map]
      · exact hop
    | operatorDisabledChanged other =>
      show ((r.modifyOperator other _).operators.get? id).isSome
      rw [get?_modifyOperator]
      split
      · rename_i heq
        rwa [heq, Option.isSome_map]
      · exact hop
    | _ => exact hop

/-- The story of a graph tells of no findings. -/
theorem Graph.stream_story (g : Graph) : ∀ event ∈ g.story, event.stream ≠ .validation := by
  intro event hmem
  simp only [story, linkStory, List.mem_append, List.mem_map, List.mem_flatMap, List.mem_cons]
    at hmem
  rcases hmem with ⟨op, -, rfl⟩ | ⟨link, -, rfl | ⟨breakpoint, -, rfl⟩⟩ <;> simp [Event.stream]

namespace View

variable {id : OperatorId}

/-- The mark on an operator. -/
def marks (view : View Canvas) (id : OperatorId) : Bool := view.surface.invalid.contains id

theorem marks_project (view : View Canvas) (event : Event) :
    (view.project event).marks id = event.markAfter id (view.marks id) := by
  unfold marks
  cases event with
  | operatorAdded op position =>
    show (view.drawOperator op position).surface.invalid.contains id = _
    unfold drawOperator
    dsimp only
    split <;> rfl
  | operatorDeleted op =>
    show (view.surface.invalid.erase op.id).contains id = _
    rw [Dict.contains_eq, Dict.get?_erase, Event.markAfter]
    split <;> rfl
  | linkDeleted link =>
    show (view.eraseLink link).surface.invalid.contains id = _
    unfold eraseLink
    dsimp only
    split
    · exact congrArg (·.contains id) (Canvas.sameDrawing_removeLink ..).invalid
    · rfl
  | operatorMoved other position =>
    have hecho := (Canvas.sameDrawing_reportEcho (.shapeMoved other position) { view.surface with
      operators := view.surface.operators.insert other position }).invalid
    exact congrArg (·.contains id) hecho
  | operatorsHighlighted ids | operatorsUnhighlighted ids =>
    exact highlightAll_eq (f := fun view => view.surface.invalid.contains id) (fun _ _ => rfl) ids
      view
  | operatorValidityChanged other valid errors => exact Canvas.contains_mark ..
  | _ => rfl

theorem marks_projectAll (view : View Canvas) (events : List Event) :
    (events.foldl project view).marks id = events.foldl (Event.markAfter id) (view.marks id) := by
  induction events generalizing view with
  | nil => rfl
  | cons event rest ih =>
    rw [List.foldl_cons, ih, marks_project]
    rfl

end View

/-! ## What becomes of a mark -/

namespace Session

variable {s s' s'' : Session Canvas} {catalogue : Catalogue} {id : OperatorId}
  {more later : List Event}

/-- **What becomes of the mark on an operator**, while events are published: it stays with rejected
operators, and it goes on to agree with the findings unless the operator is taken away. -/
structure CarriesMark (id : OperatorId) (s : Session Canvas) (more : List Event)
    (s' : Session Canvas) : Prop where
  published : s'.published = s.published ++ more
  sound : (s.view.marks id → s.validation.rejects id) →
    s'.view.marks id → s'.validation.rejects id
  agrees : s.view.marks id = s.validation.rejects id →
    s'.view.marks id = s'.validation.rejects id ∨ more.any (Event.deletes id)

namespace CarriesMark

/-- Where neither marks nor findings change, nothing becomes of them. -/
theorem of_eq (hpublished : s'.published = s.published ++ more)
    (hmarks : s'.view.marks id = s.view.marks id) (hvalidation : s'.validation = s.validation) :
    CarriesMark id s more s' := by
  refine ⟨hpublished, fun h => ?_, fun h => .inl ?_⟩
  · rwa [hmarks, hvalidation]
  · rw [hmarks, hvalidation, h]

theorem refl (s : Session Canvas) : CarriesMark id s [] s :=
  of_eq (List.append_nil _).symm rfl rfl

theorem trans (h : CarriesMark id s more s') (h' : CarriesMark id s' later s'') :
    CarriesMark id s (more ++ later) s'' := by
  refine ⟨?_, fun hsound => h'.sound (h.sound hsound), fun hagree => ?_⟩
  · rw [h'.published, h.published, List.append_assoc]
  · rw [List.any_append, Bool.or_eq_true]
    rcases h.agrees hagree with hagree' | hdeletes
    · exact (h'.agrees hagree').imp_right .inr
    · exact .inr (.inl hdeletes)

/-- So it is where other things than findings are published. -/
theorem dispatch {events : List Event} (hstream : ∀ event ∈ events, event.stream ≠ .validation)
    (hkept : events.any (Event.deletes id) = false) : CarriesMark id s events (s.dispatch events) := by
  refine of_eq rfl ?_ rfl
  show View.marks (events.foldl View.project s.view) id = _
  rw [View.marks_projectAll, Event.foldl_markAfter_of_stream_ne hstream, hkept, Bool.not_false,
    Bool.and_true]

end CarriesMark

/-- An operator that the last check has findings on, and that is not taken away, the next check has
findings on too. -/
theorem isSome_results (hrest : s.AtRest catalogue) (hvalidated : s.Validated)
    (hworked : s.editor.Worked s'.editor)
    (hkept : s'.editor.draft.announced.any (Event.deletes id) = false)
    (hbefore : (s.validation.results.get? id).isSome) :
    ((Validation.of s'.graph s'.catalogue).results.get? id).isSome := by
  have hsteps := hrest.steps hworked
  have hwf : (Draft.start s.graph).graph.WellFormed catalogue := hrest.wellFormed
  have hcoherent : s'.graph.Coherent := (hsteps.wellFormed hwf).toCoherent
  have hheld : s'.graph.HeldAs (s.graph.followAll s'.editor.draft.announced) :=
    hsteps.follow hwf (Graph.heldAs_self s.graph)
  rw [hvalidated.current, hrest.wellFormed.toCoherent.isSome_checkAll] at hbefore
  rw [hcoherent.isSome_checkAll, ← hheld.operators]
  exact Graph.isSome_followAll hkept hbefore

/-- **What handing events on makes of a mark.**  If the operator is not taken away, the differences
to the last check bring the mark up to date; if it is taken away, it may be back with findings that
are not news. -/
theorem marks_settle (hrest : s.AtRest catalogue) (hvalidated : s.Validated)
    (hworked : s.editor.Worked s'.editor) (hvalidation : s'.validation = s.validation)
    (hpublished : s'.published = s.published) (hmarks : s'.view.marks id = s.view.marks id) :
    CarriesMark id s (s'.editor.draft.announced ++ s'.findings) s'.settle := by
  have hthere (hkept : s'.editor.draft.announced.any (Event.deletes id) = false) :=
    isSome_results hrest hvalidated hworked hkept
  have hmark : s'.settle.view.marks id = s'.findings.foldl (Event.markAfter id)
      (s.view.marks id && !s'.editor.draft.announced.any (Event.deletes id)) := by
    rw [settle_view, View.marks_projectAll, List.foldl_append,
      Event.foldl_markAfter_of_stream_ne (hrest.stream_ne hworked), hmarks]
  have htold : s'.settle.published =
      s.published ++ (s'.editor.draft.announced ++ s'.findings) := by
    rw [settle_published, hpublished]
  by_cases hcheck : s'.editor.draft.announced.any Event.affectsValidation
  · -- The graph is checked anew, and the differences to the last check are told.
    have hfindings : s'.findings = Validation.changed s.validation.results
        (Validation.of s'.graph s'.catalogue).results ++ Validation.cleared s.validation.results
        (Validation.of s'.graph s'.catalogue).results := by
      unfold findings
      rw [if_pos hcheck, hvalidation]
      rfl
    have hrejects : s'.settle.validation.rejects id =
        ((Validation.of s'.graph s'.catalogue).results.get? id).any (!·.isValid) := by
      rw [settle_validation, if_pos hcheck]
      rfl
    rw [hfindings, Event.foldl_markAfter_differences] at hmark
    obtain ⟨hsound, hagrees⟩ := Findings.mark_differences hmark hthere
    rw [← hrejects] at hsound hagrees
    refine ⟨htold, hsound, fun hagree => (hagrees hagree).imp_right fun hgone => ?_⟩
    rw [List.any_append, hgone]
    rfl
  · -- Nothing has happened that concerns findings, so no operator was taken away.
    have hkept : s'.editor.draft.announced.any (Event.deletes id) = false := by
      rw [List.any_eq_false]
      intro event hmem hdeletes
      exact hcheck (List.any_eq_true.mpr ⟨event, hmem, Event.affectsValidation_of_deletes hdeletes⟩)
    have hfindings : s'.findings = [] := if_neg hcheck
    refine .of_eq htold ?_ ?_
    · rw [hmark, hfindings, hkept, Bool.not_false, Bool.and_true]
      rfl
    · rw [settle_validation, if_neg hcheck, hvalidation]

/-- A redraw marks just the rejected operators. -/
theorem marks_redraw (s : Session Canvas) (id : OperatorId) :
    s.redraw.view.marks id = s.validation.rejects id := by
  have hcleared : (s.view.redraw s.graph).marks id = false := by
    rw [View.redraw_eq, List.foldl_append, View.marks_projectAll, View.marks_projectAll,
      Event.foldl_markAfter_of_stream_ne s.graph.stream_story]
    rfl
  have hall : s.validation.results.toList.filter (fun _ => true) = s.validation.results.toList :=
    List.filter_eq_self.mpr fun _ _ => rfl
  rw [redraw_view, View.marks_projectAll, hcleared, Validation.verdicts, ← hall,
    Event.foldl_markAfter_told, Validation.rejects]
  cases s.validation.results.get? id <;> rfl

/-- **What becomes of a mark in one stage.** -/
theorem Stage.marks {gestures : Gesture → Prop} {uses : (Canvas → Canvas) → Prop}
    (huses : ∀ use, uses use → ∀ canvas : Canvas, canvas.SameDrawing (use canvas))
    (hrest : s.AtRest catalogue) (hvalidated : s.Validated) (hstage : Stage gestures uses s s') :
    ∃ more, CarriesMark id s more s' := by
  cases hstage with
  | edit hworked => exact ⟨_, marks_settle hrest hvalidated hworked rfl rfl rfl⟩
  | gesture => exact ⟨_, marks_settle hrest hvalidated (Bridge.forward_worked ..) rfl rfl rfl⟩
  | tell hevents =>
    refine ⟨_, .dispatch (fun event hmem => by simp [hevents event hmem]) ?_⟩
    rw [List.any_eq_false]
    intro event hmem hdeletes
    have hstream := hevents event hmem
    cases event <;> first | cases hdeletes | cases hstream
  | highlight ids =>
    rcases highlight_cases ids s with heq | heq <;> rw [heq]
    · exact ⟨_, .refl s⟩
    · exact ⟨_, .dispatch (by simp [Event.stream]) rfl⟩
  | unhighlight ids =>
    rcases unhighlight_cases ids s with heq | heq <;> rw [heq]
    · exact ⟨_, .refl s⟩
    · exact ⟨_, .dispatch (by simp [Event.stream]) rfl⟩
  | redraw =>
    have hmarks := marks_redraw s id
    exact ⟨[], (List.append_nil _).symm, fun _ hmark => hmarks ▸ hmark, fun _ => .inl hmarks⟩
  | use huse =>
    have hsame := (huses _ huse s.view.surface).invalid
    exact ⟨[], .of_eq (List.append_nil _).symm (congrArg (·.contains id) hsame) rfl⟩
  | exchange | takeGestures | setReplaying =>
    exact ⟨[], .of_eq (List.append_nil _).symm rfl rfl⟩

theorem Stages.marks {gestures : Gesture → Prop} {uses : (Canvas → Canvas) → Prop}
    (huses : ∀ use, uses use → ∀ canvas : Canvas, canvas.SameDrawing (use canvas))
    (hrest : s.AtRest catalogue) (hvalidated : s.Validated) (hstages : Stages gestures uses s s') :
    ∃ more, CarriesMark id s more s' := by
  let Carried (s' : Session Canvas) : Prop := s'.Validated ∧ ∃ more, CarriesMark id s more s'
  have hstep {t t' : Session Canvas} (hrest : t.AtRest catalogue) (h : Carried t)
      (hstage : Stage gestures uses t t') : Carried t' := by
    obtain ⟨hvalidated, more, hmore⟩ := h
    obtain ⟨later, hlater⟩ := hstage.marks huses hrest hvalidated
    exact ⟨hstage.validated hrest hvalidated, more ++ later, hmore.trans hlater⟩
  have hcarried : Carried s' := hstages.invariant hstep hrest ⟨hvalidated, [], .refl s⟩
  exact hcarried.2

/-! ## Calls that put an operator back -/

/-- The events that a call publishes. -/
def Call.tells (s : Session Canvas) (call : Call Canvas) : List Event :=
  (call.exec s).published.drop s.published.length

/-- **The call takes the operator away and puts it back.** -/
def Call.Restores (id : OperatorId) (s : Session Canvas) (call : Call Canvas) : Prop :=
  (call.tells s).any (Event.deletes id) ∧ (call.exec s).graph.hasOperator id

/-- What becomes of a mark in one call. -/
theorem Call.marks {call : Call Canvas}
    (huses : ∀ use, call.Uses use → ∀ canvas : Canvas, canvas.SameDrawing (use canvas))
    (hrest : s.AtRest catalogue) (hvalidated : s.Validated) :
    CarriesMark id s (call.tells s) (call.exec s) := by
  have hstages : Stages (fun _ => True) (fun use => call.Uses use) s (call.exec s) :=
    call.stages s (fun _ _ => trivial) fun _ huse => huse
  obtain ⟨more, hmore⟩ : ∃ more, CarriesMark id s more (call.exec s) :=
    hstages.marks huses hrest hvalidated
  have htells : call.tells s = more := by
    rw [tells, hmore.published, List.drop_left]
  exact htells ▸ hmore

/-- There are no findings on an operator that is not there. -/
theorem Validated.rejects_eq_false (hvalidated : s.Validated) (hrest : s.AtRest catalogue)
    (hgone : s.graph.hasOperator id = false) : s.validation.rejects id = false := by
  have hiff := hrest.wellFormed.toCoherent.isSome_checkAll s.catalogue id
  rw [← hvalidated.current, ← Dict.contains_eq s.graph.operators] at hiff
  have hnone : s.validation.results.get? id = none := by
    rw [← Option.not_isSome_iff_eq_none, hiff]
    exact Bool.eq_false_iff.mp hgone
  rw [Validation.rejects, hnone]
  rfl

/-- What becomes of a mark in a run. -/
theorem after_marks {calls : List (Call Canvas)}
    (huses : ∀ call ∈ calls, ∀ use, call.Uses use →
      ∀ canvas : Canvas, canvas.SameDrawing (use canvas))
    (hrest : s.AtRest catalogue) (hvalidated : s.Validated)
    (hsound : s.view.marks id → s.validation.rejects id) :
    ((s.after calls).view.marks id → (s.after calls).validation.rejects id) ∧
      (s.view.marks id = s.validation.rejects id →
        (s.after calls).view.marks id = (s.after calls).validation.rejects id ∨
          s.Ever (Call.Restores id) calls) := by
  -- Agreement may be lost on the way and won again, so that marks are sound is carried along.
  induction calls generalizing s with
  | nil => exact ⟨hsound, .inl⟩
  | cons call rest ih =>
    have hcarries : CarriesMark id s (call.tells s) (call.exec s) :=
      Call.marks (huses call List.mem_cons_self) hrest hvalidated
    have hstages : Stages (fun _ => True) (fun _ => True) s (call.exec s) :=
      call.stages s (fun _ _ => trivial) fun _ _ => trivial
    have hrest' := hstages.atRest hrest
    have hvalidated' := hstages.validated hrest hvalidated
    obtain ⟨hsound', hagrees'⟩ := ih (fun other hmem => huses other (List.mem_cons_of_mem _ hmem))
      hrest' hvalidated' (hcarries.sound hsound)
    refine ⟨hsound', fun hagree => ?_⟩
    rcases hcarries.agrees hagree with hagree' | hdeletes
    · exact (hagrees' hagree').imp_right .inr
    · cases hback : (call.exec s).graph.hasOperator id with
      | true => exact .inr (.inl ⟨hdeletes, hback⟩)
      | false =>
        -- An operator that is gone for good is neither rejected nor marked.
        have hnot := hvalidated'.rejects_eq_false hrest' hback
        have hunmarked : (call.exec s).view.marks id = false := by
          rw [Bool.eq_false_iff]
          intro hmark
          cases hnot.symm.trans (hcarries.sound hsound hmark)
        exact (hagrees' (hunmarked.trans hnot.symm)).imp_right .inr

/-- **After every run only rejected operators are marked, and all of them but those that some call
has taken away and put back**, if the host does not draw on the canvas.  A redraw marks just the
rejected operators. -/
theorem marks_after (catalogue : Catalogue) (settings : Settings) (clock : Nat → Nat) (echo : Bool)
    (calls : List (Call Canvas))
    (huses : ∀ call ∈ calls, ∀ use, call.Uses use →
      ∀ canvas : Canvas, canvas.SameDrawing (use canvas)) :
    let start := start catalogue settings clock (Canvas.empty echo)
    let s := start.after calls
    ∀ id, (s.view.surface.invalid.contains id → s.validation.rejects id) ∧
      (¬ start.Ever (Call.Restores id) calls →
        s.view.surface.invalid.contains id = s.validation.rejects id) ∧
      s.redraw.view.surface.invalid.contains id = s.validation.rejects id := by
  intro start s id
  have hvalidated : start.Validated := ⟨rfl, rfl⟩
  obtain ⟨hsound, hagrees⟩ : (s.view.marks id → s.validation.rejects id) ∧
      (start.view.marks id = start.validation.rejects id →
        s.view.marks id = s.validation.rejects id ∨ start.Ever (Call.Restores id) calls) :=
    after_marks huses (atRest_start ..) hvalidated fun hmark => nomatch hmark
  exact ⟨hsound, fun hnever => (hagrees rfl).resolve_right hnever, marks_redraw s id⟩

/-- An operator that is not fed is rejected, and marked. -/
theorem marks_after_unfed :
    let filter : Operator := ⟨"f", "Filter", "1", .object [], [⟨"input-0", ""⟩], [], false⟩
    let calls : List (Call Canvas) := [.act (.addOperator filter .origin)]
    let start := start (.ofMetadata ⟨[⟨"Filter", .object [], ⟨"Filter", none, "Search", 1, 0⟩,
      "1"⟩], []⟩) .initial (fun n => n) (Canvas.empty false)
    let s := start.after calls
    (∀ call ∈ calls, ∀ use, call.Uses use → ∀ canvas : Canvas, canvas.SameDrawing (use canvas)) ∧
      ¬ start.Ever (Call.Restores "f") calls ∧ s.validation.rejects "f" = true ∧
      s.view.surface.invalid.contains "f" = true := by
  intro filter calls start s
  have huses : ∀ call ∈ calls, ∀ use, call.Uses use →
      ∀ canvas : Canvas, canvas.SameDrawing (use canvas) := by
    intro call hmem use huse
    obtain rfl := List.mem_singleton.mp hmem
    cases huse
  have hnever : ¬ start.Ever (Call.Restores "f") calls := by
    rintro (⟨hdeletes, -⟩ | hrest)
    · have hkept : ((Call.act (.addOperator filter .origin)).tells start).any
          (Event.deletes "f") = false := by decide +kernel
      cases hkept.symm.trans hdeletes
    · exact hrest
  have hrejects : s.validation.rejects "f" = true := by decide +kernel
  obtain ⟨-, hagrees, -⟩ := marks_after _ _ _ _ calls huses "f"
  exact ⟨huses, hnever, hrejects, (hagrees hnever).trans hrejects⟩

/-- **Loading the same pipeline again loses a mark**: the operator is taken away with its mark and
put back, and there is no news of its findings, so it is rejected still and no longer marked. -/
theorem marks_after_load :
    let filter : Operator :=
      ⟨"f", "Filter", "v1", .object [], [⟨"input-0", ""⟩], [⟨"output-0", ""⟩], false⟩
    let start := start (.ofMetadata ⟨[⟨"Filter", .object [], ⟨"Filter", none, "Search", 1, 1⟩,
      "v1"⟩], []⟩) .initial (fun n => n) (Canvas.empty false)
    let s := start.after [.act (.addOperator filter .origin)]
    let reloaded := s.after [.load s.content]
    s.view.surface.invalid.contains "f" = true ∧ s.validation.rejects "f" = true ∧
      reloaded.content = s.content ∧ reloaded.validation.rejects "f" = true ∧
      reloaded.view.surface.invalid.contains "f" = false ∧
      reloaded.redraw.view.surface.invalid.contains "f" = true := by
  decide +kernel

end Session

end PipelineEditor
