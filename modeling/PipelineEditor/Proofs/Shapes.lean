import PipelineEditor.Proofs.Depiction
import PipelineEditor.Proofs.Granted

/-!
# The records of link shapes

The bridge remembers a shape for each link, and gestures change it before the graph follows.  If
what a gesture asks is refused, the records of the links that it asks about are put back to what the
graph says.  That is not always enough: a gesture that deletes several shapes asks nothing about a
link that goes with one of the operators, and drops its record all the same.  In all other cases the
record of a link that is there is that of the graph.

## Main definitions

* `Event.link? event`: the link that comes or goes
* `Bridge.Records lost bridge g id`: the record of a link is that of the graph, or was lost
* `Session.LeavesOut s gesture id`: a gesture is refused that has dropped the record of a link
  without asking about it
* `Bridge.Lifts`: what lifting a gesture does to the record of a link

## Main results

* `Bridge.lift_lifts`: each gesture leaves the record of a link, or asks about the link, or deletes
  its shape among others
* `Session.handleGesture_records`: what a gesture leaves of the records, granted or refused
* `Session.shapes_after`: after every run the records of links are those of the graph, but for links
  that were left out
-/

namespace PipelineEditor

/-- **The record of a link is that of the graph**, or there is none and it was lost. -/
def Bridge.Records (lost : Prop) (bridge : Bridge) (g : Graph) (id : LinkId) : Prop :=
  ∀ link, g.links.get? id = some link → bridge.shapes.get? id = some (.ofLink link) ∨
    bridge.shapes.get? id = none ∧ lost

/-! ## Events -/

/-- The link that comes or goes. -/
def Event.link? : Event → Option LinkId
  | linkAdded link | linkDeleted link => some link.id
  | _ => none

namespace View

variable {σ : Type} [Surface σ] {view : View σ} {r : Graph} {event : Event} {events : List Event}
variable {lost : Prop} {id : LinkId}

/-- Events on other links leave the record of a link. -/
theorem get?_shapes_project (hother : event.link? ≠ some id) :
    (view.project event).bridge.shapes.get? id = view.bridge.shapes.get? id := by
  cases event with
  | operatorAdded op position =>
    unfold project drawOperator
    dsimp only
    split <;> rfl
  | linkAdded link =>
    have hne : link.id ≠ id := fun heq => hother (congrArg some heq)
    exact (Dict.get?_insert ..).trans (if_neg hne)
  | linkDeleted link =>
    have hne : link.id ≠ id := fun heq => hother (congrArg some heq)
    unfold project eraseLink
    dsimp only
    split
    · exact (Dict.get?_erase ..).trans (if_neg hne)
    · rfl
  | operatorsHighlighted ids | operatorsUnhighlighted ids =>
    exact highlightAll_eq (f := fun view => view.bridge.shapes.get? id) (fun _ _ => rfl) ids view
  | _ => rfl

end View

/-- Events on other links leave a link as it is. -/
theorem Graph.get?_links_follow {r : Graph} {event : Event} {id : LinkId}
    (hother : event.link? ≠ some id) : (r.follow event).links.get? id = r.links.get? id := by
  cases event with
  | linkAdded link =>
    have hne : link.id ≠ id := fun heq => hother (congrArg some heq)
    exact (Dict.get?_insert ..).trans (if_neg hne)
  | linkDeleted link =>
    have hne : link.id ≠ id := fun heq => hother (congrArg some heq)
    exact (Dict.get?_erase ..).trans (if_neg hne)
  | propertyChanged | operatorDisabledChanged =>
    exact congrArg (·.get? id) (Graph.modifyOperator_links ..)
  | _ => rfl

theorem Graph.get?_links_followAll {r : Graph} {events : List Event} {id : LinkId}
    (hothers : ∀ event ∈ events, event.link? ≠ some id) :
    (r.followAll events).links.get? id = r.links.get? id := by
  induction events generalizing r with
  | nil => rfl
  | cons event rest ih =>
    have hrest := ih (r := r.follow event) fun other hmem =>
      hothers other (List.mem_cons_of_mem _ hmem)
    exact hrest.trans (Graph.get?_links_follow (hothers event List.mem_cons_self))

namespace View

variable {σ : Type} [Surface σ] {view : View σ} {r : Graph} {event : Event} {events : List Event}
variable {lost : Prop} {id : LinkId}

/-- **Where a link comes or goes, its record is that of the graph**, whatever it was. -/
theorem records_of_link? (h : event.link? = some id) :
    (view.project event).bridge.Records lost (r.follow event) id := by
  intro link hget
  cases event with
  | linkAdded added =>
    obtain rfl := Option.some.inj h
    have hadded : (r.links.insert added.id added).get? added.id = some link := hget
    rw [Dict.get?_insert_self] at hadded
    obtain rfl := Option.some.inj hadded
    exact .inl (Dict.get?_insert_self ..)
  | linkDeleted deleted =>
    obtain rfl := Option.some.inj h
    have hgone : (r.links.erase deleted.id).get? deleted.id = some link := hget
    rw [Dict.get?_erase_self] at hgone
    cases hgone
  | _ => cases h

theorem records_project (h : view.bridge.Records lost r id) (event : Event) :
    (view.project event).bridge.Records lost (r.follow event) id := by
  by_cases hlink : event.link? = some id
  · exact records_of_link? hlink
  · intro link hget
    rw [get?_shapes_project hlink]
    exact h link ((Graph.get?_links_follow hlink).symm.trans hget)

theorem records_projectAll (h : view.bridge.Records lost r id) (events : List Event) :
    (events.foldl project view).bridge.Records lost (r.followAll events) id := by
  induction events generalizing view r with
  | nil => exact h
  | cons event rest ih => exact ih (records_project h event)

theorem records_projectAll_of_mem (hmem : event ∈ events) (hlink : event.link? = some id) :
    (events.foldl project view).bridge.Records lost (r.followAll events) id := by
  obtain ⟨before, rest, rfl⟩ := List.append_of_mem hmem
  rw [List.foldl_append, Graph.followAll_append]
  exact records_projectAll (records_of_link? hlink) rest

end View

/-! ## Gestures -/

namespace LinkShape

theorem ofLink_of_sameEnds {link other : Link} (h : link.sameEnds other = true) :
    ofLink link = ofLink other := by
  obtain ⟨hsource, htarget⟩ : link.source = other.source ∧ link.target = other.target := by
    simpa [Link.sameEnds, Link.joins] using h
  unfold ofLink
  rw [hsource, htarget]

/-- A shape that stands for a link is the shape of the link. -/
theorem eq_ofLink_of_linkOf? {g : Graph} {id : LinkId} {shape : LinkShape} {link : Link}
    (h : Bridge.linkOf? g id shape = some link) : link.id = id ∧ shape = ofLink link := by
  have hport {anchor : Anchor} {ref : PortRef} (hsome : anchor.port? = some ref) :
      anchor = .port ref := by
    cases anchor with
    | port other => exact congrArg Anchor.port (Option.some.inj hsome)
    | loose => cases hsome
  unfold Bridge.linkOf? at h
  obtain ⟨source, hsource, h⟩ := Option.bind_eq_some_iff.mp h
  obtain ⟨target, htarget, h⟩ := Option.bind_eq_some_iff.mp h
  have hlink : link = ⟨id, source, target⟩ := by
    split at h
    · cases h
    · split at h
      · split at h
        · cases h
        · exact (Option.some.inj h).symm
      · exact (Option.some.inj h).symm
  rw [hlink]
  refine ⟨rfl, ?_⟩
  unfold ofLink
  rw [← hport hsource, ← hport htarget]

end LinkShape

namespace Bridge

variable {bridge : Bridge} {g g' : Graph} {id : LinkId} {link : Link} {gesture : Gesture}

/-- **What lifting a gesture does to the record of a link** that is there. -/
inductive Lifts (bridge : Bridge) (g : Graph) (gesture : Gesture) (id : LinkId) (link : Link) : Prop
  | kept (h : (bridge.lift g gesture).2.shapes.get? id = bridge.shapes.get? id)
  | same (h : (bridge.lift g gesture).2.shapes.get? id = some (.ofLink link))
  | cut (h : (bridge.lift g gesture).1 = [.deleteLink id])
  | moved {other : Link} (hid : other.id = id)
      (h : (bridge.lift g gesture).1 = [.deleteLink id, .addLink other])
      (hshape : (bridge.lift g gesture).2.shapes.get? id = some (.ofLink other))
  | dropped {operators : List OperatorId} {links : List LinkId} (hmem : id ∈ links)
      (hgesture : gesture = .shapesDeleted operators links)
      (h : (bridge.lift g gesture).1 = (links.filter (!goesWith g operators ·)).map .deleteLink ++
        (operators.filter g.hasOperator).map .deleteOperator)
      (hshape : (bridge.lift g gesture).2.shapes.get? id = none)

/-- What a new shape of a link asks for. -/
theorem reconcile_cases (hget : g.links.get? id = some link) (shape : LinkShape) :
    let drawn := bridge.setShape id shape
    shape = .ofLink link ∨ drawn.reconcile g id = [.deleteLink id] ∨ ∃ other : Link,
      other.id = id ∧ drawn.reconcile g id = [.deleteLink id, .addLink other] ∧
        shape = .ofLink other := by
  intro drawn
  have hrecord : drawn.shapes.get? id = some shape := Dict.get?_insert_self ..
  unfold reconcile
  rw [hget, hrecord, Option.bind_some]
  cases hlink : linkOf? g id shape with
  | none => exact .inr (.inl rfl)
  | some other =>
    obtain ⟨hid, hshape⟩ := LinkShape.eq_ofLink_of_linkOf? hlink
    dsimp only
    split
    · rename_i hsame
      exact .inl (hshape.trans (LinkShape.ofLink_of_sameEnds hsame).symm)
    · exact .inr (.inr ⟨other, hid, rfl, hshape⟩)

theorem get?_foldl_dropShape (links : List LinkId) (bridge : Bridge) :
    (links.foldl dropShape bridge).shapes.get? id =
      if id ∈ links then none else bridge.shapes.get? id := by
  induction links generalizing bridge with
  | nil => rfl
  | cons other rest ih =>
    rw [List.foldl_cons, ih]
    have hdrop : (bridge.dropShape other).shapes.get? id =
      if other = id then none else bridge.shapes.get? id := Dict.get?_erase ..
    rw [hdrop]
    by_cases heq : other = id
    · simp [heq]
    · simp [heq, Ne.symm heq]

/-- **Each gesture leaves the record of a link, or asks about the link**, or deletes its shape among
others. -/
theorem lift_lifts (hget : g.links.get? id = some link) (gesture : Gesture) :
    bridge.Lifts g gesture id link := by
  cases hreplaying : bridge.replaying with
  | true =>
    refine .kept ?_
    unfold lift
    rw [hreplaying]
    rfl
  | false =>
    -- A link that is drawn anew, or of which an end is moved, gets a shape.
    have hset (drawn : LinkId) (shape : LinkShape) (hlift : bridge.lift g gesture =
        ((bridge.setShape drawn shape).reconcile g drawn, bridge.setShape drawn shape)) :
        bridge.Lifts g gesture id link := by
      by_cases hid : drawn = id
      · subst hid
        have hrecord : (bridge.lift g gesture).2.shapes.get? drawn = some shape := by
          rw [hlift]
          exact Dict.get?_insert_self ..
        rcases bridge.reconcile_cases hget shape with
          hshape | hcut | ⟨other, hother, hmoved, hshape⟩
        · exact .same (hshape ▸ hrecord)
        · exact .cut (by rw [hlift]; exact hcut)
        · exact .moved hother (by rw [hlift]; exact hmoved) (hshape ▸ hrecord)
      · refine .kept ?_
        rw [hlift]
        exact (Dict.get?_insert ..).trans (if_neg hid)
    cases gesture with
    | linkDrawn drawn source target =>
      exact hset drawn ⟨source, target⟩ (by unfold lift; rw [hreplaying]; rfl)
    | linkEndMoved dragged moved destination =>
      cases hshape : bridge.shapes.get? dragged <|> (g.links.get? dragged).map .ofLink with
      | none =>
        refine .kept ?_
        unfold lift
        rw [hreplaying]
        dsimp only
        rw [hshape]
        rfl
      | some shape =>
        refine hset dragged (moveEnd shape moved destination) ?_
        unfold lift
        rw [hreplaying]
        dsimp only
        rw [hshape]
        rfl
    | shapeDeleted =>
      refine .kept ?_
      unfold lift
      rw [hreplaying]
      rfl
    | linkShapeDeleted deleted =>
      have hlift : bridge.lift g (.linkShapeDeleted deleted) =
          (if g.hasLink deleted then [.deleteLink deleted] else [], bridge.dropShape deleted) := by
        unfold lift
        rw [hreplaying]
        rfl
      by_cases hid : deleted = id
      · refine .cut ?_
        have hthere : g.hasLink deleted = true := by
          unfold Graph.hasLink
          rw [Dict.contains_eq, hid, hget]
          rfl
        rw [hlift, if_pos hthere, hid]
      · refine .kept ?_
        rw [hlift]
        exact (Dict.get?_erase ..).trans (if_neg hid)
    | shapesDeleted operators links =>
      have hlift : bridge.lift g (.shapesDeleted operators links) =
          ((links.filter (!goesWith g operators ·)).map .deleteLink ++
            (operators.filter g.hasOperator).map .deleteOperator,
            links.foldl dropShape bridge) := by
        unfold lift
        rw [hreplaying]
        rfl
      by_cases hmem : id ∈ links
      · refine .dropped hmem rfl (congrArg Prod.fst hlift) ?_
        rw [hlift, get?_foldl_dropShape, if_pos hmem]
      · refine .kept ?_
        rw [hlift, get?_foldl_dropShape, if_neg hmem]
    | shapeMoved =>
      refine .kept ?_
      unfold lift
      rw [hreplaying, if_neg Bool.false_ne_true]
      dsimp only
      split <;> rfl

/-- Deletions of which none is refused take a link that goes with an operator, or is listed. -/
theorem get?_links_of_deleted (h : g.Coherent) (h' : g'.Coherent)
    (hget : g.links.get? id = some link) {operators : List OperatorId} {links : List LinkId}
    (hmem : id ∈ links) (heffect : Intent.effectAll
      ((links.filter (!goesWith g operators ·)).map .deleteLink ++
        (operators.filter g.hasOperator).map .deleteOperator) g = .ok g') :
    g'.links.get? id = none := by
  have hdeletes : ∀ intent ∈ (links.filter (!goesWith g operators ·)).map Intent.deleteLink ++
      (operators.filter g.hasOperator).map Intent.deleteOperator, intent.IsDeletion := by
    intro intent hintent
    rcases List.mem_append.mp hintent with hintent | hintent <;>
      obtain ⟨_, -, rfl⟩ := List.mem_map.mp hintent <;> trivial
  obtain ⟨hfewer, hgone⟩ := Intent.fewer_of_effectAll hdeletes heffect
  by_cases hgoes : goesWith g operators id = true
  · -- The operator is gone, so no link is left at it.
    unfold goesWith at hgoes
    rw [hget] at hgoes
    obtain ⟨operator, hoperator, htouches⟩ := List.any_eq_true.mp hgoes
    refine Option.eq_none_iff_forall_ne_some.mpr fun left hleft => ?_
    obtain rfl := Option.some.inj ((hfewer.links hleft).symm.trans hget)
    obtain ⟨source, hsource, -⟩ := h.source hget
    obtain ⟨target, htarget, -⟩ := h.target hget
    obtain ⟨source', hsource', -⟩ := h'.source hleft
    obtain ⟨target', htarget', -⟩ := h'.target hleft
    have hlisted {op : Operator} (hop : g.operators.get? operator = some op) :
        g'.operators.get? operator = none := by
      have hthere : g.hasOperator operator = true := by
        unfold Graph.hasOperator
        rw [Dict.contains_eq, hop]
        rfl
      exact hgone (.deleteOperator operator) (List.mem_append_right _
        (List.mem_map_of_mem (List.mem_filter.mpr ⟨hoperator, hthere⟩)))
    unfold Link.touches at htouches
    rcases Bool.or_eq_true_iff.mp htouches with hends | hends <;>
      obtain rfl := of_decide_eq_true hends
    · cases (hlisted hsource).symm.trans hsource'
    · cases (hlisted htarget).symm.trans htarget'
  · exact hgone (.deleteLink id) (List.mem_append_left _
      (List.mem_map_of_mem (List.mem_filter.mpr ⟨hmem, by simpa using hgoes⟩)))

/-- **Where a gesture is granted**, and the link is there as before, its record is as before or that
of the graph. -/
theorem Lifts.granted (hlifts : bridge.Lifts g gesture id link) {lost : Prop}
    (hrecords : bridge.Records lost g id) (h : g.Coherent) (h' : g'.Coherent)
    (hget : g.links.get? id = some link) (hget' : g'.links.get? id = some link)
    (heffect : Intent.effectAll (bridge.lift g gesture).1 g = .ok g') :
    (bridge.lift g gesture).2.shapes.get? id = some (.ofLink link) ∨
      (bridge.lift g gesture).2.shapes.get? id = none ∧ lost := by
  cases hlifts with
  | kept hkept =>
    rw [hkept]
    exact hrecords link hget
  | same hsame => exact .inl hsame
  | cut hcut =>
    rw [hcut] at heffect
    have hgone := (Intent.fewer_of_effectAll (by simp [Intent.IsDeletion]) heffect).2
      (.deleteLink id) List.mem_cons_self
    cases hget'.symm.trans hgone
  | moved hid hmoved hshape =>
    -- The link was exchanged for the one that the shape stands for.
    rw [hmoved] at heffect
    obtain ⟨cut, -, hadded⟩ := bind_eq_ok_iff.mp heffect
    obtain ⟨added, hadded, hlast⟩ := bind_eq_ok_iff.mp hadded
    cases hlast
    obtain ⟨-, rfl⟩ := Draft.takes_addLink_iff.mp (Mutation.result_eq_ok_iff.mp hadded)
    subst hid
    rw [Dict.get?_insert_self] at hget'
    cases hget'
    exact .inl hshape
  | dropped hmem _ hdropped _ =>
    rw [hdropped] at heffect
    cases hget'.symm.trans (get?_links_of_deleted h h' hget hmem heffect)

/-- Of the links to restore, the records are those of the graph. -/
theorem get?_foldl_restoreShape (hget : g.links.get? id = some link) (ids : List LinkId)
    (bridge : Bridge) : (ids.foldl (restoreShape g) bridge).shapes.get? id =
      if id ∈ ids then some (.ofLink link) else bridge.shapes.get? id := by
  induction ids generalizing bridge with
  | nil => rfl
  | cons other rest ih =>
    rw [List.foldl_cons, ih]
    by_cases heq : other = id
    · subst heq
      have hrestored : (bridge.restoreShape g other).shapes.get? other = some (.ofLink link) := by
        unfold restoreShape
        rw [hget]
        exact Dict.get?_insert_self ..
      rw [hrestored]
      simp
    · have hother : (bridge.restoreShape g other).shapes.get? id = bridge.shapes.get? id := by
        unfold restoreShape
        split
        · exact (Dict.get?_insert ..).trans (if_neg heq)
        · exact (Dict.get?_erase ..).trans (if_neg heq)
      rw [hother]
      simp [Ne.symm heq]

/-- **Where a gesture is refused**, the record of a link is as before or that of the graph, or it
was dropped with those of other shapes, while the link was to go with an operator. -/
theorem Lifts.refused (hlifts : bridge.Lifts g gesture id link) {lost : Prop}
    (hrecords : bridge.Records lost g id) (hget : g.links.get? id = some link) :
    let restored := ((bridge.lift g gesture).1.filterMap Intent.link?).foldl (restoreShape g)
      (bridge.lift g gesture).2
    restored.shapes.get? id = some (.ofLink link) ∨ restored.shapes.get? id = none ∧
      (lost ∨ ∃ operators links, gesture = .shapesDeleted operators links ∧ id ∈ links ∧
        operators.any link.touches = true) := by
  intro restored
  have hrestored : restored.shapes.get? id = _ := get?_foldl_restoreShape hget _ _
  split at hrestored
  · exact .inl hrestored
  · -- Nothing was asked about the link, so its record is as the gesture has left it.
    rename_i hnot
    rw [hrestored]
    cases hlifts with
    | kept hkept =>
      rw [hkept]
      exact (hrecords link hget).imp_right fun hlost => ⟨hlost.1, .inl hlost.2⟩
    | same hsame => exact .inl hsame
    | cut hcut =>
      rw [hcut] at hnot
      exact absurd List.mem_cons_self hnot
    | moved _ hmoved _ =>
      rw [hmoved] at hnot
      exact absurd List.mem_cons_self hnot
    | @dropped operators links hmem hgesture hdropped hshape =>
      refine .inr ⟨hshape, .inr ⟨operators, links, hgesture, hmem, ?_⟩⟩
      by_contra hgoes
      refine hnot (List.mem_filterMap.mpr ⟨.deleteLink id, ?_, rfl⟩)
      rw [hdropped]
      refine List.mem_append_left _ (List.mem_map_of_mem (List.mem_filter.mpr ⟨hmem, ?_⟩))
      unfold goesWith
      rw [hget]
      simpa using hgoes

end Bridge

/-! ## Sessions -/

namespace Session

variable {σ : Type} [Surface σ] {s s' : Session σ} {catalogue : Catalogue}
variable {lost : LinkId → Prop}

/-- **The record of a link is left out of what is put back**: the gesture deletes its shape among
others, the link is there and is to go with one of the operators, and the gesture is refused. -/
def LeavesOut (s : Session σ) (gesture : Gesture) (id : LinkId) : Prop :=
  (∃ operators links link, gesture = .shapesDeleted operators links ∧ id ∈ links ∧
    s.graph.links.get? id = some link ∧ operators.any link.touches = true) ∧
  ∃ cause, ((handleGesture gesture).exec s).1 = .error cause

/-- Of the gestures, which are followed up to the first that is refused, that one leaves the record
of the link out. -/
def LeaveOut (id : LinkId) : Session σ → List Gesture → Prop
  | _, [] => False
  | s, gesture :: rest => s.LeavesOut gesture id ∨
    (∃ count, ((handleGesture gesture).exec s).1 = .ok count) ∧
      LeaveOut id ((handleGesture gesture).exec s).2 rest

/-- The call has a gesture followed that leaves the record of the link out. -/
def Call.LeavesOut (s : Session σ) (id : LinkId) : Call σ → Prop
  | handleGesture gesture => s.LeavesOut gesture id
  | processGestures => LeaveOut id s.takeGestures.2 s.takeGestures.1
  | _ => False

omit [Surface σ] in
/-- **The records of the links are those of the graph**, or there are none and they were lost. -/
def Records (lost : LinkId → Prop) (s : Session σ) : Prop :=
  ∀ id, s.view.bridge.Records (lost id) s.graph id

/-- **As events are handed on, the records follow the graph**, if those of the links are right that
were there and stayed. -/
theorem records_settle (hrest : s.AtRest catalogue) (hworked : s.editor.Worked s'.editor)
    (h : ∀ id link, s.graph.links.get? id = some link → s'.graph.links.get? id = some link →
      s'.view.bridge.shapes.get? id = some (.ofLink link) ∨
        s'.view.bridge.shapes.get? id = none ∧ lost id) : s'.settle.Records lost := by
  have hlinks : (s.graph.followAll (s'.editor.draft.announced ++ s'.findings)).links =
      s'.graph.links := (settle_admits hrest hworked (Graph.heldAs_self s.graph)).2.links
  intro id link hget
  rw [settle_graph, ← hlinks] at hget
  rw [settle_view]
  by_cases hlink : ∃ event ∈ s'.editor.draft.announced ++ s'.findings, event.link? = some id
  · obtain ⟨event, hmem, hlink⟩ := hlink
    exact View.records_projectAll_of_mem hmem hlink link hget
  · -- No event concerns the link, so it is there as it was.
    have hbefore : s.graph.links.get? id = some link :=
      (Graph.get?_links_followAll fun event hmem heq => hlink ⟨event, hmem, heq⟩).symm.trans hget
    have hrecords : s'.view.bridge.Records (lost id) s.graph id := by
      intro other hother
      obtain rfl := Option.some.inj (hother.symm.trans hbefore)
      exact h id other hbefore (hlinks ▸ hget)
    exact View.records_projectAll hrecords _ link hget

/-- Events that do not come from the graph leave the records. -/
theorem Records.dispatch (h : s.Records lost) {events : List Event}
    (hquiet : ∀ event ∈ events, event.isOfGraph = false) : (s.dispatch events).Records lost := by
  intro id
  have hrecords := View.records_projectAll (h id) events
  rw [Graph.followAll_of_not_isOfGraph hquiet] at hrecords
  exact hrecords

/-- After a redraw all records are those of the graph. -/
theorem records_redraw (hcoherent : s.graph.Coherent) : s.redraw.Records lost := by
  intro id
  have hcleared : s.view.cleared.bridge.Records (lost id) .empty id := fun link hget => nomatch hget
  have hrecords := View.records_projectAll hcleared (s.graph.story ++ [Event.operatorsHighlighted
    (s.view.bridge.highlighted.filterKeys s.graph.hasOperator).keys])
  rw [Graph.followAll_append, hcoherent.followAll_story, ← View.redraw_eq] at hrecords
  show s.redraw.view.bridge.Records (lost id) s.graph id
  rw [redraw_bridge]
  exact hrecords

/-- **What a gesture leaves of the records**, whether it is granted or refused. -/
theorem handleGesture_records (hrest : s.AtRest catalogue) (h : s.Records lost) {gesture : Gesture}
    (hlost : ∀ id, s.LeavesOut gesture id → lost id) :
    ((handleGesture gesture).exec s).2.Records lost := by
  have hworked : s.editor.Worked (s.forward gesture).2.editor := Bridge.forward_worked ..
  have hwf : (Draft.start s.graph).graph.WellFormed catalogue := hrest.wellFormed
  have hcoherent : s.graph.Coherent := hwf.toCoherent
  have hcoherent' : (s.forward gesture).2.graph.Coherent :=
    ((hrest.steps hworked).wellFormed hwf).toCoherent
  show (s.forward gesture).2.settle.Records lost
  refine records_settle hrest hworked fun id link hget hget' => ?_
  have hlifts : s.view.bridge.Lifts s.editor.graph gesture id link := Bridge.lift_lifts hget gesture
  rcases s.view.bridge.forward_cases s.editor gesture with
    ⟨e, hexec, hforward⟩ | ⟨cause, e, hexec, hforward⟩
  · have hgraph : (s.forward gesture).2.graph = e.graph :=
      congrArg (fun answered => answered.2.2.graph) hforward
    rw [hgraph] at hcoherent' hget'
    have hrecord := hlifts.granted (h id) hcoherent hcoherent' hget hget'
      (Intent.effectAll_of_granted hrest.idle hrest.sound.graph hexec)
    have hbridge := congrArg (·.2.1.shapes.get? id) hforward
    dsimp only at hbridge
    rwa [← hbridge] at hrecord
  · -- The graph is as before, so what is put back is what it says of the links asked about.
    have hsame : e.graph = s.editor.graph :=
      (Intent.performAll_refused hrest.idle hrest.sound.graph hexec).1
    rw [hsame] at hforward
    have hrecord := hlifts.refused (h id) hget
    have hbridge := congrArg (·.2.1.shapes.get? id) hforward
    dsimp only at hbridge hrecord
    rw [← hbridge] at hrecord
    refine hrecord.imp_right fun ⟨hnone, hreason⟩ => ⟨hnone, hreason.elim (·) fun hdropped => ?_⟩
    obtain ⟨operators, links, hgesture, hmem, htouches⟩ := hdropped
    refine hlost id ⟨⟨operators, links, link, hgesture, hmem, hget, htouches⟩, cause, ?_⟩
    exact congrArg Prod.fst hforward

/-- **Each stage that follows no gesture keeps the records.** -/
theorem Stage.records {uses : (σ → σ) → Prop} (hrest : s.AtRest catalogue) (h : s.Records lost)
    (hstage : Stage (fun _ => False) uses s s') : s'.Records lost := by
  cases hstage with
  | edit hworked => exact records_settle hrest hworked fun id link hget _ => h id link hget
  | gesture hgesture => exact hgesture.elim
  | tell hevents =>
    exact h.dispatch fun event hmem => Event.isOfGraph_of_stream (.inl (hevents event hmem))
  | highlight ids =>
    rcases highlight_cases ids s with heq | heq <;> rw [heq]
    · exact h
    · exact h.dispatch (by simp [Event.isOfGraph])
  | unhighlight ids =>
    rcases unhighlight_cases ids s with heq | heq <;> rw [heq]
    · exact h
    · exact h.dispatch (by simp [Event.isOfGraph])
  | redraw => exact records_redraw hrest.wellFormed.toCoherent
  | exchange | use | takeGestures | setReplaying => exact h

/-- Gestures are followed one by one, up to the first that is refused. -/
theorem handleAll_records (hrest : s.AtRest catalogue) (h : s.Records lost)
    {gestures : List Gesture} (hlost : ∀ id, LeaveOut id s gestures → lost id) :
    ((handleAll gestures).exec s).2.Records lost := by
  -- By induction on the gestures, for any number that were counted before.
  have hfold (count : Nat) : ((gestures.foldlM (fun count gesture => do
      return count + (← handleGesture gesture)) count : Attempt (Session σ) Nat).exec s).2.Records
        lost := by
    induction gestures generalizing count s with
    | nil => exact h
    | cons gesture rest ih =>
      have hfirst : ((handleGesture gesture).exec s).2.Records lost :=
        handleGesture_records hrest h fun id hleaves => hlost id (.inl hleaves)
      have hstage : Stage (fun _ => True) (fun _ => True) s ((handleGesture gesture).exec s).2 :=
        .gesture trivial
      have hrest' := hstage.atRest hrest
      rw [List.foldlM_cons]
      rcases hexec : (handleGesture gesture).exec s with ⟨cause | handled, s'⟩ <;>
        rw [hexec] at hfirst hrest'
      · rw [Attempt.exec_bind_error (Attempt.exec_bind_error hexec)]
        exact hfirst
      · have hhandled : Attempt.exec (do return count + (← handleGesture gesture)) s =
            (.ok (count + handled), s') := Attempt.exec_bind_ok hexec
        rw [Attempt.exec_bind_ok hhandled]
        refine ih hrest' hfirst (fun id hleave => hlost id (.inr ?_)) _
        rw [hexec]
        exact ⟨⟨handled, rfl⟩, hleave⟩
  exact hfold 0

/-- **Each call keeps the records**, but for those of links that are left out. -/
theorem Call.records {call : Call σ} (hrest : s.AtRest catalogue) (h : s.Records lost)
    (hlost : ∀ id, call.LeavesOut s id → lost id) : (call.exec s).Records lost := by
  have hstages (hnone : ∀ gesture, ¬ call.Hands s gesture) : (call.exec s).Records lost := by
    have hall : Stages (fun _ => False) (fun _ => True) s (call.exec s) :=
      call.stages s hnone fun _ _ => trivial
    exact hall.invariant (fun hrest h hstage => hstage.records hrest h) hrest h
  cases call with
  | handleGesture gesture => exact handleGesture_records hrest h hlost
  | processGestures =>
    have htaken : Stage (fun _ => False) (fun _ => True) s s.takeGestures.2 := .takeGestures
    exact handleAll_records (htaken.atRest hrest) (htaken.records hrest h) hlost
  | _ => exact hstages fun _ hhands => hhands

theorem records_after (hrest : s.AtRest catalogue) (h : s.Records lost) {calls : List (Call σ)}
    (hlost : ∀ id, s.Ever (fun s call => call.LeavesOut s id) calls → lost id) :
    (s.after calls).Records lost := by
  induction calls generalizing s with
  | nil => exact h
  | cons call rest ih =>
    refine ih ((after_stages s [call]).atRest hrest)
      (Call.records hrest h fun id hleaves => hlost id (.inl hleaves)) fun id hever => ?_
    exact hlost id (.inr hever)

/-- **After every run the record of each link that is there is that of the graph**, its two ports;
or there is none, for at some call of the run a gesture was refused that had deleted the shape of
the link along with an operator at its end.  No record of such a link is ever another. -/
theorem shapes_after (catalogue : Catalogue) (settings : Settings) (clock : Nat → Nat)
    (surface : σ) (calls : List (Call σ)) :
    let start := start catalogue settings clock surface
    let s := start.after calls
    ∀ id link, s.graph.links.get? id = some link →
      s.view.bridge.shapes.get? id = some ⟨.port link.source, .port link.target⟩ ∨
        s.view.bridge.shapes.get? id = none ∧
          start.Ever (fun s call => call.LeavesOut s id) calls := by
  intro start s id
  have hstart : start.Records fun id => start.Ever (fun s call => call.LeavesOut s id) calls :=
    fun id link hget => nomatch hget
  exact records_after (atRest_start ..) hstart (fun _ hever => hever) id

/-- On a locked pipeline the shapes of an operator and of a link at it are deleted, which is
refused: the link is there still, and its record is gone. -/
theorem not_records_shapesDeleted :
    let scan : Operator := ⟨"scan", "Scan", "1", .object [], [], [⟨"output-0", ""⟩], false⟩
    let sink : Operator := ⟨"sink", "Sink", "1", .object [], [⟨"input-0", ""⟩], [], false⟩
    let link : Link := ⟨"l", ⟨"scan", "output-0"⟩, ⟨"sink", "input-0"⟩⟩
    let locked := (start (.ofMetadata ⟨[⟨"Scan", .object [], ⟨"Scan", none, "Input", 0, 1⟩, "1"⟩,
        ⟨"Sink", .object [], ⟨"Sink", none, "Output", 1, 0⟩, "1"⟩], []⟩)
      .initial id (Canvas.empty false)).after
        [.act (.addAll [(scan, .origin), (sink, .origin)] [link]), .setEnabled false]
    let s := locked.after [.handleGesture (.shapesDeleted ["scan"] ["l"])]
    locked.view.bridge.shapes.get? "l" = some ⟨.port link.source, .port link.target⟩ ∧
      ¬ ∀ id link, s.graph.links.get? id = some link →
        s.view.bridge.shapes.get? id = some ⟨.port link.source, .port link.target⟩ := by
  intro scan sink link locked s
  have hthere : s.graph.links.get? "l" = some link := by decide +kernel
  have hnone : s.view.bridge.shapes.get? "l" = none := by decide +kernel
  refine ⟨by decide +kernel, fun hall => ?_⟩
  cases hnone.symm.trans (hall "l" link hthere)

/-- A link is drawn along with its operators.  Its source is deleted with the shape of the link,
which is granted, and undone; then the same is refused on the locked pipeline. -/
theorem shapes_after_shapesDeleted :
    let scan : Operator := ⟨"scan", "Scan", "1", .object [], [], [⟨"output-0", ""⟩], false⟩
    let sink : Operator := ⟨"sink", "Sink", "1", .object [], [⟨"input-0", ""⟩], [], false⟩
    let link : Link := ⟨"l", ⟨"scan", "output-0"⟩, ⟨"sink", "input-0"⟩⟩
    let delete : Call Canvas := .handleGesture (.shapesDeleted ["scan"] ["l"])
    let opened := start (.ofMetadata ⟨[⟨"Scan", .object [], ⟨"Scan", none, "Input", 0, 1⟩, "1"⟩,
        ⟨"Sink", .object [], ⟨"Sink", none, "Output", 1, 0⟩, "1"⟩], []⟩)
      .initial id (Canvas.empty false)
    let granted : List (Call Canvas) :=
      [.act (.addAll [(scan, .origin), (sink, .origin)] [link]), delete, .undo]
    let refused : List (Call Canvas) := granted ++ [.setEnabled false, delete]
    (opened.after granted).graph.links.get? "l" = some link ∧
      (opened.after granted).view.bridge.shapes.get? "l" =
        some ⟨.port link.source, .port link.target⟩ ∧
      (opened.after refused).graph.links.get? "l" = some link ∧
      opened.Ever (fun s call => call.LeavesOut s "l") refused := by
  intro scan sink link delete opened granted refused
  have hgranted : (opened.after granted).graph.links.get? "l" = some link := by decide +kernel
  have hrefused : (opened.after refused).graph.links.get? "l" = some link := by decide +kernel
  have hrecord : (opened.after granted).view.bridge.shapes.get? "l" ≠ none := by decide +kernel
  have hlost : (opened.after refused).view.bridge.shapes.get? "l" = none := by decide +kernel
  have hrecords (calls : List (Call Canvas))
      (hget : (opened.after calls).graph.links.get? "l" = some link) :
      (opened.after calls).view.bridge.shapes.get? "l" =
          some ⟨.port link.source, .port link.target⟩ ∨
        (opened.after calls).view.bridge.shapes.get? "l" = none ∧
          opened.Ever (fun s call => call.LeavesOut s "l") calls :=
    shapes_after _ _ _ _ calls "l" link hget
  refine ⟨hgranted, ?_, hrefused, ?_⟩
  · exact (hrecords granted hgranted).resolve_right fun hnone => hrecord hnone.1
  · refine ((hrecords refused hrefused).resolve_left fun hsome => ?_).2
    exact Option.some_ne_none _ (hsome.symm.trans hlost)

end Session

end PipelineEditor
