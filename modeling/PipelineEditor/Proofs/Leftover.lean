import PipelineEditor.Proofs.Immunity
import PipelineEditor.Proofs.Loading
import PipelineEditor.Proofs.Shapes

/-!
# What a load leaves of the drawing

Loading replaces the graph, and the drawing follows by events.  The links that were there are taken
away and those of the document are added, so each of them is drawn and remembered as the document
says, or not at all.  A shape that stands for no link of the graph is met by no event: a link that
was drawn by hand and never joined, or dragged loose, stays as it is.

## Main definitions

* `View.Shows r id`: drawing and records say of a link what the graph says
* `Event.Brings links`: the event adds none but the given links
* `Editor.Announces P`: inside a bundle, only such events are announced

## Main results

* `View.shows_projectAll_of_mem`: once an event tells of a link, it is shown as the graph says
* `Session.exists_load`: a load passes through the empty graph, and adds what the document lists
* `Session.load_tells`: a load tells of the links that were there and of those listed
* `Session.leftover_after`: what is left of a link after a load
-/

namespace PipelineEditor

open Attempt (Keeps)

/-! ## What is shown of a link -/

namespace View

variable {view : View Canvas} {r : Graph} {event : Event} {events : List Event} {id : LinkId}

/-- Events on other links leave what is drawn of a link. -/
theorem get?_links_project (hother : event.link? ≠ some id) :
    (view.project event).surface.links.get? id = view.surface.links.get? id := by
  cases event with
  | operatorAdded op position =>
    unfold project drawOperator
    dsimp only
    split <;> rfl
  | linkAdded link =>
    have hne : link.id ≠ id := fun heq => hother (congrArg some heq)
    exact (Dict.get?_insert ..).trans (if_neg hne)
  | linkDeleted link =>
    have hne : link.id ≠ id := fun heq => hother (congrArg some heq)
    unfold project eraseLink
    dsimp only
    split
    · show (Surface.removeLink link.id view.surface).links.get? id = _
      rw [(Canvas.sameDrawing_removeLink ..).links, Dict.get?_erase, if_neg hne]
    · rfl
  | operatorMoved other position =>
    exact congrArg (·.get? id) (Canvas.sameDrawing_reportEcho ..).links
  | operatorsHighlighted ids | operatorsUnhighlighted ids =>
    exact highlightAll_eq (f := fun view => view.surface.links.get? id) (fun _ _ => rfl) ids view
  | _ => rfl

/-- A link that no event tells of is drawn and remembered as before. -/
theorem get?_projectAll_of_others (hothers : ∀ event ∈ events, event.link? ≠ some id) :
    (events.foldl project view).surface.links.get? id = view.surface.links.get? id ∧
      (events.foldl project view).bridge.shapes.get? id = view.bridge.shapes.get? id := by
  induction events generalizing view with
  | nil => exact ⟨rfl, rfl⟩
  | cons event rest ih =>
    have hfirst := hothers event List.mem_cons_self
    have hrest := @ih (view.project event) fun other hmem =>
      hothers other (List.mem_cons_of_mem _ hmem)
    exact ⟨hrest.1.trans (get?_links_project hfirst), hrest.2.trans (get?_shapes_project hfirst)⟩

/-- **Drawing and records say of a link what the graph says.** -/
structure Shows (view : View Canvas) (r : Graph) (id : LinkId) : Prop where
  drawn : view.surface.links.get? id = r.links.get? id
  recorded : view.bridge.shapes.get? id = (r.links.get? id).map .ofLink

theorem Shows.records (h : view.Shows r id) (lost : Prop) : view.bridge.Records lost r id := by
  intro link hget
  rw [h.recorded, hget]
  exact .inl rfl

/-- **Where a link comes or goes, it is shown as the graph says**, if the graph admits the event and
the link, where it is there, is not remembered as another. -/
theorem shows_of_link? (h : event.link? = some id) (hsuits : event.Suits r)
    (hrecords : view.bridge.Records True r id) :
    (view.project event).Shows (r.follow event) id := by
  cases event with
  | linkAdded link =>
    obtain rfl := Option.some.inj h
    refine ⟨?_, ?_⟩
    · exact (Dict.get?_insert_self ..).trans (Dict.get?_insert_self ..).symm
    · refine (Dict.get?_insert_self ..).trans ?_
      show _ = ((r.links.insert link.id link).get? link.id).map LinkShape.ofLink
      rw [Dict.get?_insert_self]
      rfl
  | linkDeleted link =>
    obtain rfl := Option.some.inj h
    -- The link is there, so its record is its own or lost, and the shape goes with the link.
    have hattached : ((view.bridge.shapes.get? link.id).map (·.isOf link)).getD true = true := by
      rcases hrecords link hsuits with hshape | ⟨hnone, -⟩
      · simp [hshape, LinkShape.isOf, LinkShape.ofLink, Anchor.port?]
      · simp [hnone]
    have hgone : (r.follow (.linkDeleted link)).links.get? link.id = none :=
      Dict.get?_erase_self ..
    have hproject : view.project (.linkDeleted link) =
        ⟨view.bridge.dropShape link.id, Surface.removeLink link.id view.surface⟩ := by
      show view.eraseLink link = _
      unfold eraseLink
      rw [hattached]
      rfl
    rw [hproject]
    refine ⟨?_, ?_⟩
    · show (Surface.removeLink link.id view.surface).links.get? link.id = _
      rw [(Canvas.sameDrawing_removeLink ..).links, Dict.get?_erase_self, hgone]
    · rw [hgone]
      exact Dict.get?_erase_self ..
  | _ => cases h

theorem Shows.project (h : view.Shows r id) (hsuits : event.Suits r) :
    (view.project event).Shows (r.follow event) id := by
  by_cases hlink : event.link? = some id
  · exact shows_of_link? hlink hsuits (h.records True)
  · refine ⟨?_, ?_⟩
    · rw [get?_links_project hlink, Graph.get?_links_follow hlink, h.drawn]
    · rw [get?_shapes_project hlink, Graph.get?_links_follow hlink, h.recorded]

theorem Shows.projectAll (h : view.Shows r id) (hadmits : r.Admits events) :
    (events.foldl View.project view).Shows (r.followAll events) id := by
  induction events generalizing view r with
  | nil => exact h
  | cons event rest ih =>
    obtain ⟨hsuits, hrest⟩ := hadmits
    exact ih (h.project hsuits) hrest

/-- **Once an event tells of a link, it is shown as the graph says.** -/
theorem shows_projectAll_of_mem (hrecords : view.bridge.Records True r id)
    (hadmits : r.Admits events) (hmem : event ∈ events) (hlink : event.link? = some id) :
    (events.foldl View.project view).Shows (r.followAll events) id := by
  obtain ⟨before, rest, rfl⟩ := List.append_of_mem hmem
  obtain ⟨-, hsuits, hrest⟩ := Graph.admits_append.mp hadmits
  rw [List.foldl_append, Graph.followAll_append]
  exact (shows_of_link? hlink hsuits (records_projectAll hrecords before)).projectAll hrest

end View

/-! ## What calls announce -/

/-- The event adds none but the given links. -/
def Event.Brings (links : List Link) : Event → Prop
  | linkAdded link => link ∈ links
  | _ => True

/-- A link that is not there comes only with an event that adds it. -/
theorem Graph.Admits.link?_ne {r : Graph} {events : List Event} {links : List Link} {id : LinkId}
    (hadmits : r.Admits events) (hbrings : ∀ event ∈ events, event.Brings links)
    (hnone : r.links.get? id = none) (hunlisted : id ∉ links.map (·.id)) :
    ∀ event ∈ events, event.link? ≠ some id := by
  induction events generalizing r with
  | nil => exact fun _ hmem => nomatch hmem
  | cons event rest ih =>
    obtain ⟨hsuits, hrest⟩ := hadmits
    have hfirst : event.link? ≠ some id := by
      intro hlink
      cases event with
      | linkAdded link =>
        have hlisted : link ∈ links := hbrings _ List.mem_cons_self
        exact hunlisted (Option.some.inj hlink ▸ List.mem_map_of_mem hlisted)
      | linkDeleted link =>
        have hthere : r.links.get? link.id = some link := hsuits
        rw [Option.some.inj hlink, hnone] at hthere
        cases hthere
      | _ => cases hlink
    have hnone' : (r.follow event).links.get? id = none :=
      (Graph.get?_links_follow hfirst).trans hnone
    exact List.forall_mem_cons.mpr ⟨hfirst, ih hrest
      (fun other hmem => hbrings other (List.mem_cons_of_mem _ hmem)) hnone'⟩

/-- Only such events are announced on the way from one draft to the other. -/
def Draft.Announces (P : Event → Prop) (d d' : Draft) : Prop :=
  ∃ told, d'.announced = d.announced ++ told ∧ ∀ event ∈ told, P event

variable {P : Event → Prop}

instance : Std.Refl (Draft.Announces P) :=
  ⟨fun _ => ⟨[], (List.append_nil _).symm, fun _ hmem => nomatch hmem⟩⟩

instance : IsTrans Draft (Draft.Announces P) where
  trans := by
    rintro d d' d'' ⟨told, htold, hall⟩ ⟨more, hmore, hall'⟩
    refine ⟨told ++ more, ?_, fun event hmem => (List.mem_append.mp hmem).elim (hall event)
      (hall' event)⟩
    rw [hmore, htold, List.append_assoc]

theorem Draft.mutate_announces {m : Mutation} (hm : ∀ {g g' : Graph} {events : List Event},
    m.step g = .ok (g', events) → ∀ event ∈ events, P event) :
    Keeps (Draft.Announces P) (mutate m.step) := by
  intro d
  rw [exec_mutate]
  rcases hstep : m.step d.graph with cause | ⟨g, events⟩
  · exact refl_of (Draft.Announces P) d
  · exact ⟨events, rfl, hm hstep⟩

namespace Editor

/-- **Inside a bundle, only such events are announced** on the way from one editor to the other, and
the bundle goes on. -/
def Announces (P : Event → Prop) (e e' : Editor) : Prop :=
  e.bundled.isSome = true → e'.bundled.isSome = true ∧ e.draft.Announces P e'.draft

instance : Std.Refl (Announces P) := ⟨fun e hopen => ⟨hopen, refl_of (Draft.Announces P) e.draft⟩⟩

instance : IsTrans Editor (Announces P) where
  trans _ _ _ h h' hopen :=
    have hfirst := h hopen
    have hsecond := h' hfirst.1
    ⟨hsecond.1, trans_of (Draft.Announces P) hfirst.2 hsecond.2⟩

theorem lookUp_announces {α : Type} (query : Graph → Except EditError α) :
    Keeps (Announces P) (lookUp query) := by
  intro e
  rw [exec_lookUp]
  exact refl_of (Announces P) e

theorem commit_announces {change : Change} (h : Keeps (Draft.Announces P) change.apply) :
    Keeps (Announces P) (commit change) := by
  intro e hopen
  have hdraft := h e.draft
  rw [exec_commit]
  rcases hexec : change.apply.exec e.draft with ⟨cause | ⟨⟩, draft⟩ <;> rw [hexec] at hdraft
  · exact ⟨hopen, hdraft⟩
  · refine ⟨(note_bundled change { e with draft }).trans hopen, ?_⟩
    rw [note_draft]
    exact hdraft

/-- A bundle inside a bundle announces what its calls announce. -/
theorem bundle_announces {α : Type} {calls : Attempt Editor α} (h : Keeps (Announces P) calls) :
    Keeps (Announces P) (bundle calls) := by
  intro e hopen
  obtain ⟨changes, hbundled⟩ := Option.isSome_iff_exists.mp hopen
  rw [exec_bundle_some hbundled]
  exact h e hopen

variable {links : List Link}

theorem addOperator_announces (op : Operator) (position : Point) :
    Keeps (Announces (Event.Brings links)) (addOperator op position) := by
  refine .bind requireEnabled_keeps fun _ => .read fun e => .bind (fun e' => ?_) fun _ =>
    .bind (lookUp_announces _) fun _ => commit_announces (.bind ?_ fun _ => .pure _)
  · rw [Attempt.exec_check]
    exact refl_of (Announces _) e'
  · refine Draft.mutate_announces (m := .addOperator op position) fun hstep => ?_
    obtain ⟨-, heq⟩ := Graph.addOperator_eq_ok_iff.mp hstep
    cases heq
    simp [Event.Brings]

theorem deleteOperator_announces (id : OperatorId) :
    Keeps (Announces (Event.Brings links)) (deleteOperator id) := by
  refine .bind requireEnabled_keeps fun _ => .bind (lookUp_announces _) fun op =>
    .read fun e => commit_announces ?_
  refine Draft.mutate_announces (m := .deleteOperator op.id) fun hstep => ?_
  obtain ⟨op, -, heq⟩ := Graph.deleteOperator_eq_ok_iff.mp hstep
  cases heq
  intro event hmem
  rcases List.mem_append.mp hmem with hmem | hmem
  · obtain ⟨link, -, rfl⟩ := List.mem_map.mp hmem
    trivial
  · rw [List.mem_singleton.mp hmem]
    trivial

theorem addLink_announces {link : Link} (hlisted : link ∈ links) :
    Keeps (Announces (Event.Brings links)) (addLink link) := by
  refine .bind requireEnabled_keeps fun _ => .bind (lookUp_announces _) fun _ =>
    commit_announces (.bind ?_ fun _ => .pure _)
  refine Draft.mutate_announces (m := .addLink link) fun hstep => ?_
  obtain ⟨-, heq⟩ := Graph.addLink_eq_ok_iff.mp hstep
  cases heq
  intro event hmem
  rw [List.mem_singleton.mp hmem]
  exact hlisted

theorem setBreakpoint_announces (id : LinkId) (breakpoint : Option Breakpoint) :
    Keeps (Announces (Event.Brings links)) (setBreakpoint id breakpoint) := by
  refine .bind requireEnabled_keeps fun _ => .bind (lookUp_announces _) fun _ =>
    .read fun e => .ite (.pure _) (commit_announces ?_)
  refine Draft.mutate_announces (m := .setBreakpoint id breakpoint) fun hstep => ?_
  obtain ⟨-, heq⟩ := Graph.setBreakpoint_eq_ok_iff.mp hstep
  cases heq
  split <;> simp [Event.Brings]

/-- Taking operators away brings no link. -/
theorem deleteAll_announces (operators : List OperatorId) :
    Keeps (Announces (Event.Brings links)) (deleteAll operators []) :=
  .bind requireEnabled_keeps fun _ => bundle_announces
    (.bind (.pure _) fun _ => .forM fun id _ => deleteOperator_announces id)

/-- Adding operators and links brings these links. -/
theorem addAll_announces (operators : List (Operator × Point)) :
    Keeps (Announces (Event.Brings links)) (addAll operators links) :=
  .bind requireEnabled_keeps fun _ => bundle_announces
    (.bind (.forM fun (op, position) _ => addOperator_announces op position) fun _ =>
      .forM fun _ hmem => addLink_announces hmem)

end Editor

/-! ## Loads -/

namespace Session

variable {σ : Type} [Surface σ] {s : Session σ} {catalogue : Catalogue} {content : Content}

omit [Surface σ] in
/-- A replacement that is granted has taken all operators away, and then added what the document
lists. -/
theorem exists_replaceBy_granted {e e' : Editor} {order : List (LinkId × Breakpoint)}
    (hidle : e.bundled = none) (hexec : (replaceBy content order).exec e = (.ok (), e')) :
    ∃ emptied filled : Editor,
      (Editor.deleteAll e.graph.operators.keys []).exec { e with bundled := some [] } =
        (.ok (), emptied) ∧
      emptied.Announces (Event.Brings content.links) filled ∧
      e'.draft = filled.draft := by
  rw [replaceBy, Editor.exec_bundle_none hidle, Attempt.exec_get_bind] at hexec
  split at hexec
  · rename_i filled hcalls
    obtain ⟨⟨⟩, emptied, hdelete, hadd⟩ := Attempt.exec_bind_eq_ok_iff.mp hcalls
    refine ⟨emptied, filled, hdelete, ?_, ?_⟩
    · have hfilled : filled = (Attempt.exec _ emptied).2 := (congrArg Prod.snd hadd).symm
      rw [hfilled]
      exact Keeps.bind (Editor.addAll_announces _) (fun _ => .forM fun entry _ =>
        Editor.setBreakpoint_announces entry.1 (some entry.2)) emptied
    · exact congrArg (·.2.draft) hexec.symm
  · cases hexec

omit [Surface σ] in
/-- Once all operators have been taken away, the graph is empty, and nothing has been added. -/
theorem AtRest.emptied (hrest : s.AtRest catalogue) (links : List Link) {emptied : Editor}
    (hdelete : (Editor.deleteAll s.graph.operators.keys []).exec
      { s.editor with bundled := some [] } = (.ok (), emptied)) :
    s.editor.enabled = true ∧ emptied.bundled.isSome = true ∧ emptied.graph = .empty ∧
      Draft.Steps catalogue (.start s.graph) emptied.draft ∧
      (Draft.start s.graph).Announces (Event.Brings links) emptied.draft := by
  let deletion : Action := .deleteAll s.graph.operators.keys []
  -- Even without operators the call asks for the lock, so it would have been refused.
  have henabled : s.editor.enabled = true := by
    by_contra hlocked
    have hrefused := deletion.exec_locked (e := { s.editor with bundled := some [] })
      (Bool.not_eq_true _ ▸ hlocked)
    cases hdelete.symm.trans hrefused
  have hempty : emptied.graph = .empty := by
    have hmeets := Editor.realizes_deleteAll s.graph.operators.keys
      { s.editor with bundled := some [] }
      ⟨henabled, rfl, hrest.catalogue, hrest.wellFormed⟩
    have hgone := hrest.wellFormed.foldlM_deleteOperator_keys
    simp only [Editor.graph, Session.graph] at hmeets hgone hdelete
    rw [hgone] at hmeets
    obtain ⟨e', hexec, hgraph, -⟩ := hmeets
    cases hdelete.symm.trans hexec
    exact hgraph
  -- As a bundle of its own the deletion is a run of steps, and steps are all that is asked.
  have hsteps : Draft.Steps catalogue (.start s.graph) emptied.draft := by
    have hworked : s.editor.Worked ((Editor.bundle deletion.perform).exec s.editor).2 :=
      .of_program (.bundle (.act deletion)) s.editor
    have hbundle := hrest.steps hworked
    rw [Editor.exec_bundle_none hrest.idle] at hbundle
    rwa [show deletion.perform.exec { s.editor with bundled := some [] } = _ from hdelete]
      at hbundle
  have hkeeps : Keeps (Editor.Announces (Event.Brings links)) _ :=
    Editor.deleteAll_announces s.graph.operators.keys
  have hannounced := hkeeps { s.editor with bundled := some [] } rfl
  rw [hdelete, show ({ s.editor with bundled := some [] } : Editor).draft = .start s.graph from
    hrest.settled.draft_eq] at hannounced
  exact ⟨henabled, hannounced.1, hempty, hsteps, hannounced.2⟩

/-- **A load passes through the empty graph, and adds what the document lists.** -/
theorem exists_load (hrest : s.AtRest catalogue) (hok : ((load content).exec s).1 = .ok ()) :
    content.WellFormed catalogue ∧ ∃ (emptied : Draft) (editor : Editor),
      s.editor.Worked editor ∧ ((load content).exec s).2 = settle { s with editor } ∧
      editor.graph = content.toGraph ∧
      Draft.Steps catalogue (.start s.graph) emptied ∧ emptied.graph = .empty ∧
      (Draft.start s.graph).Announces (Event.Brings content.links) emptied ∧
      emptied.Announces (Event.Brings content.links) editor.draft := by
  let program : Attempt Editor Unit :=
    replaceBy content content.breakpoints.toList >>= fun _ => modify Editor.clearHistory
  have hprogram : program.exec s.editor = (.ok (), (program.exec s.editor).2) := Prod.ext hok rfl
  obtain ⟨⟨⟩, e, hreplace, hclear⟩ := Attempt.exec_bind_eq_ok_iff.mp hprogram
  obtain ⟨emptied, filled, hdelete, hfilled, hdraft⟩ :=
    exists_replaceBy_granted hrest.idle hreplace
  obtain ⟨henabled, hbundled, hempty, hsteps, hannounced⟩ := hrest.emptied content.links hdelete
  -- History is forgotten in the end, which leaves the draft alone.
  have hcleared : (program.exec s.editor).2.draft = filled.draft := by
    rw [← hdraft]
    exact congrArg (·.2.draft) hclear.symm
  have hwf : content.WellFormed catalogue := (load_eq_ok_iff hrest henabled).mp hok
  have hworked : s.editor.Worked (program.exec s.editor).2 :=
    .of_program (.bind (program_replaceBy content _) fun _ => .clearHistory trivial) s.editor
  refine ⟨hwf, emptied.draft, (program.exec s.editor).2, hworked, rfl, ?_, hsteps, hempty,
    hannounced, ?_⟩
  · have hbuild := load_build hrest henabled content content.breakpoints.toList
    rw [(Content.build_eq_ok_iff (.refl _)).mpr ⟨hwf, rfl⟩] at hbuild
    obtain ⟨s', hexec, hgraph, -⟩ := hbuild
    have hloaded : s' = settle { s with editor := (program.exec s.editor).2 } :=
      (congrArg Prod.snd hexec).symm
    rw [hloaded, settle_graph] at hgraph
    exact hgraph
  · rw [hcleared]
    exact (hfilled hbundled).2

omit [Surface σ] in
/-- Findings tell of no link. -/
theorem link?_findings (s : Session σ) : ∀ event ∈ s.findings, event.link? = none := by
  intro event hmem
  have hstream := s.stream_findings event hmem
  cases event <;> first | rfl | cases hstream

/-- **A load tells of the links that were there, and of those that the document lists**, and of no
others. -/
theorem load_tells (hrest : s.AtRest catalogue) (hok : ((load content).exec s).1 = .ok ()) :
    ∃ editor : Editor, s.editor.Worked editor ∧
      ((load content).exec s).2 = settle { s with editor } ∧ editor.graph = content.toGraph ∧
      ∀ id, (∃ event ∈ editor.draft.announced, event.link? = some id) ↔
        (s.graph.links.get? id).isSome ∨ id ∈ content.links.map (·.id) := by
  obtain ⟨hwf, emptied, editor, hworked, hexec, hgraph, hsteps, hempty, ⟨told, htold, hbrings⟩,
    more, hmore, hbrings'⟩ := exists_load hrest hok
  refine ⟨editor, hworked, hexec, hgraph, fun id => ?_⟩
  have htold : emptied.announced = told := htold
  rw [htold] at hmore
  rw [hmore]
  have hstart : (Draft.start s.graph).graph.HeldAs
    (s.graph.followAll (Draft.start s.graph).announced) := Graph.heldAs_self _
  have hwf' : (Draft.start s.graph).graph.WellFormed catalogue := hrest.wellFormed
  have hgone : (s.graph.followAll told).links.get? id = none := by
    rw [← htold, (hsteps.follow hwf' hstart).links, hempty]
    rfl
  constructor
  · rintro ⟨event, hmem, hlink⟩
    by_contra hneither
    obtain ⟨hnone, hunlisted⟩ := not_or.mp hneither
    have hadmits := (hrest.steps hworked).admits hwf' hstart trivial
    rw [hmore] at hadmits
    refine hadmits.link?_ne (fun event hmem => ?_) (Option.not_isSome_iff_eq_none.mp hnone)
      hunlisted event hmem hlink
    exact (List.mem_append.mp hmem).elim (hbrings event) (hbrings' event)
  · rintro (hthere | hlisted)
    · -- The link was there, and is not when the graph is empty.
      by_contra hnone
      have hkept : (s.graph.followAll told).links.get? id = s.graph.links.get? id :=
        Graph.get?_links_followAll fun event hmem hlink =>
          hnone ⟨event, List.mem_append_left _ hmem, hlink⟩
      rw [← hkept, hgone] at hthere
      cases hthere
    · -- The link is not there when the graph is empty, and is in the end.
      by_contra hnone
      have hkept : (s.graph.followAll (told ++ more)).links.get? id = none := by
        rw [Graph.followAll_append, Graph.get?_links_followAll fun event hmem hlink =>
          hnone ⟨event, List.mem_append_right _ hmem, hlink⟩]
        exact hgone
      have hheld := (hrest.steps hworked).follow hwf' hstart
      have hlinks : (s.graph.followAll (told ++ more)).links = content.toGraph.links := by
        rw [← hgraph, ← hmore]
        exact hheld.links
      have hthere : (content.toGraph.links.get? id).isSome :=
        (Dict.isSome_get?_ofList_of_nodup hwf.links_nodup).mpr hlisted
      rw [← hlinks, hkept] at hthere
      cases hthere

/-! ## What is left -/

variable {s : Session Canvas}

/-- **What a load leaves of a link**: if it was there or is listed, it is shown as the document
says; if not, it is drawn and remembered as before. -/
theorem load_shows (hrest : s.AtRest catalogue) (hrecords : s.Records fun _ => True)
    (hok : ((load content).exec s).1 = .ok ()) (id : LinkId) :
    ((s.graph.links.get? id).isSome ∨ id ∈ content.links.map (·.id) →
      ((load content).exec s).2.view.Shows content.toGraph id) ∧
    (¬ ((s.graph.links.get? id).isSome ∨ id ∈ content.links.map (·.id)) →
      ((load content).exec s).2.view.surface.links.get? id = s.view.surface.links.get? id ∧
      ((load content).exec s).2.view.bridge.shapes.get? id = s.view.bridge.shapes.get? id) := by
  obtain ⟨editor, hworked, hexec, hgraph, htells⟩ := load_tells hrest hok
  let s' : Session Canvas := { s with editor }
  have hview : ((load content).exec s).2.view =
      (editor.draft.announced ++ s'.findings).foldl View.project s.view := by
    rw [hexec]
    exact settle_view s'
  rw [hview]
  constructor
  · intro htold
    obtain ⟨event, hmem, hlink⟩ := (htells id).mpr htold
    have hworked' : s.editor.Worked s'.editor := hworked
    obtain ⟨hadmits, hheld⟩ := settle_admits hrest hworked' (Graph.heldAs_self _)
    have hshows := View.shows_projectAll_of_mem (hrecords id) hadmits
      (List.mem_append_left _ hmem) hlink
    have hlinks := hheld.links.trans (congrArg Graph.links hgraph)
    exact ⟨hlinks ▸ hshows.drawn, hlinks ▸ hshows.recorded⟩
  · intro huntold
    refine View.get?_projectAll_of_others fun event hmem hlink => ?_
    rcases List.mem_append.mp hmem with hmem | hmem
    · exact huntold ((htells id).mp ⟨event, hmem, hlink⟩)
    · cases (link?_findings s' event hmem).symm.trans hlink

/-- **How a load replaces links**: those that are listed are drawn and remembered as they are
listed; of the others nothing is left if they were there, and if they were not, they stay as they
were. -/
structure Replaces (content : Content) (s t : Session Canvas) : Prop where
  listed : ∀ link ∈ content.links, t.view.surface.links.get? link.id = some link ∧
    t.view.bridge.shapes.get? link.id = some (.ofLink link)
  gone : ∀ id, id ∉ content.links.map (·.id) → (s.graph.links.get? id).isSome →
    t.view.surface.links.get? id = none ∧ t.view.bridge.shapes.get? id = none
  stays : ∀ id, id ∉ content.links.map (·.id) → s.graph.links.get? id = none →
    t.view.surface.links.get? id = s.view.surface.links.get? id ∧
      t.view.bridge.shapes.get? id = s.view.bridge.shapes.get? id

/-- A link is drawn or remembered that the document does not list. -/
def Stray (content : Content) (t : Session Canvas) (id : LinkId) : Prop :=
  id ∉ content.links.map (·.id) ∧
    ((t.view.surface.links.get? id).isSome ∨ (t.view.bridge.shapes.get? id).isSome)

/-- **Drawing and records have just the links of the document.** -/
def ShowsJust (content : Content) (t : Session Canvas) : Prop :=
  t.view.surface.links = content.toGraph.links ∧
    t.view.bridge.shapes = content.toGraph.links.map .ofLink

/-- **A load replaces the links.** -/
theorem load_replaces (hrest : s.AtRest catalogue) (hrecords : s.Records fun _ => True)
    (hok : ((load content).exec s).1 = .ok ()) : Replaces content s ((load content).exec s).2 := by
  have hnodup := (exists_load hrest hok).1.links_nodup
  have hshows := load_shows hrest hrecords hok
  refine ⟨fun link hmem => ?_, fun id hunlisted hthere => ?_, fun id hunlisted hnone => ?_⟩
  · have hget : content.toGraph.links.get? link.id = some link :=
      (Dict.get?_ofList_of_nodup hnodup).mpr ⟨hmem, rfl⟩
    have hshown := (hshows link.id).1 (.inr (List.mem_map_of_mem hmem))
    refine ⟨hshown.drawn.trans hget, hshown.recorded.trans ?_⟩
    rw [hget]
    rfl
  · have hgone : content.toGraph.links.get? id = none := by
      rw [← Option.not_isSome_iff_eq_none]
      exact fun hsome => hunlisted ((Dict.isSome_get?_ofList_of_nodup hnodup).mp hsome)
    have hshown := (hshows id).1 (.inl hthere)
    refine ⟨hshown.drawn.trans hgone, hshown.recorded.trans ?_⟩
    rw [hgone]
    rfl
  · exact (hshows id).2 (not_or.mpr ⟨Option.not_isSome_iff_eq_none.mpr hnone, hunlisted⟩)

/-- Where only listed links are drawn or remembered, just the links of the document are. -/
theorem Replaces.showsJust {t : Session Canvas} (h : Replaces content s t)
    (hnodup : (content.links.map (·.id)).Nodup) (hstray : ∀ id, ¬ t.Stray content id) :
    t.ShowsJust content := by
  have hboth (id : LinkId) : t.view.Shows content.toGraph id := by
    cases hget : content.toGraph.links.get? id with
    | some link =>
      obtain ⟨hmem, rfl⟩ := (Dict.get?_ofList_of_nodup hnodup).mp hget
      obtain ⟨hdrawn, hrecorded⟩ := h.listed link hmem
      refine ⟨hdrawn.trans hget.symm, hrecorded.trans ?_⟩
      rw [hget]
      rfl
    | none =>
      have hunlisted : id ∉ content.links.map (·.id) := fun hlisted => by
        have hsome := (Dict.isSome_get?_ofList_of_nodup hnodup).mpr hlisted
        rw [show (Dict.ofList _).get? id = none from hget] at hsome
        cases hsome
      have hneither := not_or.mp fun hleft => hstray id ⟨hunlisted, hleft⟩
      refine ⟨(Option.not_isSome_iff_eq_none.mp hneither.1).trans hget.symm,
        (Option.not_isSome_iff_eq_none.mp hneither.2).trans ?_⟩
      rw [hget]
      rfl
  refine ⟨Dict.ext_get? fun id => (hboth id).drawn, Dict.ext_get? fun id => ?_⟩
  rw [Dict.get?_map]
  exact (hboth id).recorded

/-- A link that is not there is neither drawn nor remembered, or it is named. -/
theorem Depicts.stray {named : LinkId → Prop} (h : s.Depicts named) {id : LinkId}
    (hnone : s.graph.links.get? id = none) :
    s.view.surface.links.get? id = none ∧ s.view.bridge.shapes.get? id = none ∨ named id := by
  obtain ⟨r, hheld, hdraws⟩ := h
  have hlink : r.links.get? id = none := by rw [hheld.links, hnone]
  rcases hdraws.links id, hdraws.shapes id with ⟨hdrawn | ⟨-, hnamed⟩, hshape | hshape | hnamed⟩
  · exact .inl ⟨hdrawn.trans hlink, hshape⟩
  · rw [hlink] at hdrawn hshape
    exact .inl ⟨hdrawn, hshape⟩
  all_goals exact .inr hnamed

/-- After every run the canvas depicts the graph, but for links that some gesture has named, if the
host does not draw on it. -/
theorem depicts_after (catalogue : Catalogue) (settings : Settings) (clock : Nat → Nat)
    (echo : Bool) (calls : List (Call Canvas))
    (huses : ∀ call ∈ calls, ∀ use, call.Uses use →
      ∀ canvas : Canvas, canvas.SameDrawing (use canvas)) :
    let opened := start catalogue settings clock (Canvas.empty echo)
    (opened.after calls).Depicts fun id => ∃ gesture, gesture.Names id ∧
      opened.Ever (fun s call => call.Hands s gesture) calls := by
  intro opened
  -- An empty canvas draws the empty graph.
  have hopened : opened.Depicts fun id => ∃ gesture, gesture.Names id ∧
      opened.Ever (fun s call => call.Hands s gesture) calls :=
    ⟨.empty, Graph.heldAs_self _, rfl, fun _ => rfl, rfl, fun _ hid => (nomatch hid),
      fun _ => .inl rfl, fun _ => .inl rfl⟩
  have hstages : Stages (fun gesture => opened.Ever (fun s call => call.Hands s gesture) calls)
      (fun use => ∃ call ∈ calls, call.Uses use) opened (opened.after calls) :=
    after_stages_of (fun _ hever => hever) fun call hmem use huse => ⟨call, hmem, huse⟩
  refine hstages.depicts (fun gesture hhanded id hnames => ⟨gesture, hnames, hhanded⟩) ?_
    (atRest_start ..) hopened
  rintro use ⟨call, hmem, huse⟩
  exact huses call hmem use huse

/-- What is left that is not listed was not there, and is named. -/
theorem Replaces.stray {t : Session Canvas} {named : LinkId → Prop} (h : Replaces content s t)
    (hdepicts : s.Depicts named) {id : LinkId} (hstray : t.Stray content id) :
    s.graph.links.get? id = none ∧ named id := by
  obtain ⟨hunlisted, hleft⟩ := hstray
  have hsome : ¬ (t.view.surface.links.get? id = none ∧ t.view.bridge.shapes.get? id = none) := by
    rintro ⟨hdrawn, hrecorded⟩
    rw [hdrawn, hrecorded] at hleft
    exact hleft.elim nofun nofun
  have hnone : s.graph.links.get? id = none :=
    Option.not_isSome_iff_eq_none.mp fun hthere => hsome (h.gone id hunlisted hthere)
  refine ⟨hnone, (hdepicts.stray hnone).resolve_left fun hnothing => hsome ?_⟩
  obtain ⟨hdrawn, hrecorded⟩ := h.stays id hunlisted hnone
  exact ⟨hdrawn.trans hnothing.1, hrecorded.trans hnothing.2⟩

/-- A fresh session loads any document that can be loaded, and shows just its links. -/
theorem load_start (hwf : content.WellFormed catalogue) (settings : Settings) (clock : Nat → Nat)
    (echo : Bool) : let fresh := (load content).exec (start catalogue settings clock (.empty echo))
    fresh.1 = .ok () ∧ fresh.2.ShowsJust content := by
  intro fresh
  have hrest := atRest_start catalogue settings clock (Canvas.empty echo)
  have hok : fresh.1 = .ok () := (load_eq_ok_iff hrest rfl).mpr hwf
  have hreplaces := load_replaces hrest (fun _ _ hget => nomatch hget) hok
  have hdepicts := depicts_after catalogue settings clock echo [] fun _ hmem => nomatch hmem
  refine ⟨hok, hreplaces.showsJust hwf.links_nodup fun id hstray => ?_⟩
  obtain ⟨-, gesture, -, hever⟩ := hreplaces.stray hdepicts hstray
  exact hever

/-- **What is left of the links after a load**, in every session that can be reached.  Each link of
the document is drawn and remembered as it is listed; of the other links that were there nothing is
left; and any other shape stays as it was.  If nobody else draws on the canvas, a shape that stays
is one that some gesture has drawn or dragged; so where each link that a gesture has named is there
or listed, just the links of the document are left, as in a fresh session that has loaded it. -/
theorem leftover_after (catalogue : Catalogue) (settings : Settings) (clock : Nat → Nat)
    (surface : Canvas) (calls : List (Call Canvas)) (content : Content)
    (hok : ((load content).exec ((start catalogue settings clock surface).after calls)).1 =
      .ok ()) :
    let opened := start catalogue settings clock surface
    let s := opened.after calls
    let t := ((load content).exec s).2
    let named (id : LinkId) := ∃ gesture, gesture.Names id ∧
      opened.Ever (fun s call => call.Hands s gesture) calls
    Replaces content s t ∧
    ∀ echo, surface = Canvas.empty echo → (∀ call ∈ calls, ∀ use, call.Uses use →
        ∀ canvas : Canvas, canvas.SameDrawing (use canvas)) →
      (∀ id, t.Stray content id → named id) ∧
      ((∀ id, named id → (s.graph.links.get? id).isSome ∨ id ∈ content.links.map (·.id)) →
        t.ShowsJust content ∧ ∀ settings' clock' echo',
          let fresh := (load content).exec (start catalogue settings' clock' (Canvas.empty echo'))
          fresh.1 = .ok () ∧ t.view.surface.links = fresh.2.view.surface.links ∧
            t.view.bridge.shapes = fresh.2.view.bridge.shapes) := by
  intro opened s t named
  have hrest : s.AtRest catalogue := atRest_after catalogue settings clock surface calls
  have hrecords : s.Records fun _ => True :=
    records_after (atRest_start ..) (fun _ _ hget => nomatch hget) fun _ _ => trivial
  have hwf : content.WellFormed catalogue := (exists_load hrest hok).1
  have hreplaces : Replaces content s t := load_replaces hrest hrecords hok
  refine ⟨hreplaces, fun echo hsurface huses => ?_⟩
  subst hsurface
  have hdepicts : s.Depicts named := depicts_after catalogue settings clock echo calls huses
  refine ⟨fun id hstray => (hreplaces.stray hdepicts hstray).2, fun hnamed => ?_⟩
  have hjust : t.ShowsJust content := by
    refine hreplaces.showsJust hwf.links_nodup fun id hstray => ?_
    obtain ⟨hnone, hname⟩ := hreplaces.stray hdepicts hstray
    have hthere := (hnamed id hname).resolve_right hstray.1
    rw [hnone] at hthere
    cases hthere
  refine ⟨hjust, fun settings' clock' echo' => ?_⟩
  obtain ⟨hfresh, hlinks, hshapes⟩ := load_start hwf settings' clock' echo'
  exact ⟨hfresh, hjust.1.trans hlinks.symm, hjust.2.trans hshapes.symm⟩

/-- A link is dragged loose, and then a document is loaded that lists another: the listed one is
drawn, and the loose shape has stayed, for a gesture has named it. -/
theorem leftover_after_loose :
    let scan : Operator := ⟨"scan", "Scan", "1", .object [], [], [⟨"output-0", ""⟩], false⟩
    let sink : Operator := ⟨"sink", "Sink", "1", .object [], [⟨"input-0", ""⟩], [], false⟩
    let link (id : LinkId) : Link := ⟨id, ⟨"scan", "output-0"⟩, ⟨"sink", "input-0"⟩⟩
    let content : Content := ⟨[scan, sink], ∅, [link "m"], ∅⟩
    let calls : List (Call Canvas) := [.act (.addAll [(scan, .origin), (sink, .origin)] [link "l"]),
      .handleGesture (.linkEndMoved "l" .target (.loose .origin))]
    let opened := start (.ofMetadata ⟨[⟨"Scan", .object [], ⟨"Scan", none, "Input", 0, 1⟩, "1"⟩,
        ⟨"Sink", .object [], ⟨"Sink", none, "Output", 1, 0⟩, "1"⟩], []⟩)
      .initial id (Canvas.empty true)
    let t := ((load content).exec (opened.after calls)).2
    ((load content).exec (opened.after calls)).1 = .ok () ∧
      t.view.surface.links.get? "m" = some (link "m") ∧
      t.view.surface.links.get? "l" = some (link "l") ∧
      ∃ gesture, gesture.Names "l" ∧ opened.Ever (fun s call => call.Hands s gesture) calls := by
  intro scan sink link content calls opened t
  have hok : ((load content).exec (opened.after calls)).1 = .ok () := by decide +kernel
  have hleft : t.view.surface.links.get? "l" = some (link "l") := by decide +kernel
  have huses : ∀ call ∈ calls, ∀ use, call.Uses use →
      ∀ canvas : Canvas, canvas.SameDrawing (use canvas) := by
    intro call hmem use huse
    simp only [calls, List.mem_cons, List.not_mem_nil, or_false] at hmem
    rcases hmem with rfl | rfl <;> exact huse.elim
  have hstray : t.Stray content "l" := ⟨by decide, .inl (Option.isSome_of_eq_some hleft)⟩
  obtain ⟨hreplaces, hdrawn⟩ := leftover_after _ .initial id (Canvas.empty true) calls content hok
  have hlisted : Replaces content (opened.after calls) t := hreplaces
  exact ⟨hok, (hlisted.listed (link "m") List.mem_cons_self).1, hleft,
    (hdrawn true rfl huses).1 "l" hstray⟩

/-- **Loading does not take loose shapes away.**  A link is dragged loose, and then a document
without links is loaded: its shape is drawn and remembered still, where a fresh session shows no
link. -/
theorem not_replaced_loose :
    let op (id type : String) (inputs outputs : List Port) : Operator :=
      ⟨id, type, "1", .object [], inputs, outputs, false⟩
    let scan := op "scan" "Scan" [] [⟨"output-0", ""⟩]
    let sink := op "sink" "Sink" [⟨"input-0", ""⟩] []
    let link : Link := ⟨"l", ⟨"scan", "output-0"⟩, ⟨"sink", "input-0"⟩⟩
    let content : Content := ⟨[op "other" "Scan" [] [⟨"output-0", ""⟩]], ∅, [], ∅⟩
    let opened := start (.ofMetadata ⟨[⟨"Scan", .object [], ⟨"Scan", none, "Input", 0, 1⟩, "1"⟩,
        ⟨"Sink", .object [], ⟨"Sink", none, "Output", 1, 0⟩, "1"⟩], []⟩)
      .initial id (Canvas.empty false)
    let loaded := (load content).exec (opened.after
      [.act (.addAll [(scan, .origin), (sink, .origin)] [link]),
        .handleGesture (.linkEndMoved "l" .target (.loose .origin))])
    let fresh := (load content).exec opened
    loaded.1 = .ok () ∧ fresh.1 = .ok () ∧ loaded.2.graph = fresh.2.graph ∧
      loaded.2.view.surface.links.get? "l" = some link ∧
      loaded.2.view.bridge.shapes.get? "l" = some ⟨.port link.source, .loose .origin⟩ ∧
      fresh.2.view.surface.links.get? "l" = none ∧ fresh.2.view.bridge.shapes.get? "l" = none ∧
      loaded.2.view.surface.links ≠ content.toGraph.links := by
  intro op scan sink link content opened loaded fresh
  refine ⟨?_, ?_, ?_, ?_, ?_, ?_, ?_, ?_⟩ <;> decide +kernel

end Session

end PipelineEditor
