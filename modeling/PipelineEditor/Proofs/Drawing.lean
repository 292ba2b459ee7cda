import PipelineEditor.Proofs.Subscriber

/-!
# Drawings

A canvas follows the graph event by event, and can be drawn anew from the graph.  The two come to
the same, for a redraw shows the events that would build the graph up from nothing.  So there is one
argument for both: as long as each event can have happened to the graph so far, who shows it goes on
drawing the graph.  Only links with a shape of their own are left to the user.

## Main definitions

* `Graph.Admits r events`: the events can have happened to the graph, one after the other
* `View.Draws named view r`: the view draws the graph, but for links that are named
* `Graph.story`: the events that build a graph up

## Main results

* `Draft.Steps.admits`: what steps announce can have happened
* `View.Draws.projectAll`: who shows what can have happened goes on drawing the graph
* `View.redraw_eq`: a redraw shows the story of the graph on a cleared canvas
-/

namespace PipelineEditor

/-! ## Events that can have happened -/

/-- The event can have happened to a graph: what it adds is not there, and what it takes away or
changes is. -/
def Event.Suits (r : Graph) : Event → Prop
  | .operatorAdded op _ => r.operators.get? op.id = none
  | .linkDeleted link => r.links.get? link.id = some link
  | .operatorDisabledChanged id _ => (r.operators.get? id).isSome
  | .operatorsHighlighted ids => ∀ id ∈ ids, (r.operators.get? id).isSome
  | _ => True

/-- What belongs to the streams of the inference service and of the checks suits any graph. -/
theorem Event.suits_of_stream {event : Event}
    (h : event.stream = .propagation ∨ event.stream = .validation) (r : Graph) :
    event.Suits r := by
  cases event <;> first | trivial | simp [stream] at h

namespace Graph

variable {g g' r : Graph} {events more : List Event}

/-- **The events can have happened to the graph**, each after those before it. -/
def Admits (r : Graph) : List Event → Prop
  | [] => True
  | event :: rest => event.Suits r ∧ (r.follow event).Admits rest

theorem admits_append :
    r.Admits (events ++ more) ↔ r.Admits events ∧ (r.followAll events).Admits more := by
  induction events generalizing r with
  | nil => simp [Admits, followAll]
  | cons event rest ih =>
    show event.Suits r ∧ (r.follow event).Admits (rest ++ more) ↔ _
    rw [ih, ← and_assoc]
    rfl

/-- Events of other kinds happen to any graph. -/
theorem admits_of_not_isOfGraph (h : ∀ event ∈ events, event.isOfGraph = false)
    (hsuits : ∀ event ∈ events, event.Suits r) : r.Admits events := by
  induction events with
  | nil => trivial
  | cons event rest ih =>
    have hfollow : r.follow event = r := follow_of_not_isOfGraph (h event List.mem_cons_self) r
    refine ⟨hsuits event List.mem_cons_self, ?_⟩
    rw [hfollow]
    exact ih (fun other hmem => h other (List.mem_cons_of_mem _ hmem)) fun other hmem =>
      hsuits other (List.mem_cons_of_mem _ hmem)

theorem admits_of_stream
    (h : ∀ event ∈ events, event.stream = .propagation ∨ event.stream = .validation) :
    r.Admits events :=
  admits_of_not_isOfGraph (fun event hmem => Event.isOfGraph_of_stream (h event hmem))
    fun event hmem => Event.suits_of_stream (h event hmem) r

/-- Links of different names can be taken away one after the other. -/
theorem admits_linksDeleted {links : List Link} (hnodup : (links.map (·.id)).Nodup)
    (hstored : ∀ link ∈ links, r.links.get? link.id = some link) :
    r.Admits (links.map .linkDeleted) := by
  induction links generalizing r with
  | nil => trivial
  | cons link rest ih =>
    obtain ⟨hfresh, hrest⟩ := List.nodup_cons.mp hnodup
    refine ⟨hstored link List.mem_cons_self, ih hrest fun other hmem => ?_⟩
    have hne : link.id ≠ other.id := fun heq => hfresh (List.mem_map.mpr ⟨other, hmem, heq.symm⟩)
    show (r.links.erase link.id).get? other.id = some other
    rw [Dict.get?_erase, if_neg hne]
    exact hstored other (List.mem_cons_of_mem _ hmem)

end Graph

/-- What a mutation announces can have happened. -/
theorem Mutation.admits {m : Mutation} {g g' r : Graph} {events : List Event} (h : g.Coherent)
    (hheld : g.HeldAs r) (hstep : m.step g = .ok (g', events)) : r.Admits events := by
  cases m with
  | addOperator op position =>
    obtain ⟨hfree, heq⟩ := Graph.addOperator_eq_ok_iff.mp hstep
    cases heq
    rw [← hheld.operators] at hfree
    exact ⟨hfree, trivial⟩
  | deleteOperator id =>
    obtain ⟨op, -, heq⟩ := Graph.deleteOperator_eq_ok_iff.mp hstep
    cases heq
    -- The links go first, each while it is there, and the operator goes last.
    refine Graph.admits_append.mpr ⟨Graph.admits_linksDeleted (h.nodup_linksAt id) ?_, trivial,
      trivial⟩
    intro link hmem
    rw [hheld.links]
    exact (h.mem_linksAt.mp hmem).1
  | addLink link =>
    obtain ⟨-, heq⟩ := Graph.addLink_eq_ok_iff.mp hstep
    cases heq
    exact ⟨trivial, trivial⟩
  | deleteLink id =>
    obtain ⟨link, hget, heq⟩ := Graph.deleteLink_eq_ok_iff.mp hstep
    cases heq
    obtain rfl := h.link_id hget
    rw [← hheld.links] at hget
    exact ⟨hget, trivial⟩
  | setProperties id properties =>
    obtain ⟨op, -, heq⟩ := Graph.setProperties_eq_ok_iff.mp hstep
    cases heq
    exact ⟨trivial, trivial⟩
  | setDisabled id disabled =>
    obtain ⟨op, hget, heq⟩ := Graph.setDisabled_eq_ok_iff.mp hstep
    cases heq
    split
    · -- A flag that is set already is not announced.
      trivial
    · refine ⟨?_, trivial⟩
      show (r.operators.get? id).isSome
      rw [hheld.operators, hget]
      rfl
  | setBreakpoint id breakpoint =>
    obtain ⟨-, heq⟩ := Graph.setBreakpoint_eq_ok_iff.mp hstep
    cases heq
    split
    · trivial
    · exact ⟨trivial, trivial⟩
  | setPosition id position =>
    obtain ⟨-, heq⟩ := Graph.setPosition_eq_ok_iff.mp hstep
    cases heq
    split
    · trivial
    · exact ⟨trivial, trivial⟩

namespace Draft

variable {catalogue : Catalogue} {d d' : Draft} {r : Graph}

theorem Step.admits (h : d.graph.Coherent) (hheld : d.graph.HeldAs (r.followAll d.announced))
    (hadmits : r.Admits d.announced) (hstep : Step catalogue d d') : r.Admits d'.announced := by
  cases hstep with
  | mutation m _ hm => exact Graph.admits_append.mpr ⟨hadmits, m.admits h hheld hm⟩
  | lock => exact Graph.admits_append.mpr ⟨hadmits, trivial, trivial⟩

/-- **What steps announce can have happened.** -/
theorem Steps.admits (h : d.graph.WellFormed catalogue)
    (hheld : d.graph.HeldAs (r.followAll d.announced)) (hadmits : r.Admits d.announced)
    (hsteps : Steps catalogue d d') : r.Admits d'.announced := by
  induction hsteps with
  | refl => exact hadmits
  | tail hbefore hstep ih =>
    exact hstep.admits (Steps.wellFormed h hbefore).toCoherent (Steps.follow h hheld hbefore) ih

end Draft

/-! ## Changes to a canvas -/

/-- Where all names are to be kept, nothing is dropped. -/
theorem NameSet.filterKeys_eq_self {names : NameSet} {keep : String → Bool}
    (h : ∀ name, names.contains name → keep name) : names.filterKeys keep = names := by
  refine Dict.eq_of_entries (List.filter_eq_self.mpr ?_)
  rintro ⟨name, value⟩ hmem
  refine h name ?_
  rw [Dict.contains_eq, Dict.mem_toList.mp hmem]
  rfl

namespace Canvas

/-- **The canvases show the same**, whatever gestures wait on them. -/
structure SameDrawing (canvas other : Canvas) : Prop where
  operators : other.operators = canvas.operators
  links : other.links = canvas.links
  highlighted : other.highlighted = canvas.highlighted
  disabled : other.disabled = canvas.disabled
  invalid : other.invalid = canvas.invalid

/-- Reporting an echo leaves the drawing as it is. -/
theorem sameDrawing_reportEcho (gesture : Gesture) (canvas : Canvas) :
    canvas.SameDrawing (canvas.reportEcho gesture) := by
  unfold reportEcho
  split <;> exact ⟨rfl, rfl, rfl, rfl, rfl⟩

/-- Removing a link leaves the drawing without it, whether it was drawn or not. -/
theorem sameDrawing_removeLink (id : LinkId) (canvas : Canvas) : SameDrawing
    { canvas with links := canvas.links.erase id } (Surface.removeLink id canvas) := by
  show SameDrawing _ (if canvas.links.contains id then _ else canvas)
  split
  · exact sameDrawing_reportEcho ..
  · rename_i hnone
    rw [Dict.contains_eq, Option.not_isSome_iff_eq_none] at hnone
    exact ⟨rfl, (Dict.erase_of_get?_eq_none hnone).symm, rfl, rfl, rfl⟩

theorem contains_mark (names : NameSet) (name other : String) (marked : Bool) :
    (mark names name marked).contains other =
      if name = other then marked else names.contains other := by
  unfold mark
  rw [Dict.contains_eq, Dict.contains_eq]
  cases marked with
  | false =>
    rw [if_neg Bool.false_ne_true, Dict.get?_erase]
    split <;> rfl
  | true =>
    rw [if_pos rfl, NameSet.add, Dict.get?_insert]
    split <;> rfl

end Canvas

namespace Graph

variable {g : Graph}

theorem get?_modifyOperator (id other : OperatorId) (change : Operator → Operator) :
    (g.modifyOperator id change).operators.get? other =
      if id = other then (g.operators.get? id).map change else g.operators.get? other := by
  unfold modifyOperator
  cases hget : g.operators.get? id with
  | none =>
    by_cases heq : id = other
    · simp [← heq, hget]
    · simp [heq]
  | some op => exact Dict.get?_insert ..

theorem modifyOperator_links (id : OperatorId) (change : Operator → Operator) :
    (g.modifyOperator id change).links = g.links := by
  unfold modifyOperator
  split <;> rfl

theorem modifyOperator_positions (id : OperatorId) (change : Operator → Operator) :
    (g.modifyOperator id change).positions = g.positions := by
  unfold modifyOperator
  split <;> rfl

end Graph

/-! ## Views that draw a graph -/

namespace View

/-- **The view draws the graph**: operators stand where they do, with their flags, and links are
drawn.  Links that are named may have shapes of their own, and may be drawn though they are not
there. -/
structure Draws (named : LinkId → Prop) (view : View Canvas) (r : Graph) : Prop where
  operators : view.surface.operators = r.positions
  disabled : ∀ id, view.surface.disabled.contains id = (r.operators.get? id).any (·.disabled)
  highlighted : view.surface.highlighted = view.bridge.highlighted
  highlighted_operator : ∀ id, view.bridge.highlighted.contains id →
    (r.operators.get? id).isSome
  links : ∀ id, view.surface.links.get? id = r.links.get? id ∨
    r.links.get? id = none ∧ named id
  shapes : ∀ id, view.bridge.shapes.get? id = none ∨
    view.bridge.shapes.get? id = (r.links.get? id).map .ofLink ∨ named id

namespace Draws

variable {named : LinkId → Prop} {view : View Canvas} {r : Graph}

/-- What a view draws is a matter of what it shows. -/
theorem congr (h : view.Draws named r) {canvas : Canvas}
    (hsame : view.surface.SameDrawing canvas) : Draws named { view with surface := canvas } r where
  operators := hsame.operators.trans h.operators
  disabled id := by
    rw [hsame.disabled]
    exact h.disabled id
  highlighted := hsame.highlighted.trans h.highlighted
  highlighted_operator := h.highlighted_operator
  links id := by
    rw [hsame.links]
    exact h.links id
  shapes := h.shapes

/-- A link that is there is drawn. -/
theorem get?_links (h : view.Draws named r) {id : LinkId} {link : Link}
    (hget : r.links.get? id = some link) : view.surface.links.get? id = some link := by
  rcases h.links id with heq | ⟨hnone, -⟩
  · exact heq.trans hget
  · cases hget.symm.trans hnone

/-! ### Operators -/

theorem operatorAdded (h : view.Draws named r) {op : Operator}
    (hfree : r.operators.get? op.id = none) (position : Point) :
    Draws named (view.drawOperator op position) (r.follow (.operatorAdded op position)) := by
  have hoperators : view.surface.operators.insert op.id position =
      r.positions.insert op.id position := by
    rw [h.operators]
  have hflag : view.surface.disabled.contains op.id = false := by
    rw [h.disabled op.id, hfree]
    rfl
  have hshown (id : OperatorId) (hid : view.bridge.highlighted.contains id) :
      ((r.operators.insert op.id op).get? id).isSome := by
    rw [Dict.get?_insert]
    split
    · rfl
    · exact h.highlighted_operator id hid
  unfold drawOperator
  dsimp only
  split
  · rename_i hdisabled
    refine ⟨hoperators, fun id => ?_, h.highlighted, hshown, h.links, h.shapes⟩
    show (Canvas.mark view.surface.disabled op.id true).contains id =
      ((r.operators.insert op.id op).get? id).any (·.disabled)
    rw [Canvas.contains_mark, Dict.get?_insert, h.disabled id]
    split
    · exact hdisabled.symm
    · rfl
  · rename_i henabled
    refine ⟨hoperators, fun id => ?_, h.highlighted, hshown, h.links, h.shapes⟩
    show view.surface.disabled.contains id =
      ((r.operators.insert op.id op).get? id).any (·.disabled)
    rw [Dict.get?_insert]
    split
    · -- The name was free, so no flag has been left under it.
      rename_i heq
      subst heq
      rw [hflag]
      simpa using henabled
    · exact h.disabled id

theorem operatorDeleted (h : view.Draws named r) (op : Operator) :
    Draws named (view.project (.operatorDeleted op)) (r.follow (.operatorDeleted op)) where
  operators := congrArg (·.erase op.id) h.operators
  disabled id := by
    show (view.surface.disabled.erase op.id).contains id =
      ((r.operators.erase op.id).get? id).any (·.disabled)
    have hflag := h.disabled id
    rw [Dict.contains_eq] at hflag ⊢
    rw [Dict.get?_erase, Dict.get?_erase]
    split
    · rfl
    · exact hflag
  highlighted := congrArg (·.erase op.id) h.highlighted
  highlighted_operator id hid := by
    have hleft : ((view.bridge.highlighted.erase op.id).get? id).isSome := hid
    show ((r.operators.erase op.id).get? id).isSome
    rw [Dict.get?_erase] at hleft ⊢
    -- What is highlighted still is another operator, for the highlight goes with this one.
    split
    · rename_i heq
      rw [if_pos heq] at hleft
      cases hleft
    · rename_i hne
      rw [if_neg hne] at hleft
      exact h.highlighted_operator id hleft
  links := h.links
  shapes := h.shapes

theorem operatorMoved (h : view.Draws named r) (id : OperatorId) (position : Point) :
    Draws named (view.project (.operatorMoved id position))
      (r.follow (.operatorMoved id position)) := by
  let moved : Canvas :=
    { view.surface with operators := view.surface.operators.insert id position }
  have hmoved : Draws named { view with surface := moved } (r.follow (.operatorMoved id position)) :=
    ⟨congrArg (·.insert id position) h.operators, h.disabled, h.highlighted,
      h.highlighted_operator, h.links, h.shapes⟩
  exact hmoved.congr (Canvas.sameDrawing_reportEcho _ moved)

/-- Where an operator that is there is changed, only its flag may have to be drawn. -/
theorem modifyOperator (h : view.Draws named r) (id : OperatorId) (change : Operator → Operator)
    {flags : NameSet} (hflags : ∀ other, flags.contains other =
      ((r.modifyOperator id change).operators.get? other).any (·.disabled)) :
    Draws named { view with surface := { view.surface with disabled := flags } }
      (r.modifyOperator id change) where
  operators := h.operators.trans (Graph.modifyOperator_positions ..).symm
  disabled := hflags
  highlighted := h.highlighted
  highlighted_operator other hother := by
    have hsome := h.highlighted_operator other hother
    rw [Graph.get?_modifyOperator]
    split
    · rename_i heq
      subst heq
      rwa [Option.isSome_map]
    · exact hsome
  links other := by
    rw [Graph.modifyOperator_links]
    exact h.links other
  shapes other := by
    rw [Graph.modifyOperator_links]
    exact h.shapes other

theorem operatorDisabledChanged (h : view.Draws named r) {id : OperatorId}
    (hop : (r.operators.get? id).isSome) (disabled : Bool) :
    Draws named (view.project (.operatorDisabledChanged id disabled))
      (r.follow (.operatorDisabledChanged id disabled)) := by
  obtain ⟨op, hget⟩ := Option.isSome_iff_exists.mp hop
  refine h.modifyOperator id (fun op => { op with disabled }) fun other => ?_
  rw [Canvas.contains_mark, Graph.get?_modifyOperator, hget, h.disabled other]
  split <;> rfl

theorem propertyChanged (h : view.Draws named r) (id : OperatorId) (old new : Json) :
    Draws named view (r.follow (.propertyChanged id old new)) := by
  refine h.modifyOperator id (fun op => { op with properties := new }) fun other => ?_
  rw [Graph.get?_modifyOperator, h.disabled other]
  split
  · rename_i heq
    rw [heq]
    cases r.operators.get? other <;> rfl
  · rfl

/-! ### Links -/

theorem linkAdded (h : view.Draws named r) (link : Link) :
    Draws named (view.drawLink link) (r.follow (.linkAdded link)) where
  operators := h.operators
  disabled := h.disabled
  highlighted := h.highlighted
  highlighted_operator := h.highlighted_operator
  links id := by
    show (view.surface.links.insert link.id link).get? id =
      (r.links.insert link.id link).get? id ∨ (r.links.insert link.id link).get? id = none ∧ named id
    rw [Dict.get?_insert, Dict.get?_insert]
    split
    · exact .inl rfl
    · exact h.links id
  shapes id := by
    show (view.bridge.shapes.insert link.id (.ofLink link)).get? id = none ∨
      (view.bridge.shapes.insert link.id (.ofLink link)).get? id =
        ((r.links.insert link.id link).get? id).map .ofLink ∨ named id
    rw [Dict.get?_insert, Dict.get?_insert]
    split
    · exact .inr (.inl rfl)
    · exact h.shapes id

/-- A link that is taken away is erased, unless it has a shape of its own. -/
theorem linkDeleted (h : view.Draws named r) {link : Link}
    (hget : r.links.get? link.id = some link) :
    Draws named (view.eraseLink link) (r.follow (.linkDeleted link)) := by
  have hlinks (id : LinkId) : (r.follow (.linkDeleted link)).links.get? id =
      if link.id = id then none else r.links.get? id := Dict.get?_erase ..
  unfold eraseLink
  dsimp only
  split
  · -- The shape is that of the link, so it goes with it, and the canvas may report as much.
    let erased : Canvas := { view.surface with links := view.surface.links.erase link.id }
    have herased : Draws named ⟨view.bridge.dropShape link.id, erased⟩
        (r.follow (.linkDeleted link)) := by
      refine ⟨h.operators, h.disabled, h.highlighted, h.highlighted_operator, fun id => ?_,
        fun id => ?_⟩
      · show (view.surface.links.erase link.id).get? id = _ ∨ _
        rw [hlinks, Dict.get?_erase]
        split
        · exact .inl rfl
        · exact h.links id
      · show (view.bridge.shapes.erase link.id).get? id = none ∨
          (view.bridge.shapes.erase link.id).get? id = _ ∨ _
        rw [hlinks, Dict.get?_erase]
        split
        · exact .inl rfl
        · exact h.shapes id
    exact herased.congr (Canvas.sameDrawing_removeLink link.id view.surface)
  · rename_i hloose
    -- Only a link that is named can have come loose.
    have hnamed : named link.id := by
      rcases h.shapes link.id with hnone | hshape | hnamed
      · simp [hnone] at hloose
      · simp [hshape, hget, LinkShape.ofLink, LinkShape.isOf, Anchor.port?] at hloose
      · exact hnamed
    refine ⟨h.operators, h.disabled, h.highlighted, h.highlighted_operator, fun id => ?_,
      fun id => ?_⟩
    · rw [hlinks]
      split
      · rename_i heq
        exact .inr ⟨rfl, heq ▸ hnamed⟩
      · exact h.links id
    · rw [hlinks]
      split
      · rename_i heq
        exact .inr (.inr (heq ▸ hnamed))
      · exact h.shapes id

/-! ### Highlights -/

theorem highlight (h : view.Draws named r) {id : OperatorId} {on : Bool}
    (hop : on = true → (r.operators.get? id).isSome) : Draws named (view.highlight id on) r where
  operators := h.operators
  disabled := h.disabled
  highlighted := congrArg (Canvas.mark · id on) h.highlighted
  highlighted_operator other hother := by
    have hmarked : (Canvas.mark view.bridge.highlighted id on).contains other = true := hother
    rw [Canvas.contains_mark] at hmarked
    split at hmarked
    · rename_i heq
      exact heq ▸ hop hmarked
    · exact h.highlighted_operator other hmarked
  links := h.links
  shapes := h.shapes

theorem highlightAll (h : view.Draws named r) {ids : List OperatorId} {on : Bool}
    (hops : on = true → ∀ id ∈ ids, (r.operators.get? id).isSome) :
    Draws named (ids.foldl (fun view id => view.highlight id on) view) r := by
  induction ids generalizing view with
  | nil => exact h
  | cons id rest ih =>
    refine ih (h.highlight fun hon => hops hon id List.mem_cons_self) fun hon other hmem => ?_
    exact hops hon other (List.mem_cons_of_mem _ hmem)

/-! ### Events -/

/-- **Who shows an event that can have happened goes on drawing the graph.** -/
theorem project (h : view.Draws named r) {event : Event} (hsuits : event.Suits r) :
    Draws named (view.project event) (r.follow event) := by
  cases event with
  | operatorAdded op position => exact h.operatorAdded hsuits position
  | operatorDeleted op => exact h.operatorDeleted op
  | linkAdded link => exact h.linkAdded link
  | linkDeleted link => exact h.linkDeleted hsuits
  | propertyChanged id old new => exact h.propertyChanged id old new
  | operatorDisabledChanged id disabled => exact h.operatorDisabledChanged hsuits disabled
  | operatorMoved id position => exact h.operatorMoved id position
  | operatorsHighlighted ids => exact h.highlightAll fun _ => hsuits
  | operatorsUnhighlighted ids => exact h.highlightAll fun hon => nomatch hon
  | breakpointChanged | operatorValidityChanged =>
    -- A canvas does not show breakpoints, and findings not among the rest.
    exact ⟨h.operators, h.disabled, h.highlighted, h.highlighted_operator, h.links, h.shapes⟩
  | operatorValidationCleared | modificationEnabledChanged | schemaOverlayChanged
  | propagationFailed => exact h

theorem projectAll {events : List Event} (h : view.Draws named r) (hadmits : r.Admits events) :
    Draws named (events.foldl View.project view) (r.followAll events) := by
  induction events generalizing view r with
  | nil => exact h
  | cons event rest ih =>
    obtain ⟨hsuits, hrest⟩ := hadmits
    exact ih (h.project hsuits) hrest

end Draws

end View

/-! ## Redraws -/

namespace Graph

/-- The events that put a link there with its breakpoint. -/
def linkStory (g : Graph) (link : Link) : List Event :=
  .linkAdded link ::
    (g.breakpoints.get? link.id).toList.map fun breakpoint =>
      .breakpointChanged link.id (some breakpoint)

/-- **The events that build a graph up from nothing**, in the order in which it is drawn. -/
def story (g : Graph) : List Event :=
  (g.operators.values.map fun op => .operatorAdded op (g.positionOf op.id)) ++
    g.links.values.flatMap g.linkStory

variable {g r : Graph}

theorem followAll_operatorsAdded (position : OperatorId → Point) (operators : List Operator) :
    r.followAll (operators.map fun op => .operatorAdded op (position op.id)) =
      { r with
        operators := r.operators.insertAll (operators.map fun op => (op.id, op))
        positions := r.positions.insertAll (operators.map fun op => (op.id, position op.id)) } := by
  induction operators generalizing r with
  | nil => rfl
  | cons op rest ih => exact ih

theorem followAll_linkStories (links : List Link) : r.followAll (links.flatMap g.linkStory) =
    { r with
      links := r.links.insertAll (links.map fun link => (link.id, link))
      breakpoints := r.breakpoints.insertAll (links.filterMap fun link =>
        (g.breakpoints.get? link.id).map (link.id, ·)) } := by
  induction links generalizing r with
  | nil => rfl
  | cons link rest ih =>
    rw [List.flatMap_cons, followAll_append, ih, linkStory]
    cases hget : g.breakpoints.get? link.id with
    | none =>
      rw [List.filterMap_cons_none (by simp [hget])]
      rfl
    | some breakpoint =>
      rw [List.filterMap_cons_some (by simp [hget]; rfl)]
      rfl

/-- The breakpoints on the links are all the breakpoints. -/
theorem Coherent.insertAll_breakpoints (h : g.Coherent) :
    (∅ : Dict Breakpoint).insertAll (g.links.values.filterMap fun link =>
      (g.breakpoints.get? link.id).map (link.id, ·)) = g.breakpoints := by
  let held (id : LinkId) : Breakpoint := (g.breakpoints.get? id).getD default
  have hvalues : ∀ entry ∈ g.links.values.filterMap fun link =>
      (g.breakpoints.get? link.id).map (link.id, ·), entry.2 = held entry.1 := by
    intro entry hmem
    obtain ⟨link, -, hentry⟩ := List.mem_filterMap.mp hmem
    obtain ⟨breakpoint, hget, rfl⟩ := Option.map_eq_some_iff.mp hentry
    simp [held, hget]
  have hkeys (id : LinkId) : id ∈ (g.links.values.filterMap fun link =>
      (g.breakpoints.get? link.id).map (link.id, ·)).map (·.1) ↔
        (g.breakpoints.get? id).isSome := by
    rw [List.mem_map, Option.isSome_iff_exists]
    constructor
    · rintro ⟨entry, hmem, rfl⟩
      obtain ⟨link, -, hentry⟩ := List.mem_filterMap.mp hmem
      obtain ⟨breakpoint, hget, rfl⟩ := Option.map_eq_some_iff.mp hentry
      exact ⟨breakpoint, hget⟩
    · -- A breakpoint is on a link that is there, so it is met along with that link.
      rintro ⟨breakpoint, hget⟩
      have hsome : (g.breakpoints.get? id).isSome := by simp [hget]
      obtain ⟨link, hlink⟩ := Option.isSome_iff_exists.mp (h.breakpoint_link hsome)
      obtain rfl := h.link_id hlink
      exact ⟨(link.id, breakpoint), List.mem_filterMap.mpr
        ⟨link, Dict.mem_values.mpr ⟨_, hlink⟩, by simp [hget]⟩, rfl⟩
  refine Dict.ext_get? fun id => ?_
  rw [Dict.get?_insertAll_of_eq hvalues]
  simp only [hkeys]
  cases hget : g.breakpoints.get? id with
  | none => rfl
  | some breakpoint => simp [held, hget]

/-- **Who follows the story of a graph holds the graph.** -/
theorem Coherent.followAll_story (h : g.Coherent) : empty.followAll g.story = g := by
  have hoperators : (∅ : Dict Operator).insertAll
      (g.operators.values.map fun op => (op.id, op)) = g.operators := by
    rw [Dict.map_values_toList h.operator_id, Dict.insertAll_toList]
  have hlinks : (∅ : Dict Link).insertAll (g.links.values.map fun link => (link.id, link)) =
      g.links := by
    rw [Dict.map_values_toList h.link_id, Dict.insertAll_toList]
  have hpositions : (∅ : Dict Point).insertAll
      (g.operators.values.map fun op => (op.id, g.positionOf op.id)) = g.positions :=
    Content.positions_ofGraph h.operator_id h.position_iff
  rw [story, followAll_append, followAll_operatorsAdded, followAll_linkStories]
  simp only [empty, hoperators, hlinks, hpositions, h.insertAll_breakpoints]

/-- Operators of different names can be added one after the other. -/
theorem admits_operatorsAdded (position : OperatorId → Point) {operators : List Operator}
    (hnodup : (operators.map (·.id)).Nodup)
    (hfree : ∀ op ∈ operators, r.operators.get? op.id = none) :
    r.Admits (operators.map fun op => .operatorAdded op (position op.id)) := by
  induction operators generalizing r with
  | nil => trivial
  | cons op rest ih =>
    obtain ⟨hfresh, hrest⟩ := List.nodup_cons.mp hnodup
    refine ⟨hfree op List.mem_cons_self, ih hrest fun other hmem => ?_⟩
    have hne : op.id ≠ other.id := fun heq => hfresh (List.mem_map.mpr ⟨other, hmem, heq.symm⟩)
    show (r.operators.insert op.id op).get? other.id = none
    rw [Dict.get?_insert, if_neg hne]
    exact hfree other (List.mem_cons_of_mem _ hmem)

theorem admits_linkStories (links : List Link) : r.Admits (links.flatMap g.linkStory) := by
  induction links generalizing r with
  | nil => trivial
  | cons link rest ih =>
    rw [List.flatMap_cons, admits_append]
    refine ⟨?_, ih⟩
    unfold linkStory
    cases g.breakpoints.get? link.id <;> simp [Admits, Event.Suits]

/-- The story of a graph can have happened. -/
theorem Coherent.admits_story (h : g.Coherent) : empty.Admits g.story := by
  have hnodup : (g.operators.values.map (·.id)).Nodup :=
    Dict.map_values h.operator_id ▸ g.operators.nodup_keys
  exact admits_append.mpr ⟨admits_operatorsAdded _ hnodup fun _ _ => rfl, admits_linkStories _⟩

end Graph

namespace View

variable {σ : Type} [Surface σ]

/-- A view of which all shapes and highlights have been removed. -/
def cleared (view : View σ) : View σ :=
  ⟨{ view.bridge with shapes := ∅, highlighted := ∅ }, Surface.clear view.surface⟩

/-- The view with other highlights remembered. -/
def withHighlights (highlighted : NameSet) (view : View σ) : View σ :=
  { view with bridge := { view.bridge with highlighted } }

omit [Surface σ] in
/-- What highlights are remembered plays no part in steps that leave them alone. -/
theorem foldl_withHighlights {α : Type} {step : View σ → α → View σ} (highlighted : NameSet)
    (h : ∀ view item, step (view.withHighlights highlighted) item =
      (step view item).withHighlights highlighted) (items : List α) (view : View σ) :
    items.foldl step (view.withHighlights highlighted) =
      (items.foldl step view).withHighlights highlighted :=
  List.foldl_hom (withHighlights highlighted) h

theorem drawOperator_withHighlights (highlighted : NameSet) (op : Operator) (position : Point)
    (view : View σ) : (view.withHighlights highlighted).drawOperator op position =
      (view.drawOperator op position).withHighlights highlighted := by
  unfold drawOperator
  dsimp only
  split <;> rfl

theorem foldl_linkStory (g : Graph) (link : Link) (view : View σ) :
    (g.linkStory link).foldl project view = drawSaved g view link := by
  unfold Graph.linkStory drawSaved
  cases g.breakpoints.get? link.id <;> rfl

theorem drawSaved_withHighlights (highlighted : NameSet) (g : Graph) (view : View σ) (link : Link) :
    drawSaved g (view.withHighlights highlighted) link =
      (drawSaved g view link).withHighlights highlighted := by
  unfold drawSaved
  split <;> rfl

/-- To highlight operators is to draw them so, and to remember it. -/
theorem foldl_highlight (ids : List OperatorId) (view : View σ) :
    ids.foldl (fun view id => view.highlight id true) view =
      (ids.foldl (fun view id => view.draw (Surface.setHighlighted id true)) view).withHighlights
        (view.bridge.highlighted.insertAll (ids.map (·, ()))) := by
  induction ids generalizing view with
  | nil => rfl
  | cons id rest ih =>
    have hdraw (highlighted : NameSet) (view : View σ) :
        rest.foldl (fun view id => view.draw (Surface.setHighlighted id true))
          (view.withHighlights highlighted) =
        (rest.foldl (fun view id => view.draw (Surface.setHighlighted id true))
          view).withHighlights highlighted :=
      foldl_withHighlights highlighted (fun _ _ => rfl) rest view
    have hone : view.highlight id true =
        (view.draw (Surface.setHighlighted id true)).withHighlights
          (view.bridge.highlighted.add id) := rfl
    rw [List.foldl_cons, ih, hone, hdraw]
    rfl

/-- The story of a graph leaves highlights alone. -/
theorem foldl_story_withHighlights (g : Graph) (highlighted : NameSet) (view : View σ) :
    g.story.foldl project (view.withHighlights highlighted) =
      (g.story.foldl project view).withHighlights highlighted := by
  have hoperators : g.operators.values.foldl (fun (view : View σ) (op : Operator) =>
      view.drawOperator op (g.positionOf op.id)) (view.withHighlights highlighted) = _ :=
    foldl_withHighlights highlighted
      (fun view op => drawOperator_withHighlights highlighted op _ view) _ view
  have hlinks := foldl_withHighlights highlighted (drawSaved_withHighlights (σ := σ) highlighted g)
    g.links.values
  simp only [Graph.story, List.foldl_append, List.foldl_map, List.foldl_flatMap, foldl_linkStory]
  exact (congrArg (g.links.values.foldl (drawSaved g)) hoperators).trans (hlinks _)

/-- What a redraw does: it shows the story of the graph on a cleared canvas, and the highlights of
the operators that are there. -/
theorem redraw_eq_withHighlights (view : View σ) (g : Graph) :
    let kept := view.bridge.highlighted.filterKeys g.hasOperator
    view.redraw g = (kept.keys.foldl (fun view id => view.draw (Surface.setHighlighted id true))
      (g.story.foldl project view.cleared)).withHighlights kept := by
  intro kept
  -- The highlights to keep are remembered first; drawing operators and links leaves them alone.
  have hstory : g.links.values.foldl (drawSaved g) (g.operators.values.foldl
      (fun view op => view.drawOperator op (g.positionOf op.id))
      (view.cleared.withHighlights kept)) =
      g.story.foldl project (view.cleared.withHighlights kept) := by
    simp only [Graph.story, List.foldl_append, List.foldl_map, List.foldl_flatMap, foldl_linkStory]
    rfl
  have hhighlights (view : View σ) : kept.keys.foldl
      (fun view id => view.draw (Surface.setHighlighted id true)) (view.withHighlights kept) =
      (kept.keys.foldl (fun view id => view.draw (Surface.setHighlighted id true))
        view).withHighlights kept :=
    foldl_withHighlights kept (fun _ _ => rfl) kept.keys view
  rw [← hhighlights, ← foldl_story_withHighlights, ← hstory]
  rfl

/-- Of the highlights a redraw keeps those of operators that are there. -/
theorem redraw_highlighted (view : View σ) (g : Graph) : (view.redraw g).bridge.highlighted =
    view.bridge.highlighted.filterKeys g.hasOperator := by
  rw [redraw_eq_withHighlights]
  rfl

/-- **A redraw shows the story of the graph on a cleared canvas**, and then highlights operators. -/
theorem redraw_eq (view : View σ) (g : Graph) : view.redraw g =
    (g.story ++ [Event.operatorsHighlighted
      (view.bridge.highlighted.filterKeys g.hasOperator).keys]).foldl project view.cleared := by
  rw [redraw_eq_withHighlights, List.foldl_append]
  generalize view.bridge.highlighted.filterKeys g.hasOperator = kept
  have hnone : (g.story.foldl project view.cleared).bridge.highlighted = ∅ := by
    show (g.story.foldl project (view.cleared.withHighlights ∅)).bridge.highlighted = ∅
    rw [foldl_story_withHighlights]
    rfl
  have hkept : (∅ : NameSet).insertAll (kept.keys.map (·, ())) = kept := by
    have hentries : kept.keys.map (·, ()) = kept.toList :=
      List.map_map.trans (List.map_id _)
    rw [hentries, Dict.insertAll_toList]
  show _ = kept.keys.foldl (fun (view : View σ) id => view.highlight id true) _
  rw [foldl_highlight, hnone, hkept]

/-- **A redraw draws the graph**, whatever was drawn before. -/
theorem draws_redraw {g : Graph} (h : g.Coherent) (named : LinkId → Prop) (view : View Canvas) :
    (view.redraw g).Draws named g := by
  -- A cleared canvas draws the empty graph, and from there on the story is followed.
  have hcleared : view.cleared.Draws named .empty :=
    ⟨rfl, fun _ => rfl, rfl, fun _ hid => (nomatch hid), fun _ => .inl rfl, fun _ => .inl rfl⟩
  have hkept : Event.Suits g
      (.operatorsHighlighted (view.bridge.highlighted.filterKeys g.hasOperator).keys) := by
    intro id hmem
    obtain ⟨entry, hentry, rfl⟩ := List.mem_map.mp hmem
    exact (List.mem_filter.mp hentry).2
  have hdrawn := hcleared.projectAll h.admits_story
  rw [h.followAll_story] at hdrawn
  rw [redraw_eq, List.foldl_append]
  exact hdrawn.project hkept

end View

end PipelineEditor
