import PipelineEditor.Proofs.Drawing
import PipelineEditor.Proofs.Refusal

/-!
# What a canvas shows

A canvas that nobody else draws on shows the pipeline after every call, however it got there: event
by event, by a redraw, or with gestures in between.  Gestures change what is remembered of a link
before the graph follows, or without it following at all; so a link that was drawn or dragged by
hand may stay on the canvas though it is not there.  No other link does.

## Main definitions

* `Gesture.Names id`: the gesture draws a link by hand, or drags an end of it
* `Session.Depicts named s`: the canvas draws the graph, but for links that are named
* `Session.Drawn named s`: what can be seen of this

## Main results

* `View.Draws.forward`: gestures leave the drawing alone, but for the links that they name
* `Session.Stage.depicts`: each stage keeps the canvas in step
* `Session.drawn_after`: after every run the canvas shows the pipeline
-/

namespace PipelineEditor

/-- The gesture draws the link by hand, or drags an end of it. -/
def Gesture.Names (id : LinkId) : Gesture → Prop
  | linkDrawn drawn .. => drawn = id
  | linkEndMoved moved .. => moved = id
  | _ => False

/-! ## Gestures -/

namespace View.Draws

variable {named : LinkId → Prop} {view : View Canvas} {g r : Graph}

theorem dropShape (h : view.Draws named r) (id : LinkId) :
    Draws named { view with bridge := view.bridge.dropShape id } r := by
  refine ⟨h.operators, h.disabled, h.highlighted, h.highlighted_operator, h.links, fun other => ?_⟩
  show (view.bridge.shapes.erase id).get? other = none ∨
    (view.bridge.shapes.erase id).get? other = _ ∨ _
  rw [Dict.get?_erase]
  split
  · exact .inl rfl
  · exact h.shapes other

theorem dropShapes (h : view.Draws named r) (ids : List LinkId) :
    Draws named { view with bridge := ids.foldl Bridge.dropShape view.bridge } r := by
  induction ids generalizing view with
  | nil => exact h
  | cons id rest ih => exact ih (h.dropShape id)

/-- A shape may be remembered if it is that of the link, or the link is named. -/
theorem setShape (h : view.Draws named r) {id : LinkId} {shape : LinkShape}
    (hshape : some shape = (r.links.get? id).map .ofLink ∨ named id) :
    Draws named { view with bridge := view.bridge.setShape id shape } r := by
  refine ⟨h.operators, h.disabled, h.highlighted, h.highlighted_operator, h.links, fun other => ?_⟩
  show (view.bridge.shapes.insert id shape).get? other = none ∨
    (view.bridge.shapes.insert id shape).get? other = _ ∨ _
  rw [Dict.get?_insert]
  split
  · rename_i heq
    subst heq
    exact .inr hshape
  · exact h.shapes other

/-- Shapes that are put back to what the graph says are those of the links. -/
theorem restoreShapes (h : view.Draws named r) (hlinks : r.links = g.links) (ids : List LinkId) :
    Draws named { view with bridge := ids.foldl (Bridge.restoreShape g) view.bridge } r := by
  induction ids generalizing view with
  | nil => exact h
  | cons id rest ih =>
    have hfirst : Draws named { view with bridge := view.bridge.restoreShape g id } r := by
      unfold Bridge.restoreShape
      cases hget : g.links.get? id with
      | none => exact h.dropShape id
      | some link =>
        refine h.setShape (.inl ?_)
        rw [hlinks, hget]
        rfl
    exact ih hfirst

/-- What a gesture is lifted to leaves the shapes of links alone that it does not name. -/
theorem lift (h : view.Draws named r) {gesture : Gesture}
    (hnames : ∀ id, gesture.Names id → named id) :
    Draws named { view with bridge := (view.bridge.lift g gesture).2 } r := by
  unfold Bridge.lift
  split
  · exact h
  · cases gesture with
    | linkDrawn id source target => exact h.setShape (.inr (hnames id rfl))
    | linkEndMoved id moved destination =>
      dsimp only
      split
      · exact h.setShape (.inr (hnames id rfl))
      · exact h
    | shapeDeleted id => exact h
    | linkShapeDeleted id => exact h.dropShape id
    | shapesDeleted operators links => exact h.dropShapes links
    | shapeMoved id position =>
      dsimp only
      split <;> exact h

/-- **Gestures leave the drawing alone, but for the links that they name**, whether what they ask is
done or refused. -/
theorem forward (h : view.Draws named r) {e : Editor} (hidle : e.bundled = none)
    (hwf : e.graph.WellFormed e.catalogue) (hlinks : r.links = e.graph.links) {gesture : Gesture}
    (hnames : ∀ id, gesture.Names id → named id) :
    Draws named { view with bridge := (view.bridge.forward e gesture).2.1 } r := by
  have hlifted := h.lift (g := e.graph) hnames
  unfold Bridge.forward
  dsimp only
  rcases hexec : (Intent.performAll (view.bridge.lift e.graph gesture).1).exec e with
    ⟨cause | _, e'⟩
  · -- What was to be done is refused, so the graph to go back to is the one from before.
    have hgraph : e'.graph = e.graph := (Intent.performAll_refused hidle hwf hexec).1
    exact hlifted.restoreShapes (hgraph ▸ hlinks) _
  · exact hlifted

end View.Draws

/-! ## Sessions -/

namespace Validation

/-- The events that tell of all findings. -/
def verdicts (v : Validation) : List Event :=
  v.results.toList.map fun entry =>
    .operatorValidityChanged entry.1 entry.2.isValid entry.2.errors

theorem stream_verdicts (v : Validation) :
    ∀ event ∈ v.verdicts, event.stream = .propagation ∨ event.stream = .validation := by
  intro event hmem
  obtain ⟨entry, -, rfl⟩ := List.mem_map.mp hmem
  exact .inr rfl

end Validation

namespace Session

/-- **What is handed on can have happened to the graph**, and leads to the graph as it is now. -/
theorem settle_admits {σ : Type} {s s' : Session σ} {catalogue : Catalogue} {r : Graph}
    (hrest : s.AtRest catalogue) (hworked : s.editor.Worked s'.editor) (hheld : s.graph.HeldAs r) :
    r.Admits (s'.editor.draft.announced ++ s'.findings) ∧
      s'.graph.HeldAs (r.followAll (s'.editor.draft.announced ++ s'.findings)) := by
  have hsteps := hrest.steps hworked
  have hwf : (Draft.start s.graph).graph.WellFormed catalogue := hrest.wellFormed
  have hstart : (Draft.start s.graph).graph.HeldAs
    (r.followAll (Draft.start s.graph).announced) := hheld
  have hquiet : ∀ event ∈ s'.findings, event.isOfGraph = false := fun event hmem =>
    Event.isOfGraph_of_stream (.inr (stream_findings s' event hmem))
  -- The findings come last, when the graph is what it will be, and they leave it alone.
  refine ⟨Graph.admits_append.mpr ⟨hsteps.admits hwf hstart trivial,
    Graph.admits_of_stream fun event hmem => .inr (stream_findings s' event hmem)⟩, ?_⟩
  rw [Graph.followAll_append, Graph.followAll_of_not_isOfGraph hquiet]
  exact hsteps.follow hwf hstart

variable {named : LinkId → Prop} {s s' : Session Canvas} {catalogue : Catalogue} {r : Graph}

/-- **The canvas draws the graph**, with positions alike, but for links that are named. -/
def Depicts (named : LinkId → Prop) (s : Session Canvas) : Prop :=
  ∃ r, s.graph.HeldAs r ∧ s.view.Draws named r

/-- As events are handed on, the canvas follows the graph. -/
theorem depicts_settle (hrest : s.AtRest catalogue) (hworked : s.editor.Worked s'.editor)
    (hheld : s.graph.HeldAs r) (hdraws : s'.view.Draws named r) : s'.settle.Depicts named := by
  obtain ⟨hadmits, hheld'⟩ := settle_admits hrest hworked hheld
  have hshown := hdraws.projectAll hadmits
  rw [← settle_view] at hshown
  refine ⟨_, ?_, hshown⟩
  rw [settle_graph]
  exact hheld'

/-- Events that do not come from the graph leave what is drawn of it. -/
theorem Depicts.dispatch (h : s.Depicts named) {events : List Event}
    (hquiet : ∀ event ∈ events, event.isOfGraph = false)
    (hsuits : ∀ r, r.operators = s.graph.operators → ∀ event ∈ events, event.Suits r) :
    (s.dispatch events).Depicts named := by
  obtain ⟨r, hheld, hdraws⟩ := h
  have hadmits := Graph.admits_of_not_isOfGraph hquiet (hsuits r hheld.operators)
  have hshown := hdraws.projectAll hadmits
  rw [Graph.followAll_of_not_isOfGraph hquiet] at hshown
  exact ⟨r, hheld, hshown⟩

/-- A redraw draws the graph, and then the findings. -/
theorem redraw_view (s : Session Canvas) :
    s.redraw.view = s.validation.verdicts.foldl View.project (s.view.redraw s.graph) := by
  unfold redraw Validation.verdicts
  rw [List.foldl_map]
  rfl

theorem draws_redraw (h : s.graph.Coherent) (named : LinkId → Prop) :
    s.redraw.view.Draws named s.graph := by
  have hstream := s.validation.stream_verdicts
  have hdraws := (View.draws_redraw h named s.view).projectAll (Graph.admits_of_stream hstream)
  rw [Graph.followAll_of_not_isOfGraph fun event hmem =>
    Event.isOfGraph_of_stream (hstream event hmem)] at hdraws
  rw [redraw_view]
  exact hdraws

/-- Findings are not remembered by the bridge. -/
theorem redraw_bridge {σ : Type} [Surface σ] (s : Session σ) :
    s.redraw.view.bridge = (s.view.redraw s.graph).bridge := by
  have hfold (entries : List (OperatorId × Findings)) (view : View σ) :
      (entries.foldl (fun view entry => view.draw (Surface.setValidity entry.1 entry.2.isValid))
        view).bridge = view.bridge := by
    induction entries generalizing view with
    | nil => rfl
    | cons entry rest ih => exact ih _
  exact hfold _ _

/-- **Each stage keeps the canvas in step with the graph**, if the host does not draw on it. -/
theorem Stage.depicts {gestures : Gesture → Prop} {uses : (Canvas → Canvas) → Prop}
    (hnames : ∀ gesture, gestures gesture → ∀ id, gesture.Names id → named id)
    (huses : ∀ use, uses use → ∀ canvas : Canvas, canvas.SameDrawing (use canvas))
    (hrest : s.AtRest catalogue) (h : s.Depicts named) (hstage : Stage gestures uses s s') :
    s'.Depicts named := by
  obtain ⟨r, hheld, hdraws⟩ := h
  cases hstage with
  | edit hworked => exact depicts_settle hrest hworked hheld hdraws
  | gesture hgesture =>
    exact depicts_settle hrest (Bridge.forward_worked ..) hheld
      (hdraws.forward hrest.idle hrest.sound.graph hheld.links (hnames _ hgesture))
  | tell hevents =>
    exact Depicts.dispatch ⟨r, hheld, hdraws⟩
      (fun event hmem => Event.isOfGraph_of_stream (.inl (hevents event hmem)))
      fun r _ event hmem => Event.suits_of_stream (.inl (hevents event hmem)) r
  | exchange => exact ⟨r, hheld, hdraws⟩
  | highlight ids =>
    rcases highlight_cases ids s with heq | heq <;> rw [heq]
    · exact ⟨r, hheld, hdraws⟩
    · refine Depicts.dispatch ⟨r, hheld, hdraws⟩ (by simp [Event.isOfGraph])
        fun r hops event hmem => ?_
      obtain rfl := List.mem_singleton.mp hmem
      -- Only operators that are there are highlighted.
      intro id hid
      have hthere := (Bool.and_eq_true_iff.mp (List.mem_filter.mp hid).2).1
      rw [hops]
      exact hthere
  | unhighlight ids =>
    rcases unhighlight_cases ids s with heq | heq <;> rw [heq]
    · exact ⟨r, hheld, hdraws⟩
    · exact Depicts.dispatch ⟨r, hheld, hdraws⟩ (by simp [Event.isOfGraph])
        (by simp [Event.Suits])
  | redraw => exact ⟨s.graph, Graph.heldAs_self _, draws_redraw hrest.wellFormed.toCoherent named⟩
  | use huse => exact ⟨r, hheld, hdraws.congr (huses _ huse s.view.surface)⟩
  | takeGestures => exact ⟨r, hheld, hdraws.congr ⟨rfl, rfl, rfl, rfl, rfl⟩⟩
  | setReplaying =>
    exact ⟨r, hheld, hdraws.operators, hdraws.disabled, hdraws.highlighted,
      hdraws.highlighted_operator, hdraws.links, hdraws.shapes⟩

theorem Stages.depicts {gestures : Gesture → Prop} {uses : (Canvas → Canvas) → Prop}
    (hnames : ∀ gesture, gestures gesture → ∀ id, gesture.Names id → named id)
    (huses : ∀ use, uses use → ∀ canvas : Canvas, canvas.SameDrawing (use canvas))
    (hrest : s.AtRest catalogue) (h : s.Depicts named) (hstages : Stages gestures uses s s') :
    s'.Depicts named :=
  hstages.invariant (fun hrest h hstage => hstage.depicts hnames huses hrest h) hrest h

/-! ## What can be seen -/

/-- **The canvas shows the pipeline**: operators stand where they do, if all coordinates are
numbers; their flags are drawn, and highlights only on operators that are there; every link is drawn
between its ends, and no other but links that are named. -/
structure Drawn (named : LinkId → Prop) (s : Session Canvas) : Prop where
  operators : s.content.IsNumeric → ∀ id, Option.Rel (fun p q => Point.same p q = true)
    (s.graph.positions.get? id) (s.view.surface.operators.get? id)
  disabled : ∀ id, s.view.surface.disabled.contains id = true ↔
    ∃ op, s.graph.operators.get? id = some op ∧ op.disabled = true
  highlighted : s.view.surface.highlighted = s.view.bridge.highlighted
  highlighted_operator : ∀ id, s.view.surface.highlighted.contains id = true →
    s.graph.hasOperator id = true
  link : ∀ id link, s.graph.links.get? id = some link → s.view.surface.links.get? id = some link
  stray : ∀ id link, s.view.surface.links.get? id = some link →
    s.graph.links.get? id = some link ∨ named id

theorem Depicts.drawn (h : s.Depicts named) (hcoherent : s.graph.Coherent) : s.Drawn named := by
  obtain ⟨r, hheld, hdraws⟩ := h
  refine ⟨fun hnumeric id => ?_, fun id => ?_, hdraws.highlighted, fun id hid => ?_,
    fun id link hget => ?_, fun id link hget => ?_⟩
  · have hpositions : s.content.positions = s.graph.positions :=
      Content.positions_ofGraph hcoherent.operator_id hcoherent.position_iff
    have hnumbers : s.graph.IsNumeric := fun {id p} hget =>
      hnumeric id p ((congrArg (·.get? id) hpositions).trans hget)
    rw [hdraws.operators]
    exact hheld.same_position hnumbers id
  · rw [hdraws.disabled id, hheld.operators]
    exact Option.any_eq_true ..
  · rw [hdraws.highlighted] at hid
    have hsome := hdraws.highlighted_operator id hid
    rw [hheld.operators] at hsome
    exact hsome
  · rw [← hheld.links] at hget
    exact hdraws.get?_links hget
  · rw [← hheld.links]
    rcases hdraws.links id with heq | ⟨-, hnamed⟩
    · exact .inl (heq.symm.trans hget)
    · exact .inr hnamed

/-- Where no link is named, what a canvas shows is what a redraw would show. -/
theorem Depicts.eq_redraw (h : s.Depicts named) (hcoherent : s.graph.Coherent)
    (hnone : ∀ id, ¬ named id) : s.view.surface.links = s.redraw.view.surface.links ∧
      s.view.surface.disabled = s.redraw.view.surface.disabled ∧
      s.view.surface.highlighted = s.redraw.view.surface.highlighted := by
  obtain ⟨r, hheld, hdraws⟩ := h
  have hredrawn := draws_redraw hcoherent named
  refine ⟨Dict.ext_get? fun id => ?_, NameSet.ext_contains fun id => ?_, ?_⟩
  · have hlink {view : View Canvas} {g : Graph} (hview : view.Draws named g) :
        view.surface.links.get? id = g.links.get? id :=
      (hview.links id).resolve_right fun hstray => hnone id hstray.2
    rw [hlink hdraws, hlink hredrawn, hheld.links]
  · rw [hdraws.disabled, hredrawn.disabled, hheld.operators]
  · rw [hdraws.highlighted, hredrawn.highlighted, redraw_bridge, View.redraw_highlighted]
    -- All that is highlighted is there, so the redraw keeps it.
    refine (NameSet.filterKeys_eq_self fun id hid => ?_).symm
    have hsome := hdraws.highlighted_operator id hid
    rw [hheld.operators] at hsome
    exact hsome

/-- **After every run the canvas shows the pipeline**, if the host does not draw on it: it shows
links that are not there only where some gesture has drawn them by hand or dragged an end of them.
So where there was no such gesture, it shows what a redraw would show. -/
theorem drawn_after (catalogue : Catalogue) (settings : Settings) (clock : Nat → Nat) (echo : Bool)
    (calls : List (Call Canvas))
    (huses : ∀ call ∈ calls, ∀ use, call.Uses use →
      ∀ canvas : Canvas, canvas.SameDrawing (use canvas)) :
    let start := start catalogue settings clock (Canvas.empty echo)
    let s := start.after calls
    let named (id : LinkId) := ∃ gesture, gesture.Names id ∧
      start.Ever (fun s call => call.Hands s gesture) calls
    s.Drawn named ∧ ((∀ id, ¬ named id) →
      (s.content.IsNumeric → ∀ id, Option.Rel (fun p q => Point.same p q = true)
        (s.redraw.view.surface.operators.get? id) (s.view.surface.operators.get? id)) ∧
      s.view.surface.links = s.redraw.view.surface.links ∧
      s.view.surface.disabled = s.redraw.view.surface.disabled ∧
      s.view.surface.highlighted = s.redraw.view.surface.highlighted) := by
  intro start s named
  -- An empty canvas draws the empty graph.
  have hstart : start.Depicts named :=
    ⟨.empty, Graph.heldAs_self _, rfl, fun _ => rfl, rfl, fun _ hid => (nomatch hid),
      fun _ => .inl rfl, fun _ => .inl rfl⟩
  have hrest := atRest_after catalogue settings clock (Canvas.empty echo) calls
  have hcoherent : s.graph.Coherent := hrest.wellFormed.toCoherent
  have hstages : Stages (fun gesture => start.Ever (fun s call => call.Hands s gesture) calls)
      (fun use => ∃ call ∈ calls, call.Uses use) start s :=
    after_stages_of (fun _ hever => hever) fun call hmem use huse => ⟨call, hmem, huse⟩
  have hdepicts : s.Depicts named := by
    refine hstages.depicts (fun gesture hhanded id hnames => ⟨gesture, hnames, hhanded⟩) ?_
      (atRest_start ..) hstart
    rintro use ⟨call, hmem, huse⟩
    exact huses call hmem use huse
  have hdrawn := hdepicts.drawn hcoherent
  refine ⟨hdrawn, fun hnone => ⟨fun hnumeric id => ?_, hdepicts.eq_redraw hcoherent hnone⟩⟩
  -- A redraw takes the positions as they are, and what was drawn before is alike.
  have hredrawn : s.redraw.view.surface.operators = s.graph.positions :=
    (draws_redraw hcoherent named).operators
  rw [hredrawn]
  exact hdrawn.operators hnumeric id

/-- The end of a link is dragged loose: the link is taken away and its shape stays, for a gesture
has named it. -/
theorem drawn_after_loose :
    let scan : Operator := ⟨"scan", "Scan", "1", .object [], [], [⟨"output-0", ""⟩], false⟩
    let sink : Operator := ⟨"sink", "Sink", "1", .object [], [⟨"input-0", ""⟩], [], false⟩
    let link : Link := ⟨"l", ⟨"scan", "output-0"⟩, ⟨"sink", "input-0"⟩⟩
    let drag : Gesture := .linkEndMoved "l" .target (.loose .origin)
    let calls : List (Call Canvas) := [.act (.addAll [(scan, .origin), (sink, .origin)] [link]),
      .useSurface (Canvas.report drag), .processGestures]
    let start := start (.ofMetadata ⟨[⟨"Scan", .object [], ⟨"Scan", none, "Input", 0, 1⟩, "1"⟩,
        ⟨"Sink", .object [], ⟨"Sink", none, "Output", 1, 0⟩, "1"⟩], []⟩)
      .initial id (Canvas.empty true)
    let s := start.after calls
    (∀ call ∈ calls, ∀ use, call.Uses use → ∀ canvas : Canvas, canvas.SameDrawing (use canvas)) ∧
      s.graph.links.get? "l" = none ∧ s.view.surface.links.get? "l" = some link ∧
      ∃ gesture, gesture.Names "l" ∧ start.Ever (fun s call => call.Hands s gesture) calls := by
  intro scan sink link drag calls start s
  have huses : ∀ call ∈ calls, ∀ use, call.Uses use →
      ∀ canvas : Canvas, canvas.SameDrawing (use canvas) := by
    intro call hmem use huse canvas
    simp only [calls, List.mem_cons, List.not_mem_nil, or_false] at hmem
    rcases hmem with rfl | rfl | rfl
    · cases huse
    · obtain rfl : use = Canvas.report drag := huse
      exact ⟨rfl, rfl, rfl, rfl, rfl⟩
    · cases huse
  have hgone : s.graph.links.get? "l" = none := by decide +kernel
  have hshown : s.view.surface.links.get? "l" = some link := by decide +kernel
  have hdrawn : s.Drawn fun id => ∃ gesture, gesture.Names id ∧
      start.Ever (fun s call => call.Hands s gesture) calls := (drawn_after _ _ _ _ calls huses).1
  refine ⟨huses, hgone, hshown, (hdrawn.stray "l" link hshown).resolve_left fun hlink => ?_⟩
  cases hlink.symm.trans hgone

end Session

end PipelineEditor
