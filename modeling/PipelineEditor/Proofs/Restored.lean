import PipelineEditor.Proofs.Answer
import PipelineEditor.Proofs.Backlog
import PipelineEditor.Proofs.Leftover

/-!
# What a refused call leaves of the drawing

A call that is refused hands on all that it has announced: what it did, and what took that back.  On
a canvas that is in step with the graph the operators, the links and the flags come out as they
were.  Highlights and marks are no part of the graph: they go with an operator that is taken away,
and nothing brings them back along with it.  Nothing adds any either, whatever the canvas shows.

## Main definitions

* `Canvas.InStep canvas g`: operators, links and flags are drawn as the graph has them
* `Session.news s t`: what was published in between
* `View.Restored told view view'`: the drawing is as it was, but for what went with operators
* `Session.Retracted s t`: what was done has been taken back, and all of it has been handed on
* `Session.MarksNone s t`: no operator has been marked in between

## Main results

* `View.inStep_projectAll`: a canvas in step with the graph stays so as events are shown
* `Session.Retracted.restored`, `Session.Retracted.marksNone`: what is left of the drawing, and of
  the marks, once what was done has been taken back
* `Session.restored_after`: what a refused call leaves of the drawing, after every run
* `Session.marksNone_after`: a refused call marks no operator, after every run
* `Session.not_restored_highlight`: a refused call may lose a highlight
-/

namespace PipelineEditor

open Editor (MayReplay)

/-! ## Canvases in step -/

/-- **The canvas is in step with the graph**: operators stand where they do, with their flags, and
links are drawn, and nothing else is. -/
structure Canvas.InStep (canvas : Canvas) (g : Graph) : Prop where
  operators : ∀ id, Option.Rel Point.Alike (g.positions.get? id) (canvas.operators.get? id)
  links : canvas.links = g.links
  disabled : ∀ id, canvas.disabled.contains id = (g.operators.get? id).any (·.disabled)

/-- What is drawn of operators: where they stand, and which are disabled. -/
def Canvas.operatorShapes (canvas : Canvas) : Dict Point × NameSet :=
  (canvas.operators, canvas.disabled)

theorem Canvas.SameDrawing.operatorShapes {canvas other : Canvas} (h : canvas.SameDrawing other) :
    other.operatorShapes = canvas.operatorShapes :=
  Prod.ext h.operators h.disabled

namespace View

variable {view other : View Canvas} {g g' r : Graph} {event : Event} {events : List Event}

theorem operatorShapes_eraseLink (link : Link) (view : View Canvas) :
    (view.eraseLink link).surface.operatorShapes = view.surface.operatorShapes := by
  unfold eraseLink
  dsimp only
  split
  · exact (Canvas.sameDrawing_removeLink ..).operatorShapes
  · rfl

/-- What an event makes of the operators depends on what is drawn of operators. -/
theorem operatorShapes_project_congr
    (h : view.surface.operatorShapes = other.surface.operatorShapes) (event : Event) :
    (view.project event).surface.operatorShapes = (other.project event).surface.operatorShapes := by
  obtain ⟨hoperators, hdisabled⟩ := Prod.mk.inj h
  cases event with
  | operatorAdded op position =>
    unfold project drawOperator
    dsimp only
    split
    · exact Prod.ext (congrArg (·.insert op.id position) hoperators)
        (congrArg (Canvas.mark · op.id true) hdisabled)
    · exact Prod.ext (congrArg (·.insert op.id position) hoperators) hdisabled
  | operatorDeleted op =>
    exact Prod.ext (congrArg (·.erase op.id) hoperators) (congrArg (·.erase op.id) hdisabled)
  | operatorMoved id position =>
    have hmoved (view : View Canvas) :
        (view.project (.operatorMoved id position)).surface.operatorShapes =
          (view.surface.operators.insert id position, view.surface.disabled) :=
      (Canvas.sameDrawing_reportEcho ..).operatorShapes
    rw [hmoved, hmoved, hoperators, hdisabled]
  | operatorDisabledChanged id disabled =>
    exact Prod.ext hoperators (congrArg (Canvas.mark · id disabled) hdisabled)
  | linkDeleted link =>
    exact (operatorShapes_eraseLink link view).trans
      (h.trans (operatorShapes_eraseLink link other).symm)
  | operatorsHighlighted ids | operatorsUnhighlighted ids =>
    -- Highlights are drawn one by one, and none of them touches an operator's shape.
    let shapes (view : View Canvas) := view.surface.operatorShapes
    exact (highlightAll_eq (f := shapes) (fun _ _ => rfl) ids view).trans
      (h.trans (highlightAll_eq (f := shapes) (fun _ _ => rfl) ids other).symm)
  | _ => exact h

theorem operatorShapes_projectAll_congr
    (h : view.surface.operatorShapes = other.surface.operatorShapes) (events : List Event) :
    (events.foldl project view).surface.operatorShapes =
      (events.foldl project other).surface.operatorShapes := by
  induction events generalizing view other with
  | nil => exact h
  | cons event rest ih => exact ih (operatorShapes_project_congr h event)

/-- Operators are drawn as the graph has them, as long as the events can have happened to it. -/
theorem operatorShapes_projectAll (hadmits : r.Admits events)
    (hoperators : view.surface.operators = r.positions)
    (hdisabled : ∀ id, view.surface.disabled.contains id = (r.operators.get? id).any (·.disabled)) :
    let drawn := events.foldl project view
    drawn.surface.operators = (r.followAll events).positions ∧ ∀ id,
      drawn.surface.disabled.contains id =
        ((r.followAll events).operators.get? id).any (·.disabled) := by
  intro drawn
  -- Links and highlights play no part in it, so they may be such that the graph is drawn.
  let ideal : View Canvas :=
    ⟨{ view.bridge with shapes := ∅, highlighted := ∅ },
      { view.surface with links := r.links, highlighted := ∅ }⟩
  have hideal : ideal.Draws (fun _ => False) r :=
    ⟨hoperators, hdisabled, rfl, fun _ hid => (nomatch hid), fun _ => .inl rfl, fun _ => .inl rfl⟩
  have hdraws := hideal.projectAll hadmits
  obtain ⟨hsame, hflags⟩ := Prod.mk.inj
    (operatorShapes_projectAll_congr (show view.surface.operatorShapes =
      ideal.surface.operatorShapes from rfl) events)
  refine ⟨hsame.trans hdraws.operators, fun id => ?_⟩
  rw [show drawn.surface.disabled = _ from hflags]
  exact hdraws.disabled id

/-- A link that is drawn as the graph has it goes on to be, as long as its record is not another. -/
theorem links_projectAll (hadmits : r.Admits events) {id : LinkId}
    (hrecords : view.bridge.Records True r id)
    (hlink : view.surface.links.get? id = r.links.get? id) :
    (events.foldl project view).surface.links.get? id = (r.followAll events).links.get? id := by
  by_cases htold : ∃ event ∈ events, event.link? = some id
  · obtain ⟨event, hmem, hevent⟩ := htold
    exact (shows_projectAll_of_mem hrecords hadmits hmem hevent).drawn
  · have hothers : ∀ event ∈ events, event.link? ≠ some id := fun event hmem hevent =>
      htold ⟨event, hmem, hevent⟩
    rw [(get?_projectAll_of_others hothers).1, Graph.get?_links_followAll hothers, hlink]

/-- **A canvas in step with the graph stays so**, as events are shown that can have happened. -/
theorem inStep_projectAll (h : view.surface.InStep g)
    (hrecords : ∀ id, view.bridge.Records True g id)
    (hadmits : Graph.Admits { g with positions := view.surface.operators } events)
    (hheld : g'.HeldAs (Graph.followAll { g with positions := view.surface.operators } events)) :
    (events.foldl project view).surface.InStep g' := by
  obtain ⟨hoperators, hdisabled⟩ := operatorShapes_projectAll hadmits rfl h.disabled
  refine ⟨fun id => ?_, Dict.ext_get? fun id => ?_, fun id => ?_⟩
  · rw [hoperators]
    exact hheld.positions id
  · rw [links_projectAll hadmits (hrecords id) (congrArg (·.get? id) h.links), hheld.links]
  · rw [hdisabled, hheld.operators]

/-! ## Highlights -/

/-- Where no highlights are told of, an event takes those away that go with an operator. -/
theorem highlighted_project (hstream : event.stream ≠ .highlight) (view : View Canvas)
    (id : OperatorId) :
    let shown := view.project event
    shown.surface.highlighted.contains id =
        (view.surface.highlighted.contains id && !event.deletes id) ∧
      shown.bridge.highlighted.contains id =
        (view.bridge.highlighted.contains id && !event.deletes id) := by
  intro shown
  have hkept (h : event.deletes id = false)
      (hsurface : shown.surface.highlighted = view.surface.highlighted)
      (hbridge : shown.bridge.highlighted = view.bridge.highlighted) :
      shown.surface.highlighted.contains id =
          (view.surface.highlighted.contains id && !event.deletes id) ∧
        shown.bridge.highlighted.contains id =
          (view.bridge.highlighted.contains id && !event.deletes id) := by
    simp [h, hsurface, hbridge]
  cases event with
  | operatorDeleted op =>
    have herase (names : NameSet) : (names.erase op.id).contains id =
        (names.contains id && !Event.deletes id (.operatorDeleted op)) := by
      rw [Dict.contains_eq, Dict.contains_eq, Dict.get?_erase, Event.deletes]
      split <;> simp_all
    exact ⟨herase _, herase _⟩
  | operatorAdded op position =>
    refine hkept rfl ?_ ?_ <;> simp only [shown, project, drawOperator] <;> split <;> rfl
  | linkDeleted link =>
    refine hkept rfl ?_ ?_ <;> simp only [shown, project, eraseLink] <;> split
    · exact (Canvas.sameDrawing_removeLink ..).highlighted
    all_goals rfl
  | operatorMoved other position =>
    exact hkept rfl (Canvas.sameDrawing_reportEcho ..).highlighted rfl
  | operatorsHighlighted | operatorsUnhighlighted => exact absurd rfl hstream
  | _ => exact hkept rfl rfl rfl

theorem highlighted_projectAll (hstream : ∀ event ∈ events, event.stream ≠ .highlight)
    (view : View Canvas) (id : OperatorId) :
    let shown := events.foldl project view
    shown.surface.highlighted.contains id =
        (view.surface.highlighted.contains id && !events.any (Event.deletes id)) ∧
      shown.bridge.highlighted.contains id =
        (view.bridge.highlighted.contains id && !events.any (Event.deletes id)) := by
  induction events generalizing view with
  | nil => simp
  | cons event rest ih =>
    obtain ⟨hsurface, hbridge⟩ := highlighted_project (hstream event List.mem_cons_self) view id
    obtain ⟨hsurface', hbridge'⟩ :=
      ih (fun other hmem => hstream other (List.mem_cons_of_mem _ hmem)) (view.project event)
    rw [hsurface, Bool.and_assoc] at hsurface'
    rw [hbridge, Bool.and_assoc] at hbridge'
    rw [List.any_cons, Bool.not_or]
    exact ⟨hsurface', hbridge'⟩

/-! ## Drawings that are as they were -/

/-- **The drawing is as it was**, with positions alike, but for what goes with operators: where an
operator has been taken away, its highlight is gone, on the canvas and in memory.  Other operators
are marked as they were. -/
structure Restored (told : List Event) (view view' : View Canvas) : Prop where
  operators : ∀ id, Option.Rel Point.Alike (view.surface.operators.get? id)
    (view'.surface.operators.get? id)
  links : view'.surface.links = view.surface.links
  disabled : view'.surface.disabled = view.surface.disabled
  highlighted : ∀ id, view'.surface.highlighted.contains id =
    (view.surface.highlighted.contains id && !told.any (Event.deletes id))
  remembered : ∀ id, view'.bridge.highlighted.contains id =
    (view.bridge.highlighted.contains id && !told.any (Event.deletes id))
  marked : ∀ id, told.any (Event.deletes id) = false →
    view'.surface.invalid.contains id = view.surface.invalid.contains id

end View

namespace Canvas.InStep

variable {canvas canvas' : Canvas} {g : Graph}

/-- Two canvases in step with one graph draw operators alike. -/
theorem alike (h : canvas.InStep g) (h' : canvas'.InStep g) (id : OperatorId) :
    Option.Rel Point.Alike (canvas.operators.get? id) (canvas'.operators.get? id) := by
  have hbefore := h.operators id
  have hafter := h'.operators id
  generalize g.positions.get? id = position at hbefore hafter
  generalize canvas.operators.get? id = drawn at hbefore ⊢
  generalize canvas'.operators.get? id = drawn' at hafter ⊢
  cases hbefore with
  | none =>
    cases hafter
    exact .none
  | some halike =>
    cases hafter with
    | some halike' => exact .some (halike.symm.trans halike')

theorem disabled_eq (h : canvas.InStep g) (h' : canvas'.InStep g) :
    canvas'.disabled = canvas.disabled :=
  NameSet.ext_contains fun id => (h'.disabled id).trans (h.disabled id).symm

end Canvas.InStep

namespace Session

variable {s s' : Session Canvas} {catalogue : Catalogue} {α : Type}

/-! ## Handing on -/

/-- What was published in between. -/
def news (s t : Session Canvas) : List Event := t.published.drop s.published.length

/-- **The drawing is as it was**, but for what goes with operators that were taken away in
between. -/
def Restored (s t : Session Canvas) : Prop := s.view.Restored (s.news t) t.view

/-- **What is known of a session between calls**: it is at rest, its findings are current, and no
record of a link is another than that of the graph. -/
structure Known (catalogue : Catalogue) (s : Session Canvas) : Prop where
  rest : s.AtRest catalogue
  validated : s.Validated
  records : s.Records fun _ => True

/-- **The editor was worked on, and nothing has been handed on yet.**  Of the view no more than
records of shapes have changed. -/
structure Works (s s' : Session Canvas) : Prop where
  editor : s.editor.Worked s'.editor
  surface : s'.view.surface = s.view.surface
  highlighted : s'.view.bridge.highlighted = s.view.bridge.highlighted
  records : ∀ id, s'.view.bridge.Records True s.graph id
  validation : s'.validation = s.validation
  published : s'.published = s.published

/-- Where the graph is what it was, findings are no news. -/
theorem foldl_markAfter_findings (hvalidated : s.Validated)
    (hvalidation : s'.validation = s.validation) (hgraph : s'.graph = s.graph)
    (hcatalogue : s'.catalogue = s.catalogue) (id : OperatorId) (mark : Bool) :
    s'.findings.foldl (Event.markAfter id) mark = mark := by
  have hcurrent : s'.validation = .of s'.graph s'.catalogue := by
    rw [hvalidation, hgraph, hcatalogue]
    exact hvalidated.current
  unfold findings
  split
  · -- Checked again, the same graph gives the same results, so they are compared with themselves.
    have hsame : (s'.validation.refresh s'.graph s'.catalogue).2 =
        Validation.changed s'.validation.results s'.validation.results ++
          Validation.cleared s'.validation.results s'.validation.results := by
      conv_rhs => rw [hcurrent]
      conv_lhs => rw [hcurrent]
      rfl
    rw [hsame, Event.foldl_markAfter_differences]
    split
    · rename_i hget
      exact if_pos hget
    · rfl
  · rfl

namespace Works

/-- What is handed on tells of no highlights. -/
theorem stream_ne (h : s.Works s') (hrest : s.AtRest catalogue) :
    ∀ event ∈ s'.editor.draft.announced ++ s'.findings, event.stream ≠ .highlight := by
  intro event hmem hstream
  rcases List.mem_append.mp hmem with hmem | hmem
  · have heditor := hrest.isOfEditor h.editor event hmem
    cases event with
    | operatorsHighlighted | operatorsUnhighlighted =>
      simp [Event.isOfEditor, Event.isOfGraph, Event.stream] at heditor
    | _ => cases hstream
  · cases (stream_findings s' event hmem).symm.trans hstream

theorem news_eq (h : s.Works s') :
    s.news s'.settle = s'.editor.draft.announced ++ s'.findings := by
  unfold news
  rw [settle_published, h.published, List.drop_left]

/-- **As events are handed on, the canvas stays in step.** -/
theorem inStep (h : s.Works s') (hrest : s.AtRest catalogue)
    (hstep : s.view.surface.InStep s.graph) : s'.settle.view.surface.InStep s'.graph := by
  have hstep' : s'.view.surface.InStep s.graph := h.surface ▸ hstep
  have hheld : s.graph.HeldAs { s.graph with positions := s'.view.surface.operators } :=
    ⟨rfl, rfl, rfl, hstep'.operators⟩
  obtain ⟨hadmits, hheld'⟩ := settle_admits hrest h.editor hheld
  rw [settle_view]
  exact View.inStep_projectAll hstep' h.records hadmits hheld'

/-- **Where the graph is what it was, handing on marks nothing**: marks stay, but for those that go
with operators. -/
theorem marks_settle (h : s.Works s') (hknown : s.Known catalogue) (hgraph : s'.graph = s.graph)
    (id : OperatorId) : s'.settle.view.marks id =
      (s.view.marks id && !s'.editor.draft.announced.any (Event.deletes id)) := by
  have hcatalogue : s'.catalogue = s.catalogue := h.editor.evolves.1
  have hmarks : s'.view.marks id = s.view.marks id := congrArg (·.invalid.contains id) h.surface
  rw [settle_view, View.marks_projectAll, List.foldl_append,
    foldl_markAfter_findings hknown.validated h.validation hgraph hcatalogue,
    Event.foldl_markAfter_of_stream_ne (hknown.rest.stream_ne h.editor), hmarks]

/-- **Where the graph is what it was, so is the drawing** once events have been handed on. -/
theorem restored (h : s.Works s') (hknown : s.Known catalogue) (hgraph : s'.graph = s.graph)
    (hstep : s.view.surface.InStep s.graph) : s.Restored s'.settle := by
  have hafter := h.inStep hknown.rest hstep
  rw [hgraph] at hafter
  have hlit (id : OperatorId) := View.highlighted_projectAll (h.stream_ne hknown.rest) s'.view id
  rw [← settle_view, ← h.news_eq, h.surface, h.highlighted] at hlit
  -- Both canvases are in step with one graph; only highlights and marks have to be followed.
  refine ⟨hstep.alike hafter, hafter.links.trans hstep.links.symm, hstep.disabled_eq hafter,
    fun id => (hlit id).1, fun id => (hlit id).2, fun id hkept => ?_⟩
  rw [h.news_eq, List.any_append, Bool.or_eq_false_iff] at hkept
  show s'.settle.view.marks id = s.view.marks id
  rw [h.marks_settle hknown hgraph, hkept.1, Bool.not_false, Bool.and_true]

end Works

/-- **What was done has been taken back**: the editor was worked on and has the graph that it had,
and all that it announced on the way has been handed on.  Gestures that the canvas has reported may
have been dropped. -/
def Retracted (s t : Session Canvas) : Prop :=
  ∃ s', s.Works s' ∧ s'.graph = s.graph ∧ s'.settle.view.surface.SameDrawing t.view.surface ∧
    t.view.bridge.highlighted = s'.settle.view.bridge.highlighted ∧
    t.published = s'.settle.published

/-- No operator has been marked in between. -/
def MarksNone (s t : Session Canvas) : Prop :=
  ∀ id, t.view.marks id = true → s.view.marks id = true

theorem Works.retracted (h : s.Works s') (hgraph : s'.settle.graph = s.graph) :
    s.Retracted s'.settle :=
  ⟨s', h, (settle_graph s').symm.trans hgraph, ⟨rfl, rfl, rfl, rfl, rfl⟩, rfl, rfl⟩

namespace Retracted

variable {t : Session Canvas}

/-- **The drawing is as it was** if it was in step with the graph, but for what went with operators
on the way. -/
theorem restored (h : s.Retracted t) (hknown : s.Known catalogue)
    (hstep : s.view.surface.InStep s.graph) : s.Restored t := by
  obtain ⟨s', hworks, hgraph, hsame, hhighlighted, hpublished⟩ := h
  have hrestored : s.view.Restored (s.news s'.settle) s'.settle.view :=
    hworks.restored hknown hgraph hstep
  have hnews : s.news t = s.news s'.settle := congrArg (·.drop s.published.length) hpublished
  show s.view.Restored (s.news t) t.view
  rw [hnews]
  refine ⟨?_, hsame.links.trans hrestored.links, hsame.disabled.trans hrestored.disabled, ?_, ?_, ?_⟩
  · rw [hsame.operators]
    exact hrestored.operators
  · rw [hsame.highlighted]
    exact hrestored.highlighted
  · rw [hhighlighted]
    exact hrestored.remembered
  · rw [hsame.invalid]
    exact hrestored.marked

/-- **No operator has been marked**, whatever the canvas shows. -/
theorem marksNone (h : s.Retracted t) (hknown : s.Known catalogue) : s.MarksNone t := by
  obtain ⟨s', hworks, hgraph, hsame, -⟩ := h
  intro id hmark
  have hmarked : s'.settle.view.marks id = true :=
    (congrArg (·.contains id) hsame.invalid).symm.trans hmark
  rw [hworks.marks_settle hknown hgraph, Bool.and_eq_true] at hmarked
  exact hmarked.1

end Retracted

/-! ## Calls -/

theorem Known.handleGesture (h : s.Known catalogue) (gesture : Gesture) :
    ((handleGesture gesture).exec s).2.Known catalogue := by
  have hstage : Stage (fun _ => True) (fun _ => True) s
      ((Session.handleGesture gesture).exec s).2 := .gesture trivial
  exact ⟨hstage.atRest h.rest, hstage.validated h.rest h.validated,
    handleGesture_records h.rest h.records fun _ _ => trivial⟩

theorem Known.takeGestures (h : s.Known catalogue) : s.takeGestures.2.Known catalogue := by
  have hstage : Stage (fun _ => True) (fun _ => True) s s.takeGestures.2 := .takeGestures
  exact ⟨hstage.atRest h.rest, hstage.validated h.rest h.validated, h.records⟩

theorem Known.followEach (h : s.Known catalogue) (gestures : List Gesture) :
    (s.followEach gestures).Known catalogue := by
  induction gestures generalizing s with
  | nil => exact h
  | cons gesture rest ih => exact ih (h.handleGesture gesture)

theorem known_after (catalogue : Catalogue) (settings : Settings) (clock : Nat → Nat)
    (surface : Canvas) (calls : List (Call Canvas)) :
    ((start catalogue settings clock surface).after calls).Known catalogue where
  rest := atRest_after ..
  validated := (after_stages _ calls).validated (atRest_start ..) ⟨rfl, rfl⟩
  records := records_after (atRest_start ..) (fun _ _ hget => nomatch hget) fun _ _ => trivial

/-- A call to the editor that leaves the graph as it was has been taken back. -/
theorem Known.run_retracted (h : s.Known catalogue) {call : Attempt Editor α}
    (hworked : s.editor.Worked (call.exec s.editor).2)
    (hgraph : ((run call).exec s).2.graph = s.graph) : s.Retracted ((run call).exec s).2 := by
  have hworks : s.Works { s with editor := (call.exec s.editor).2 } :=
    ⟨hworked, rfl, rfl, h.records, rfl, rfl⟩
  exact hworks.retracted hgraph

theorem Known.act_retracted (h : s.Known catalogue) (action : Action) :
    s.IfRefused (run action.perform) s.Retracted := by
  have huntouched : s.IfRefused (run action.perform) s.Untouched := run_refused fun _ _ =>
    action.exec_refused h.rest.idle h.rest.sound.graph
  exact fun cause hcause => h.run_retracted (.of_program (.act action) s.editor)
    (huntouched cause hcause).1

/-- A bundle that replays nothing leaves pipeline and history as they were, if it is refused. -/
theorem bundle_refused (hrest : s.AtRest catalogue) {calls : Attempt Editor α}
    (hcalls : Program MayReplay calls)
    (hunreplayed : (calls.exec { s.editor with bundled := some [] }).2.history =
      s.editor.history) : s.IfRefused (bundle calls) s.Untouched := by
  refine run_refused fun cause e' hexec => ?_
  have hrecords := Editor.records_of_unreplayed hcalls hrest.idle hrest.sound.graph hunreplayed
  rw [hexec, Editor.noted_eq_nil hrest.idle hexec] at hrecords
  exact hrecords.nothing

theorem Known.bundle_retracted (h : s.Known catalogue) {calls : Attempt Editor α}
    (hcalls : Program MayReplay calls)
    (hunreplayed : (calls.exec { s.editor with bundled := some [] }).2.history =
      s.editor.history) : s.IfRefused (bundle calls) s.Retracted := by
  have hprogram : Program (fun _ => True) (Editor.bundle calls) :=
    .bundle (hcalls.mono fun _ _ => trivial)
  exact fun cause hcause => h.run_retracted (.of_program hprogram s.editor)
    (bundle_refused h.rest hcalls hunreplayed cause hcause).1

theorem Known.load_retracted (h : s.Known catalogue) (content : Content) :
    s.IfRefused (load content) s.Retracted := by
  have hprogram : Program (fun _ => True) (replaceBy content content.breakpoints.toList >>= fun _ =>
      modify Editor.clearHistory) :=
    .bind (program_replaceBy content _) fun _ => .clearHistory trivial
  exact fun cause hcause => h.run_retracted (.of_program hprogram s.editor)
    (load_refused h.rest content cause hcause).1

/-- **So has a gesture that is refused**: of what it has drawn only records of shapes are left. -/
theorem Known.gesture_retracted (h : s.Known catalogue) (gesture : Gesture) :
    s.IfRefused (Session.handleGesture gesture) s.Retracted := by
  intro cause hcause
  have hgraph := (handleGesture_refused h.rest gesture cause hcause).1
  have hrefused : (s.view.bridge.forward s.editor gesture).1 = .error cause := hcause
  have hworks : s.Works (s.forward gesture).2 := by
    refine ⟨Bridge.forward_worked .., rfl, (Bridge.forward_reshaped ..).highlighted,
      fun id link hget => ?_, rfl, rfl⟩
    rcases s.view.bridge.forward_cases s.editor gesture with
      ⟨e, -, hforward⟩ | ⟨cause', e, hexec, hforward⟩
    · rw [hforward] at hrefused
      cases hrefused
    · have hlifts : s.view.bridge.Lifts s.editor.graph gesture id link :=
        Bridge.lift_lifts hget gesture
      have hsame : e.graph = s.editor.graph :=
        (Intent.performAll_refused h.rest.idle h.rest.sound.graph hexec).1
      have hbridge : (s.forward gesture).2.view.bridge = _ := congrArg (·.2.1) hforward
      rw [hbridge, hsame]
      exact (hlifts.refused (h.records id) hget).imp_right fun hnone => ⟨hnone.1, trivial⟩
  exact hworks.retracted hgraph

/-- What the editor does in a replay is handed on to the canvas as it stands. -/
theorem Known.replay_works (h : s.Known catalogue) {call : Attempt Editor Bool}
    (hcall : Program (fun _ => True) call) :
    s.Works { s.setReplaying true with editor := (call.exec s.editor).2 } :=
  ⟨.of_program hcall s.editor, rfl, rfl, h.records, rfl, rfl⟩

/-- **A replay keeps the canvas in step.** -/
theorem Known.replay_inStep (h : s.Known catalogue) (hstep : s.view.surface.InStep s.graph)
    {call : Attempt Editor Bool} (hcall : Program (fun _ => True) call) :
    ((replay call).exec s).2.view.surface.InStep ((replay call).exec s).2.graph := by
  have hinStep := (h.replay_works hcall).inStep h.rest hstep
  rw [← settle_graph] at hinStep
  rw [exec_replay]
  exact ⟨hinStep.operators, hinStep.links, hinStep.disabled⟩

theorem Known.replay_retracted (h : s.Known catalogue) {call : Attempt Editor Bool}
    (hcall : Program (fun _ => True) call) (hkept : s.IfRefused (replay call) s.Untouched) :
    s.IfRefused (replay call) s.Retracted := by
  intro cause hcause
  have hgraph := (hkept cause hcause).1
  rw [exec_replay] at hgraph ⊢
  exact ⟨_, h.replay_works hcall, (settle_graph _).symm.trans hgraph, ⟨rfl, rfl, rfl, rfl, rfl⟩,
    rfl, rfl⟩

/-- While the pipeline is locked, a replay does nothing. -/
theorem Known.replay_retracted_of_locked (h : s.Known catalogue) {call : Attempt Editor Bool}
    (hcall : Program (fun _ => True) call) {c : Prop} {left : History}
    (hrefused : ∀ cause e', call.exec s.editor = (.error cause, e') →
      s.editor.enabled = false ∧ e' = s.editor ∨ s.editor.enabled = true ∧ c ∧ e'.history = left)
    (hlocked : s.editor.enabled = false) : s.IfRefused (replay call) s.Retracted := by
  refine h.replay_retracted hcall fun cause hcause => ?_
  rcases replay_drops hrefused cause hcause with ⟨-, huntouched⟩ | ⟨henabled, -⟩
  · exact huntouched
  · cases hlocked.symm.trans henabled

/-- Where no bundle replays anything, a replay that is refused does nothing. -/
theorem replays_retracted (catalogue : Catalogue) (settings : Settings) (clock : Nat → Nat)
    (surface : Canvas) {calls : List (Call Canvas)}
    (hcalls : ∀ call ∈ calls, call.Bundles fun control => ¬ MayReplay control) :
    let s := (start catalogue settings clock surface).after calls
    s.IfRefused undo s.Retracted ∧ s.IfRefused redo s.Retracted := by
  intro s
  have hknown : s.Known catalogue := known_after catalogue settings clock surface calls
  -- The editor is on a timeline, so a replay is refused only while the pipeline is locked.
  obtain ⟨line, hline⟩ := exists_holds_after catalogue settings clock surface hcalls
  exact ⟨hknown.replay_retracted (.undo trivial) (untouched_replay fun _ _ => hline.undo_refused),
    hknown.replay_retracted (.redo trivial) (untouched_replay fun _ _ => hline.redo_refused)⟩

/-- **Where gestures are processed up to one that is refused**, they end as that one does. -/
theorem exists_processed {cause : EditError} (hcause : (processGestures.exec s).1 = .error cause) :
    ∃ before last, Call.processGestures.follows s = before ++ [last] ∧
      (handleGesture last).exec (s.takeGestures.2.followEach before) =
        (.error cause, (processGestures.exec s).2) := by
  -- Either all gestures were followed, or those up to one that was refused.
  obtain ⟨hsession, ⟨⟨total, htotal⟩, -⟩ | ⟨cause', before, last, herror, hupTo, hlast⟩⟩ :=
    exec_foldlM_handleGesture s.takeGestures.1 0 s.takeGestures.2
  · cases htotal.symm.trans hcause
  · obtain rfl : cause' = cause := Except.error.inj (herror.symm.trans hcause)
    have hfollow : s.takeGestures.2.followEach (before ++ [last]) =
        ((handleGesture last).exec (s.takeGestures.2.followEach before)).2 := List.foldl_append
    have hprocessed : (processGestures.exec s).2 =
        ((handleGesture last).exec (s.takeGestures.2.followEach before)).2 :=
      (hsession.trans (congrArg _ hupTo)).trans hfollow
    exact ⟨before, last, hupTo, Prod.ext hlast hprocessed.symm⟩

theorem Known.processed_retracted (h : s.Known catalogue) {cause : EditError}
    (hcause : (processGestures.exec s).1 = .error cause) : ∃ before last,
      let u := s.takeGestures.2.followEach before
      Call.processGestures.follows s = before ++ [last] ∧
        (Session.handleGesture last).exec u = (.error cause, (processGestures.exec s).2) ∧
        u.Known catalogue ∧ u.Retracted (processGestures.exec s).2 := by
  obtain ⟨before, last, hfollows, hlast⟩ := exists_processed hcause
  have hbefore := h.takeGestures.followEach before
  have hretracted := hbefore.gesture_retracted last cause
  rw [hlast] at hretracted
  exact ⟨before, last, hfollows, hlast, hbefore, hretracted rfl⟩

/-! ## After every run -/

/-- A canvas that depicts the graph, with no link named, is in step with it. -/
theorem Depicts.inStep {named : LinkId → Prop} (h : s.Depicts named)
    (hnone : ∀ id, ¬ named id) : s.view.surface.InStep s.graph := by
  obtain ⟨r, hheld, hdraws⟩ := h
  refine ⟨fun id => ?_, Dict.ext_get? fun id => ?_, fun id => ?_⟩
  · rw [hdraws.operators]
    exact hheld.positions id
  · rw [← hheld.links]
    exact (hdraws.links id).resolve_right fun hstray => hnone id hstray.2
  · rw [hdraws.disabled, hheld.operators]

/-- **Canvases are in step** if the host does not draw on them, and no gesture has drawn a link by
hand or dragged an end of one. -/
theorem inStep_after (catalogue : Catalogue) (settings : Settings) (clock : Nat → Nat)
    (echo : Bool) (calls : List (Call Canvas))
    (huses : ∀ call ∈ calls, ∀ use, call.Uses use →
      ∀ canvas : Canvas, canvas.SameDrawing (use canvas)) :
    let opened := start catalogue settings clock (Canvas.empty echo)
    (∀ id gesture, gesture.Names id →
      ¬ opened.Ever (fun s call => call.Hands s gesture) calls) →
    (opened.after calls).view.surface.InStep (opened.after calls).graph := by
  intro opened hnames
  refine (depicts_after catalogue settings clock echo calls huses).inStep fun id hnamed => ?_
  obtain ⟨gesture, hgesture, hever⟩ := hnamed
  exact hnames id gesture hgesture hever

/-- **What a refused call leaves of the drawing**, in every session that can be reached and of which
the canvas is in step with the graph.  An action, a bundle in which nothing was replayed, a load or
a gesture leaves the drawing as it was, but for highlights and marks that went with an operator.  Of
gestures that are processed, the last is the one that is refused.  An undo or redo keeps the canvas
in step, and leaves the drawing as it was while the pipeline is locked, and always if no bundle has
replayed anything.  Answers are never refused. -/
theorem restored_after (catalogue : Catalogue) (settings : Settings) (clock : Nat → Nat)
    (surface : Canvas) (calls : List (Call Canvas))
    (hstep : ((start catalogue settings clock surface).after calls).view.surface.InStep
      ((start catalogue settings clock surface).after calls).graph) :
    let s := (start catalogue settings clock surface).after calls
    (∀ action : Action, s.IfRefused (run action.perform) s.Restored) ∧
    (∀ (α : Type) (edits : Attempt Editor α), Program (fun _ => False) edits →
      s.IfRefused (bundle edits) s.Restored) ∧
    (∀ (α : Type) (calls : Attempt Editor α), Program MayReplay calls →
      (calls.exec { s.editor with bundled := some [] }).2.history = s.editor.history →
      s.IfRefused (bundle calls) s.Restored) ∧
    (∀ content, s.IfRefused (load content) s.Restored) ∧
    (∀ gesture, s.IfRefused (handleGesture gesture) s.Restored) ∧
    (∀ cause, (processGestures.exec s).1 = .error cause → ∃ before last,
      let u := s.takeGestures.2.followEach before
      let t := (processGestures.exec s).2
      Call.processGestures.follows s = before ++ [last] ∧
        (handleGesture last).exec u = (.error cause, t) ∧
        (u.view.surface.InStep u.graph → u.Restored t)) ∧
    (s.IfRefused undo fun t => t.view.surface.InStep t.graph ∧
      (s.editor.enabled = false → s.Restored t)) ∧
    (s.IfRefused redo fun t => t.view.surface.InStep t.graph ∧
      (s.editor.enabled = false → s.Restored t)) ∧
    ((∀ call ∈ calls, call.Bundles fun control => ¬ MayReplay control) →
      s.IfRefused undo s.Restored ∧ s.IfRefused redo s.Restored) ∧
    ∀ outcome, ∃ applied, ((applyOutcome outcome).exec s).1 = .ok applied := by
  intro s
  have hknown : s.Known catalogue := known_after catalogue settings clock surface calls
  have hrestored (t : Session Canvas) (h : s.Retracted t) : s.Restored t := h.restored hknown hstep
  have hundo : Program (fun _ => True) Editor.undo := .undo trivial
  have hredo : Program (fun _ => True) Editor.redo := .redo trivial
  refine ⟨fun action => (hknown.act_retracted action).mono hrestored, fun α edits hedits => ?_,
    fun α calls hcalls hunreplayed => (hknown.bundle_retracted hcalls hunreplayed).mono hrestored,
    fun content => (hknown.load_retracted content).mono hrestored,
    fun gesture => (hknown.gesture_retracted gesture).mono hrestored, fun cause hcause => ?_,
    fun cause hcause => ⟨hknown.replay_inStep hstep hundo, fun hlocked => ?_⟩,
    fun cause hcause => ⟨hknown.replay_inStep hstep hredo, fun hlocked => ?_⟩, fun hcalls => ?_,
    applyOutcome_ok hknown.rest.idle⟩
  · -- Edits replay nothing.
    exact (hknown.bundle_retracted (hedits.mono fun _ hnever => hnever.elim)
      (Editor.unreplayed_of_edits hedits hknown.rest.sound.graph)).mono hrestored
  · obtain ⟨before, last, hfollows, hlast, hbefore, hretracted⟩ := hknown.processed_retracted hcause
    exact ⟨before, last, hfollows, hlast, hretracted.restored hbefore⟩
  · have hundone := hknown.replay_retracted_of_locked hundo (fun _ _ => Editor.undo_refused) hlocked
    exact hrestored _ (hundone cause hcause)
  · have hredone := hknown.replay_retracted_of_locked hredo (fun _ _ => Editor.redo_refused) hlocked
    exact hrestored _ (hredone cause hcause)
  · obtain ⟨hundone, hredone⟩ := replays_retracted catalogue settings clock surface hcalls
    exact ⟨hundone.mono hrestored, hredone.mono hrestored⟩

/-- Two operators are to be deleted of which one is not there: the other one is put back, and a
third has kept its highlight. -/
theorem restored_after_missing :
    let scan (id : OperatorId) : Operator := ⟨id, "Scan", "1", .object [], [], [], false⟩
    let delete : Action := .deleteAll ["b", "ghost"] []
    let s := (start (.ofMetadata ⟨[⟨"Scan", .object [], ⟨"Scan", none, "Input", 0, 0⟩, "1"⟩], []⟩)
      .initial id (Canvas.empty true)).after
        [.act (.addAll [(scan "a", .origin), (scan "b", .origin)] []), .highlight ["a"]]
    s.view.surface.InStep s.graph ∧
      ((run delete.perform).exec s).1 = .error (.notFound .operator "ghost") ∧
      (s.news ((run delete.perform).exec s).2).any (Event.deletes "b") = true ∧
      s.Restored ((run delete.perform).exec s).2 := by
  intro scan delete s
  have hstep : s.view.surface.InStep s.graph := by
    refine inStep_after _ .initial id true _ ?_ fun id gesture _ hever => ?_
    · simp [Call.Uses]
    · simp [Ever, Call.Hands] at hever
  have hrefused : ((run delete.perform).exec s).1 = .error (.notFound .operator "ghost") := by
    decide +kernel
  obtain ⟨hact, -⟩ := restored_after _ .initial id (Canvas.empty true) _ hstep
  exact ⟨hstep, hrefused, by decide +kernel, hact delete _ hrefused⟩

/-- **A refused call marks no operator**, in every session that can be reached, whatever its canvas
shows: neither one that stays, nor one that is taken away and put back.  Of gestures that are
processed, the last is the one that is refused.  An undo or redo marks none while the pipeline is
locked, and never if no bundle has replayed anything. -/
theorem marksNone_after (catalogue : Catalogue) (settings : Settings) (clock : Nat → Nat)
    (surface : Canvas) (calls : List (Call Canvas)) :
    let s := (start catalogue settings clock surface).after calls
    (∀ action : Action, s.IfRefused (run action.perform) s.MarksNone) ∧
    (∀ (α : Type) (calls : Attempt Editor α), Program MayReplay calls →
      (calls.exec { s.editor with bundled := some [] }).2.history = s.editor.history →
      s.IfRefused (bundle calls) s.MarksNone) ∧
    (∀ content, s.IfRefused (load content) s.MarksNone) ∧
    (∀ gesture, s.IfRefused (handleGesture gesture) s.MarksNone) ∧
    (∀ cause, (processGestures.exec s).1 = .error cause → ∃ before last,
      let u := s.takeGestures.2.followEach before
      let t := (processGestures.exec s).2
      Call.processGestures.follows s = before ++ [last] ∧
        (handleGesture last).exec u = (.error cause, t) ∧ u.MarksNone t) ∧
    (s.editor.enabled = false → s.IfRefused undo s.MarksNone ∧ s.IfRefused redo s.MarksNone) ∧
    ((∀ call ∈ calls, call.Bundles fun control => ¬ MayReplay control) →
      s.IfRefused undo s.MarksNone ∧ s.IfRefused redo s.MarksNone) := by
  intro s
  have hknown : s.Known catalogue := known_after catalogue settings clock surface calls
  have hmarks (t : Session Canvas) (h : s.Retracted t) : s.MarksNone t := h.marksNone hknown
  refine ⟨fun action => (hknown.act_retracted action).mono hmarks, fun α calls hcalls hunreplayed =>
    (hknown.bundle_retracted hcalls hunreplayed).mono hmarks,
    fun content => (hknown.load_retracted content).mono hmarks,
    fun gesture => (hknown.gesture_retracted gesture).mono hmarks, fun cause hcause => ?_,
    fun hlocked => ⟨?_, ?_⟩, fun hcalls => ?_⟩
  · obtain ⟨before, last, hfollows, hlast, hbefore, hretracted⟩ := hknown.processed_retracted hcause
    exact ⟨before, last, hfollows, hlast, hretracted.marksNone hbefore⟩
  · exact (hknown.replay_retracted_of_locked (.undo trivial) (fun _ _ => Editor.undo_refused)
      hlocked).mono hmarks
  · exact (hknown.replay_retracted_of_locked (.redo trivial) (fun _ _ => Editor.redo_refused)
      hlocked).mono hmarks
  · obtain ⟨hundone, hredone⟩ := replays_retracted catalogue settings clock surface hcalls
    exact ⟨hundone.mono hmarks, hredone.mono hmarks⟩

/-- **A refused call may lose a highlight.**  A bundle deletes an operator that is highlighted, and
then one that is not there.  The operator is put back, and its highlight is not. -/
theorem not_restored_highlight :
    let scan : Operator := ⟨"a", "Scan", "1", .object [], [], [], false⟩
    let edits : Attempt Editor Unit := do
      Editor.deleteOperator "a"
      Editor.deleteOperator "ghost"
    let s := (start (.ofMetadata ⟨[⟨"Scan", .object [], ⟨"Scan", none, "Input", 0, 0⟩, "1"⟩], []⟩)
      .initial id (Canvas.empty false)).after
        [.act (.addOperator scan .origin), .highlight ["a"]]
    let t := ((bundle edits).exec s).2
    s.view.surface.InStep s.graph ∧ Program (fun _ => False) edits ∧
      ((bundle edits).exec s).1 = .error (.notFound .operator "ghost") ∧ t.graph = s.graph ∧
      s.view.surface.highlighted.contains "a" = true ∧
      s.view.bridge.highlighted.contains "a" = true ∧
      t.view.surface.highlighted.contains "a" = false ∧
      t.view.bridge.highlighted.contains "a" = false := by
  intro scan edits s t
  have hstep : s.view.surface.InStep s.graph := by
    refine inStep_after _ .initial id false _ ?_ fun id gesture _ hever => ?_
    · simp [Call.Uses]
    · simp [Ever, Call.Hands] at hever
  have hedits : Program (fun _ => False) edits :=
    .bind (.act (.deleteOperator "a")) fun _ => .act (.deleteOperator "ghost")
  refine ⟨hstep, hedits, ?_, ?_, ?_, ?_, ?_, ?_⟩ <;> decide +kernel

end Session

end PipelineEditor
