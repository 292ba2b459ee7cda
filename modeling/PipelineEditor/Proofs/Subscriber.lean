import PipelineEditor.Proofs.Listing
import PipelineEditor.Proofs.Stage

/-!
# What the events tell

A subscriber that follows the published events from the empty pipeline on holds the pipeline that
would be saved.  Each mutation announces all it does, with one exception: a move between equal
points is not announced, though the two may differ in the sign of a zero.  So the positions that a
subscriber holds are those of the graph up to that sign.

## Main definitions

* `Graph.follow`: what a subscriber holds after an event
* `Point.Alike`: points that are equal up to the signs of zeros
* `Graph.HeldAs`: a graph, and what a subscriber holds of it
* `Content.Agrees`: a saved pipeline lists what a subscriber holds, at equal points

## Main results

* `Draft.Step.follow`: who follows what a step announces does what the step did
* `Session.published_tells_content`: after every run, who followed what was published holds the
  saved pipeline
-/

namespace PipelineEditor

/-! ## Points up to the signs of zeros -/

namespace Double

/-- The same pattern, or two zeros. -/
def Alike (x y : Double) : Prop := x = y ∨ (x.isZero = true ∧ y.isZero = true)

theorem Alike.symm {x y : Double} (h : x.Alike y) : y.Alike x := by
  rcases h with rfl | ⟨hx, hy⟩
  · exact .inl rfl
  · exact .inr ⟨hy, hx⟩

theorem Alike.trans {x y z : Double} (h : x.Alike y) (h' : y.Alike z) : x.Alike z := by
  rcases h with rfl | ⟨hx, hy⟩
  · exact h'
  · rcases h' with rfl | ⟨-, hz⟩
    · exact .inr ⟨hx, hy⟩
    · exact .inr ⟨hx, hz⟩

theorem alike_of_same {x y : Double} (h : x.same y = true) : x.Alike y := by
  simpa [Alike] using (Bool.and_eq_true_iff.mp h).2

theorem Alike.same {x y : Double} (h : x.Alike y) (hx : x.isNaN = false) : x.same y = true := by
  rcases h with rfl | ⟨hzero, hzero'⟩
  · exact same_self hx
  · simp [Double.same, hx, hzero, hzero']

end Double

namespace Point

/-- **The points are alike**: their coordinates are equal up to the signs of zeros. -/
def Alike (p q : Point) : Prop := p.x.Alike q.x ∧ p.y.Alike q.y

theorem Alike.refl (p : Point) : p.Alike p := ⟨.inl rfl, .inl rfl⟩

theorem Alike.symm {p q : Point} (h : p.Alike q) : q.Alike p := ⟨h.1.symm, h.2.symm⟩

theorem Alike.trans {p q r : Point} (h : p.Alike q) (h' : q.Alike r) : p.Alike r :=
  ⟨h.1.trans h'.1, h.2.trans h'.2⟩

theorem alike_of_same {p q : Point} (h : p.same q = true) : p.Alike q := by
  obtain ⟨hx, hy⟩ := Bool.and_eq_true_iff.mp h
  exact ⟨Double.alike_of_same hx, Double.alike_of_same hy⟩

/-- Neither coordinate is a not-a-number. -/
def IsNumber (p : Point) : Prop := p.x.isNaN = false ∧ p.y.isNaN = false

theorem Alike.same {p q : Point} (h : p.Alike q) (hp : p.IsNumber) : p.same q = true :=
  Bool.and_eq_true_iff.mpr ⟨h.1.same hp.1, h.2.same hp.2⟩

end Point

/-! ## Following events -/

namespace Graph

/-- The graph with an operator that is there changed. -/
def modifyOperator (g : Graph) (id : OperatorId) (change : Operator → Operator) : Graph :=
  match g.operators.get? id with
  | some op => { g with operators := g.operators.insert id (change op) }
  | none => g

/-- **What a subscriber holds after an event**, if it held a graph before. -/
def follow (g : Graph) : Event → Graph
  | .operatorAdded op position =>
    { g with
      operators := g.operators.insert op.id op
      positions := g.positions.insert op.id position }
  | .operatorDeleted op =>
    { g with operators := g.operators.erase op.id, positions := g.positions.erase op.id }
  | .linkAdded link => { g with links := g.links.insert link.id link }
  | .linkDeleted link => g.dropLink link.id
  | .propertyChanged id _ properties => g.modifyOperator id fun op => { op with properties }
  | .operatorDisabledChanged id disabled => g.modifyOperator id fun op => { op with disabled }
  | .breakpointChanged id breakpoint =>
    { g with breakpoints := g.breakpointsWith id breakpoint }
  | .operatorMoved id position => { g with positions := g.positions.insert id position }
  | _ => g

/-- What a subscriber holds after several events. -/
def followAll (g : Graph) (events : List Event) : Graph := events.foldl follow g

theorem followAll_append (g : Graph) (events more : List Event) :
    g.followAll (events ++ more) = (g.followAll events).followAll more := List.foldl_append

/-- An event that is not of the graph leaves what a subscriber holds as it is. -/
theorem follow_of_not_isOfGraph {event : Event} (h : event.isOfGraph = false) (g : Graph) :
    g.follow event = g := by
  cases event <;> first | rfl | cases h

theorem followAll_of_not_isOfGraph {events : List Event}
    (h : ∀ event ∈ events, event.isOfGraph = false) (g : Graph) : g.followAll events = g := by
  induction events with
  | nil => rfl
  | cons event rest ih =>
    have hfollow := follow_of_not_isOfGraph (h event List.mem_cons_self) g
    have hrest := ih fun other hmem => h other (List.mem_cons_of_mem _ hmem)
    calc g.followAll (event :: rest) = (g.follow event).followAll rest := rfl
      _ = g := by rw [hfollow, hrest]

/-- **What a subscriber holds of a graph**: all of it, with positions alike. -/
structure HeldAs (g r : Graph) : Prop where
  operators : r.operators = g.operators
  links : r.links = g.links
  breakpoints : r.breakpoints = g.breakpoints
  positions : ∀ id, Option.Rel Point.Alike (g.positions.get? id) (r.positions.get? id)

/-- Operators of the graph stand at numbers. -/
def IsNumeric (g : Graph) : Prop :=
  ∀ {id position}, g.positions.get? id = some position → position.IsNumber

variable {g r : Graph}

theorem heldAs_self (g : Graph) : g.HeldAs g where
  operators := rfl
  links := rfl
  breakpoints := rfl
  positions id := by
    cases g.positions.get? id with
    | none => exact .none
    | some p => exact .some (.refl p)

namespace HeldAs

theorem exists_position (h : g.HeldAs r) {id : OperatorId} {p : Point}
    (hget : g.positions.get? id = some p) : ∃ q, r.positions.get? id = some q ∧ p.Alike q := by
  have hpos := h.positions id
  rw [hget] at hpos
  generalize r.positions.get? id = held at hpos ⊢
  cases hpos with
  | some halike => exact ⟨_, rfl, halike⟩

theorem position_eq_none (h : g.HeldAs r) {id : OperatorId} (hget : g.positions.get? id = none) :
    r.positions.get? id = none := by
  have hpos := h.positions id
  rw [hget] at hpos
  generalize r.positions.get? id = held at hpos ⊢
  cases hpos
  rfl

/-- Numbers that are alike are equal. -/
theorem same_position (h : g.HeldAs r) (hnumeric : g.IsNumeric) (id : OperatorId) :
    Option.Rel (fun p q => Point.same p q = true) (g.positions.get? id) (r.positions.get? id) := by
  cases hget : g.positions.get? id with
  | none =>
    rw [h.position_eq_none hget]
    exact .none
  | some p =>
    obtain ⟨q, hq, halike⟩ := h.exists_position hget
    rw [hq]
    exact .some (halike.same (hnumeric hget))

theorem dropLinks (h : g.HeldAs r) (links : List Link) :
    (g.dropLinks links).HeldAs (r.dropLinks links) := by
  induction links generalizing g r with
  | nil => exact h
  | cons link rest ih =>
    refine ih ⟨h.operators, ?_, ?_, h.positions⟩
    · exact congrArg (·.erase link.id) h.links
    · exact congrArg (·.erase link.id) h.breakpoints

theorem insertPosition (h : g.HeldAs r) (id : OperatorId) (position : Point) (other : OperatorId) :
    Option.Rel Point.Alike ((g.positions.insert id position).get? other)
      ((r.positions.insert id position).get? other) := by
  rw [Dict.get?_insert, Dict.get?_insert]
  split
  · exact .some (.refl position)
  · exact h.positions other

theorem erasePosition (h : g.HeldAs r) (id other : OperatorId) :
    Option.Rel Point.Alike ((g.positions.erase id).get? other)
      ((r.positions.erase id).get? other) := by
  rw [Dict.get?_erase, Dict.get?_erase]
  split
  · exact .none
  · exact h.positions other

/-- Who drops the links at an operator, and then the operator, does as its deletion. -/
theorem withoutOperator (h : g.HeldAs r) (op : Operator) :
    (g.withoutOperator op.id).HeldAs
      (r.followAll ((g.linksAt op.id).map .linkDeleted ++ [.operatorDeleted op])) := by
  have hlinks : r.followAll ((g.linksAt op.id).map .linkDeleted) =
      r.dropLinks (g.linksAt op.id) := List.foldl_map
  have hcut := h.dropLinks (g.linksAt op.id)
  rw [followAll_append, hlinks]
  refine ⟨?_, hcut.links, hcut.breakpoints, fun other => ?_⟩
  · have hops := hcut.operators.trans (dropLinks_operators _)
    exact congrArg (·.erase op.id) hops
  · have hpos := hcut.erasePosition op.id other
    rwa [dropLinks_positions] at hpos

theorem modifyOperator (h : g.HeldAs r) {id : OperatorId} {op : Operator}
    (hget : g.operators.get? id = some op) (change : Operator → Operator) :
    HeldAs { g with operators := g.operators.insert id (change op) }
      (r.modifyOperator id change) := by
  unfold Graph.modifyOperator
  rw [h.operators, hget]
  exact ⟨rfl, h.links, h.breakpoints, h.positions⟩

/-- A move between equal points is not announced: the points are alike. -/
theorem moveUnannounced (h : g.HeldAs r) {id : OperatorId} {old position : Point}
    (hold : g.positions.get? id = some old) (hsame : old.same position = true) :
    HeldAs { g with positions := g.positions.insert id position } r := by
  refine ⟨h.operators, h.links, h.breakpoints, fun other => ?_⟩
  rw [Dict.get?_insert]
  split
  · rename_i heq
    obtain ⟨known, hknown, halike⟩ := h.exists_position hold
    have hmoved : old.Alike position := Point.alike_of_same hsame
    rw [← heq, hknown]
    exact .some (hmoved.symm.trans halike)
  · exact h.positions other

theorem setBreakpoints (h : g.HeldAs r) (id : LinkId) (breakpoint : Option Breakpoint) :
    HeldAs { g with breakpoints := g.breakpointsWith id breakpoint }
      { r with breakpoints := r.breakpointsWith id breakpoint } := by
  refine ⟨h.operators, h.links, ?_, h.positions⟩
  refine Dict.ext_get? fun other => ?_
  rw [get?_breakpointsWith, get?_breakpointsWith, h.breakpoints]

end HeldAs

end Graph

/-- **Who follows what a mutation announces does what the mutation did.** -/
theorem Mutation.follow {m : Mutation} {g g' r : Graph} {events : List Event} (h : g.Coherent)
    (hheld : g.HeldAs r) (hstep : m.step g = .ok (g', events)) :
    g'.HeldAs (r.followAll events) := by
  cases m with
  | addOperator op position =>
    obtain ⟨-, heq⟩ := Graph.addOperator_eq_ok_iff.mp hstep
    cases heq
    exact ⟨congrArg (·.insert op.id op) hheld.operators, hheld.links, hheld.breakpoints,
      hheld.insertPosition op.id position⟩
  | deleteOperator id =>
    obtain ⟨op, hget, heq⟩ := Graph.deleteOperator_eq_ok_iff.mp hstep
    cases heq
    obtain rfl := h.operator_id hget
    exact hheld.withoutOperator op
  | addLink link =>
    obtain ⟨-, heq⟩ := Graph.addLink_eq_ok_iff.mp hstep
    cases heq
    exact ⟨hheld.operators, congrArg (·.insert link.id link) hheld.links, hheld.breakpoints,
      hheld.positions⟩
  | deleteLink id =>
    obtain ⟨link, hget, heq⟩ := Graph.deleteLink_eq_ok_iff.mp hstep
    cases heq
    obtain rfl := h.link_id hget
    exact hheld.dropLinks [link]
  | setProperties id properties =>
    obtain ⟨op, hget, heq⟩ := Graph.setProperties_eq_ok_iff.mp hstep
    cases heq
    exact hheld.modifyOperator hget fun op => { op with properties }
  | setDisabled id disabled =>
    obtain ⟨op, hget, heq⟩ := Graph.setDisabled_eq_ok_iff.mp hstep
    cases heq
    by_cases hsame : op.disabled = disabled
    · -- Nothing is announced, and nothing has changed.
      rw [if_pos hsame, ← hsame, Dict.insert_self hget]
      exact hheld
    · rw [if_neg hsame]
      exact hheld.modifyOperator hget fun op => { op with disabled }
  | setBreakpoint id breakpoint =>
    obtain ⟨-, heq⟩ := Graph.setBreakpoint_eq_ok_iff.mp hstep
    cases heq
    by_cases hsame : g.breakpoints.get? id = breakpoint
    · rw [if_pos hsame, ← hsame, Graph.breakpointsWith_self]
      exact hheld
    · rw [if_neg hsame]
      exact hheld.setBreakpoints id breakpoint
  | setPosition id position =>
    obtain ⟨hop, heq⟩ := Graph.setPosition_eq_ok_iff.mp hstep
    cases heq
    obtain ⟨old, hold⟩ := Option.isSome_iff_exists.mp ((h.position_iff id).mpr hop)
    rw [Graph.positionOf, hold, Option.getD_some]
    by_cases hsame : old.same position = true
    · rw [if_pos hsame]
      exact hheld.moveUnannounced hold hsame
    · rw [if_neg hsame]
      exact ⟨hheld.operators, hheld.links, hheld.breakpoints, hheld.insertPosition id position⟩

namespace Draft

variable {catalogue : Catalogue} {d d' : Draft} {r : Graph}

/-- Who follows what a step announces does what the step did. -/
theorem Step.follow (h : d.graph.Coherent) (hheld : d.graph.HeldAs (r.followAll d.announced))
    (hstep : Step catalogue d d') : d'.graph.HeldAs (r.followAll d'.announced) := by
  cases hstep with
  | mutation m _ hm =>
    rw [Graph.followAll_append]
    exact m.follow h hheld hm
  | lock enabled =>
    rw [Graph.followAll_append]
    exact hheld

theorem Steps.follow (h : d.graph.WellFormed catalogue)
    (hheld : d.graph.HeldAs (r.followAll d.announced)) (hsteps : Steps catalogue d d') :
    d'.graph.HeldAs (r.followAll d'.announced) := by
  induction hsteps with
  | refl => exact hheld
  | tail hbefore hstep ih => exact hstep.follow (Steps.wellFormed h hbefore).toCoherent ih

end Draft

namespace Session

variable {σ : Type} [Surface σ] {s s' : Session σ} {host : Prop}

/-- **The subscriber is up to date**: with what is announced still to come, it holds the graph. -/
def Told (s : Session σ) : Prop :=
  s.graph.HeldAs (Graph.empty.followAll (s.published ++ s.editor.draft.announced))

theorem Step.told (hstep : Step host s s') (hsound : s.editor.Sound) (h : s.Told) : s'.Told := by
  unfold Told at h ⊢
  rw [Graph.followAll_append] at h ⊢
  cases hstep with
  | edit _ hedit => exact (hedit.2 hsound).2.follow hsound.graph h
  | draw | learn | exchange => exact h
  | notify _ hevents =>
    -- These events overtake what is still to come, and may: they change nothing.
    have hquiet := Graph.followAll_of_not_isOfGraph hevents (Graph.empty.followAll s.published)
    show s.graph.HeldAs ((Graph.empty.followAll (s.published ++ _)).followAll _)
    rw [Graph.followAll_append, hquiet]
    exact h
  | settle =>
    have hquiet : ∀ event ∈ s.findings, event.isOfGraph = false := fun event hmem =>
      Event.isOfGraph_of_stream (.inr (stream_findings s event hmem))
    -- What was to come has come, followed by findings that change nothing.
    rw [settle_graph, settle_published, settle_editor, Graph.followAll_append, Graph.followAll_append,
      Graph.followAll_of_not_isOfGraph hquiet]
    exact h

theorem Steps.told (hsteps : Steps host s s') (hsound : s.editor.Sound) (h : s.Told) : s'.Told := by
  induction hsteps with
  | refl => exact h
  | tail hbefore hstep ih => exact hstep.told (Steps.sound hbefore hsound).1 ih

end Session

/-! ## Saved pipelines -/

namespace Content

/-- The positions that are saved are those of the graph. -/
theorem positions_ofGraph {g : Graph}
    (hid : ∀ {id op}, g.operators.get? id = some op → op.id = id)
    (hpos : ∀ id, (g.positions.get? id).isSome ↔ (g.operators.get? id).isSome) :
    (ofGraph g).positions = g.positions := by
  refine Dict.ext_get? fun id => ?_
  have hlisted : ∀ entry ∈ g.operators.values.map fun op => (op.id, g.positionOf op.id),
      entry.2 = g.positionOf entry.1 := by
    intro entry hmem
    obtain ⟨op, -, rfl⟩ := List.mem_map.mp hmem
    rfl
  have hmem : id ∈ (g.operators.values.map fun op => (op.id, g.positionOf op.id)).map (·.1) ↔
      (g.positions.get? id).isSome := by
    rw [List.map_map, List.mem_map, hpos, Option.isSome_iff_exists]
    constructor
    · rintro ⟨op, hop, rfl⟩
      obtain ⟨key, hget⟩ := Dict.mem_values.mp hop
      obtain rfl := hid hget
      exact ⟨op, hget⟩
    · rintro ⟨op, hget⟩
      exact ⟨op, Dict.mem_values.mpr ⟨id, hget⟩, hid hget⟩
  -- Each operator is listed with its position, so the order of the list plays no part.
  refine (Dict.get?_ofList_of_eq hlisted id).trans ?_
  simp only [hmem]
  cases hget : g.positions.get? id with
  | none => rfl
  | some p => simp [Graph.positionOf, hget]

/-- **The saved pipeline is what a subscriber holds**: it lists the operators, the links and the
breakpoints that the subscriber holds, and operators stand at points that are equal as numbers. -/
structure Agrees (content : Content) (r : Graph) : Prop where
  operators : content.operators = r.operators.values
  links : content.links = r.links.values
  breakpoints : content.breakpoints = r.breakpoints
  positions : ∀ id, Option.Rel (fun p q => Point.same p q = true) (content.positions.get? id)
    (r.positions.get? id)

/-- All coordinates are numbers. -/
def IsNumeric (content : Content) : Prop :=
  ∀ id position, content.positions.get? id = some position → position.IsNumber

/-- What is saved of a graph is what a subscriber holds of it. -/
theorem agrees_of_heldAs {g r : Graph} (h : g.Coherent) (hheld : g.HeldAs r)
    (hnumeric : g.IsNumeric) : (ofGraph g).Agrees r := by
  have hsaved : (ofGraph g).positions = g.positions := positions_ofGraph h.operator_id h.position_iff
  refine ⟨?_, ?_, hheld.breakpoints.symm, fun id => ?_⟩
  · show g.operators.values = r.operators.values
    rw [hheld.operators]
  · show g.links.values = r.links.values
    rw [hheld.links]
  · rw [hsaved]
    exact hheld.same_position hnumeric id

end Content

namespace Session

variable {σ : Type} [Surface σ]

/-- **After every run, what was published tells the saved pipeline**: who follows the events from
the empty pipeline on holds the graph, up to the signs of zeros, and holds what would be saved, if
all coordinates are numbers. -/
theorem published_tells_content (catalogue : Catalogue) (settings : Settings) (clock : Nat → Nat)
    (surface : σ) (calls : List (Call σ))
    (hnumeric : ((start catalogue settings clock surface).after calls).graph.IsNumeric) :
    let s := (start catalogue settings clock surface).after calls
    let r := Graph.empty.followAll s.published
    s.graph.HeldAs r ∧ s.content.Agrees r := by
  intro s r
  have hstart : (start catalogue settings clock surface).editor.Sound := Editor.sound_start ..
  have hsteps := after_steps (start catalogue settings clock surface) calls
  have htold : s.Told := hsteps.told hstart (Graph.heldAs_self _)
  have hempty : (start catalogue settings clock surface).Settled := rfl
  have hsettled : s.Settled := settled_after hempty calls
  -- Between calls nothing is still to come.
  have hheld : s.graph.HeldAs r := by
    unfold Told at htold
    rwa [hsettled, List.append_nil] at htold
  exact ⟨hheld, Content.agrees_of_heldAs (hsteps.sound hstart).1.graph.toCoherent hheld hnumeric⟩

/-- An operator is added and dragged away, and the drag is undone: three events tell of it, and who
follows them has the operator back where it was. -/
theorem published_tells_content_drag :
    let scan : Operator := ⟨"scan", "Scan", "1", .object [], [], [], false⟩
    let s := (start (.ofMetadata ⟨[⟨"Scan", .object [], ⟨"Scan", none, "Input", 0, 0⟩, "1"⟩], []⟩)
      .initial id Blank.mk).after [
        .act (.addOperator scan .origin), .act (.moveOperator "scan" ⟨⟨1⟩, 0⟩), .undo]
    let r := Graph.empty.followAll s.published
    s.graph.IsNumeric ∧ (s.published.filter Event.isOfGraph).length = 3 ∧
      r.operators.values = [scan] ∧ r.positions.get? "scan" = some .origin ∧
      s.graph.HeldAs r ∧ s.content.Agrees r := by
  intro scan s r
  have hpositions : s.graph.positions = (∅ : Dict Point).insert "scan" .origin := by
    decide +kernel
  have hnumeric : s.graph.IsNumeric := by
    intro id position hget
    rw [hpositions, Dict.get?_insert] at hget
    split at hget
    · cases hget
      exact ⟨rfl, rfl⟩
    · cases hget
  exact ⟨hnumeric, by decide +kernel, by decide +kernel, by decide +kernel,
    published_tells_content _ _ _ _ _ hnumeric⟩

end Session

end PipelineEditor
