import PipelineEditor.Proofs.Attaching
import PipelineEditor.Proofs.Listing

/-!
# Deleting a selection

A selection of operators and links can be deleted by a gesture or by a call.  The gesture leaves
links that go with an operator to the deletion of the operator, and deletes the other links one by
one; the call deletes all listed links first, and passes over those that are not there.  For every
overlap between what is listed and what goes with it, both leave the same graph.

## Main definitions

* `Graph.without g operators links`: the graph without a selection
* `Graph.Lacks operators links g g'`: of a graph, the selection is gone and nothing else

## Main results

* `Graph.Coherent.lacks_without`: what the deletions of a selection leave, name by name
* `Bridge.effectAll_selection`, `Graph.Coherent.deleteSelection_eq_ok`: gesture and call are granted
* `Session.selection_after`: after every run gesture and call do the same, and are undone as one
-/

namespace PipelineEditor

namespace Graph

variable {g g' g'' : Graph} {operators : List OperatorId} {links : List LinkId}

/-! ## What is left without a selection -/

/-- The graph without the links of a list. -/
def withoutLinks (g : Graph) (links : List LinkId) : Graph :=
  { g with links := g.links.eraseAll links, breakpoints := g.breakpoints.eraseAll links }

/-- The graph without the operators and the links of two lists, and the links at the operators. -/
def without (g : Graph) (operators : List OperatorId) (links : List LinkId) : Graph :=
  operators.foldl withoutOperator (g.withoutLinks links)

/-- **Of the graph, the selection is gone**: the operators with their positions, and the links that
are listed or have an end at one of the operators, with their breakpoints.  Nothing else is. -/
structure Lacks (operators : List OperatorId) (links : List LinkId) (g g' : Graph) : Prop where
  get?_operators : ∀ id, g'.operators.get? id = if id ∈ operators then none else g.operators.get? id
  get?_positions : ∀ id, g'.positions.get? id = if id ∈ operators then none else g.positions.get? id
  get?_links : ∀ id, g'.links.get? id =
    if id ∈ links ∨ (g.links.get? id).any (fun link => operators.any link.touches) = true then none
    else g.links.get? id
  get?_breakpoints : ∀ id, g'.breakpoints.get? id =
    if id ∈ links ∨ (g.links.get? id).any (fun link => operators.any link.touches) = true then none
    else g.breakpoints.get? id

theorem Coherent.withoutLinks (h : g.Coherent) (links : List LinkId) :
    (g.withoutLinks links).Coherent := by
  induction links generalizing g with
  | nil => exact h
  | cons id rest ih => exact ih (h.dropLink id)

/-- What a selection leaves is determined by it. -/
theorem Lacks.unique (h : Lacks operators links g g') (h' : Lacks operators links g g'') :
    g' = g'' :=
  ext_get? (Dict.ext_get? fun id => (h.get?_operators id).trans (h'.get?_operators id).symm)
    (Dict.ext_get? fun id => (h.get?_positions id).trans (h'.get?_positions id).symm)
    (fun id => (h.get?_links id).trans (h'.get?_links id).symm)
    fun id => (h.get?_breakpoints id).trans (h'.get?_breakpoints id).symm

/-- If anything that is listed was there, operators or links differ. -/
theorem Lacks.differs (h : Lacks operators links g g')
    (hfound : (∃ id ∈ operators, (g.operators.get? id).isSome = true) ∨
      ∃ id ∈ links, (g.links.get? id).isSome = true) :
    g'.operators ≠ g.operators ∨ g'.links ≠ g.links := by
  refine hfound.imp ?_ ?_
  · rintro ⟨id, hmem, hthere⟩ heq
    rw [← heq, h.get?_operators, if_pos hmem] at hthere
    cases hthere
  · rintro ⟨id, hmem, hthere⟩ heq
    rw [← heq, h.get?_links, if_pos (.inl hmem)] at hthere
    cases hthere

theorem foldl_withoutOperator_operators (operators : List OperatorId) :
    (operators.foldl withoutOperator g).operators = g.operators.eraseAll operators := by
  induction operators generalizing g with
  | nil => rfl
  | cons first rest ih => exact ih

theorem foldl_withoutOperator_positions (operators : List OperatorId) :
    (operators.foldl withoutOperator g).positions = g.positions.eraseAll operators := by
  induction operators generalizing g with
  | nil => rfl
  | cons first rest ih => exact ih

/-- Links with an end at one of the operators are gone with them, all others are left. -/
theorem Coherent.get?_foldl_withoutOperator (h : g.Coherent) (operators : List OperatorId)
    (id : LinkId) :
    let goes := (g.links.get? id).any fun link => operators.any link.touches
    (operators.foldl withoutOperator g).links.get? id =
        (if goes then none else g.links.get? id) ∧
      (operators.foldl withoutOperator g).breakpoints.get? id =
        if goes then none else g.breakpoints.get? id := by
  induction operators generalizing g with
  | nil => cases hget : g.links.get? id <;> simp [hget]
  | cons first rest ih =>
    obtain ⟨hlinks, hbreakpoints⟩ := ih (h.deleteOperator first)
    rw [h.get?_withoutOperator_links] at hlinks hbreakpoints
    rw [h.get?_withoutOperator_breakpoints] at hbreakpoints
    rw [List.foldl_cons, hlinks, hbreakpoints]
    cases g.links.get? id with
    | none => exact ⟨rfl, rfl⟩
    | some link => cases htouch : link.touches first <;> simp [htouch]

/-- **What is left without a selection**, name by name. -/
theorem Coherent.lacks_without (h : g.Coherent) (operators : List OperatorId)
    (links : List LinkId) : Lacks operators links g (g.without operators links) := by
  have hlinks (id : LinkId) : (g.withoutLinks links).links.get? id =
    if id ∈ links then none else g.links.get? id := Dict.get?_eraseAll ..
  have hbreakpoints (id : LinkId) : (g.withoutLinks links).breakpoints.get? id =
    if id ∈ links then none else g.breakpoints.get? id := Dict.get?_eraseAll ..
  have hleft (id : LinkId) :=
    (h.withoutLinks links).get?_foldl_withoutOperator operators id
  refine ⟨fun id => ?_, fun id => ?_, fun id => ?_, fun id => ?_⟩
  · exact (congrArg (·.get? id) (foldl_withoutOperator_operators operators)).trans
      (Dict.get?_eraseAll ..)
  · exact (congrArg (·.get? id) (foldl_withoutOperator_positions operators)).trans
      (Dict.get?_eraseAll ..)
  · refine (hleft id).1.trans ?_
    rw [hlinks]
    by_cases hmem : id ∈ links <;> simp [hmem]
  · refine (hleft id).2.trans ?_
    rw [hlinks, hbreakpoints]
    by_cases hmem : id ∈ links <;> simp [hmem]

/-! ## What is listed and what goes with it -/

/-- An operator that a link has an end at is there. -/
theorem Coherent.hasOperator_of_touches (h : g.Coherent) {id : LinkId} {link : Link}
    (hget : g.links.get? id = some link) {operator : OperatorId}
    (htouches : link.touches operator = true) : g.hasOperator operator = true := by
  unfold hasOperator
  rw [Dict.contains_eq]
  by_contra hnone
  have hfree : g.operators.get? operator = none := by simpa using hnone
  cases htouches.symm.trans (h.touches_eq_false hfree hget)

theorem Coherent.any_touches_filter (h : g.Coherent) {id : LinkId} {link : Link}
    (hget : g.links.get? id = some link) (operators : List OperatorId) :
    (operators.filter g.hasOperator).any link.touches = operators.any link.touches := by
  rw [List.any_filter]
  refine congrArg (operators.any ·) (funext fun operator => ?_)
  cases htouches : link.touches operator with
  | false => exact Bool.and_false _
  | true => rw [h.hasOperator_of_touches hget htouches]; rfl

/-- **Which links are listed matters only for those that do not go with an operator**, and operators
that are not there do not matter. -/
theorem Coherent.lacks_of_listed (h : g.Coherent) {listed : List LinkId}
    (hlisted : ∀ {id link}, g.links.get? id = some link → operators.any link.touches = false →
      (id ∈ listed ↔ id ∈ links)) :
    Lacks operators links g (g.without (operators.filter g.hasOperator) listed) := by
  have hlacks := h.lacks_without (operators.filter g.hasOperator) listed
  have hmem {id : OperatorId} (hthere : (g.operators.get? id).isSome = true) :
      id ∈ operators.filter g.hasOperator ↔ id ∈ operators := by
    rw [List.mem_filter, hasOperator, Dict.contains_eq, hthere]
    exact and_iff_left rfl
  -- Whether a link goes is settled by its operators, and only if they stay by the list.
  have hgoes {id : LinkId} {link : Link} (hget : g.links.get? id = some link) :
      (id ∈ listed ∨ (operators.filter g.hasOperator).any link.touches = true) ↔
        (id ∈ links ∨ operators.any link.touches = true) := by
    rw [h.any_touches_filter hget]
    cases htouches : operators.any link.touches with
    | false => simp [hlisted hget htouches]
    | true => simp
  refine ⟨fun id => ?_, fun id => ?_, fun id => ?_, fun id => ?_⟩
  · rw [hlacks.get?_operators]
    cases hget : g.operators.get? id with
    | none => simp
    | some op => simp only [hmem (Option.isSome_iff_exists.mpr ⟨op, hget⟩)]
  · rw [hlacks.get?_positions]
    cases hget : g.positions.get? id with
    | none => simp
    | some position =>
      simp only [hmem ((h.position_iff id).mp (Option.isSome_iff_exists.mpr ⟨position, hget⟩))]
  · rw [hlacks.get?_links]
    cases hget : g.links.get? id with
    | none => simp
    | some link => simp only [Option.any_some, hgoes hget]
  · rw [hlacks.get?_breakpoints]
    cases hget : g.links.get? id with
    | none => simp [h.get?_breakpoints_eq_none hget]
    | some link => simp only [Option.any_some, hgoes hget]

/-! ## One deletion after the other -/

theorem foldlM_deleteOperator_eq_ok (hnodup : operators.Nodup)
    (hthere : ∀ id ∈ operators, (g.operators.get? id).isSome = true) :
    operators.foldlM (fun g id => (Mutation.deleteOperator id).result g) g =
      .ok (operators.foldl withoutOperator g) := by
  induction operators generalizing g with
  | nil => rfl
  | cons id rest ih =>
    obtain ⟨hfresh, hrest⟩ := List.nodup_cons.mp hnodup
    obtain ⟨op, hget⟩ := Option.isSome_iff_exists.mp (hthere id List.mem_cons_self)
    have hfirst : (Mutation.deleteOperator id).result g = .ok (g.withoutOperator id) := by
      rw [Mutation.result_deleteOperator, findOperator_eq_ok_iff.mpr hget]
      rfl
    rw [List.foldlM_cons, hfirst]
    refine ih hrest fun other hmem => ?_
    have hne : id ≠ other := fun heq => hfresh (heq ▸ hmem)
    rw [withoutOperator_operators, Dict.get?_erase, if_neg hne]
    exact hthere other (List.mem_cons_of_mem _ hmem)

theorem foldlM_deleteLink_eq_ok (hnodup : links.Nodup)
    (hthere : ∀ id ∈ links, (g.links.get? id).isSome = true) :
    links.foldlM (fun g id => (Mutation.deleteLink id).result g) g =
      .ok (g.withoutLinks links) := by
  induction links generalizing g with
  | nil => rfl
  | cons id rest ih =>
    obtain ⟨hfresh, hrest⟩ := List.nodup_cons.mp hnodup
    obtain ⟨link, hget⟩ := Option.isSome_iff_exists.mp (hthere id List.mem_cons_self)
    have hfirst : (Mutation.deleteLink id).result g = .ok (g.dropLink id) := by
      rw [Mutation.result_deleteLink, findLink_eq_ok_iff.mpr hget]
      rfl
    rw [List.foldlM_cons, hfirst]
    refine ih hrest fun other hmem => ?_
    have hne : id ≠ other := fun heq => hfresh (heq ▸ hmem)
    have hother : (g.dropLink id).links.get? other = g.links.get? other :=
      (Dict.get?_erase ..).trans (if_neg hne)
    rw [hother]
    exact hthere other (List.mem_cons_of_mem _ hmem)

/-- Where links that are not there are passed over, any may be listed. -/
theorem Coherent.foldlM_deleteLink_if (h : g.Coherent) (links : List LinkId) :
    links.foldlM (fun g id =>
      if g.hasLink id then (Mutation.deleteLink id).result g else .ok g) g =
        .ok (g.withoutLinks links) := by
  induction links generalizing g with
  | nil => rfl
  | cons id rest ih =>
    have hfirst : (if g.hasLink id then (Mutation.deleteLink id).result g else .ok g) =
        .ok (g.dropLink id) := by
      unfold hasLink
      rw [Dict.contains_eq, Mutation.result_deleteLink]
      cases hget : g.links.get? id with
      | none => rw [h.dropLink_of_none hget]; rfl
      | some link => rw [findLink_eq_ok_iff.mpr hget]; rfl
    rw [List.foldlM_cons, hfirst]
    exact ih (h.dropLink id)

/-- **The call is granted**, whichever links are listed and whatever goes with the operators. -/
theorem Coherent.deleteSelection_eq_ok (h : g.Coherent) (hoperators : operators.Nodup)
    (links : List LinkId) :
    (links.foldlM (fun g id =>
        if g.hasLink id then (Mutation.deleteLink id).result g else .ok g) g >>= fun g' =>
      (operators.filter g.hasOperator).foldlM
        (fun g id => (Mutation.deleteOperator id).result g) g') =
      .ok (g.without (operators.filter g.hasOperator) links) := by
  rw [h.foldlM_deleteLink_if]
  refine foldlM_deleteOperator_eq_ok (hoperators.filter _) fun id hmem => ?_
  exact (List.mem_filter.mp hmem).2

end Graph

namespace Bridge

variable {bridge : Bridge} {g : Graph} {operators : List OperatorId} {links : List LinkId}

theorem lift_shapesDeleted (hreplaying : bridge.replaying = false) :
    (bridge.lift g (.shapesDeleted operators links)).1 =
      (links.filter (!goesWith g operators ·)).map .deleteLink ++
        (operators.filter g.hasOperator).map .deleteOperator := by
  unfold lift
  rw [hreplaying]
  rfl

/-- **What the gesture asks is granted**: each link that it asks to delete is there and goes with no
operator, so none of the deletions takes away what a later one is about. -/
theorem effectAll_selection (hoperators : operators.Nodup) (hlinks : links.Nodup) :
    Intent.effectAll ((links.filter (!goesWith g operators ·)).map .deleteLink ++
        (operators.filter g.hasOperator).map .deleteOperator) g =
      .ok (g.without (operators.filter g.hasOperator)
        (links.filter (!goesWith g operators ·))) := by
  have hthere : ∀ id ∈ links.filter (!goesWith g operators ·), (g.links.get? id).isSome = true := by
    intro id hmem
    have hstays := (List.mem_filter.mp hmem).2
    unfold goesWith at hstays
    cases hget : g.links.get? id with
    | none =>
      rw [hget] at hstays
      cases hstays
    | some link => rfl
  unfold Intent.effectAll
  rw [List.foldlM_append, List.foldlM_map]
  have hcut := Graph.foldlM_deleteLink_eq_ok (hlinks.filter _) hthere
  refine (congrArg (· >>= _) hcut).trans ((List.foldlM_map ..).trans ?_)
  refine Graph.foldlM_deleteOperator_eq_ok (hoperators.filter _) fun id hmem => ?_
  exact (List.mem_filter.mp hmem).2

end Bridge

/-! ## Sessions -/

/-- Where nothing that is listed is there, the call does nothing. -/
theorem Editor.exec_deleteAll_nothing {e : Editor} (hidle : e.bundled = none)
    (henabled : e.enabled = true) {links : List LinkId}
    (hnone : ∀ id ∈ links, e.graph.links.get? id = none) :
    (deleteAll [] links).exec e = (.ok (), e) := by
  have hskips : (links.forM fun id => do
      if (← get).graph.hasLink id then deleteLink id : Attempt Editor PUnit).exec
        { e with bundled := some [] } = (.ok (), { e with bundled := some [] }) := by
    induction links with
    | nil => rfl
    | cons id rest ih =>
      have habsent : ¬ e.graph.hasLink id = true := by
        rw [Graph.hasLink, Dict.contains_eq, hnone id List.mem_cons_self]
        exact Bool.false_ne_true
      refine (Attempt.exec_bind_ok (?_ : _ = (Except.ok ⟨⟩, _))).trans
        (ih fun other hmem => hnone other (List.mem_cons_of_mem _ hmem))
      rw [Attempt.exec_get_bind]
      exact congrArg (fun call : Attempt Editor PUnit => call.exec { e with bundled := some [] })
        (if_neg habsent)
  unfold deleteAll
  rw [exec_requireEnabled_bind, if_pos henabled, exec_bundle_none hidle,
    Attempt.exec_bind_ok hskips]
  obtain ⟨catalogue, draft, history, enabled, bundled⟩ := e
  cases hidle
  rfl

namespace Session

variable {σ : Type} [Surface σ]

/-- **After every run, deleting a selection by a gesture does what the call does** that deletes the
links and those of the operators that are there.  On a pipeline that is not locked both are granted,
for any operators and links that are listed once each, whether they are there or not, and whether
the links go with the operators or not; and both leave the graph without the selection.  If nothing
was there to delete, both leave pipeline and history as they were; else either has added one entry,
and undoing it leads back to the graph before. -/
theorem selection_after (catalogue : Catalogue) (settings : Settings) (clock : Nat → Nat)
    (surface : σ) (calls : List (Call σ)) {operators : List OperatorId} {links : List LinkId}
    (hoperators : operators.Nodup) (hlinks : links.Nodup) :
    let s := (start catalogue settings clock surface).after calls
    let gesture := (handleGesture (.shapesDeleted operators links)).exec s
    let call := (run (Editor.deleteAll (operators.filter s.graph.hasOperator) links)).exec s
    s.editor.enabled = true →
      (∃ count, gesture.1 = .ok count) ∧ call.1 = .ok () ∧
      gesture.2.graph = call.2.graph ∧ Graph.Lacks operators links s.graph gesture.2.graph ∧
      (s.Untouched gesture.2 ∧ s.Untouched call.2 ∨
        gesture.2.graph ≠ s.graph ∧ s.AddsEntry gesture.2 ∧ s.AddsEntry call.2) := by
  intro s gesture call henabled
  have hrest : s.AtRest catalogue := atRest_after ..
  have hlimit : 0 < s.editor.limit := limit_pos_after ..
  have hcoherent : s.graph.Coherent := hrest.wellFormed.toCoherent
  have hreplaying : s.view.bridge.replaying = false := after_replaying rfl calls
  have hasks : (s.view.bridge.lift s.graph (.shapesDeleted operators links)).1 = _ :=
    Bridge.lift_shapesDeleted hreplaying
  -- Gesture and call list different links, but the same of those that go with no operator.
  have hgestured : Graph.Lacks operators links s.graph
      (s.graph.without (operators.filter s.graph.hasOperator)
        (links.filter (!Bridge.goesWith s.graph operators ·))) :=
    hcoherent.lacks_of_listed fun {id link} hget hstays => by
      simp [Bridge.goesWith, hget, hstays]
  have hcalled : Graph.Lacks operators links s.graph
      (s.graph.without (operators.filter s.graph.hasOperator) links) :=
    hcoherent.lacks_of_listed fun _ _ => Iff.rfl
  obtain ⟨hok, hgraph, hnothing, hentry⟩ := handleGesture_granted hrest henabled hlimit
    (hasks ▸ Bridge.effectAll_selection hoperators hlinks)
  obtain ⟨hok', hgraph', hentry'⟩ := act_granted hrest henabled hlimit
    (.deleteAll (operators.filter s.graph.hasOperator) links)
    (Editor.realizes_deleteSelection _ links) (hcoherent.deleteSelection_eq_ok hoperators links)
  have hgraph : gesture.2.graph = _ := hgraph
  have hgraph' : call.2.graph = _ := hgraph'
  have hsame : gesture.2.graph = call.2.graph := by
    rw [hgraph, hgraph']
    exact hgestured.unique hcalled
  have hlacks : Graph.Lacks operators links s.graph gesture.2.graph := hgraph ▸ hgestured
  refine ⟨⟨_, hok⟩, hok', hsame, hlacks, ?_⟩
  rw [← hgraph] at hentry
  rw [← hgraph', ← hsame] at hentry'
  by_cases hfound : (∃ id ∈ operators, (s.graph.operators.get? id).isSome = true) ∨
      ∃ id ∈ links, (s.graph.links.get? id).isSome = true
  · right
    have hchanged := hlacks.differs hfound
    refine ⟨fun heq => ?_, hentry hchanged, hentry' hchanged⟩
    rw [heq] at hchanged
    simp at hchanged
  · left
    have habsent : operators.filter s.graph.hasOperator = [] :=
      List.filter_eq_nil_iff.mpr fun id hmem hthere => hfound (.inl ⟨id, hmem, hthere⟩)
    have hnone : ∀ id ∈ links, s.graph.links.get? id = none := fun id hmem =>
      Option.not_isSome_iff_eq_none.mp fun hthere => hfound (.inr ⟨id, hmem, hthere⟩)
    have hgo : links.filter (!Bridge.goesWith s.graph operators ·) = [] :=
      List.filter_eq_nil_iff.mpr fun id hmem => by simp [Bridge.goesWith, hnone id hmem]
    refine ⟨hnothing (by rw [hasks, habsent, hgo]; rfl), ?_⟩
    have hexec := Editor.exec_deleteAll_nothing hrest.idle henabled hnone
    rw [← habsent] at hexec
    have hafter : call.2.editor = s.editor.takeEvents.2 := by
      refine (settle_editor _).trans ?_
      exact congrArg (fun answered => answered.2.takeEvents.2) hexec
    exact untouched_of_editor hafter ⟨rfl, rfl⟩

/-- A link is listed along with the operator it goes with, next to one that stays without its
operators, and to names that nothing has: the gesture takes what is there in one entry. -/
theorem selection_after_overlapping :
    let scan (id : OperatorId) : Operator :=
      ⟨id, "Scan", "1", .object [], [], [⟨"output-0", ""⟩], false⟩
    let sink (id : OperatorId) : Operator :=
      ⟨id, "Sink", "1", .object [], [⟨"input-0", ""⟩], [], false⟩
    let s := (start (.ofMetadata ⟨[⟨"Scan", .object [], ⟨"Scan", none, "Input", 0, 1⟩, "1"⟩,
        ⟨"Sink", .object [], ⟨"Sink", none, "Output", 1, 0⟩, "1"⟩], []⟩)
      .initial id (Canvas.empty false)).after
        [.act (.addAll [(scan "scan", .origin), (sink "sink", .origin), (scan "tap", .origin),
          (sink "drain", .origin)] [⟨"l", ⟨"scan", "output-0"⟩, ⟨"sink", "input-0"⟩⟩,
            ⟨"m", ⟨"tap", "output-0"⟩, ⟨"drain", "input-0"⟩⟩])]
    let s' := ((handleGesture (.shapesDeleted ["scan", "ghost"] ["m", "l", "lost"])).exec s).2
    ["scan", "ghost"].Nodup ∧ ["m", "l", "lost"].Nodup ∧ s.editor.enabled = true ∧
      s'.graph.operators.get? "scan" = none ∧ s'.graph.links.get? "l" = none ∧
      s'.graph.links.get? "m" = none ∧ s'.graph.operators.get? "tap" = some (scan "tap") ∧
      s.AddsEntry s' := by
  intro scan sink s s'
  have hoperators : ["scan", "ghost"].Nodup := by decide
  have hlinks : ["m", "l", "lost"].Nodup := by decide
  have henabled : s.editor.enabled = true := by decide +kernel
  obtain ⟨-, -, -, hlacks, hhistory⟩ := selection_after _ _ _ _ _ hoperators hlinks henabled
  have hgone : s'.graph.links.get? "l" = none :=
    (hlacks.get?_links "l").trans (if_pos (.inl (by decide)))
  refine ⟨hoperators, hlinks, henabled, (hlacks.get?_operators "scan").trans (if_pos (by decide)),
    hgone, (hlacks.get?_links "m").trans (if_pos (.inl (by decide))), ?_, ?_⟩
  · refine (hlacks.get?_operators "tap").trans ((if_neg (by decide)).trans ?_)
    decide +kernel
  · refine (hhistory.resolve_left fun huntouched => ?_).2.1
    have hbefore : s.graph.links.get? "l" ≠ none := by decide +kernel
    rw [← huntouched.1.1] at hbefore
    exact hbefore hgone

end Session

end PipelineEditor
