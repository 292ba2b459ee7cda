import PipelineEditor.Proofs.Effect
import PipelineEditor.Proofs.Subscriber

/-!
# Loading saved pipelines

A saved pipeline is loaded by taking the operators away that are there and adding those of the
document, one by one, with every check that a user's call would meet.  Which documents pass can be
told from the document alone: each check comes down to a condition on the whole list, so the order
of the list plays no part, and neither does what was there before.

## Main definitions

* `Content.WellFormed catalogue`: the documents that can be loaded
* `Content.toGraph`, `Content.canonical`: the graph of a document, and how it is saved again
* `Content.build catalogue content order`: the graph as it is built up from nothing, with breakpoints
  set in an order that the document does not say

## Main results

* `Content.build_eq_ok_iff`: a document can be built up just if it is well-formed
* `Session.loadInOrder_eq_ok_iff`, `Session.loadInOrder_of_wellFormed`: the order plays no part in
  which documents are loaded, and in what they leave
* `Session.load_after`: loading accepts the well-formed documents and reproduces them
-/

namespace PipelineEditor

open Draft (Takes)

/-! ## Taking all operators away -/

namespace Graph

variable {g g' : Graph}

/-- Without operators nothing else can be there. -/
theorem Coherent.eq_empty (h : g.Coherent) (hnone : ∀ id, g.operators.get? id = none) :
    g = empty := by
  have hlinks : ∀ id, g.links.get? id = none := by
    intro id
    cases hlink : g.links.get? id with
    | none => rfl
    | some link =>
      obtain ⟨op, hop, -⟩ := h.source hlink
      cases (hnone _).symm.trans hop
  have hpositions : ∀ id, g.positions.get? id = none := by
    intro id
    have hiff := h.position_iff id
    rw [hnone id] at hiff
    simpa using hiff
  exact ext_get? (Dict.ext_get? hnone) (Dict.ext_get? hpositions) hlinks fun id =>
    h.get?_breakpoints_eq_none (hlinks id)

/-- Taking the listed operators away leaves the empty graph if no others are there. -/
theorem Coherent.foldlM_deleteOperator (h : g.Coherent) {ids : List OperatorId}
    (hnodup : ids.Nodup) (hids : ∀ id, id ∈ ids ↔ (g.operators.get? id).isSome) :
    ids.foldlM (fun g id => (Mutation.deleteOperator id).result g) g = .ok empty := by
  induction ids generalizing g with
  | nil =>
    have hnone : ∀ id, g.operators.get? id = none := fun id => by simpa using hids id
    rw [h.eq_empty hnone]
    rfl
  | cons id rest ih =>
    obtain ⟨hfresh, hrest⟩ := List.nodup_cons.mp hnodup
    obtain ⟨op, hget⟩ := Option.isSome_iff_exists.mp ((hids id).mp List.mem_cons_self)
    have hfirst : (Mutation.deleteOperator id).result g = .ok (g.withoutOperator id) := by
      rw [Mutation.result_deleteOperator, findOperator_eq_ok_iff.mpr hget]
      rfl
    rw [List.foldlM_cons, hfirst]
    -- The names that remain are those of the operators that remain.
    refine ih (h.deleteOperator id) hrest fun other => ?_
    rw [withoutOperator_operators, Dict.get?_erase]
    by_cases heq : id = other
    · subst heq
      simp [hfresh]
    · simp [heq, ← hids other, Ne.symm heq]

theorem Coherent.foldlM_deleteOperator_keys (h : g.Coherent) :
    g.operators.keys.foldlM (fun g id => (Mutation.deleteOperator id).result g) g = .ok empty :=
  h.foldlM_deleteOperator g.operators.nodup_keys fun _ => Dict.mem_keys

/-! ## Adding what is listed -/

/-- **Checks on one item after the other are checks on the list**: if adding an item keeps out just
the items that are not apart from it, all can be added if each could be the first and any two are
apart. -/
theorem foldlM_eq_ok_iff {ε σ α : Type} {step : σ → α → Except ε σ} (put : σ → α → σ)
    (Fine : σ → α → Prop) (Apart : α → α → Prop)
    (hstep : ∀ s item s', step s item = .ok s' ↔ Fine s item ∧ s' = put s item)
    (hput : ∀ s item other, Fine s item →
      (Fine (put s item) other ↔ Apart item other ∧ Fine s other))
    {items : List α} {s s' : σ} : items.foldlM step s = .ok s' ↔
      items.Pairwise Apart ∧ (∀ item ∈ items, Fine s item) ∧ s' = items.foldl put s := by
  induction items generalizing s with
  | nil => simp [pure, Except.pure, eq_comm]
  | cons item rest ih =>
    simp only [List.foldlM_cons, bind_eq_ok_iff, hstep, ih, List.pairwise_cons, List.foldl_cons,
      List.forall_mem_cons]
    -- To be fine after the first item is to be fine before it and apart from it.
    constructor
    · rintro ⟨_, ⟨hfirst, rfl⟩, hpairwise, hall, hs'⟩
      have hrest := fun other hmem => (hput s item other hfirst).mp (hall other hmem)
      exact ⟨⟨fun other hmem => (hrest other hmem).1, hpairwise⟩,
        ⟨hfirst, fun other hmem => (hrest other hmem).2⟩, hs'⟩
    · rintro ⟨⟨hapart, hpairwise⟩, ⟨hfirst, hall⟩, hs'⟩
      refine ⟨_, ⟨hfirst, rfl⟩, hpairwise, fun other hmem => ?_, hs'⟩
      exact (hput s item other hfirst).mpr ⟨hapart other hmem, hall other hmem⟩

/-- The graph with an operator at a position. -/
def withOperator (position : OperatorId → Point) (g : Graph) (op : Operator) : Graph :=
  { g with
    operators := g.operators.insert op.id op
    positions := g.positions.insert op.id (position op.id) }

/-- The graph with a link. -/
def withLink (g : Graph) (link : Link) : Graph :=
  { g with links := g.links.insert link.id link }

/-- The graph with a breakpoint under the name of a link. -/
def withBreakpoint (g : Graph) (entry : LinkId × Breakpoint) : Graph :=
  { g with breakpoints := g.breakpoints.insert entry.1 entry.2 }

/-- Operators can be added if they fit, and have names that are free and their own. -/
theorem foldlM_addOperator_eq_ok_iff {catalogue : Catalogue} {operators : List Operator}
    {position : OperatorId → Point} :
    operators.foldlM (fun g op => catalogue.checkPorts op >>= fun _ =>
        (Mutation.addOperator op (position op.id)).result g) g = .ok g' ↔
      (operators.map (·.id)).Nodup ∧
        (∀ op ∈ operators, catalogue.Fits op ∧ g.operators.get? op.id = none) ∧
        g' = operators.foldl (withOperator position) g := by
  rw [List.Nodup, List.pairwise_map]
  apply foldlM_eq_ok_iff (withOperator position)
    (fun g op => catalogue.Fits op ∧ g.operators.get? op.id = none)
  · intro g op g'
    rw [bind_eq_ok_iff, and_assoc, ← Catalogue.checkPorts_eq_ok_iff]
    simp only [Mutation.result_eq_ok_iff, Mutation.step, Draft.takes_addOperator_iff]
    exact Unique.exists_iff
  · intro g op other _
    rw [withOperator, Dict.get?_insert]
    by_cases hid : op.id = other.id
    · simp [hid]
    · simp [hid]

/-- A link keeps out those of its name and those between the same ports. -/
theorem checkLink_withLink_iff {link other : Link} (h : g.checkLink link = .ok ()) :
    (g.withLink link).checkLink other = .ok () ↔
      (link.id ≠ other.id ∧ (link.source, link.target) ≠ (other.source, other.target)) ∧
        g.checkLink other = .ok () := by
  obtain ⟨hfree, -⟩ := checkLink_eq_ok_iff.mp h
  have hname : (g.withLink link).links.get? other.id = none ↔
      link.id ≠ other.id ∧ g.links.get? other.id = none := by
    rw [withLink, Dict.get?_insert]
    by_cases hid : link.id = other.id
    · simp [hid]
    · simp [hid]
  have hbetween : (g.withLink link).linkBetween? other.source other.target = none ↔
      (link.source, link.target) ≠ (other.source, other.target) ∧
        g.linkBetween? other.source other.target = none := by
    rw [linkBetween?_eq_none_iff, linkBetween?_eq_none_iff, Ne, Prod.mk.injEq]
    -- What can stand between the ports is the new link, or a link from before.
    constructor
    · intro hnone
      refine ⟨hnone link.id link (Dict.get?_insert_self ..), fun id found hget => ?_⟩
      exact hnone id found (Dict.get?_insert_of_free hfree hget)
    · rintro ⟨hends, hnone⟩ id found hget
      rw [withLink, Dict.get?_insert] at hget
      split at hget
      · cases hget
        exact hends
      · exact hnone id found hget
  rw [checkLink_eq_ok_iff, checkLink_eq_ok_iff, hname, hbetween]
  -- The ends depend on the operators only.
  show _ ∧ _ ∧ g.hasSource other.source = true ∧ g.hasTarget other.target = true ↔ _
  simp only [and_assoc, and_left_comm]

/-- Links can be added if each could be, and they have names and pairs of ends of their own. -/
theorem foldlM_addLink_eq_ok_iff {links : List Link} :
    links.foldlM (fun g link => (Mutation.addLink link).result g) g = .ok g' ↔
      ((links.map (·.id)).Nodup ∧ (links.map fun link => (link.source, link.target)).Nodup) ∧
        (∀ link ∈ links, g.checkLink link = .ok ()) ∧ g' = links.foldl withLink g := by
  rw [List.Nodup, List.Nodup, List.pairwise_map, List.pairwise_map, ← List.pairwise_and_iff]
  apply foldlM_eq_ok_iff withLink (fun g link => g.checkLink link = .ok ())
  · intro g link g'
    exact Mutation.result_eq_ok_iff.trans Draft.takes_addLink_iff
  · intro g link other hfine
    exact checkLink_withLink_iff hfine

/-- Breakpoints can be set on links that are there. -/
theorem foldlM_setBreakpoint_eq_ok_iff {entries : List (LinkId × Breakpoint)} :
    entries.foldlM (fun g entry =>
        (Mutation.setBreakpoint entry.1 (some entry.2)).result g) g = .ok g' ↔
      (∀ entry ∈ entries, (g.links.get? entry.1).isSome) ∧
        g' = entries.foldl withBreakpoint g := by
  have hpairwise : entries.Pairwise fun _ _ => True := List.pairwise_of_forall fun _ _ => trivial
  refine Iff.trans (foldlM_eq_ok_iff withBreakpoint
    (fun g (entry : LinkId × Breakpoint) => (g.links.get? entry.1).isSome = true)
    (fun _ _ => True) ?_ ?_) (and_iff_right hpairwise)
  · intro g entry g'
    have htakes : Takes (Draft.mutate (·.setBreakpoint entry.1 (some entry.2))) g g' ↔ _ :=
      Draft.takes_setBreakpoint_iff
    exact Mutation.result_eq_ok_iff.trans htakes
  · intro g entry other _
    simp [withBreakpoint]

/-! ### What has been added -/

theorem foldl_withOperator (position : OperatorId → Point) (operators : List Operator) :
    operators.foldl (withOperator position) g = { g with
      operators := g.operators.insertAll (operators.map fun op => (op.id, op))
      positions := g.positions.insertAll (operators.map fun op => (op.id, position op.id)) } := by
  induction operators generalizing g with
  | nil => rfl
  | cons op rest ih => exact ih

theorem foldl_withLink (links : List Link) : links.foldl withLink g =
    { g with links := g.links.insertAll (links.map fun link => (link.id, link)) } := by
  induction links generalizing g with
  | nil => rfl
  | cons link rest ih => exact ih

theorem foldl_withBreakpoint (entries : List (LinkId × Breakpoint)) :
    entries.foldl withBreakpoint g =
      { g with breakpoints := g.breakpoints.insertAll entries } := by
  induction entries generalizing g with
  | nil => rfl
  | cons entry rest ih => exact ih

end Graph

/-! ## Documents -/

namespace Content

/-- **The document can be loaded**: names of operators and of links are unique, every operator fits
the catalogue, two ports are joined by at most one link, links join outputs and inputs of operators
that are listed, and breakpoints are on links that are listed. -/
structure WellFormed (catalogue : Catalogue) (content : Content) : Prop where
  operators_nodup : (content.operators.map (·.id)).Nodup
  fits : ∀ op ∈ content.operators, catalogue.Fits op
  links_nodup : (content.links.map (·.id)).Nodup
  ends_nodup : (content.links.map fun link => (link.source, link.target)).Nodup
  source : ∀ link ∈ content.links, ∃ op ∈ content.operators, op.id = link.source.operator ∧
    link.source.port ∈ op.outputs.map (·.id)
  target : ∀ link ∈ content.links, ∃ op ∈ content.operators, op.id = link.target.operator ∧
    link.target.port ∈ op.inputs.map (·.id)
  breakpoint_link : ∀ id, (content.breakpoints.get? id).isSome → id ∈ content.links.map (·.id)

/-- The graph that the document describes. -/
def toGraph (content : Content) : Graph where
  operators := .ofList (content.operators.map fun op => (op.id, op))
  positions := .ofList (content.operators.map fun op => (op.id, content.positionOf op.id))
  links := .ofList (content.links.map fun link => (link.id, link))
  breakpoints := content.breakpoints

/-- **The document as it is saved again**: operators and links in the order of their names, and a
position for each operator and for nothing else. -/
def canonical (content : Content) : Content where
  operators := content.operators.mergeSort fun a b => a.id ≤ b.id
  positions := .ofList (content.operators.map fun op => (op.id, content.positionOf op.id))
  links := content.links.mergeSort fun a b => a.id ≤ b.id
  breakpoints := content.breakpoints

/-- The graph of the document, built up from nothing with all checks, and with breakpoints set in
the given order. -/
def build (catalogue : Catalogue) (content : Content) (order : List (LinkId × Breakpoint)) :
    Except EditError Graph := do
  let g ← content.operators.foldlM (fun g op => do
    catalogue.checkPorts op
    (Mutation.addOperator op (content.positionOf op.id)).result g) Graph.empty
  let g ← content.links.foldlM (fun g link => (Mutation.addLink link).result g) g
  order.foldlM (fun g entry => (Mutation.setBreakpoint entry.1 (some entry.2)).result g) g

variable {catalogue : Catalogue} {content : Content} {g : Graph} {order : List (LinkId × Breakpoint)}

/-- Among the listed operators alone, a link can be added if its ends are ports of some. -/
theorem checkLink_iff (h : (content.operators.map (·.id)).Nodup) {link : Link} :
    (content.operators.foldl (Graph.withOperator content.positionOf) Graph.empty).checkLink link =
        .ok () ↔
      (∃ op ∈ content.operators, op.id = link.source.operator ∧
        link.source.port ∈ op.outputs.map (·.id)) ∧
      ∃ op ∈ content.operators, op.id = link.target.operator ∧
        link.target.port ∈ op.inputs.map (·.id) := by
  have hget {id : OperatorId} {op : Operator} :
      ((∅ : Dict Operator).insertAll (content.operators.map fun op => (op.id, op))).get? id =
        some op ↔ op ∈ content.operators ∧ op.id = id := Dict.get?_ofList_of_nodup h
  rw [Graph.foldl_withOperator, Graph.checkLink_eq_ok_iff, Graph.hasSource_iff,
    Graph.hasTarget_iff, Graph.linkBetween?_eq_none_iff]
  simp only [Graph.empty, hget, and_assoc]
  simp

/-- All that is listed, added to the empty graph, is the graph of the document. -/
theorem foldl_eq_toGraph (horder : order.Perm content.breakpoints.toList) :
    order.foldl Graph.withBreakpoint (content.links.foldl Graph.withLink
      (content.operators.foldl (Graph.withOperator content.positionOf) Graph.empty)) =
      content.toGraph := by
  have hbreakpoints : Graph.empty.breakpoints.insertAll order = content.breakpoints :=
    Dict.insertAll_of_perm horder
  rw [Graph.foldl_withBreakpoint, Graph.foldl_withLink, Graph.foldl_withOperator, toGraph]
  dsimp only
  rw [hbreakpoints]
  rfl

/-- **A document can be built up just if it is well-formed**, and then what is built is its graph,
in whatever order it lists what it lists, and in whatever order its breakpoints are set. -/
theorem build_eq_ok_iff (horder : order.Perm content.breakpoints.toList) :
    content.build catalogue order = .ok g ↔ content.WellFormed catalogue ∧ g = content.toGraph := by
  have hlinks : (content.links.foldl Graph.withLink
      (content.operators.foldl (Graph.withOperator content.positionOf) Graph.empty)).links =
      content.toGraph.links := by
    rw [Graph.foldl_withLink, Graph.foldl_withOperator]
    rfl
  simp only [build, bind_eq_ok_iff, Graph.foldlM_addOperator_eq_ok_iff,
    Graph.foldlM_addLink_eq_ok_iff, Graph.foldlM_setBreakpoint_eq_ok_iff]
  -- Links are checked against the operators just added, and breakpoints against those links.
  constructor
  · rintro ⟨_, ⟨hops, hall, rfl⟩, _, ⟨⟨hids, hends⟩, hchecks, rfl⟩, hbreakpoints, rfl⟩
    rw [hlinks] at hbreakpoints
    have hjoined (link : Link) (hmem : link ∈ content.links) :=
      (checkLink_iff hops).mp (hchecks link hmem)
    refine ⟨⟨hops, fun op hmem => (hall op hmem).1, hids, hends, fun link hmem =>
      (hjoined link hmem).1, fun link hmem => (hjoined link hmem).2, fun id hsome => ?_⟩,
      foldl_eq_toGraph horder⟩
    obtain ⟨breakpoint, hget⟩ := Option.isSome_iff_exists.mp hsome
    have hlink : (content.toGraph.links.get? id).isSome :=
      hbreakpoints (id, breakpoint) (horder.mem_iff.mpr (Dict.mem_toList.mpr hget))
    exact (Dict.isSome_get?_ofList_of_nodup hids).mp hlink
  · rintro ⟨h, rfl⟩
    have hchecks (link : Link) (hmem : link ∈ content.links) :=
      (checkLink_iff h.operators_nodup).mpr ⟨h.source link hmem, h.target link hmem⟩
    refine ⟨_, ⟨h.operators_nodup, fun op hmem => ⟨h.fits op hmem, rfl⟩, rfl⟩, _,
      ⟨⟨h.links_nodup, h.ends_nodup⟩, hchecks, rfl⟩, ?_, (foldl_eq_toGraph horder).symm⟩
    rintro ⟨id, breakpoint⟩ hmem
    have hget := Dict.mem_toList.mp (horder.mem_iff.mp hmem)
    have hlisted : id ∈ content.links.map (·.id) := h.breakpoint_link id (by simp [hget])
    rw [hlinks]
    exact (Dict.isSome_get?_ofList_of_nodup h.links_nodup).mpr hlisted

/-! ### Saving what was loaded -/

/-- The graph of a document that can be loaded is saved as the canonical document. -/
theorem ofGraph_toGraph (h : content.WellFormed catalogue) :
    ofGraph content.toGraph = content.canonical := by
  have hoperators : content.toGraph.operators.values = content.canonical.operators :=
    Dict.values_ofList h.operators_nodup
  have hlinks : content.toGraph.links.values = content.canonical.links :=
    Dict.values_ofList h.links_nodup
  have hpositions : (ofGraph content.toGraph).positions = content.canonical.positions := by
    refine positions_ofGraph (fun {id op} hget => ?_) fun id => ?_
    · exact ((Dict.get?_ofList_of_nodup h.operators_nodup).mp hget).2
    · have hlisted : ∀ entry ∈ content.operators.map fun op => (op.id, content.positionOf op.id),
          entry.2 = content.positionOf entry.1 := by simp
      have hget : content.toGraph.positions.get? id = _ := Dict.get?_ofList_of_eq hlisted id
      refine Iff.trans ?_ (Dict.isSome_get?_ofList_of_nodup h.operators_nodup).symm
      rw [hget, List.map_map]
      split <;> simp_all
  unfold ofGraph at hpositions ⊢
  dsimp only at hpositions
  rw [hpositions, hoperators, hlinks]
  rfl

/-- What a well-formed graph is saved as can be loaded. -/
theorem wellFormed_ofGraph (h : g.WellFormed catalogue) : (ofGraph g).WellFormed catalogue where
  operators_nodup := Dict.map_values h.operator_id ▸ g.operators.nodup_keys
  fits op hmem := by
    obtain ⟨id, hget⟩ := Dict.mem_values.mp hmem
    exact h.fits hget
  links_nodup := Dict.map_values h.link_id ▸ g.links.nodup_keys
  ends_nodup := by
    -- Two links between the same ports have the same name, so they are one.
    have hnodup : g.links.values.Nodup :=
      .of_map (·.id) (Dict.map_values h.link_id ▸ g.links.nodup_keys)
    refine List.Nodup.map_on (fun link hmem other hother hends => ?_) hnodup
    obtain ⟨id, hget⟩ := Dict.mem_values.mp hmem
    obtain ⟨id', hget'⟩ := Dict.mem_values.mp hother
    obtain ⟨hsource, htarget⟩ := Prod.mk.inj hends
    obtain rfl := h.unique hget hget' hsource htarget
    exact Option.some.inj (hget.symm.trans hget')
  source link hmem := by
    obtain ⟨id, hget⟩ := Dict.mem_values.mp hmem
    obtain ⟨op, hop, hport⟩ := h.source hget
    exact ⟨op, Dict.mem_values.mpr ⟨_, hop⟩, h.operator_id hop, hport⟩
  target link hmem := by
    obtain ⟨id, hget⟩ := Dict.mem_values.mp hmem
    obtain ⟨op, hop, hport⟩ := h.target hget
    exact ⟨op, Dict.mem_values.mpr ⟨_, hop⟩, h.operator_id hop, hport⟩
  breakpoint_link id hsome := by
    obtain ⟨link, hget⟩ := Option.isSome_iff_exists.mp (h.breakpoint_link hsome)
    exact List.mem_map.mpr ⟨link, Dict.mem_values.mpr ⟨id, hget⟩, h.link_id hget⟩

/-- It is saved as the same document again. -/
theorem canonical_ofGraph (h : g.Coherent) : (ofGraph g).canonical = ofGraph g := by
  have hposition (id : OperatorId) : (ofGraph g).positionOf id = g.positionOf id := by
    rw [positionOf, positions_ofGraph h.operator_id h.position_iff, Graph.positionOf]
  -- The values of a map come in the order of their keys, so to sort them changes nothing.
  have hoperators : (g.operators.values.mergeSort fun a b => a.id ≤ b.id) = g.operators.values :=
    List.mergeSort_of_pairwise (by simpa using Dict.pairwise_values h.operator_id)
  have hlinks : (g.links.values.mergeSort fun a b => a.id ≤ b.id) = g.links.values :=
    List.mergeSort_of_pairwise (by simpa using Dict.pairwise_values h.link_id)
  calc (ofGraph g).canonical
      = ⟨g.operators.values.mergeSort fun a b => a.id ≤ b.id,
          .ofList (g.operators.values.map fun op => (op.id, (ofGraph g).positionOf op.id)),
          g.links.values.mergeSort fun a b => a.id ≤ b.id, g.breakpoints⟩ := rfl
    _ = ofGraph g := by
      simp only [hoperators, hlinks, hposition]
      rfl

end Content

/-! ## Loading -/

namespace Session

open Editor (Open Realizes)

variable {σ : Type} [Surface σ] {catalogue : Catalogue}

omit [Surface σ] in
/-- Inside a bundle, taking all operators away and adding those of a document is building the
document up. -/
theorem meets_build {e : Editor} (hopen : e.Open catalogue) (content : Content)
    (order : List (LinkId × Breakpoint)) : Editor.Meets catalogue (do
      Editor.deleteAll e.graph.operators.keys []
      Editor.addAll (content.operators.map fun op => (op, content.positionOf op.id)) content.links
      order.forM fun (id, breakpoint) => Editor.setBreakpoint id (some breakpoint)) e
        (content.build catalogue order) := by
  have hset (entry : LinkId × Breakpoint) :
      Realizes catalogue (Editor.setBreakpoint entry.1 (some entry.2)) _ :=
    Editor.realizes_setBreakpoint entry.1 (some entry.2)
  have hall := Realizes.bind (Editor.realizes_deleteAll e.graph.operators.keys)
    (.bind (Editor.realizes_addAll
        (content.operators.map fun op => (op, content.positionOf op.id)) content.links)
      (.forM hset order)) e hopen
  have hempty := hopen.wellFormed.foldlM_deleteOperator_keys
  simp only [hempty, List.foldlM_map, bind_assoc] at hall
  exact hall

variable {s : Session σ}

/-- **Loading comes down to building the document up**: it fails for the same cause, and if it
succeeds it leaves that graph and no history. -/
theorem load_build (h : s.AtRest catalogue) (henabled : s.editor.enabled = true)
    (content : Content) (order : List (LinkId × Breakpoint)) :
    match content.build catalogue order with
    | .error cause => ∃ s', (loadInOrder content order).exec s = (.error cause, s')
    | .ok g => ∃ s', (loadInOrder content order).exec s = (.ok (), s') ∧ s'.graph = g ∧
        s'.editor.history.undoable = [] ∧ s'.editor.history.redoable = [] := by
  have hopen : Open catalogue { s.editor with bundled := some [] } :=
    ⟨henabled, rfl, h.catalogue, h.wellFormed⟩
  have hmeets := meets_build hopen content order
  have hload : (loadInOrder content order).exec s =
      (((replaceBy content order >>= fun _ => modify Editor.clearHistory).exec s.editor).1,
        settle { s with editor :=
          ((replaceBy content order >>= fun _ => modify Editor.clearHistory).exec s.editor).2 }) :=
    rfl
  rw [hload]
  cases hbuild : content.build catalogue order with
  | error cause =>
    -- What was done is taken back, whatever it was; the cause stays the same.
    rw [hbuild] at hmeets
    obtain ⟨e', hexec⟩ := hmeets
    have hreplace : (replaceBy content order).exec s.editor = (.error cause, { e' with
        bundled := none
        draft := (Command.undo (e'.bundled.getD [])).exec e'.draft |>.2 }) := by
      rw [replaceBy, Editor.exec_bundle_none h.idle, Attempt.exec_get_bind, hexec]
    rw [Attempt.exec_bind_error hreplace]
    exact ⟨_, rfl⟩
  | ok g =>
    -- The bundle goes on record first, and then the whole history is dropped.
    rw [hbuild] at hmeets
    obtain ⟨e', hexec, rfl, -⟩ := hmeets
    have hreplace : (replaceBy content order).exec s.editor = (.ok (), { e' with
        bundled := none
        history := e'.history.record (e'.bundled.getD []) }) := by
      rw [replaceBy, Editor.exec_bundle_none h.idle, Attempt.exec_get_bind, hexec]
    rw [Attempt.exec_bind_ok hreplace]
    refine ⟨_, rfl, ?_, ?_, ?_⟩
    · rw [settle_graph]
      rfl
    · rw [settle_editor]
      rfl
    · rw [settle_editor]
      rfl

variable {content : Content} {order : List (LinkId × Breakpoint)}

/-- **A document is loaded just if it is well-formed**, whatever was there before, and in whatever
order its breakpoints are set. -/
theorem loadInOrder_eq_ok_iff (h : s.AtRest catalogue) (henabled : s.editor.enabled = true)
    (horder : order.Perm content.breakpoints.toList) :
    ((loadInOrder content order).exec s).1 = .ok () ↔ content.WellFormed catalogue := by
  have hload := load_build h henabled content order
  cases hbuild : content.build catalogue order with
  | error cause =>
    rw [hbuild] at hload
    obtain ⟨s', hexec⟩ := hload
    have hrefused : ¬ content.WellFormed catalogue := fun hwf => by
      cases hbuild.symm.trans ((Content.build_eq_ok_iff horder).mpr ⟨hwf, rfl⟩)
    simp [hexec, hrefused]
  | ok g =>
    rw [hbuild] at hload
    obtain ⟨s', hexec, -⟩ := hload
    simp [hexec, ((Content.build_eq_ok_iff horder).mp hbuild).1]

theorem load_eq_ok_iff (h : s.AtRest catalogue) (henabled : s.editor.enabled = true) :
    ((load content).exec s).1 = .ok () ↔ content.WellFormed catalogue :=
  loadInOrder_eq_ok_iff h henabled (.refl _)

/-- **A document that can be loaded replaces all that was there**, by the same pipeline in whatever
order breakpoints are set. -/
theorem loadInOrder_of_wellFormed (h : s.AtRest catalogue) (henabled : s.editor.enabled = true)
    (horder : order.Perm content.breakpoints.toList) (hwf : content.WellFormed catalogue) :
    ∃ s', (loadInOrder content order).exec s = (.ok (), s') ∧ s'.content = content.canonical ∧
      s'.editor.history.undoable = [] ∧ s'.editor.history.redoable = [] := by
  have hload := load_build h henabled content order
  rw [(Content.build_eq_ok_iff horder).mpr ⟨hwf, rfl⟩] at hload
  obtain ⟨s', hexec, hgraph, hhistory⟩ := hload
  refine ⟨s', hexec, ?_, hhistory⟩
  rw [Session.content, hgraph, Content.ofGraph_toGraph hwf]

/-- **Loading accepts exactly the well-formed documents and reproduces them**: in every reachable
session that is not locked, a document is loaded just if it is well-formed; then it is what would
be saved, up to order and positions, and nothing can be undone or redone.  So what any session
over the same catalogue would save can be loaded, and is saved as the same document again. -/
theorem load_after (catalogue : Catalogue) (settings : Settings) (clock : Nat → Nat) (surface : σ)
    (calls : List (Call σ))
    (henabled : ((start catalogue settings clock surface).after calls).editor.enabled = true) :
    let s := (start catalogue settings clock surface).after calls
    (∀ content, ((load content).exec s).1 = .ok () ↔ content.WellFormed catalogue) ∧
    (∀ content, ((load content).exec s).1 = .ok () →
      ((load content).exec s).2.content = content.canonical ∧
      ((load content).exec s).2.editor.history.undoable = [] ∧
      ((load content).exec s).2.editor.history.redoable = []) ∧
    ∀ {τ : Type} [Surface τ] (settings' : Settings) (clock' : Nat → Nat) (surface' : τ)
      (calls' : List (Call τ)),
      let other := (start catalogue settings' clock' surface').after calls'
      ((load other.content).exec s).1 = .ok () ∧
        ((load other.content).exec s).2.content = other.content := by
  intro s
  have hrest := atRest_after catalogue settings clock surface calls
  refine ⟨fun content => load_eq_ok_iff hrest henabled, fun content hok => ?_, ?_⟩
  · obtain ⟨s', hexec, hloaded⟩ :=
      loadInOrder_of_wellFormed hrest henabled (.refl _) ((load_eq_ok_iff hrest henabled).mp hok)
    have hload : (load content).exec s = (.ok (), s') := hexec
    rw [hload]
    exact hloaded
  · intro τ _ settings' clock' surface' calls' other
    have hwf := (atRest_after catalogue settings' clock' surface' calls').wellFormed
    obtain ⟨s', hexec, hcontent, -⟩ :=
      loadInOrder_of_wellFormed hrest henabled (.refl _) (Content.wellFormed_ofGraph hwf)
    have hload : (load other.content).exec s = (.ok (), s') := hexec
    rw [hload]
    exact ⟨rfl, hcontent.trans (Content.canonical_ofGraph hwf.toCoherent)⟩

/-- Two joined operators that are listed in the wrong order and stand nowhere are loaded, and saved
in order and at the origin. -/
theorem load_after_joined :
    let scan : Operator := ⟨"scan", "Scan", "1", .object [], [], [⟨"output-0", ""⟩], false⟩
    let sink : Operator := ⟨"sink", "Sink", "1", .object [], [⟨"input-0", ""⟩], [], false⟩
    let content : Content := ⟨[sink, scan], ∅, [⟨"l", ⟨"scan", "output-0"⟩, ⟨"sink", "input-0"⟩⟩], ∅⟩
    let s := (start (.ofMetadata ⟨[⟨"Scan", .object [], ⟨"Scan", none, "Input", 0, 1⟩, "1"⟩,
        ⟨"Sink", .object [], ⟨"Sink", none, "Output", 1, 0⟩, "1"⟩], []⟩)
      .initial id Blank.mk).after []
    s.editor.enabled = true ∧ ((load content).exec s).1 = .ok () ∧
      ((load content).exec s).2.content.operators = [scan, sink] ∧
      ((load content).exec s).2.content.positions.toList =
        [("scan", .origin), ("sink", .origin)] := by
  intro scan sink content s
  have henabled : s.editor.enabled = true := rfl
  obtain ⟨haccepts, hreproduces, -⟩ := load_after _ _ _ _ _ henabled
  have hwf : content.WellFormed s.catalogue := {
    operators_nodup := by decide
    fits := by
      intro op hmem
      simp only [content, List.mem_cons, List.not_mem_nil, or_false] at hmem
      rcases hmem with rfl | rfl
      · exact ⟨_, rfl, by decide, by decide⟩
      · exact ⟨_, rfl, by decide, by decide⟩
    links_nodup := by decide
    ends_nodup := by decide
    source := by simp [content, scan]
    target := by simp [content, sink]
    breakpoint_link := fun _ h => nomatch h }
  have hok := (haccepts content).mpr hwf
  obtain ⟨hcontent, -⟩ := hreproduces content hok
  refine ⟨henabled, hok, ?_, ?_⟩
  · rw [hcontent]
    simp [Content.canonical, content, scan, sink, List.mergeSort]
  · rw [hcontent]
    decide +kernel

end Session

end PipelineEditor
