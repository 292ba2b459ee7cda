import PipelineEditor.Proofs.Echoes
import PipelineEditor.Proofs.Entry
import PipelineEditor.Proofs.Shapes

/-!
# Link shapes and their links

A user draws the shape of a link, or drags one of its ends elsewhere.  The bridge takes the shape
over before the graph is asked, and what is asked depends on both: the link may be there already, or
be there with other ends, and the shape may stand for a link or be loose.  In every case the graph
has the link afterwards just if the shape stands for one, and nothing else in it has changed.

## Main definitions

* `Graph.Attaches g id shape link`: the shape stands for the link
* `Bridge.reshapes?`: the link that a gesture draws or drags, with its new shape
* `Graph.Reattached g id link? g'`: a link has been exchanged, and nothing else has changed

## Main results

* `Graph.Coherent.linkOf?_eq_some_iff`: the bridge finds the link that a shape stands for
* `Bridge.effectAll_reconcile`: what is asked about a new shape is granted in every case
* `Session.attached_after`: after every run a link gesture makes the graph agree with the shape
-/

namespace PipelineEditor

/-! ## What a shape stands for -/

namespace Graph

variable {g g' : Graph} {id : LinkId} {shape : LinkShape} {link : Link} {link? : Option Link}

/-- **The shape of a link stands for it**: both ends sit on its ports, an output and an input of
operators that are there, and no other link joins these. -/
structure Attaches (g : Graph) (id : LinkId) (shape : LinkShape) (link : Link) : Prop where
  id_eq : link.id = id
  shape_eq : shape = ⟨.port link.source, .port link.target⟩
  source : ∃ op, g.operators.get? link.source.operator = some op ∧
    link.source.port ∈ op.outputs.map (·.id)
  target : ∃ op, g.operators.get? link.target.operator = some op ∧
    link.target.port ∈ op.inputs.map (·.id)
  free : ∀ {key other}, g.links.get? key = some other → other.source = link.source →
    other.target = link.target → key = id

/-- In a coherent graph at most one link joins two ports, and that is the one found. -/
theorem Coherent.linkBetween?_eq_some_iff (h : g.Coherent) {source target : PortRef} :
    g.linkBetween? source target = some link ↔
      g.links.get? link.id = some link ∧ link.source = source ∧ link.target = target := by
  constructor
  · intro hfound
    have hget := (Dict.mem_values_iff h.link_id).mp (List.mem_of_find?_eq_some hfound)
    have hjoins := List.find?_some hfound
    exact ⟨hget, by simpa [Link.joins] using hjoins⟩
  · rintro ⟨hget, rfl, rfl⟩
    cases hfound : g.linkBetween? link.source link.target with
    | none => exact absurd ⟨rfl, rfl⟩ (linkBetween?_eq_none_iff.mp hfound link.id link hget)
    | some other =>
      obtain ⟨key, hother⟩ := Dict.mem_values.mp (List.mem_of_find?_eq_some hfound)
      have hjoins : other.source = link.source ∧ other.target = link.target := by
        simpa [Link.joins] using List.find?_some hfound
      obtain rfl := h.unique hother hget hjoins.1 hjoins.2
      exact congrArg some (Option.some.inj (hother.symm.trans hget))

/-- **The bridge finds the link that a shape stands for.** -/
theorem Coherent.linkOf?_eq_some_iff (h : g.Coherent) :
    Bridge.linkOf? g id shape = some link ↔ g.Attaches id shape link := by
  -- A shape that is loose at an end stands for no link, so both ends may be taken to be at ports.
  have hports (source target : PortRef) : Bridge.linkOf? g id ⟨.port source, .port target⟩ =
      if !g.hasSource source || !g.hasTarget target then none
      else if (g.linkBetween? source target).any (·.id ≠ id) then none
      else some ⟨id, source, target⟩ := by
    cases hbetween : g.linkBetween? source target <;>
      simp [Bridge.linkOf?, Anchor.port?, hbetween]
  constructor
  · intro hlink
    obtain ⟨rfl, rfl⟩ := LinkShape.eq_ofLink_of_linkOf? hlink
    unfold LinkShape.ofLink at hlink
    rw [hports] at hlink
    split at hlink
    · cases hlink
    · rename_i hends
      have hends : g.hasSource link.source = true ∧ g.hasTarget link.target = true := by
        simpa using hends
      refine ⟨rfl, rfl, hasSource_iff.mp hends.1, hasTarget_iff.mp hends.2,
        fun {key other} hother hsource htarget => ?_⟩
      have hkey := h.link_id hother
      have hbetween : g.linkBetween? link.source link.target = some other :=
        h.linkBetween?_eq_some_iff.mpr ⟨hkey ▸ hother, hsource, htarget⟩
      -- A link of another name between the ports would have been found.
      by_contra hne
      rw [hbetween, Option.any_some, if_pos (decide_eq_true (hkey ▸ hne))] at hlink
      cases hlink
  · rintro ⟨rfl, rfl, hsource, htarget, hfree⟩
    rw [hports, hasSource_iff.mpr hsource, hasTarget_iff.mpr htarget]
    cases hbetween : g.linkBetween? link.source link.target with
    | none => rfl
    | some other =>
      obtain ⟨hother, hends⟩ := h.linkBetween?_eq_some_iff.mp hbetween
      have hsame : other.id = link.id := hfree hother hends.1 hends.2
      simp [hsame]

/-- Once the link that is there under the name is gone, the one that a shape stands for may be
added. -/
theorem Attaches.checkLink (h : g.Attaches id shape link) :
    (g.dropLink id).checkLink link = .ok () := by
  refine checkLink_eq_ok_iff.mpr ⟨?_, ?_, hasSource_iff.mpr h.source, hasTarget_iff.mpr h.target⟩
  · rw [h.id_eq]
    exact Dict.get?_erase_self ..
  · refine linkBetween?_eq_none_iff.mpr fun key other hget hends => ?_
    have hother : (g.links.erase id).get? key = some other := hget
    rw [Dict.get?_erase] at hother
    split at hother
    · cases hother
    · rename_i hne
      exact hne (h.free hother hends.1 hends.2).symm

/-! ## One link in place of another -/

/-- **The graph has this link under the name, or none**, and nothing else has changed.  The
breakpoint stays only as long as the link does. -/
structure Reattached (g : Graph) (id : LinkId) (link? : Option Link) (g' : Graph) : Prop where
  operators : g'.operators = g.operators
  positions : g'.positions = g.positions
  link : g'.links.get? id = link?
  breakpoint : g'.breakpoints.get? id =
    if g.links.get? id = link? then g.breakpoints.get? id else none
  links : ∀ other, other ≠ id → g'.links.get? other = g.links.get? other
  breakpoints : ∀ other, other ≠ id → g'.breakpoints.get? other = g.breakpoints.get? other

/-- The graph with a link taken away, and another one added in its place, if there is one. -/
def exchange (g : Graph) (id : LinkId) (link? : Option Link) : Graph :=
  match link? with
  | some link => { g.dropLink id with links := (g.dropLink id).links.insert id link }
  | none => g.dropLink id

theorem reattached_self (h : g.links.get? id = link?) : g.Reattached id link? g :=
  ⟨rfl, rfl, h, (if_pos h).symm, fun _ _ => rfl, fun _ _ => rfl⟩

theorem reattached_exchange (h : g.links.get? id ≠ link?) :
    g.Reattached id link? (g.exchange id link?) := by
  have hdropped {other : LinkId} (hne : other ≠ id) :
      (g.dropLink id).links.get? other = g.links.get? other ∧
        (g.dropLink id).breakpoints.get? other = g.breakpoints.get? other :=
    ⟨(Dict.get?_erase ..).trans (if_neg hne.symm), (Dict.get?_erase ..).trans (if_neg hne.symm)⟩
  have hgone : (g.dropLink id).breakpoints.get? id = none := Dict.get?_erase_self ..
  cases link? with
  | none => exact ⟨rfl, rfl, Dict.get?_erase_self .., hgone.trans (if_neg h).symm,
      fun _ hne => (hdropped hne).1, fun _ hne => (hdropped hne).2⟩
  | some link => exact ⟨rfl, rfl, Dict.get?_insert_self .., hgone.trans (if_neg h).symm,
      fun _ hne => (Dict.get?_insert ..).trans ((if_neg hne.symm).trans (hdropped hne).1),
      fun _ hne => (hdropped hne).2⟩

/-- Where there is no link under a name, there is nothing to take away. -/
theorem Coherent.dropLink_of_none (h : g.Coherent) (hfree : g.links.get? id = none) :
    g.dropLink id = g := by
  unfold dropLink
  rw [Dict.erase_of_get?_eq_none hfree,
    Dict.erase_of_get?_eq_none (h.get?_breakpoints_eq_none hfree)]

theorem Coherent.dropLink (h : g.Coherent) (id : LinkId) : (g.dropLink id).Coherent := by
  cases hget : g.links.get? id with
  | none => exact (h.dropLink_of_none hget).symm ▸ h
  | some link => exact h.deleteLink hget

end Graph

/-! ## What is asked about a shape -/

namespace Bridge

variable {bridge : Bridge} {g : Graph} {id : LinkId} {shape : LinkShape} {gesture : Gesture}

/-- The link that a gesture draws or drags, with the shape that the gesture gives it.  The end of a
link that neither bridge nor graph knows cannot be dragged. -/
def reshapes? (bridge : Bridge) (g : Graph) : Gesture → Option (LinkId × LinkShape)
  | .linkDrawn id source target => some (id, ⟨source, target⟩)
  | .linkEndMoved id moved destination =>
    (bridge.shapes.get? id <|> (g.links.get? id).map LinkShape.ofLink).map fun shape =>
      (id, moveEnd shape moved destination)
  | _ => none

/-- A link gesture sets the shape, and asks for what makes the graph agree with it. -/
theorem lift_of_reshapes? (hreplaying : bridge.replaying = false)
    (h : bridge.reshapes? g gesture = some (id, shape)) :
    bridge.lift g gesture =
      ((bridge.setShape id shape).reconcile g id, bridge.setShape id shape) := by
  unfold lift
  rw [hreplaying, if_neg Bool.false_ne_true]
  cases gesture with
  | linkDrawn drawn source target =>
    cases h
    rfl
  | linkEndMoved dragged moved destination =>
    obtain ⟨known, hknown, heq⟩ := Option.map_eq_some_iff.mp h
    cases heq
    dsimp only
    rw [hknown]
  | _ => cases h

/-- **What is asked about a new shape is granted in every case**: nothing is asked if the graph has
the link that the shape stands for, and else this is exchanged for the one that is there. -/
theorem effectAll_reconcile (h : g.Coherent) (bridge : Bridge) (id : LinkId) (shape : LinkShape) :
    g.links.get? id = linkOf? g id shape ∧ (bridge.setShape id shape).reconcile g id = [] ∨
      g.links.get? id ≠ linkOf? g id shape ∧
        Intent.effectAll ((bridge.setShape id shape).reconcile g id) g =
          .ok (g.exchange id (linkOf? g id shape)) := by
  have hdelete {link : Link} (hget : g.links.get? id = some link) :
      (Intent.deleteLink id).effect g = .ok (g.dropLink id) := by
    refine (Mutation.result_deleteLink id).trans ?_
    rw [Graph.findLink_eq_ok_iff.mpr hget]
    rfl
  have hadd {link : Link} (hattaches : g.Attaches id shape link) :
      (Intent.addLink link).effect (g.dropLink id) = .ok (g.exchange id (some link)) := by
    refine (Mutation.result_addLink link).trans ?_
    rw [hattaches.checkLink, hattaches.id_eq]
    rfl
  have hrecord : (bridge.setShape id shape).shapes.get? id = some shape := Dict.get?_insert_self ..
  unfold reconcile
  rw [hrecord, Option.bind_some]
  cases hget : g.links.get? id with
  | none =>
    cases hlink : linkOf? g id shape with
    | none => exact .inl ⟨rfl, rfl⟩
    | some link =>
      have hadded := hadd (h.linkOf?_eq_some_iff.mp hlink)
      rw [h.dropLink_of_none hget] at hadded
      refine .inr ⟨nofun, ?_⟩
      show (Intent.addLink link).effect g >>= Except.ok = _
      rw [hadded]
      rfl
  | some existing =>
    cases hlink : linkOf? g id shape with
    | none =>
      refine .inr ⟨nofun, ?_⟩
      show (Intent.deleteLink id).effect g >>= Except.ok = _
      rw [hdelete hget]
      rfl
    | some link =>
      have hattaches := h.linkOf?_eq_some_iff.mp hlink
      dsimp only
      split
      · -- The names are the same too, so the link that is there is the one wanted.
        rename_i hsame
        have hends : existing.source = link.source ∧ existing.target = link.target := by
          simpa [Link.sameEnds, Link.joins] using hsame
        have hid : existing.id = link.id := (h.link_id hget).trans hattaches.id_eq.symm
        have heq : existing = link := by
          cases existing
          cases link
          exact (Link.mk.injEq ..).mpr ⟨hid, hends⟩
        exact .inl ⟨congrArg some heq, rfl⟩
      · rename_i hdiffer
        refine .inr ⟨fun heq => hdiffer ?_, ?_⟩
        · cases heq
          simp [Link.sameEnds, Link.joins]
        · show (Intent.deleteLink id).effect g >>= (fun cut =>
            (Intent.addLink link).effect cut >>= Except.ok) = _
          rw [hdelete hget]
          show (Intent.addLink link).effect (g.dropLink id) >>= Except.ok = _
          rw [hadd hattaches]
          rfl

end Bridge

/-! ## Sessions -/

namespace Session

variable {σ : Type} [Surface σ]

/-- **After every run a link gesture makes the graph agree with the shape it leaves.**  Where the
pipeline is not locked the gesture is granted; the graph then has a link of that name just if the
shape stands for one, and that link; and nothing else of the graph has changed.  Either pipeline and
history are as they were, or one entry has been added, and undoing it leads back to the graph before
with the link and its breakpoint. -/
theorem attached_after (catalogue : Catalogue) (settings : Settings) (clock : Nat → Nat)
    (surface : σ) (calls : List (Call σ)) {gesture : Gesture} {id : LinkId} {shape : LinkShape} :
    let s := (start catalogue settings clock surface).after calls
    let s' := ((handleGesture gesture).exec s).2
    s.editor.enabled = true → s.view.bridge.reshapes? s.graph gesture = some (id, shape) →
      (∃ count, ((handleGesture gesture).exec s).1 = .ok count) ∧
      (∀ link, s'.graph.links.get? id = some link ↔ s.graph.Attaches id shape link) ∧
      s.graph.Reattached id (s'.graph.links.get? id) s'.graph ∧
      (s.Untouched s' ∨ s.AddsEntry s') := by
  intro s s' henabled hreshapes
  have hrest : s.AtRest catalogue := atRest_after ..
  have hlimit : 0 < s.editor.limit := limit_pos_after ..
  have hcoherent : s.graph.Coherent := hrest.wellFormed.toCoherent
  have hreplaying : s.view.bridge.replaying = false := after_replaying rfl calls
  have hlift := Bridge.lift_of_reshapes? hreplaying hreshapes
  rcases Bridge.effectAll_reconcile hcoherent s.view.bridge id shape with
    ⟨hsame, hnothing⟩ | ⟨hdiffers, heffect⟩
  · -- The graph agrees with the shape already.
    rw [hnothing] at hlift
    have hasks : (s.view.bridge.lift s.graph gesture).1 = [] := congrArg Prod.fst hlift
    have heffect : Intent.effectAll (s.view.bridge.lift s.graph gesture).1 s.graph =
        .ok s.graph := by
      rw [hasks]
      rfl
    obtain ⟨hok, hgraph, huntouched, -⟩ := handleGesture_granted hrest henabled hlimit heffect
    have hgraph : s'.graph = s.graph := hgraph
    refine ⟨⟨_, hok⟩, fun link => ?_, ?_, .inl (huntouched hasks)⟩
    · rw [hgraph, hsame]
      exact hcoherent.linkOf?_eq_some_iff
    · rw [hgraph]
      exact Graph.reattached_self rfl
  · have hasks : _ = (s.view.bridge.setShape id shape).reconcile s.graph id :=
      congrArg Prod.fst hlift
    rw [← hasks] at heffect
    obtain ⟨hok, hgraph, -, hentry⟩ := handleGesture_granted hrest henabled hlimit heffect
    have hgraph : s'.graph = s.graph.exchange id (Bridge.linkOf? s.graph id shape) := hgraph
    have hreattached := Graph.reattached_exchange hdiffers
    rw [← hgraph] at hreattached hentry
    refine ⟨⟨_, hok⟩, fun link => ?_, hreattached.link.symm ▸ hreattached,
      .inr (hentry (.inr fun heq => hdiffers ?_))⟩
    · rw [hreattached.link]
      exact hcoherent.linkOf?_eq_some_iff
    · rw [← heq, hreattached.link]

/-- The end of a link with a breakpoint is dragged to another input: the link goes there without the
breakpoint, and an undo brings back both as they were. -/
theorem attached_after_dragged :
    let scan : Operator := ⟨"scan", "Scan", "1", .object [], [], [⟨"output-0", ""⟩], false⟩
    let sink (id : OperatorId) : Operator :=
      ⟨id, "Sink", "1", .object [], [⟨"input-0", ""⟩], [], false⟩
    let link : Link := ⟨"l", ⟨"scan", "output-0"⟩, ⟨"sink", "input-0"⟩⟩
    let elsewhere : PortRef := ⟨"other", "input-0"⟩
    let s := (start (.ofMetadata ⟨[⟨"Scan", .object [], ⟨"Scan", none, "Input", 0, 1⟩, "1"⟩,
        ⟨"Sink", .object [], ⟨"Sink", none, "Output", 1, 0⟩, "1"⟩], []⟩)
      .initial id (Canvas.empty false)).after
        [.act (.addAll [(scan, .origin), (sink "sink", .origin), (sink "other", .origin)] [link]),
          .act (.setBreakpoint "l" (some (.count 3)))]
    let s' := ((handleGesture (.linkEndMoved "l" .target (.port elsewhere))).exec s).2
    let s'' := (Session.undo.exec s').2
    s'.graph.links.get? "l" = some ⟨"l", link.source, elsewhere⟩ ∧
      s'.graph.breakpoints.get? "l" = none ∧ s''.graph.links.get? "l" = some link ∧
      s''.graph.breakpoints.get? "l" = some (.count 3) := by
  intro scan sink link elsewhere s s' s''
  have hreshapes : s.view.bridge.reshapes? s.graph (.linkEndMoved "l" .target (.port elsewhere)) =
      some ("l", ⟨.port link.source, .port elsewhere⟩) := by decide +kernel
  obtain ⟨-, hlink, hreattached, hhistory⟩ :=
    attached_after _ _ _ _ _ (by decide +kernel) hreshapes
  have hbefore : s.graph.links.get? "l" = some link := by decide +kernel
  have honly : s.graph.links.keys = ["l"] := by decide +kernel
  have hfree {key : LinkId} {other : Link} (hget : s.graph.links.get? key = some other) :
      key = "l" := by
    have hmem : key ∈ s.graph.links.keys := Dict.mem_keys.mpr (hget ▸ rfl)
    rw [honly] at hmem
    exact List.mem_singleton.mp hmem
  have hthere : s'.graph.links.get? "l" = some ⟨"l", link.source, elsewhere⟩ :=
    (hlink _).mpr ⟨rfl, rfl, ⟨scan, by decide +kernel⟩, ⟨sink "other", by decide +kernel⟩,
      fun hget _ _ => hfree hget⟩
  have hundone : s''.graph = s.graph := by
    refine (hhistory.resolve_left fun huntouched => ?_).graph
    rw [huntouched.1, hbefore] at hthere
    exact absurd hthere (by decide +kernel)
  refine ⟨hthere, ?_, by rw [hundone, hbefore], by rw [hundone]; decide +kernel⟩
  rw [hreattached.breakpoint, hthere, hbefore]
  exact if_neg (by decide +kernel)

end Session

end PipelineEditor
