import PipelineEditor.Proofs.Draft

/-!
# Changes and their inverses

A change is faithful to a graph when what it records is what the graph holds.  The inverse of a
faithful change puts the graph back, whatever has been announced meanwhile.  The one case with an
argument is the deletion of an operator: its inverse adds the links at it one after the other, and
each of them may be added because it was there before among the links that are back already.

## Main definitions

* `Draft.Takes attempt g g'`: on every draft of `g` the attempt succeeds and leaves one of `g'`
* `Change.Faithful g`: what the change records is what the graph holds
* `Command.Swaps command g g'`: redoing the command takes `g` to `g'`, undoing it takes `g'` to `g`

## Main results

* `Draft.takes_addOperator_iff`, …: where the mutations lead
* `Change.takes_restoreLinks`: links that were taken away can all be put back
* `Change.Faithful.takes_inverse`: the inverse of a faithful change puts the graph back
-/

namespace PipelineEditor

/-! ## Attempts that take one graph to another -/

namespace Draft

/-- **The attempt takes a graph to another**: it succeeds on every draft of the one, whatever has
been announced, and leaves a draft of the other. -/
def Takes (attempt : Attempt Draft Unit) (g g' : Graph) : Prop :=
  ∀ announced, ∃ more, attempt.exec ⟨g, announced⟩ = (.ok (), ⟨g', more⟩)

/-- What the attempt does to the graph does not depend on what has been announced. -/
def Uniform (attempt : Attempt Draft Unit) : Prop :=
  ∀ d d', attempt.exec d = (.ok (), d') → Takes attempt d.graph d'.graph

variable {attempt : Attempt Draft Unit} {next : Unit → Attempt Draft Unit} {g g' g'' : Graph}

namespace Takes

theorem pure (g : Graph) : Takes (pure ()) g g := fun announced => ⟨announced, rfl⟩

theorem bind (h : Takes attempt g g') (hnext : Takes (next ()) g' g'') :
    Takes (attempt >>= next) g g'' := by
  intro announced
  obtain ⟨more, hexec⟩ := h announced
  obtain ⟨rest, hrest⟩ := hnext more
  exact ⟨rest, by rw [Attempt.exec_bind_ok hexec, hrest]⟩

theorem mutate {step : Graph → Except EditError (Graph × List Event)} {events : List Event}
    (h : step g = .ok (g', events)) : Takes (mutate step) g g' := by
  intro announced
  exact ⟨announced ++ events, by rw [exec_mutate, h]⟩

/-- An attempt takes a graph to one other at most. -/
theorem unique (h : Takes attempt g g') (h' : Takes attempt g g'') : g' = g'' := by
  obtain ⟨more, hexec⟩ := h []
  obtain ⟨more', hexec'⟩ := h' []
  rw [hexec] at hexec'
  cases hexec'
  rfl

theorem exec (h : Takes attempt g g') {d : Draft} (hd : d.graph = g) :
    ∃ d', attempt.exec d = (.ok (), d') ∧ d'.graph = g' := by
  obtain ⟨_, announced⟩ := d
  cases hd
  obtain ⟨more, hexec⟩ := h announced
  exact ⟨_, hexec, rfl⟩

end Takes

namespace Uniform

theorem pure : Uniform (pure ()) := by
  intro d d' h
  cases h
  exact Takes.pure d.graph

theorem mutate (step : Graph → Except EditError (Graph × List Event)) :
    Uniform (mutate step) := by
  intro d d' h
  rw [exec_mutate] at h
  rcases hstep : step d.graph with cause | ⟨g, events⟩ <;> rw [hstep] at h <;> cases h
  exact fun announced => ⟨announced ++ events, by rw [exec_mutate, hstep]⟩

theorem bind (h : Uniform attempt) (hnext : Uniform (next ())) : Uniform (attempt >>= next) := by
  intro d d' hexec
  obtain ⟨_, middle, hfirst, hsecond⟩ := Attempt.exec_bind_eq_ok_iff.mp hexec
  exact (h d middle hfirst).bind (hnext middle d' hsecond)

theorem forM {α : Type} {step : α → Attempt Draft Unit} (h : ∀ item, Uniform (step item))
    (items : List α) : Uniform (items.forM step) := by
  induction items with
  | nil => exact pure
  | cons item rest ih => exact bind (h item) ih

end Uniform

theorem takes_mutate_iff {step : Graph → Except EditError (Graph × List Event)} :
    Takes (mutate step) g g' ↔ ∃ events, step g = .ok (g', events) := by
  constructor
  · intro h
    obtain ⟨more, hexec⟩ := h []
    rw [exec_mutate] at hexec
    rcases hstep : step g with cause | ⟨g'', events⟩ <;> rw [hstep] at hexec <;> cases hexec
    exact ⟨events, rfl⟩
  · rintro ⟨events, hstep⟩
    exact .mutate hstep

/-- A sequence whose first part depends on the graph only goes by way of one graph. -/
theorem takes_bind_iff (h : Uniform attempt) (hnext : Uniform (next ())) :
    Takes (attempt >>= next) g g'' ↔ ∃ g', Takes attempt g g' ∧ Takes (next ()) g' g'' := by
  constructor
  · intro hbind
    obtain ⟨more, hexec⟩ := hbind []
    obtain ⟨_, middle, hfirst, hsecond⟩ := Attempt.exec_bind_eq_ok_iff.mp hexec
    exact ⟨middle.graph, h _ _ hfirst, hnext _ _ hsecond⟩
  · rintro ⟨g', hfirst, hsecond⟩
    exact hfirst.bind hsecond

/-! ## Where mutations lead -/

theorem takes_addOperator_iff {op : Operator} {position : Point} :
    Takes (mutate (·.addOperator op position)) g g' ↔ g.operators.get? op.id = none ∧
      g' = { g with
        operators := g.operators.insert op.id op
        positions := g.positions.insert op.id position } := by
  simp [takes_mutate_iff, Graph.addOperator_eq_ok_iff]

theorem takes_deleteOperator_iff {id : OperatorId} :
    Takes (mutate (·.deleteOperator id)) g g' ↔
      (g.operators.get? id).isSome ∧ g' = g.withoutOperator id := by
  simp [takes_mutate_iff, Graph.deleteOperator_eq_ok_iff, Option.isSome_iff_exists]

theorem takes_addLink_iff {link : Link} :
    Takes (mutate (·.addLink link)) g g' ↔ g.checkLink link = .ok () ∧
      g' = { g with links := g.links.insert link.id link } := by
  simp [takes_mutate_iff, Graph.addLink_eq_ok_iff]

theorem takes_deleteLink_iff {id : LinkId} :
    Takes (mutate (·.deleteLink id)) g g' ↔ (g.links.get? id).isSome ∧ g' = g.dropLink id := by
  simp [takes_mutate_iff, Graph.deleteLink_eq_ok_iff, Option.isSome_iff_exists]

theorem takes_setProperties_iff {id : OperatorId} {properties : Json} :
    Takes (mutate (·.setProperties id properties)) g g' ↔ ∃ op, g.operators.get? id = some op ∧
      g' = { g with operators := g.operators.insert id { op with properties } } := by
  simp [takes_mutate_iff, Graph.setProperties_eq_ok_iff]

theorem takes_setDisabled_iff {id : OperatorId} {disabled : Bool} :
    Takes (mutate (·.setDisabled id disabled)) g g' ↔ ∃ op, g.operators.get? id = some op ∧
      g' = { g with operators := g.operators.insert id { op with disabled } } := by
  simp [takes_mutate_iff, Graph.setDisabled_eq_ok_iff]

theorem takes_setBreakpoint_iff {id : LinkId} {breakpoint : Option Breakpoint} :
    Takes (mutate (·.setBreakpoint id breakpoint)) g g' ↔ (g.links.get? id).isSome ∧
      g' = { g with breakpoints := g.breakpointsWith id breakpoint } := by
  simp [takes_mutate_iff, Graph.setBreakpoint_eq_ok_iff]

theorem takes_setPosition_iff {id : OperatorId} {position : Point} :
    Takes (mutate (·.setPosition id position)) g g' ↔ (g.operators.get? id).isSome ∧
      g' = { g with positions := g.positions.insert id position } := by
  simp [takes_mutate_iff, Graph.setPosition_eq_ok_iff]

end Draft

open Draft (Takes Uniform)

/-! ## Putting links back -/

namespace Graph

/-- Graphs with the same operators, positions, links and breakpoints are equal. -/
theorem ext_get? {g g' : Graph} (hops : g.operators = g'.operators)
    (hpos : g.positions = g'.positions) (hlinks : ∀ id, g.links.get? id = g'.links.get? id)
    (hbps : ∀ id, g.breakpoints.get? id = g'.breakpoints.get? id) : g = g' := by
  obtain ⟨operators, positions, links, breakpoints⟩ := g
  obtain rfl : operators = _ := hops
  obtain rfl : positions = _ := hpos
  obtain rfl : links = _ := Dict.ext_get? hlinks
  obtain rfl : breakpoints = _ := Dict.ext_get? hbps
  rfl

/-- The graph with a link put back with its breakpoint. -/
def restore (g : Graph) (saved : SavedLink) : Graph :=
  { g with
    links := g.links.insert saved.link.id saved.link
    breakpoints :=
      match saved.breakpoint with
      | some breakpoint => g.breakpoints.insert saved.link.id breakpoint
      | none => g.breakpoints }

variable {g : Graph}

theorem get?_restore_links (saved : SavedLink) (id : LinkId) :
    (g.restore saved).links.get? id =
      if saved.link.id = id then some saved.link else g.links.get? id :=
  Dict.get?_insert ..

theorem get?_restore_breakpoints (saved : SavedLink) (id : LinkId) :
    (g.restore saved).breakpoints.get? id =
      if saved.link.id = id then saved.breakpoint <|> g.breakpoints.get? id
      else g.breakpoints.get? id := by
  unfold restore
  cases saved.breakpoint with
  | none => simp
  | some breakpoint => simp [Dict.get?_insert]

/-- Which links are taken away counts, and not in which order. -/
theorem dropLinks_congr {first second : List Link}
    (h : ∀ id, id ∈ first.map (·.id) ↔ id ∈ second.map (·.id)) :
    g.dropLinks first = g.dropLinks second := by
  refine ext_get? (by simp) (by simp) (fun id => ?_) fun id => ?_
  · rw [get?_dropLinks_links, get?_dropLinks_links]
    simp only [h id]
  · rw [get?_dropLinks_breakpoints, get?_dropLinks_breakpoints]
    simp only [h id]

/-- No two links at an operator have the same name. -/
theorem Coherent.nodup_linksAt (h : g.Coherent) (id : OperatorId) :
    ((g.linksAt id).map (·.id)).Nodup := by
  have hkeys : g.links.values.map (·.id) = g.links.keys := Dict.map_values h.link_id
  exact (hkeys ▸ Dict.nodup_keys g.links).sublist (List.filter_sublist.map _)

/-- Among links that were taken away, the first can be put back. -/
theorem Coherent.checkLink_dropLinks (h : g.Coherent) {link : Link} (rest : List Link)
    (hget : g.links.get? link.id = some link) :
    (g.dropLinks (link :: rest)).checkLink link = .ok () := by
  refine checkLink_eq_ok_iff.mpr ⟨?_, ?_, ?_, ?_⟩
  · rw [get?_dropLinks_links, if_pos (by simp)]
  · refine linkBetween?_eq_none_iff.mpr fun id other hother hends => ?_
    rw [get?_dropLinks_links] at hother
    split at hother
    · cases hother
    · rename_i hmem
      -- A link between the same two ports would be the one to put back, which is away.
      have hid : id = link.id := h.unique hother hget hends.1 hends.2
      exact hmem (by simp [hid])
  · rw [hasSource_iff, dropLinks_operators]
    exact h.source hget
  · rw [hasTarget_iff, dropLinks_operators]
    exact h.target hget

/-- Putting the first link back leaves the others to be put back. -/
theorem restore_dropLinks {link : Link} {rest : List Link}
    (hget : g.links.get? link.id = some link) (hfresh : link.id ∉ rest.map (·.id)) :
    (g.dropLinks (link :: rest)).restore (g.saved link) = g.dropLinks rest := by
  refine ext_get? ?_ ?_ (fun id => ?_) fun id => ?_
  · exact (dropLinks_operators _).trans (dropLinks_operators _).symm
  · exact (dropLinks_positions _).trans (dropLinks_positions _).symm
  · rw [get?_restore_links, get?_dropLinks_links, get?_dropLinks_links]
    by_cases hid : link.id = id
    · subst hid
      rw [if_neg hfresh]
      simpa [saved] using hget.symm
    · simp [saved, hid, Ne.symm hid]
  · -- The breakpoint was recorded with the link, and comes back with it.
    rw [get?_restore_breakpoints, get?_dropLinks_breakpoints, get?_dropLinks_breakpoints]
    by_cases hid : link.id = id
    · subst hid
      rw [if_neg hfresh]
      simp [saved]
    · simp [saved, hid, Ne.symm hid]

theorem Coherent.restore (h : g.Coherent) {saved : SavedLink}
    (hok : g.checkLink saved.link = .ok ()) : (g.restore saved).Coherent := by
  have hadded := h.addLink hok
  unfold Graph.restore
  cases saved.breakpoint with
  | none => exact hadded
  | some breakpoint =>
    exact hadded.setBreakpoint (some breakpoint) (by rw [Dict.get?_insert_self]; rfl)

/-- A name that no link has, no breakpoint has. -/
theorem Coherent.get?_breakpoints_eq_none (h : g.Coherent) {id : LinkId}
    (hfree : g.links.get? id = none) : g.breakpoints.get? id = none := by
  by_contra hne
  have hsome := h.breakpoint_link (Option.ne_none_iff_isSome.mp hne)
  rw [hfree] at hsome
  cases hsome

/-- A link that was put back can be taken away again. -/
theorem Coherent.dropLink_restore (h : g.Coherent) {saved : SavedLink}
    (hfree : g.links.get? saved.link.id = none) :
    (g.restore saved).dropLink saved.link.id = g := by
  refine ext_get? rfl rfl (fun id => ?_) fun id => ?_
  · refine (Dict.get?_erase ..).trans ?_
    rw [get?_restore_links]
    by_cases hid : saved.link.id = id
    · subst hid
      simp [hfree]
    · simp [hid]
  · refine (Dict.get?_erase ..).trans ?_
    rw [get?_restore_breakpoints]
    by_cases hid : saved.link.id = id
    · subst hid
      simp [h.get?_breakpoints_eq_none hfree]
    · simp [hid]

/-- Of two breakpoints set on one link the later counts, and the first one can be set again. -/
theorem breakpointsWith_breakpointsWith (id : LinkId) (breakpoint : Option Breakpoint) :
    breakpointsWith { g with breakpoints := g.breakpointsWith id breakpoint } id
      (g.breakpoints.get? id) = g.breakpoints := by
  refine Dict.ext_get? fun other => ?_
  rw [get?_breakpointsWith, get?_breakpointsWith]
  split
  · rename_i heq
    rw [heq]
  · rfl

/-! ## What is left without an operator -/

theorem Coherent.mem_ids_linksAt (h : g.Coherent) {id : OperatorId} {key : LinkId} :
    key ∈ (g.linksAt id).map (·.id) ↔ (g.links.get? key).any (·.touches id) = true := by
  rw [List.mem_map, Option.any_eq_true]
  constructor
  · rintro ⟨link, hlink, rfl⟩
    exact ⟨link, h.mem_linksAt.mp hlink⟩
  · rintro ⟨link, hget, htouch⟩
    obtain rfl := h.link_id hget
    exact ⟨link, h.mem_linksAt.mpr ⟨hget, htouch⟩, rfl⟩

/-- Links with an end at the operator are gone, all others are left. -/
theorem Coherent.get?_withoutOperator_links (h : g.Coherent) (id : OperatorId) (key : LinkId) :
    (g.withoutOperator id).links.get? key =
      if (g.links.get? key).any (·.touches id) then none else g.links.get? key := by
  simp only [← h.mem_ids_linksAt]
  exact get?_dropLinks_links ..

/-- So are the breakpoints on them. -/
theorem Coherent.get?_withoutOperator_breakpoints (h : g.Coherent) (id : OperatorId)
    (key : LinkId) : (g.withoutOperator id).breakpoints.get? key =
      if (g.links.get? key).any (·.touches id) then none else g.breakpoints.get? key := by
  simp only [← h.mem_ids_linksAt]
  exact get?_dropLinks_breakpoints ..

/-- Putting a link back makes no difference to what is left without an operator at its end. -/
theorem Coherent.withoutOperator_restore (h : g.Coherent) {saved : SavedLink} {id : OperatorId}
    (hok : g.checkLink saved.link = .ok ()) (htouch : saved.link.touches id = true) :
    (g.restore saved).withoutOperator id = g.withoutOperator id := by
  have hfree := (checkLink_eq_ok_iff.mp hok).1
  have hback := h.restore hok
  refine ext_get? rfl rfl (fun key => ?_) fun key => ?_
  · rw [hback.get?_withoutOperator_links, h.get?_withoutOperator_links, get?_restore_links]
    by_cases hkey : saved.link.id = key
    · subst hkey
      simp [htouch, hfree]
    · simp [hkey]
  · rw [hback.get?_withoutOperator_breakpoints, h.get?_withoutOperator_breakpoints,
      get?_restore_links, get?_restore_breakpoints]
    by_cases hkey : saved.link.id = key
    · subst hkey
      simp [htouch, hfree, h.get?_breakpoints_eq_none hfree]
    · simp [hkey]

/-- No link has an end at an operator that is not there. -/
theorem Coherent.touches_eq_false (h : g.Coherent) {id : OperatorId}
    (hfree : g.operators.get? id = none) {key : LinkId} {link : Link}
    (hget : g.links.get? key = some link) : link.touches id = false := by
  obtain ⟨source, hsource, -⟩ := h.source hget
  obtain ⟨target, htarget, -⟩ := h.target hget
  rw [Link.touches, Bool.or_eq_false_iff, decide_eq_false_iff_not, decide_eq_false_iff_not]
  constructor
  · rintro rfl
    cases hfree.symm.trans hsource
  · rintro rfl
    cases hfree.symm.trans htarget

/-- An operator that was added can be taken away again. -/
theorem Coherent.withoutOperator_insert (h : g.Coherent) {op : Operator} (position : Point)
    (hfree : g.operators.get? op.id = none) :
    Graph.withoutOperator { g with
      operators := g.operators.insert op.id op
      positions := g.positions.insert op.id position } op.id = g := by
  have hadded := h.addOperator position hfree
  -- There is neither a position nor a link at the operator to be lost.
  have hpos : g.positions.get? op.id = none := by
    have hiff := h.position_iff op.id
    rw [hfree] at hiff
    simpa using hiff
  have hany (key : LinkId) : (g.links.get? key).any (·.touches op.id) = false := by
    rcases hget : g.links.get? key with _ | link
    · rfl
    · exact h.touches_eq_false hfree hget
  refine ext_get? (Dict.erase_insert hfree) (Dict.erase_insert hpos) (fun key => ?_) fun key => ?_
  · rw [hadded.get?_withoutOperator_links]
    simp [hany key]
  · rw [hadded.get?_withoutOperator_breakpoints]
    simp [hany key]

/-- An operator that was taken away can be added again, if only without its links. -/
theorem insert_withoutOperator {op : Operator} {position : Point}
    (hop : g.operators.get? op.id = some op) (hpos : g.positions.get? op.id = some position) :
    { g.withoutOperator op.id with
      operators := (g.withoutOperator op.id).operators.insert op.id op
      positions := (g.withoutOperator op.id).positions.insert op.id position } =
      g.dropLinks (g.linksAt op.id) := by
  refine ext_get? ?_ ?_ (fun _ => rfl) fun _ => rfl
  · exact (Dict.insert_erase hop).trans (dropLinks_operators _).symm
  · exact (Dict.insert_erase hpos).trans (dropLinks_positions _).symm

end Graph

namespace Change

variable {g g' : Graph}

theorem takes_restoreLink {saved : SavedLink} (h : g.checkLink saved.link = .ok ()) :
    Takes (restoreLink saved) g (g.restore saved) := by
  refine .bind (Draft.takes_addLink_iff.mpr ⟨h, rfl⟩) ?_
  unfold Graph.restore
  cases saved.breakpoint with
  | none => exact .pure _
  | some breakpoint =>
    refine Draft.takes_setBreakpoint_iff.mpr ⟨?_, rfl⟩
    rw [Dict.get?_insert_self]
    rfl

theorem uniform_restoreLink (saved : SavedLink) : Uniform (restoreLink saved) := by
  refine .bind (.mutate _) ?_
  cases saved.breakpoint with
  | none => exact .pure
  | some breakpoint => exact .mutate _

theorem uniform_apply (change : Change) : Uniform change.apply := by
  cases change with
  | addOperator op position links => exact .bind (.mutate _) (.forM uniform_restoreLink links)
  | addLink saved => exact uniform_restoreLink saved
  | deleteOperator | deleteLink | setProperties | setDisabled | setBreakpoint | move =>
    unfold apply
    exact .mutate _

/-- A link can be put back just where it may be added. -/
theorem takes_restoreLink_iff {saved : SavedLink} :
    Takes (restoreLink saved) g g' ↔ g.checkLink saved.link = .ok () ∧ g' = g.restore saved := by
  constructor
  · intro h
    obtain ⟨more, hexec⟩ := h []
    obtain ⟨_, middle, hadd, -⟩ := Attempt.exec_bind_eq_ok_iff.mp hexec
    obtain ⟨hok, -⟩ := Draft.takes_addLink_iff.mp (Uniform.mutate _ _ _ hadd)
    exact ⟨hok, h.unique (takes_restoreLink hok)⟩
  · rintro ⟨hok, rfl⟩
    exact takes_restoreLink hok

/-- All links that were taken away can be put back, one after the other. -/
theorem takes_restoreLinks (h : g.Coherent) {l : List Link}
    (hstored : ∀ link ∈ l, g.links.get? link.id = some link) (hnodup : (l.map (·.id)).Nodup) :
    Takes ((l.map g.saved).forM restoreLink) (g.dropLinks l) g := by
  induction l with
  | nil => exact .pure g
  | cons link rest ih =>
    obtain ⟨hfresh, hrest⟩ := List.nodup_cons.mp hnodup
    have hget := hstored link List.mem_cons_self
    -- After each link the graph is the one without the rest, so the induction goes on.
    refine .bind (takes_restoreLink (h.checkLink_dropLinks rest hget)) ?_
    rw [Graph.restore_dropLinks hget hfresh]
    exact ih (fun other hmem => hstored other (List.mem_cons_of_mem _ hmem)) hrest

/-! ## Faithful changes -/

/-- **The change is faithful to a graph**: what it replaces is what the graph holds, what it takes
away it records in full, and what it puts back is not there and belongs together. -/
def Faithful (g : Graph) : Change → Prop
  | addOperator op _ links =>
    g.operators.get? op.id = none ∧ ∀ saved ∈ links, saved.link.touches op.id = true
  | deleteOperator op position links =>
    g.operators.get? op.id = some op ∧ g.positions.get? op.id = some position ∧
      links.Perm ((g.linksAt op.id).map g.saved)
  | addLink _ => True
  | deleteLink saved =>
    g.links.get? saved.link.id = some saved.link ∧
      saved.breakpoint = g.breakpoints.get? saved.link.id
  | setProperties id old _ => ∃ op, g.operators.get? id = some op ∧ op.properties = old
  | setDisabled id old _ => ∃ op, g.operators.get? id = some op ∧ op.disabled = old
  | setBreakpoint id old _ => g.breakpoints.get? id = old
  | move id start _ => g.positions.get? id = some start

/-- What the links at an operator were plays no part once the operator is gone. -/
theorem withoutOperator_eq_of_takes {id : OperatorId} {links : List SavedLink} (h : g.Coherent)
    (htouch : ∀ saved ∈ links, saved.link.touches id = true)
    (htakes : Takes (links.forM restoreLink) g g') :
    g'.withoutOperator id = g.withoutOperator id ∧ g'.operators = g.operators := by
  induction links generalizing g with
  | nil =>
    obtain rfl := htakes.unique (.pure g)
    exact ⟨rfl, rfl⟩
  | cons saved rest ih =>
    obtain ⟨middle, hfirst, hrest⟩ :=
      (Draft.takes_bind_iff (uniform_restoreLink saved) (.forM uniform_restoreLink rest)).mp htakes
    obtain ⟨hok, rfl⟩ := takes_restoreLink_iff.mp hfirst
    -- Each link that is put back has an end at the operator, and goes with it again.
    obtain ⟨hcut, hops⟩ := ih (h.restore hok)
      (fun other hmem => htouch other (List.mem_cons_of_mem _ hmem)) hrest
    exact ⟨hcut.trans (h.withoutOperator_restore hok (htouch saved List.mem_cons_self)), hops⟩

namespace Faithful

/-- Adding an operator with links is reversed by its deletion. -/
theorem takes_deleteOperator {op : Operator} {position : Point} {links : List SavedLink}
    (h : g.Coherent) (hf : (addOperator op position links).Faithful g)
    (happly : Takes (addOperator op position links).apply g g') :
    Takes (deleteOperator op position links).apply g' g := by
  obtain ⟨hfree, htouch⟩ := hf
  obtain ⟨middle, hadd, hlinks⟩ :=
    (Draft.takes_bind_iff (.mutate _) (.forM uniform_restoreLink links)).mp happly
  obtain ⟨-, rfl⟩ := Draft.takes_addOperator_iff.mp hadd
  obtain ⟨hcut, hops⟩ := withoutOperator_eq_of_takes (h.addOperator position hfree) htouch hlinks
  refine Draft.takes_deleteOperator_iff.mpr ⟨?_, ?_⟩
  · rw [hops, Dict.get?_insert_self]
    rfl
  · rw [hcut, h.withoutOperator_insert position hfree]

/-- The deletion of an operator is reversed by adding it with its links. -/
theorem takes_addOperator {op : Operator} {position : Point} {links : List SavedLink}
    (h : g.Coherent) (hf : (deleteOperator op position links).Faithful g)
    (happly : Takes (deleteOperator op position links).apply g g') :
    Takes (addOperator op position links).apply g' g := by
  obtain ⟨hop, hpos, hlinks⟩ := hf
  obtain ⟨-, rfl⟩ := Draft.takes_deleteOperator_iff.mp happly
  have hsaved : links = (links.map (·.link)).map g.saved := by
    rw [List.map_map]
    refine (List.map_id links).symm.trans (List.map_congr_left fun saved hmem => ?_)
    obtain ⟨link, -, rfl⟩ := List.mem_map.mp (hlinks.mem_iff.mp hmem)
    rfl
  -- The links may have been recorded in any order.
  have hperm : (links.map (·.link)).Perm (g.linksAt op.id) := by
    have hmap := hlinks.map (·.link)
    rwa [List.map_map, show (·.link) ∘ g.saved = id from rfl, List.map_id] at hmap
  have hback : Takes (links.forM restoreLink) (g.dropLinks (g.linksAt op.id)) g := by
    have hall := takes_restoreLinks h (l := links.map (·.link))
      (fun link hmem => (h.mem_linksAt.mp (hperm.mem_iff.mp hmem)).1)
      ((hperm.map (·.id)).nodup_iff.mpr (h.nodup_linksAt op.id))
    rwa [← hsaved, Graph.dropLinks_congr fun id => (hperm.map (·.id)).mem_iff] at hall
  refine .bind (Draft.takes_addOperator_iff.mpr ⟨?_, rfl⟩) ?_
  · simp [Graph.withoutOperator]
  · rwa [Graph.insert_withoutOperator hop hpos]

/-- **The inverse of a faithful change that is carried out puts the graph back.** -/
theorem takes_inverse {change : Change} (h : g.Coherent) (hf : change.Faithful g)
    (happly : Takes change.apply g g') : Takes change.inverse.apply g' g := by
  cases change with
  | addOperator op position links => exact takes_deleteOperator h hf happly
  | deleteOperator op position links => exact takes_addOperator h hf happly
  | addLink saved =>
    obtain ⟨hok, rfl⟩ := takes_restoreLink_iff.mp happly
    have hfree := (Graph.checkLink_eq_ok_iff.mp hok).1
    refine Draft.takes_deleteLink_iff.mpr ⟨?_, (h.dropLink_restore hfree).symm⟩
    rw [Graph.get?_restore_links, if_pos rfl]
    rfl
  | deleteLink saved =>
    -- What was saved is the link as it stood, so to restore it is to drop no links at all.
    obtain ⟨hget, hbp⟩ := hf
    obtain ⟨-, rfl⟩ := Draft.takes_deleteLink_iff.mp happly
    have hsaved : saved = g.saved saved.link := by rw [Graph.saved, ← hbp]
    have hnew : saved.link.id ∉ ([] : List Link).map (·.id) := List.not_mem_nil
    have hback := Graph.restore_dropLinks hget hnew
    rw [← hsaved] at hback
    exact takes_restoreLink_iff.mpr ⟨h.checkLink_dropLinks [] hget, hback.symm⟩
  | setProperties id old new =>
    obtain ⟨op, hget, rfl⟩ := hf
    obtain ⟨op', hget', rfl⟩ := Draft.takes_setProperties_iff.mp happly
    cases hget.symm.trans hget'
    -- Two writes under one key are one, and to write what was there is to write nothing.
    refine Draft.takes_setProperties_iff.mpr ⟨_, Dict.get?_insert_self .., ?_⟩
    rw [Dict.insert_insert, Dict.insert_self hget]
  | setDisabled id old new =>
    obtain ⟨op, hget, rfl⟩ := hf
    obtain ⟨op', hget', rfl⟩ := Draft.takes_setDisabled_iff.mp happly
    cases hget.symm.trans hget'
    refine Draft.takes_setDisabled_iff.mpr ⟨_, Dict.get?_insert_self .., ?_⟩
    rw [Dict.insert_insert, Dict.insert_self hget]
  | setBreakpoint id old new =>
    obtain rfl : g.breakpoints.get? id = old := hf
    obtain ⟨hlink, rfl⟩ := Draft.takes_setBreakpoint_iff.mp happly
    refine Draft.takes_setBreakpoint_iff.mpr ⟨hlink, ?_⟩
    rw [Graph.breakpointsWith_breakpointsWith]
  | move id start finish =>
    obtain ⟨hop, rfl⟩ := Draft.takes_setPosition_iff.mp happly
    refine Draft.takes_setPosition_iff.mpr ⟨hop, ?_⟩
    rw [Dict.insert_insert, Dict.insert_self hf]

end Faithful

end Change

/-! ## Commands that are done and undone -/

namespace Command

variable {command earlier later merged : Command} {g g' g'' : Graph}

/-- **The command leads back and forth between two graphs**: carried out it takes the first to the
second, reversed it takes the second to the first. -/
def Swaps (command : Command) (g g' : Graph) : Prop :=
  Takes command.redo g g' ∧ Takes command.undo g' g

theorem takes_redo_singleton {change : Change} :
    Takes (redo [change]) g g' ↔ Takes change.apply g g' := by
  have hpure : Uniform (([] : Command).forM Change.apply) := .pure
  refine (Draft.takes_bind_iff change.uniform_apply hpure).trans ⟨?_, fun h => ⟨g', h, .pure g'⟩⟩
  rintro ⟨middle, h, hrest⟩
  obtain rfl := hrest.unique (.pure middle)
  exact h

theorem uniform_redo (command : Command) : Uniform command.redo :=
  .forM Change.uniform_apply command

theorem takes_redo_append_iff :
    Takes (redo (earlier ++ later)) g g'' ↔
      ∃ g', Takes earlier.redo g g' ∧ Takes later.redo g' g'' := by
  rw [redo, List.forM_eq_forM, List.forM_append]
  exact Draft.takes_bind_iff earlier.uniform_redo later.uniform_redo

theorem takes_undo_append_iff :
    Takes (undo (earlier ++ later)) g g'' ↔
      ∃ g', Takes later.undo g g' ∧ Takes earlier.undo g' g'' := by
  rw [undo, inverse, List.reverse_append, List.map_append]
  exact takes_redo_append_iff

namespace Swaps

theorem nil (g : Graph) : Swaps [] g g := ⟨.pure g, .pure g⟩

/-- A faithful change that is carried out leads back and forth. -/
theorem singleton {change : Change} (h : g.Coherent) (hf : change.Faithful g)
    (happly : Takes change.apply g g') : Swaps [change] g g' := by
  constructor
  · exact takes_redo_singleton.mpr happly
  · exact takes_redo_singleton.mpr (hf.takes_inverse h happly)

theorem append (h : earlier.Swaps g g') (h' : later.Swaps g' g'') :
    Swaps (earlier ++ later) g g'' := by
  exact ⟨takes_redo_append_iff.mpr ⟨g', h.1, h'.1⟩, takes_undo_append_iff.mpr ⟨g', h'.2, h.2⟩⟩

/-- One move in place of two leads back and forth between the ends. -/
theorem merge (hmerge : earlier.merge? later = some merged) (h : earlier.Swaps g g')
    (h' : later.Swaps g' g'') : merged.Swaps g g'' := by
  unfold merge? at hmerge
  split at hmerge
  · rename_i id start middle other between finish
    split at hmerge <;> cases hmerge
    rename_i hid
    subst hid
    -- A move sets one position outright, so the point between plays no part.
    have hsteps {start finish : Point} {g g' : Graph} (h : Swaps [.move id start finish] g g') :=
      And.intro (Draft.takes_setPosition_iff.mp (takes_redo_singleton.mp h.1))
        (Draft.takes_setPosition_iff.mp (takes_redo_singleton.mp h.2))
    obtain ⟨⟨hop, hg'⟩, -, hg⟩ := hsteps h
    obtain ⟨⟨-, hg''⟩, -⟩ := hsteps h'
    have hend : g'' = { g with positions := g.positions.insert id finish } := by
      rw [hg'', hg', Dict.insert_insert]
    have hstart : g = { g'' with positions := g''.positions.insert id start } := by
      rw [hend, Dict.insert_insert]
      exact hg.trans (by rw [hg', Dict.insert_insert])
    constructor
    · exact takes_redo_singleton.mpr (Draft.takes_setPosition_iff.mpr ⟨hop, hend⟩)
    · refine takes_redo_singleton.mpr (Draft.takes_setPosition_iff.mpr ⟨?_, hstart⟩)
      rw [hend]
      exact hop
  · cases hmerge

end Swaps

end Command

end PipelineEditor
