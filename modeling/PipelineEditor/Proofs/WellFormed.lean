import Mathlib.Data.List.Basic
import PipelineEditor.Catalogue
import PipelineEditor.Graph

/-!
# Well-formed graphs

A graph is coherent when its four maps fit together, and well-formed when in addition every
operator has a type of the catalogue with exactly the ports of that type.  Each mutation that is
carried out leaves a coherent graph coherent, and a well-formed one well-formed if the operator it
may add fits the catalogue.

## Main definitions

* `Catalogue.Fits`: the operators that a catalogue provides for
* `Graph.Coherent`, `Graph.WellFormed catalogue`: the invariants
* `Graph.dropLinks`: several links taken away with their breakpoints

## Main results

* `Catalogue.checkPorts_eq_ok_iff`: the check of the ports accepts exactly the operators that fit
* `Graph.addOperator_eq_ok_iff`, …: when a mutation is carried out, and what it leaves
* `Graph.Coherent.addLink`, …: mutations keep graphs coherent
-/

namespace PipelineEditor

/-! ## Operators and their types -/

namespace Catalogue

variable {catalogue : Catalogue}

/-- **The operator fits the catalogue**: its type is there, and its inputs and outputs are exactly
the numbered ports of that type, in order. -/
def Fits (catalogue : Catalogue) (op : Operator) : Prop :=
  ∃ t, catalogue.type? op.type = some t ∧
    op.inputs.map (·.id) = (List.range t.inputCount).map (Port.numbered Port.inputStem) ∧
    op.outputs.map (·.id) = (List.range t.outputCount).map (Port.numbered Port.outputStem)

theorem arePorts_iff {stem : String} {count : Nat} {ports : List Port} :
    arePorts stem count ports = true ↔
      ports.map (·.id) = (List.range count).map (Port.numbered stem) := by
  rw [arePorts, Bool.and_eq_true, decide_eq_true_eq, List.all_eq_true]
  constructor
  · rintro ⟨hlen, hall⟩
    -- Port by port: the check compares each with its number.
    refine List.ext_getElem (by simp [hlen]) fun index hi _ => ?_
    rw [List.length_map] at hi
    have hmem : (ports[index], index) ∈ ports.zipIdx :=
      List.mk_mem_zipIdx_iff_getElem?.mpr (List.getElem?_eq_getElem hi)
    simpa using hall _ hmem
  · intro heq
    have hlen : ports.length = count := by simpa using congrArg List.length heq
    refine ⟨hlen, ?_⟩
    rintro ⟨port, index⟩ hmem
    have hget : ports[index]? = some port := List.mk_mem_zipIdx_iff_getElem?.mp hmem
    have hidx : (ports.map (·.id))[index]? = some port.id := by simp [hget]
    rw [heq, List.getElem?_map, List.getElem?_range (hlen ▸ (List.getElem?_eq_some_iff.mp hget).1)]
      at hidx
    simpa using (Option.some.inj hidx).symm

/-- The check of the ports accepts exactly the operators that fit. -/
theorem checkPorts_eq_ok_iff {op : Operator} :
    catalogue.checkPorts op = .ok () ↔ catalogue.Fits op := by
  unfold checkPorts findType Fits
  cases htype : catalogue.type? op.type with
  | none => simp [bind, Except.bind]
  | some t =>
    have hports : (arePorts Port.inputStem t.inputCount op.inputs &&
        arePorts Port.outputStem t.outputCount op.outputs) = true ↔
        op.inputs.map (·.id) = (List.range t.inputCount).map (Port.numbered Port.inputStem) ∧
        op.outputs.map (·.id) =
          (List.range t.outputCount).map (Port.numbered Port.outputStem) := by
      rw [Bool.and_eq_true, arePorts_iff, arePorts_iff]
    simp only [bind, Except.bind, Option.some.injEq, exists_eq_left', ← hports]
    split <;> simp_all [pure, Except.pure, throw, throwThe, MonadExceptOf.throw]

/-- Whether an operator fits depends on its type and ports only. -/
theorem Fits.congr {op op' : Operator} (h : catalogue.Fits op) (htype : op'.type = op.type)
    (hin : op'.inputs = op.inputs) (hout : op'.outputs = op.outputs) : catalogue.Fits op' := by
  unfold Fits
  rw [htype, hin, hout]
  exact h

end Catalogue

namespace Operator

theorem hasInput_iff {op : Operator} {port : PortId} :
    op.hasInput port = true ↔ port ∈ op.inputs.map (·.id) := by
  simp [hasInput]

theorem hasOutput_iff {op : Operator} {port : PortId} :
    op.hasOutput port = true ↔ port ∈ op.outputs.map (·.id) := by
  simp [hasOutput]

end Operator

namespace Graph

/-! ## The invariants -/

/-- **The four maps fit together.** -/
structure Coherent (g : Graph) : Prop where
  /-- Operators are stored under their own names. -/
  operator_id : ∀ {id op}, g.operators.get? id = some op → op.id = id
  /-- Links are stored under their own names. -/
  link_id : ∀ {id link}, g.links.get? id = some link → link.id = id
  /-- Exactly the operators have positions. -/
  position_iff : ∀ id, (g.positions.get? id).isSome ↔ (g.operators.get? id).isSome
  /-- Links start at outputs of operators that are there. -/
  source : ∀ {id link}, g.links.get? id = some link →
    ∃ op, g.operators.get? link.source.operator = some op ∧
      link.source.port ∈ op.outputs.map (·.id)
  /-- Links end at inputs of operators that are there. -/
  target : ∀ {id link}, g.links.get? id = some link →
    ∃ op, g.operators.get? link.target.operator = some op ∧
      link.target.port ∈ op.inputs.map (·.id)
  /-- Two ports are joined by at most one link. -/
  unique : ∀ {id id' link link'}, g.links.get? id = some link → g.links.get? id' = some link' →
    link.source = link'.source → link.target = link'.target → id = id'
  /-- Breakpoints are on links that are there. -/
  breakpoint_link : ∀ {id}, (g.breakpoints.get? id).isSome → (g.links.get? id).isSome

/-- **The maps fit together, and every operator fits the catalogue.** -/
structure WellFormed (catalogue : Catalogue) (g : Graph) : Prop extends Coherent g where
  fits : ∀ {id op}, g.operators.get? id = some op → catalogue.Fits op

theorem wellFormed_empty (catalogue : Catalogue) : empty.WellFormed catalogue where
  operator_id h := nomatch h
  link_id h := nomatch h
  position_iff _ := Iff.rfl
  source h := nomatch h
  target h := nomatch h
  unique h := nomatch h
  breakpoint_link h := nomatch h
  fits h := nomatch h

/-! ## Look-ups and checks -/

variable {g : Graph} {catalogue : Catalogue}

theorem findOperator_eq_ok_iff {id : OperatorId} {op : Operator} :
    g.findOperator id = .ok op ↔ g.operators.get? id = some op := by
  unfold findOperator
  cases g.operators.get? id <;> simp

theorem findPosition_eq_ok_iff {id : OperatorId} {position : Point} :
    g.findPosition id = .ok position ↔ g.positions.get? id = some position := by
  unfold findPosition
  cases g.positions.get? id <;> simp

theorem findLink_eq_ok_iff {id : LinkId} {link : Link} :
    g.findLink id = .ok link ↔ g.links.get? id = some link := by
  unfold findLink
  cases g.links.get? id <;> simp

theorem isEnabled_iff {id : OperatorId} :
    g.isEnabled id = true ↔ ∃ op, g.operators.get? id = some op ∧ op.disabled = false := by
  unfold isEnabled
  cases g.operators.get? id <;> simp

theorem hasSource_iff {port : PortRef} :
    g.hasSource port = true ↔ ∃ op, g.operators.get? port.operator = some op ∧
      port.port ∈ op.outputs.map (·.id) := by
  unfold hasSource
  cases g.operators.get? port.operator <;> simp [Operator.hasOutput_iff]

theorem hasTarget_iff {port : PortRef} :
    g.hasTarget port = true ↔ ∃ op, g.operators.get? port.operator = some op ∧
      port.port ∈ op.inputs.map (·.id) := by
  unfold hasTarget
  cases g.operators.get? port.operator <;> simp [Operator.hasInput_iff]

theorem linkBetween?_eq_none_iff {source target : PortRef} :
    g.linkBetween? source target = none ↔
      ∀ id link, g.links.get? id = some link → ¬ (link.source = source ∧ link.target = target) := by
  simp only [linkBetween?, List.find?_eq_none, Dict.mem_values, Link.joins, Bool.and_eq_true,
    decide_eq_true_eq]
  exact ⟨fun h id link hget => h link ⟨id, hget⟩, fun h link ⟨id, hget⟩ => h id link hget⟩

theorem mem_linksAt {id : OperatorId} {link : Link} :
    link ∈ g.linksAt id ↔ (∃ key, g.links.get? key = some link) ∧ link.touches id = true := by
  rw [linksAt, List.mem_filter, Dict.mem_values]

theorem Coherent.mem_linksAt (h : g.Coherent) {id : OperatorId} {link : Link} :
    link ∈ g.linksAt id ↔ g.links.get? link.id = some link ∧ link.touches id = true := by
  rw [Graph.mem_linksAt]
  refine and_congr_left fun _ => ⟨?_, fun hget => ⟨_, hget⟩⟩
  rintro ⟨key, hget⟩
  rwa [h.link_id hget]

theorem checkOperator_eq_ok_iff {op : Operator} :
    g.checkOperator op = .ok () ↔ g.operators.get? op.id = none := by
  unfold checkOperator hasOperator
  rw [Dict.contains_eq]
  cases g.operators.get? op.id <;> simp

theorem checkLink_eq_ok_iff {link : Link} :
    g.checkLink link = .ok () ↔ g.links.get? link.id = none ∧
      g.linkBetween? link.source link.target = none ∧ g.hasSource link.source = true ∧
      g.hasTarget link.target = true := by
  unfold checkLink hasLink
  rw [Dict.contains_eq]
  cases g.links.get? link.id <;> cases g.linkBetween? link.source link.target <;>
    cases g.hasSource link.source <;> cases g.hasTarget link.target <;> simp

/-! ## What mutations leave -/

/-- Several links taken away with their breakpoints. -/
def dropLinks (g : Graph) (links : List Link) : Graph :=
  links.foldl (fun h link => h.dropLink link.id) g

@[simp] theorem dropLinks_cons (link : Link) (rest : List Link) :
    g.dropLinks (link :: rest) = (g.dropLink link.id).dropLinks rest := rfl

@[simp] theorem dropLinks_operators (links : List Link) :
    (g.dropLinks links).operators = g.operators := by
  induction links generalizing g with
  | nil => rfl
  | cons link rest ih => exact ih

@[simp] theorem dropLinks_positions (links : List Link) :
    (g.dropLinks links).positions = g.positions := by
  induction links generalizing g with
  | nil => rfl
  | cons link rest ih => exact ih

theorem get?_dropLinks_links (links : List Link) (id : LinkId) :
    (g.dropLinks links).links.get? id =
      if id ∈ links.map (·.id) then none else g.links.get? id := by
  induction links generalizing g with
  | nil => rfl
  | cons link rest ih =>
    rw [dropLinks_cons, ih, dropLink, Dict.get?_erase]
    by_cases hrest : id ∈ rest.map (·.id)
    · simp [hrest]
    · by_cases hid : id = link.id
      · simp [hid]
      · simp [hid, hrest, Ne.symm hid]

theorem get?_dropLinks_breakpoints (links : List Link) (id : LinkId) :
    (g.dropLinks links).breakpoints.get? id =
      if id ∈ links.map (·.id) then none else g.breakpoints.get? id := by
  induction links generalizing g with
  | nil => rfl
  | cons link rest ih =>
    rw [dropLinks_cons, ih, dropLink, Dict.get?_erase]
    by_cases hrest : id ∈ rest.map (·.id)
    · simp [hrest]
    · by_cases hid : id = link.id
      · simp [hid]
      · simp [hid, hrest, Ne.symm hid]

theorem addOperator_eq_ok_iff {op : Operator} {position : Point} {result : Graph × List Event} :
    g.addOperator op position = .ok result ↔ g.operators.get? op.id = none ∧
      result = ({ g with
        operators := g.operators.insert op.id op
        positions := g.positions.insert op.id position }, [.operatorAdded op position]) := by
  rw [← checkOperator_eq_ok_iff, addOperator]
  cases g.checkOperator op <;> simp [bind, Except.bind, pure, Except.pure, eq_comm]

/-- The graph without an operator and the links at it. -/
def withoutOperator (g : Graph) (id : OperatorId) : Graph :=
  { g.dropLinks (g.linksAt id) with
    operators := g.operators.erase id
    positions := g.positions.erase id }

@[simp] theorem withoutOperator_operators (id : OperatorId) :
    (g.withoutOperator id).operators = g.operators.erase id := rfl

theorem deleteOperator_eq_ok_iff {id : OperatorId} {result : Graph × List Event} :
    g.deleteOperator id = .ok result ↔ ∃ op, g.operators.get? id = some op ∧
      result = (g.withoutOperator id,
        (g.linksAt id).map .linkDeleted ++ [.operatorDeleted op]) := by
  have hcut : (g.linksAt id).foldl (fun h link => h.dropLink link.id) g =
      g.dropLinks (g.linksAt id) := rfl
  simp only [← findOperator_eq_ok_iff, deleteOperator, hcut, dropLinks_operators,
    dropLinks_positions, withoutOperator]
  cases g.findOperator id <;> simp [bind, Except.bind, pure, Except.pure, eq_comm]

theorem addLink_eq_ok_iff {link : Link} {result : Graph × List Event} :
    g.addLink link = .ok result ↔ g.checkLink link = .ok () ∧
      result = ({ g with links := g.links.insert link.id link }, [.linkAdded link]) := by
  rw [addLink]
  cases g.checkLink link <;> simp [bind, Except.bind, pure, Except.pure, eq_comm]

theorem deleteLink_eq_ok_iff {id : LinkId} {result : Graph × List Event} :
    g.deleteLink id = .ok result ↔ ∃ link, g.links.get? id = some link ∧
      result = (g.dropLink id, [.linkDeleted link]) := by
  simp only [← findLink_eq_ok_iff, deleteLink]
  cases g.findLink id <;> simp [bind, Except.bind, pure, Except.pure, eq_comm]

theorem setProperties_eq_ok_iff {id : OperatorId} {properties : Json}
    {result : Graph × List Event} :
    g.setProperties id properties = .ok result ↔ ∃ op, g.operators.get? id = some op ∧
      result = ({ g with operators := g.operators.insert id { op with properties } },
        [.propertyChanged id op.properties properties]) := by
  simp only [← findOperator_eq_ok_iff, setProperties]
  cases g.findOperator id <;> simp [bind, Except.bind, pure, Except.pure, eq_comm]

theorem setDisabled_eq_ok_iff {id : OperatorId} {disabled : Bool} {result : Graph × List Event} :
    g.setDisabled id disabled = .ok result ↔ ∃ op, g.operators.get? id = some op ∧
      result = ({ g with operators := g.operators.insert id { op with disabled } },
        if op.disabled = disabled then [] else [.operatorDisabledChanged id disabled]) := by
  simp only [← findOperator_eq_ok_iff, setDisabled]
  cases g.findOperator id <;> simp [bind, Except.bind, pure, Except.pure, eq_comm]

/-- The breakpoints with one set or taken away. -/
def breakpointsWith (g : Graph) (id : LinkId) : Option Breakpoint → Dict Breakpoint
  | some value => g.breakpoints.insert id value
  | none => g.breakpoints.erase id

theorem get?_breakpointsWith (id other : LinkId) (breakpoint : Option Breakpoint) :
    (g.breakpointsWith id breakpoint).get? other =
      if id = other then breakpoint else g.breakpoints.get? other := by
  cases breakpoint with
  | none => exact Dict.get?_erase ..
  | some value => exact Dict.get?_insert ..

/-- Setting the breakpoint that is set changes nothing. -/
theorem breakpointsWith_self (id : LinkId) :
    g.breakpointsWith id (g.breakpoints.get? id) = g.breakpoints := by
  refine Dict.ext_get? fun other => ?_
  rw [get?_breakpointsWith]
  split
  · rename_i heq
    rw [heq]
  · rfl

theorem setBreakpoint_eq_ok_iff {id : LinkId} {breakpoint : Option Breakpoint}
    {result : Graph × List Event} :
    g.setBreakpoint id breakpoint = .ok result ↔ (g.links.get? id).isSome ∧
      result = ({ g with breakpoints := g.breakpointsWith id breakpoint },
        if g.breakpoints.get? id = breakpoint then [] else [.breakpointChanged id breakpoint]) := by
  unfold setBreakpoint findLink
  cases g.links.get? id with
  | none => simp [bind, Except.bind]
  | some link =>
    simp only [bind, Except.bind, pure, Except.pure, Except.ok.injEq, Option.isSome_some, true_and]
    cases breakpoint <;> exact eq_comm

theorem setPosition_eq_ok_iff {id : OperatorId} {position : Point} {result : Graph × List Event} :
    g.setPosition id position = .ok result ↔ (g.operators.get? id).isSome ∧
      result = ({ g with positions := g.positions.insert id position },
        if (g.positionOf id).same position then [] else [.operatorMoved id position]) := by
  unfold setPosition findOperator
  cases g.operators.get? id with
  | none => simp [bind, Except.bind]
  | some op =>
    simp only [bind, Except.bind, pure, Except.pure, Except.ok.injEq, Option.isSome_some, true_and]
    exact eq_comm

/-! ## Mutations keep graphs coherent -/

/-- Where an operator is replaced by one with the same ports, the ports under each name stay. -/
theorem get?_insert_ports {id other : OperatorId} {op op' found : Operator}
    (hget : g.operators.get? id = some op) (hin : op'.inputs = op.inputs)
    (hout : op'.outputs = op.outputs) (hfound : g.operators.get? other = some found) :
    ∃ now, (g.operators.insert id op').get? other = some now ∧ now.inputs = found.inputs ∧
      now.outputs = found.outputs := by
  rw [Dict.get?_insert]
  split
  · rename_i heq
    subst heq
    cases hget.symm.trans hfound
    exact ⟨op', rfl, hin, hout⟩
  · exact ⟨found, hfound, rfl, rfl⟩

namespace Coherent

theorem addOperator (h : g.Coherent) {op : Operator} (position : Point)
    (hfree : g.operators.get? op.id = none) :
    Coherent { g with
      operators := g.operators.insert op.id op
      positions := g.positions.insert op.id position } where
  operator_id hget := by
    rw [Dict.get?_insert] at hget
    split at hget
    · cases hget
      assumption
    · exact h.operator_id hget
  link_id := h.link_id
  position_iff id := by
    rw [Dict.get?_insert, Dict.get?_insert]
    split
    · simp
    · exact h.position_iff id
  source hget := by
    obtain ⟨other, hother, hport⟩ := h.source hget
    exact ⟨other, Dict.get?_insert_of_free hfree hother, hport⟩
  target hget := by
    obtain ⟨other, hother, hport⟩ := h.target hget
    exact ⟨other, Dict.get?_insert_of_free hfree hother, hport⟩
  unique := h.unique
  breakpoint_link := h.breakpoint_link

/-- An operator may be replaced by one of the same name with the same ports. -/
theorem replaceOperator (h : g.Coherent) {id : OperatorId} {op op' : Operator}
    (hget : g.operators.get? id = some op) (hid : op'.id = op.id) (hin : op'.inputs = op.inputs)
    (hout : op'.outputs = op.outputs) :
    Coherent { g with operators := g.operators.insert id op' } where
  operator_id hget' := by
    rw [Dict.get?_insert] at hget'
    split at hget'
    · rename_i heq
      cases hget'
      rw [hid, h.operator_id hget, heq]
    · exact h.operator_id hget'
  link_id := h.link_id
  position_iff other := by
    rw [Dict.get?_insert]
    split
    · rename_i heq
      rw [h.position_iff, ← heq, hget]
      rfl
    · exact h.position_iff other
  source hlink := by
    obtain ⟨found, hfound, hport⟩ := h.source hlink
    obtain ⟨now, hnow, -, houtputs⟩ := get?_insert_ports hget hin hout hfound
    exact ⟨now, hnow, houtputs ▸ hport⟩
  target hlink := by
    obtain ⟨found, hfound, hport⟩ := h.target hlink
    obtain ⟨now, hnow, hinputs, -⟩ := get?_insert_ports hget hin hout hfound
    exact ⟨now, hnow, hinputs ▸ hport⟩
  unique := h.unique
  breakpoint_link := h.breakpoint_link

theorem dropLinks (h : g.Coherent) (links : List Link) : (g.dropLinks links).Coherent where
  operator_id hget := h.operator_id (by rwa [dropLinks_operators] at hget)
  link_id hget := by
    rw [get?_dropLinks_links] at hget
    split at hget
    · cases hget
    · exact h.link_id hget
  position_iff id := by
    rw [dropLinks_operators, dropLinks_positions]
    exact h.position_iff id
  source hget := by
    rw [get?_dropLinks_links] at hget
    rw [dropLinks_operators]
    split at hget
    · cases hget
    · exact h.source hget
  target hget := by
    rw [get?_dropLinks_links] at hget
    rw [dropLinks_operators]
    split at hget
    · cases hget
    · exact h.target hget
  unique hget hget' := by
    rw [get?_dropLinks_links] at hget hget'
    split at hget
    · cases hget
    · split at hget'
      · cases hget'
      · exact h.unique hget hget'
  breakpoint_link {id} hget := by
    rw [get?_dropLinks_breakpoints] at hget
    rw [get?_dropLinks_links]
    split at hget
    · cases hget
    · rename_i hmem
      rw [if_neg hmem]
      exact h.breakpoint_link hget

/-- An operator that no link has an end at may be taken away. -/
theorem eraseOperator (h : g.Coherent) {id : OperatorId}
    (hfree : ∀ key link, g.links.get? key = some link → link.touches id = false) :
    Coherent { g with operators := g.operators.erase id, positions := g.positions.erase id } where
  operator_id hget := by
    rw [Dict.get?_erase] at hget
    split at hget
    · cases hget
    · exact h.operator_id hget
  link_id := h.link_id
  position_iff other := by
    rw [Dict.get?_erase, Dict.get?_erase]
    split
    · simp
    · exact h.position_iff other
  source hget := by
    obtain ⟨op, hop, hport⟩ := h.source hget
    refine ⟨op, ?_, hport⟩
    have hfree := hfree _ _ hget
    simp only [Link.touches, Bool.or_eq_false_iff, decide_eq_false_iff_not] at hfree
    rwa [Dict.get?_erase, if_neg (Ne.symm hfree.1)]
  target hget := by
    obtain ⟨op, hop, hport⟩ := h.target hget
    refine ⟨op, ?_, hport⟩
    have hfree := hfree _ _ hget
    simp only [Link.touches, Bool.or_eq_false_iff, decide_eq_false_iff_not] at hfree
    rwa [Dict.get?_erase, if_neg (Ne.symm hfree.2)]
  unique := h.unique
  breakpoint_link := h.breakpoint_link

/-- Once the links at an operator are gone, none has an end at it. -/
theorem touches_dropLinks_linksAt (h : g.Coherent) (id : OperatorId) {key : LinkId} {link : Link}
    (hget : (g.dropLinks (g.linksAt id)).links.get? key = some link) : link.touches id = false := by
  rw [get?_dropLinks_links] at hget
  split at hget
  · cases hget
  · rename_i hmem
    rw [Bool.eq_false_iff]
    intro htouch
    -- A link with an end there is among those that were taken away.
    refine hmem (List.mem_map.mpr ⟨link, Graph.mem_linksAt.mpr ⟨⟨key, hget⟩, htouch⟩, ?_⟩)
    exact h.link_id hget

theorem deleteOperator (h : g.Coherent) (id : OperatorId) : (g.withoutOperator id).Coherent := by
  -- First its links go, then the operator: no link is ever without an end.
  have hcut := (h.dropLinks (g.linksAt id)).eraseOperator fun key link =>
    h.touches_dropLinks_linksAt id
  rwa [dropLinks_operators, dropLinks_positions] at hcut

theorem addLink (h : g.Coherent) {link : Link} (hok : g.checkLink link = .ok ()) :
    Coherent { g with links := g.links.insert link.id link } := by
  obtain ⟨hfree, hbetween, hsource, htarget⟩ := checkLink_eq_ok_iff.mp hok
  have hpair := linkBetween?_eq_none_iff.mp hbetween
  exact {
    operator_id := h.operator_id
    link_id := fun hget => by
      rw [Dict.get?_insert] at hget
      split at hget
      · cases hget
        assumption
      · exact h.link_id hget
    position_iff := h.position_iff
    source := fun hget => by
      rw [Dict.get?_insert] at hget
      split at hget
      · cases hget
        exact hasSource_iff.mp hsource
      · exact h.source hget
    target := fun hget => by
      rw [Dict.get?_insert] at hget
      split at hget
      · cases hget
        exact hasTarget_iff.mp htarget
      · exact h.target hget
    unique := fun {id id' first second} hget hget' hs ht => by
      rw [Dict.get?_insert] at hget hget'
      split at hget <;> split at hget'
      · rename_i heq heq'
        rw [← heq, heq']
      · cases hget
        -- The check has found no link between these ports.
        exact absurd ⟨hs.symm, ht.symm⟩ (hpair id' second hget')
      · cases hget'
        exact absurd ⟨hs, ht⟩ (hpair id first hget)
      · exact h.unique hget hget' hs ht
    breakpoint_link := fun hget => by
      rw [Dict.get?_insert]
      split
      · rfl
      · exact h.breakpoint_link hget }

theorem deleteLink (h : g.Coherent) {id : LinkId} {link : Link}
    (hget : g.links.get? id = some link) : (g.dropLink id).Coherent := by
  have hid := h.link_id hget
  exact hid ▸ h.dropLinks [link]

theorem setBreakpoint (h : g.Coherent) {id : LinkId} (breakpoint : Option Breakpoint)
    (hlink : (g.links.get? id).isSome) :
    Coherent { g with breakpoints := g.breakpointsWith id breakpoint } where
  operator_id := h.operator_id
  link_id := h.link_id
  position_iff := h.position_iff
  source := h.source
  target := h.target
  unique := h.unique
  breakpoint_link hget := by
    rw [get?_breakpointsWith] at hget
    split at hget
    · rename_i heq
      exact heq ▸ hlink
    · exact h.breakpoint_link hget

theorem setPosition (h : g.Coherent) {id : OperatorId} (position : Point)
    (hop : (g.operators.get? id).isSome) :
    Coherent { g with positions := g.positions.insert id position } where
  operator_id := h.operator_id
  link_id := h.link_id
  position_iff other := by
    rw [Dict.get?_insert]
    split
    · rename_i heq
      simpa [← heq] using hop
    · exact h.position_iff other
  source := h.source
  target := h.target
  unique := h.unique
  breakpoint_link := h.breakpoint_link

end Coherent

/-- An operator may be replaced by one of the same name and type with the same ports. -/
theorem WellFormed.replaceOperator (h : g.WellFormed catalogue) {id : OperatorId}
    {op op' : Operator} (hget : g.operators.get? id = some op) (hid : op'.id = op.id)
    (htype : op'.type = op.type) (hin : op'.inputs = op.inputs) (hout : op'.outputs = op.outputs) :
    WellFormed catalogue { g with operators := g.operators.insert id op' } := by
  refine ⟨h.toCoherent.replaceOperator hget hid hin hout, fun hget' => ?_⟩
  rw [Dict.get?_insert] at hget'
  split at hget'
  · cases hget'
    exact (h.fits hget).congr htype hin hout
  · exact h.fits hget'

end Graph

end PipelineEditor
