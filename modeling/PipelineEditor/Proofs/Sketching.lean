import Mathlib.Data.List.Induction
import Mathlib.Data.List.Nodup
import Mathlib.Data.List.TakeWhile
import PipelineEditor.Proofs.Loading
import PipelineEditor.Sketch

/-!
# What comes of a sketch

A sketch is put together step by step, and its pipeline can be told from the steps: which operators
it has, which connections are kept as links and under which names, and which breakpoints stand on
them.  Names are given to links twice, when a breakpoint is set and when the pipeline is made; both
count all connections, those that are left out as well, so no breakpoint goes astray.

## Main definitions

* `Sketch.Step`, `Sketch.draw`: the steps, and the sketch that comes of them
* `Sketch.added`, `Sketch.connected`: the operators that steps add, and the connections they make
* `Sketch.Joint`, `Sketch.joined`: the connections that are kept
* `Sketch.breakpointAhead`: the breakpoint that is meant for a connection
* `Sketch.Drawn`: what is in a sketch after steps

## Main results

* `Sketch.exists_draw_iff`: which steps can be gone through
* `Sketch.Step.drawn`, `Sketch.drawn_of_draw`: what a step makes of a sketch, and all steps
* `Sketch.content_of_draw`: the pipeline, when it can be loaded, and what is saved then
-/

namespace PipelineEditor

/-- Names that end in numbers differ where the numbers do. -/
theorem append_toString_inj {stem : String} {number other : Nat} :
    stem ++ toString number = stem ++ toString other ↔ number = other := by
  refine ⟨fun h => ?_, fun h => h ▸ rfl⟩
  have hdigits : Nat.toDigits 10 number = Nat.toDigits 10 other := by
    rw [← Nat.toList_repr, ← Nat.toList_repr]
    exact congrArg String.toList ((String.append_right_inj stem).mp h)
  -- A number is read back from its digits.
  calc number
      = Nat.ofDigitChars 10 (Nat.toDigits 10 number) 0 := Nat.ofDigitChars_ten_toDigits.symm
    _ = Nat.ofDigitChars 10 (Nat.toDigits 10 other) 0 := by rw [hdigits]
    _ = other := Nat.ofDigitChars_ten_toDigits

/-- Ports of one kind go by different names. -/
theorem Port.numbered_inj {stem : String} {index other : Nat} :
    Port.numbered stem index = Port.numbered stem other ↔ index = other := append_toString_inj

namespace Catalogue

variable {catalogue : Catalogue} {type : String} {id : OperatorId} {op : Operator}

theorem findType_eq_ok_iff {t : OperatorType} :
    catalogue.findType type = .ok t ↔ catalogue.type? type = some t := by
  unfold findType
  cases catalogue.type? type <;> simp

/-- Operators can be made of the types of the catalogue. -/
theorem exists_newOperator_iff :
    (∃ op, catalogue.newOperator type id = .ok op) ↔ catalogue.hasType type = true := by
  have htype : catalogue.hasType type = true ↔ ∃ t, catalogue.type? type = some t :=
    Option.isSome_iff_exists
  rw [htype]
  constructor
  · rintro ⟨op, hnew⟩
    obtain ⟨t, hfound, -⟩ := bind_eq_ok_iff.mp hnew
    exact ⟨t, findType_eq_ok_iff.mp hfound⟩
  · rintro ⟨t, hfound⟩
    exact ⟨_, bind_eq_ok_iff.mpr ⟨t, findType_eq_ok_iff.mpr hfound, rfl⟩⟩

/-- A new operator has the name and the type that it was to have, and fits the catalogue. -/
theorem newOperator_eq_ok (h : catalogue.newOperator type id = .ok op) :
    (op.id, op.type) = (id, type) ∧ catalogue.Fits op := by
  obtain ⟨t, hfound, heq⟩ := bind_eq_ok_iff.mp h
  cases heq
  refine ⟨rfl, t, findType_eq_ok_iff.mp hfound, ?_, ?_⟩ <;> exact List.map_map

/-- The ports of an operator that fits are those of its type. -/
theorem Fits.ports_eq (h : catalogue.Fits op) {t : OperatorType}
    (ht : catalogue.type? op.type = some t) :
    op.inputs.map (·.id) = (List.range t.inputCount).map (Port.numbered Port.inputStem) ∧
      op.outputs.map (·.id) = (List.range t.outputCount).map (Port.numbered Port.outputStem) := by
  obtain ⟨found, hfound, hports⟩ := h
  obtain rfl := Option.some.inj (hfound.symm.trans ht)
  exact hports

end Catalogue

namespace Sketch

/-- Connections of different numbers make links of different names. -/
theorem linkName_inj {number other : Nat} : linkName number = linkName other ↔ number = other :=
  append_toString_inj

/-! ## Steps -/

/-- An operator of a type that is added under a nickname, and the name it gets. -/
structure Addition where
  nickname : String
  type : String
  position : Point
  id : OperatorId

/-- One step of putting a sketch together. -/
inductive Step where
  | add (addition : Addition)
  | setProperties (properties : Json)
  | disable
  | connect (connection : Connection)
  | setBreakpoint (breakpoint : Breakpoint)

namespace Step

/-- The sketch after the step. -/
def perform (sketch : Sketch) : Step → Except EditError Sketch
  | add addition =>
    sketch.addOperator addition.nickname addition.type addition.position addition.id
  | setProperties properties => .ok (sketch.setProperties properties)
  | disable => .ok sketch.disable
  | connect connection => .ok (sketch.connect connection)
  | setBreakpoint breakpoint => .ok (sketch.setBreakpoint breakpoint)

def addition? : Step → Option Addition
  | add addition => some addition
  | _ => none

def connection? : Step → Option Connection
  | connect connection => some connection
  | _ => none

def breakpoint? : Step → Option Breakpoint
  | setBreakpoint breakpoint => some breakpoint
  | _ => none

end Step

/-- The sketch that comes of steps, if each of them can be gone through. -/
def draw (catalogue : Catalogue) (steps : List Step) : Except EditError Sketch :=
  steps.foldlM Step.perform (start catalogue)

/-- The operators that steps add, in their order. -/
def added (steps : List Step) : List Addition := steps.filterMap Step.addition?

/-- The connections that steps make, in their order. -/
def connected (steps : List Step) : List Connection := steps.filterMap Step.connection?

/-- The last breakpoint that is set before the next connection is made. -/
def breakpointAhead (steps : List Step) : Option Breakpoint :=
  ((steps.takeWhile (·.connection?.isNone)).filterMap Step.breakpoint?).getLast?

/-- The first operator that is added under the nickname, wherever that is. -/
def nicknamed? (steps : List Step) (nickname : String) : Option Addition :=
  (added steps).find? (·.nickname = nickname)

/-- A connection between two operators that are there. -/
structure Joint where
  source : Addition
  sourcePort : Nat
  target : Addition
  targetPort : Nat

namespace Joint

/-- The ports that are joined, by operator and number. -/
def ends (joint : Joint) : (OperatorId × Nat) × (OperatorId × Nat) :=
  ((joint.source.id, joint.sourcePort), (joint.target.id, joint.targetPort))

/-- The ports that are joined, by name. -/
def ports (joint : Joint) : PortRef × PortRef :=
  (⟨joint.source.id, Port.numbered Port.outputStem joint.sourcePort⟩,
    ⟨joint.target.id, Port.numbered Port.inputStem joint.targetPort⟩)

/-- The link for the connection of the given number. -/
def link (joint : Joint) (number : Nat) : Link :=
  ⟨linkName number, joint.ports.1, joint.ports.2⟩

/-- **The numbers are those of ports that the operators have.** -/
def Sound (catalogue : Catalogue) (joint : Joint) : Prop :=
  (∃ t, catalogue.type? joint.source.type = some t ∧ joint.sourcePort < t.outputCount) ∧
    ∃ t, catalogue.type? joint.target.type = some t ∧ joint.targetPort < t.inputCount

/-- Ports of different numbers have different names. -/
theorem ports_inj {joint other : Joint} : joint.ports = other.ports ↔ joint.ends = other.ends := by
  simp [ports, ends, Port.numbered_inj]

end Joint

/-- The connection with its operators, if both nicknames stand for one. -/
def joint? (steps : List Step) (connection : Connection) : Option Joint := do
  let source ← nicknamed? steps connection.source
  let target ← nicknamed? steps connection.target
  return ⟨source, connection.sourcePort, target, connection.targetPort⟩

/-- The connections that are kept. -/
def joined (steps : List Step) : List Joint := (connected steps).filterMap (joint? steps)

variable {catalogue : Catalogue} {steps : List Step} {step : Step} {sketch sketch' : Sketch}

/-- Connections that are kept are between operators that were added. -/
theorem mem_added_of_mem_joined {joint : Joint} (h : joint ∈ joined steps) :
    joint.source ∈ added steps ∧ joint.target ∈ added steps := by
  obtain ⟨connection, -, hjoint⟩ := List.mem_filterMap.mp h
  obtain ⟨source, hsource, hrest⟩ := Option.bind_eq_some_iff.mp hjoint
  obtain ⟨target, htarget, heq⟩ := Option.bind_eq_some_iff.mp hrest
  cases heq
  exact ⟨List.mem_of_find?_eq_some hsource, List.mem_of_find?_eq_some htarget⟩

theorem added_concat : added (steps ++ [step]) = added steps ++ step.addition?.toList := by
  unfold added
  rw [List.filterMap_append]
  cases step <;> rfl

theorem connected_concat :
    connected (steps ++ [step]) = connected steps ++ step.connection?.toList := by
  unfold connected
  rw [List.filterMap_append]
  cases step <;> rfl

theorem connected_split {before after : List Step} {connection : Connection} :
    connected (before ++ .connect connection :: after) =
      connected before ++ connection :: connected after := List.filterMap_append

/-- A breakpoint that is set later counts, but only until the next connection. -/
theorem breakpointAhead_concat : breakpointAhead (steps ++ [step]) =
    if connected steps = [] then step.breakpoint?.or (breakpointAhead steps)
    else breakpointAhead steps := by
  unfold breakpointAhead
  split
  · rename_i hnone
    have hall : ∀ other ∈ steps, other.connection?.isNone = true := by
      simpa [connected] using hnone
    rw [List.takeWhile_append_of_pos hall, List.filterMap_append, List.getLast?_append,
      List.takeWhile_eq_self_iff.mpr hall]
    cases step <;> rfl
  · rename_i hsome
    have hlength : ¬ (steps.takeWhile (·.connection?.isNone)).length = steps.length := by
      intro hlength
      have hall := List.takeWhile_eq_self_iff.mp
        ((List.takeWhile_prefix _).eq_of_length hlength)
      exact hsome (List.filterMap_eq_nil_iff.mpr fun other hmem =>
        Option.isNone_iff_eq_none.mp (hall other hmem))
    rw [List.takeWhile_append, if_neg hlength]

/-- In longer steps a connection is the last step, or was there before. -/
theorem split_concat {before after : List Step} {connection : Connection}
    (h : steps ++ [step] = before ++ .connect connection :: after) :
    (step = .connect connection ∧ steps = before ∧ after = []) ∨
      ∃ later, steps = before ++ .connect connection :: later ∧ after = later ++ [step] := by
  rcases List.eq_nil_or_concat after with rfl | ⟨later, last, rfl⟩
  · obtain ⟨hsteps, hstep⟩ := List.append_inj' h rfl
    exact .inl ⟨List.singleton_inj.mp hstep, hsteps, rfl⟩
  · rw [List.concat_eq_append, ← List.cons_append, ← List.append_assoc] at h
    obtain ⟨hsteps, hstep⟩ := List.append_inj' h rfl
    obtain rfl := List.singleton_inj.mp hstep
    exact .inr ⟨later, hsteps, List.concat_eq_append⟩

/-! ## Breakpoints -/

/-- **Each connection has the breakpoint that is meant for it**, under the name that its link will
have, and there are no other breakpoints. -/
structure Marked (steps : List Step) (breakpoints : Dict Breakpoint) : Prop where
  numbered : ∀ id, (breakpoints.get? id).isSome →
    ∃ number < (connected steps).length, id = linkName (number + 1)
  ahead : ∀ {before connection after}, steps = before ++ .connect connection :: after →
    breakpoints.get? (linkName ((connected before).length + 1)) = breakpointAhead after

namespace Marked

variable {breakpoints : Dict Breakpoint}

/-- A connection that has just been made has no breakpoint, and without connections there are
none. -/
theorem concat (h : Marked steps breakpoints)
    (hstep : step.breakpoint? = none ∨ connected steps = []) :
    Marked (steps ++ [step]) breakpoints where
  numbered id hsome := by
    obtain ⟨number, hlt, hid⟩ := h.numbered id hsome
    refine ⟨number, ?_, hid⟩
    rw [connected_concat, List.length_append]
    exact Nat.lt_add_right _ hlt
  ahead heq := by
    rcases split_concat heq with ⟨rfl, rfl, rfl⟩ | ⟨later, hsteps, rfl⟩
    · show _ = none
      refine Option.not_isSome_iff_eq_none.mp fun hsome => ?_
      obtain ⟨number, hlt, hid⟩ := h.numbered _ hsome
      have hnumber := linkName_inj.mp hid
      omega
    · rcases hstep with hstep | hnone
      · rw [h.ahead hsteps, breakpointAhead_concat, hstep, Option.none_or, ite_self]
      · rw [hsteps, connected_split] at hnone
        simp at hnone

/-- The latest connection gets the breakpoint. -/
theorem setBreakpoint (h : Marked steps breakpoints) (hsome : connected steps ≠ [])
    (breakpoint : Breakpoint) : Marked (steps ++ [.setBreakpoint breakpoint])
      (breakpoints.insert (linkName (connected steps).length) breakpoint) where
  numbered id hid := by
    have hlength : (connected (steps ++ [.setBreakpoint breakpoint])).length =
        (connected steps).length := by
      rw [connected_concat]
      exact congrArg List.length (List.append_nil _)
    rw [hlength]
    rw [Dict.get?_insert] at hid
    split at hid
    · rename_i heq
      have hpos := List.length_pos_iff.mpr hsome
      exact ⟨(connected steps).length - 1, by omega, by rw [Nat.sub_add_cancel hpos, heq]⟩
    · exact h.numbered id hid
  ahead {before connection after} heq := by
    rcases split_concat heq with ⟨hstep, -⟩ | ⟨later, hsteps, rfl⟩
    · cases hstep
    · have hlength : (connected steps).length =
          (connected before).length + 1 + (connected later).length := by
        rw [hsteps, connected_split, List.length_append, List.length_cons]
        omega
      rw [Dict.get?_insert, breakpointAhead_concat, h.ahead hsteps]
      -- It is the latest connection just if none is made later.
      have hlatest : (connected steps).length = (connected before).length + 1 ↔
          connected later = [] := by
        rw [hlength, ← List.length_eq_zero_iff]
        omega
      simp only [linkName_inj, hlatest]
      split <;> rfl

end Marked

/-! ## What steps leave -/

/-- **What is in a sketch after steps.** -/
structure Drawn (catalogue : Catalogue) (steps : List Step) (sketch : Sketch) : Prop where
  catalogue_eq : sketch.catalogue = catalogue
  operators : sketch.operators.map (fun op => (op.id, op.type)) =
    (added steps).map fun addition => (addition.id, addition.type)
  fits : ∀ op ∈ sketch.operators, catalogue.Fits op
  positions : sketch.positions =
    .ofList ((added steps).map fun addition => (addition.id, addition.position))
  nicknames : sketch.nicknames =
    (added steps).map fun addition => (addition.nickname, addition.id)
  connections : sketch.connections = connected steps
  marked : Marked steps sketch.breakpoints

theorem drawn_start (catalogue : Catalogue) : Drawn catalogue [] (start catalogue) where
  catalogue_eq := rfl
  operators := rfl
  fits _ hmem := nomatch hmem
  positions := rfl
  nicknames := rfl
  connections := rfl
  marked := ⟨fun _ hsome => (nomatch hsome), fun {before _ _} heq => by cases before <;> cases heq⟩

/-- A change of the operator added last does not show in what it leaves alone. -/
theorem map_modifyLast {β : Type} {see : Operator → β} {change : Operator → Operator}
    (h : ∀ op, see (change op) = see op) (operators : List Operator) :
    (modifyLast change operators).map see = operators.map see := by
  induction operators using modifyLast.induct with
  | case1 => rfl
  | case2 op => exact congrArg ([·]) (h op)
  | case3 op rest hrest ih =>
    rw [modifyLast, List.map_cons, ih, List.map_cons]
    exact hrest

namespace Drawn

/-- Changes of the operator added last do not matter, if its name, type and ports stay. -/
theorem modifyLast (h : Drawn catalogue steps sketch) {change : Operator → Operator}
    (hsee : ∀ op, ((change op).id, (change op).type, (change op).inputs, (change op).outputs) =
      (op.id, op.type, op.inputs, op.outputs)) :
    Drawn catalogue steps
      { sketch with operators := Sketch.modifyLast change sketch.operators } := by
  have hoperators : (Sketch.modifyLast change sketch.operators).map (fun op =>
      (op.id, op.type, op.inputs, op.outputs)) =
      sketch.operators.map fun op => (op.id, op.type, op.inputs, op.outputs) :=
    map_modifyLast hsee sketch.operators
  refine { h with operators := ?_, fits := fun op hmem => ?_ }
  · have hnames := congrArg (List.map fun ports => (ports.1, ports.2.1)) hoperators
    rw [List.map_map, List.map_map] at hnames
    rw [← h.operators]
    exact hnames
  · -- The operator has the type and the ports of one that was there before.
    have hsame := List.mem_map_of_mem (f := fun op => (op.id, op.type, op.inputs, op.outputs)) hmem
    rw [hoperators] at hsame
    obtain ⟨before, hbefore, heq⟩ := List.mem_map.mp hsame
    simp only [Prod.mk.injEq] at heq
    obtain ⟨-, htype, hinputs, houtputs⟩ := heq
    exact (h.fits before hbefore).congr htype.symm hinputs.symm houtputs.symm

/-- A step that adds no operator leaves all that operators are known by. -/
theorem concat (h : Drawn catalogue steps sketch) (hadd : step.addition? = none)
    {connections : List Connection} {breakpoints : Dict Breakpoint}
    (hconnections : connections = connected steps ++ step.connection?.toList)
    (hmarked : Marked (steps ++ [step]) breakpoints) :
    Drawn catalogue (steps ++ [step]) { sketch with connections, breakpoints } := by
  have hadded : added (steps ++ [step]) = added steps := by
    rw [added_concat, hadd]
    exact List.append_nil _
  exact {
    catalogue_eq := h.catalogue_eq
    operators := hadded ▸ h.operators
    fits := h.fits
    positions := hadded ▸ h.positions
    nicknames := hadded ▸ h.nicknames
    connections := hconnections.trans connected_concat.symm
    marked := hmarked }

/-- A step that neither adds an operator nor makes a connection nor sets a breakpoint. -/
theorem quiet (h : Drawn catalogue steps sketch) (hadd : step.addition? = none)
    (hconnect : step.connection? = none) (hset : step.breakpoint? = none) :
    Drawn catalogue (steps ++ [step]) sketch := by
  refine h.concat hadd ?_ (h.marked.concat (.inl hset))
  rw [hconnect, h.connections]
  exact (List.append_nil _).symm

end Drawn

/-- **What each step makes of a sketch.** -/
theorem Step.drawn (h : Drawn catalogue steps sketch) (hstep : step.perform sketch = .ok sketch') :
    Drawn catalogue (steps ++ [step]) sketch' := by
  -- Only two kinds of steps add anything; the others change the last operator or the last
  -- breakpoint.
  cases step with
  | add addition =>
    obtain ⟨op, hnew, heq⟩ := bind_eq_ok_iff.mp hstep
    cases heq
    rw [h.catalogue_eq] at hnew
    obtain ⟨hop, hfits⟩ := Catalogue.newOperator_eq_ok hnew
    refine ⟨h.catalogue_eq, ?_, fun other hmem => ?_, ?_, ?_, ?_, h.marked.concat (.inl rfl)⟩
    · rw [added_concat, List.map_append, List.map_append, h.operators]
      exact congrArg (_ ++ [·]) hop
    · rcases List.mem_append.mp hmem with hmem | hmem
      · exact h.fits other hmem
      · exact List.mem_singleton.mp hmem ▸ hfits
    · rw [added_concat, List.map_append, Dict.ofList, List.foldl_append, h.positions]
      rfl
    · rw [added_concat, List.map_append, h.nicknames]
      rfl
    · rw [connected_concat, ← h.connections]
      exact (List.append_nil _).symm
  | setProperties properties =>
    cases hstep
    exact (h.quiet rfl rfl rfl).modifyLast fun _ => rfl
  | disable =>
    cases hstep
    exact (h.quiet rfl rfl rfl).modifyLast fun _ => rfl
  | connect connection =>
    cases hstep
    refine h.concat rfl ?_ (h.marked.concat (.inl rfl))
    rw [h.connections]
    rfl
  | setBreakpoint breakpoint =>
    cases hstep
    have hconnections : sketch.connections = connected steps ++ [] :=
      h.connections.trans (List.append_nil _).symm
    unfold Sketch.setBreakpoint
    -- A breakpoint that comes before the first connection is dropped, as `marked` has it.
    split
    · rename_i hempty
      have hnone : connected steps = [] := h.connections ▸ List.isEmpty_iff.mp hempty
      exact h.concat rfl hconnections (h.marked.concat (.inr hnone))
    · rename_i hsome
      have hsome : connected steps ≠ [] := fun hnone =>
        hsome (List.isEmpty_iff.mpr (h.connections.trans hnone))
      have hmarked := h.marked.setBreakpoint hsome breakpoint
      rw [← h.connections] at hmarked
      exact h.concat rfl hconnections hmarked

/-- The last step is gone through after the others. -/
theorem draw_concat_eq_ok_iff : draw catalogue (steps ++ [step]) = .ok sketch' ↔
    ∃ sketch, draw catalogue steps = .ok sketch ∧ step.perform sketch = .ok sketch' := by
  have hlast (sketch : Sketch) : [step].foldlM Step.perform sketch = step.perform sketch := by
    rw [List.foldlM_cons]
    exact bind_pure _
  unfold draw
  rw [List.foldlM_append, bind_eq_ok_iff]
  simp only [hlast]

/-- **What is in a sketch follows from the steps.** -/
theorem drawn_of_draw (h : draw catalogue steps = .ok sketch) : Drawn catalogue steps sketch := by
  induction steps using List.reverseRecOn generalizing sketch with
  | nil =>
    cases h
    exact drawn_start catalogue
  | append_singleton steps step ih =>
    obtain ⟨before, hbefore, hlast⟩ := draw_concat_eq_ok_iff.mp h
    exact step.drawn (ih hbefore) hlast

/-- An operator can be added just if its type is in the catalogue; nothing else is refused. -/
theorem Step.exists_perform_iff : (∃ sketch', step.perform sketch = .ok sketch') ↔
    ∀ addition ∈ step.addition?, sketch.catalogue.hasType addition.type = true := by
  cases step with
  | add addition =>
    constructor
    · rintro ⟨sketch', h⟩ _ ⟨⟩
      obtain ⟨op, hnew, -⟩ := bind_eq_ok_iff.mp h
      exact Catalogue.exists_newOperator_iff.mp ⟨op, hnew⟩
    · intro htype
      obtain ⟨op, hnew⟩ := Catalogue.exists_newOperator_iff.mpr (htype addition rfl)
      exact ⟨_, bind_eq_ok_iff.mpr ⟨op, hnew, rfl⟩⟩
  | _ => simp [perform, addition?]

/-- **Steps can be gone through just if all operators that they add are of types of the
catalogue.** -/
theorem exists_draw_iff : (∃ sketch, draw catalogue steps = .ok sketch) ↔
    ∀ addition ∈ added steps, catalogue.hasType addition.type = true := by
  induction steps using List.reverseRecOn with
  | nil => exact iff_of_true ⟨_, rfl⟩ fun _ hmem => nomatch hmem
  | append_singleton steps step ih =>
    have hstep {sketch : Sketch} (h : draw catalogue steps = .ok sketch) :
        (∃ sketch', step.perform sketch = .ok sketch') ↔
          ∀ addition ∈ step.addition?.toList, catalogue.hasType addition.type = true := by
      rw [Step.exists_perform_iff, (drawn_of_draw h).catalogue_eq]
      simp
    simp only [draw_concat_eq_ok_iff, added_concat, List.forall_mem_append, ← ih]
    constructor
    · rintro ⟨sketch', sketch, hdraw, hperform⟩
      exact ⟨⟨sketch, hdraw⟩, (hstep hdraw).mp ⟨sketch', hperform⟩⟩
    · rintro ⟨⟨sketch, hdraw⟩, htypes⟩
      obtain ⟨sketch', hperform⟩ := (hstep hdraw).mpr htypes
      exact ⟨sketch', sketch, hdraw, hperform⟩

/-! ## The pipeline -/

/-- All connections made into links, as far as they can be, and the breakpoints of the others taken
away. -/
theorem foldl_addConnection (sketch : Sketch) (entries : List (Connection × Nat))
    (content : Content) : entries.foldl sketch.addConnection content = { content with
      links := content.links ++ entries.filterMap fun entry => sketch.link? entry.2 entry.1
      breakpoints := content.breakpoints.eraseAll ((entries.filter fun entry =>
        (sketch.link? entry.2 entry.1).isNone).map fun entry => linkName entry.2) } := by
  induction entries generalizing content with
  | nil => simp [Dict.eraseAll]
  | cons entry rest ih =>
    obtain ⟨connection, number⟩ := entry
    rw [List.foldl_cons, ih, addConnection]
    cases hlink : sketch.link? number connection <;> simp [hlink, Dict.eraseAll]

theorem content_operators (sketch : Sketch) : sketch.content.operators = sketch.operators := by
  rw [content, foldl_addConnection]

theorem content_positions (sketch : Sketch) : sketch.content.positions = sketch.positions := by
  rw [content, foldl_addConnection]

namespace Drawn

section

variable (h : Drawn catalogue steps sketch)

include h

/-- Of two operators under one nickname the first counts, wherever it was added. -/
theorem operatorId?_eq (nickname : String) :
    sketch.operatorId? nickname = (nicknamed? steps nickname).map (·.id) := by
  unfold operatorId? nicknamed?
  rw [h.nicknames]
  induction added steps with
  | nil => rfl
  | cons addition rest ih =>
    rw [List.map_cons, Entries.find?_cons, List.find?_cons, ih]
    by_cases heq : addition.nickname = nickname <;> simp [heq]

theorem link?_eq (connection : Connection) (number : Nat) :
    sketch.link? number connection = (joint? steps connection).map (·.link number) := by
  unfold link? joint?
  rw [h.operatorId?_eq, h.operatorId?_eq]
  cases nicknamed? steps connection.source with
  | none => rfl
  | some source => cases nicknamed? steps connection.target <;> rfl

/-- The links are those of the connections that are kept, each under its number. -/
theorem links_eq : sketch.content.links = ((connected steps).zipIdx 1).filterMap fun entry =>
    (joint? steps entry.1).map (·.link entry.2) := by
  rw [content, foldl_addConnection, h.connections]
  exact List.filterMap_congr fun entry _ => h.link?_eq entry.1 entry.2

theorem mem_links {link : Link} : link ∈ sketch.content.links ↔
    ∃ number connection joint, (connected steps)[number]? = some connection ∧
      joint? steps connection = some joint ∧ joint.link (number + 1) = link := by
  simp only [h.links_eq, List.mem_filterMap, Prod.exists, Option.map_eq_some_iff,
    List.mk_mem_zipIdx_iff_le_and_getElem?_sub]
  constructor
  · rintro ⟨connection, number, ⟨hle, hget⟩, joint, hjoint, rfl⟩
    refine ⟨number - 1, connection, joint, hget, hjoint, ?_⟩
    rw [Nat.sub_add_cancel hle]
  · rintro ⟨number, connection, joint, hget, hjoint, rfl⟩
    exact ⟨connection, number + 1, ⟨Nat.le_add_left .., hget⟩, joint, hjoint, rfl⟩

/-- No two links have one name. -/
theorem links_nodup : (sketch.content.links.map (·.id)).Nodup := by
  have hnumbers : ((connected steps).zipIdx 1).Pairwise fun entry other => entry.2 ≠ other.2 := by
    rw [← List.pairwise_map (R := (· ≠ ·)), List.zipIdx_map_snd]
    exact List.nodup_range'
  rw [h.links_eq, List.map_filterMap]
  refine hnumbers.filterMap _ fun entry other hne name hname name' hname' heq => hne ?_
  simp only [Option.map_map, Option.map_eq_some_iff, Function.comp_apply] at hname hname'
  obtain ⟨joint, -, rfl⟩ := hname
  obtain ⟨joint', -, rfl⟩ := hname'
  exact linkName_inj.mp heq

/-- A breakpoint is kept with its connection. -/
theorem get?_breakpoints {number : Nat} {connection : Connection}
    (hget : (connected steps)[number]? = some connection) :
    sketch.content.breakpoints.get? (linkName (number + 1)) =
      if (joint? steps connection).isSome then sketch.breakpoints.get? (linkName (number + 1))
      else none := by
  -- Names of links are different, so the name is that of this connection and no other.
  have hskipped : linkName (number + 1) ∈ (((connected steps).zipIdx 1).filter fun entry =>
      (sketch.link? entry.2 entry.1).isNone).map (fun entry => linkName entry.2) ↔
        ¬ (joint? steps connection).isSome := by
    simp only [List.mem_map, List.mem_filter, Prod.exists, linkName_inj, h.link?_eq,
      Option.isNone_map, List.mk_mem_zipIdx_iff_le_and_getElem?_sub]
    constructor
    · rintro ⟨other, _, ⟨⟨-, hother⟩, hnone⟩, rfl⟩
      obtain rfl : connection = other := Option.some.inj (hget.symm.trans hother)
      simpa using hnone
    · intro hnone
      exact ⟨connection, number + 1, ⟨⟨Nat.le_add_left .., hget⟩, by simpa using hnone⟩, rfl⟩
  rw [content, foldl_addConnection, h.connections]
  simp only [Dict.get?_eraseAll, hskipped]
  split <;> simp_all

/-- No breakpoint is on a link that is not there. -/
theorem breakpoint_link {id : LinkId} (hsome : (sketch.content.breakpoints.get? id).isSome) :
    id ∈ sketch.content.links.map (·.id) := by
  have hbefore : (sketch.breakpoints.get? id).isSome := by
    rw [content, foldl_addConnection, Dict.get?_eraseAll] at hsome
    split at hsome
    · cases hsome
    · exact hsome
  obtain ⟨number, hlt, rfl⟩ := h.marked.numbered id hbefore
  have hget := List.getElem?_eq_getElem hlt
  rw [h.get?_breakpoints hget] at hsome
  split at hsome
  · rename_i hjoint
    obtain ⟨joint, hjoint⟩ := Option.isSome_iff_exists.mp hjoint
    have hlink := h.mem_links.mpr ⟨_, _, _, hget, hjoint, rfl⟩
    exact List.mem_map.mpr ⟨_, hlink, rfl⟩
  · cases hsome

/-- The breakpoint that is meant for a connection is on its link. -/
theorem get?_breakpoints_ahead {before after : List Step} {connection : Connection}
    (heq : steps = before ++ .connect connection :: after) :
    sketch.content.breakpoints.get? (linkName ((connected before).length + 1)) =
      if (joint? steps connection).isSome then breakpointAhead after else none := by
  have hget : (connected steps)[(connected before).length]? = some connection := by
    rw [heq, connected_split]
    simp
  rw [h.get?_breakpoints hget, h.marked.ahead heq]

/-- The operators are those that were added, in their order. -/
theorem operators_eq : (sketch.content.operators.map fun op => (op.id, op.type)) =
    (added steps).map fun addition => (addition.id, addition.type) := by
  rw [content_operators]
  exact h.operators

theorem operators_ids :
    sketch.content.operators.map (·.id) = (added steps).map (·.id) := by
  have hnames := congrArg (List.map Prod.fst) h.operators_eq
  rwa [List.map_map, List.map_map] at hnames

/-- Each operator that was added is there with its type. -/
theorem exists_operator {addition : Addition} (hadded : addition ∈ added steps) :
    ∃ op ∈ sketch.content.operators, op.id = addition.id ∧ op.type = addition.type ∧
      catalogue.Fits op := by
  have hnames := List.mem_map_of_mem (f := fun addition => (addition.id, addition.type)) hadded
  rw [← h.operators_eq] at hnames
  obtain ⟨op, hmem, heq⟩ := List.mem_map.mp hnames
  obtain ⟨hid, htype⟩ := Prod.mk.inj heq
  exact ⟨op, hmem, hid, htype, h.fits op (content_operators sketch ▸ hmem)⟩

/-- Each operator stands where it was added. -/
theorem get?_positions (hids : ((added steps).map (·.id)).Nodup) {addition : Addition}
    (hadded : addition ∈ added steps) :
    sketch.content.positions.get? addition.id = some addition.position := by
  have hkeys : (((added steps).map fun addition =>
      (addition.id, addition.position)).map (·.1)).Nodup := by
    rwa [List.map_map]
  rw [content_positions, h.positions]
  exact (Dict.get?_insertAll_of_nodup hkeys).mpr (.inl (List.mem_map_of_mem hadded))

/-- The positions are those of the operators that were added, and no others. -/
theorem positions_canonical : .ofList (sketch.content.operators.map fun op =>
    (op.id, sketch.content.positionOf op.id)) = sketch.content.positions := by
  have hlisted : ∀ entry ∈ sketch.content.operators.map fun op =>
      (op.id, sketch.content.positionOf op.id), entry.2 = sketch.content.positionOf entry.1 := by
    simp
  refine Dict.ext_get? fun id => ?_
  rw [Dict.get?_ofList_of_eq hlisted id, List.map_map]
  -- A position is there just for the operators.
  have hsome : (sketch.content.positions.get? id).isSome ↔
      id ∈ sketch.content.operators.map (·.id) := by
    rw [content_positions, h.positions, h.operators_ids]
    refine (Dict.isSome_get?_insertAll ∅ _ id).trans ?_
    simp
  show (if id ∈ sketch.content.operators.map (·.id) then _ else none) = _
  unfold Content.positionOf
  cases hget : sketch.content.positions.get? id <;> simp_all

/-- The pipeline is saved as it is, but for the order of operators and links. -/
theorem canonical_eq : sketch.content.canonical = { sketch.content with
    operators := sketch.content.operators.mergeSort fun a b => a.id ≤ b.id
    links := sketch.content.links.mergeSort fun a b => a.id ≤ b.id } := by
  unfold Content.canonical
  rw [h.positions_canonical]

/-- The links join the ports that are to be joined. -/
theorem links_ends : (sketch.content.links.map fun link => (link.source, link.target)) =
    (joined steps).map Joint.ports := by
  calc sketch.content.links.map (fun link => (link.source, link.target))
      = ((connected steps).zipIdx 1).filterMap
          ((fun connection => (joint? steps connection).map Joint.ports) ∘ Prod.fst) := by
        rw [h.links_eq, List.map_filterMap]
        refine List.filterMap_congr fun entry _ => ?_
        rw [Option.map_map]
        rfl
    _ = (joined steps).map Joint.ports := by
        rw [← List.filterMap_map, List.zipIdx_map_fst, joined, List.map_filterMap]

/-- A port is that of an operator that was added just if its number is below the count. -/
theorem exists_port_iff (hids : ((added steps).map (·.id)).Nodup) {addition : Addition}
    (hadded : addition ∈ added steps) {ports : Operator → List Port} {stem : String}
    {count : OperatorType → Nat} {number : Nat}
    (hports : ∀ {op t}, catalogue.Fits op → catalogue.type? op.type = some t →
      (ports op).map (·.id) = (List.range (count t)).map (Port.numbered stem)) :
    (∃ op ∈ sketch.content.operators, op.id = addition.id ∧
      Port.numbered stem number ∈ (ports op).map (·.id)) ↔
        ∃ t, catalogue.type? addition.type = some t ∧ number < count t := by
  obtain ⟨op, hmem, hid, htype, hfits⟩ := h.exists_operator hadded
  have hnumber {t : OperatorType} (ht : catalogue.type? op.type = some t) :
      Port.numbered stem number ∈ (ports op).map (·.id) ↔ number < count t := by
    rw [hports hfits ht]
    simp [Port.numbered_inj]
  obtain ⟨t, ht, -⟩ := id hfits
  constructor
  · rintro ⟨other, hother, hsame, hport⟩
    rw [← h.operators_ids] at hids
    obtain rfl := List.inj_on_of_nodup_map hids hother hmem (hsame.trans hid.symm)
    exact ⟨t, htype ▸ ht, (hnumber ht).mp hport⟩
  · rintro ⟨t', ht', hlt⟩
    exact ⟨op, hmem, hid, (hnumber (htype ▸ ht')).mpr hlt⟩

/-- **The pipeline can be loaded just if the connections that are kept join ports that there are,
and no two join the same ports.** -/
theorem wellFormed_iff (hids : ((added steps).map (·.id)).Nodup) :
    sketch.content.WellFormed catalogue ↔
      (∀ joint ∈ joined steps, joint.Sound catalogue) ∧
        ((joined steps).map Joint.ends).Nodup := by
  have hends : (sketch.content.links.map fun link => (link.source, link.target)).Nodup ↔
      ((joined steps).map Joint.ends).Nodup := by
    rw [h.links_ends]
    simp only [List.Nodup, List.pairwise_map, Ne, Joint.ports_inj]
  -- What is asked of links is asked of their ends, and those are the ends of the joints.
  have hforall (P : PortRef × PortRef → Prop) : (∀ link ∈ sketch.content.links,
      P (link.source, link.target)) ↔ ∀ joint ∈ joined steps, P joint.ports := by
    rw [← List.forall_mem_map, h.links_ends, List.forall_mem_map]
  have hsource : (∀ link ∈ sketch.content.links, ∃ op ∈ sketch.content.operators,
      op.id = link.source.operator ∧ link.source.port ∈ op.outputs.map (·.id)) ↔
        ∀ joint ∈ joined steps, ∃ t, catalogue.type? joint.source.type = some t ∧
          joint.sourcePort < t.outputCount := by
    refine (hforall fun ends => ∃ op ∈ sketch.content.operators,
      op.id = ends.1.operator ∧ ends.1.port ∈ op.outputs.map (·.id)).trans ?_
    exact forall₂_congr fun joint hjoint => h.exists_port_iff hids
      (mem_added_of_mem_joined hjoint).1 fun hfits ht => (hfits.ports_eq ht).2
  have htarget : (∀ link ∈ sketch.content.links, ∃ op ∈ sketch.content.operators,
      op.id = link.target.operator ∧ link.target.port ∈ op.inputs.map (·.id)) ↔
        ∀ joint ∈ joined steps, ∃ t, catalogue.type? joint.target.type = some t ∧
          joint.targetPort < t.inputCount := by
    refine (hforall fun ends => ∃ op ∈ sketch.content.operators,
      op.id = ends.2.operator ∧ ends.2.port ∈ op.inputs.map (·.id)).trans ?_
    exact forall₂_congr fun joint hjoint => h.exists_port_iff hids
      (mem_added_of_mem_joined hjoint).2 fun hfits ht => (hfits.ports_eq ht).1
  constructor
  · intro hwf
    exact ⟨fun joint hjoint => ⟨hsource.mp hwf.source joint hjoint,
      htarget.mp hwf.target joint hjoint⟩, hends.mp hwf.ends_nodup⟩
  · rintro ⟨hsound, hnodup⟩
    exact {
      operators_nodup := h.operators_ids ▸ hids
      fits := content_operators sketch ▸ h.fits
      links_nodup := h.links_nodup
      ends_nodup := hends.mpr hnodup
      source := hsource.mpr fun joint hjoint => (hsound joint hjoint).1
      target := htarget.mpr fun joint hjoint => (hsound joint hjoint).2
      breakpoint_link := fun _ hsome => h.breakpoint_link hsome }

end

end Drawn

/-- **The pipeline that comes of a sketch**, whatever its steps, if no two operators get one name.

* A sketch comes of the steps just if all operators are of types of the catalogue; they are in the
  pipeline, in their order and where they were put.
* There is a link, with a name of its own, for each connection of which both nicknames stand for an
  operator, whenever that is added; of two operators under one nickname the first counts.
* There is a breakpoint on a link just if one was set after its connection was made and before the
  next was, and of several it is the last; there are no breakpoints but on links.
* A fresh session loads the pipeline just if the connections that are kept join ports that the
  operators have, and no two join the same ports.  What it saves then is the pipeline, with
  operators and links in the order of their names. -/
theorem content_of_draw {σ : Type} [Surface σ] (catalogue : Catalogue) (settings : Settings)
    (clock : Nat → Nat) (surface : σ) (steps : List Step)
    (hids : ((added steps).map (·.id)).Nodup) :
    ((∃ sketch, draw catalogue steps = .ok sketch) ↔
      ∀ addition ∈ added steps, catalogue.hasType addition.type = true) ∧
    ∀ sketch, draw catalogue steps = .ok sketch →
      let content := sketch.content
      let loaded := (Session.load content).exec (.start catalogue settings clock surface)
      ((content.operators.map fun op => (op.id, op.type)) =
          (added steps).map fun addition => (addition.id, addition.type)) ∧
      (∀ addition ∈ added steps, content.positions.get? addition.id = some addition.position) ∧
      (content.links.map (·.id)).Nodup ∧
      (content.links = ((connected steps).zipIdx 1).filterMap fun entry =>
        (joint? steps entry.1).map (·.link entry.2)) ∧
      (∀ before connection after, steps = before ++ .connect connection :: after →
        content.breakpoints.get? (linkName ((connected before).length + 1)) =
          if (joint? steps connection).isSome then breakpointAhead after else none) ∧
      (∀ id, (content.breakpoints.get? id).isSome → id ∈ content.links.map (·.id)) ∧
      (loaded.1 = .ok () ↔ (∀ joint ∈ joined steps, joint.Sound catalogue) ∧
        ((joined steps).map Joint.ends).Nodup) ∧
      (loaded.1 = .ok () → loaded.2.content = { content with
        operators := content.operators.mergeSort fun a b => a.id ≤ b.id
        links := content.links.mergeSort fun a b => a.id ≤ b.id }) := by
  refine ⟨exists_draw_iff, fun sketch hdraw => ?_⟩
  intro content loaded
  have h := drawn_of_draw hdraw
  have hrest := Session.atRest_start catalogue settings clock surface
  have haccepts : loaded.1 = .ok () ↔ content.WellFormed catalogue :=
    Session.load_eq_ok_iff hrest rfl
  refine ⟨h.operators_eq, fun _ hadded => h.get?_positions hids hadded, h.links_nodup, h.links_eq,
    fun _ _ _ heq => h.get?_breakpoints_ahead heq, fun _ hsome => h.breakpoint_link hsome,
    haccepts.trans (h.wellFormed_iff hids), fun hok => ?_⟩
  obtain ⟨s, hexec, hcontent, -⟩ := Session.loadInOrder_of_wellFormed hrest rfl (.refl _)
    (haccepts.mp hok)
  have hloaded : loaded = (.ok (), s) := hexec
  rw [hloaded]
  exact hcontent.trans h.canonical_eq

/-- A connection comes to nothing, for its nickname is unknown; the next is made before its target
is added, twice under one nickname, and gets two breakpoints. -/
theorem content_of_draw_skipped :
    let catalogue : Catalogue :=
      .ofMetadata ⟨[⟨"Scan", .object [], ⟨"Scan", none, "Input", 0, 1⟩, "1"⟩,
        ⟨"Sink", .object [], ⟨"Sink", none, "Output", 1, 0⟩, "1"⟩], []⟩
    let steps : List Step := [.add ⟨"scan", "Scan", .origin, "a"⟩, .connect ⟨"scan", 0, "ghost", 0⟩,
      .setBreakpoint (.count 1), .connect ⟨"scan", 0, "sink", 0⟩, .setBreakpoint (.count 2),
      .add ⟨"sink", "Sink", .origin, "b"⟩, .setBreakpoint (.count 3),
      .add ⟨"sink", "Sink", .origin, "c"⟩]
    ((added steps).map (·.id)).Nodup ∧ ∃ sketch, draw catalogue steps = .ok sketch ∧
      sketch.content.links = [⟨"link-2", ⟨"a", "output-0"⟩, ⟨"b", "input-0"⟩⟩] ∧
      sketch.content.breakpoints.get? "link-1" = none ∧
      sketch.content.breakpoints.get? "link-2" = some (.count 3) ∧
      ((Session.load sketch.content).exec
        (.start catalogue .initial (fun moment => moment) Blank.mk)).1 = .ok () := by
  intro catalogue steps
  have hids : ((added steps).map (·.id)).Nodup := by decide
  obtain ⟨hdraw, hcontent⟩ :=
    content_of_draw catalogue .initial (fun moment => moment) Blank.mk steps hids
  obtain ⟨sketch, hsketch⟩ := hdraw.mpr (by decide +kernel)
  obtain ⟨-, -, -, hlinks, hbreakpoints, -, hloads, -⟩ := hcontent sketch hsketch
  refine ⟨hids, sketch, hsketch, hlinks.trans (by decide +kernel),
    (hbreakpoints [_] _ _ rfl).trans (by decide +kernel),
    (hbreakpoints [_, _, _] _ _ rfl).trans (by decide +kernel), hloads.mpr ⟨?_, ?_⟩⟩
  · intro joint hjoint
    have hjoined : joined steps = [⟨⟨"scan", "Scan", .origin, "a"⟩, 0,
      ⟨"sink", "Sink", .origin, "b"⟩, 0⟩] := rfl
    rw [hjoined] at hjoint
    rw [List.mem_singleton.mp hjoint]
    exact ⟨⟨_, rfl, by decide +kernel⟩, _, rfl, by decide +kernel⟩
  · decide +kernel

end Sketch

end PipelineEditor
