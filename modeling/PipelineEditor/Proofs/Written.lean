import PipelineEditor.Format.Content
import PipelineEditor.Format.Event
import PipelineEditor.Proofs.Listing

/-!
# Reading what was written

A saved pipeline and an event are read back from their written forms as they were.  The one thing
that a written form cannot hold is a number outside its format: a coordinate that is not finite, or
a count of more than 64 bits.  What holds such a number is not read back at all, rather than read
back with another.

## Main definitions

* `Document.ReadsBack`: what was written for a value is read back exactly where the value is
  writable
* `Content.Writable`, `Event.Writable`: the saved pipelines and events whose numbers have a written
  form

## Main results

* `Document.readsBack_list`, `Document.readsBack_dict`, `Document.readsBack_optional`: lists, maps
  and values that may be absent are read back if their parts are
* `Point.readsBack`, `Breakpoint.readsBack`, `Operator.read?_toJson`, `Link.read?_toJson`: what
  pipelines and events are made of
* `contents_and_events_read_back`: saved pipelines and events
-/

namespace PipelineEditor

open Document

/-! ## Readers and what was written for them -/

namespace Document

section Readers

variable {α α' β ρ ρ' : Type}

/-- **What was written for a value is read back**, as the value itself, exactly where the value is
`writable`; nothing else is ever read. -/
def ReadsBack (read : ρ → Option α) (written : ρ) (value : α) (writable : Prop) : Prop :=
  ∀ result, read written = some result ↔ result = value ∧ writable

variable {read : ρ → Option α} {write : α → ρ} {writable : α → Prop}

theorem ReadsBack.of_eq {written : ρ} {value : α} (h : read written = some value) :
    ReadsBack read written value True := fun result => by
  simp [h, eq_comm]

theorem ReadsBack.eq_some {written : ρ} {value : α} {ok : Prop}
    (h : ReadsBack read written value ok) (hok : ok) : read written = some value :=
  (h value).mpr ⟨rfl, hok⟩

/-- Reading that goes on from a value that is read back. -/
theorem ReadsBack.map {written : ρ} {value : α} {ok : Prop} (h : ReadsBack read written value ok)
    {read' : ρ' → Option β} {written' : ρ'} (f : α → β)
    (hread : read' written' = (do return f (← read written))) :
    ReadsBack read' written' (f value) ok := by
  intro result
  simp only [hread, bind, Option.bind_eq_some_iff, h _, pure, Option.some.injEq]
  constructor
  · rintro ⟨_, ⟨rfl, hok⟩, rfl⟩
    exact ⟨rfl, hok⟩
  · rintro ⟨rfl, hok⟩
    exact ⟨value, ⟨rfl, hok⟩, rfl⟩

/-- Reading that goes on from two values that are read back. -/
theorem ReadsBack.map₂ {written : ρ} {value : α} {ok : Prop} (h : ReadsBack read written value ok)
    {read' : ρ → Option α'} {written' : ρ} {value' : α'} {ok' : Prop}
    (h' : ReadsBack read' written' value' ok') {read'' : ρ' → Option β} {written'' : ρ'}
    (f : α → α' → β)
    (hread : read'' written'' = (do return f (← read written) (← read' written'))) :
    ReadsBack read'' written'' (f value value') (ok ∧ ok') := by
  intro result
  simp only [hread, bind, Option.bind_eq_some_iff, h _, h' _, pure, Option.some.injEq]
  constructor
  · rintro ⟨_, ⟨rfl, hok⟩, _, ⟨rfl, hok'⟩, rfl⟩
    exact ⟨rfl, hok, hok'⟩
  · rintro ⟨rfl, hok, hok'⟩
    exact ⟨value, ⟨rfl, hok⟩, value', ⟨rfl, hok'⟩, rfl⟩

theorem readsBack_mapM {items : List α}
    (h : ∀ item ∈ items, ReadsBack read (write item) item (writable item)) :
    ReadsBack (List.mapM read) (items.map write) items (∀ item ∈ items, writable item) := by
  induction items with
  | nil => exact fun results => by simp [eq_comm]
  | cons item rest ih =>
    intro results
    have hitem := h item List.mem_cons_self
    have hrest := ih fun other hmem => h other (List.mem_cons_of_mem _ hmem)
    simp only [List.map_cons, List.mapM_cons, bind, Option.bind_eq_some_iff, hitem _, hrest _, pure,
      Option.some.injEq, List.forall_mem_cons]
    constructor
    · rintro ⟨_, ⟨rfl, hok⟩, _, ⟨rfl, hall⟩, rfl⟩
      exact ⟨rfl, hok, hall⟩
    · rintro ⟨rfl, hok, hall⟩
      exact ⟨item, ⟨rfl, hok⟩, rest, ⟨rfl, hall⟩, rfl⟩

end Readers

variable {α : Type} {read : Json → Option α} {write : α → Json} {writable : α → Prop}

theorem readsBack_double (x : Double) :
    ReadsBack double? (Json.ofDouble x) x (x.isFinite = true) := by
  intro result
  unfold Json.ofDouble
  split
  · rename_i hfinite
    rw [and_iff_left hfinite]
    exact Option.some_inj.trans eq_comm
  · rename_i hinfinite
    exact iff_of_false nofun fun h => hinfinite h.2

theorem readsBack_nat (bound n : Nat) : ReadsBack (nat? bound) (Json.ofNat n) n (n < bound) := by
  intro result
  show (if n < bound then some n else none) = some result ↔ _
  by_cases hbound : n < bound <;> simp [hbound, eq_comm]

theorem readsBack_list {items : List α}
    (h : ∀ item ∈ items, ReadsBack read (write item) item (writable item)) :
    ReadsBack (list? read) (Json.ofList write items) items (∀ item ∈ items, writable item) :=
  readsBack_mapM h

theorem readsBack_dict {m : Dict α}
    (h : ∀ value ∈ m.values, ReadsBack read (write value) value (writable value)) :
    ReadsBack (dict? read) (Json.ofDict write m) m (∀ value ∈ m.values, writable value) := by
  -- A member is read back like its value, under its key.
  have hmembers : ReadsBack
      (List.mapM fun member : String × Json => (read member.2).map (member.1, ·))
      (m.toList.map fun entry => (entry.1, write entry.2)) m.toList
      (∀ entry ∈ m.toList, writable entry.2) :=
    readsBack_mapM fun entry hmem =>
      (h entry.2 (List.mem_map_of_mem hmem)).map (entry.1, ·) Option.map_eq_bind
  have hdict : ReadsBack (dict? read) (Json.ofDict write m) (Dict.ofList m.toList)
      (∀ entry ∈ m.toList, writable entry.2) := hmembers.map Dict.ofList Option.map_eq_bind
  have hvalues : (∀ value ∈ m.values, writable value) ↔
      ∀ entry ∈ m.toList, writable entry.2 := List.forall_mem_map
  have hlist : Dict.ofList m.toList = m := m.insertAll_toList
  rwa [hlist, ← hvalues] at hdict

/-- A value that may be absent, and is not written as `null` where it is there. -/
theorem readsBack_optional {value : Option α} (hnull : ∀ item, write item ≠ .null)
    (h : ∀ item ∈ value, ReadsBack read (write item) item (writable item)) :
    ReadsBack (optional? read) (Json.ofOption write value) value
      (∀ item ∈ value, writable item) := by
  cases value with
  | none => exact fun result => by simp [optional?, Json.ofOption, layer, eq_comm]
  | some item =>
    have hread : optional? read (write item) = (do return some (← read (write item))) := by
      unfold optional?
      split
      · rename_i hlayer
        cases hwritten : write item with
        | null => exact absurd hwritten (hnull item)
        | _ => simp [hwritten, layer] at hlayer
      · exact Option.map_eq_bind
    have hsome := (h item rfl).map some hread
    rwa [show writable item ↔ ∀ other ∈ some item, writable other by simp] at hsome

/-- Lists of what is always read back are always read back. -/
theorem list?_ofList (h : ∀ item, read (write item) = some item) (items : List α) :
    list? read (Json.ofList write items) = some items :=
  (readsBack_list fun item _ => .of_eq (h item)).eq_some fun _ _ => trivial

/-- Maps of what is always read back are always read back. -/
theorem dict?_ofDict (h : ∀ value, read (write value) = some value) (m : Dict α) :
    dict? read (Json.ofDict write m) = some m :=
  (readsBack_dict fun value _ => .of_eq (h value)).eq_some fun _ _ => trivial

theorem string?_string (s : String) : string? (Json.string s) = some s := rfl

theorem list?_strings (names : List String) :
    list? string? (Json.ofList .string names) = some names :=
  list?_ofList string?_string names

theorem dict?_strings (texts : Dict String) :
    dict? string? (Json.ofDict .string texts) = some texts :=
  dict?_ofDict string?_string texts

end Document

/-! ## Operators, points, links and breakpoints -/

theorem Port.read?_toJson (port : Port) : Port.read? port.toJson = some port := rfl

theorem Operator.read?_toJson (op : Operator) : Operator.read? op.toJson = some op := by
  have hports := list?_ofList Port.read?_toJson
  calc Operator.read? op.toJson
    _ = (do
        let inputs ← list? Port.read? (Json.ofList Port.toJson op.inputs)
        let outputs ← list? Port.read? (Json.ofList Port.toJson op.outputs)
        return { op with inputs := inputs, outputs := outputs }) := rfl
    _ = some op := by rw [hports, hports]; rfl

theorem Link.read?_toJson (link : Link) : Link.read? link.toJson = some link := rfl

/-- Both coordinates have a written form. -/
def Point.IsFinite (point : Point) : Prop := point.x.isFinite = true ∧ point.y.isFinite = true

theorem Point.readsBack (point : Point) :
    ReadsBack Point.read? point.toJson point point.IsFinite :=
  (readsBack_double point.x).map₂ (readsBack_double point.y) Point.mk rfl

theorem Comparison.read?_name (comparison : Comparison) :
    Comparison.read? (Json.string comparison.name) = some comparison := by
  cases comparison <;> rfl

namespace Breakpoint

/-- The count, if there is one, fits in 64 bits. -/
def Fits : Breakpoint → Prop
  | condition .. => True
  | count tuples => tuples < UInt64.size

theorem toJson_ne_null (breakpoint : Breakpoint) : breakpoint.toJson ≠ .null := by
  cases breakpoint <;> exact nofun

theorem readsBack (breakpoint : Breakpoint) :
    ReadsBack Breakpoint.read? breakpoint.toJson breakpoint breakpoint.Fits := by
  cases breakpoint with
  | condition column comparison value =>
    exact (ReadsBack.of_eq comparison.read?_name).map (condition column · value) rfl
  | count tuples =>
    exact (readsBack_nat UInt64.size tuples).map count rfl

/-- A written breakpoint names its kind, so it may stand inside an event as well. -/
theorem readsBack_nested (breakpoint : Breakpoint) :
    ReadsBack Breakpoint.readNested? breakpoint.toJson breakpoint breakpoint.Fits := by
  have hread : readNested? breakpoint.toJson = read? breakpoint.toJson := by
    cases breakpoint <;> rfl
  intro result
  rw [hread]
  exact breakpoint.readsBack result

end Breakpoint

/-! ## Saved pipelines and events -/

namespace Content

/-- Every number of the saved pipeline has a written form. -/
structure Writable (content : Content) : Prop where
  positions : ∀ point ∈ content.positions.values, point.IsFinite
  breakpoints : ∀ breakpoint ∈ content.breakpoints.values, breakpoint.Fits

theorem writable_iff (content : Content) : content.Writable ↔
    (∀ point ∈ content.positions.values, point.IsFinite) ∧
      ∀ breakpoint ∈ content.breakpoints.values, breakpoint.Fits :=
  ⟨fun h => ⟨h.positions, h.breakpoints⟩, fun h => ⟨h.1, h.2⟩⟩

theorem readsBack (content : Content) :
    ReadsBack Content.read? content.toJson content content.Writable := by
  have hpositions : ReadsBack (dict? Point.read?) (Json.ofDict Point.toJson content.positions)
      content.positions (∀ point ∈ content.positions.values, point.IsFinite) :=
    readsBack_dict fun point _ => point.readsBack
  have hbreakpoints : ReadsBack (dict? Breakpoint.read?)
      (Json.ofDict Breakpoint.toJson content.breakpoints) content.breakpoints
      (∀ breakpoint ∈ content.breakpoints.values, breakpoint.Fits) :=
    readsBack_dict fun breakpoint _ => breakpoint.readsBack
  -- Operators and links are always read back, so the numbers elsewhere decide.
  have hread : Content.read? content.toJson = (do
      let operators ← list? Operator.read? (Json.ofList Operator.toJson content.operators)
      let positions ← dict? Point.read? (Json.ofDict Point.toJson content.positions)
      let links ← list? Link.read? (Json.ofList Link.toJson content.links)
      let breakpoints ← dict? Breakpoint.read? (Json.ofDict Breakpoint.toJson content.breakpoints)
      return ⟨operators, positions, links, breakpoints⟩) := rfl
  rw [list?_ofList Operator.read?_toJson, list?_ofList Link.read?_toJson] at hread
  have hboth := hpositions.map₂ hbreakpoints
    (fun positions breakpoints => Content.mk content.operators positions content.links breakpoints)
    hread
  rwa [← content.writable_iff] at hboth

end Content

namespace Event

/-- Every number of the event has a written form. -/
def Writable : Event → Prop
  | operatorAdded _ position | operatorMoved _ position => position.IsFinite
  | breakpointChanged _ breakpoint => ∀ item ∈ breakpoint, item.Fits
  | propagationFailed sequence _ => sequence < UInt64.size
  | _ => True

theorem readsBack (event : Event) : ReadsBack Event.read? event.toJson event event.Writable := by
  cases event with
  | operatorAdded operator position =>
    refine position.readsBack.map (operatorAdded operator) ?_
    have hread : read? (operatorAdded operator position).toJson = (do
        return operatorAdded (← Operator.read? operator.toJson) (← Point.read? position.toJson)) :=
      rfl
    rw [hread, operator.read?_toJson]
    rfl
  | operatorDeleted operator =>
    exact (ReadsBack.of_eq operator.read?_toJson).map operatorDeleted rfl
  | linkAdded link => exact .of_eq rfl
  | linkDeleted link => exact .of_eq rfl
  | propertyChanged id old new => exact .of_eq rfl
  | operatorDisabledChanged id disabled => exact .of_eq rfl
  | breakpointChanged id breakpoint =>
    -- A missing breakpoint is written as null, and no breakpoint is.
    have hbreakpoint : ReadsBack (optional? Breakpoint.readNested?)
        (Json.ofOption Breakpoint.toJson breakpoint) breakpoint (∀ item ∈ breakpoint, item.Fits) :=
      readsBack_optional Breakpoint.toJson_ne_null fun item _ => item.readsBack_nested
    exact hbreakpoint.map (breakpointChanged id) rfl
  | operatorMoved id position => exact position.readsBack.map (operatorMoved id) rfl
  | operatorsHighlighted ids =>
    exact (ReadsBack.of_eq (list?_strings ids)).map operatorsHighlighted rfl
  | operatorsUnhighlighted ids =>
    exact (ReadsBack.of_eq (list?_strings ids)).map operatorsUnhighlighted rfl
  | operatorValidityChanged id valid errors =>
    exact (ReadsBack.of_eq (dict?_strings errors)).map (operatorValidityChanged id valid) rfl
  | operatorValidationCleared id => exact .of_eq rfl
  | modificationEnabledChanged enabled => exact .of_eq rfl
  | schemaOverlayChanged id schema => exact .of_eq rfl
  | propagationFailed sequence error =>
    exact (readsBack_nat UInt64.size sequence).map (propagationFailed · error) rfl

end Event

/-- **Saved pipelines and events are read back as they were written.**  Whatever a pipeline or an
event holds, what its written form is read as is the pipeline or event itself; and it is read
whenever its coordinates are finite and its counts fit in 64 bits. -/
theorem contents_and_events_read_back :
    (∀ (content result : Content),
      Content.read? content.toJson = some result ↔ result = content ∧ content.Writable) ∧
    (∀ (event result : Event),
      Event.read? event.toJson = some result ↔ result = event ∧ event.Writable) :=
  ⟨Content.readsBack, Event.readsBack⟩

end PipelineEditor
