import PipelineEditor.Format.Schema
import PipelineEditor.Proofs.Stage
import PipelineEditor.Proofs.Written

/-!
# Plans on the wire

A plan lists the enabled operators of a graph, each under its name, and the links between them.  On
the wire the properties of an operator stand beside its name and type, in one object; whoever reads
it takes the two names of the format to be name and type, and every other member to be a property.
So a plan is read back exactly where no property has one of these two names.  A property that does
is taken for the name or the type of its operator, and links lead to an operator that is not listed.

## Main definitions

* `Operator.ListsOnce`: no property is listed twice
* `PlanOperator.Plain`, `PlanOperator.received?`: no property is named like an entry of the format,
  and what is read where one is

## Main results

* `PlanOperator.read?_toJson`, `Plan.read?_toJson`: what is read of an operator and of a plan
* `Graph.Coherent.plan_read_back`: what a plan holds, and when it is read back
-/

namespace PipelineEditor

open Document

/-! ## Records among members -/

namespace Document

/-- Each member of a map is there once, so a record is found among them. -/
theorem record?_object (names : List String) (m : Dict Json) :
    record? names (Json.object m.toList) =
      some (m.toList.filter fun member => names.contains member.1) :=
  if_pos (m.nodup_keys.sublist (List.filter_sublist.map _))

theorem required_filter {α : Type} {names : List String} {name : String} {read : Json → Option α}
    (m : Dict Json) (h : names.contains name = true) :
    Fields.required (m.toList.filter fun member => names.contains member.1) name read =
      (m.get? name).bind read := by
  unfold Fields.required
  rw [Entries.find?_filter fun _ => h]
  show _ = Option.bind (Entries.find? name m.toList) read
  cases Entries.find? name m.toList <;> rfl

end Document

/-! ## An operator of a plan -/

namespace PlanOperator

/-- **No property is named like an entry of the format.** -/
def Plain (op : PlanOperator) : Prop :=
  op.properties.get? "operatorID" = none ∧ op.properties.get? "operatorType" = none

/-- What is read of an operator: a property with the name of an entry is taken for it. -/
def received? (op : PlanOperator) : Option PlanOperator := do
  return {
    id := ← string? ((op.properties.get? "operatorID").getD (.string op.id))
    type := ← string? ((op.properties.get? "operatorType").getD (.string op.type))
    properties := (op.properties.erase "operatorID").erase "operatorType" }

/-- The members of a written operator. -/
def members (op : PlanOperator) : Dict Json :=
  Dict.insertAll ((Dict.insert ∅ "operatorID" (.string op.id)).insert "operatorType"
    (.string op.type)) op.properties.toList

theorem toJson_eq (op : PlanOperator) : op.toJson = .object op.members.toList := by
  have hset (m : Dict Json) (properties : List (String × Json)) :
      properties.foldl (fun (entry : Json) property => entry.set property.1 property.2)
        (.object m.toList) = .object (m.insertAll properties).toList := by
    induction properties generalizing m with
    | nil => rfl
    | cons property rest ih => exact ih (m.insert property.1 property.2)
  have hfirst : ((Dict.insert ∅ "operatorID" (Json.string op.id)).insert "operatorType"
      (.string op.type)).toList =
        [("operatorID", .string op.id), ("operatorType", .string op.type)] := by
    show Entries.insert "operatorType" (Json.string op.type) [("operatorID", .string op.id)] = _
    rw [Entries.insert, if_neg (by decide), if_neg (by decide)]
    rfl
  unfold toJson members
  rw [← hfirst]
  exact hset _ _

/-- A written operator has its properties, and its name and type where no property takes their
place. -/
theorem get?_members (op : PlanOperator) (key : String) : op.members.get? key =
    (op.properties.get? key).or (if "operatorType" = key then some (.string op.type)
      else if "operatorID" = key then some (.string op.id) else none) := by
  unfold members
  rw [Dict.get?_insertAll_toList, Dict.get?_insert, Dict.get?_insert, Dict.get?_empty]

/-- Without the two names of the format, what is written are the properties. -/
theorem erase_members (op : PlanOperator) :
    (op.members.erase "operatorID").erase "operatorType" =
      (op.properties.erase "operatorID").erase "operatorType" := by
  refine Dict.ext_get? fun key => ?_
  simp only [Dict.get?_erase, get?_members]
  split
  · rfl
  · split
    · rfl
    · exact Option.or_none

theorem get?_members_operatorID (op : PlanOperator) : op.members.get? "operatorID" =
    some ((op.properties.get? "operatorID").getD (.string op.id)) :=
  (op.get?_members _).trans Option.or_some

theorem get?_members_operatorType (op : PlanOperator) : op.members.get? "operatorType" =
    some ((op.properties.get? "operatorType").getD (.string op.type)) :=
  (op.get?_members _).trans Option.or_some

/-- **What is read of a written operator.** -/
theorem read?_toJson (op : PlanOperator) : read? op.toJson = op.received? := by
  have hproperties : Dict.ofList ((((Json.object op.members.toList).remove "operatorID").remove
      "operatorType").object?.getD []) =
        (op.properties.erase "operatorID").erase "operatorType" :=
    (Dict.insertAll_toList ((op.members.erase "operatorID").erase "operatorType")).trans
      op.erase_members
  let known := op.members.toList.filter fun member =>
    ["operatorID", "operatorType"].contains member.1
  have hid : Fields.required known "operatorID" string? =
      (op.members.get? "operatorID").bind string? := required_filter op.members (by decide)
  have htype : Fields.required known "operatorType" string? =
      (op.members.get? "operatorType").bind string? := required_filter op.members (by decide)
  calc read? op.toJson
    _ = (do
        let fields ← record? ["operatorID", "operatorType"] (Json.object op.members.toList)
        let id ← fields.required "operatorID" string?
        let type ← fields.required "operatorType" string?
        return ⟨id, type, .ofList ((((Json.object op.members.toList).remove "operatorID").remove
          "operatorType").object?.getD [])⟩) := by rw [toJson_eq]; rfl
    _ = (do
        let id ← (op.members.get? "operatorID").bind string?
        let type ← (op.members.get? "operatorType").bind string?
        return ⟨id, type, (op.properties.erase "operatorID").erase "operatorType"⟩) := by
      rw [record?_object, hproperties, ← hid, ← htype]
      rfl
    _ = op.received? := by
      rw [get?_members_operatorID, get?_members_operatorType]
      rfl

/-- An operator is read back exactly if it is plain. -/
theorem received?_eq_self_iff {op : PlanOperator} : op.received? = some op ↔ op.Plain := by
  constructor
  · intro h
    obtain ⟨id, -, h⟩ := Option.bind_eq_some_iff.mp h
    obtain ⟨type, -, h⟩ := Option.bind_eq_some_iff.mp h
    -- What is read has no property of either name.
    have hproperties : (op.properties.erase "operatorID").erase "operatorType" = op.properties :=
      congrArg PlanOperator.properties (Option.some.inj h)
    rw [Plain, ← hproperties]
    simp [Dict.get?_erase]
  · rintro ⟨hid, htype⟩
    unfold received?
    rw [Dict.erase_of_get?_eq_none hid, Dict.erase_of_get?_eq_none htype, hid, htype]
    rfl

end PlanOperator

/-! ## A plan -/

theorem PlanLink.read?_toJson (link : PlanLink) : PlanLink.read? link.toJson = some link := rfl

namespace Plan

/-- **What is read of a written plan**: its operators as each is read, and its links. -/
theorem read?_toJson (plan : Plan) : Plan.read? plan.toJson =
    (plan.operators.mapM PlanOperator.received?).map (⟨·, plan.links⟩) := by
  have hoperators : list? PlanOperator.read? (Json.ofList PlanOperator.toJson plan.operators) =
      plan.operators.mapM PlanOperator.received? := by
    refine List.mapM_map.trans ?_
    exact congrArg (List.mapM · plan.operators) (funext PlanOperator.read?_toJson)
  calc Plan.read? plan.toJson
    _ = (do
        let operators ← list? PlanOperator.read? (Json.ofList PlanOperator.toJson plan.operators)
        let links ← list? PlanLink.read? (Json.ofList PlanLink.toJson plan.links)
        return ⟨operators, links⟩) := rfl
    _ = _ := by
      rw [hoperators, list?_ofList PlanLink.read?_toJson]
      cases plan.operators.mapM PlanOperator.received? <;> rfl

/-- **A plan is read back exactly if all its operators are plain.** -/
theorem read?_toJson_eq_self_iff {plan : Plan} :
    Plan.read? plan.toJson = some plan ↔ ∀ op ∈ plan.operators, op.Plain := by
  have hitems (items : List PlanOperator) : items.mapM PlanOperator.received? = some items ↔
      ∀ op ∈ items, op.Plain := by
    induction items with
    | nil => simp
    | cons op rest ih =>
      rw [List.forall_mem_cons, ← ih, ← PlanOperator.received?_eq_self_iff]
      simp [List.mapM_cons, Option.bind_eq_some_iff]
  rw [read?_toJson, ← hitems, Option.map_eq_some_iff]
  constructor
  · rintro ⟨items, hread, heq⟩
    rwa [← heq] at hread ⊢
  · exact fun hread => ⟨plan.operators, hread, rfl⟩

end Plan

/-! ## The plan of a graph -/

/-- No two properties of the operator have one name, as in every document that has been read. -/
def Operator.ListsOnce (op : Operator) : Prop :=
  ((op.properties.object?.getD []).map (·.1)).Nodup

theorem Operator.property?_eq (op : Operator) (key : String) :
    op.property? key = Entries.find? key (op.properties.object?.getD []) := by
  unfold property?
  cases op.properties <;> rfl

namespace Plan

variable {op : Operator}

/-- The entry of an operator has its properties. -/
theorem get?_properties_entryOf (h : op.ListsOnce) (key : String) :
    (entryOf op).properties.get? key = op.property? key := by
  have hfound := Dict.get?_insertAll_eq_find? h ∅ key
  rw [Dict.get?_empty, Option.or_none, ← Operator.property?_eq] at hfound
  exact hfound

theorem plain_entryOf_iff : (entryOf op).Plain ↔
    op.property? "operatorID" = none ∧ op.property? "operatorType" = none := by
  have hnone (key : String) :
      (entryOf op).properties.get? key = none ↔ op.property? key = none := by
    have hlisted := Dict.isSome_get?_insertAll ∅ (op.properties.object?.getD []) key
    rw [Operator.property?_eq, Entries.find?_eq_none_iff, ← Option.not_isSome_iff_eq_none]
    exact not_congr (hlisted.trans (by simp))
  exact and_congr (hnone _) (hnone _)

end Plan

namespace Graph

variable {g : Graph}

/-- **A plan lists the enabled operators**, in the order of their names. -/
theorem Coherent.ids_plan (h : g.Coherent) :
    (Plan.ofGraph g).operators.map (·.id) = g.operators.keys.filter g.isEnabled := by
  have henabled : ∀ op ∈ g.operators.values, g.isEnabled op.id = !op.disabled := by
    intro op hmem
    unfold isEnabled
    rw [(Dict.mem_values_iff h.operator_id).mp hmem]
  rw [← Dict.map_values h.operator_id, List.filter_map]
  refine List.map_map.trans ?_
  exact congrArg (List.map Operator.id) (List.filter_congr fun op hmem => (henabled op hmem).symm)

theorem Coherent.mem_operators_plan (h : g.Coherent) {entry : PlanOperator} :
    entry ∈ (Plan.ofGraph g).operators ↔ ∃ op, g.operators.get? entry.id = some op ∧
      op.disabled = false ∧ entry = Plan.entryOf op := by
  unfold Plan.ofGraph
  simp only [List.mem_map, List.mem_filter, Dict.mem_values_iff h.operator_id, Bool.not_eq_true']
  constructor
  · rintro ⟨op, ⟨hop, henabled⟩, rfl⟩
    exact ⟨op, hop, henabled, rfl⟩
  · rintro ⟨op, hop, henabled, rfl⟩
    exact ⟨op, ⟨hop, henabled⟩, rfl⟩

/-- **A plan has the links between enabled operators.** -/
theorem mem_links_plan {link : PlanLink} :
    link ∈ (Plan.ofGraph g).links ↔ ∃ id found, g.links.get? id = some found ∧
      g.isEnabled found.source.operator = true ∧ g.isEnabled found.target.operator = true ∧
        link = ⟨found.source, found.target⟩ := by
  unfold Plan.ofGraph
  simp only [List.mem_map, List.mem_filter, Dict.mem_values, Bool.and_eq_true]
  constructor
  · rintro ⟨found, ⟨⟨id, hget⟩, hsource, htarget⟩, rfl⟩
    exact ⟨id, found, hget, hsource, htarget, rfl⟩
  · rintro ⟨id, found, hget, hsource, htarget, rfl⟩
    exact ⟨found, ⟨⟨id, hget⟩, hsource, htarget⟩, rfl⟩

/-- No link is listed twice, for two links of a graph differ in a port. -/
theorem Coherent.nodup_links_plan (h : g.Coherent) : (Plan.ofGraph g).links.Nodup := by
  have hnodup : g.links.values.Nodup :=
    .of_map (·.id) (Dict.map_values h.link_id ▸ g.links.nodup_keys)
  refine List.Nodup.map_on (fun link hmem other hother hends => ?_) (hnodup.filter _)
  obtain ⟨id, hget⟩ := Dict.mem_values.mp (List.mem_of_mem_filter hmem)
  obtain ⟨id', hget'⟩ := Dict.mem_values.mp (List.mem_of_mem_filter hother)
  obtain ⟨hsource, htarget⟩ := PlanLink.mk.inj hends
  obtain rfl := h.unique hget hget' hsource htarget
  exact Option.some.inj (hget.symm.trans hget')

/-- **Plans on the wire.**  A plan has one entry for each enabled operator, with its name, type and
properties, and the links between enabled operators, each once; both ends of a link are at operators
that the plan lists.  What is written is read back as this plan exactly if no enabled operator has
a property that is named like the entry of its name or of its type. -/
theorem Coherent.plan_read_back (h : g.Coherent) :
    let plan := Plan.ofGraph g
    (plan.operators.map (·.id) = g.operators.keys.filter g.isEnabled ∧
      ∀ entry ∈ plan.operators, ∃ op, g.operators.get? entry.id = some op ∧ entry.type = op.type ∧
        (op.ListsOnce → ∀ key, entry.properties.get? key = op.property? key)) ∧
    (plan.links.Nodup ∧ ∀ link, link ∈ plan.links ↔ ∃ id found, g.links.get? id = some found ∧
      g.isEnabled found.source.operator = true ∧ g.isEnabled found.target.operator = true ∧
        link = ⟨found.source, found.target⟩) ∧
    (∀ link ∈ plan.links, link.source.operator ∈ plan.operators.map (·.id) ∧
      link.target.operator ∈ plan.operators.map (·.id)) ∧
    (Plan.read? plan.toJson = some plan ↔
      ∀ id op, g.operators.get? id = some op → op.disabled = false →
        op.property? "operatorID" = none ∧ op.property? "operatorType" = none) := by
  intro plan
  refine ⟨⟨h.ids_plan, fun entry hmem => ?_⟩, ⟨h.nodup_links_plan, fun link => mem_links_plan⟩,
    fun link hmem => ?_, Plan.read?_toJson_eq_self_iff.trans ⟨fun hplain id op hop henabled => ?_,
      fun hnames entry hmem => ?_⟩⟩
  · obtain ⟨op, hop, -, rfl⟩ := h.mem_operators_plan.mp hmem
    exact ⟨op, hop, rfl, fun honce key => Plan.get?_properties_entryOf honce key⟩
  · obtain ⟨id, found, -, hsource, htarget, rfl⟩ := mem_links_plan.mp hmem
    have hlisted {id : OperatorId} (henabled : g.isEnabled id = true) :
        id ∈ plan.operators.map (·.id) := by
      obtain ⟨op, hop, -⟩ := isEnabled_iff.mp henabled
      rw [h.ids_plan, List.mem_filter, Dict.mem_keys, hop]
      exact ⟨rfl, henabled⟩
    exact ⟨hlisted hsource, hlisted htarget⟩
  · obtain rfl := h.operator_id hop
    exact Plan.plain_entryOf_iff.mp
      (hplain _ (h.mem_operators_plan.mpr ⟨op, hop, henabled, rfl⟩))
  · obtain ⟨op, hop, henabled, rfl⟩ := h.mem_operators_plan.mp hmem
    exact Plan.plain_entryOf_iff.mpr (hnames _ op hop henabled)

/-- A scan with a property of its own is sent along with the sink that it feeds. -/
theorem Coherent.plan_read_back_scan :
    let scan : Operator := ⟨"scan", "Scan", "1", .object [("file", .string "a.csv")], [],
      [⟨"output-0", ""⟩], false⟩
    let sink : Operator := ⟨"sink", "Sink", "1", .object [], [⟨"input-0", ""⟩], [], false⟩
    let s := (Session.start (.ofMetadata ⟨[⟨"Scan", .object [], ⟨"Scan", none, "Input", 0, 1⟩, "1"⟩,
        ⟨"Sink", .object [], ⟨"Sink", none, "Output", 1, 0⟩, "1"⟩], []⟩)
      .initial id Blank.mk).after [.act (.addAll [(scan, .origin), (sink, .origin)]
        [⟨"l", ⟨"scan", "output-0"⟩, ⟨"sink", "input-0"⟩⟩])]
    s.graph.Coherent ∧
      (Plan.ofGraph s.graph).links = [⟨⟨"scan", "output-0"⟩, ⟨"sink", "input-0"⟩⟩] ∧
      "scan" ∈ (Plan.ofGraph s.graph).operators.map (·.id) ∧
      Plan.read? (Plan.ofGraph s.graph).toJson = some (Plan.ofGraph s.graph) := by
  intro scan sink s
  have hcoherent : s.graph.Coherent := (Session.atRest_after ..).wellFormed.toCoherent
  obtain ⟨-, -, hends, hread⟩ := hcoherent.plan_read_back
  have hlinks : (Plan.ofGraph s.graph).links = [⟨⟨"scan", "output-0"⟩, ⟨"sink", "input-0"⟩⟩] := by
    decide +kernel
  refine ⟨hcoherent, hlinks, (hends _ (hlinks ▸ List.mem_singleton_self _)).1,
    hread.mpr fun id op hop _ => ?_⟩
  have hnames : ∀ op ∈ s.graph.operators.values,
      op.property? "operatorID" = none ∧ op.property? "operatorType" = none := by decide +kernel
  exact hnames op (Dict.mem_values.mpr ⟨id, hop⟩)

/-- **A property that is named like the entry of the name takes its place**: a scan is read back
under another name, and the link from it leads from an operator that is not listed. -/
theorem not_plan_read_back_named :
    let scan : Operator := ⟨"scan", "Scan", "1", .object [("operatorID", .string "other")], [],
      [⟨"output-0", ""⟩], false⟩
    let sink : Operator := ⟨"sink", "Sink", "1", .object [], [⟨"input-0", ""⟩], [], false⟩
    let s := (Session.start (.ofMetadata ⟨[⟨"Scan", .object [], ⟨"Scan", none, "Input", 0, 1⟩, "1"⟩,
        ⟨"Sink", .object [], ⟨"Sink", none, "Output", 1, 0⟩, "1"⟩], []⟩)
      .initial id Blank.mk).after [.act (.addAll [(scan, .origin), (sink, .origin)]
        [⟨"l", ⟨"scan", "output-0"⟩, ⟨"sink", "input-0"⟩⟩])]
    s.graph.operators.get? "scan" = some scan ∧ s.graph.isEnabled "scan" = true ∧
      Plan.read? (Plan.ofGraph s.graph).toJson = some ⟨[⟨"other", "Scan", ∅⟩, ⟨"sink", "Sink", ∅⟩],
        [⟨⟨"scan", "output-0"⟩, ⟨"sink", "input-0"⟩⟩]⟩ ∧
      Plan.read? (Plan.ofGraph s.graph).toJson ≠ some (Plan.ofGraph s.graph) := by
  decide +kernel

end Graph

end PipelineEditor
