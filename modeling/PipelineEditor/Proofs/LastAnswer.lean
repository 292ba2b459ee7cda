import PipelineEditor.Proofs.Learning

/-!
# Only the last answer counts

An answer is taken over operator by operator, into two maps that keep what they held of other
operators.  A schema that equals the new one is kept as it is, and no one is told; each other is
replaced and told.  So what is known after an answer, and what the forms of operators follow, is
decided by the answer alone, and taking it over once more tells nothing.

Schemas are compared as values.  No JSON document holds a not-a-number, which would differ from
itself; so this is asked of the schemas of types, and then it is true of what is made of them.

## Main definitions

* `Json.IsNumeric`: no number in the value is a not-a-number

## Main results

* `Json.same_iff_unsigned`: equality of values is equality up to the signs of zeros
* `Overlay.apply_apply`: an answer that has been taken over changes nothing more
* `Overlay.last_answer_counts`: what is known after an answer depends on that answer only
-/

namespace PipelineEditor

/-! ## Values that equal themselves -/

namespace Entries

theorem mem_of_find? {β : Type} {key : String} {value : β} {entries : List (String × β)}
    (h : find? key entries = some value) : (key, value) ∈ entries := by
  induction entries with
  | nil => cases h
  | cons head rest ih =>
    obtain ⟨k, v⟩ := head
    rw [find?_cons] at h
    split at h
    · rename_i heq
      cases h
      exact heq ▸ List.mem_cons_self
    · exact List.mem_cons_of_mem _ (ih h)

end Entries

namespace Double

/-- A number that equals another is no not-a-number. -/
theorem same_self_of_same {x y : Double} (h : x.same y = true) : x.same x = true :=
  same_self (by simpa using (Bool.and_eq_true_iff.mp h).1)

/-- Numbers that agree without the signs of zeros are equal. -/
theorem same_of_unsigned {x y : Double} (hx : x.same x = true)
    (h : (if x.isZero then 0 else x) = if y.isZero then 0 else y) : x.same y = true := by
  have hnumber := (Bool.and_eq_true_iff.mp hx).1
  have hzero : (0 : Double).isZero = true := by decide +kernel
  refine Bool.and_eq_true_iff.mpr ⟨hnumber, ?_⟩
  cases hxzero : x.isZero <;> cases hyzero : y.isZero <;>
    simp only [hxzero, hyzero, if_true, Bool.false_eq_true, if_false] at h
  · simp [h]
  · rw [h, hzero] at hxzero
    cases hxzero
  · rw [← h, hzero] at hyzero
    cases hyzero
  · simp

end Double

namespace Json

/-- **No number in the value is a not-a-number**, so that it equals itself. -/
def IsNumeric (value : Json) : Prop := value.same value = true

instance (value : Json) : Decidable value.IsNumeric :=
  inferInstanceAs (Decidable (value.same value = true))

mutual

theorem agree_self_of_agree {a b : Json} (h : agree Double.same a b = true) :
    agree Double.same a a = true := by
  cases a <;> cases b <;> simp only [agree, beq_self_eq_true, Bool.false_eq_true] at h ⊢
  · exact Double.same_self_of_same h
  · exact agreeItems_self_of_agree h
  · exact agreeMembers_self_of_agree h

theorem agreeItems_self_of_agree {xs ys : List Json} (h : agreeItems Double.same xs ys = true) :
    agreeItems Double.same xs xs = true := by
  cases xs <;> cases ys <;> simp only [agreeItems, Bool.and_eq_true, Bool.false_eq_true] at h ⊢
  exact ⟨agree_self_of_agree h.1, agreeItems_self_of_agree h.2⟩

theorem agreeMembers_self_of_agree {ms ns : List (String × Json)}
    (h : agreeMembers Double.same ms ns = true) : agreeMembers Double.same ms ms = true := by
  cases ms with
  | nil => rfl
  | cons m ms =>
    cases ns with
    | nil => simp only [agreeMembers, Bool.false_eq_true] at h
    | cons n ns =>
      simp only [agreeMembers, Bool.and_eq_true, beq_self_eq_true, true_and] at h ⊢
      exact ⟨agree_self_of_agree h.1.2, agreeMembers_self_of_agree h.2⟩

end

mutual

/-- Without not-a-numbers, values that agree without the signs of zeros are equal. -/
theorem agree_of_unsigned {a b : Json} (ha : agree Double.same a a = true)
    (h : a.unsigned = b.unsigned) : agree Double.same a b = true := by
  cases a <;> cases b <;> simp only [unsigned, reduceCtorEq, bool.injEq, int.injEq, float.injEq,
    string.injEq, array.injEq, object.injEq] at h <;> simp only [agree, beq_iff_eq] at ha ⊢
  · exact h
  · exact h
  · exact Double.same_of_unsigned ha h
  · exact h
  · exact agreeItems_of_unsigned ha h
  · exact agreeMembers_of_unsigned ha h

theorem agreeItems_of_unsigned {xs ys : List Json} (hxs : agreeItems Double.same xs xs = true)
    (h : unsignedItems xs = unsignedItems ys) : agreeItems Double.same xs ys = true := by
  cases xs <;> cases ys <;> simp only [unsignedItems, reduceCtorEq, List.cons.injEq] at h <;>
    simp only [agreeItems, Bool.and_eq_true] at hxs ⊢
  exact ⟨agree_of_unsigned hxs.1 h.1, agreeItems_of_unsigned hxs.2 h.2⟩

theorem agreeMembers_of_unsigned {ms ns : List (String × Json)}
    (hms : agreeMembers Double.same ms ms = true) (h : unsignedMembers ms = unsignedMembers ns) :
    agreeMembers Double.same ms ns = true := by
  cases ms with
  | nil =>
    cases ns with
    | nil => rfl
    | cons n ns => simp only [unsignedMembers, reduceCtorEq] at h
  | cons m ms =>
    cases ns with
    | nil => simp only [unsignedMembers, reduceCtorEq] at h
    | cons n ns =>
      simp only [unsignedMembers, List.cons.injEq, Prod.mk.injEq] at h
      simp only [agreeMembers, Bool.and_eq_true, beq_self_eq_true, true_and, beq_iff_eq] at hms ⊢
      exact ⟨⟨h.1.1, agree_of_unsigned hms.1 h.1.2⟩, agreeMembers_of_unsigned hms.2 h.2⟩

end

/-- **Equality of values is equality up to the signs of zeros**, where there is no not-a-number. -/
theorem same_iff_unsigned {a b : Json} (ha : a.IsNumeric) :
    a.same b = true ↔ a.unsigned = b.unsigned :=
  ⟨unsigned_eq_of_same, agree_of_unsigned ha⟩

theorem isNumeric_of_same {a b : Json} (h : a.same b = true) : a.IsNumeric := agree_self_of_agree h

theorem isNumeric_array_iff {items : List Json} :
    (array items).IsNumeric ↔ ∀ item ∈ items, item.IsNumeric := by
  unfold IsNumeric same
  rw [agree]
  induction items with
  | nil => simp [agreeItems]
  | cons item rest ih => simp [agreeItems, ih]

theorem isNumeric_object_iff {members : List (String × Json)} :
    (object members).IsNumeric ↔ ∀ member ∈ members, member.2.IsNumeric := by
  unfold IsNumeric same
  rw [agree]
  induction members with
  | nil => simp [agreeMembers]
  | cons member rest ih =>
    obtain ⟨key, value⟩ := member
    simp [agreeMembers, ih]

theorem isNumeric_get? {value found : Json} (h : value.IsNumeric) {key : String}
    (hfound : value.get? key = some found) : found.IsNumeric := by
  cases value with
  | object members => exact isNumeric_object_iff.mp h _ (Entries.mem_of_find? hfound)
  | _ => cases hfound

theorem isNumeric_set {target value : Json} (h : target.IsNumeric) (key : String)
    (hvalue : value.IsNumeric) : (target.set key value).IsNumeric := by
  cases target with
  | object members =>
    refine isNumeric_object_iff.mpr fun member hmem => ?_
    rcases Entries.mem_insert hmem with rfl | hmem
    · exact hvalue
    · exact isNumeric_object_iff.mp h member hmem
  | _ => exact h

end Json

/-- Attribute names that are offered are no numbers. -/
theorem Autofill.isNumeric_offer (kind : AutofillKind) (names : List String) {definition : Json}
    (h : definition.IsNumeric) : (offer kind names definition).IsNumeric := by
  have hchoices : (Json.array (names.map .string)).IsNumeric := by
    refine Json.isNumeric_array_iff.mpr fun item hmem => ?_
    obtain ⟨name, -, rfl⟩ := List.mem_map.mp hmem
    simp [Json.IsNumeric, Json.same, Json.agree]
  cases kind with
  | name => exact Json.isNumeric_set h _ hchoices
  | list =>
    have hitems : ((definition.get? "items").getD
        (.object [("type", .string "string")])).IsNumeric := by
      cases hget : definition.get? "items" with
      | none => simp [Json.IsNumeric, Json.same, Json.agree, Json.agreeMembers]
      | some items => exact Json.isNumeric_get? h hget
    exact Json.isNumeric_set (Json.isNumeric_set h _ (Json.isNumeric_set hitems _ hchoices)) _ rfl

theorem Autofill.isNumeric_applyTo? {field : Autofill} {names : List String} {schema filled : Json}
    (h : schema.IsNumeric) (hfilled : field.applyTo? names schema = some filled) :
    filled.IsNumeric := by
  unfold applyTo? at hfilled
  obtain ⟨properties, hproperties, hfilled⟩ := Option.bind_eq_some_iff.mp hfilled
  have hnumeric := Json.isNumeric_get? h hproperties
  split at hfilled
  · rename_i hdefinition
    cases hfilled
    exact Json.isNumeric_set h _ (Json.isNumeric_set hnumeric _
      (isNumeric_offer field.kind names (Json.isNumeric_get? hnumeric hdefinition)))
  · cases hfilled

/-- Nor does a schema get numbers from the attributes that become known. -/
theorem OperatorType.isNumeric_overlay {t : OperatorType} (h : t.jsonSchema.IsNumeric)
    {ports : PortSchemas} : ∀ schema, t.overlay? ports = some schema → schema.IsNumeric := by
  unfold overlay?
  refine List.foldlRecOn (motive := fun overlaid => ∀ schema : Json, overlaid = some schema →
    schema.IsNumeric) t.autofills _ (fun _ hnone => nomatch hnone) ?_
  intro overlaid ih field _ schema hschema
  have hbefore : (overlaid.getD t.jsonSchema).IsNumeric := by
    cases overlaid with
    | none => exact h
    | some before => exact ih before rfl
  split at hschema
  · exact ih schema hschema
  · split at hschema
    · rename_i hfilled
      cases hschema
      exact Autofill.isNumeric_applyTo? hbefore hfilled
    · exact ih schema hschema

/-! ## Schemas after an answer -/

theorem Operator.reported?_eq_none {result : InputSchemas} {op : Operator}
    (h : (result.get? op.id).getD [] = []) : op.reported? result = none := by
  unfold reported?
  cases hports : result.get? op.id with
  | none => rfl
  | some ports =>
    rw [hports, Option.getD_some] at h
    rw [h]
    rfl

namespace Overlay

variable {g : Graph} {catalogue : Catalogue} {result : InputSchemas} {op : Operator}

/-- Schemas that agree without the signs of zeros are equal. -/
theorem sameSchema_of_unsigned {a b : Option Json} (ha : ∀ schema, a = some schema →
    schema.IsNumeric) (h : a.map Json.unsigned = b.map Json.unsigned) : sameSchema a b = true := by
  cases a <;> cases b <;> simp only [Option.map_none, Option.map_some, reduceCtorEq,
    Option.some.injEq] at h
  · rfl
  · exact (Json.same_iff_unsigned (ha _ rfl)).mpr h

theorem isNumeric_schemaFor? {t : OperatorType} (htype : catalogue.type? op.type = some t)
    (h : t.jsonSchema.IsNumeric) :
    ∀ schema, catalogue.schemaFor? result op = some schema → schema.IsNumeric := by
  intro schema hschema
  rw [Catalogue.schemaFor?_of_type htype] at hschema
  obtain ⟨ports, -, hschema⟩ := Option.bind_eq_some_iff.mp hschema
  exact OperatorType.isNumeric_overlay h schema hschema

/-- The schema that is kept equals the new one, and so has no not-a-number either. -/
theorem isNumeric_kept? {t : OperatorType} (htype : catalogue.type? op.type = some t)
    (h : t.jsonSchema.IsNumeric) (old : Option Json) :
    ∀ schema, catalogue.kept? result op old = some schema → schema.IsNumeric := by
  intro schema hschema
  unfold Catalogue.kept? at hschema
  split at hschema
  · rename_i hsame
    subst hschema
    cases hnew : catalogue.schemaFor? result op with
    | none => rw [hnew] at hsame; cases hsame
    | some new => rw [hnew] at hsame; exact Json.isNumeric_of_same hsame
  · exact isNumeric_schemaFor? htype h schema hschema

/-- **Whatever the schema was, the one that comes of it equals the new one.** -/
theorem sameSchema_kept? {t : OperatorType} (htype : catalogue.type? op.type = some t)
    (h : t.jsonSchema.IsNumeric) (old : Option Json) :
    sameSchema (catalogue.kept? result op old) (catalogue.schemaFor? result op) = true :=
  sameSchema_of_unsigned (isNumeric_kept? htype h old) (map_unsigned_kept? ..)

/-- Two schemas that come of different ones are equal. -/
theorem sameSchema_kept?_kept? {t : OperatorType} (htype : catalogue.type? op.type = some t)
    (h : t.jsonSchema.IsNumeric) (old other : Option Json) :
    sameSchema (catalogue.kept? result op old) (catalogue.kept? result op other) = true :=
  sameSchema_of_unsigned (isNumeric_kept? htype h old)
    ((map_unsigned_kept? ..).trans (map_unsigned_kept? ..).symm)

/-- What is kept is kept again, and nothing is told of it. -/
theorem kept?_kept? {t : OperatorType} (htype : catalogue.type? op.type = some t)
    (h : t.jsonSchema.IsNumeric) (old : Option Json) :
    catalogue.kept? result op (catalogue.kept? result op old) = catalogue.kept? result op old ∧
      catalogue.told result op (catalogue.kept? result op old) = [] :=
  ⟨if_pos (sameSchema_kept? htype h old), if_pos (sameSchema_kept? htype h old)⟩

/-- An operator on which nothing is said has no schema of its own. -/
theorem kept?_of_unreported (hreported : op.reported? result = none) (old : Option Json) :
    catalogue.kept? result op old = none := by
  have hnone : catalogue.schemaFor? result op = none := by
    unfold Catalogue.schemaFor?
    rw [hreported]
    cases catalogue.type? op.type <;> rfl
  unfold Catalogue.kept?
  rw [hnone]
  split
  · rename_i hsame
    cases old with
    | none => rfl
    | some old => cases hsame
  · rfl

/-- **What is told is the schema that the form follows from then on**, and if nothing is told the
schema of the operator stays as it was. -/
theorem told_kept? {t : OperatorType} (htype : catalogue.type? op.type = some t)
    (result : InputSchemas) (old : Option Json) :
    (∀ schema, .schemaOverlayChanged op.id schema ∈ catalogue.told result op old →
        (catalogue.kept? result op old).or ((catalogue.type? op.type).map (·.jsonSchema)) =
          some schema) ∧
      ((∀ schema, .schemaOverlayChanged op.id schema ∉ catalogue.told result op old) →
        catalogue.kept? result op old = old) := by
  unfold Catalogue.told Catalogue.kept? Catalogue.formFor?
  split
  · exact ⟨fun _ hmem => (List.not_mem_nil hmem).elim, fun _ => rfl⟩
  · refine ⟨fun schema hmem => ?_, fun huntold => ?_⟩
    · obtain ⟨form, hform, heq⟩ := Option.map_eq_some_iff.mp (Option.mem_toList.mp hmem)
      cases heq
      exact hform
    · -- A type that is there has a schema, so there is one to tell of.
      obtain ⟨form, hform⟩ : ∃ form, (catalogue.schemaFor? result op).or
          ((catalogue.type? op.type).map (·.jsonSchema)) = some form := by
        rw [htype]
        cases catalogue.schemaFor? result op <;> exact ⟨_, rfl⟩
      refine absurd ?_ (huntold form)
      rw [hform]
      exact List.mem_singleton_self _

theorem schemaOf?_eq (overlay : Overlay) (catalogue : Catalogue) (id : OperatorId)
    (type : String) : overlay.schemaOf? catalogue id type =
      (overlay.schemas.get? id).or ((catalogue.type? type).map (·.jsonSchema)) := by
  unfold schemaOf?
  cases overlay.schemas.get? id <;> rfl

/-- What is told of one operator is told under its name. -/
theorem id_of_mem_told {id : OperatorId} {schema : Json} {old : Option Json}
    (h : .schemaOverlayChanged id schema ∈ catalogue.told result op old) : id = op.id := by
  unfold Catalogue.told at h
  split at h
  · cases h
  · obtain ⟨form, -, heq⟩ := Option.map_eq_some_iff.mp (Option.mem_toList.mp h)
    cases heq
    rfl

/-- Of each operator that is there, what is told is what comes of the schema it had. -/
theorem mem_events_iff (hcoherent : g.Coherent) (hop : g.operators.get? op.id = some op)
    (catalogue : Catalogue) (result : InputSchemas) (old : OperatorId → Option Json)
    (schema : Json) :
    .schemaOverlayChanged op.id schema ∈
        g.operators.values.flatMap (fun op => catalogue.told result op (old op.id)) ↔
      .schemaOverlayChanged op.id schema ∈ catalogue.told result op (old op.id) := by
  rw [List.mem_flatMap]
  constructor
  · rintro ⟨other, hother, htold⟩
    have hget := (Dict.mem_values_iff hcoherent.operator_id).mp hother
    -- What is told under the name of the operator is told of no other one.
    rw [← id_of_mem_told htold, hop] at hget
    cases hget
    exact htold
  · exact fun htold => ⟨op, Dict.mem_values.mpr ⟨op.id, hop⟩, htold⟩

/-- What is known is determined by its look-ups. -/
theorem ext_get? {a b : Overlay} (hschemas : ∀ id, a.schemas.get? id = b.schemas.get? id)
    (hinputs : ∀ id, a.inputs.get? id = b.inputs.get? id) : a = b := by
  obtain ⟨schemas, inputs⟩ := a
  obtain ⟨schemas', inputs'⟩ := b
  obtain rfl : schemas = schemas' := Dict.ext_get? hschemas
  obtain rfl : inputs = inputs' := Dict.ext_get? hinputs
  rfl

/-- **An answer that has been taken over changes nothing more.** -/
theorem apply_apply (hcoherent : g.Coherent)
    (hregistered : ∀ {id op}, g.operators.get? id = some op →
      ∃ t, catalogue.type? op.type = some t ∧ t.jsonSchema.IsNumeric) (overlay : Overlay)
    (result : InputSchemas) :
    (overlay.apply g catalogue result).1.apply g catalogue result =
      ((overlay.apply g catalogue result).1, []) := by
  have htypes {id : OperatorId} {op : Operator} (hop : g.operators.get? id = some op) :
      ∃ t, catalogue.type? op.type = some t := (hregistered hop).imp fun _ h => h.1
  obtain ⟨hschemas, hinputs, -⟩ := learns_apply hcoherent htypes overlay result
  generalize (overlay.apply g catalogue result).1 = after at hschemas hinputs ⊢
  obtain ⟨hschemas', hinputs', hevents'⟩ := learns_apply hcoherent htypes after result
  have hagain {id : OperatorId} {op : Operator} (hop : g.operators.get? id = some op) :
      catalogue.kept? result op (after.schemas.get? id) = after.schemas.get? id ∧
        catalogue.told result op (after.schemas.get? id) = [] := by
    obtain ⟨t, htype, hnumeric⟩ := hregistered hop
    rw [hschemas id, hop]
    exact kept?_kept? htype hnumeric _
  have hsame : (after.apply g catalogue result).1 = after := by
    refine ext_get? (fun id => (hschemas' id).trans ?_) fun id =>
      (hinputs' id).trans (hinputs id).symm
    cases hop : g.operators.get? id with
    | none => rw [hschemas id, hop]; rfl
    | some op => exact (hagain hop).1
  refine Prod.ext hsame (hevents'.trans (List.flatMap_eq_nil_iff.mpr fun op hmem => ?_))
  exact (hagain ((Dict.mem_values_iff hcoherent.operator_id).mp hmem)).2

/-- **Only the last answer counts.**  Whatever was known before, the schemas that an answer leaves
are equal and the attributes are the same, namely those that it gives; to take it over once more
changes nothing and tells nothing.  An operator that it leaves out, or on whose ports it says
nothing, follows the schema of its type again.  The form of each operator follows the schema that is
told of it, and what it followed before if none is told. -/
theorem last_answer_counts (hcoherent : g.Coherent)
    (hregistered : ∀ {id op}, g.operators.get? id = some op →
      ∃ t, catalogue.type? op.type = some t ∧ t.jsonSchema.IsNumeric) (result : InputSchemas) :
    (∀ a b : Overlay, let known := (a.apply g catalogue result).1
      let known' := (b.apply g catalogue result).1
      (∀ id, sameSchema (known.schemas.get? id) (known'.schemas.get? id) = true) ∧
        known.inputs = known'.inputs) ∧
    ∀ overlay : Overlay, let after := (overlay.apply g catalogue result).1
      let events := (overlay.apply g catalogue result).2
      after.apply g catalogue result = (after, []) ∧
      ∀ id op, g.operators.get? id = some op →
        (sameSchema (after.schemas.get? id) (catalogue.schemaFor? result op) = true ∧
          after.inputs.get? id = op.reported? result) ∧
        ((result.get? id).getD [] = [] → after.covers id = false ∧
          after.schemaOf? catalogue id op.type = (catalogue.type? op.type).map (·.jsonSchema)) ∧
        (∀ schema, .schemaOverlayChanged id schema ∈ events →
          after.schemaOf? catalogue id op.type = some schema) ∧
        ((∀ schema, .schemaOverlayChanged id schema ∉ events) →
          after.schemaOf? catalogue id op.type = overlay.schemaOf? catalogue id op.type) := by
  have htypes {id : OperatorId} {op : Operator} (hop : g.operators.get? id = some op) :
      ∃ t, catalogue.type? op.type = some t := (hregistered hop).imp fun _ h => h.1
  refine ⟨fun a b => ?_, fun overlay => ?_⟩
  · -- What was known before decides at most which of two equal schemas is kept.
    obtain ⟨hschemas, hinputs, -⟩ := learns_apply hcoherent htypes a result
    obtain ⟨hschemas', hinputs', -⟩ := learns_apply hcoherent htypes b result
    refine ⟨fun id => ?_, Dict.ext_get? fun id => (hinputs id).trans (hinputs' id).symm⟩
    rw [hschemas, hschemas']
    cases hop : g.operators.get? id with
    | none => rfl
    | some op =>
      obtain ⟨t, htype, hnumeric⟩ := hregistered hop
      exact sameSchema_kept?_kept? htype hnumeric _ _
  · obtain ⟨hschemas, hinputs, hevents⟩ := learns_apply hcoherent htypes overlay result
    refine ⟨apply_apply hcoherent hregistered overlay result, fun id op hop => ?_⟩
    obtain ⟨t, htype, hnumeric⟩ := hregistered hop
    obtain rfl := hcoherent.operator_id hop
    have hschema := hschemas op.id
    have hinput := hinputs op.id
    rw [hop, Option.bind_some] at hschema hinput
    have hmem := mem_events_iff hcoherent hop catalogue result overlay.schemas.get?
    obtain ⟨htold, huntold⟩ := told_kept? htype result (overlay.schemas.get? op.id)
    rw [hevents, schemaOf?_eq, schemaOf?_eq, hschema]
    refine ⟨⟨sameSchema_kept? htype hnumeric _, hinput⟩, fun hsilent => ?_,
      fun schema h => htold schema ((hmem schema).mp h), fun h => ?_⟩
    · -- Where nothing is reported, nothing is kept, and the schema of the type shows.
      rw [kept?_of_unreported (Operator.reported?_eq_none hsilent)] at hschema ⊢
      refine ⟨?_, rfl⟩
      unfold covers
      rw [Dict.contains_eq, hschema]
      rfl
    · rw [huntold fun schema htold => h schema ((hmem schema).mpr htold)]

/-- A filter is offered the one attribute that reaches it; an answer that says nothing of it takes
the offer back. -/
theorem last_answer_counts_filter :
    let schema : Json := .object [("properties", .object [("attribute",
      .object [("autofill", .string "attributeName")])])]
    let filled : Json := .object [("properties", .object [("attribute",
      .object [("autofill", .string "attributeName"), ("enum", .array [.string "name"])])])]
    let filter : Operator := ⟨"f", "Filter", "1", .object [], [⟨"input-0", ""⟩], [], false⟩
    let catalogue : Catalogue :=
      .ofMetadata ⟨[⟨"Filter", schema, ⟨"Filter", none, "Search", 1, 0⟩, "1"⟩], []⟩
    let g : Graph := { Graph.empty with
      operators := Dict.insert ∅ "f" filter
      positions := Dict.insert ∅ "f" .origin }
    let answered := empty.apply g catalogue (.ofList [("f", [some [⟨"name", "string"⟩]])])
    let silent := answered.1.apply g catalogue ∅
    (.schemaOverlayChanged "f" filled ∈ answered.2 ∧
      answered.1.schemaOf? catalogue "f" "Filter" = some filled) ∧
    (answered.1.covers "f" = true ∧ silent.1.covers "f" = false ∧
      silent.1.schemaOf? catalogue "f" "Filter" = some schema) ∧
    silent.1.apply g catalogue ∅ = (silent.1, []) := by
  intro schema filled filter catalogue g answered silent
  have hfilter {id : OperatorId} {op : Operator} (h : g.operators.get? id = some op) :
      "f" = id ∧ filter = op := by
    rw [Dict.get?_insert] at h
    split at h
    · exact ⟨‹_›, Option.some.inj h⟩
    · cases h
  have hcoherent : g.Coherent := by
    refine ⟨?_, nofun, fun id => ?_, nofun, nofun, nofun, nofun⟩
    · intro id op h
      obtain ⟨rfl, rfl⟩ := hfilter h
      rfl
    · rw [Dict.get?_insert, Dict.get?_insert]
      split
      · exact Iff.rfl
      · exact Iff.rfl
  have hregistered {id : OperatorId} {op : Operator} (h : g.operators.get? id = some op) :
      ∃ t, catalogue.type? op.type = some t ∧ t.jsonSchema.IsNumeric := by
    obtain ⟨rfl, rfl⟩ := hfilter h
    exact ⟨.ofSchema ⟨"Filter", schema, ⟨"Filter", none, "Search", 1, 0⟩, "1"⟩,
      by decide +kernel, by decide +kernel⟩
  have hop : g.operators.get? "f" = some filter := Dict.get?_insert_self ..
  have htold : .schemaOverlayChanged "f" filled ∈ answered.2 := by decide +kernel
  obtain ⟨-, hanswered⟩ := last_answer_counts hcoherent hregistered
    (.ofList [("f", [some [⟨"name", "string"⟩]])])
  obtain ⟨-, hsilent⟩ := last_answer_counts hcoherent hregistered ∅
  obtain ⟨hagain, hback⟩ := hsilent answered.1
  obtain ⟨hcovers, hschema⟩ := (hback "f" filter hop).2.1 rfl
  refine ⟨⟨htold, ((hanswered empty).2 "f" filter hop).2.2.1 filled htold⟩,
    ⟨by decide +kernel, hcovers, hschema.trans (by decide +kernel)⟩, hagain⟩

end Overlay

end PipelineEditor
