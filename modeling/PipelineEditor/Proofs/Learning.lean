import PipelineEditor.Inference.Correction
import PipelineEditor.Inference.Overlay
import PipelineEditor.Proofs.Listing
import PipelineEditor.Proofs.WellFormed

/-!
# What is learned from an answer

Taking over an answer goes through the operators one by one, and keeps a schema that equals the new
one.  What comes of it is decided by graph and answer alone, whatever was known before: the
attributes are those that the answer reports, and the schemas are those of the types with these
attributes offered.  A schema that was kept may differ from the new one in the signs of its zeros,
which no comparison of values sees.  Nor does it make a difference for corrections whether they are
drawn from the answer or from what has been taken over of it.

## Main definitions

* `Json.unsigned`: a value with the sign taken from its zeros
* `Overlay.Alike`: the same attributes, and the same schemas up to the signs of zeros
* `Operator.reported?`, `Catalogue.schemaFor?`: what an answer says on an operator
* `Catalogue.kept?`, `Catalogue.told`: what becomes of a schema, and what is told of it

## Main results

* `Overlay.learns_apply`: what an answer leaves of what was known, and what it tells
* `Overlay.alike_apply`: what is learned from an answer does not depend on what was known
* `Graph.corrections_apply`: corrections can be drawn from what has been taken over
* `Graph.not_same_of_mem_corrections`: a corrected document differs from the one it replaces
-/

namespace PipelineEditor

/-! ## Zeros without signs -/

namespace Json

mutual

/-- **The value with the sign taken from its zeros.** -/
def unsigned : Json → Json
  | float x => float (if x.isZero then 0 else x)
  | array items => array (unsignedItems items)
  | object members => object (unsignedMembers members)
  | null => null
  | bool value => bool value
  | int value => int value
  | string value => string value

/-- `unsigned`, item by item. -/
def unsignedItems : List Json → List Json
  | [] => []
  | item :: rest => item.unsigned :: unsignedItems rest

/-- `unsigned`, member by member. -/
def unsignedMembers : List (String × Json) → List (String × Json)
  | [] => []
  | (key, value) :: rest => (key, value.unsigned) :: unsignedMembers rest

end

mutual

/-- **Equal values differ in the signs of zeros at most.** -/
theorem unsigned_eq_of_same {a b : Json} (h : agree Double.same a b = true) :
    a.unsigned = b.unsigned := by
  cases a <;> cases b <;> simp only [agree, beq_iff_eq, Bool.false_eq_true] at h
  · rfl
  · rw [h]
  · rw [h]
  · -- Numbers that are equal are one pattern, or two zeros.
    rename_i x y
    unfold Double.same at h
    simp only [Bool.and_eq_true, Bool.or_eq_true, decide_eq_true_eq] at h
    rcases h.2 with rfl | ⟨hx, hy⟩
    · rfl
    · simp only [unsigned, hx, hy, if_true]
  · rw [h]
  · simp only [unsigned, unsignedItems_eq_of_same h]
  · simp only [unsigned, unsignedMembers_eq_of_same h]

theorem unsignedItems_eq_of_same {xs ys : List Json} (h : agreeItems Double.same xs ys = true) :
    unsignedItems xs = unsignedItems ys := by
  cases xs <;> cases ys <;> simp only [agreeItems, Bool.and_eq_true, Bool.false_eq_true] at h
  · rfl
  · simp only [unsignedItems, unsigned_eq_of_same h.1, unsignedItems_eq_of_same h.2]

theorem unsignedMembers_eq_of_same {ms ns : List (String × Json)}
    (h : agreeMembers Double.same ms ns = true) : unsignedMembers ms = unsignedMembers ns := by
  cases ms with
  | nil => cases ns <;> simp only [agreeMembers, Bool.false_eq_true] at h; rfl
  | cons m ms =>
    obtain ⟨k, x⟩ := m
    cases ns with
    | nil => simp only [agreeMembers, Bool.false_eq_true] at h
    | cons n ns =>
      obtain ⟨l, y⟩ := n
      simp only [agreeMembers, Bool.and_eq_true, beq_iff_eq] at h
      simp only [unsignedMembers, h.1.1, unsigned_eq_of_same h.1.2,
        unsignedMembers_eq_of_same h.2]

end

/-- Objects that are equal hold equal values under each key. -/
theorem find?_of_agreeMembers {eq : Double → Double → Bool} {ms ns : List (String × Json)}
    (h : agreeMembers eq ms ns = true) (key : String) :
    (Entries.find? key ms = none ∧ Entries.find? key ns = none) ∨
      ∃ a b, Entries.find? key ms = some a ∧ Entries.find? key ns = some b ∧
        agree eq a b = true := by
  induction ms generalizing ns with
  | nil =>
    cases ns with
    | nil => exact .inl ⟨rfl, rfl⟩
    | cons n ns => simp [agreeMembers] at h
  | cons m ms ih =>
    obtain ⟨k, x⟩ := m
    cases ns with
    | nil => simp [agreeMembers] at h
    | cons n ns =>
      obtain ⟨l, y⟩ := n
      simp only [agreeMembers, Bool.and_eq_true, beq_iff_eq] at h
      obtain ⟨⟨rfl, hvalue⟩, hrest⟩ := h
      simp only [Entries.find?_cons]
      by_cases hkey : k = key
      · rw [if_pos hkey, if_pos hkey]
        exact .inr ⟨x, y, rfl, rfl, hvalue⟩
      · rw [if_neg hkey, if_neg hkey]
        exact ih hrest

/-- Lists that are equal are of one length. -/
theorem length_eq_of_agreeItems {eq : Double → Double → Bool} {xs ys : List Json}
    (h : agreeItems eq xs ys = true) : xs.length = ys.length := by
  induction xs generalizing ys with
  | nil => cases ys <;> simp_all [agreeItems]
  | cons x xs ih =>
    cases ys with
    | nil => simp [agreeItems] at h
    | cons y ys =>
      simp only [agreeItems, Bool.and_eq_true] at h
      rw [List.length_cons, List.length_cons, ih h.2]

end Json

/-! ## What is learned -/

/-- What an answer says on the ports of an operator; an empty list says nothing. -/
def Operator.reported? (result : InputSchemas) (op : Operator) : Option PortSchemas :=
  (result.get? op.id).filter (!·.isEmpty)

/-- The schema that the form of an operator is to follow by an answer, if the answer changes it. -/
def Catalogue.schemaFor? (catalogue : Catalogue) (result : InputSchemas) (op : Operator) :
    Option Json := do
  let t ← catalogue.type? op.type
  let ports ← op.reported? result
  t.overlay? ports

theorem Catalogue.schemaFor?_of_type {catalogue : Catalogue} {op : Operator} {t : OperatorType}
    (htype : catalogue.type? op.type = some t) (result : InputSchemas) :
    catalogue.schemaFor? result op = (op.reported? result).bind t.overlay? := by
  unfold schemaFor?
  rw [htype]
  rfl

/-- The schema that the form of an operator follows by an answer: its own, or that of its type. -/
def Catalogue.formFor? (catalogue : Catalogue) (result : InputSchemas) (op : Operator) :
    Option Json :=
  (catalogue.schemaFor? result op).or ((catalogue.type? op.type).map (·.jsonSchema))

/-- What becomes of the schema of an operator by an answer: one that equals the new one is kept. -/
def Catalogue.kept? (catalogue : Catalogue) (result : InputSchemas) (op : Operator)
    (old : Option Json) : Option Json :=
  if Overlay.sameSchema old (catalogue.schemaFor? result op) then old
  else catalogue.schemaFor? result op

/-- What is told of the schema of an operator: the new one, unless the old one is kept. -/
def Catalogue.told (catalogue : Catalogue) (result : InputSchemas) (op : Operator)
    (old : Option Json) : List Event :=
  if Overlay.sameSchema old (catalogue.schemaFor? result op) then []
  else ((catalogue.formFor? result op).map (.schemaOverlayChanged op.id)).toList

namespace Dict

variable {β : Type}

/-- The map with a value under a key, or with nothing there. -/
def assign (m : Dict β) (key : String) : Option β → Dict β
  | some value => m.insert key value
  | none => m.erase key

theorem get?_assign (m : Dict β) (key other : String) (value : Option β) :
    (m.assign key value).get? other = if key = other then value else m.get? other := by
  cases value with
  | some value => exact m.get?_insert key other value
  | none => exact m.get?_erase key other

theorem assign_self {m : Dict β} {key : String} {value : Option β} (h : m.get? key = value) :
    m.assign key value = m := by
  cases value with
  | some value => exact insert_self h
  | none => exact erase_of_get?_eq_none h

end Dict

namespace Overlay

/-- **The same is known, up to the signs of zeros in schemas.** -/
structure Alike (a b : Overlay) : Prop where
  schemas : a.schemas.map Json.unsigned = b.schemas.map Json.unsigned
  inputs : a.inputs = b.inputs

theorem Alike.refl (overlay : Overlay) : overlay.Alike overlay := ⟨rfl, rfl⟩

theorem get?_filterKeys {β : Type} (m : Dict β) (keep : String → Bool) (key : String) :
    (m.filterKeys keep).get? key = if keep key then m.get? key else none := by
  refine Option.ext fun value => ?_
  rw [← Dict.mem_toList]
  refine List.mem_filter.trans ?_
  by_cases hkeep : keep key = true
  · rw [if_pos hkeep]
    exact (and_iff_left hkeep).trans Dict.mem_toList
  · rw [if_neg hkeep]
    simp [hkeep]

theorem Alike.forgetMissing {a b : Overlay} (h : a.Alike b) (g : Graph) :
    (a.forgetMissing g).Alike (b.forgetMissing g) := by
  have hschemas (id : OperatorId) := congrArg (·.get? id) h.schemas
  simp only [Dict.get?_map] at hschemas
  refine ⟨Dict.ext_get? fun id => ?_, ?_⟩
  · unfold Overlay.forgetMissing
    rw [Dict.get?_map, Dict.get?_map, get?_filterKeys, get?_filterKeys]
    split
    · exact hschemas id
    · rfl
  · unfold Overlay.forgetMissing
    rw [h.inputs]

theorem map_unsigned_eq_of_sameSchema {a b : Option Json} (h : sameSchema a b = true) :
    a.map Json.unsigned = b.map Json.unsigned := by
  cases a <;> cases b <;> simp only [sameSchema, Bool.false_eq_true] at h
  · rfl
  · exact congrArg some (Json.unsigned_eq_of_same h)

variable {g : Graph} {catalogue : Catalogue}

/-- The schema that an operator is left with equals the one that the answer gives it. -/
theorem map_unsigned_kept? (catalogue : Catalogue) (result : InputSchemas) (op : Operator)
    (old : Option Json) : (catalogue.kept? result op old).map Json.unsigned =
      (catalogue.schemaFor? result op).map Json.unsigned := by
  unfold Catalogue.kept?
  split
  · rename_i hsame
    exact map_unsigned_eq_of_sameSchema hsame
  · rfl

/-- **What is said on one operator replaces what was known of it**, and nothing else changes. -/
theorem applyTo_of_type (overlay : Overlay) (result : InputSchemas) {op : Operator}
    {t : OperatorType} (htype : catalogue.type? op.type = some t) :
    overlay.applyTo catalogue result op =
      (⟨overlay.schemas.assign op.id (catalogue.kept? result op (overlay.schemas.get? op.id)),
        overlay.inputs.assign op.id (op.reported? result)⟩,
        catalogue.told result op (overlay.schemas.get? op.id)) := by
  unfold applyTo Catalogue.kept? Catalogue.told Catalogue.formFor?
  rw [Catalogue.schemaFor?_of_type htype, htype]
  dsimp only
  rw [show (result.get? op.id).filter (!·.isEmpty) = op.reported? result from rfl]
  split
  · rw [Dict.assign_self rfl]
    cases op.reported? result <;> rfl
  · cases op.reported? result with
    | none => rfl
    | some ports =>
      rw [Option.bind_some]
      cases t.overlay? ports <;> rfl

/-- **What an answer leaves of what was known, and what it tells, operator by operator.** -/
structure Learns (catalogue : Catalogue) (result : InputSchemas) (ops : List Operator)
    (before after : Overlay) (events : List Event) : Prop where
  schema : ∀ op ∈ ops, after.schemas.get? op.id =
    catalogue.kept? result op (before.schemas.get? op.id)
  input : ∀ op ∈ ops, after.inputs.get? op.id = op.reported? result
  other_schema : ∀ id ∉ ops.map (·.id), after.schemas.get? id = before.schemas.get? id
  other_input : ∀ id ∉ ops.map (·.id), after.inputs.get? id = before.inputs.get? id
  told : events = ops.flatMap fun op => catalogue.told result op (before.schemas.get? op.id)

/-- An operator that is gone through first is left alone by the others. -/
theorem Learns.cons {overlay after : Overlay} {result : InputSchemas} {op : Operator}
    {rest : List Operator} {events : List Event} {t : OperatorType}
    (htype : catalogue.type? op.type = some t) (hfresh : op.id ∉ rest.map (·.id))
    (h : Learns catalogue result rest (overlay.applyTo catalogue result op).1 after events) :
    Learns catalogue result (op :: rest) overlay after
      ((overlay.applyTo catalogue result op).2 ++ events) := by
  rw [overlay.applyTo_of_type result htype] at h ⊢
  have hne : ∀ other ∈ rest, op.id ≠ other.id := fun other hmem heq =>
    hfresh (heq ▸ List.mem_map_of_mem hmem)
  refine ⟨fun other hmem => ?_, fun other hmem => ?_, fun id hid => ?_, fun id hid => ?_, ?_⟩
  · rcases List.mem_cons.mp hmem with rfl | hmem
    · rw [h.other_schema _ hfresh, Dict.get?_assign, if_pos rfl]
    · rw [h.schema other hmem, Dict.get?_assign, if_neg (hne other hmem)]
  · rcases List.mem_cons.mp hmem with rfl | hmem
    · rw [h.other_input _ hfresh, Dict.get?_assign, if_pos rfl]
    · exact h.input other hmem
  · obtain ⟨hid, hrest⟩ := not_or.mp (mt List.mem_cons.mpr hid)
    rw [h.other_schema id hrest, Dict.get?_assign, if_neg (Ne.symm hid)]
  · obtain ⟨hid, hrest⟩ := not_or.mp (mt List.mem_cons.mpr hid)
    rw [h.other_input id hrest, Dict.get?_assign, if_neg (Ne.symm hid)]
  · rw [h.told, List.flatMap_cons]
    refine congrArg _ (List.flatMap_congr fun other hmem => ?_)
    rw [Dict.get?_assign, if_neg (hne other hmem)]

theorem learns_foldl (result : InputSchemas) {ops : List Operator}
    (htypes : ∀ op ∈ ops, ∃ t, catalogue.type? op.type = some t)
    (hids : (ops.map (·.id)).Nodup) (overlay : Overlay) (events : List Event) :
    ∃ after more, ops.foldl (fun (overlay, events) op =>
        let (overlay, more) := overlay.applyTo catalogue result op
        (overlay, events ++ more)) (overlay, events) = (after, events ++ more) ∧
      Learns catalogue result ops overlay after more := by
  induction ops generalizing overlay events with
  | nil =>
    refine ⟨overlay, [], by rw [List.append_nil]; rfl, ?_, ?_, fun _ _ => rfl, fun _ _ => rfl, rfl⟩
    · rintro _ ⟨⟩
    · rintro _ ⟨⟩
  | cons op rest ih =>
    obtain ⟨t, htype⟩ := htypes op List.mem_cons_self
    obtain ⟨hfresh, hrest⟩ := List.nodup_cons.mp hids
    obtain ⟨after, more, hfold, hlearns⟩ := ih
      (fun other hmem => htypes other (List.mem_cons_of_mem _ hmem)) hrest
      (overlay.applyTo catalogue result op).1 (events ++ (overlay.applyTo catalogue result op).2)
    exact ⟨after, _, hfold.trans (by rw [List.append_assoc]), hlearns.cons htype hfresh⟩

theorem get?_schemas_forgetMissing {overlay : Overlay} (id : OperatorId) :
    (overlay.forgetMissing g).schemas.get? id =
      (g.operators.get? id).bind fun _ => overlay.schemas.get? id := by
  unfold forgetMissing Graph.hasOperator
  rw [get?_filterKeys, Dict.contains_eq]
  cases g.operators.get? id <;> rfl

/-- **What an answer leaves and tells**: each operator that is there has the schema that it kept or
got, and the attributes that the answer reports; of all others nothing is known. -/
theorem learns_apply (hcoherent : g.Coherent)
    (htypes : ∀ {id op}, g.operators.get? id = some op → ∃ t, catalogue.type? op.type = some t)
    (overlay : Overlay) (result : InputSchemas) :
    (∀ id, (overlay.apply g catalogue result).1.schemas.get? id = (g.operators.get? id).bind
        fun op => catalogue.kept? result op (overlay.schemas.get? id)) ∧
      (∀ id, (overlay.apply g catalogue result).1.inputs.get? id =
        (g.operators.get? id).bind (·.reported? result)) ∧
      (overlay.apply g catalogue result).2 = g.operators.values.flatMap
        fun op => catalogue.told result op (overlay.schemas.get? op.id) := by
  -- Operators are visited in the order of their IDs, each once, so each visit finds what was known
  -- before.
  have hstored : ∀ op ∈ g.operators.values, g.operators.get? op.id = some op := fun _ hmem =>
    (Dict.mem_values_iff hcoherent.operator_id).mp hmem
  have hids : g.operators.values.map (·.id) = g.operators.keys :=
    Dict.map_values hcoherent.operator_id
  obtain ⟨after, events, hfold, hlearns⟩ := learns_foldl result
    (fun op hmem => htypes (hstored op hmem)) (hids ▸ g.operators.nodup_keys)
    (overlay.forgetMissing g) []
  have happly : overlay.apply g catalogue result = (after, events) := hfold
  rw [happly]
  have hgone {id : OperatorId} (h : g.operators.get? id = none) :
      id ∉ g.operators.values.map (·.id) := by
    rw [hids, Dict.mem_keys, h]
    exact Bool.false_ne_true
  refine ⟨fun id => ?_, fun id => ?_, ?_⟩
  · cases hop : g.operators.get? id with
    | none => rw [hlearns.other_schema id (hgone hop), get?_schemas_forgetMissing, hop]; rfl
    | some op =>
      have hschema := hlearns.schema op (Dict.mem_values.mpr ⟨id, hop⟩)
      rw [get?_schemas_forgetMissing, hcoherent.operator_id hop, hop] at hschema
      exact hschema
  · cases hop : g.operators.get? id with
    | none =>
      rw [hlearns.other_input id (hgone hop)]
      simp [forgetMissing, get?_filterKeys, Graph.hasOperator, Dict.contains_eq, hop]
    | some op =>
      have hinput := hlearns.input op (Dict.mem_values.mpr ⟨id, hop⟩)
      rw [hcoherent.operator_id hop] at hinput
      exact hinput
  · refine hlearns.told.trans (List.flatMap_congr fun op hmem => ?_)
    rw [get?_schemas_forgetMissing, hstored op hmem]
    rfl

/-- **What is known once an answer has been taken over** is what the answer says on the operators
that are there. -/
theorem get?_apply (hwf : g.WellFormed catalogue) (overlay : Overlay) (result : InputSchemas)
    (id : OperatorId) :
    (overlay.apply g catalogue result).1.inputs.get? id =
        (g.operators.get? id).bind (·.reported? result) ∧
      ((overlay.apply g catalogue result).1.schemas.get? id).map Json.unsigned =
        ((g.operators.get? id).bind (catalogue.schemaFor? result)).map Json.unsigned := by
  have htypes {id : OperatorId} {op : Operator} (hop : g.operators.get? id = some op) :
      ∃ t, catalogue.type? op.type = some t := by
    obtain ⟨t, htype, -⟩ := hwf.fits hop
    exact ⟨t, htype⟩
  obtain ⟨hschemas, hinputs, -⟩ := learns_apply hwf.toCoherent htypes overlay result
  refine ⟨hinputs id, ?_⟩
  rw [hschemas id]
  cases g.operators.get? id with
  | none => rfl
  | some op => exact map_unsigned_kept? ..

/-- **What is learned from an answer does not depend on what was known before.** -/
theorem alike_apply (hwf : g.WellFormed catalogue) (a b : Overlay) (result : InputSchemas) :
    (a.apply g catalogue result).1.Alike (b.apply g catalogue result).1 := by
  refine ⟨Dict.ext_get? fun id => ?_, Dict.ext_get? fun id => ?_⟩
  · rw [Dict.get?_map, Dict.get?_map, (a.get?_apply hwf result id).2,
      (b.get?_apply hwf result id).2]
  · rw [(a.get?_apply hwf result id).1, (b.get?_apply hwf result id).1]

end Overlay

/-! ## What is corrected -/

namespace Dict

variable {β γ : Type}

/-- What is drawn from some of the entries of a map is found where it was drawn from. -/
theorem find?_filterMap_toList (m : Dict β) (draw : String → β → Option γ) :
    let drawn := m.toList.filterMap fun entry => (draw entry.1 entry.2).map (entry.1, ·)
    Entries.Ordered drawn ∧ ∀ key, Entries.find? key drawn = (m.get? key).bind (draw key) := by
  intro drawn
  have hordered : Entries.Ordered drawn := by
    refine List.Pairwise.filterMap _ (fun a b hlt c hc d hd => ?_) m.ordered
    obtain ⟨_, -, rfl⟩ := Option.map_eq_some_iff.mp hc
    obtain ⟨_, -, rfl⟩ := Option.map_eq_some_iff.mp hd
    exact hlt
  refine ⟨hordered, fun key => Option.ext fun value => ?_⟩
  rw [← Entries.mem_iff_find? hordered, List.mem_filterMap, Option.bind_eq_some_iff]
  constructor
  · rintro ⟨⟨k, v⟩, hmem, hdrawn⟩
    obtain ⟨w, hdraw, heq⟩ := Option.map_eq_some_iff.mp hdrawn
    cases heq
    exact ⟨v, mem_toList.mp hmem, hdraw⟩
  · rintro ⟨v, hget, hdraw⟩
    exact ⟨(key, v), mem_toList.mpr hget, Option.map_eq_some_iff.mpr ⟨value, hdraw, rfl⟩⟩

end Dict

/-- Where nothing is known of any port, nothing needs a correction. -/
theorem OperatorType.correct?_nil (t : OperatorType) (document : List (String × Json)) :
    t.correct? [] document = none := by
  unfold correct?
  refine List.foldlRecOn (motive := (· = none)) t.autofills _ rfl ?_
  rintro _ rfl field -
  rfl

/-- A value that is put in place of another differs from it. -/
theorem Autofill.not_same_of_replace {kind : AutofillKind} {fallback : Option Json}
    {attributes : List Attribute} {current value : Json}
    (h : Autofill.correction? kind fallback attributes current = some (.replace value)) :
    current.same value = false := by
  by_contra hsame
  rw [Bool.not_eq_false] at hsame
  unfold correction? at h
  split at h
  · -- A name that is lost is replaced by one that is not.
    split at h
    · cases h
    · rename_i name hlost
      split at h
      · rename_i found hfound
        cases h
        have havailable := (Option.filter_eq_some_iff.mp hfound).2
        cases value with
        | string other =>
          have heq : name = other := by simpa [Json.same, Json.agree] using hsame
          rw [← heq] at havailable
          simp [havailable] at hlost
        | _ => cases havailable
      · cases h
  · dsimp only at h
    split at h
    · cases h
    · rename_i items hlength
      cases h
      exact hlength (Json.length_eq_of_agreeItems hsame).symm
  · cases h

/-- **A corrected document differs from the one it replaces.** -/
theorem OperatorType.not_same_correct? {t : OperatorType} {ports : PortSchemas}
    {document corrected : List (String × Json)} (h : t.correct? ports document = some corrected) :
    (Json.object document).same (.object corrected) = false := by
  -- The property that was corrected last has a value that differs from the one it had.
  have hdiffers : ∀ changed, t.correct? ports document = some changed →
      ∃ key value, Entries.find? key document = some value ∧
        ∀ found, Entries.find? key changed = some found → value.same found = false := by
    unfold correct?
    refine List.foldlRecOn (motive := fun result => ∀ changed, result = some changed →
      ∃ key value, Entries.find? key document = some value ∧
        ∀ found, Entries.find? key changed = some found → value.same found = false)
      t.autofills _ (fun _ hnone => nomatch hnone) ?_
    intro result ih field _ changed hchanged
    split at hchanged
    · rename_i correction hcorrection
      cases hchanged
      obtain ⟨attributes, -, hcorrection⟩ := Option.bind_eq_some_iff.mp hcorrection
      obtain ⟨current, hcurrent, hcorrection⟩ := Option.bind_eq_some_iff.mp hcorrection
      refine ⟨field.property, current, hcurrent, fun found hfound => ?_⟩
      cases correction with
      | replace value =>
        rw [Correction.applyTo, Entries.find?_insert_self] at hfound
        exact Option.some.inj hfound ▸ Autofill.not_same_of_replace hcorrection
      | remove =>
        rw [Correction.applyTo, Entries.find?_erase, if_pos rfl] at hfound
        cases hfound
    · exact ih changed hchanged
  obtain ⟨key, value, hvalue, hfound⟩ := hdiffers corrected h
  by_contra hsame
  rw [Bool.not_eq_false] at hsame
  rcases Json.find?_of_agreeMembers hsame key with ⟨hnone, -⟩ | ⟨a, b, ha, hb, hagree⟩
  · cases hnone.symm.trans hvalue
  · cases ha.symm.trans hvalue
    cases (hfound b hb).symm.trans hagree

namespace Graph

variable {g : Graph} {catalogue : Catalogue}

/-- **Corrections are drawn from what is known of the operators that are there**, one for each
operator at most. -/
theorem find?_corrections (g : Graph) (catalogue : Catalogue) (result : InputSchemas) :
    Entries.Ordered (g.corrections catalogue result) ∧
      ∀ id, Entries.find? id (g.corrections catalogue result) =
        (result.get? id).bind (g.corrected? catalogue id) :=
  Dict.find?_filterMap_toList result (g.corrected? catalogue)

/-- A document is corrected for an operator that is there, whose type is known and whose properties
are an object. -/
theorem corrected?_eq_some_iff {id : OperatorId} {ports : PortSchemas} {value : Json} :
    g.corrected? catalogue id ports = some value ↔
      ∃ op t document corrected, g.operators.get? id = some op ∧
        catalogue.type? op.type = some t ∧ op.properties = .object document ∧
          t.correct? ports document = some corrected ∧ value = .object corrected := by
  unfold corrected?
  constructor
  · intro h
    obtain ⟨op, hop, h⟩ := Option.bind_eq_some_iff.mp h
    obtain ⟨t, htype, h⟩ := Option.bind_eq_some_iff.mp h
    obtain ⟨document, hdocument, h⟩ := Option.bind_eq_some_iff.mp h
    obtain ⟨corrected, hcorrect, rfl⟩ := Option.map_eq_some_iff.mp h
    refine ⟨op, t, document, corrected, hop, htype, ?_, hcorrect, rfl⟩
    cases hproperties : op.properties <;> rw [hproperties] at hdocument <;> cases hdocument
    rfl
  · rintro ⟨op, t, document, corrected, hop, htype, hdocument, hcorrect, rfl⟩
    simp only [hop, bind, Option.bind_some, htype, hdocument, Json.object?, hcorrect,
      Option.map_some]

/-- **A correction is for an operator that is there, and changes its properties.** -/
theorem not_same_of_mem_corrections {result : InputSchemas} {id : OperatorId} {document : Json}
    (h : (id, document) ∈ g.corrections catalogue result) :
    ∃ op, g.operators.get? id = some op ∧ op.properties.same document = false := by
  obtain ⟨hordered, hfind⟩ := g.find?_corrections catalogue result
  rw [Entries.mem_iff_find? hordered, hfind] at h
  obtain ⟨ports, -, hcorrected⟩ := Option.bind_eq_some_iff.mp h
  obtain ⟨op, t, members, corrected, hop, -, hproperties, hcorrect, rfl⟩ :=
    corrected?_eq_some_iff.mp hcorrected
  refine ⟨op, hop, ?_⟩
  rw [hproperties]
  exact t.not_same_correct? hcorrect

/-- **Corrections can be drawn from what has been taken over of an answer.** -/
theorem corrections_apply (hwf : g.WellFormed catalogue) (overlay : Overlay)
    (result : InputSchemas) :
    g.corrections catalogue (overlay.apply g catalogue result).1.inputs =
      g.corrections catalogue result := by
  obtain ⟨hordered, hfind⟩ := g.find?_corrections catalogue result
  obtain ⟨hordered', hfind'⟩ :=
    g.find?_corrections catalogue (overlay.apply g catalogue result).1.inputs
  refine Entries.ext_find? hordered' hordered fun id => ?_
  rw [hfind, hfind', (overlay.get?_apply hwf result id).1]
  cases hop : g.operators.get? id with
  | none =>
    have hnothing (ports : PortSchemas) : g.corrected? catalogue id ports = none := by
      unfold corrected?
      rw [hop]
      rfl
    cases result.get? id with
    | none => rfl
    | some ports => exact (hnothing ports).symm
  | some op =>
    have hid := hwf.operator_id hop
    rw [Option.bind_some, Operator.reported?, hid]
    cases result.get? id with
    | none => rfl
    | some ports =>
      -- An empty list says nothing, and asks for nothing to be corrected.
      cases ports with
      | cons port rest => rfl
      | nil =>
        show none = g.corrected? catalogue id []
        unfold corrected?
        rw [hop]
        simp [OperatorType.correct?_nil]

end Graph

end PipelineEditor
