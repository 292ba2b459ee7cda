import PipelineEditor.Format.Catalogue
import PipelineEditor.Proofs.Answer
import PipelineEditor.Proofs.Drawing

/-!
# Corrections that settle

When attributes are lost, the property documents that name them are rewritten, and one pass over the
documents is enough: the rewritten ones name attributes that are to be had, so that the same answer
asks for no further correction.  A pass touches no more than it must.  An operator is left alone
unless a field of it names a lost attribute, and in a document that is rewritten just these fields
change.

A pass goes through the fields of a type, and a field that comes later could undo what was done for
an earlier one if both were for one property.  In a type that is drawn from a schema this does not
happen, since a schema defines a property once.

## Main definitions

* `Stale`, `Mended`: values that name lost attributes, and what they become
* `OperatorType.Corrects`: a document in which the stale fields are mended, and nothing else
* `OperatorType.Drawn`, `Catalogue.Drawn`: types that are what their schemas say
* `Graph.Spoken`: the operators that an answer speaks of
* `Graph.write?`: documents written one by one

## Main results

* `Catalogue.drawn_of_ofText`: the types of a catalogue that was read are drawn from their schemas
* `OperatorType.correct?_eq_none_iff`, `OperatorType.corrects_of_correct?`: what a pass over one
  document does
* `Graph.corrections_fixpoint`: corrections are minimal, and once they are made none is needed
* `Propagation.corrections_of_correct`: the same of the editor that makes them
-/

namespace PipelineEditor

/-! ## Types that are what their schemas say -/

namespace OperatorType

/-- The default that a schema gives to a property. -/
def defaultOf? (t : OperatorType) (property : String) : Option Json :=
  (Entries.find? property (propertiesOf t.jsonSchema)).bind (·.get? "default")

/-- **A type that is what its schema says**, a schema that defines its properties in the order of
their names. -/
structure Drawn (t : OperatorType) : Prop where
  eq_ofSchema : t = .ofSchema t.schema
  ordered : Entries.Ordered (propertiesOf t.jsonSchema)

variable {t : OperatorType}

/-- The values that properties start with are the defaults of the schema. -/
theorem Drawn.get?_defaults (h : t.Drawn) (property : String) :
    t.defaults.get? property = t.defaultOf? property := by
  obtain ⟨hordered, hfind⟩ := Dict.find?_filterMap_toList ⟨propertiesOf t.jsonSchema, h.ordered⟩
    fun _ definition => definition.get? "default"
  rw [h.eq_ofSchema]
  calc (Dict.ofList _).get? property
    _ = Dict.get? ⟨_, hordered⟩ property :=
        congrArg (Dict.get? · property) (Dict.insertAll_toList ⟨_, hordered⟩)
    _ = t.defaultOf? property := hfind property

theorem property_of_autofillOf? {property : String} {definition : Json} {field : Autofill}
    (h : autofillOf? property definition = some field) : field.property = property := by
  unfold autofillOf? at h
  dsimp only at h
  split at h
  · cases h
    rfl
  · cases h
    rfl
  · cases h

/-- No property is filled in twice. -/
theorem Drawn.nodup_autofills (h : t.Drawn) : (t.autofills.map (·.property)).Nodup := by
  rw [h.eq_ofSchema, List.Nodup, List.pairwise_map]
  refine List.Pairwise.filterMap _ (fun a b hlt c hc d hd => ?_) h.ordered
  rw [property_of_autofillOf? hc, property_of_autofillOf? hd]
  exact fun heq => String.lt_irrefl b.1 (heq ▸ hlt)

end OperatorType

/-- **A catalogue of types that are what their schemas say.** -/
def Catalogue.Drawn (catalogue : Catalogue) : Prop :=
  ∀ name t, catalogue.type? name = some t → t.Drawn

theorem Catalogue.drawn_ofMetadata {metadata : Metadata}
    (h : ∀ schema ∈ metadata.types, Entries.Ordered (OperatorType.propertiesOf schema.jsonSchema)) :
    (Catalogue.ofMetadata metadata).Drawn := by
  intro name t htype
  rcases Dict.mem_of_get?_insertAll htype with hmem | hnone
  · obtain ⟨schema, hschema, heq⟩ := List.mem_map.mp hmem
    cases heq
    exact ⟨rfl, h schema hschema⟩
  · cases hnone

namespace Json.Tree

/-- The values of the members of a text are values of parts of it. -/
theorem exists_value?_of_mem {members : List (String × Tree)} {entries : List (String × Json)}
    (h : memberValues? members = some entries) {key : String} {value : Json}
    (hmem : (key, value) ∈ entries) : ∃ inner : Tree, inner.value? = some value := by
  induction members generalizing entries with
  | nil =>
    cases h
    cases hmem
  | cons member rest ih =>
    obtain ⟨k, inner⟩ := member
    unfold memberValues? at h
    obtain ⟨found, hfound, h⟩ := Option.bind_eq_some_iff.mp h
    obtain ⟨others, hothers, h⟩ := Option.bind_eq_some_iff.mp h
    cases h
    rcases List.mem_cons.mp hmem with heq | hrest
    · cases heq
      exact ⟨inner, hfound⟩
    · exact ih hothers hrest

/-- Members are put in order as the entries of a map are. -/
theorem entries_insertAll (m : Dict Json) (entries : List (String × Json)) :
    (m.insertAll entries).entries =
      entries.foldl (fun sorted entry => Entries.insert entry.1 entry.2 sorted) m.entries := by
  induction entries generalizing m with
  | nil => rfl
  | cons entry rest ih => exact ih _

/-- **An object that is read has its members in order**, and they are objects that are read. -/
theorem ordered_of_value? {tree : Tree} {members : List (String × Json)}
    (h : tree.value? = some (.object members)) :
    Entries.Ordered members ∧ ∀ key value, Entries.find? key members = some value →
      ∃ inner : Tree, inner.value? = some value := by
  cases tree with
  | object parts =>
    unfold value? at h
    obtain ⟨entries, hentries, heq⟩ := Option.map_eq_some_iff.mp h
    have hmembers : members = (Dict.insertAll ∅ entries).entries :=
      (Json.object.inj heq).symm.trans (entries_insertAll ∅ entries).symm
    subst hmembers
    refine ⟨(Dict.insertAll ∅ entries).ordered, fun key value hfind => ?_⟩
    rcases Dict.mem_of_get?_insertAll hfind with hmem | hnone
    · exact exists_value?_of_mem hentries hmem
    · cases hnone
  | array items =>
    unfold value? at h
    obtain ⟨values, -, heq⟩ := Option.map_eq_some_iff.mp h
    cases heq
  | _ =>
    unfold value? at h
    cases h

/-- A schema that is read defines its properties in order. -/
theorem ordered_propertiesOf {tree : Tree} {jsonSchema : Json}
    (h : tree.value? = some jsonSchema) :
    Entries.Ordered (OperatorType.propertiesOf jsonSchema) := by
  unfold OperatorType.propertiesOf
  split
  · rename_i members hproperties
    cases jsonSchema with
    | object fields =>
      obtain ⟨inner, hinner⟩ := (ordered_of_value? h).2 _ _ hproperties
      exact (ordered_of_value? hinner).1
    | _ => cases hproperties
  · exact List.Pairwise.nil

end Json.Tree

/-- The items of a list that reads are what its parts read as. -/
theorem Document.exists_read_of_list? {σ α : Type} [Document σ] {read : σ → Option α} {doc : σ}
    {items : List α} (h : list? read doc = some items) {item : α} (hmem : item ∈ items) :
    ∃ part : σ, read part = some item := by
  unfold list? at h
  split at h
  · rename_i parts _
    -- By induction on the parts, which read one by one.
    clear * - h hmem
    induction parts generalizing items with
    | nil =>
      cases h
      cases hmem
    | cons part rest ih =>
      rw [List.mapM_cons] at h
      obtain ⟨first, hfirst, h⟩ := Option.bind_eq_some_iff.mp h
      obtain ⟨others, hothers, h⟩ := Option.bind_eq_some_iff.mp h
      cases h
      rcases List.mem_cons.mp hmem with rfl | hrest
      · exact ⟨part, hfirst⟩
      · exact ih hrest hothers
  · cases h

theorem Fields.exists_read_of_required {σ α : Type} {fields : Fields σ} {name : String}
    {read : σ → Option α} {value : α} (h : fields.required name read = some value) :
    ∃ part : σ, read part = some value := by
  unfold required at h
  split at h
  · exact ⟨_, h⟩
  · cases h

/-- A description that is read has a schema that defines its properties in order. -/
theorem TypeSchema.ordered_of_read? {tree : Json.Tree} {schema : TypeSchema}
    (h : TypeSchema.read? tree = some schema) :
    Entries.Ordered (OperatorType.propertiesOf schema.jsonSchema) := by
  unfold TypeSchema.read? at h
  obtain ⟨fields, -, h⟩ := Option.bind_eq_some_iff.mp h
  obtain ⟨type, -, h⟩ := Option.bind_eq_some_iff.mp h
  obtain ⟨jsonSchema, hschema, h⟩ := Option.bind_eq_some_iff.mp h
  obtain ⟨info, -, h⟩ := Option.bind_eq_some_iff.mp h
  obtain ⟨version, -, h⟩ := Option.bind_eq_some_iff.mp h
  cases h
  obtain ⟨part, hpart⟩ := Fields.exists_read_of_required hschema
  exact Json.Tree.ordered_propertiesOf hpart

theorem Metadata.ordered_of_read? {tree : Json.Tree} {metadata : Metadata}
    (h : Metadata.read? tree = some metadata) {schema : TypeSchema}
    (hschema : schema ∈ metadata.types) :
    Entries.Ordered (OperatorType.propertiesOf schema.jsonSchema) := by
  unfold Metadata.read? at h
  obtain ⟨fields, -, h⟩ := Option.bind_eq_some_iff.mp h
  obtain ⟨types, htypes, h⟩ := Option.bind_eq_some_iff.mp h
  obtain ⟨groups, -, h⟩ := Option.bind_eq_some_iff.mp h
  cases h
  obtain ⟨list, hlist⟩ := Fields.exists_read_of_required htypes
  obtain ⟨part, hpart⟩ := Document.exists_read_of_list? hlist hschema
  exact TypeSchema.ordered_of_read? hpart

/-- **The types of a catalogue that is read are what their schemas say.** -/
theorem Catalogue.drawn_of_ofText {text : String} {catalogue : Catalogue}
    (h : Catalogue.ofText text = .ok catalogue) : catalogue.Drawn := by
  unfold ofText at h
  split at h
  · unfold ofDocument at h
    split at h
    · rename_i metadata hread
      cases h
      exact drawn_ofMetadata fun schema => Metadata.ordered_of_read? hread
    · cases h
  · cases h

/-! ## Values that name lost attributes -/

/-- The names of attributes, as values. -/
def attributeNames (attributes : List Attribute) : List Json :=
  attributes.map fun found => .string found.name

theorem isAvailable_iff {attributes : List Attribute} {value : Json} :
    isAvailable attributes value = true ↔ value ∈ attributeNames attributes := by
  cases value <;> simp [isAvailable, attributeNames]

/-- **A value names a lost attribute**: it is one name that is not among those that are to be had,
or a list with an item that is not such a name. -/
inductive Stale (attributes : List Attribute) : AutofillKind → Json → Prop
  | name {name : String} (hset : name ≠ "") (hlost : .string name ∉ attributeNames attributes) :
    Stale attributes .name (.string name)
  | list {items : List Json} {item : Json} (hmem : item ∈ items)
    (hlost : item ∉ attributeNames attributes) : Stale attributes .list (.array items)

/-- **What becomes of a value that names lost attributes**: the default takes the place of a name if
it is to be had, else the property goes; of a list the names that are to be had stay. -/
inductive Mended (attributes : List Attribute) (fallback : Option Json) : Json → Option Json → Prop
  | replaced {name : String} {value : Json} (hfallback : fallback = some value)
    (havailable : value ∈ attributeNames attributes) :
    Mended attributes fallback (.string name) (some value)
  | removed {name : String} (hlost : ∀ value ∈ fallback, value ∉ attributeNames attributes) :
    Mended attributes fallback (.string name) none
  | filtered {items : List Json} :
    Mended attributes fallback (.array items)
      (some (.array (items.filter (· ∈ attributeNames attributes))))

/-- What is mended names no lost attribute. -/
theorem Mended.not_stale {attributes : List Attribute} {fallback : Option Json}
    {current value : Json} (h : Mended attributes fallback current (some value))
    (kind : AutofillKind) : ¬ Stale attributes kind value := by
  intro hstale
  cases h with
  | replaced hfallback havailable =>
    cases hstale with
    | name hset hlost => exact hlost havailable
    | list hmem hlost => simp [attributeNames] at havailable
  | filtered =>
    cases hstale with
    | list hmem hlost => exact hlost (of_decide_eq_true (List.mem_filter.mp hmem).2)

/-- What a correction leaves of the value of a property. -/
def Correction.value? : Correction → Option Json
  | replace value => some value
  | remove => none

theorem Correction.find?_applyTo (correction : Correction) (property key : String)
    (document : List (String × Json)) :
    Entries.find? key (correction.applyTo property document) =
      if property = key then correction.value? else Entries.find? key document := by
  cases correction with
  | replace value => exact Entries.find?_insert ..
  | remove => exact Entries.find?_erase ..

theorem Correction.ordered_applyTo (correction : Correction) (property : String)
    {document : List (String × Json)} (h : Entries.Ordered document) :
    Entries.Ordered (correction.applyTo property document) := by
  cases correction with
  | replace value => exact h.insert property value
  | remove => exact h.erase property

namespace Autofill

/-- **Just the names that are lost are corrected**, and they are mended. -/
theorem correction?_name_cases (fallback : Option Json) (attributes : List Attribute)
    (name : String) :
    (¬ Stale attributes .name (.string name) ∧
        correction? .name fallback attributes (.string name) = none) ∨
      (Stale attributes .name (.string name) ∧ ∃ correction,
        correction? .name fallback attributes (.string name) = some correction ∧
          Mended attributes fallback (.string name) correction.value?) := by
  unfold correction?
  dsimp only
  split
  · rename_i hkept
    refine .inl ⟨fun hstale => ?_, rfl⟩
    cases hstale with
    | name hset hlost =>
      rcases Bool.or_eq_true_iff.mp hkept with hempty | havailable
      · exact hset (String.isEmpty_iff.mp hempty)
      · exact hlost (isAvailable_iff.mp havailable)
  · rename_i hlost
    rw [Bool.or_eq_true_iff, not_or, String.isEmpty_iff, isAvailable_iff] at hlost
    refine .inr ⟨.name hlost.1 hlost.2, ?_⟩
    split
    · rename_i value hvalue
      obtain ⟨hfallback, havailable⟩ := Option.filter_eq_some_iff.mp hvalue
      exact ⟨_, rfl, .replaced hfallback (isAvailable_iff.mp havailable)⟩
    · rename_i hnone
      refine ⟨_, rfl, .removed fun value hvalue havailable => ?_⟩
      exact Option.filter_eq_none_iff.mp hnone value hvalue (isAvailable_iff.mpr havailable)

/-- **Just the lists with lost names are corrected**, and they are mended. -/
theorem correction?_list_cases (fallback : Option Json) (attributes : List Attribute)
    (items : List Json) :
    (¬ Stale attributes .list (.array items) ∧
        correction? .list fallback attributes (.array items) = none) ∨
      (Stale attributes .list (.array items) ∧ ∃ correction,
        correction? .list fallback attributes (.array items) = some correction ∧
          Mended attributes fallback (.array items) correction.value?) := by
  have hkept : items.filter (isAvailable attributes) =
      items.filter (· ∈ attributeNames attributes) :=
    List.filter_congr fun item _ => Bool.eq_iff_iff.mpr (by simp [isAvailable_iff])
  unfold correction?
  dsimp only
  rw [hkept]
  -- A filter keeps the length of a list just when it keeps every item.
  by_cases hall : ∀ item ∈ items, item ∈ attributeNames attributes
  · rw [if_pos (List.length_filter_eq_length_iff.mpr (by simpa using hall))]
    refine .inl ⟨fun hstale => ?_, rfl⟩
    cases hstale with
    | list hmem hlost => exact hlost (hall _ hmem)
  · rw [if_neg (fun hlength => hall (by simpa using List.length_filter_eq_length_iff.mp hlength))]
    push Not at hall
    obtain ⟨item, hmem, hlost⟩ := hall
    exact .inr ⟨.list hmem hlost, _, rfl, .filtered⟩

/-- **Just the values that name lost attributes are corrected**, and they are mended. -/
theorem correction?_cases (kind : AutofillKind) (fallback : Option Json)
    (attributes : List Attribute) (current : Json) :
    (¬ Stale attributes kind current ∧ correction? kind fallback attributes current = none) ∨
      (Stale attributes kind current ∧ ∃ correction,
        correction? kind fallback attributes current = some correction ∧
          Mended attributes fallback current correction.value?) := by
  cases kind with
  | name =>
    cases current with
    | string name => exact correction?_name_cases fallback attributes name
    | _ => exact .inl ⟨nofun, rfl⟩
  | list =>
    cases current with
    | array items => exact correction?_list_cases fallback attributes items
    | _ => exact .inl ⟨nofun, rfl⟩

end Autofill

/-! ## One document -/

/-- **A field of a document is stale** when the attributes at its port are known, and its value
names one that is not among them. -/
def Autofill.StaleIn (field : Autofill) (ports : PortSchemas) (document : List (String × Json)) :
    Prop :=
  ∃ attributes current, ports.attributes? field.port = some attributes ∧
    Entries.find? field.property document = some current ∧ Stale attributes field.kind current

namespace OperatorType

/-- **A document in which the stale fields are mended**, and nothing else is changed. -/
structure Corrects (t : OperatorType) (ports : PortSchemas)
    (document corrected : List (String × Json)) : Prop where
  needed : ∃ field ∈ t.autofills, field.StaleIn ports document
  mended : ∀ field ∈ t.autofills, ∀ attributes current,
    ports.attributes? field.port = some attributes →
      Entries.find? field.property document = some current → Stale attributes field.kind current →
        Mended attributes (t.defaultOf? field.property) current
          (Entries.find? field.property corrected)
  kept : ∀ key, (∀ field ∈ t.autofills, field.StaleIn ports document → field.property ≠ key) →
    Entries.find? key corrected = Entries.find? key document
  ordered : Entries.Ordered document → Entries.Ordered corrected

variable {t : OperatorType} {ports : PortSchemas} {document corrected : List (String × Json)}

/-- What becomes of a document when one more field is gone through. -/
def correctField (t : OperatorType) (ports : PortSchemas) (document : List (String × Json))
    (corrected : Option (List (String × Json))) (field : Autofill) :
    Option (List (String × Json)) :=
  match t.correction? ports document field with
  | some correction => some (correction.applyTo field.property (corrected.getD document))
  | none => corrected

theorem correct?_eq (t : OperatorType) (ports : PortSchemas) (document : List (String × Json)) :
    t.correct? ports document = t.autofills.foldl (t.correctField ports document) none := rfl

theorem correction?_eq_some_iff {field : Autofill} {correction : Correction} :
    t.correction? ports document field = some correction ↔
      ∃ attributes current, ports.attributes? field.port = some attributes ∧
        Entries.find? field.property document = some current ∧
          Autofill.correction? field.kind (t.defaults.get? field.property) attributes current =
            some correction := by
  unfold correction?
  constructor
  · intro h
    obtain ⟨attributes, hattributes, h⟩ := Option.bind_eq_some_iff.mp h
    obtain ⟨current, hcurrent, h⟩ := Option.bind_eq_some_iff.mp h
    exact ⟨attributes, current, hattributes, hcurrent, h⟩
  · rintro ⟨attributes, current, hattributes, hcurrent, h⟩
    rw [hattributes, hcurrent]
    exact h

/-- A field is corrected just when it is stale. -/
theorem exists_correction?_iff {field : Autofill} :
    (∃ correction, t.correction? ports document field = some correction) ↔
      field.StaleIn ports document := by
  constructor
  · rintro ⟨correction, h⟩
    obtain ⟨attributes, current, hattributes, hcurrent, h⟩ := correction?_eq_some_iff.mp h
    refine ⟨attributes, current, hattributes, hcurrent, ?_⟩
    rcases Autofill.correction?_cases field.kind (t.defaults.get? field.property) attributes current
      with ⟨-, hnone⟩ | ⟨hstale, -⟩
    · cases hnone.symm.trans h
    · exact hstale
  · rintro ⟨attributes, current, hattributes, hcurrent, hstale⟩
    rcases Autofill.correction?_cases field.kind (t.defaults.get? field.property) attributes current
      with ⟨hkept, -⟩ | ⟨-, correction, h, -⟩
    · exact absurd hstale hkept
    · exact ⟨correction, correction?_eq_some_iff.mpr ⟨_, _, hattributes, hcurrent, h⟩⟩

/-- A document is corrected if one of its fields is. -/
theorem isSome_foldl_correctField (fields : List Autofill)
    (before : Option (List (String × Json))) :
    (fields.foldl (t.correctField ports document) before).isSome ↔
      before.isSome ∨ ∃ field ∈ fields, field.StaleIn ports document := by
  induction fields generalizing before with
  | nil => simp
  | cons field rest ih =>
    rw [List.foldl_cons, ih, List.exists_mem_cons_iff, ← exists_correction?_iff, correctField]
    cases t.correction? ports document field <;> simp

/-- A property that no stale field is for is as it was before. -/
theorem find?_foldl_correctField_of_ne {fields : List Autofill} {key : String}
    (hothers : ∀ field ∈ fields, field.StaleIn ports document → field.property ≠ key)
    (before : Option (List (String × Json))) :
    Entries.find? key ((fields.foldl (t.correctField ports document) before).getD document) =
      Entries.find? key (before.getD document) := by
  induction fields generalizing before with
  | nil => rfl
  | cons field rest ih =>
    rw [List.foldl_cons, ih fun other hmem => hothers other (List.mem_cons_of_mem _ hmem),
      correctField]
    cases hcorrection : t.correction? ports document field with
    | none => rfl
    | some correction =>
      have hne := hothers field List.mem_cons_self
        (exists_correction?_iff.mp ⟨correction, hcorrection⟩)
      exact (correction.find?_applyTo ..).trans (if_neg hne)

/-- A property that a stale field is for is corrected once. -/
theorem find?_foldl_correctField {fields : List Autofill}
    (hnodup : (fields.map (·.property)).Nodup) {field : Autofill} (hmem : field ∈ fields)
    {correction : Correction} (hcorrection : t.correction? ports document field = some correction)
    (before : Option (List (String × Json))) :
    Entries.find? field.property
      ((fields.foldl (t.correctField ports document) before).getD document) =
        correction.value? := by
  induction fields generalizing before with
  | nil => cases hmem
  | cons first rest ih =>
    obtain ⟨hfresh, hrest⟩ := List.nodup_cons.mp hnodup
    rw [List.foldl_cons]
    rcases List.mem_cons.mp hmem with rfl | hmem
    · -- Later fields are for other properties.
      have hothers : ∀ other ∈ rest, other.StaleIn ports document →
          other.property ≠ field.property := fun other hother _ heq =>
        hfresh (List.mem_map.mpr ⟨other, hother, heq⟩)
      rw [find?_foldl_correctField_of_ne hothers, correctField, hcorrection]
      exact (correction.find?_applyTo ..).trans (if_pos rfl)
    · exact ih hrest hmem _

theorem ordered_foldl_correctField (t : OperatorType) (ports : PortSchemas)
    (h : Entries.Ordered document) (fields : List Autofill) :
    Entries.Ordered ((fields.foldl (t.correctField ports document) none).getD document) := by
  refine List.foldlRecOn (motive := fun (corrected : Option (List (String × Json))) =>
    Entries.Ordered (corrected.getD document)) fields _ h fun corrected hcorrected field _ => ?_
  unfold correctField
  split
  · exact Correction.ordered_applyTo _ _ hcorrected
  · exact hcorrected

/-- **A document is left alone** just when no field of it is stale. -/
theorem correct?_eq_none_iff :
    t.correct? ports document = none ↔ ∀ field ∈ t.autofills, ¬ field.StaleIn ports document := by
  rw [← Option.not_isSome_iff_eq_none, correct?_eq, isSome_foldl_correctField]
  simp

/-- **In a document that is corrected the stale fields are mended**, and nothing else is changed. -/
theorem corrects_of_correct? (ht : t.Drawn) (h : t.correct? ports document = some corrected) :
    t.Corrects ports document corrected := by
  have hresult : (t.autofills.foldl (t.correctField ports document) none).getD document =
      corrected := by rw [← correct?_eq, h, Option.getD_some]
  refine ⟨?_, fun field hfield attributes current hattributes hcurrent hstale => ?_,
    fun key hothers => ?_, fun hordered => ?_⟩
  · have hsome : (t.correct? ports document).isSome := by rw [h, Option.isSome_some]
    rw [correct?_eq, isSome_foldl_correctField] at hsome
    simpa using hsome
  · rcases Autofill.correction?_cases field.kind (t.defaults.get? field.property) attributes current
      with ⟨hkept, -⟩ | ⟨-, correction, hcorrection, hmended⟩
    · exact absurd hstale hkept
    · have hvalue := find?_foldl_correctField ht.nodup_autofills hfield
        (correction?_eq_some_iff.mpr ⟨_, _, hattributes, hcurrent, hcorrection⟩) none
      rw [hresult] at hvalue
      rw [hvalue, ← ht.get?_defaults]
      exact hmended
  · have hkept := find?_foldl_correctField_of_ne (t := t) hothers none
    rwa [hresult] at hkept
  · have hkept := ordered_foldl_correctField t ports hordered t.autofills
    rwa [hresult] at hkept

/-- **A corrected document has no stale field left.** -/
theorem Corrects.settled (ht : t.Drawn) (h : t.Corrects ports document corrected) :
    t.correct? ports corrected = none := by
  rw [correct?_eq_none_iff]
  rintro field hfield ⟨attributes, value, hattributes, hvalue, hstale⟩
  by_cases hbefore : field.StaleIn ports document
  · obtain ⟨known, current, hknown, hcurrent, hstaleBefore⟩ := hbefore
    cases hknown.symm.trans hattributes
    have hmended := h.mended field hfield attributes current hattributes hcurrent hstaleBefore
    rw [hvalue] at hmended
    exact hmended.not_stale field.kind hstale
  · -- The field has the value that it had, since no other field is for its property.
    have hothers : ∀ other ∈ t.autofills, other.StaleIn ports document →
        other.property ≠ field.property := by
      intro other hother hstaleOther heq
      have hsame := List.inj_on_of_nodup_map ht.nodup_autofills hother hfield heq
      exact hbefore (hsame ▸ hstaleOther)
    rw [h.kept field.property hothers] at hvalue
    exact hbefore ⟨attributes, value, hattributes, hvalue, hstale⟩

end OperatorType

/-! ## All documents -/

namespace Graph

variable {g : Graph} {catalogue : Catalogue} {result : InputSchemas}

/-- **An answer speaks of an operator** that is there, whose type is known and whose properties are
an object: what it says on the ports, with the type and the document. -/
def Spoken (g : Graph) (catalogue : Catalogue) (result : InputSchemas) (id : OperatorId)
    (t : OperatorType) (ports : PortSchemas) (document : List (String × Json)) : Prop :=
  ∃ op, g.operators.get? id = some op ∧ catalogue.type? op.type = some t ∧
    op.properties = .object document ∧ result.get? id = some ports

theorem Spoken.drawn (hcatalogue : catalogue.Drawn) {id : OperatorId} {t : OperatorType}
    {ports : PortSchemas} {document : List (String × Json)}
    (h : g.Spoken catalogue result id t ports document) : t.Drawn := by
  obtain ⟨op, -, htype, -⟩ := h
  exact hcatalogue _ _ htype

/-- **The documents that are corrected** are those of operators that an answer speaks of. -/
theorem mem_corrections_iff {id : OperatorId} {value : Json} :
    (id, value) ∈ g.corrections catalogue result ↔
      ∃ t ports document corrected, g.Spoken catalogue result id t ports document ∧
        t.correct? ports document = some corrected ∧ value = .object corrected := by
  obtain ⟨hordered, hfind⟩ := g.find?_corrections catalogue result
  rw [Entries.mem_iff_find? hordered, hfind, Option.bind_eq_some_iff]
  constructor
  · rintro ⟨ports, hports, hcorrected⟩
    obtain ⟨op, t, document, corrected, hop, htype, hdocument, hcorrect, rfl⟩ :=
      corrected?_eq_some_iff.mp hcorrected
    exact ⟨t, ports, document, corrected, ⟨op, hop, htype, hdocument, hports⟩, hcorrect, rfl⟩
  · rintro ⟨t, ports, document, corrected, ⟨op, hop, htype, hdocument, hports⟩, hcorrect, rfl⟩
    exact ⟨ports, hports, corrected?_eq_some_iff.mpr
      ⟨op, t, document, corrected, hop, htype, hdocument, hcorrect, rfl⟩⟩

/-- **The graph with documents written one by one**, if all of them can be. -/
def write? (g : Graph) (documents : List (OperatorId × Json)) : Except EditError Graph :=
  documents.foldlM (fun g entry => (g.setProperties entry.1 entry.2).map (·.1)) g

/-- Documents of operators that are there can be written. -/
theorem write?_eq_ok {documents : List (OperatorId × Json)}
    (hthere : ∀ entry ∈ documents, (g.operators.get? entry.1).isSome = true) :
    g.write? documents = .ok (g.rewrite documents) := by
  -- By induction on the documents, for the graph as the earlier ones have left it.
  induction documents generalizing g with
  | nil => rfl
  | cons entry rest ih =>
    obtain ⟨op, hop⟩ := Option.isSome_iff_exists.mp (hthere entry List.mem_cons_self)
    have hfirst : g.setProperties entry.1 entry.2 =
        .ok (g.modifyOperator entry.1 fun op => { op with properties := entry.2 },
          [.propertyChanged entry.1 op.properties entry.2]) := by
      rw [modifyOperator, hop]
      exact setProperties_eq_ok_iff.mpr ⟨op, hop, rfl⟩
    rw [write?, List.foldlM_cons, hfirst]
    refine ih fun other hmem => ?_
    rw [get?_modifyOperator]
    split
    · rw [hop]
      rfl
    · exact hthere other (List.mem_cons_of_mem _ hmem)

/-- Rewriting gives the operators that documents are listed for these documents. -/
theorem get?_rewrite {documents : List (OperatorId × Json)} (hordered : Entries.Ordered documents)
    (g : Graph) (id : OperatorId) :
    (g.rewrite documents).operators.get? id = (g.operators.get? id).map fun op =>
      { op with properties := (Entries.find? id documents).getD op.properties } := by
  -- By induction on the documents, for the graph as the earlier ones have left it.
  induction documents generalizing g with
  | nil => exact Option.map_id'.symm
  | cons entry rest ih =>
    obtain ⟨hlower, hrest⟩ := List.pairwise_cons.mp hordered
    refine (ih hrest _).trans ?_
    rw [get?_modifyOperator, Entries.find?_cons]
    by_cases hid : entry.1 = id
    · subst hid
      rw [if_pos rfl, if_pos rfl, Entries.find?_eq_none_of_lt hlower, Option.map_map]
      rfl
    · rw [if_neg hid, if_neg hid]

/-- **Once the corrections are made, the same answer asks for none.** -/
theorem corrections_rewrite (hcatalogue : catalogue.Drawn) (g : Graph) (result : InputSchemas) :
    (g.rewrite (g.corrections catalogue result)).corrections catalogue result = [] := by
  obtain ⟨hordered, -⟩ := g.find?_corrections catalogue result
  rw [List.eq_nil_iff_forall_not_mem]
  rintro ⟨id, value⟩ hmem
  obtain ⟨t, ports, document, corrected, ⟨op, hop, htype, hdocument, hports⟩, hcorrect, -⟩ :=
    mem_corrections_iff.mp hmem
  rw [get?_rewrite hordered] at hop
  obtain ⟨before, hbefore, rfl⟩ := Option.map_eq_some_iff.mp hop
  cases hfind : Entries.find? id (g.corrections catalogue result) with
  | some written =>
    -- The document was written, and has no stale field any more.
    rw [hfind, Option.getD_some] at hdocument
    obtain ⟨t', ports', members, settled, ⟨op', hop', htype', -, hports'⟩, hcorrect', hwritten⟩ :=
      mem_corrections_iff.mp ((Entries.mem_iff_find? hordered).mpr hfind)
    cases hbefore.symm.trans hop'
    cases htype.symm.trans htype'
    cases hports.symm.trans hports'
    cases hwritten.symm.trans hdocument
    have ht := hcatalogue _ _ htype
    have hquiet := (OperatorType.corrects_of_correct? ht hcorrect').settled ht
    cases hquiet.symm.trans hcorrect
  | none =>
    -- The document is the one it was, which was not to be corrected.
    rw [hfind, Option.getD_none] at hdocument
    have hlisted : (id, .object corrected) ∈ g.corrections catalogue result :=
      mem_corrections_iff.mpr ⟨t, ports, document, corrected,
        ⟨before, hbefore, htype, hdocument, hports⟩, hcorrect, rfl⟩
    cases hfind.symm.trans ((Entries.mem_iff_find? hordered).mp hlisted)

/-- **Corrections are a minimal fixpoint.**  They can be written, and leave nothing that the same
answer would correct; the operators that are corrected are those that the answer speaks of and that
have a stale field; and in a document that is corrected the stale fields are mended and all others
kept.  It is enough that types are what their schemas say, which holds of every catalogue that is
read (`Catalogue.drawn_of_ofText`). -/
theorem corrections_fixpoint (hcatalogue : catalogue.Drawn) (g : Graph) (result : InputSchemas) :
    (∃ written, g.write? (g.corrections catalogue result) = .ok written ∧
      written.corrections catalogue result = []) ∧
      (∀ id, (∃ value, (id, value) ∈ g.corrections catalogue result) ↔
        ∃ t ports document, g.Spoken catalogue result id t ports document ∧
          ∃ field ∈ t.autofills, field.StaleIn ports document) ∧
      ∀ id value, (id, value) ∈ g.corrections catalogue result →
        ∃ t ports document corrected, g.Spoken catalogue result id t ports document ∧
          value = .object corrected ∧ t.Corrects ports document corrected := by
  have hcorrects : ∀ id value, (id, value) ∈ g.corrections catalogue result →
      ∃ t ports document corrected, g.Spoken catalogue result id t ports document ∧
        value = .object corrected ∧ t.Corrects ports document corrected := by
    intro id value hmem
    obtain ⟨t, ports, document, corrected, hspoken, hcorrect, rfl⟩ := mem_corrections_iff.mp hmem
    exact ⟨t, ports, document, corrected, hspoken, rfl,
      OperatorType.corrects_of_correct? (hspoken.drawn hcatalogue) hcorrect⟩
  have hthere : ∀ entry ∈ g.corrections catalogue result,
      (g.operators.get? entry.1).isSome = true := by
    intro entry hmem
    obtain ⟨op, hop, -⟩ := not_same_of_mem_corrections hmem
    exact Option.isSome_iff_exists.mpr ⟨op, hop⟩
  refine ⟨⟨_, write?_eq_ok hthere, corrections_rewrite hcatalogue g result⟩,
    fun id => ⟨?_, ?_⟩, hcorrects⟩
  · rintro ⟨value, hmem⟩
    obtain ⟨t, ports, document, corrected, hspoken, -, h⟩ := hcorrects id value hmem
    exact ⟨t, ports, document, hspoken, h.needed⟩
  · rintro ⟨t, ports, document, hspoken, field, hfield, hstale⟩
    cases hcorrect : t.correct? ports document with
    | none => exact absurd hstale (OperatorType.correct?_eq_none_iff.mp hcorrect field hfield)
    | some corrected =>
      exact ⟨.object corrected, mem_corrections_iff.mpr
        ⟨t, ports, document, corrected, hspoken, hcorrect, rfl⟩⟩

/-- A lost name goes back to its default, lost names are taken out of a list, and one pass is
enough. -/
theorem corrections_fixpoint_sort :
    let catalogue : Catalogue := .ofMetadata ⟨[⟨"Sort", .object [("properties", .object [
      ("by", .object [("autofill", .string "attributeName"), ("default", .string "id")]),
      ("keep", .object [("autofill", .string "attributeNameList")]),
      ("limit", .object [])])], ⟨"Sort", none, "Order", 1, 1⟩, "1"⟩], []⟩
    let g : Graph := ⟨.ofList [("s", ⟨"s", "Sort", "1", .object [("by", .string "lost"),
      ("keep", .array [.string "name", .string "lost", .int 3, .string "id"]), ("limit", .int 5)],
      [], [], false⟩)], ∅, ∅, ∅⟩
    let result : InputSchemas := .ofList [("s", [some [⟨"id", "integer"⟩, ⟨"name", "string"⟩]])]
    catalogue.Drawn ∧
      g.corrections catalogue result = [("s", .object [("by", .string "id"),
        ("keep", .array [.string "name", .string "id"]), ("limit", .int 5)])] ∧
      ∃ written, g.write? (g.corrections catalogue result) = .ok written ∧
        written.corrections catalogue result = [] := by
  intro catalogue g result
  have hcatalogue : catalogue.Drawn := Catalogue.drawn_ofMetadata (by
    unfold Entries.Ordered
    decide +kernel)
  exact ⟨hcatalogue, by decide +kernel, (corrections_fixpoint hcatalogue g result).1⟩

end Graph

/-- **An editor that has made its corrections needs no more** by the same answer. -/
theorem Propagation.corrections_of_correct {e : Editor} (hcatalogue : e.catalogue.Drawn)
    (henabled : e.enabled = true) (hidle : e.bundled = none) (p : Propagation)
    (result : InputSchemas) :
    (p.correct e result).2.2.graph.corrections e.catalogue result = [] := by
  obtain ⟨e', hexec, hgraph, -⟩ := exec_replaceAll_corrections henabled hidle result
  rw [correct_of_enabled henabled, hexec]
  dsimp only
  rw [hgraph]
  exact Graph.corrections_rewrite hcatalogue e.graph result

end PipelineEditor
