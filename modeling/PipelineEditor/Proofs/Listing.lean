import Mathlib.Data.List.Nodup
import Mathlib.Data.List.Perm.Subperm
import PipelineEditor.Dict

/-!
# Maps of listed entries

A list of entries is put into a map one by one, and later entries count.  Where no key is listed
twice, or where the value follows from the key, the order of the list plays no part.

## Main definitions

* `Dict.insertAll`, `Dict.eraseAll`: all entries of a list put in, all keys of a list taken out

## Main results

* `Dict.get?_insertAll_of_nodup`: what is found where no key is listed twice
* `Dict.get?_insertAll_of_eq`: what is found where the value follows from the key
* `Dict.get?_insertAll_toList`: what is found once one map has been put over another
* `Dict.values_ofList`: items that are listed under their keys come back in the order of the keys
* `Dict.size_eq_iff_of_subset`: when a map of fewer keys has all keys of a larger one
-/

namespace PipelineEditor

namespace Entries

theorem find?_eq_none_iff {β : Type} {key : String} {entries : List (String × β)} :
    find? key entries = none ↔ key ∉ entries.map (·.1) := by
  induction entries with
  | nil => simp
  | cons head rest ih =>
    obtain ⟨k, v⟩ := head
    by_cases hkey : k = key
    · simp [hkey]
    · simp [hkey, Ne.symm hkey, ih]

/-- Looking up a member that is not filtered out. -/
theorem find?_filter {β : Type} {keep : String × β → Bool} {key : String}
    (h : ∀ value, keep (key, value) = true) (entries : List (String × β)) :
    find? key (entries.filter keep) = find? key entries := by
  induction entries with
  | nil => rfl
  | cons head rest ih =>
    obtain ⟨k, v⟩ := head
    by_cases hkey : k = key
    · subst hkey
      rw [List.filter_cons_of_pos (h v), find?_cons, find?_cons, if_pos rfl, if_pos rfl]
    · rw [find?_cons, if_neg hkey, ← ih]
      by_cases hkeep : keep (k, v) = true
      · rw [List.filter_cons_of_pos hkeep, find?_cons, if_neg hkey]
      · rw [List.filter_cons_of_neg hkeep]

end Entries

namespace Dict

variable {β : Type}

/-- The map with all entries of a list, of which later ones count. -/
def insertAll (m : Dict β) (entries : List (String × β)) : Dict β :=
  entries.foldl (fun m entry => m.insert entry.1 entry.2) m

@[simp] theorem insertAll_nil (m : Dict β) : m.insertAll [] = m := rfl

@[simp] theorem insertAll_cons (m : Dict β) (entry : String × β) (rest : List (String × β)) :
    m.insertAll (entry :: rest) = (m.insert entry.1 entry.2).insertAll rest := rfl

theorem get?_insertAll_of_nodup {entries : List (String × β)} (h : (entries.map (·.1)).Nodup)
    {m : Dict β} {key : String} {value : β} :
    (m.insertAll entries).get? key = some value ↔
      (key, value) ∈ entries ∨ key ∉ entries.map (·.1) ∧ m.get? key = some value := by
  induction entries generalizing m with
  | nil => simp
  | cons entry rest ih =>
    obtain ⟨k, v⟩ := entry
    obtain ⟨hfresh, hrest⟩ := List.nodup_cons.mp h
    rw [insertAll_cons, ih hrest, get?_insert]
    by_cases hkey : k = key
    · subst hkey
      have hunlisted : (k, value) ∉ rest := fun hmem =>
        hfresh (List.mem_map.mpr ⟨_, hmem, rfl⟩)
      simp [hunlisted, hfresh, eq_comm]
    · simp [hkey, Ne.symm hkey]

/-- Where no key is listed twice, the first entry under a key is the one that counts. -/
theorem get?_insertAll_eq_find? {entries : List (String × β)}
    (h : (entries.map (·.1)).Nodup) (m : Dict β) (key : String) :
    (m.insertAll entries).get? key = (Entries.find? key entries).or (m.get? key) := by
  induction entries generalizing m with
  | nil => rfl
  | cons head rest ih =>
    obtain ⟨k, v⟩ := head
    obtain ⟨hfresh, hrest⟩ := List.nodup_cons.mp h
    rw [insertAll_cons, ih hrest, get?_insert, Entries.find?_cons]
    by_cases hkey : k = key
    · subst hkey
      rw [if_pos rfl, if_pos rfl, Entries.find?_eq_none_iff.mpr hfresh]
      rfl
    · rw [if_neg hkey, if_neg hkey]

/-- What is found was listed, or was there before. -/
theorem mem_of_get?_insertAll {entries : List (String × β)} {m : Dict β} {key : String} {value : β}
    (h : (m.insertAll entries).get? key = some value) :
    (key, value) ∈ entries ∨ m.get? key = some value := by
  induction entries generalizing m with
  | nil => exact .inr h
  | cons entry rest ih =>
    rcases ih h with hmem | hget
    · exact .inl (List.mem_cons_of_mem _ hmem)
    · rw [get?_insert] at hget
      split at hget
      · rename_i hkey
        cases hget
        cases hkey
        exact .inl List.mem_cons_self
      · exact .inr hget

theorem mem_keys {m : Dict β} {key : String} : key ∈ m.keys ↔ (m.get? key).isSome := by
  rw [keys, List.mem_map, Option.isSome_iff_exists]
  constructor
  · rintro ⟨⟨k, value⟩, hmem, rfl⟩
    exact ⟨value, mem_toList.mp hmem⟩
  · rintro ⟨value, hget⟩
    exact ⟨(key, value), mem_toList.mpr hget, rfl⟩

theorem isSome_get?_insertAll (m : Dict β) (entries : List (String × β)) (key : String) :
    ((m.insertAll entries).get? key).isSome ↔
      key ∈ entries.map (·.1) ∨ (m.get? key).isSome := by
  induction entries generalizing m with
  | nil => simp
  | cons entry rest ih =>
    rw [insertAll_cons, ih, get?_insert]
    by_cases hkey : entry.1 = key
    · simp [hkey]
    · simp [hkey, Ne.symm hkey]

theorem isEmpty_iff {m : Dict β} : m.isEmpty = true ↔ m = ∅ := by
  rw [isEmpty, List.isEmpty_iff]
  exact ⟨fun h => eq_of_entries h, fun h => h ▸ rfl⟩

theorem eq_empty_iff {m : Dict β} : m = ∅ ↔ ∀ key, m.get? key = none :=
  ⟨fun h _ => h ▸ rfl, fun h => ext_get? h⟩

/-- No entries, no map. -/
theorem ofList_eq_empty_iff {entries : List (String × β)} : ofList entries = ∅ ↔ entries = [] := by
  refine ⟨fun h => List.eq_nil_iff_forall_not_mem.mpr fun entry hmem => ?_, fun h => h ▸ rfl⟩
  have hsome := (isSome_get?_insertAll ∅ entries entry.1).mpr (.inl (List.mem_map_of_mem hmem))
  have hnone : (insertAll ∅ entries).get? entry.1 = none := eq_empty_iff.mp h entry.1
  simp [hnone] at hsome

/-- Of two maps one with fewer keys has as many only if it has the same. -/
theorem size_eq_iff_of_subset {γ : Type} {small : Dict β} {large : Dict γ}
    (h : ∀ key, small.contains key = true → large.contains key = true) :
    small.size = large.size ↔ ∀ key, large.contains key = true → small.contains key = true := by
  have hkeys {δ : Type} (m : Dict δ) : m.size = m.keys.length := (List.length_map _).symm
  have hmem {δ : Type} (m : Dict δ) (key : String) : m.contains key = true ↔ key ∈ m.keys :=
    mem_keys.symm
  simp only [hmem] at h ⊢
  rw [hkeys, hkeys]
  constructor
  · intro hsize key hkey
    have hperm := (small.nodup_keys.subperm h).perm_of_length_le (Nat.le_of_eq hsize.symm)
    exact hperm.mem_iff.mpr hkey
  · intro hall
    exact ((List.perm_ext_iff_of_nodup small.nodup_keys large.nodup_keys).mpr fun key =>
      ⟨h key, hall key⟩).length_eq

/-- A map is what its entries make up, in whatever order they are listed. -/
theorem insertAll_of_perm {m : Dict β} {order : List (String × β)} (h : order.Perm m.toList) :
    insertAll ∅ order = m := by
  have hkeys : (order.map (·.1)).Perm m.keys := h.map (·.1)
  have hnodup : (order.map (·.1)).Nodup := hkeys.nodup_iff.mpr m.nodup_keys
  refine ext_get? fun key => Option.ext fun value => ?_
  refine (get?_insertAll_of_nodup hnodup).trans ?_
  simp [h.mem_iff, mem_toList]

theorem insertAll_toList (m : Dict β) : insertAll ∅ m.toList = m := insertAll_of_perm (.refl _)

/-- A value that knows its key is in the map exactly if it is found there. -/
theorem mem_values_iff {m : Dict β} {key : β → String}
    (h : ∀ {k value}, m.get? k = some value → key value = k) {value : β} :
    value ∈ m.values ↔ m.get? (key value) = some value := by
  rw [mem_values]
  refine ⟨fun ⟨k, hget⟩ => ?_, fun hget => ⟨_, hget⟩⟩
  rwa [h hget]

/-- A map that is put over another hides what was under its keys. -/
theorem get?_insertAll_toList (m more : Dict β) (key : String) :
    (m.insertAll more.toList).get? key = (more.get? key).or (m.get? key) :=
  get?_insertAll_eq_find? more.nodup_keys m key

/-- Values that know their keys are listed with them as the entries. -/
theorem map_values_toList {m : Dict β} {key : β → String}
    (h : ∀ {k value}, m.get? k = some value → key value = k) :
    m.values.map (fun value => (key value, value)) = m.toList := by
  rw [values, List.map_map]
  refine (List.map_congr_left ?_).trans (List.map_id _)
  rintro ⟨k, value⟩ hmem
  exact Prod.ext (h (mem_toList.mp hmem)) rfl

/-- The map without the keys of a list. -/
def eraseAll (m : Dict β) (keys : List String) : Dict β := keys.foldl erase m

theorem get?_eraseAll (m : Dict β) (keys : List String) (key : String) :
    (m.eraseAll keys).get? key = if key ∈ keys then none else m.get? key := by
  induction keys generalizing m with
  | nil => rfl
  | cons first rest ih =>
    refine (ih (m.erase first)).trans ?_
    rw [get?_erase]
    by_cases hrest : key ∈ rest
    · simp [hrest]
    · by_cases hfirst : first = key
      · simp [hfirst]
      · simp [hfirst, hrest, Ne.symm hfirst]

/-- Where the value follows from the key, every listed key has its value. -/
theorem get?_insertAll_of_eq {entries : List (String × β)} {f : String → β}
    (h : ∀ entry ∈ entries, entry.2 = f entry.1) (m : Dict β) (key : String) :
    (m.insertAll entries).get? key =
      if key ∈ entries.map (·.1) then some (f key) else m.get? key := by
  induction entries generalizing m with
  | nil => rfl
  | cons entry rest ih =>
    rw [insertAll_cons, ih fun other hmem => h other (List.mem_cons_of_mem _ hmem),
      get?_insert, h entry List.mem_cons_self]
    -- A later entry under the key would count, with the same value.
    by_cases hrest : key ∈ rest.map (·.1)
    · simp [hrest]
    · by_cases hkey : entry.1 = key
      · simp [hkey]
      · simp [hkey, hrest, Ne.symm hkey]

/-- A map that is listed by a function holds its values. -/
theorem get?_ofList_of_eq {entries : List (String × β)} {f : String → β}
    (h : ∀ entry ∈ entries, entry.2 = f entry.1) (key : String) :
    (ofList entries).get? key = if key ∈ entries.map (·.1) then some (f key) else none :=
  get?_insertAll_of_eq h ∅ key

section

variable {key : β → String} {items : List β}

/-- Items that are listed under different keys are all in the map. -/
theorem get?_ofList_of_nodup (h : (items.map key).Nodup) {k : String} {item : β} :
    (ofList (items.map fun item => (key item, item))).get? k = some item ↔
      item ∈ items ∧ key item = k := by
  have hkeys : ((items.map fun item => (key item, item)).map (·.1)).Nodup := by
    rwa [List.map_map]
  refine (get?_insertAll_of_nodup (m := ∅) hkeys).trans ?_
  simp [and_comm, eq_comm]

theorem isSome_get?_ofList_of_nodup (h : (items.map key).Nodup) {k : String} :
    ((ofList (items.map fun item => (key item, item))).get? k).isSome ↔ k ∈ items.map key := by
  rw [Option.isSome_iff_exists, List.mem_map]
  exact exists_congr fun item => get?_ofList_of_nodup h

/-- Values that know their keys are listed in the order of the keys. -/
theorem pairwise_values {m : Dict β} (h : ∀ {k value}, m.get? k = some value → key value = k) :
    m.values.Pairwise fun a b => key a ≤ key b := by
  have hlt : m.keys.Pairwise (· < ·) := List.pairwise_map.mpr m.ordered
  rw [← map_values h, List.pairwise_map] at hlt
  exact hlt.imp fun hab => String.not_lt.mp (String.lt_asymm hab)

/-- **The map lists the items in the order of their keys.** -/
theorem values_ofList (h : (items.map key).Nodup) :
    (ofList (items.map fun item => (key item, item))).values =
      items.mergeSort fun a b => key a ≤ key b := by
  have hget {k : String} {item : β} :
      (ofList (items.map fun item => (key item, item))).get? k = some item ↔
        item ∈ items ∧ key item = k := get?_ofList_of_nodup h
  generalize ofList (items.map fun item => (key item, item)) = m at hget
  have hkey {k : String} {item : β} (hitem : m.get? k = some item) : key item = k :=
    (hget.mp hitem).2
  have hsorted : (items.mergeSort fun a b => key a ≤ key b).Pairwise fun a b => key a ≤ key b := by
    have htrans (a b c : β) : decide (key a ≤ key b) = true → decide (key b ≤ key c) = true →
        decide (key a ≤ key c) = true := by
      simpa using String.le_trans
    have htotal (a b : β) : (decide (key a ≤ key b) || decide (key b ≤ key a)) = true := by
      simpa using String.le_total (key a) (key b)
    simpa using items.pairwise_mergeSort htrans htotal
  have hperm : m.values.Perm (items.mergeSort fun a b => key a ≤ key b) := by
    refine List.Perm.trans ?_ (List.mergeSort_perm _ _).symm
    have hnodup : m.values.Nodup := .of_map key (map_values hkey ▸ m.nodup_keys)
    refine (List.perm_ext_iff_of_nodup hnodup (.of_map key h)).mpr fun item => ?_
    rw [mem_values]
    exact ⟨fun ⟨_, hk⟩ => (hget.mp hk).1, fun hmem => ⟨_, hget.mpr ⟨hmem, rfl⟩⟩⟩
  -- Both lists are in order, and no two items have the same key.
  refine hperm.eq_of_pairwise (fun a b ha hb hab hba => ?_) (pairwise_values hkey) hsorted
  exact List.inj_on_of_nodup_map h (List.mem_mergeSort.mp (hperm.mem_iff.mp ha))
    (List.mem_mergeSort.mp hb) (String.le_antisymm hab hba)

end

end Dict

namespace NameSet

theorem contains_add (names : NameSet) (name other : String) :
    (names.add name).contains other = (decide (other = name) || names.contains other) := by
  rw [add, Dict.contains_eq, Dict.contains_eq, Dict.get?_insert]
  by_cases h : other = name
  · simp [h]
  · simp [h, Ne.symm h]

/-- A set of names is determined by what it contains. -/
theorem ext_contains {names other : NameSet}
    (h : ∀ name, names.contains name = other.contains name) : names = other := by
  refine Dict.ext_get? fun name => ?_
  have hname := h name
  rw [Dict.contains_eq, Dict.contains_eq] at hname
  cases hget : names.get? name <;> cases hget' : other.get? name <;> simp_all

end NameSet

end PipelineEditor
