/-!
# Finite maps keyed by strings

`Dict β` is a finite map from strings to `β`, stored as its entries in increasing key order.
The order is part of the type, so two maps with the same look-ups are the same map
(`Dict.ext_get?`), and listing a map always yields its keys from the lowest to the highest.

## Main definitions

* `Entries.find?`, `Entries.insert`, `Entries.erase` — look-up, update and removal on a bare list
  of entries; these need no order, and members of a JSON object share them.
* `Dict` — entries in increasing key order, with `get?`, `insert`, `erase`, `filter`, `map`.

## Main results

* `Entries.find?_insert`, `Entries.find?_erase` — what update and removal do to look-up.
* `Dict.ext_get?` — a map is determined by its look-ups.
-/

namespace PipelineEditor

/-! ## Bare entry lists -/

namespace Entries

variable {β γ : Type}

/-- The keys increase strictly from left to right, so none occurs twice. -/
def Ordered (entries : List (String × β)) : Prop :=
  entries.Pairwise fun a b => a.1 < b.1

/-- The value of the first entry under `key`. -/
def find? (key : String) : List (String × β) → Option β
  | [] => none
  | (k, v) :: rest => if k = key then some v else find? key rest

/-- Sets the value under `key`: replaced where the key stands, else put before the first higher
key. -/
def insert (key : String) (value : β) : List (String × β) → List (String × β)
  | [] => [(key, value)]
  | (k, v) :: rest =>
    if k = key then (key, value) :: rest
    else if key < k then (key, value) :: (k, v) :: rest
    else (k, v) :: insert key value rest

/-- Drops every entry under `key`. -/
def erase (key : String) (entries : List (String × β)) : List (String × β) :=
  entries.filter fun entry => entry.1 ≠ key

@[simp] theorem find?_nil (key : String) : find? key ([] : List (String × β)) = none := rfl

@[simp] theorem find?_cons (key k : String) (v : β) (rest : List (String × β)) :
    find? key ((k, v) :: rest) = if k = key then some v else find? key rest := rfl

theorem find?_insert_self (key : String) (value : β) (entries : List (String × β)) :
    find? key (insert key value entries) = some value := by
  induction entries with
  | nil => simp [insert]
  | cons head rest ih =>
    obtain ⟨k, v⟩ := head
    rw [insert]
    split
    · simp
    · rename_i hne
      split
      · simp
      · simp [hne, ih]

theorem find?_insert_of_ne {key other : String} (value : β) (entries : List (String × β))
    (h : key ≠ other) : find? other (insert key value entries) = find? other entries := by
  induction entries with
  | nil => simp [insert, h]
  | cons head rest ih =>
    obtain ⟨k, v⟩ := head
    rw [insert]
    split
    · rename_i heq
      subst heq
      simp [h]
    · split
      · simp [h]
      · by_cases hk : k = other <;> simp [hk, ih]

theorem find?_insert (key other : String) (value : β) (entries : List (String × β)) :
    find? other (insert key value entries) =
      if key = other then some value else find? other entries := by
  by_cases h : key = other
  · subst h
    simp [find?_insert_self]
  · simp [h, find?_insert_of_ne value entries h]

theorem find?_erase (key other : String) (entries : List (String × β)) :
    find? other (erase key entries) = if key = other then none else find? other entries := by
  induction entries with
  | nil => simp [erase]
  | cons head rest ih =>
    obtain ⟨k, v⟩ := head
    unfold erase at ih ⊢
    by_cases hk : k = key
    · subst hk
      rw [List.filter_cons_of_neg (by simp), ih]
      by_cases ho : k = other <;> simp [ho]
    · rw [List.filter_cons_of_pos (by simp [hk])]
      simp only [find?_cons, ih]
      by_cases hko : k = other
      · subst hko
        simp [Ne.symm hk]
      · simp [hko]

theorem mem_insert {key : String} {value : β} {entry : String × β} {entries : List (String × β)}
    (h : entry ∈ insert key value entries) : entry = (key, value) ∨ entry ∈ entries := by
  induction entries with
  | nil => simpa [insert] using h
  | cons head rest ih =>
    obtain ⟨k, v⟩ := head
    rw [insert] at h
    split at h
    · rcases List.mem_cons.1 h with h | h
      · exact Or.inl h
      · exact Or.inr (List.mem_cons_of_mem _ h)
    · split at h
      · rcases List.mem_cons.1 h with h | h
        · exact Or.inl h
        · exact Or.inr h
      · rcases List.mem_cons.1 h with h | h
        · exact Or.inr (h ▸ List.mem_cons_self)
        · exact (ih h).imp_right (List.mem_cons_of_mem _)

/-- Of two keys one is lower, or they are equal. -/
theorem lt_of_ne_of_not_lt {a b : String} (hne : a ≠ b) (h : ¬ b < a) : a < b := by
  rcases Decidable.em (a < b) with hlt | hlt
  · exact hlt
  · exact absurd (String.le_antisymm (String.not_lt.1 h) (String.not_lt.1 hlt)) hne

theorem Ordered.insert {entries : List (String × β)} (h : Ordered entries) (key : String)
    (value : β) : Ordered (Entries.insert key value entries) := by
  induction entries with
  | nil => exact List.pairwise_singleton _ _
  | cons head rest ih =>
    obtain ⟨k, v⟩ := head
    obtain ⟨hhead, hrest⟩ := List.pairwise_cons.1 h
    rw [Entries.insert]
    split
    · rename_i heq
      subst heq
      exact List.pairwise_cons.2 ⟨hhead, hrest⟩
    · rename_i hne
      split
      · rename_i hlt
        refine List.pairwise_cons.2 ⟨fun entry hmem => ?_, h⟩
        rcases List.mem_cons.1 hmem with rfl | hmem
        · exact hlt
        · exact String.lt_trans hlt (hhead entry hmem)
      · rename_i hlt
        refine List.pairwise_cons.2 ⟨fun entry hmem => ?_, ih hrest⟩
        rcases mem_insert hmem with rfl | hmem
        · exact lt_of_ne_of_not_lt hne hlt
        · exact hhead entry hmem

theorem Ordered.erase {entries : List (String × β)} (h : Ordered entries) (key : String) :
    Ordered (Entries.erase key entries) :=
  List.Pairwise.filter _ h

theorem find?_eq_none_of_lt {key : String} {entries : List (String × β)}
    (h : ∀ entry ∈ entries, key < entry.1) : find? key entries = none := by
  induction entries with
  | nil => rfl
  | cons head rest ih =>
    obtain ⟨k, v⟩ := head
    have hk : key < k := h (k, v) List.mem_cons_self
    have hne : k ≠ key := fun heq => String.lt_irrefl key (heq ▸ hk)
    simpa [hne] using ih fun entry hmem => h entry (List.mem_cons_of_mem _ hmem)

theorem mem_iff_find? {entries : List (String × β)} (h : Ordered entries) {key : String}
    {value : β} : (key, value) ∈ entries ↔ find? key entries = some value := by
  induction entries with
  | nil => simp
  | cons head rest ih =>
    obtain ⟨k, v⟩ := head
    obtain ⟨hhead, hrest⟩ := List.pairwise_cons.1 h
    simp only [List.mem_cons, Prod.mk.injEq, find?_cons, ih hrest]
    by_cases hk : k = key
    · subst hk
      have : find? k rest = none := find?_eq_none_of_lt hhead
      simp [this, eq_comm]
    · simp [hk, Ne.symm hk]

/-- Ordered entry lists with the same look-ups are equal. -/
theorem ext_find? {a b : List (String × β)} (ha : Ordered a) (hb : Ordered b)
    (h : ∀ key, find? key a = find? key b) : a = b := by
  induction a generalizing b with
  | nil =>
    cases b with
    | nil => rfl
    | cons head rest =>
      obtain ⟨k, v⟩ := head
      simpa using h k
  | cons head rest ih =>
    obtain ⟨k, v⟩ := head
    obtain ⟨hhead, hrest⟩ := List.pairwise_cons.1 ha
    cases b with
    | nil => simpa using h k
    | cons head' rest' =>
      obtain ⟨k', v'⟩ := head'
      obtain ⟨hhead', hrest'⟩ := List.pairwise_cons.1 hb
      have hk : k = k' := by
        rcases Decidable.em (k = k') with heq | hne
        · exact heq
        exfalso
        rcases Decidable.em (k' < k) with hlt | hlt
        · have hfind : find? k' ((k, v) :: rest) = none := by
            refine find?_eq_none_of_lt fun entry hmem => ?_
            rcases List.mem_cons.1 hmem with rfl | hmem
            · exact hlt
            · exact String.lt_trans hlt (hhead entry hmem)
          rw [h k'] at hfind
          simp at hfind
        · have hlt' : k < k' := lt_of_ne_of_not_lt hne hlt
          have hfind : find? k ((k', v') :: rest') = none := by
            refine find?_eq_none_of_lt fun entry hmem => ?_
            rcases List.mem_cons.1 hmem with rfl | hmem
            · exact hlt'
            · exact String.lt_trans hlt' (hhead' entry hmem)
          rw [← h k] at hfind
          simp at hfind
      subst hk
      have hv : v = v' := by simpa using h k
      subst hv
      congr 1
      refine ih hrest hrest' fun key => ?_
      by_cases hkey : k = key
      · subst hkey
        rw [find?_eq_none_of_lt hhead, find?_eq_none_of_lt hhead']
      · simpa [hkey] using h key

end Entries

/-! ## Maps -/

/-- A finite map keyed by strings, its entries in increasing key order. -/
structure Dict (β : Type) where
  entries : List (String × β)
  ordered : Entries.Ordered entries

namespace Dict

variable {β γ : Type}

theorem eq_of_entries {a b : Dict β} (h : a.entries = b.entries) : a = b := by
  cases a
  cases b
  cases h
  rfl

instance [DecidableEq β] : DecidableEq (Dict β) := fun a b =>
  decidable_of_iff (a.entries = b.entries) ⟨eq_of_entries, fun h => h ▸ rfl⟩

/-- The map with no entry. -/
def empty : Dict β := ⟨[], List.Pairwise.nil⟩

instance : EmptyCollection (Dict β) := ⟨empty⟩

instance : Inhabited (Dict β) := ⟨empty⟩

/-- The value under `key`. -/
def get? (m : Dict β) (key : String) : Option β := Entries.find? key m.entries

/-- Whether there is a value under `key`. -/
def contains (m : Dict β) (key : String) : Bool := (m.get? key).isSome

/-- The map with `value` under `key`, whatever was there before. -/
def insert (m : Dict β) (key : String) (value : β) : Dict β :=
  ⟨Entries.insert key value m.entries, m.ordered.insert key value⟩

/-- The map with nothing under `key`. -/
def erase (m : Dict β) (key : String) : Dict β :=
  ⟨Entries.erase key m.entries, m.ordered.erase key⟩

/-- The entries whose key satisfies `keep`. -/
def filterKeys (m : Dict β) (keep : String → Bool) : Dict β :=
  ⟨m.entries.filter fun entry => keep entry.1, List.Pairwise.filter _ m.ordered⟩

/-- The map with every value sent through `f`. -/
def map (m : Dict β) (f : β → γ) : Dict γ :=
  ⟨m.entries.map fun entry => (entry.1, f entry.2), by
    rw [Entries.Ordered, List.pairwise_map]
    exact m.ordered⟩

/-- The entries from the lowest key to the highest. -/
def toList (m : Dict β) : List (String × β) := m.entries

/-- The keys from the lowest to the highest. -/
def keys (m : Dict β) : List String := m.entries.map (·.1)

/-- The values in the order of their keys. -/
def values (m : Dict β) : List β := m.entries.map (·.2)

/-- How many entries there are. -/
def size (m : Dict β) : Nat := m.entries.length

def isEmpty (m : Dict β) : Bool := m.entries.isEmpty

/-- The map holding the listed entries; of two under one key the later one stays. -/
def ofList (entries : List (String × β)) : Dict β :=
  entries.foldl (fun m entry => m.insert entry.1 entry.2) ∅

@[simp] theorem get?_empty (key : String) : (∅ : Dict β).get? key = none := rfl

theorem get?_insert (m : Dict β) (key other : String) (value : β) :
    (m.insert key value).get? other = if key = other then some value else m.get? other :=
  Entries.find?_insert key other value m.entries

@[simp] theorem get?_insert_self (m : Dict β) (key : String) (value : β) :
    (m.insert key value).get? key = some value := by
  simp [get?_insert]

/-- What is there is there still after an insertion under a free key. -/
theorem get?_insert_of_free {m : Dict β} {key other : String} {value found : β}
    (hfree : m.get? key = none) (h : m.get? other = some found) :
    (m.insert key value).get? other = some found := by
  rw [get?_insert, if_neg]
  · exact h
  · rintro rfl
    cases hfree.symm.trans h

theorem get?_erase (m : Dict β) (key other : String) :
    (m.erase key).get? other = if key = other then none else m.get? other :=
  Entries.find?_erase key other m.entries

@[simp] theorem get?_erase_self (m : Dict β) (key : String) : (m.erase key).get? key = none := by
  simp [get?_erase]

/-- A map is determined by its look-ups. -/
theorem ext_get? {a b : Dict β} (h : ∀ key, a.get? key = b.get? key) : a = b :=
  eq_of_entries (Entries.ext_find? a.ordered b.ordered h)

/-- Taking away what is not there changes nothing. -/
theorem erase_of_get?_eq_none {m : Dict β} {key : String} (h : m.get? key = none) :
    m.erase key = m := by
  refine ext_get? fun other => ?_
  rw [get?_erase]
  split
  · rename_i heq
    rw [← heq, h]
  · rfl

theorem mem_toList {m : Dict β} {key : String} {value : β} :
    (key, value) ∈ m.toList ↔ m.get? key = some value :=
  Entries.mem_iff_find? m.ordered

theorem mem_values {m : Dict β} {value : β} :
    value ∈ m.values ↔ ∃ key, m.get? key = some value := by
  simp only [values, List.mem_map, Prod.exists, exists_eq_right]
  exact exists_congr fun key => mem_toList

/-- No key occurs twice. -/
theorem nodup_keys (m : Dict β) : m.keys.Nodup := by
  rw [keys, List.Nodup, List.pairwise_map]
  refine m.ordered.imp fun {a b} hlt (heq : a.1 = b.1) => ?_
  exact String.lt_irrefl b.1 (heq ▸ hlt)

/-- Values that know their keys are listed like the keys. -/
theorem map_values {m : Dict β} {key : β → String}
    (h : ∀ {k value}, m.get? k = some value → key value = k) : m.values.map key = m.keys := by
  rw [values, keys, List.map_map]
  refine List.map_congr_left ?_
  rintro ⟨k, value⟩ hmem
  exact h (mem_toList.mp hmem)

theorem get?_map (m : Dict β) (f : β → γ) (key : String) :
    (m.map f).get? key = (m.get? key).map f := by
  obtain ⟨entries, hordered⟩ := m
  show Entries.find? key (entries.map fun entry => (entry.1, f entry.2)) =
    (Entries.find? key entries).map f
  clear hordered
  induction entries with
  | nil => rfl
  | cons entry rest ih =>
    rw [List.map_cons, Entries.find?_cons, Entries.find?_cons, ih]
    split <;> rfl

theorem contains_eq (m : Dict β) (key : String) : m.contains key = (m.get? key).isSome := rfl

/-- Storing what is stored already changes nothing. -/
theorem insert_self {m : Dict β} {key : String} {value : β} (h : m.get? key = some value) :
    m.insert key value = m := by
  refine ext_get? fun other => ?_
  rw [get?_insert]
  split
  · rename_i heq
    rw [← heq, h]
  · rfl

/-- Of two values stored under one key the later counts. -/
theorem insert_insert (m : Dict β) (key : String) (first second : β) :
    (m.insert key first).insert key second = m.insert key second := by
  refine ext_get? fun other => ?_
  simp only [get?_insert]
  split <;> rfl

/-- Putting a value back where it was taken from restores the map. -/
theorem insert_erase {m : Dict β} {key : String} {value : β} (h : m.get? key = some value) :
    (m.erase key).insert key value = m := by
  refine ext_get? fun other => ?_
  rw [get?_insert, get?_erase]
  split
  · rename_i heq
    rw [← heq, h]
  · rfl

/-- Taking away a value that was not there before its insertion restores the map. -/
theorem erase_insert {m : Dict β} {key : String} {value : β} (h : m.get? key = none) :
    (m.insert key value).erase key = m := by
  refine ext_get? fun other => ?_
  rw [get?_erase, get?_insert]
  split
  · rename_i heq
    rw [← heq, h]
  · rfl

end Dict

/-- A finite set of strings. -/
abbrev NameSet : Type := Dict Unit

namespace NameSet

/-- The set with one more member. -/
def add (names : NameSet) (name : String) : NameSet := names.insert name ()

end NameSet

end PipelineEditor
