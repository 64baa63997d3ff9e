/-!
# `FormLogic.Fields` — keyed entries in order of insertion

The entries of a mapping have pairwise different keys and stand in the order in which their keys
were first inserted. A new value under an old key keeps its place, and removal keeps the order of
the rest.

## Contents
- `insertEntry`, `eraseEntry`, `valueAt?`: writing to a list of entries and reading it.
- `valueAt?_cons`, `mem_of_valueAt?`, `valueAt?_eq_none_iff`, `valueAt?_of_mem`: what is found;
  `valueAt?_filter_keys`: what is found among some of the entries.
- `Fields`: the type; `get?`, `contains`, `keys`, `size`: reading.
- `insert`, `erase`, `ofList`: writing, with the entries each leaves behind.
-/

namespace FormLogic

/-- The keys of a list of entries. -/
def keysOf {α : Type} (entries : List (String × α)) : List String :=
  entries.map Prod.fst

/-- The entries with `value` under `key`: in the place of the old entry, or at the end. -/
def insertEntry {α : Type} (key : String) (value : α) : List (String × α) → List (String × α)
  | [] => [(key, value)]
  | (k, v) :: rest =>
    if k = key then (key, value) :: rest else (k, v) :: insertEntry key value rest

/-- The entries without the one under `key`. -/
def eraseEntry {α : Type} (key : String) (entries : List (String × α)) : List (String × α) :=
  entries.filter fun entry => entry.1 ≠ key

/-- The value under `key`, which is named first, as in writing. -/
abbrev valueAt? {α : Type} (key : String) (entries : List (String × α)) : Option α :=
  entries.lookup key

/-! ## The keys after a change -/

theorem keysOf_insertEntry {α : Type} (key : String) (value : α) (entries : List (String × α)) :
    keysOf (insertEntry key value entries) =
      if key ∈ keysOf entries then keysOf entries else keysOf entries ++ [key] := by
  induction entries with
  | nil => rfl
  | cons entry rest ih =>
    obtain ⟨k, v⟩ := entry
    by_cases h : k = key
    · subst h
      simp [insertEntry, keysOf]
    · have h' : ¬ key = k := fun e => h e.symm
      simp only [insertEntry, h, if_false, keysOf, List.map_cons, List.mem_cons, h',
        false_or] at ih ⊢
      rw [ih]
      split
      · next h => simp [h]
      · next h => simp [h]

theorem keysOf_eraseEntry {α : Type} (key : String) (entries : List (String × α)) :
    keysOf (eraseEntry key entries) = (keysOf entries).filter (· ≠ key) := by
  simp [keysOf, eraseEntry, List.filter_map, Function.comp_def]

theorem nodup_insertEntry {α : Type} {key : String} {value : α} {entries : List (String × α)}
    (h : (keysOf entries).Nodup) : (keysOf (insertEntry key value entries)).Nodup := by
  rw [keysOf_insertEntry]
  split
  · exact h
  · next absent =>
    refine List.nodup_append.mpr ⟨h, by simp, ?_⟩
    rintro k hk _ hkey rfl
    simp only [List.mem_singleton] at hkey
    exact absent (hkey ▸ hk)

theorem nodup_eraseEntry {α : Type} {key : String} {entries : List (String × α)}
    (h : (keysOf entries).Nodup) : (keysOf (eraseEntry key entries)).Nodup := by
  rw [keysOf_eraseEntry]
  exact h.filter _

/-- A new key is inserted behind the others. -/
theorem insertEntry_eq_append {α : Type} {key : String} {entries : List (String × α)}
    (new : key ∉ keysOf entries) (a : α) : insertEntry key a entries = entries ++ [(key, a)] := by
  induction entries with
  | nil => rfl
  | cons entry rest ih =>
    obtain ⟨k, b⟩ := entry
    have other : k ≠ key := (List.ne_of_not_mem_cons new).symm
    unfold insertEntry
    rw [if_neg other, ih (List.not_mem_of_not_mem_cons new), List.cons_append]

/-! ## Reading -/

section

variable {α : Type} {key : String} {a : α} {entries : List (String × α)}

/-- The value is that of the first entry, or is looked for among the others. -/
theorem valueAt?_cons (key k : String) (a : α) (rest : List (String × α)) :
    valueAt? key ((k, a) :: rest) = if k = key then some a else valueAt? key rest := by
  by_cases here : k = key
  · rw [if_pos here, here]
    exact List.lookup_cons_self
  · have other : (key == k) = false := beq_eq_false_iff_ne.mpr fun same => here same.symm
    rw [if_neg here, valueAt?, List.lookup_cons, other]

/-- What is found under a key is the value of an entry with this key. -/
theorem mem_of_valueAt? (found : valueAt? key entries = some a) : (key, a) ∈ entries := by
  obtain ⟨front, back, rfl, -⟩ := List.lookup_eq_some_iff.mp found
  exact List.mem_append_right front List.mem_cons_self

theorem valueAt?_eq_none_iff : valueAt? key entries = none ↔ key ∉ keysOf entries := by
  rw [List.lookup_eq_none_iff, keysOf, List.mem_map]
  constructor
  · rintro other ⟨entry, mem, rfl⟩
    exact bne_iff_ne.mp (other entry mem) rfl
  · intro absent entry mem
    exact bne_iff_ne.mpr fun same => absent ⟨entry, mem, same.symm⟩

/-- Among different keys each entry is found. -/
theorem valueAt?_of_mem (nodup : (keysOf entries).Nodup) (mem : (key, a) ∈ entries) :
    valueAt? key entries = some a := by
  obtain ⟨front, back, rfl⟩ := List.append_of_mem mem
  rw [keysOf, List.map_append, List.nodup_append] at nodup
  refine List.lookup_eq_some_iff.mpr ⟨front, back, rfl, fun entry before => ?_⟩
  have apart := nodup.2.2 entry.1 (List.mem_map_of_mem before) key List.mem_cons_self
  exact bne_iff_ne.mpr apart.symm

/-- Of entries chosen by their keys, the one under a chosen key is that of all entries. -/
theorem valueAt?_filter_keys (p : String → Bool) (key : String) (entries : List (String × α)) :
    valueAt? key (entries.filter fun entry => p entry.1) =
      if p key then valueAt? key entries else none := by
  induction entries with
  | nil => exact (ite_self none).symm
  | cons entry rest ih =>
    obtain ⟨k, a⟩ := entry
    cases chosen : p k with
    | true =>
      rw [List.filter_cons, if_pos chosen, valueAt?_cons, valueAt?_cons, ih]
      by_cases here : k = key
      · rw [if_pos here, if_pos here, ← here, if_pos chosen]
      · rw [if_neg here, if_neg here]
    | false =>
      have dropped : ¬ p k = true := ne_true_of_eq_false chosen
      rw [List.filter_cons, if_neg dropped, ih, valueAt?_cons]
      by_cases here : k = key
      · rw [← here, if_neg dropped, if_neg dropped]
      · rw [if_neg here]

end

/-! ## The type -/

/-- Entries with pairwise different keys, in order of insertion. -/
structure Fields (α : Type) where
  entries : List (String × α)
  nodup : (keysOf entries).Nodup

namespace Fields

variable {α : Type}

/-- No entries. -/
def empty : Fields α :=
  ⟨[], List.nodup_nil⟩

instance : Inhabited (Fields α) :=
  ⟨empty⟩

/-- The value under `key`. -/
def get? (fields : Fields α) (key : String) : Option α :=
  valueAt? key fields.entries

/-- Whether there is an entry under `key`. -/
def contains (fields : Fields α) (key : String) : Bool :=
  (fields.get? key).isSome

/-- The keys in order. -/
def keys (fields : Fields α) : List String :=
  keysOf fields.entries

/-- The number of entries. -/
def size (fields : Fields α) : Nat :=
  fields.entries.length

/-- Stores `value` under `key`. -/
def insert (fields : Fields α) (key : String) (value : α) : Fields α :=
  ⟨insertEntry key value fields.entries, nodup_insertEntry fields.nodup⟩

/-- Removes the entry under `key`. -/
def erase (fields : Fields α) (key : String) : Fields α :=
  ⟨eraseEntry key fields.entries, nodup_eraseEntry fields.nodup⟩

/-- The fields that come from inserting the entries one after the other. -/
def ofList (entries : List (String × α)) : Fields α :=
  entries.foldl (fun fields entry => fields.insert entry.1 entry.2) empty

@[ext]
theorem ext {a b : Fields α} (h : a.entries = b.entries) : a = b := by
  cases a
  cases b
  cases h
  rfl

/-! ## Reading after writing -/

theorem valueAt?_insertEntry (key k : String) (value : α) (entries : List (String × α)) :
    valueAt? k (insertEntry key value entries) =
      if key = k then some value else valueAt? k entries := by
  induction entries with
  | nil => rw [insertEntry, valueAt?_cons]
  | cons entry rest ih =>
    obtain ⟨k', v⟩ := entry
    unfold insertEntry
    by_cases here : k' = key
    · subst here
      rw [if_pos rfl, valueAt?_cons, valueAt?_cons]
      split <;> rfl
    · rw [if_neg here, valueAt?_cons, valueAt?_cons, ih]
      by_cases same : k' = k
      · subst same
        rw [if_pos rfl, if_pos rfl, if_neg fun same => here same.symm]
      · rw [if_neg same, if_neg same]

theorem valueAt?_eraseEntry (key k : String) (entries : List (String × α)) :
    valueAt? k (eraseEntry key entries) = if key = k then none else valueAt? k entries := by
  unfold eraseEntry
  rw [valueAt?_filter_keys fun other => other ≠ key]
  by_cases here : key = k
  · rw [if_pos here, if_neg (by simp [here])]
  · rw [if_neg here, if_pos (by simpa using fun same => here same.symm)]

theorem get?_insert (fields : Fields α) (key k : String) (value : α) :
    (fields.insert key value).get? k = if key = k then some value else fields.get? k :=
  valueAt?_insertEntry key k value fields.entries

theorem get?_erase (fields : Fields α) (key k : String) :
    (fields.erase key).get? k = if key = k then none else fields.get? k :=
  valueAt?_eraseEntry key k fields.entries

theorem keys_insert (fields : Fields α) (key : String) (value : α) :
    (fields.insert key value).keys =
      if key ∈ fields.keys then fields.keys else fields.keys ++ [key] :=
  keysOf_insertEntry key value fields.entries

theorem keys_erase (fields : Fields α) (key : String) :
    (fields.erase key).keys = fields.keys.filter (· ≠ key) :=
  keysOf_eraseEntry key fields.entries

end Fields

end FormLogic
