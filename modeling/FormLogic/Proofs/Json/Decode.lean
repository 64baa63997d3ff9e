import FormLogic.Json.Decode
import FormLogic.Proofs.Heap.RefTree

/-!
# `FormLogic.Proofs.Json.Decode` — what the fields of a record are read from

A reader of records goes through the entries of an object and stores each in the field of its key. If
the field under a key is the only one that fills a certain part of the record, this part is read from
the entry under the key, or it is as it was at the start if there is no such entry; whatever the other
entries are and in which order they come.

## Contents
- `Fills`: the field under a key fills a part of the record, and no other field does.
- `decodeFields_part`: what is in the part after reading.
- `exists_decodeFields`: entries that can be stored one by one can be read.
-/

namespace FormLogic.Json

variable {ρ α : Type} {fields : List (Field ρ)} {key : String} {decode : Decoder α} {part : ρ → α}
  {entries : List (String × Json)} {start record record' : ρ} {tree : Json}

/-- What a field stores is read by its reader. -/
theorem store_field_eq_ok {set : α → ρ → ρ} :
    (field key decode set).store tree record = .ok record' ↔
      ∃ a, decode tree = .ok a ∧ set a record = record' := by
  show (decode tree).map _ = _ ↔ _
  cases decode tree <;> simp [Except.map]

/-- A part that is not changed by setting a field is not changed by storing in it. -/
theorem part_of_store_field {β : Type} {part : ρ → β} {set : α → ρ → ρ}
    (apart : ∀ a record, part (set a record) = part record)
    (stored : (field key decode set).store tree record = .ok record') :
    part record' = part record := by
  obtain ⟨a, -, rfl⟩ := store_field_eq_ok.mp stored
  exact apart a record

/-- The field under the key fills the part of a record with what `decode` reads, and no other field
changes it. -/
structure Fills (fields : List (Field ρ)) (key : String) (decode : Decoder α) (part : ρ → α) :
    Prop where
  own : ∃ set, fields.find? (·.key == key) = some (field key decode set) ∧
    ∀ a record, part (set a record) = a
  others : ∀ f ∈ fields, f.key ≠ key → ∀ {tree record record'},
    f.store tree record = .ok record' → part record' = part record

namespace Fills

/-- An entry under the key is stored if it can be read. -/
theorem takes (fills : Fills fields key decode part) {f : Field ρ} {a : α}
    (found : fields.find? (·.key == key) = some f) (read : decode tree = .ok a) (record : ρ) :
    ∃ record', f.store tree record = .ok record' := by
  obtain ⟨set, own, -⟩ := fills.own
  obtain rfl := Option.some.inj (own.symm.trans found)
  exact ⟨_, store_field_eq_ok.mpr ⟨a, read, rfl⟩⟩

/-- An entry under another key leaves the part as it is. -/
theorem part_of_ne (fills : Fills fields key decode part) {f : Field ρ} {k : String}
    (found : fields.find? (·.key == k) = some f) (other : k ≠ key)
    (stored : f.store tree record = .ok record') : part record' = part record := by
  have keyed : f.key = k := by simpa using List.find?_some found
  exact fills.others f (List.mem_of_find?_eq_some found) (keyed ▸ other) stored

end Fills

/-- Reading goes on behind an entry that has no field. -/
theorem decodeFields_skip {k : String} (unknown : fields.find? (·.key == k) = none) :
    decodeFields fields ((k, tree) :: entries) start = decodeFields fields entries start := by
  rw [decodeFields, unknown]

/-- Reading stores an entry that has a field, and goes on behind it. -/
theorem decodeFields_store {k : String} {f : Field ρ} (found : fields.find? (·.key == k) = some f) :
    decodeFields fields ((k, tree) :: entries) start = .ok record ↔
      ∃ next, f.store tree start = .ok next ∧ decodeFields fields entries next = .ok record := by
  rw [decodeFields, found]
  dsimp only
  cases f.store tree start with
  | error e => exact iff_of_false nofun nofun
  | ok next => simp [bind, Except.bind]

/-- **A part of a record** is read from the entry under its key, or as it was at the start. -/
theorem decodeFields_part (fills : Fills fields key decode part) (nodup : (keysOf entries).Nodup)
    (read : decodeFields fields entries start = .ok record) :
    match valueAt? key entries with
    | none => part record = part start
    | some tree => decode tree = .ok (part record) := by
  induction entries generalizing start with
  | nil =>
    obtain rfl := Except.ok.inj read
    rfl
  | cons entry rest ih =>
    obtain ⟨k, tree⟩ := entry
    obtain ⟨absent, nodup⟩ := List.nodup_cons.mp nodup
    rw [valueAt?_cons]
    by_cases here : k = key
    · subst here
      obtain ⟨set, own, part_set⟩ := fills.own
      obtain ⟨next, stored, read⟩ := (decodeFields_store own).mp read
      obtain ⟨a, decoded, rfl⟩ := store_field_eq_ok.mp stored
      -- no later entry has the key, so the part stays as it is now
      have later : part record = a := by
        simpa only [valueAt?_eq_none_iff.mpr absent, part_set] using ih nodup read
      rw [if_pos rfl]
      exact later.symm ▸ decoded
    · rw [if_neg here]
      cases found : fields.find? (·.key == k) with
      | none =>
        rw [decodeFields_skip found] at read
        exact ih nodup read
      | some f =>
        obtain ⟨next, stored, read⟩ := (decodeFields_store found).mp read
        rw [← fills.part_of_ne found here stored]
        exact ih nodup read

/-- Entries can be read if each that has a field can be stored in it. -/
theorem exists_decodeFields
    (takes : ∀ k tree, (k, tree) ∈ entries → ∀ f, fields.find? (·.key == k) = some f →
      ∀ record, ∃ record', f.store tree record = .ok record') (start : ρ) :
    ∃ record, decodeFields fields entries start = .ok record := by
  induction entries generalizing start with
  | nil => exact ⟨start, rfl⟩
  | cons entry rest ih =>
    obtain ⟨k, tree⟩ := entry
    have later := ih fun k tree mem => takes k tree (List.mem_cons_of_mem _ mem)
    cases found : fields.find? (·.key == k) with
    | none =>
      rw [decodeFields_skip found]
      exact later start
    | some f =>
      obtain ⟨next, stored⟩ := takes k tree List.mem_cons_self f found start
      obtain ⟨record, read⟩ := later next
      exact ⟨record, (decodeFields_store found).mpr ⟨next, stored, read⟩⟩

end FormLogic.Json
