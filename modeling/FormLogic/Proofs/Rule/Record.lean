import FormLogic.Proofs.Heap.Layout
import FormLogic.Proofs.Json.Decode
import FormLogic.Rule

/-!
# `FormLogic.Proofs.Rule.Record` — which records are rules

A record passes two readers before it is a rule. The plain tree of the graph drops marks of absence
and handles, makes `null` of numbers that are not finite, and does not go deeper than the limit, in
fields that no rule has as little as in the others. Then the six fields are read, `null` being a text
that is empty and a flag that is off. Together they accept a mapping that does not nest too deep if
each field in it has something that can be read, or nothing.

## Contents
- `Rule.textParts`: the texts of a rule with their keys; `textIn`, `flagIn`: what values are read as.
- `entry_of_plainWithin`: the entries in the plain tree of a mapping.
- `Rule.Reads`: a rule is what a record says; `Rule.Readable`: the records that say one.
- `ofRecord_exact`: exactly these records are read, and the record of a rule is read as this rule.
-/

namespace FormLogic

/-! ## Entries of plain trees -/

section

variable {α β : Type} {key : String}

/-- Of entries chosen by their values, the one under a key is that of all entries, if it is chosen. -/
theorem valueAt?_filter {p : α → Bool} {entries : List (String × α)}
    (nodup : (keysOf entries).Nodup) :
    valueAt? key (entries.filter fun entry => p entry.2) = (valueAt? key entries).filter p := by
  induction entries with
  | nil => rfl
  | cons entry rest ih =>
    obtain ⟨k, a⟩ := entry
    obtain ⟨absent, nodup⟩ := List.nodup_cons.mp nodup
    by_cases here : k = key
    · subst here
      have later : valueAt? k rest = none := valueAt?_eq_none_iff.mpr absent
      cases chosen : p a <;> simp [Option.filter, chosen, ih nodup, later]
    · cases chosen : p a <;> simp [valueAt?_cons, chosen, ih nodup, here]

/-- Values that are related in order are so under each key. -/
theorem rel_valueAt?_zip (key : String) {R : α → β → Prop} {entries : List (String × α)} {bs : List β}
    (related : List.Forall₂ R (entries.map Prod.snd) bs) :
    Option.Rel R (valueAt? key entries) (valueAt? key ((keysOf entries).zip bs)) := by
  induction entries generalizing bs with
  | nil => exact .none
  | cons entry rest ih =>
    obtain ⟨k, a⟩ := entry
    obtain ⟨b, bs, first, rest, rfl⟩ := List.forall₂_cons_left_iff.mp related
    simp only [keysOf, List.map_cons, List.zip_cons_cons, valueAt?_cons]
    split
    · exact .some first
    · exact ih rest

end

namespace Heap

variable {h : Heap} {r : Ref} {depth : Nat} {tree : Json}

/-- A value that is looked up is related to what stands for it if it is kept. -/
theorem related_of_kept {R : Value → Json → Prop} {o : Option Value} {o' : Option Json}
    (related : Option.Rel R (o.filter isKept) o') :
    o' = none ∧ isKept (o.getD .undefined) = false ∨
      ∃ tree, o' = some tree ∧ isKept (o.getD .undefined) = true ∧ R (o.getD .undefined) tree := by
  cases o with
  | none =>
    cases related
    exact Or.inl ⟨rfl, rfl⟩
  | some w =>
    cases kept : isKept w with
    | true =>
      rw [Option.filter_some_pos kept] at related
      cases related with
      | some same => exact Or.inr ⟨_, rfl, kept, same⟩
    | false =>
      rw [Option.filter_some_neg (by simp [kept])] at related
      cases related
      exact Or.inl ⟨rfl, kept⟩

/-- **The plain tree of a mapping** is an object. Under each key it has the tree of the value that is
looked up there, if this is kept, and nothing if it is not. -/
theorem entry_of_plainWithin {v : Value} (mapping : h.kind v = .mapping)
    (found : h.plainWithin (depth + 1) v = some tree) :
    ∃ entries, tree = .object entries ∧ (keysOf entries).Nodup ∧ ∀ key,
      valueAt? key entries = none ∧ isKept (h.lookup v key) = false ∨
        ∃ tree, valueAt? key entries = some tree ∧ isKept (h.lookup v key) = true ∧
          h.plainWithin depth (h.lookup v key) = some tree := by
  cases v with
  | container r =>
    obtain ⟨trees, below, rfl⟩ := plainWithin_container_iff.mp found
    cases cell : h.cell r with
    | sequence items => simp [kind, cell] at mapping
    | mapping fields =>
      rw [cell] at below
      have nodup : (keysOf (fields.entries.filter fun entry => isKept entry.2)).Nodup :=
        fields.nodup.sublist (List.filter_sublist.map Prod.fst)
      have length := below.length_eq
      refine ⟨_, rfl, ?_, fun key => ?_⟩
      · show (((keysOf _).zip trees).map Prod.fst).Nodup
        rwa [List.map_fst_zip]
        simpa [keysOf, Cell.kept, Cell.children] using length.le
      · have looked : h.lookup (.container r) key =
            (valueAt? key fields.entries).getD .undefined := by
          rw [lookup_container, cell]
          rfl
        have related := rel_valueAt?_zip key below
        rw [valueAt?_filter fields.nodup] at related
        rw [looked]
        exact related_of_kept related
  | _ => cases mapping

end Heap

namespace Rule

/-- The texts of a rule, with their keys in a record. -/
def textParts : List (String × (Rule → String)) :=
  [("desc", desc), ("context", gate), ("if", condition), ("then", consequent),
    ("else", alternate)]

/-- The text that a field is read as, if it can be: that of a string, and none for what leaves no
text behind. -/
def textIn : Value → Option String
  | .string s => some s
  | .undefined | .foreign _ | .null => some ""
  | .number x => if x.isFinite then none else some ""
  | .bool _ | .container _ => none

/-- The flag that a field is read as, if it can be. What leaves no trace in a plain tree is a field
that is not given; what becomes `null` is off. -/
def flagIn : Value → Option Bool
  | .bool b => some b
  | .undefined | .foreign _ => some true
  | .null => some false
  | .number x => if x.isFinite then none else some false
  | .string _ | .container _ => none

/-- The record says the rule. -/
structure Reads (h : Heap) (v : Value) (rule : Rule) : Prop where
  mapping : h.kind v = .mapping
  /-- Unrelated fields count too. -/
  shallow : ∀ refs, h.Route v refs → refs.length ≤ 256
  text : ∀ key part, (key, part) ∈ textParts → textIn (h.lookup v key) = some (part rule)
  active : flagIn (h.lookup v "active") = some rule.active

/-- The record says some rule. -/
structure Readable (h : Heap) (v : Value) : Prop where
  mapping : h.kind v = .mapping
  shallow : ∀ refs, h.Route v refs → refs.length ≤ 256
  text : ∀ key ∈ ["desc", "context", "if", "then", "else"], (textIn (h.lookup v key)).isSome
  active : (flagIn (h.lookup v "active")).isSome

/-! ## The two readers -/

variable {h : Heap} {v w : Value} {rule rule' : Rule} {depth i : Nat} {tree : Json}

theorem textIn_of_dropped (out : Heap.isKept w = false) : textIn w = some "" := by
  cases w with
  | undefined | foreign => rfl
  | _ => cases out

theorem flagIn_of_dropped (out : Heap.isKept w = false) : flagIn w = some true := by
  cases w with
  | undefined | foreign => rfl
  | _ => cases out

/-- The tree of a container can be read neither as a text nor as a flag. -/
theorem decode_ofShape {shape : Shape} {trees : List Json} :
    (Json.orNull "" Json.toText (.ofShape shape trees)).toOption = none ∧
      (Json.orNull false Json.toBool (.ofShape shape trees)).toOption = none := by
  cases shape <;> exact ⟨rfl, rfl⟩

theorem decode_ofFloat (x : Float) :
    (Json.orNull "" Json.toText (.ofFloat x)).toOption = textIn (.number x) ∧
      (Json.orNull false Json.toBool (.ofFloat x)).toOption = flagIn (.number x) := by
  have text : textIn (.number x) = if x.isFinite then none else some "" := rfl
  have flag : flagIn (.number x) = if x.isFinite then none else some false := rfl
  rw [text, flag]
  rcases Json.ofFloat_cases x with ⟨n, integral, -, tree⟩ | ⟨finite, tree⟩ | ⟨infinite, tree⟩
  · rw [Number.isFinite_of_integer? integral, tree]
    exact ⟨rfl, rfl⟩
  · rw [finite, tree]
    exact ⟨rfl, rfl⟩
  · rw [infinite, tree]
    exact ⟨rfl, rfl⟩

/-- A value that is kept is read from its plain tree. -/
theorem decode_of_kept (kept : Heap.isKept w = true) (found : h.plainWithin depth w = some tree) :
    (Json.orNull "" Json.toText tree).toOption = textIn w ∧
      (Json.orNull false Json.toBool tree).toOption = flagIn w := by
  cases w with
  | container r =>
    cases depth with
    | zero => cases found
    | succ depth =>
      obtain ⟨trees, -, rfl⟩ := Heap.plainWithin_container_iff.mp found
      exact decode_ofShape
  | undefined | foreign => cases kept
  | number x =>
    rw [Heap.plainWithin_of_leaf rfl] at found
    exact Option.some.inj found ▸ decode_ofFloat x
  | _ =>
    rw [Heap.plainWithin_of_leaf rfl] at found
    exact Option.some.inj found ▸ ⟨rfl, rfl⟩

/-! ## The fields -/

theorem forall_textParts {P : String → (Rule → String) → Prop} :
    (∀ key part, (key, part) ∈ textParts → P key part) ↔ P "desc" desc ∧ P "context" gate ∧
      P "if" condition ∧ P "then" consequent ∧ P "else" alternate := by
  simp [textParts, or_imp, forall_and]

theorem forall_fields {P : Json.Field Rule → Prop} :
    (∀ f ∈ fields, P f) ↔ P (textField "desc" fun s rule => { rule with desc := s }) ∧
      P (textField "context" fun s rule => { rule with gate := s }) ∧
      P (textField "if" fun s rule => { rule with condition := s }) ∧
      P (textField "then" fun s rule => { rule with consequent := s }) ∧
      P (textField "else" fun s rule => { rule with alternate := s }) ∧
      P (Json.field "active" (Json.orNull false Json.toBool)
        fun b rule => { rule with active := b }) := by
  simp [fields]

theorem fills_text : ∀ key part, (key, part) ∈ textParts →
    Json.Fills fields key (Json.orNull "" Json.toText) part := by
  refine forall_textParts.mpr ⟨?_, ?_, ?_, ?_, ?_⟩ <;>
    refine ⟨⟨_, rfl, fun _ _ => rfl⟩, forall_fields.mpr ⟨?_, ?_, ?_, ?_, ?_, ?_⟩⟩ <;>
    first
    | exact fun other => absurd rfl other
    | exact fun _ => Json.part_of_store_field fun _ _ => rfl

theorem fills_active : Json.Fills fields "active" (Json.orNull false Json.toBool) active := by
  refine ⟨⟨_, rfl, fun _ _ => rfl⟩, forall_fields.mpr ⟨?_, ?_, ?_, ?_, ?_, ?_⟩⟩
  case refine_6 => exact fun other => absurd rfl other
  all_goals exact fun _ => Json.part_of_store_field fun _ _ => rfl

/-- A text that is not given is empty. -/
theorem text_default : ∀ key part, (key, part) ∈ textParts → part {} = "" :=
  forall_textParts.mpr ⟨rfl, rfl, rfl, rfl, rfl⟩

/-- A field is one of the texts or the flag. -/
theorem text_or_active :
    ∀ f ∈ fields, (∃ part, (f.key, part) ∈ textParts) ∨ f.key = "active" := by
  refine forall_fields.mpr ⟨.inl ⟨desc, ?_⟩, .inl ⟨gate, ?_⟩, .inl ⟨condition, ?_⟩,
    .inl ⟨consequent, ?_⟩, .inl ⟨alternate, ?_⟩, .inr rfl⟩ <;>
    simp [textParts, textField, Json.field]

/-- Rules with the same texts and the same flag are the same. -/
theorem eq_of_parts (same : ∀ key part, (key, part) ∈ textParts → part rule = part rule')
    (active : rule.active = rule'.active) : rule = rule' := by
  obtain ⟨desc, gate, condition, consequent, alternate⟩ := forall_textParts.mp same
  cases rule
  cases rule'
  simp_all

/-! ## Records -/

theorem ofRecord_eq_ok_iff :
    ofRecord h v i = .ok rule ↔ h.kind v = .mapping ∧
      ∃ tree, h.plainWithin defaultMaxDepth v = some tree ∧ decode tree = .ok rule := by
  unfold ofRecord Heap.plain
  by_cases mapping : h.kind v = .mapping
  · rw [if_pos mapping]
    cases h.plainWithin defaultMaxDepth v with
    | none => simp
    | some tree =>
      dsimp only
      cases decoded : decode tree <;> simp [mapping, decoded]
  · simp [mapping]

theorem nestsWithin_iff :
    h.NestsWithin depth v ↔ ∀ refs, h.Route v refs → refs.length ≤ depth := by
  rw [← not_iff_not, Heap.not_nestsWithin_iff]
  simp

/-- What is read is what the record says. -/
theorem reads_of_ofRecord (read : ofRecord h v i = .ok rule) : Reads h v rule := by
  obtain ⟨mapping, tree, found, decoded⟩ := ofRecord_eq_ok_iff.mp read
  have shallow := nestsWithin_iff.mp (Heap.exists_plainWithin_iff.mp ⟨tree, found⟩)
  obtain ⟨entries, rfl, nodup, entry⟩ := Heap.entry_of_plainWithin mapping found
  refine ⟨mapping, shallow, fun key part text => ?_, ?_⟩
  · have filled := Json.decodeFields_part (fills_text key part text) nodup decoded
    rcases entry key with ⟨absent, out⟩ | ⟨tree, there, kept, found⟩
    · rw [absent] at filled
      rw [textIn_of_dropped out, filled, text_default key part text]
    · rw [there] at filled
      rw [← (decode_of_kept kept found).1, filled]
      rfl
  · have filled := Json.decodeFields_part fills_active nodup decoded
    rcases entry "active" with ⟨absent, out⟩ | ⟨tree, there, kept, found⟩
    · rw [absent] at filled
      rw [flagIn_of_dropped out, filled]
    · rw [there] at filled
      rw [← (decode_of_kept kept found).2, filled]
      rfl

/-- A record says one rule at most. -/
theorem Reads.unique (reads : Reads h v rule) (reads' : Reads h v rule') : rule = rule' := by
  refine eq_of_parts (fun key part text => ?_) ?_
  · exact Option.some.inj ((reads.text key part text).symm.trans (reads'.text key part text))
  · exact Option.some.inj (reads.active.symm.trans reads'.active)

/-- A result that has a value is this value. -/
theorem eq_ok_of_toOption {α : Type} {e : Except Json.DecodeError α} {a : α}
    (some : e.toOption = some a) : e = .ok a := by
  cases e with
  | error e => cases some
  | ok b => exact congrArg Except.ok (Option.some.inj some)

/-- What the record says is read. -/
theorem Reads.ofRecord (reads : Reads h v rule) (i : Nat) : ofRecord h v i = .ok rule := by
  obtain ⟨tree, found⟩ := Heap.exists_plainWithin_iff.mpr (nestsWithin_iff.mpr reads.shallow)
  obtain ⟨entries, rfl, nodup, entry⟩ := Heap.entry_of_plainWithin reads.mapping found
  have takes : ∀ key tree, (key, tree) ∈ entries → ∀ f, fields.find? (·.key == key) = some f →
      ∀ record, ∃ record', f.store tree record = .ok record' := by
    intro key tree mem f known
    have there := valueAt?_of_mem nodup mem
    obtain rfl : f.key = key := by simpa using List.find?_some known
    rcases entry f.key with ⟨absent, -⟩ | ⟨tree', there', kept, found⟩
    · rw [absent] at there
      cases there
    · obtain rfl := Option.some.inj (there.symm.trans there')
      obtain ⟨text, flag⟩ := decode_of_kept kept found
      rcases text_or_active f (List.mem_of_find?_eq_some known) with ⟨part, mem⟩ | active
      · exact (fills_text f.key part mem).takes known
          (eq_ok_of_toOption (text.trans (reads.text f.key part mem)))
      · rw [active] at known flag
        exact fills_active.takes known (eq_ok_of_toOption (flag.trans reads.active))
  -- the record can be read, and what is read is what it says
  obtain ⟨rule', decoded⟩ := Json.exists_decodeFields takes {}
  have read : Rule.ofRecord h v i = .ok rule' :=
    ofRecord_eq_ok_iff.mpr ⟨reads.mapping, _, found, decoded⟩
  rw [read, (reads_of_ofRecord read).unique reads]

/-- A record that can be read says a rule. -/
theorem exists_reads_iff : (∃ rule, Reads h v rule) ↔ Readable h v := by
  constructor
  · rintro ⟨rule, mapping, shallow, text, active⟩
    obtain ⟨desc, gate, condition, consequent, alternate⟩ := forall_textParts.mp text
    exact ⟨mapping, shallow, by simp [desc, gate, condition, consequent, alternate],
      by simp [active]⟩
  · rintro ⟨mapping, shallow, text, active⟩
    simp only [List.forall_mem_cons, Option.isSome_iff_exists] at text active
    obtain ⟨⟨desc, hdesc⟩, ⟨gate, hgate⟩, ⟨condition, hcondition⟩, ⟨consequent, hconsequent⟩,
      ⟨alternate, halternate⟩, -⟩ := text
    obtain ⟨active, hactive⟩ := active
    exact ⟨⟨desc, gate, condition, consequent, alternate, active⟩, mapping, shallow,
      forall_textParts.mpr ⟨hdesc, hgate, hcondition, hconsequent, halternate⟩, hactive⟩

/-- A failure tells the position of the record. -/
theorem ok_or_invalidRule (h : Heap) (v : Value) (i : Nat) :
    (∃ rule, ofRecord h v i = .ok rule) ∨ ∃ fault, ofRecord h v i = .error (.invalidRule i fault) := by
  unfold ofRecord
  split
  · split
    · exact Or.inr ⟨_, rfl⟩
    · split
      · exact Or.inr ⟨_, rfl⟩
      · exact Or.inl ⟨_, rfl⟩
  · exact Or.inr ⟨_, rfl⟩

/-- The record of a rule is a new mapping with its texts and its flag. -/
theorem toRecord_eq (h : Heap) (rule : Rule) :
    ∃ fields : Fields Value,
      rule.toRecord h = (.container h.size, (h.alloc (.mapping fields)).2) ∧ fields.entries =
        [("desc", .string rule.desc), ("context", .string rule.gate),
          ("if", .string rule.condition), ("then", .string rule.consequent),
          ("else", .string rule.alternate), ("active", .bool rule.active)] :=
  ⟨_, rfl, rfl⟩

/-- The record of a rule says the rule. -/
theorem reads_toRecord (h : Heap) (rule : Rule) :
    Reads (rule.toRecord h).2 (rule.toRecord h).1 rule := by
  obtain ⟨fields, made, entries⟩ := toRecord_eq h rule
  have new : (h.alloc (.mapping fields)).2.cell h.size = .mapping fields := by
    rw [Heap.cell_alloc, if_pos rfl]
  have looked key : (h.alloc (.mapping fields)).2.lookup (.container h.size) key =
      (valueAt? key fields.entries).getD .undefined := by
    rw [Heap.lookup_container, new]
    rfl
  rw [made]
  refine ⟨?_, nestsWithin_iff.mp ?_, forall_textParts.mpr ⟨?_, ?_, ?_, ?_, ?_⟩, ?_⟩
  case refine_1 => simp [Heap.kind, new]
  case refine_2 =>
    refine Heap.nestsWithin_container.mpr fun w held => .of_leaf ?_
    rw [new, Cell.children, entries] at held
    simp only [List.map_cons, List.map_nil, List.mem_cons, List.not_mem_nil, or_false] at held
    rcases held with rfl | rfl | rfl | rfl | rfl | rfl <;> rfl
  all_goals
    rw [looked, entries]
    rfl

/-- **Rule records are read exactly.** A record is read if it is a mapping that does not nest deeper
than the limit and has in each field what can be read or nothing, and then as the one rule that it
says. A failure tells the position of the record. The record made of a rule is read as this rule. -/
theorem ofRecord_exact :
    (∀ h v i, (∃ rule, ofRecord h v i = .ok rule) ↔ Readable h v) ∧
      (∀ h v i rule, ofRecord h v i = .ok rule ↔ Reads h v rule) ∧
      (∀ h v i, (∃ rule, ofRecord h v i = .ok rule) ∨
        ∃ fault, ofRecord h v i = .error (.invalidRule i fault)) ∧
      ∀ h rule i, ofRecord (toRecord h rule).2 (toRecord h rule).1 i = .ok rule := by
  have exact (h v i rule) : ofRecord h v i = .ok rule ↔ Reads h v rule :=
    ⟨reads_of_ofRecord, fun reads => reads.ofRecord i⟩
  refine ⟨fun h v i => ?_, exact, ok_or_invalidRule, fun h rule i => ?_⟩
  · rw [← exists_reads_iff]
    exact exists_congr (exact h v i)
  · exact (reads_toRecord h rule).ofRecord i

end Rule

end FormLogic
