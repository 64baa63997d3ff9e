import FormLogic.Expr.Parser

/-!
# `FormLogic.Proofs.Expr.Replies` — what parsers answer to known characters

Where the characters ahead are known, so is the answer of a parser. There is one rule for each way in
which parsers are put together, for the answers with a value and for the failures that let another
way of reading be tried.

## Contents
- `Misses`: recoverable failures, with `Misses.bind` and `Misses.orElse`.
- `bind_ok`, `optional_ok`, `found_ok`, `orElse_ok`, `commit_ok`, `describe_ok`: values.
- `bind_eq_ok`, `optional_eq_ok`, `orElse_eq_ok`: what an answer says of the answers it is put
  together from.
- `span_append`, `span1_append`, `token_ok`, `token_misses`: characters and tokens.
- `sepBy_nil`, `sepBy_one`, `sepBy_ok`: elements with commas between them.
-/

namespace FormLogic.Parser

variable {α β : Type} {p q : Parser α} {f : α → Parser β} {cs rest : List Char} {a : α}
  {b : β} {good : Char → Bool}

/-- The parser fails on the characters, but another way of reading them may be tried. -/
def Misses (p : Parser α) (cs : List Char) : Prop :=
  ∃ failure rest, p cs = .fail failure rest ∧ failure.committed = false

/-! ## Structure -/

/-- After a value the next parser goes on. -/
theorem bind_ok (first : p cs = .ok a rest) (f : α → Parser β) : (p >>= f) cs = f a rest := by
  simp only [Bind.bind, first]

theorem Misses.bind (first : Misses p cs) (f : α → Parser β) : Misses (p >>= f) cs := by
  obtain ⟨failure, rest, fails, free⟩ := first
  refine ⟨failure, rest, ?_, free⟩
  simp only [Bind.bind, fails]

/-- White space in front is passed over. -/
theorem blank_bind (f : Unit → Parser β) (cs : List Char) :
    (blank >>= f) cs = f () (cs.dropWhile Text.isBlank) :=
  rfl

/-- A value in front does not help where the next parser fails. -/
theorem Misses.bind_ok (first : p cs = .ok a rest) (second : Misses (f a) rest) :
    Misses (p >>= f) cs := by
  obtain ⟨failure, rest', fails, free⟩ := second
  exact ⟨failure, rest', (Parser.bind_ok first f).trans fails, free⟩

/-! ## Failures and choices -/

theorem commit_ok (read : p cs = .ok a rest) : commit p cs = .ok a rest := by
  unfold commit
  rw [read]

theorem describe_ok (what : String) (read : p cs = .ok a rest) :
    describe what p cs = .ok a rest := by
  unfold describe
  rw [read]

theorem optional_ok (read : p cs = .ok a rest) : optional p cs = .ok (some a) rest := by
  unfold optional
  rw [read]

theorem optional_misses (misses : Misses p cs) : optional p cs = .ok none cs := by
  obtain ⟨failure, rest, fails, free⟩ := misses
  unfold optional
  simp only [fails, free, Bool.false_eq_true, if_false]

theorem found_ok (read : p cs = .ok a rest) : found p cs = .ok true rest :=
  bind_ok (optional_ok read) _

theorem found_misses (misses : Misses p cs) : found p cs = .ok false cs :=
  bind_ok (optional_misses misses) _

theorem orElse_ok (q : Parser α) (read : p cs = .ok a rest) : orElse p q cs = .ok a rest := by
  unfold orElse
  rw [read]

theorem orElse_misses (misses : Misses p cs) (q : Parser α) : orElse p q cs = q cs := by
  obtain ⟨failure, rest, fails, free⟩ := misses
  unfold orElse
  simp only [fails, free, Bool.false_eq_true, if_false]

theorem Misses.orElse (one : Misses p cs) (other : Misses q cs) : Misses (Parser.orElse p q) cs := by
  obtain ⟨failure, rest, fails, free⟩ := other
  exact ⟨failure, rest, (orElse_misses one q).trans fails, free⟩

/-- The way on where something is read. -/
theorem ifFound_ok {yes no : Parser β} (read : p cs = .ok a rest) :
    (found p >>= fun b => if b = true then yes else no) cs = yes rest :=
  bind_ok (found_ok read) _

/-- The way on where nothing is read. -/
theorem ifFound_misses {yes no : Parser β} (misses : Misses p cs) :
    (found p >>= fun b => if b = true then yes else no) cs = no cs :=
  bind_ok (found_misses misses) _

/-! ## What an answer says of the parts -/

theorem bind_eq_ok (read : (p >>= f) cs = .ok b rest) :
    ∃ a between, p cs = .ok a between ∧ f a between = .ok b rest := by
  simp only [Bind.bind] at read
  split at read
  · next a between reply => exact ⟨a, between, reply, read⟩
  · cases read

/-- Where two parsers miss, the first one does, or the second one does behind it. -/
theorem Misses.of_bind (misses : Misses (p >>= f) cs) :
    Misses p cs ∨ ∃ a between, p cs = .ok a between ∧ Misses (f a) between := by
  obtain ⟨failure, rest, fails, free⟩ := misses
  simp only [Bind.bind] at fails
  split at fails
  · next a between reply => exact .inr ⟨a, between, reply, failure, rest, fails, free⟩
  · next reply =>
    cases fails
    exact .inl ⟨_, _, reply, free⟩

theorem commit_eq_ok (read : commit p cs = .ok a rest) : p cs = .ok a rest := by
  unfold commit at read
  split at read
  · next reply => exact reply.trans read
  · cases read

theorem not_misses_commit (p : Parser α) (cs : List Char) : ¬ Misses (commit p) cs := by
  rintro ⟨failure, rest, fails, free⟩
  unfold commit at fails
  split at fails
  · cases fails
  · cases fails
    cases free

theorem describe_eq_ok {what : String} (read : describe what p cs = .ok a rest) :
    p cs = .ok a rest := by
  unfold describe at read
  split at read
  · next reply => exact reply.trans read
  · cases read

theorem misses_describe {what : String} : Misses (describe what p) cs ↔ Misses p cs := by
  unfold Misses describe
  cases p cs with
  | ok a rest => simp
  | fail failure rest => simp

theorem optional_eq_ok {found : Option α} (read : optional p cs = .ok found rest) :
    (∃ a, found = some a ∧ p cs = .ok a rest) ∨ (found = none ∧ rest = cs ∧ Misses p cs) := by
  unfold optional at read
  cases reply : p cs with
  | ok a between =>
    rw [reply] at read
    cases read
    exact .inl ⟨a, rfl, rfl⟩
  | fail failure between =>
    simp only [reply] at read
    split at read
    · cases read
    · next free =>
      cases read
      exact .inr ⟨rfl, rfl, failure, between, reply, Bool.eq_false_iff.mpr free⟩

theorem not_misses_optional (p : Parser α) (cs : List Char) : ¬ Misses (optional p) cs := by
  rintro ⟨failure, rest, fails, free⟩
  unfold optional at fails
  split at fails
  · cases fails
  · split at fails
    · next final =>
      cases fails
      exact absurd final (Bool.eq_false_iff.mp free)
    · cases fails

theorem found_eq_ok {found : Bool} (read : Parser.found p cs = .ok found rest) :
    (found = true ∧ ∃ a, p cs = .ok a rest) ∨ (found = false ∧ rest = cs ∧ Misses p cs) := by
  obtain ⟨option, between, reply, ends⟩ := bind_eq_ok read
  cases ends
  rcases optional_eq_ok reply with ⟨a, rfl, taken⟩ | ⟨rfl, rfl, misses⟩
  · exact .inl ⟨rfl, a, taken⟩
  · exact .inr ⟨rfl, rfl, misses⟩

theorem orElse_eq_ok (read : orElse p q cs = .ok a rest) :
    p cs = .ok a rest ∨ (Misses p cs ∧ q cs = .ok a rest) := by
  unfold orElse at read
  split at read
  · next reply => exact .inl (reply.trans read)
  · next failure between reply =>
    split at read
    · cases read
    · next free => exact .inr ⟨⟨failure, between, reply, Bool.eq_false_iff.mpr free⟩, read⟩

/-- Where a choice misses, both ways do. -/
theorem Misses.of_orElse (misses : Misses (Parser.orElse p q) cs) : Misses p cs ∧ Misses q cs := by
  obtain ⟨failure, rest, fails, free⟩ := misses
  unfold Parser.orElse at fails
  split at fails
  · cases fails
  · next first between reply =>
    split at fails
    · next final =>
      cases fails
      exact absurd final (Bool.eq_false_iff.mp free)
    · next free' =>
      exact ⟨⟨first, between, reply, Bool.eq_false_iff.mpr free'⟩, failure, rest, fails, free⟩

/-! ## Characters -/

theorem refused_of_head {c : Char} (other : (c :: cs).head?.any good = false) :
    ¬ good c = true := by
  rw [Bool.not_eq_true]
  exact other

theorem satisfy_ok {c : Char} (holds : good c = true) (cs : List Char) :
    satisfy good (c :: cs) = .ok c cs :=
  if_pos holds

theorem satisfy_misses (other : cs.head?.any good = false) : Misses (satisfy good) cs := by
  cases cs with
  | nil => exact ⟨bare false, [], rfl, rfl⟩
  | cons c cs => exact ⟨bare false, c :: cs, if_neg (refused_of_head other), rfl⟩

theorem char_ok (c : Char) (cs : List Char) : char c (c :: cs) = .ok c cs :=
  satisfy_ok (beq_self_eq_true c) cs

theorem char_misses {c d : Char} (other : c ≠ d) (cs : List Char) : Misses (char d) (c :: cs) := by
  refine satisfy_misses ?_
  exact beq_eq_false_iff_ne.mpr other

theorem takeWhile_append (all : ∀ c ∈ cs, good c = true) (other : rest.head?.any good = false) :
    (cs ++ rest).takeWhile good = cs := by
  rw [List.takeWhile_append_of_pos all]
  cases rest with
  | nil => exact List.append_nil cs
  | cons c rest => rw [List.takeWhile_cons_of_neg (refused_of_head other), List.append_nil]

theorem dropWhile_eq_self (other : cs.head?.any good = false) : cs.dropWhile good = cs := by
  cases cs with
  | nil => rfl
  | cons c cs => exact List.dropWhile_cons_of_neg (refused_of_head other)

theorem dropWhile_append (all : ∀ c ∈ cs, good c = true) (other : rest.head?.any good = false) :
    (cs ++ rest).dropWhile good = rest := by
  rw [List.dropWhile_append_of_pos all, dropWhile_eq_self other]

theorem span_append (all : ∀ c ∈ cs, good c = true) (other : rest.head?.any good = false) :
    span good (cs ++ rest) = .ok cs rest := by
  unfold span
  rw [takeWhile_append all other, dropWhile_append all other]

theorem span1_append (nonempty : cs ≠ []) (all : ∀ c ∈ cs, good c = true)
    (other : rest.head?.any good = false) : span1 good (cs ++ rest) = .ok cs rest := by
  unfold span1
  rw [takeWhile_append all other, dropWhile_append all other]
  cases cs with
  | nil => exact absurd rfl nonempty
  | cons c cs => rfl

theorem span1_misses (other : cs.head?.any good = false) : Misses (span1 good) cs := by
  refine ⟨bare false, cs, ?_, rfl⟩
  unfold span1
  cases cs with
  | nil => rfl
  | cons c cs => rw [List.takeWhile_cons_of_neg (refused_of_head other)]

/-! ## Tokens -/

theorem token_ok {text : String}
    (ahead : afterFront? text.toList (cs.dropWhile Text.isBlank) = some rest) :
    token text cs = .ok () rest := by
  show literal text (cs.dropWhile Text.isBlank) = _
  unfold literal
  rw [ahead]

theorem token_misses {text : String}
    (other : afterFront? text.toList (cs.dropWhile Text.isBlank) = none) :
    Misses (token text) cs := by
  refine ⟨bare false, cs.dropWhile Text.isBlank, ?_, rfl⟩
  show literal text (cs.dropWhile Text.isBlank) = _
  unfold literal
  rw [other]

/-- Nothing of the table is read. -/
theorem oneOf_misses {table : List (String × α)}
    (each : ∀ entry ∈ table, Misses (token entry.1) cs) : Misses (oneOf table) cs := by
  induction table with
  | nil => exact ⟨_, _, rfl, rfl⟩
  | cons entry table ih =>
    unfold oneOf
    refine .orElse ((each entry List.mem_cons_self).bind _) ?_
    exact ih fun entry mem => each entry (List.mem_cons_of_mem _ mem)

theorem notNext_ok (other : cs.head?.any good = false) : notNext good cs = .ok () cs := by
  cases cs with
  | nil => rfl
  | cons c cs => exact if_neg (refused_of_head other)

/-! ## Elements with commas between them -/

/-- The characters with a comma and a space in front of each text. -/
def afterCommas (texts : List (List Char)) : List Char :=
  texts.flatMap fun text => ',' :: ' ' :: text

theorem intercalate_cons (text : List Char) (texts : List (List Char)) :
    [',', ' '].intercalate (text :: texts) = text ++ afterCommas texts := by
  induction texts generalizing text with
  | nil => rw [List.intercalate_singleton, afterCommas, List.flatMap_nil, List.append_nil]
  | cons other texts ih =>
    rw [List.intercalate_cons_cons, ih, List.append_assoc]
    rfl

section

variable {items : List α} {text : α → List Char} {Next : List Char → Prop}

/-- No further element where the separator is not read. -/
theorem sepByMore_end {separator : Parser β} (misses : Misses separator cs) (steps : Nat)
    (done : List α) : sepByMore p separator steps done cs = .ok done.reverse cs := by
  cases steps with
  | zero => rfl
  | succ steps => exact bind_ok (optional_misses (misses.bind _)) _

/-- Further elements, each behind a comma. -/
theorem sepByMore_ok {steps : Nat} (enough : items.length ≤ steps) (done : List α)
    (reads : ∀ a ∈ items, ∀ cs rest, cs.dropWhile Text.isBlank = text a ++ rest → Next rest →
      p cs = .ok a rest)
    (solid : ∀ a ∈ items, ∀ rest, (text a ++ rest).head?.any Text.isBlank = false)
    (comma : ∀ cs, Next (',' :: cs)) (last : Next rest) (ends : Misses (token ",") rest) :
    sepByMore p (token ",") steps done (afterCommas (items.map text) ++ rest) =
      .ok (done.reverse ++ items) rest := by
  induction items generalizing steps done with
  | nil =>
    rw [List.append_nil]
    exact sepByMore_end ends steps done
  | cons a items ih =>
    cases steps with
    | zero => exact absurd enough (Nat.not_succ_le_zero _)
    | succ steps =>
      -- behind the element stands what follows the list, or the comma of the next element
      have next : Next (afterCommas (items.map text) ++ rest) := by
        cases items with
        | nil => exact last
        | cons b items => exact comma _
      have blank : (' ' :: (text a ++ (afterCommas (items.map text) ++ rest))).dropWhile
          Text.isBlank = text a ++ (afterCommas (items.map text) ++ rest) :=
        dropWhile_eq_self (solid a List.mem_cons_self _)
      have read := reads a List.mem_cons_self _ _ blank next
      have ahead : afterCommas ((a :: items).map text) ++ rest =
          ',' :: ' ' :: (text a ++ (afterCommas (items.map text) ++ rest)) := by
        simp [afterCommas]
      have separated : token "," (',' :: ' ' :: (text a ++ (afterCommas (items.map text) ++ rest))) =
          .ok () (' ' :: (text a ++ (afterCommas (items.map text) ++ rest))) := token_ok rfl
      have more := ih (Nat.le_of_succ_le_succ enough) (a :: done)
        (fun b mem => reads b (List.mem_cons_of_mem _ mem))
        (fun b mem => solid b (List.mem_cons_of_mem _ mem))
      rw [List.reverse_cons, List.append_assoc] at more
      rw [ahead, sepByMore, bind_ok (optional_ok ((bind_ok separated _).trans read))]
      exact more

/-- Elements with commas between them. -/
theorem sepBy_ok (Next : List Char → Prop) {steps : Nat} (a : α) (enough : items.length ≤ steps)
    (reads : ∀ b ∈ a :: items, ∀ cs rest, cs.dropWhile Text.isBlank = text b ++ rest → Next rest →
      p cs = .ok b rest)
    (solid : ∀ b ∈ a :: items, ∀ rest, (text b ++ rest).head?.any Text.isBlank = false)
    (comma : ∀ cs, Next (',' :: cs)) (last : Next rest) (ends : Misses (token ",") rest) :
    sepBy steps p (token ",") ([',', ' '].intercalate ((a :: items).map text) ++ rest) =
      .ok (a :: items) rest := by
  have next : Next (afterCommas (items.map text) ++ rest) := by
    cases items with
    | nil => exact last
    | cons b items => exact comma _
  have read := reads a List.mem_cons_self _ _ (dropWhile_eq_self (solid a List.mem_cons_self _)) next
  rw [List.map_cons, intercalate_cons, List.append_assoc, sepBy, bind_ok (optional_ok read)]
  exact sepByMore_ok enough [a] (fun b mem => reads b (List.mem_cons_of_mem _ mem))
    (fun b mem => solid b (List.mem_cons_of_mem _ mem)) comma last ends

/-- One element, if the separator is not read behind it. -/
theorem sepBy_one {steps : Nat} {separator : Parser β} (read : p cs = .ok a rest)
    (misses : Misses separator rest) : sepBy steps p separator cs = .ok [a] rest :=
  (bind_ok (optional_ok read) _).trans (sepByMore_end misses steps [a])

/-- No element at all. -/
theorem sepBy_nil {steps : Nat} {separator : Parser β} (misses : Misses p cs) :
    sepBy steps p separator cs = .ok [] cs :=
  bind_ok (optional_misses misses) _

end

end FormLogic.Parser
