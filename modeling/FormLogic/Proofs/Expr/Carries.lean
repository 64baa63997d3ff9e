import FormLogic.Proofs.Expr.Replies

/-!
# `FormLogic.Proofs.Expr.Carries` — parsers that a semicolon stops

Most parsers answer to characters in the same way when a semicolon and any text follow them: what
they read they still read, and where another way of reading may be tried it still may. Nothing is
said of a parser that ends the whole parse. The second parser may be another one than the first: a
loop with more rounds answers like one with fewer, as long as there was a round for each character.

## Contents
- `Stop`: the end of a text, or a semicolon with any text behind it.
- `Carries`, with `pure`, `bind`, `mono`, `ite`: the relation and its structure.
- `Carries.satisfy`, `Carries.span`, `Carries.literal`, `Carries.token`: characters.
- `Carries.optional`, `Carries.ifFound`, `Carries.orElse`, `Carries.oneOf`: choices.
- `Takes`, `Progress`, `Carries.round`, `Carries.sepBy`: loops, whose rounds each take a character.
-/

namespace FormLogic.Parser

variable {α β γ : Type} {p q : Parser α} {f : α → Parser β} {cs rest tail : List Char} {a : α} {b : β}

/-! ## The relation -/

/-- A text ends here, or a semicolon follows. -/
inductive Stop : List Char → Prop where
  | finish : Stop []
  | semicolon (rest : List Char) : Stop (';' :: rest)

/-- A class of characters without the semicolon is not met at the stop. -/
theorem Stop.head {good : Char → Bool} (stop : Stop tail) (other : good ';' = false) :
    tail.head?.any good = false := by
  cases stop with
  | finish => rfl
  | semicolon rest => exact other

/-- What `p` answers to no more than `steps` characters, `p'` answers to them with `tail` behind
them. -/
structure Carries (steps : Nat) (tail : List Char) (p p' : Parser α) : Prop where
  /-- A value is read again, and the rest is what it was with `tail` behind it. -/
  value : ∀ {cs a rest}, cs.length ≤ steps → p cs = .ok a rest →
    rest.length ≤ cs.length ∧ p' (cs ++ tail) = .ok a (rest ++ tail)
  /-- Another way of reading may still be tried. -/
  miss : ∀ {cs}, cs.length ≤ steps → Misses p cs → Misses p' (cs ++ tail)

namespace Carries

variable {steps more : Nat} {p' q' : Parser α} {f' : α → Parser β}

/-! ## Structure -/

theorem shorter (carries : Carries steps tail p p') (short : cs.length ≤ steps)
    (read : p cs = .ok a rest) : rest.length ≤ cs.length :=
  (carries.value short read).1

theorem mono (carries : Carries more tail p p') (fewer : steps ≤ more) : Carries steps tail p p' :=
  ⟨fun short => carries.value (Nat.le_trans short fewer),
    fun short => carries.miss (Nat.le_trans short fewer)⟩

theorem pure (a : α) : Carries steps tail (Pure.pure a) (Pure.pure a) := by
  refine ⟨?_, ?_⟩
  · rintro cs b rest - read
    cases read
    exact ⟨Nat.le_refl _, rfl⟩
  · rintro cs - ⟨failure, rest, fails, -⟩
    cases fails

/-- The same failure everywhere. -/
theorem fail (failure : Failure) : Carries steps tail (fun cs => .fail failure cs : Parser α)
    (fun cs => .fail failure cs) := by
  refine ⟨?_, ?_⟩
  · rintro cs b rest - read
    cases read
  · rintro cs - ⟨failure, rest, fails, free⟩
    cases fails
    exact ⟨_, _, rfl, free⟩

/-- The second parser is carried where the first one leaves it. -/
theorem bindAt (first : Carries steps tail p p')
    (next : ∀ {cs a rest}, cs.length ≤ steps → p cs = .ok a rest →
      Carries rest.length tail (f a) (f' a)) : Carries steps tail (p >>= f) (p' >>= f') := by
  refine ⟨?_, ?_⟩
  · intro cs b rest short read
    obtain ⟨a, between, reply, ends⟩ := bind_eq_ok read
    obtain ⟨less, again⟩ := first.value short reply
    obtain ⟨less', again'⟩ := (next short reply).value (Nat.le_refl _) ends
    exact ⟨Nat.le_trans less' less, (bind_ok again f').trans again'⟩
  · intro cs short misses
    rcases misses.of_bind with misses | ⟨a, between, reply, misses⟩
    · exact (first.miss short misses).bind f'
    · obtain ⟨-, again⟩ := first.value short reply
      exact .bind_ok again ((next short reply).miss (Nat.le_refl _) misses)

theorem bind (first : Carries steps tail p p') (next : ∀ a, Carries steps tail (f a) (f' a)) :
    Carries steps tail (p >>= f) (p' >>= f') :=
  first.bindAt fun short read => (next _).mono (Nat.le_trans (first.shorter short read) short)

theorem ite {c : Prop} [Decidable c] (yes : Carries steps tail p p') (no : Carries steps tail q q') :
    Carries steps tail (if c then p else q) (if c then p' else q') := by
  by_cases holds : c
  · rw [if_pos holds, if_pos holds]
    exact yes
  · rw [if_neg holds, if_neg holds]
    exact no

/-! ## Characters -/

theorem satisfy {good : Char → Bool} (stop : Stop tail) (other : good ';' = false) :
    Carries steps tail (Parser.satisfy good) (Parser.satisfy good) := by
  refine ⟨?_, ?_⟩
  · intro cs a rest short read
    cases cs with
    | nil => cases read
    | cons c cs =>
      by_cases taken : good c = true
      · cases (satisfy_ok taken cs).symm.trans read
        exact ⟨Nat.le_succ _, satisfy_ok taken _⟩
      · have other : (c :: cs).head?.any good = false := Bool.eq_false_iff.mpr taken
        obtain ⟨_, _, fails, -⟩ := satisfy_misses other
        cases fails.symm.trans read
  · intro cs short misses
    refine satisfy_misses ?_
    cases cs with
    | nil => exact stop.head other
    | cons c cs =>
      refine Bool.eq_false_iff.mpr fun taken => ?_
      obtain ⟨_, _, fails, -⟩ := misses
      cases (satisfy_ok taken cs).symm.trans fails

theorem char {c : Char} (stop : Stop tail) (other : c ≠ ';') :
    Carries steps tail (Parser.char c) (Parser.char c) :=
  satisfy stop (beq_eq_false_iff_ne.mpr other.symm)

theorem takeWhile_stop {good : Char → Bool} (stop : Stop tail) (other : good ';' = false)
    (cs : List Char) : (cs ++ tail).takeWhile good = cs.takeWhile good := by
  induction cs with
  | nil =>
    cases stop with
    | finish => rfl
    | semicolon rest => exact List.takeWhile_cons_of_neg (Bool.eq_false_iff.mp other)
  | cons c cs ih => simp only [List.cons_append, List.takeWhile_cons, ih]

theorem dropWhile_stop {good : Char → Bool} (stop : Stop tail) (other : good ';' = false)
    (cs : List Char) : (cs ++ tail).dropWhile good = cs.dropWhile good ++ tail := by
  induction cs with
  | nil => exact dropWhile_eq_self (stop.head other)
  | cons c cs ih =>
    simp only [List.cons_append, List.dropWhile_cons, ih]
    split
    · rfl
    · rfl

theorem span {good : Char → Bool} (stop : Stop tail) (other : good ';' = false) :
    Carries steps tail (Parser.span good) (Parser.span good) := by
  refine ⟨?_, ?_⟩
  · rintro cs a rest - read
    cases read
    refine ⟨(List.dropWhile_suffix good).length_le, ?_⟩
    unfold Parser.span
    rw [takeWhile_stop stop other, dropWhile_stop stop other]
  · rintro cs - ⟨failure, rest, fails, -⟩
    cases fails

theorem span1 {good : Char → Bool} (stop : Stop tail) (other : good ';' = false) :
    Carries steps tail (Parser.span1 good) (Parser.span1 good) := by
  refine ⟨?_, ?_⟩
  · intro cs a rest short read
    unfold Parser.span1 at read ⊢
    rw [takeWhile_stop stop other, dropWhile_stop stop other]
    split at read
    · cases read
    · cases read
      exact ⟨(List.dropWhile_suffix good).length_le, rfl⟩
  · rintro cs - ⟨failure, rest, fails, free⟩
    refine span1_misses ?_
    cases cs with
    | nil => exact stop.head other
    | cons c cs =>
      refine Bool.eq_false_iff.mpr fun taken : good c = true => ?_
      unfold Parser.span1 at fails
      rw [List.takeWhile_cons_of_pos taken] at fails
      cases fails

theorem blank (stop : Stop tail) : Carries steps tail Parser.blank Parser.blank := by
  refine ⟨?_, ?_⟩
  · rintro cs a rest - read
    cases read
    refine ⟨(List.dropWhile_suffix _).length_le, ?_⟩
    exact congrArg (Reply.ok ()) (dropWhile_stop stop (by decide) cs)
  · rintro cs - ⟨failure, rest, fails, -⟩
    cases fails

theorem afterFront?_stop {front : List Char} (stop : Stop tail) (other : ';' ∉ front)
    (cs : List Char) : afterFront? front (cs ++ tail) = (afterFront? front cs).map (· ++ tail) := by
  induction front generalizing cs with
  | nil => rfl
  | cons c front ih =>
    rw [List.mem_cons, not_or] at other
    cases cs with
    | nil =>
      cases stop with
      | finish => rfl
      | semicolon rest => exact if_neg fun same : c = ';' => other.1 same.symm
    | cons d cs =>
      simp only [List.cons_append, afterFront?]
      split
      · exact ih other.2 cs
      · rfl

theorem afterFront?_length {front : List Char} (ahead : afterFront? front cs = some rest) :
    cs.length = front.length + rest.length := by
  induction front generalizing cs with
  | nil =>
    cases ahead
    exact (Nat.zero_add _).symm
  | cons c front ih =>
    cases cs with
    | nil => cases ahead
    | cons d cs =>
      unfold afterFront? at ahead
      split at ahead
      · simp only [List.length_cons, ih ahead]
        omega
      · cases ahead

theorem literal {text : String} (stop : Stop tail) (other : ';' ∉ text.toList) :
    Carries steps tail (Parser.literal text) (Parser.literal text) := by
  refine ⟨?_, ?_⟩
  · intro cs a rest short read
    unfold Parser.literal at read ⊢
    rw [afterFront?_stop stop other]
    split at read
    · next rest ahead =>
      cases read
      have length := afterFront?_length ahead
      exact ⟨by omega, by rw [ahead]; rfl⟩
    · cases read
  · rintro cs - ⟨failure, rest, fails, free⟩
    unfold Parser.literal at fails
    split at fails
    · cases fails
    · next none =>
      refine ⟨bare false, cs ++ tail, ?_, rfl⟩
      unfold Parser.literal
      rw [afterFront?_stop stop other, none]
      rfl

theorem token {text : String} (stop : Stop tail) (other : ';' ∉ text.toList) :
    Carries steps tail (Parser.token text) (Parser.token text) :=
  (blank stop).bind fun _ => literal stop other

theorem notNext {good : Char → Bool} (stop : Stop tail) (other : good ';' = false) :
    Carries steps tail (Parser.notNext good) (Parser.notNext good) := by
  refine ⟨?_, ?_⟩
  · intro cs a rest short read
    cases cs with
    | nil =>
      cases read
      exact ⟨Nat.le_refl _, notNext_ok (stop.head other)⟩
    | cons c cs =>
      by_cases stopped : good c = true
      · cases (if_pos stopped).symm.trans read
      · cases (if_neg stopped).symm.trans read
        exact ⟨Nat.le_refl _, if_neg stopped⟩
  · rintro cs - ⟨failure, rest, fails, free⟩
    cases cs with
    | nil => cases fails
    | cons c cs =>
      by_cases stopped : good c = true
      · exact ⟨bare false, c :: cs ++ tail, if_pos stopped, rfl⟩
      · cases (if_neg stopped).symm.trans fails

/-! ## Failures and choices -/

theorem commit (carries : Carries steps tail p p') :
    Carries steps tail (Parser.commit p) (Parser.commit p') := by
  refine ⟨fun short read => ?_, fun _ misses => absurd misses (not_misses_commit _ _)⟩
  obtain ⟨less, again⟩ := carries.value short (commit_eq_ok read)
  exact ⟨less, commit_ok again⟩

theorem describe {what : String} (carries : Carries steps tail p p') :
    Carries steps tail (Parser.describe what p) (Parser.describe what p') := by
  refine ⟨fun short read => ?_, fun short misses => ?_⟩
  · obtain ⟨less, again⟩ := carries.value short (describe_eq_ok read)
    exact ⟨less, describe_ok what again⟩
  · exact misses_describe.mpr (carries.miss short (misses_describe.mp misses))

theorem optional (carries : Carries steps tail p p') :
    Carries steps tail (Parser.optional p) (Parser.optional p') := by
  refine ⟨fun short read => ?_, fun _ misses => absurd misses (not_misses_optional _ _)⟩
  rcases optional_eq_ok read with ⟨a, rfl, reply⟩ | ⟨rfl, rfl, misses⟩
  · obtain ⟨less, again⟩ := carries.value short reply
    exact ⟨less, optional_ok again⟩
  · exact ⟨Nat.le_refl _, optional_misses (carries.miss short misses)⟩

theorem found (carries : Carries steps tail p p') :
    Carries steps tail (Parser.found p) (Parser.found p') :=
  carries.optional.bind fun _ => pure _

/-- One way on if something is read here, and another if not. -/
theorem ifFound {yes no yes' no' : Parser β} (carries : Carries steps tail p p')
    (there : Carries steps tail yes yes') (here : Carries steps tail no no') :
    Carries steps tail (Parser.found p >>= fun b => if b = true then yes else no)
      (Parser.found p' >>= fun b => if b = true then yes' else no') :=
  carries.found.bind fun _ => there.ite here

theorem orElse (one : Carries steps tail p p') (other : Carries steps tail q q') :
    Carries steps tail (Parser.orElse p q) (Parser.orElse p' q') := by
  refine ⟨fun short read => ?_, fun short misses => ?_⟩
  · rcases orElse_eq_ok read with reply | ⟨misses, reply⟩
    · obtain ⟨less, again⟩ := one.value short reply
      exact ⟨less, orElse_ok q' again⟩
    · obtain ⟨less, again⟩ := other.value short reply
      exact ⟨less, (orElse_misses (one.miss short misses) q').trans again⟩
  · exact (one.miss short misses.of_orElse.1).orElse (other.miss short misses.of_orElse.2)

theorem oneOf {table : List (String × α)} (stop : Stop tail)
    (other : ∀ entry ∈ table, ';' ∉ entry.1.toList) :
    Carries steps tail (Parser.oneOf table) (Parser.oneOf table) := by
  induction table with
  | nil => exact fail _
  | cons entry table ih =>
    unfold Parser.oneOf
    refine orElse ((token stop (other entry List.mem_cons_self)).bind fun _ => pure _) ?_
    exact ih fun entry mem => other entry (List.mem_cons_of_mem _ mem)

end Carries

/-! ## Loops -/

/-- What is read is at least one character. -/
def Takes (p : Parser α) : Prop :=
  ∀ cs a rest, p cs = .ok a rest → rest.length < cs.length

theorem Takes.map (takes : Takes p) (g : α → β) : Takes (p >>= fun a => pure (g a)) := by
  intro cs b rest read
  obtain ⟨a, between, reply, ends⟩ := bind_eq_ok read
  cases ends
  exact takes _ _ _ reply

theorem Takes.token {text : String} (nonempty : text.toList ≠ []) : Takes (token text) := by
  intro cs a rest read
  obtain ⟨_, between, reply, ends⟩ := bind_eq_ok read
  cases reply
  have passed := (List.dropWhile_suffix (l := cs) Text.isBlank).length_le
  unfold literal at ends
  split at ends
  · next ahead =>
    cases ends
    have length := Carries.afterFront?_length ahead
    have some := List.length_pos_iff.mpr nonempty
    omega
  · cases ends

theorem Takes.oneOf {table : List (String × α)} (nonempty : ∀ entry ∈ table, entry.1.toList ≠ []) :
    Takes (oneOf table) := by
  induction table with
  | nil =>
    intro cs a rest read
    cases read
  | cons entry table ih =>
    intro cs a rest read
    rcases orElse_eq_ok read with reply | ⟨-, reply⟩
    · exact (Takes.token (nonempty entry List.mem_cons_self)).map _ _ _ _ reply
    · exact ih (fun entry mem => nonempty entry (List.mem_cons_of_mem _ mem)) _ _ _ reply

/-- Of no more than `steps` characters at least one is read, if anything is. -/
def Progress (steps : Nat) (p : Parser (Option γ)) : Prop :=
  ∀ cs c rest, cs.length ≤ steps → p cs = .ok (some c) rest → rest.length < cs.length

section

variable {steps more : Nat} {p' : Parser α} {f' : α → Parser β}

theorem Progress.none : Progress steps (pure none : Parser (Option γ)) := by
  intro cs c rest _ read
  cases read

theorem Progress.optional (takes : Takes p) : Progress steps (Parser.optional p) := by
  intro cs a rest short read
  rcases optional_eq_ok read with ⟨b, same, reply⟩ | ⟨⟨⟩, -⟩
  exact takes _ _ _ reply

theorem Progress.optional_bind {f : α → Parser β} (takes : Takes p)
    (next : ∀ a, Carries steps tail (f a) (f' a)) : Progress steps (Parser.optional (p >>= f)) := by
  intro cs b rest short read
  rcases optional_eq_ok read with ⟨b, same, reply⟩ | ⟨⟨⟩, -⟩
  obtain ⟨a, between, first, second⟩ := bind_eq_ok reply
  have less := takes _ _ _ first
  exact Nat.lt_of_le_of_lt
    ((next a).shorter (Nat.le_trans (Nat.le_of_lt less) short) second) less

theorem Progress.ifFound {yes no yes' : Parser (Option γ)} (takes : Takes p)
    (there : Carries steps tail yes yes') (here : Progress steps no) :
    Progress steps (found p >>= fun b => if b = true then yes else no) := by
  intro cs c rest short read
  obtain ⟨b, between, reply, ends⟩ := bind_eq_ok read
  rcases found_eq_ok reply with ⟨rfl, a, reply⟩ | ⟨rfl, rfl, -⟩
  · have less := takes _ _ _ reply
    exact Nat.lt_of_le_of_lt
      (there.shorter (Nat.le_trans (Nat.le_of_lt less) short) ends) less
  · exact here _ _ _ short ends

/-- No round is left where no character is, and the other loop ends at the stop as well. -/
theorem Carries.spent {a : α} (ends : p' tail = .ok a tail) : Carries 0 tail (Pure.pure a) p' := by
  refine ⟨?_, ?_⟩
  · intro cs b rest short read
    obtain rfl := List.length_eq_zero_iff.mp (Nat.le_zero.mp short)
    cases read
    exact ⟨Nat.le_refl _, ends⟩
  · rintro cs - ⟨failure, rest, fails, -⟩
    cases fails

/-- One round of a loop: it ends where nothing is read, and goes on with fewer characters where
something is. -/
theorem Carries.round {p p' : Parser (Option γ)} {f f' : Option γ → Parser β}
    (first : Carries (steps + 1) tail p p') (progress : Progress (steps + 1) p)
    (ends : Carries (steps + 1) tail (f none) (f' none))
    (next : ∀ c, Carries steps tail (f (some c)) (f' (some c))) :
    Carries (steps + 1) tail (p >>= f) (p' >>= f') := by
  refine first.bindAt fun {cs found rest} short read => ?_
  cases found with
  | none => exact ends.mono (Nat.le_trans (first.shorter short read) short)
  | some c => exact (next c).mono (Nat.le_of_lt_succ (Nat.lt_of_lt_of_le (progress _ _ _ short read) short))

variable {separator separator' : Parser γ}

theorem Carries.sepByMore (elem : Carries steps tail p p')
    (apart : Carries steps tail separator separator') (takes : Takes separator)
    (misses : Misses separator []) {rounds rounds' : Nat} (few : rounds ≤ steps)
    (fewer : rounds ≤ rounds') (done : List α) :
    Carries rounds tail (Parser.sepByMore p separator rounds done)
      (Parser.sepByMore p' separator' rounds' done) := by
  induction rounds generalizing rounds' done with
  | zero => exact .spent (sepByMore_end (apart.miss (Nat.zero_le _) misses) _ _)
  | succ rounds ih =>
    obtain ⟨rounds', rfl⟩ := Nat.exists_eq_add_of_le' (Nat.le_trans (Nat.le_add_left 1 _) fewer)
    have elem' := elem.mono few
    refine .round ((apart.mono few).bind fun _ => elem').optional
      (.optional_bind takes fun _ => elem') (pure _) fun a => ?_
    exact ih (Nat.le_of_succ_le few) (Nat.le_of_succ_le_succ fewer) _

theorem Carries.sepBy (elem : Carries steps tail p p')
    (apart : Carries steps tail separator separator') (takes : Takes separator)
    (misses : Misses separator []) (fewer : steps ≤ more) :
    Carries steps tail (Parser.sepBy steps p separator) (Parser.sepBy more p' separator') := by
  refine elem.optional.bind fun found => ?_
  cases found with
  | none => exact pure _
  | some a => exact elem.sepByMore apart takes misses (Nat.le_refl _) fewer [a]

end

end FormLogic.Parser
