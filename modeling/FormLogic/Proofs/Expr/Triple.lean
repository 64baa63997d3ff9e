import FormLogic.Proofs.Expr.Replies

/-!
# `FormLogic.Proofs.Expr.Triple` — what a parser leaves when it succeeds

A triple says of a parser: started where `P` holds of the characters ahead, it can only succeed with
a value and a rest of which `Q` holds. There is one rule for each way in which parsers are put
together. A choice that fails recoverably goes on from where it started, so what held there still
holds.

## Contents
- `Triple`, with `pure`, `bind`, `never`, `mono`: the relation and its structure.
- `Triple.satisfy`, `Triple.span`, `Triple.literal`, `Triple.token`: characters.
- `Triple.optional`, `Triple.ifFound`, `Triple.orElse`, `Triple.oneOf`, `Triple.sepBy`: choices and
  repetition.
-/

namespace FormLogic.Parser

variable {α β : Type}

/-- Where `P` holds of what is ahead, `p` succeeds only with a value and a rest in `Q`. -/
def Triple (P : List Char → Prop) (p : Parser α) (Q : α → List Char → Prop) : Prop :=
  ∀ cs a rest, P cs → p cs = .ok a rest → Q a rest

namespace Triple

variable {P P' : List Char → Prop} {Q Q' : α → List Char → Prop} {R : β → List Char → Prop}
  {p q : Parser α}

/-! ## Structure -/

theorem pure {a : α} (here : ∀ cs, P cs → Q a cs) : Triple P (Pure.pure a) Q := by
  intro cs b rest holds ends
  cases ends
  exact here cs holds

theorem bind {f : α → Parser β} (first : Triple P p Q) (next : ∀ a, Triple (Q a) (f a) R) :
    Triple P (p >>= f) R := by
  intro cs b rest holds ends
  cases reply : p cs with
  | ok a between =>
    simp only [Bind.bind, reply] at ends
    exact next a between b rest (first cs a between holds reply) ends
  | fail failure between =>
    simp only [Bind.bind, reply] at ends
    cases ends

/-- A parser that never succeeds leaves what you like. -/
theorem never (fails : ∀ cs, ∃ failure rest, p cs = .fail failure rest) : Triple P p Q := by
  intro cs a rest _ ends
  obtain ⟨failure, rest', fails⟩ := fails cs
  cases fails.symm.trans ends

theorem mono (triple : Triple P p Q) (before : ∀ cs, P' cs → P cs)
    (after : ∀ a cs, Q a cs → Q' a cs) : Triple P' p Q' :=
  fun cs a rest holds ends => after a rest (triple cs a rest (before cs holds) ends)

theorem after (triple : Triple P p Q) (weaker : ∀ a cs, Q a cs → Q' a cs) : Triple P p Q' :=
  triple.mono (fun _ holds => holds) weaker

/-- What is known without looking at the characters can be known throughout. -/
theorem fact {known : Prop} (triple : known → Triple P p Q) :
    Triple (fun cs => known ∧ P cs) p Q :=
  fun cs a rest holds ends => triple holds.1 cs a rest holds.2 ends

/-- What a parser leaves in two ways it leaves at once. -/
theorem and (one : Triple P p Q) (other : Triple P p Q') :
    Triple P p fun a rest => Q a rest ∧ Q' a rest :=
  fun cs a rest holds ends => ⟨one cs a rest holds ends, other cs a rest holds ends⟩

theorem ite {c : Prop} [Decidable c] (yes : c → Triple P p Q) (no : ¬ c → Triple P q Q) :
    Triple P (if c then p else q) Q := by
  by_cases holds : c
  · rw [if_pos holds]
    exact yes holds
  · rw [if_neg holds]
    exact no holds

/-! ## Characters -/

theorem satisfy {good : Char → Bool} {Q : Char → List Char → Prop}
    (next : ∀ c cs, P (c :: cs) → good c = true → Q c cs) : Triple P (Parser.satisfy good) Q := by
  intro cs a rest holds ends
  cases cs with
  | nil => cases ends
  | cons c cs =>
    have ends : (if good c then Reply.ok c cs else .fail (bare false) (c :: cs)) = .ok a rest := ends
    by_cases taken : good c = true
    · rw [if_pos taken] at ends
      cases ends
      exact next _ _ holds taken
    · rw [if_neg taken] at ends
      cases ends

theorem span {good : Char → Bool} {Q : List Char → List Char → Prop}
    (next : ∀ cs, P cs → Q (cs.takeWhile good) (cs.dropWhile good)) :
    Triple P (Parser.span good) Q := by
  intro cs a rest holds ends
  cases ends
  exact next cs holds

theorem span1 {good : Char → Bool} {Q : List Char → List Char → Prop}
    (next : ∀ cs, P cs → Q (cs.takeWhile good) (cs.dropWhile good)) :
    Triple P (Parser.span1 good) Q := by
  intro cs a rest holds ends
  unfold Parser.span1 at ends
  split at ends
  · cases ends
  · cases ends
    exact next cs holds

theorem blank {Q : Unit → List Char → Prop} (next : ∀ cs, P cs → Q () (cs.dropWhile Text.isBlank)) :
    Triple P Parser.blank Q := by
  intro cs a rest holds ends
  cases ends
  exact next cs holds

theorem afterFront?_eq_some {front cs rest : List Char} (found : afterFront? front cs = some rest) :
    cs = front ++ rest := by
  induction front generalizing cs with
  | nil => exact Option.some.inj found
  | cons c front ih =>
    cases cs with
    | nil => cases found
    | cons d cs =>
      unfold afterFront? at found
      split at found
      · next same => rw [same, ih found, List.cons_append]
      · cases found

theorem literal {text : String} {Q : Unit → List Char → Prop}
    (next : ∀ cs, P (text.toList ++ cs) → Q () cs) : Triple P (Parser.literal text) Q := by
  intro cs a rest holds ends
  unfold Parser.literal at ends
  split at ends
  · next found =>
    cases ends
    exact next _ (afterFront?_eq_some found ▸ holds)
  · cases ends

theorem notNext {good : Char → Bool} {Q : Unit → List Char → Prop} (next : ∀ cs, P cs → Q () cs) :
    Triple P (Parser.notNext good) Q := by
  intro cs a rest holds ends
  unfold Parser.notNext at ends
  split at ends
  · cases ends
    exact next _ holds
  · split at ends
    · cases ends
    · cases ends
      exact next _ holds

theorem atEnd {Q : Bool → List Char → Prop} (next : ∀ b cs, P cs → Q b cs) :
    Triple P Parser.atEnd Q := by
  intro cs a rest holds ends
  cases ends
  exact next _ _ holds

/-! ## Failures and choices -/

theorem commit (triple : Triple P p Q) : Triple P (Parser.commit p) Q := by
  intro cs a rest holds ends
  unfold Parser.commit at ends
  split at ends
  · next reply =>
    cases ends
    exact triple cs _ _ holds reply
  · cases ends

theorem describe {what : String} (triple : Triple P p Q) : Triple P (Parser.describe what p) Q := by
  intro cs a rest holds ends
  unfold Parser.describe at ends
  split at ends
  · next reply =>
    cases ends
    exact triple cs _ _ holds reply
  · cases ends

theorem optional {Q : Option α → List Char → Prop} (some : Triple P p fun a => Q (some a))
    (none : ∀ cs, P cs → Q none cs) : Triple P (Parser.optional p) Q := by
  intro cs a rest holds ends
  unfold Parser.optional at ends
  split at ends
  · next reply =>
    cases ends
    exact some cs _ _ holds reply
  · split at ends
    · cases ends
    · cases ends
      exact none _ holds

theorem found {Q : Bool → List Char → Prop} (yes : Triple P p fun _ => Q true)
    (no : ∀ cs, P cs → Misses p cs → Q false cs) : Triple P (Parser.found p) Q := by
  intro cs b rest holds ends
  rcases found_eq_ok ends with ⟨rfl, a, read⟩ | ⟨rfl, rfl, misses⟩
  · exact yes cs a rest holds read
  · exact no _ holds misses

/-- One way on if something is read here, and another where it is known to be missing. -/
theorem ifFound_or_misses {T : List Char → Prop} {yes no : Parser β}
    (taken : Triple P p fun _ => T) (there : Triple T yes R)
    (here : Triple (fun cs => P cs ∧ Misses p cs) no R) :
    Triple P (Parser.found p >>= fun b => if b = true then yes else no) R := by
  refine bind (Q := fun b cs => if b = true then T cs else P cs ∧ Misses p cs)
    (found (taken.after fun _ _ holds => holds) fun _ holds misses => ⟨holds, misses⟩) fun b => ?_
  cases b with
  | true => exact there
  | false => exact here

/-- One way on if something is read here, and another if not. -/
theorem ifFound {T : List Char → Prop} {yes no : Parser β} (taken : Triple P p fun _ => T)
    (there : Triple T yes R) (here : Triple P no R) :
    Triple P (Parser.found p >>= fun b => if b = true then yes else no) R :=
  ifFound_or_misses taken there (here.mono (fun _ holds => holds.1) fun _ _ holds => holds)

theorem orElse (one : Triple P p Q) (other : Triple P q Q) : Triple P (Parser.orElse p q) Q := by
  intro cs a rest holds ends
  unfold Parser.orElse at ends
  split at ends
  · next reply =>
    cases ends
    exact one cs _ _ holds reply
  · split at ends
    · cases ends
    · exact other cs _ _ holds ends

/-- Each token of the table leaves its meaning. -/
theorem oneOf {table : List (String × α)}
    (each : ∀ entry ∈ table, Triple P (token entry.1) fun _ => Q entry.2) :
    Triple P (Parser.oneOf table) Q := by
  induction table with
  | nil => exact never fun cs => ⟨_, _, rfl⟩
  | cons entry table ih =>
    unfold Parser.oneOf
    refine orElse (bind (each entry List.mem_cons_self) fun _ => pure fun _ holds => holds) ?_
    exact ih fun entry mem => each entry (List.mem_cons_of_mem _ mem)

/-! ## Repetition -/

section

variable {S : List Char → Prop} {A : α → Prop} {separator : Parser β}

theorem sepByMore (elem : Triple P p fun a rest => A a ∧ S rest)
    (apart : Triple S separator fun _ => P) (steps : Nat) {done : List α} (known : ∀ a ∈ done, A a) :
    Triple S (Parser.sepByMore p separator steps done) fun all rest => (∀ a ∈ all, A a) ∧ S rest := by
  have reversed : ∀ a ∈ done.reverse, A a := fun a mem => known a (List.mem_reverse.mp mem)
  induction steps generalizing done with
  | zero => exact pure fun _ holds => ⟨reversed, holds⟩
  | succ steps ih =>
    unfold Parser.sepByMore
    refine bind (Q := fun a rest => (∀ b ∈ a, A b) ∧ S rest) ?_ fun a => ?_
    · refine optional ((bind apart fun _ => elem).after ?_) fun _ holds => ⟨by simp, holds⟩
      rintro a cs ⟨good, holds⟩
      exact ⟨fun b mem => Option.some.inj mem ▸ good, holds⟩
    · cases a with
      | none => exact pure fun _ holds => ⟨reversed, holds.2⟩
      | some a =>
        intro cs all rest holds
        have known' : ∀ b ∈ a :: done, A b := by
          intro b mem
          rcases List.mem_cons.mp mem with rfl | mem
          · exact holds.1 _ rfl
          · exact known b mem
        exact ih known' (fun b mem => known' b (List.mem_reverse.mp mem)) cs all rest holds.2

/-- Elements that are each in `A`. Behind an element `S` holds, and behind a separator `P` again. -/
theorem sepBy (elem : Triple P p fun a rest => A a ∧ S rest) (apart : Triple S separator fun _ => P)
    (steps : Nat) (none : ∀ cs, P cs → S cs) :
    Triple P (Parser.sepBy steps p separator) fun all rest => (∀ a ∈ all, A a) ∧ S rest := by
  unfold Parser.sepBy
  refine bind (Q := fun a rest => (∀ b ∈ a, A b) ∧ S rest) ?_ fun a => ?_
  · refine optional (elem.after ?_) fun cs holds => ⟨by simp, none cs holds⟩
    rintro a cs ⟨good, holds⟩
    exact ⟨fun b mem => Option.some.inj mem ▸ good, holds⟩
  · cases a with
    | none => exact pure fun _ holds => ⟨by simp, holds.2⟩
    | some a =>
      intro cs all rest holds
      refine sepByMore elem apart steps (fun b mem => ?_) cs all rest holds.2
      obtain rfl := List.mem_singleton.mp mem
      exact holds.1 _ rfl

end

end Triple

end FormLogic.Parser
