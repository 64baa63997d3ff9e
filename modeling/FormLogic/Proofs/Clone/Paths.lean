import FormLogic.Proofs.Clone.Copied

/-!
# `FormLogic.Proofs.Clone.Paths` — the paths of a copy

The paths of a value and those of its copy go through the same places. On the side of the copy they
stay inside the references that the copy takes up, and children have disjoint ones; so two paths of
the copy to one container are the same path. References back to ancestors are on no path.

## Contents
- `Copied.path_inside`, `Copied.path_unique`: the paths of a copy.
- `Copied.follow`: the paths of a value, followed in its copy.
-/

namespace FormLogic.Clone

variable {h g : Heap} {depth : Nat} {ancestors : Ancestors} {v w : Value} {n m : Ref}
  {places places' : List Place} {refs refs' : List Ref}

namespace Copied

/-! ## The paths of a copy -/

/-- A path of a copy stays inside the references of the copy. -/
theorem path_inside (copied : Copied h g depth ancestors v w n m)
    (path : g.Path (ancestors.map Prod.snd) w places refs) {c : Ref} (mem : c ∈ refs) :
    n ≤ c ∧ c < m := by
  induction depth generalizing ancestors v w n m places refs with
  | zero => cases copied
  | succ depth ih =>
    cases copied with
    | leaf leaf => cases path <;> cases leaf
    | back known => exact absurd (List.mem_map_of_mem (mem_of_lookup known)) path.start_not_passed
    | made new filled =>
      have inside := filled.children.le
      cases path with
      | stop _ =>
        obtain rfl := List.mem_singleton.mp mem
        exact ⟨Nat.le_refl _, inside⟩
      | step _ held rest =>
        rcases List.mem_cons.mp mem with rfl | deeper
        · exact ⟨Nat.le_refl _, inside⟩
        · obtain ⟨v, a, b, _, copied, above, below⟩ := filled.at_copy held
          obtain ⟨from', upto⟩ := ih copied rest deeper
          exact ⟨Nat.le_trans (Nat.le_of_succ_le above) from', Nat.lt_of_lt_of_le upto below⟩

/-- Two paths of a copy to the same container go through the same places. -/
theorem path_unique (copied : Copied h g depth ancestors v w n m)
    (path : g.Path (ancestors.map Prod.snd) w places refs)
    (path' : g.Path (ancestors.map Prod.snd) w places' refs') {c : Ref}
    (last : refs.getLast? = some c) (last' : refs'.getLast? = some c) : places = places' := by
  induction depth generalizing ancestors v w n m places refs places' refs' with
  | zero => cases copied
  | succ depth ih =>
    cases copied with
    | leaf leaf => cases path <;> cases leaf
    | back known => exact absurd (List.mem_map_of_mem (mem_of_lookup known)) path.start_not_passed
    | made new filled =>
      cases path with
      | stop _ =>
        cases path' with
        | stop _ => rfl
        | step unmet _ rest =>
          -- a path that goes on does not come back
          obtain rfl := Option.some.inj last
          rw [rest.getLast?_cons] at last'
          exact absurd (List.mem_cons_self) (rest.not_mem_passed (List.mem_of_getLast? last'))
      | step _ held rest =>
        rw [rest.getLast?_cons] at last
        cases path' with
        | stop _ =>
          obtain rfl := Option.some.inj last'
          exact absurd (List.mem_cons_self) (rest.not_mem_passed (List.mem_of_getLast? last))
        | step _ held' rest' =>
          rw [rest'.getLast?_cons] at last'
          have mem := List.mem_of_getLast? last
          have mem' := List.mem_of_getLast? last'
          rcases filled.apart held held' with rfl | ⟨v, v', a, b, a', b', copied, copied', apart⟩
          · obtain ⟨v, a, b, _, copied, _⟩ := filled.at_copy held
            cases held.symm.trans held'
            rw [ih copied rest rest' last last']
          · -- the copies at different places take up different references
            obtain ⟨from', upto⟩ := copied.path_inside rest mem
            obtain ⟨from'', upto'⟩ := copied'.path_inside rest' mem'
            rcases apart with apart | apart
            · exact absurd (Nat.lt_of_lt_of_le upto (Nat.le_trans apart from'')) (Nat.lt_irrefl _)
            · exact absurd (Nat.lt_of_lt_of_le upto' (Nat.le_trans apart from')) (Nat.lt_irrefl _)

/-! ## The paths of a value in its copy -/

/-- The places of a path of a value lead through its copy as well, to a container that is filled as
the copy of the last one, below the copies of those before. -/
theorem follow (copied : Copied h g depth ancestors v w n m)
    (earlier : ∀ c ∈ ancestors.map Prod.snd, c < n)
    (path : h.Path (ancestors.map Prod.fst) v places refs) :
    ∃ copies, g.Path (ancestors.map Prod.snd) w places copies ∧ copies.length = refs.length ∧
      ∃ r c depth n m, refs.getLast? = some r ∧ copies.getLast? = some c ∧
        Filled (Copied h g depth ((refs.zip copies).reverse ++ ancestors)) (h.cell r) (g.cell c)
          n m := by
  induction depth generalizing ancestors v w n m places refs with
  | zero => cases copied
  | succ depth ih =>
    cases copied with
    | leaf leaf => cases path <;> cases leaf
    | back known => exact absurd (List.mem_map_of_mem (mem_of_lookup known)) path.start_not_passed
    | @made r _ _ new filled =>
      have unmet : n ∉ ancestors.map Prod.snd := fun old => Nat.lt_irrefl n (earlier n old)
      cases path with
      | stop _ =>
        exact ⟨[n], .stop unmet, rfl, r, n, depth, _, _, rfl, rfl, filled⟩
      | step _ held rest =>
        obtain ⟨w, a, b, there, copied, above, _⟩ := filled.at_source held
        -- the copy of the container comes before those of its values
        have earlier' : ∀ c ∈ ((r, n) :: ancestors).map Prod.snd, c < a := by
          intro c mem
          rcases List.mem_cons.mp mem with rfl | mem
          · exact above
          · exact Nat.lt_trans (earlier c mem) above
        obtain ⟨copies, path, length, q, c, depth', n', m', last, last', inner⟩ :=
          ih copied earlier' rest
        refine ⟨n :: copies, .step unmet there path, congrArg Nat.succ length, q, c, depth', n', m',
          (rest.getLast?_cons r).trans last, (path.getLast?_cons n).trans last', ?_⟩
        rw [List.zip_cons_cons, List.reverse_cons, List.append_assoc]
        exact inner

end Copied

end FormLogic.Clone
