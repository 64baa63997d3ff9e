import FormLogic.Expr
import Mathlib.Algebra.GroupWithZero.Nat
import Mathlib.Logic.Relation

/-!
# `FormLogic.Proofs.Expr.Depth` — the loop finds the height

The height of an expression is bounded by one more than a number if those of its direct parts are
bounded by the number. The loop that visits the pending nodes finds the least such bound, and it does
so in whichever order it takes them: a round trades a node for its direct parts, one level further
down, and what bounds the levels below the node bounds its own level and the levels below the parts.

## Contents
- `size_eq`, `height_le_iff`: the number of nodes and the height, by the direct parts.
- `Round`, `Search.Within`: one round of the loop, and what bounds the level that it finds.
- `rounds_within_iff`, `rounds_deepest`: whole runs, of which the loop is one.
- `level_eq_height`, `depth_eq_height`, `height_lt_of_mem`: the height, and parts that are lower.
- `StandsIn`, `mem_children_iff`: what stands directly in an expression, for each kind of node.
- `depth_recursive`: the depth by recursion over what stands in an expression.
-/

namespace FormLogic.Expr

/-! ## Sizes and heights by the direct parts -/

theorem sizeItems_eq (items : List Expr) : sizeItems items = (items.map size).sum := by
  induction items with
  | nil => rfl
  | cons item rest ih => rw [sizeItems, ih, List.map_cons, List.sum_cons]

theorem sizeEntries_eq (entries : List (String × Expr)) :
    sizeEntries entries = ((entries.map Prod.snd).map size).sum := by
  induction entries with
  | nil => rfl
  | cons entry rest ih =>
    obtain ⟨key, value⟩ := entry
    rw [sizeEntries, ih, List.map_cons, List.map_cons, List.sum_cons]

theorem sizeKey_eq (key : Key Expr) : sizeKey key = ((keyParts key).map size).sum := by
  cases key <;> rfl

theorem size_eq (e : Expr) : e.size = 1 + (e.children.map size).sum := by
  cases e with
  | literal _ | ident _ => rfl
  | array items => rw [size, sizeItems_eq, children]
  | object entries => rw [size, sizeEntries_eq, children]
  | member base key _ => simp only [size, sizeKey_eq, children, List.map_cons, List.sum_cons]; omega
  | call callee args => simp only [size, sizeItems_eq, children, List.map_cons, List.sum_cons]; omega
  | arrow _ _ | unary _ _ | delete _ => rfl
  | binary _ _ _ | logical _ _ _ | assign _ _ | conditional _ _ _ =>
    simp only [size, children, List.map_cons, List.map_nil, List.sum_cons, List.sum_nil]
    omega

theorem heightItems_le_iff {items : List Expr} {n : Nat} :
    heightItems items ≤ n ↔ ∀ item ∈ items, item.height ≤ n := by
  induction items with
  | nil => simp [heightItems]
  | cons item rest ih => rw [heightItems, Nat.max_le, ih, List.forall_mem_cons]

theorem heightEntries_le_iff {entries : List (String × Expr)} {n : Nat} :
    heightEntries entries ≤ n ↔ ∀ value ∈ entries.map Prod.snd, value.height ≤ n := by
  induction entries with
  | nil => simp [heightEntries]
  | cons entry rest ih =>
    obtain ⟨key, value⟩ := entry
    rw [heightEntries, Nat.max_le, ih, List.map_cons, List.forall_mem_cons]

theorem heightKey_le_iff {key : Key Expr} {n : Nat} :
    heightKey key ≤ n ↔ ∀ part ∈ keyParts key, part.height ≤ n := by
  cases key <;> simp [heightKey, keyParts]

/-- An expression is as high as its direct parts let it be. -/
theorem height_le_iff {e : Expr} {n : Nat} :
    e.height ≤ n + 1 ↔ ∀ part ∈ e.children, part.height ≤ n := by
  have above (m : Nat) : 1 + m ≤ n + 1 ↔ m ≤ n := by omega
  cases e with
  | literal _ | ident _ => simp [height, children]
  | array items => rw [height, above, heightItems_le_iff, children]
  | object entries => rw [height, above, heightEntries_le_iff, children]
  | member base key _ =>
    rw [height, above, Nat.max_le, heightKey_le_iff, children, List.forall_mem_cons]
  | call callee args =>
    rw [height, above, Nat.max_le, heightItems_le_iff, children, List.forall_mem_cons]
  | arrow _ _ | unary _ _ | delete _ => rw [height, above, children, List.forall_mem_singleton]
  | binary _ _ _ | logical _ _ _ | assign _ _ =>
    rw [height, above, Nat.max_le, children, List.forall_mem_cons, List.forall_mem_singleton]
  | conditional _ _ _ =>
    rw [height, above, Nat.max_le, Nat.max_le, children, List.forall_mem_cons,
      List.forall_mem_cons, List.forall_mem_singleton]

theorem height_pos (e : Expr) : 0 < e.height := by
  cases e <;> simp only [height] <;> omega

/-- A direct part is lower than the whole. -/
theorem height_lt_of_mem {e part : Expr} (mem : part ∈ e.children) : part.height < e.height := by
  obtain ⟨n, whole⟩ := Nat.exists_eq_add_of_lt e.height_pos
  have bound : e.height ≤ n + 1 := by omega
  have lower := height_le_iff.mp bound part mem
  omega

/-! ## The loop -/

/-- How far a loop over the nodes of an expression has come. -/
structure Search where
  /-- The nodes that are still to be visited, each with its level. -/
  pending : List (Expr × Nat)
  /-- The deepest level so far. -/
  level : Nat

/-- One round: any of the pending nodes is visited, and its direct parts are pending after it. -/
inductive Round : Search → Search → Prop where
  | visit {e : Expr} {depth level : Nat} {pending rest : List (Expr × Nat)}
      (taken : pending.Perm ((e, depth) :: rest)) :
      Round ⟨pending, level⟩ ⟨e.children.map (fun part => (part, depth + 1)) ++ rest, max level depth⟩

/-- No level so far is below `n`, and none will be: every pending node lies within the bound with all
that is below it. -/
def Search.Within (n : Nat) (s : Search) : Prop :=
  s.level ≤ n ∧ ∀ node ∈ s.pending, node.2 + node.1.height ≤ n + 1

/-- A node is within the bound if its own level is and its parts are, one level further down. -/
theorem level_add_height_le_iff {e : Expr} {depth n : Nat} :
    depth + e.height ≤ n + 1 ↔
      depth ≤ n ∧ ∀ part ∈ e.children, depth + 1 + part.height ≤ n + 1 := by
  have tall := e.height_pos
  by_cases room : depth ≤ n
  · have split : depth + e.height ≤ n + 1 ↔ e.height ≤ (n - depth) + 1 := by omega
    have split' (part : Expr) :
        depth + 1 + part.height ≤ n + 1 ↔ part.height ≤ n - depth := by omega
    simp only [split, height_le_iff, split', room, true_and]
  · constructor
    · intro whole
      omega
    · rintro ⟨here, _⟩
      exact absurd here room

variable {s t : Search} {e : Expr} {n level : Nat}

/-- A round moves no bound. -/
theorem Round.within_iff (round : Round s t) : s.Within n ↔ t.Within n := by
  cases round with
  | @visit e depth level pending rest taken =>
    unfold Search.Within
    dsimp only
    simp only [taken.mem_iff]
    rw [Nat.max_le, List.forall_mem_cons, List.forall_mem_append, List.forall_mem_map,
      level_add_height_le_iff, and_assoc, and_assoc]

theorem rounds_within_iff (rounds : Relation.ReflTransGen Round s t) : s.Within n ↔ t.Within n := by
  induction rounds with
  | refl => rfl
  | tail _ round ih => exact ih.trans round.within_iff

/-- **Every run finds the height**, in whichever order it visits the nodes. -/
theorem level_eq_height (rounds : Relation.ReflTransGen Round ⟨[(e, 1)], 0⟩ ⟨[], level⟩) :
    level = e.height := by
  have bounds (n : Nat) : level ≤ n ↔ e.height ≤ n := by
    have ends : (⟨[], level⟩ : Search).Within n ↔ level ≤ n :=
      and_iff_left (List.forall_mem_nil _)
    have starts : (⟨[(e, 1)], 0⟩ : Search).Within n ↔ e.height ≤ n := by
      unfold Search.Within
      rw [List.forall_mem_singleton]
      show 0 ≤ n ∧ 1 + e.height ≤ n + 1 ↔ e.height ≤ n
      omega
    rw [← ends, ← rounds_within_iff rounds, starts]
  exact Nat.le_antisymm ((bounds _).mpr (Nat.le_refl _)) ((bounds _).mp (Nat.le_refl _))

/-- The loop is such a run, if it has a step for each node. -/
theorem rounds_deepest {steps : Nat} {pending : List (Expr × Nat)}
    (enough : (pending.map fun node => node.1.size).sum ≤ steps) :
    Relation.ReflTransGen Round ⟨pending, level⟩ ⟨[], deepest steps pending level⟩ := by
  induction steps generalizing pending level with
  | zero =>
    cases pending with
    | nil => exact .refl
    | cons node rest =>
      have counted := size_eq node.1
      rw [List.map_cons, List.sum_cons] at enough
      omega
  | succ steps ih =>
    cases pending with
    | nil => exact .refl
    | cons node rest =>
      obtain ⟨e, depth⟩ := node
      have parts : ((e.children.map fun part => (part, depth + 1)).map fun node => node.1.size).sum =
          (e.children.map size).sum := by
        rw [List.map_map]
        rfl
      have fewer : (((e.children.map fun part => (part, depth + 1)) ++ rest).map
          fun node => node.1.size).sum ≤ steps := by
        rw [List.map_cons, List.sum_cons] at enough
        have counted : e.size = 1 + (e.children.map size).sum := size_eq e
        dsimp only at enough
        rw [List.map_append, List.sum_append, parts]
        omega
      exact .head (.visit (.refl _)) (ih fewer)

/-- The depth is the height. -/
theorem depth_eq_height (e : Expr) : e.depth = e.height := by
  have all : ([(e, 1)].map fun node => node.1.size).sum ≤ e.size := by simp
  exact level_eq_height (rounds_deepest all)

/-! ## The depth by recursion -/

/-- The first expression stands directly in the second one. -/
inductive StandsIn (part : Expr) : Expr → Prop where
  | element {items : List Expr} (mem : part ∈ items) : StandsIn part (.array items)
  | entry {key : String} {entries : List (String × Expr)} (mem : (key, part) ∈ entries) :
      StandsIn part (.object entries)
  | base {key : Key Expr} {optional : Bool} : StandsIn part (.member part key optional)
  | key {base : Expr} {optional : Bool} : StandsIn part (.member base (.computed part) optional)
  | callee {args : List Expr} : StandsIn part (.call part args)
  | argument {callee : Expr} {args : List Expr} (mem : part ∈ args) :
      StandsIn part (.call callee args)
  | body {params : List String} : StandsIn part (.arrow params part)
  | operand {op : UnaryOp} : StandsIn part (.unary op part)
  | lhs {op : BinaryOp} {rhs : Expr} : StandsIn part (.binary op part rhs)
  | rhs {op : BinaryOp} {lhs : Expr} : StandsIn part (.binary op lhs part)
  | first {op : LogicalOp} {rhs : Expr} : StandsIn part (.logical op part rhs)
  | second {op : LogicalOp} {lhs : Expr} : StandsIn part (.logical op lhs part)
  | test {consequent alternate : Expr} : StandsIn part (.conditional part consequent alternate)
  | consequent {test alternate : Expr} : StandsIn part (.conditional test part alternate)
  | alternate {test consequent : Expr} : StandsIn part (.conditional test consequent part)
  | target {value : Expr} : StandsIn part (.assign part value)
  | value {target : Expr} : StandsIn part (.assign target part)
  | deleted : StandsIn part (.delete part)

/-- No direct part of any kind of node is forgotten. -/
theorem mem_children_iff {part : Expr} : part ∈ e.children ↔ StandsIn part e := by
  constructor
  · intro mem
    cases e with
    | literal _ | ident _ => cases mem
    | array items => exact .element mem
    | object entries =>
      obtain ⟨⟨key, value⟩, inside, rfl⟩ := List.mem_map.mp mem
      exact .entry inside
    | member base key optional =>
      rcases List.mem_cons.mp mem with rfl | mem
      · exact .base
      · cases key with
        | named _ => cases mem
        | computed key =>
          obtain rfl := List.mem_singleton.mp mem
          exact .key
    | call callee args =>
      rcases List.mem_cons.mp mem with rfl | mem
      · exact .callee
      · exact .argument mem
    | arrow _ _ =>
      obtain rfl := List.mem_singleton.mp mem
      exact .body
    | unary _ _ =>
      obtain rfl := List.mem_singleton.mp mem
      exact .operand
    | delete _ =>
      obtain rfl := List.mem_singleton.mp mem
      exact .deleted
    | binary _ _ _ =>
      simp only [children, List.mem_cons, List.not_mem_nil, or_false] at mem
      rcases mem with rfl | rfl
      · exact .lhs
      · exact .rhs
    | logical _ _ _ =>
      simp only [children, List.mem_cons, List.not_mem_nil, or_false] at mem
      rcases mem with rfl | rfl
      · exact .first
      · exact .second
    | conditional _ _ _ =>
      simp only [children, List.mem_cons, List.not_mem_nil, or_false] at mem
      rcases mem with rfl | rfl | rfl
      · exact .test
      · exact .consequent
      · exact .alternate
    | assign _ _ =>
      simp only [children, List.mem_cons, List.not_mem_nil, or_false] at mem
      rcases mem with rfl | rfl
      · exact .target
      · exact .value
  · intro stands
    cases stands with
    | element mem => exact mem
    | entry mem => exact List.mem_map_of_mem mem
    | argument mem => exact List.mem_cons_of_mem _ mem
    | _ => simp [children, keyParts]

/-- An expression without direct parts has the least height. -/
theorem height_of_leaf (leaf : ∀ part, ¬ StandsIn part e) : e.height = 1 := by
  have low : e.height ≤ 0 + 1 :=
    height_le_iff.mpr fun part mem => absurd (mem_children_iff.mp mem) (leaf part)
  have tall := e.height_pos
  omega

/-- One of the direct parts, if there are any, is lower by one only. -/
theorem exists_highest {part : Expr} (stands : StandsIn part e) :
    ∃ highest, StandsIn highest e ∧ e.height = 1 + highest.height := by
  have lower := height_lt_of_mem (mem_children_iff.mpr stands)
  have tall := part.height_pos
  obtain ⟨n, whole⟩ : ∃ n, e.height = n + 2 := ⟨e.height - 2, by omega⟩
  have notAll : ¬ ∀ other ∈ e.children, other.height ≤ n := by
    intro all
    have low := height_le_iff.mpr all
    omega
  obtain ⟨highest, notLow⟩ := not_forall.mp notAll
  obtain ⟨mem, above⟩ := Classical.not_imp.mp notLow
  have below := height_lt_of_mem mem
  exact ⟨highest, mem_children_iff.mp mem, by omega⟩

/-- Whatever stands in an expression, directly or deeper, is lower. -/
theorem height_lt_of_standsIn {node : Expr} (within : Relation.TransGen StandsIn node e) :
    node.height < e.height := by
  induction within with
  | single stands => exact height_lt_of_mem (mem_children_iff.mpr stands)
  | tail _ stands ih => exact Nat.lt_trans ih (height_lt_of_mem (mem_children_iff.mpr stands))

/-- The depth of an expression, by what stands in it. -/
structure DepthLaws (e : Expr) : Prop where
  height : e.depth = e.height
  /-- An expression without direct parts has the depth 1. -/
  leaf : (∀ part, ¬ StandsIn part e) → e.depth = 1
  /-- Any other one is deeper by one than the deepest of its direct parts. -/
  node : ∀ {part}, StandsIn part e → ∃ highest, StandsIn highest e ∧
    e.depth = 1 + highest.depth ∧ ∀ other, StandsIn other e → other.depth ≤ highest.depth
  /-- Whatever stands in it, directly or deeper, is shallower. -/
  shallower : ∀ {inner}, Relation.TransGen StandsIn inner e → inner.depth < e.depth
  /-- The loop finds the depth in whichever order it visits the nodes. -/
  order : ∀ {level}, Relation.ReflTransGen Round ⟨[(e, 1)], 0⟩ ⟨[], level⟩ → level = e.depth

/-- **The loop computes the recursive height**: 1 without direct parts, else one more than the
greatest depth of a direct part, so that everything inside an expression is shallower than it. -/
theorem depth_recursive (e : Expr) : DepthLaws e where
  height := depth_eq_height e
  leaf := by
    intro leaf
    rw [depth_eq_height, height_of_leaf leaf]
  node := by
    intro part stands
    obtain ⟨highest, among, whole⟩ := exists_highest stands
    simp only [depth_eq_height]
    refine ⟨highest, among, whole, fun other stands' => ?_⟩
    have lower := height_lt_of_mem (mem_children_iff.mpr stands')
    omega
  shallower := by
    intro inner within
    rw [depth_eq_height, depth_eq_height]
    exact height_lt_of_standsIn within
  order := by
    intro level rounds
    rw [depth_eq_height, level_eq_height rounds]

/-- The argument of the call is the deepest branch. -/
example : (Expr.logical .or (.ident "a")
    (.call (.ident "f") [.unary .not (.ident "b")])).depth = 4 := by decide

end FormLogic.Expr
