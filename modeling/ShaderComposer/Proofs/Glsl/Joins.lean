import Mathlib.Data.List.Induction
import ShaderComposer.Glsl.Stmt

/-!
# Joined comparisons

A chain of comparisons is built from the left to the right, and the language groups what is not in
parentheses by the strength of the joins: `&&` before `^^` before `||`. A chain has one such tree
(`Condition.Groups.unique`). It has the values of the chain joined from the left to the right if and
only if no join is tighter than one before it (`Condition.isLoosening_of_agree`).
-/

namespace ShaderComposer

/-! ### Trees of joins -/

namespace LogicOp

def apply : LogicOp → Bool → Bool → Bool
  | and, a, b => a && b
  | or, a, b => a || b
  | xor, a, b => a ^^ b

def strength : LogicOp → Nat
  | or => 1
  | xor => 2
  | and => 3

def neutral : LogicOp → Bool
  | and => true
  | or => false
  | xor => false

theorem apply_neutral (op : LogicOp) (a : Bool) : op.apply a op.neutral = a := by
  cases op <;> cases a <;> rfl

end LogicOp

/-- Values, each join with what it joins. -/
inductive Junction (α : Type) where
  | leaf (value : α)
  | join (op : LogicOp) (left right : Junction α)
deriving DecidableEq

namespace Junction

variable {α : Type}

def leaves : Junction α → List α
  | leaf x => [x]
  | join _ l r => l.leaves ++ r.leaves

def size : Junction α → Nat
  | leaf _ => 1
  | join _ l r => l.size + r.size

/-- How tight the outermost join binds. A single value is tighter than any join. -/
def strength : Junction α → Nat
  | leaf _ => 4
  | join op _ _ => op.strength

/-- The value of a tree, its leaves having the truth of their places from `start` on. -/
def value (truth : Nat → Bool) (start : Nat) : Junction α → Bool
  | leaf _ => truth start
  | join op l r => op.apply (l.value truth start) (r.value truth (start + l.size))

theorem length_leaves (t : Junction α) : t.leaves.length = t.size := by
  induction t with
  | leaf x => rfl
  | join op l r left right => rw [leaves, List.length_append, left, right, size]

/-- Only the places of the leaves count. -/
theorem value_congr {truth other : Nat → Bool} {t : Junction α} {start : Nat}
    (same : ∀ n, n < start + t.size → truth n = other n) :
    t.value truth start = t.value other start := by
  induction t generalizing start with
  | leaf x => exact same start (Nat.lt_succ_self start)
  | join op l r left right =>
    simp only [size] at same
    have before : l.value truth start = l.value other start := by
      apply left
      intro n bound
      apply same
      omega
    have after : r.value truth (start + l.size) = r.value other (start + l.size) := by
      apply right
      intro n bound
      apply same
      omega
    rw [value, value, before, after]

/-- A value joined at the end goes below the joins on the right that are weaker. -/
def push (op : LogicOp) (x : α) : Junction α → Junction α
  | leaf y => join op (leaf y) (leaf x)
  | join o l r =>
    if o.strength < op.strength then join o l (r.push op x) else join op (join o l r) (leaf x)

theorem push_of_le {op : LogicOp} {t : Junction α} (le : op.strength ≤ t.strength) (x : α) :
    t.push op x = join op t (leaf x) := by
  cases t with
  | leaf y => rfl
  | join o l r => exact if_neg (Nat.not_lt.mpr le)

theorem push_of_lt {op o : LogicOp} (lt : o.strength < op.strength) (l r : Junction α) (x : α) :
    (join o l r).push op x = join o l (r.push op x) :=
  if_pos lt

theorem leaves_push (op : LogicOp) (x : α) (t : Junction α) :
    (t.push op x).leaves = t.leaves ++ [x] := by
  induction t with
  | leaf y => rfl
  | join o l r _ right =>
    rw [push]
    split
    · rw [leaves, right, leaves, List.append_assoc]
    · rfl

theorem size_push (op : LogicOp) (x : α) (t : Junction α) : (t.push op x).size = t.size + 1 := by
  rw [← length_leaves, leaves_push, List.length_append, length_leaves, List.length_singleton]

/-- A neutral value at the end changes nothing, wherever it goes. -/
theorem value_push_neutral {op : LogicOp} {truth : Nat → Bool} {t : Junction α} {start : Nat}
    (neutral : truth (start + t.size) = op.neutral) (x : α) :
    (t.push op x).value truth start = t.value truth start := by
  induction t generalizing start with
  | leaf y =>
    show op.apply (truth start) (truth (start + 1)) = truth start
    rw [size] at neutral
    rw [neutral, LogicOp.apply_neutral]
  | join o l r _ right =>
    rw [size, ← Nat.add_assoc] at neutral
    rw [push]
    split
    · rw [value, value, right neutral]
    · rw [value, value, size, ← Nat.add_assoc, neutral, LogicOp.apply_neutral]

/-- Values are joined at the end, one after the other. -/
def pushAll (t : Junction α) (rest : List (LogicOp × α)) : Junction α :=
  rest.foldl (fun t joined => t.push joined.1 joined.2) t

/-- Values behind a join that are joined tighter stay on its right. -/
theorem pushAll_tighter (op : LogicOp) (l r : Junction α) (rest : List (LogicOp × α))
    (tighter : ∀ joined ∈ rest, op.strength < joined.1.strength) :
    (join op l r).pushAll rest = join op l (r.pushAll rest) := by
  induction rest generalizing r with
  | nil => rfl
  | cons joined rest ih =>
    have first := push_of_lt (tighter joined List.mem_cons_self) l r joined.2
    rw [pushAll, List.foldl_cons, first]
    apply ih
    intro later mem
    exact tighter later (List.mem_cons_of_mem joined mem)

end Junction

/-! ### Chains -/

namespace Condition

variable {ε : Type}

def append (c : Condition ε) (op : LogicOp) (d : Condition ε) : Condition ε :=
  ⟨c.first, c.rest ++ (op, d.first) :: d.rest⟩

/-- A chain is a comparison or a chain that a comparison has been joined to. -/
theorem build_induction {motive : Condition ε → Prop}
    (compare : ∀ lhs relation rhs, motive (.compare lhs relation rhs))
    (join : ∀ c op lhs relation rhs, motive c → motive (c.join op lhs relation rhs))
    (c : Condition ε) : motive c := by
  obtain ⟨first, rest⟩ := c
  induction rest using List.reverseRecOn with
  | nil => exact compare first.lhs first.relation first.rhs
  | append_singleton rest last ih =>
    exact join ⟨first, rest⟩ last.1 last.2.lhs last.2.relation last.2.rhs ih

def leftToRight (c : Condition ε) : Junction (Comparison ε) :=
  c.rest.foldl (fun t joined => .join joined.1 t (.leaf joined.2)) (.leaf c.first)

/-- The comparisons with the tighter joins inside the looser ones. -/
def byPrecedence (c : Condition ε) : Junction (Comparison ε) :=
  (Junction.leaf c.first).pushAll c.rest

theorem leftToRight_join (c : Condition ε) (op : LogicOp) (lhs : ε) (relation : Relation) (rhs : ε) :
    (c.join op lhs relation rhs).leftToRight =
      .join op c.leftToRight (.leaf ⟨lhs, relation, rhs⟩) := by
  rw [leftToRight, join, List.foldl_append]
  rfl

theorem byPrecedence_join (c : Condition ε) (op : LogicOp) (lhs : ε) (relation : Relation)
    (rhs : ε) :
    (c.join op lhs relation rhs).byPrecedence =
      c.byPrecedence.push op ⟨lhs, relation, rhs⟩ := by
  rw [byPrecedence, Junction.pushAll, join, List.foldl_append]
  rfl

theorem size_leftToRight (c : Condition ε) : c.leftToRight.size = c.rest.length + 1 := by
  induction c using build_induction with
  | compare lhs relation rhs => rfl
  | join c op lhs relation rhs ih =>
    rw [leftToRight_join, Junction.size, ih, join, List.length_append]
    rfl

theorem size_byPrecedence (c : Condition ε) : c.byPrecedence.size = c.rest.length + 1 := by
  induction c using build_induction with
  | compare lhs relation rhs => rfl
  | join c op lhs relation rhs ih =>
    rw [byPrecedence_join, Junction.size_push, ih, join, List.length_append]
    rfl

theorem leaves_byPrecedence (c : Condition ε) : c.byPrecedence.leaves = c.comparisons := by
  induction c using build_induction with
  | compare lhs relation rhs => rfl
  | join c op lhs relation rhs ih =>
    rw [byPrecedence_join, Junction.leaves_push, ih, comparisons_join]

/-- What is compared does not matter for the value, only how it is joined. -/
theorem value_leftToRight_map {δ : Type} (f : ε → δ) (truth : Nat → Bool) (c : Condition ε) :
    (c.map f).leftToRight.value truth 0 = c.leftToRight.value truth 0 := by
  induction c using build_induction with
  | compare lhs relation rhs => rfl
  | join c op lhs relation rhs ih =>
    have joined : (c.join op lhs relation rhs).map f = (c.map f).join op (f lhs) relation (f rhs) := by
      simp [map, join, Comparison.map]
    have sizes : (c.map f).leftToRight.size = c.leftToRight.size := by
      rw [size_leftToRight, size_leftToRight, map, List.length_map]
    rw [joined, leftToRight_join, leftToRight_join, Junction.value, ih, sizes]
    rfl

/-! ### The grammar of joins -/

/-- The chain is a phrase of the grammar with this tree. A phrase of a strength has no looser join,
and joins of one strength associate to the left. -/
inductive Groups : Nat → Condition ε → Junction (Comparison ε) → Prop
  | comparison (lhs : ε) (relation : Relation) (rhs : ε) :
    Groups 4 (.compare lhs relation rhs) (.leaf ⟨lhs, relation, rhs⟩)
  | weaker {strength : Nat} {c : Condition ε} {t : Junction (Comparison ε)} :
    Groups (strength + 1) c t → Groups strength c t
  | join {c d : Condition ε} {l r : Junction (Comparison ε)} (op : LogicOp) :
    Groups op.strength c l → Groups (op.strength + 1) d r →
      Groups op.strength (c.append op d) (.join op l r)

namespace Groups

variable {c d : Condition ε} {t : Junction (Comparison ε)} {strength : Nat}

theorem weaken {s : Nat} (groups : Groups strength c t) (le : s ≤ strength) : Groups s c t := by
  induction le with
  | refl => exact groups
  | step _ ih => exact ih groups.weaker

theorem strength_le (groups : Groups strength c t) : strength ≤ t.strength := by
  induction groups with
  | comparison lhs relation rhs => exact Nat.le_refl 4
  | weaker _ ih => exact Nat.le_of_succ_le ih
  | join op _ _ _ _ => exact Nat.le_refl op.strength

theorem le_of_mem (groups : Groups strength c t) :
    ∀ joined ∈ c.rest, strength ≤ joined.1.strength := by
  induction groups with
  | comparison lhs relation rhs =>
    intro joined mem
    cases mem
  | weaker _ ih =>
    intro joined mem
    exact Nat.le_of_succ_le (ih joined mem)
  | join op _ _ left right =>
    intro joined mem
    rcases List.mem_append.mp mem with mem | mem
    · exact left joined mem
    · rcases List.mem_cons.mp mem with rfl | mem
      · exact Nat.le_refl op.strength
      · exact Nat.le_of_succ_le (right joined mem)

theorem push (groups : Groups strength c t) {op : LogicOp} (le : strength ≤ op.strength)
    (lhs : ε) (relation : Relation) (rhs : ε) :
    Groups strength (c.join op lhs relation rhs) (t.push op ⟨lhs, relation, rhs⟩) := by
  have below : op.strength + 1 ≤ 4 := by cases op <;> decide
  have last : Groups (op.strength + 1) (.compare lhs relation rhs) (.leaf ⟨lhs, relation, rhs⟩) :=
    (comparison lhs relation rhs).weaken below
  induction groups with
  | comparison => omega
  | @weaker s c t inner ih =>
    by_cases tighter : s + 1 ≤ op.strength
    · exact (ih tighter).weaker
    · obtain rfl : s = op.strength := by omega
      rw [Junction.push_of_le (Nat.le_of_succ_le inner.strength_le)]
      exact .join op inner.weaker last
  | @join c d l r o left right _ ih =>
    by_cases tighter : o.strength < op.strength
    · have inside : (c.append o d).join op lhs relation rhs =
          c.append o (d.join op lhs relation rhs) := by
        simp [append, Condition.join]
      rw [Junction.push_of_lt tighter, inside]
      exact .join o left (ih tighter)
    · have same : o.strength = op.strength := by omega
      have whole := join o left right
      have bound : op.strength ≤ (Junction.join o l r).strength := Nat.not_lt.mp tighter
      rw [Junction.push_of_le bound, same]
      rw [same] at whole
      exact .join op whole last

end Groups

theorem groups_byPrecedence (c : Condition ε) : Groups 1 c c.byPrecedence := by
  induction c using build_induction with
  | compare lhs relation rhs => exact (Groups.comparison lhs relation rhs).weaken (by decide)
  | join c op lhs relation rhs ih =>
    rw [byPrecedence_join]
    refine ih.push ?_ lhs relation rhs
    cases op <;> decide

/-- A chain has one tree. -/
theorem Groups.unique {c : Condition ε} {t : Junction (Comparison ε)} {strength : Nat}
    (groups : Groups strength c t) : t = c.byPrecedence := by
  induction groups with
  | comparison lhs relation rhs => rfl
  | weaker _ ih => exact ih
  | @join c d l r op left right same same' =>
    have bound := left.strength_le
    rw [same] at bound
    rw [byPrecedence, Junction.pushAll, append, List.foldl_append, List.foldl_cons]
    show _ = (c.byPrecedence.push op d.first).pushAll d.rest
    rw [Junction.push_of_le bound, Junction.pushAll_tighter op _ _ _ right.le_of_mem, same, same']
    rfl

/-! ### From the left to the right -/

/-- No join is tighter than one before it. -/
def IsLoosening (c : Condition ε) : Prop :=
  c.rest.Pairwise fun earlier later => later.1.strength ≤ earlier.1.strength

theorem isLoosening_join {c : Condition ε} {op : LogicOp} {lhs : ε} {relation : Relation} {rhs : ε} :
    (c.join op lhs relation rhs).IsLoosening ↔
      c.IsLoosening ∧ ∀ joined ∈ c.rest, op.strength ≤ joined.1.strength := by
  simp [IsLoosening, join, List.pairwise_append]

theorem le_strength_leftToRight {c : Condition ε} {op : LogicOp}
    (all : ∀ joined ∈ c.rest, op.strength ≤ joined.1.strength) :
    op.strength ≤ c.leftToRight.strength := by
  induction c using build_induction with
  | compare lhs relation rhs =>
    show op.strength ≤ 4
    cases op <;> decide
  | join c o lhs relation rhs _ =>
    rw [leftToRight_join]
    exact all (o, ⟨lhs, relation, rhs⟩) (List.mem_append_right _ (List.mem_singleton.mpr rfl))

theorem byPrecedence_eq_leftToRight {c : Condition ε} (loosening : c.IsLoosening) :
    c.byPrecedence = c.leftToRight := by
  induction c using build_induction with
  | compare lhs relation rhs => rfl
  | join c op lhs relation rhs ih =>
    obtain ⟨before, below⟩ := isLoosening_join.mp loosening
    rw [byPrecedence_join, leftToRight_join, ih before,
      Junction.push_of_le (le_strength_leftToRight below)]

/-- Every chain holds for some truth of its comparisons. -/
theorem exists_holds (c : Condition ε) : ∃ truth, c.leftToRight.value truth 0 = true := by
  induction c using build_induction with
  | compare lhs relation rhs => exact ⟨fun _ => true, rfl⟩
  | join c op lhs relation rhs ih =>
    obtain ⟨truth, holds⟩ := ih
    let extended : Nat → Bool := fun n => if n < c.leftToRight.size then truth n else op.neutral
    have same : c.leftToRight.value extended 0 = c.leftToRight.value truth 0 := by
      apply Junction.value_congr
      intro n bound
      exact if_pos (by omega)
    have last : extended (0 + c.leftToRight.size) = op.neutral := if_neg (by omega)
    refine ⟨extended, ?_⟩
    rw [leftToRight_join, Junction.value, same, holds, Junction.value, last, LogicOp.apply_neutral]

/-- Two joins of which the second is tighter tell the groupings apart. -/
theorem value_tighter {c : Condition ε} {o op : LogicOp} (tighter : o.strength < op.strength)
    (x y : Comparison ε) : ∃ truth : Nat → Bool,
      (Junction.join o c.leftToRight (.join op (.leaf x) (.leaf y))).value truth 0 ≠
        (Junction.join op (.join o c.leftToRight (.leaf x)) (.leaf y)).value truth 0 := by
  obtain ⟨truth, holds⟩ := c.exists_holds
  have size : 0 < c.leftToRight.size := by rw [size_leftToRight]; omega
  generalize c.leftToRight = t at holds size ⊢
  let chosen : Nat → Bool := fun n =>
    if n < t.size then truth n else if n = t.size then false else op != .and
  have same : t.value chosen 0 = true := by
    rw [← holds]
    apply Junction.value_congr
    intro n bound
    exact if_pos (by omega)
  have middle : chosen (0 + t.size) = false := by
    show (if _ then _ else _) = _
    rw [if_neg (by omega), if_pos (by omega)]
  have last : chosen (0 + (t.size + 1)) = (op != .and) := by
    show (if _ then _ else _) = _
    rw [if_neg (by omega), if_neg (by omega)]
  refine ⟨chosen, ?_⟩
  simp only [Junction.value, Junction.size, same, Nat.add_assoc, middle, last]
  cases o <;> cases op <;> revert tighter <;> decide

/-- The grouping by precedence has the values of the chain from the left to the right only if no
join is tighter than one before it. -/
theorem isLoosening_of_agree {c : Condition ε}
    (agree : ∀ truth, c.byPrecedence.value truth 0 = c.leftToRight.value truth 0) :
    c.IsLoosening := by
  induction c using build_induction with
  | compare lhs relation rhs => exact List.Pairwise.nil
  | join c op lhs relation rhs ih =>
    rw [byPrecedence_join, leftToRight_join] at agree
    have sizes : c.byPrecedence.size = c.leftToRight.size := by
      rw [size_byPrecedence, size_leftToRight]
    -- The last comparison is made neutral, so the chain before it agrees as well.
    have before : c.IsLoosening := by
      apply ih
      intro truth
      let extended : Nat → Bool := fun n => if n < c.leftToRight.size then truth n else op.neutral
      have last : extended (0 + c.leftToRight.size) = op.neutral := if_neg (by omega)
      have whole := agree extended
      rw [Junction.value_push_neutral (by rw [sizes]; exact last), Junction.value, Junction.value,
        last, LogicOp.apply_neutral] at whole
      have same : ∀ n, n < 0 + c.leftToRight.size → extended n = truth n := fun n bound =>
        if_pos (by omega)
      rw [← Junction.value_congr same, ← whole]
      apply Junction.value_congr
      rw [sizes]
      intro n bound
      exact (same n bound).symm
    refine isLoosening_join.mpr ⟨before, ?_⟩
    rw [byPrecedence_eq_leftToRight before] at agree
    induction c using build_induction with
    | compare lhs relation rhs =>
      intro joined mem
      cases mem
    | join c o lhs relation rhs _ =>
      obtain ⟨_, below⟩ := isLoosening_join.mp before
      have last : op.strength ≤ o.strength := by
        apply Nat.not_lt.mp
        intro tighter
        obtain ⟨truth, differs⟩ := value_tighter (c := c) tighter ⟨lhs, relation, rhs⟩ ⟨_, _, _⟩
        rw [leftToRight_join] at agree
        have same := agree truth
        rw [Junction.push_of_lt tighter] at same
        exact differs same
      intro joined mem
      rcases List.mem_append.mp mem with mem | mem
      · exact Nat.le_trans last (below joined mem)
      · obtain rfl := List.mem_singleton.mp mem
        exact last

end Condition

end ShaderComposer
