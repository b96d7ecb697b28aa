import ShaderComposer.Proofs.Glsl.Joins
import ShaderComposer.Proofs.Glsl.Quiet
import ShaderComposer.Proofs.Glsl.Reading

/-!
# What the text of a condition means

The text of a chain of comparisons has no parentheses, so a reader cuts it at the signs of
relations and joins, one way only (`Condition.Spells.unique`), and groups it by the strength of the
joins. It means the chain from the left to the right just if no join is tighter than one before it
(`Condition.means_leftToRight_iff`).
-/

namespace ShaderComposer

open SourceScan (Text isIdentifier)

/-! ### Texts of chains -/

/-- A character that relations and joins are written with. -/
def isJoint (c : Char) : Bool := ['<', '>', '=', '!', '&', '|', '^'].contains c

/-- A text that is an expression and has no such character. -/
structure IsOperand (text : Text) (e : Expr) : Prop where
  apart : text.all (!isJoint ·) = true
  parses : Parses (String.ofList text) e

/-- A text cut at the signs of relations and joins. -/
inductive Condition.Spells : Text → Condition Expr → Prop
  | comparison {a b : Text} {lhs rhs : Expr} (relation : Relation) :
    IsOperand a lhs → IsOperand b rhs →
      Spells (a ++ (relation.symbol.toList ++ b)) ⟨⟨lhs, relation, rhs⟩, []⟩
  | join {a b text : Text} {lhs rhs : Expr} {c : Condition Expr} (relation : Relation)
    (op : LogicOp) : IsOperand a lhs → IsOperand b rhs → Spells text c →
      Spells (a ++ (relation.symbol.toList ++ (b ++ (op.symbol.toList ++ text))))
        ⟨⟨lhs, relation, rhs⟩, (op, c.first) :: c.rest⟩

/-- What comes before the first character of another kind, and what follows, are told apart. -/
theorem cut_unique {p : Char → Bool} {u v rest other : Text} (all : u.all p = true)
    (all' : v.all p = true) (stop : ∀ c ∈ rest.head?, p c = false)
    (stop' : ∀ c ∈ other.head?, p c = false) (same : u ++ rest = v ++ other) :
    u = v ∧ rest = other := by
  induction u generalizing v with
  | nil =>
    cases v with
    | nil => exact ⟨rfl, same⟩
    | cons d v =>
      have first : d ∈ rest.head? := by
        rw [List.nil_append] at same
        rw [same]
        rfl
      have wrong := stop d first
      rw [List.all_eq_true.mp all' d List.mem_cons_self] at wrong
      cases wrong
  | cons c u ih =>
    rw [List.all_cons, Bool.and_eq_true] at all
    cases v with
    | nil =>
      have first : c ∈ other.head? := by
        rw [List.nil_append] at same
        rw [← same]
        rfl
      have wrong := stop' c first
      rw [all.1] at wrong
      cases wrong
    | cons d v =>
      rw [List.all_cons, Bool.and_eq_true] at all'
      obtain ⟨rfl, tails⟩ := List.cons.inj same
      obtain ⟨rfl, rests⟩ := ih all.2 all'.2 tails
      exact ⟨rfl, rests⟩

theorem Derives.ne_nil {p : Phrase} {ts : List Token} {e : Expr} (derives : Derives p ts e) :
    ts ≠ [] := by
  induction derives with
  | bare _ ih | factor _ ih | term _ ih => exact ih
  | _ => simp

namespace IsOperand

variable {a b : Text} {d e : Expr}

theorem ne_nil (operand : IsOperand a e) : a ≠ [] := by
  rintro rfl
  obtain ⟨ts, lexes, derives⟩ := operand.parses
  have none : ts = [] := lexes.unique .done
  exact derives.ne_nil none

/-- An operand begins with no character of a sign. -/
theorem stops (operand : IsOperand a e) (rest : Text) :
    ∀ c ∈ (a ++ rest).head?, isJoint c = false := by
  obtain ⟨first, others, rfl⟩ := List.exists_cons_of_ne_nil operand.ne_nil
  have apart := operand.apart
  rw [List.all_cons, Bool.and_eq_true] at apart
  rintro c ⟨⟩
  simpa using apart.1

theorem cut (first : IsOperand a d) (second : IsOperand b e) {rest other : Text}
    (stop : ∀ c ∈ rest.head?, isJoint c = true) (stop' : ∀ c ∈ other.head?, isJoint c = true)
    (same : a ++ rest = b ++ other) : d = e ∧ rest = other := by
  have stops : ∀ c ∈ rest.head?, (!isJoint c) = false := by
    intro c head
    rw [stop c head]
    rfl
  have stops' : ∀ c ∈ other.head?, (!isJoint c) = false := by
    intro c head
    rw [stop' c head]
    rfl
  obtain ⟨rfl, rests⟩ := cut_unique first.apart second.apart stops stops' same
  exact ⟨first.parses.unique second.parses, rests⟩

end IsOperand

theorem Relation.symbol_spec (r : Relation) :
    r.symbol.toList.all isJoint = true ∧
      ∀ rest : Text, ∀ c ∈ (r.symbol.toList ++ rest).head?, isJoint c = true := by
  cases r <;> exact ⟨by decide, by rintro rest _ ⟨⟩; decide⟩

theorem LogicOp.symbol_spec (op : LogicOp) :
    op.symbol.toList.all isJoint = true ∧
      ∀ rest : Text, ∀ c ∈ (op.symbol.toList ++ rest).head?, isJoint c = true := by
  cases op <;> exact ⟨by decide, by rintro rest _ ⟨⟩; decide⟩

theorem Relation.symbol_inj {r s : Relation} (same : r.symbol.toList = s.symbol.toList) : r = s := by
  cases r <;> cases s <;> first | rfl | exact absurd same (by decide)

theorem LogicOp.symbol_inj {o p : LogicOp} (same : o.symbol.toList = p.symbol.toList) : o = p := by
  cases o <;> cases p <;> first | rfl | exact absurd same (by decide)

namespace Condition

theorem cut_comparison {a b a' b' rest rest' : Text} {l r l' r' : Expr} {relation relation' : Relation}
    (left : IsOperand a l) (right : IsOperand b r) (left' : IsOperand a' l')
    (right' : IsOperand b' r') (stop : ∀ c ∈ rest.head?, isJoint c = true)
    (stop' : ∀ c ∈ rest'.head?, isJoint c = true)
    (same : a ++ (relation.symbol.toList ++ (b ++ rest)) =
      a' ++ (relation'.symbol.toList ++ (b' ++ rest'))) :
    (⟨l, relation, r⟩ : Comparison Expr) = ⟨l', relation', r'⟩ ∧ rest = rest' := by
  obtain ⟨rfl, signs⟩ := left.cut left' (relation.symbol_spec.2 _) (relation'.symbol_spec.2 _) same
  obtain ⟨symbols, operands⟩ := cut_unique relation.symbol_spec.1 relation'.symbol_spec.1
    (right.stops rest) (right'.stops rest') signs
  obtain ⟨rfl, rests⟩ := right.cut right' stop stop' operands
  rw [Relation.symbol_inj symbols]
  exact ⟨rfl, rests⟩

theorem Spells.stops {text : Text} {c : Condition Expr} (spells : Spells text c) :
    ∀ d ∈ text.head?, isJoint d = false := by
  cases spells with
  | comparison relation left _ => exact left.stops _
  | join relation op left _ _ => exact left.stops _

/-- A text is one chain at most. -/
theorem Spells.unique {text : Text} {c d : Condition Expr} (first : Spells text c)
    (second : Spells text d) : c = d := by
  have nothing : ∀ c ∈ ([] : Text).head?, isJoint c = true := by
    rintro _ ⟨⟩
  induction first generalizing d with
  | @comparison a b _ _ relation left right =>
    generalize whole : a ++ (relation.symbol.toList ++ b) = text at second
    rw [← List.append_nil b] at whole
    cases second with
    | comparison relation' left' right' =>
      rename_i b' _ _
      rw [← List.append_nil b'] at whole
      rw [(cut_comparison left right left' right' nothing nothing whole).1]
    | join relation' op left' right' _ =>
      have rest := (cut_comparison left right left' right' nothing (op.symbol_spec.2 _) whole).2
      cases op <;> cases rest
  | @join a b text _ _ c relation op left right inner ih =>
    generalize whole : a ++ (relation.symbol.toList ++ (b ++ (op.symbol.toList ++ text))) = all
      at second
    cases second with
    | comparison relation' left' right' =>
      rename_i b' _ _
      rw [← List.append_nil b'] at whole
      have rest := (cut_comparison left right left' right' (op.symbol_spec.2 _) nothing whole).2
      cases op <;> cases rest
    | join relation' op' left' right' inner' =>
      obtain ⟨comparison, rest⟩ := cut_comparison left right left' right' (op.symbol_spec.2 _)
        (op'.symbol_spec.2 _) whole
      obtain ⟨symbols, rfl⟩ := cut_unique op.symbol_spec.1 op'.symbol_spec.1 inner.stops
        inner'.stops rest
      rw [comparison, LogicOp.symbol_inj symbols, ih inner']

end Condition

/-! ### The text of a chain -/

mutual
theorem Expr.allNames_of_isPlain : (e : Expr) → e.isPlain = true → e.allNames isWord = true
  | .var name _, plain => isWord_of_isName plain
  | .literal _, _ => rfl
  | .binary _ l r, plain => by
    obtain ⟨left, right⟩ := Bool.and_eq_true_iff.mp plain
    exact Bool.and_eq_true_iff.mpr ⟨allNames_of_isPlain l left, allNames_of_isPlain r right⟩
  | .negate e, plain => allNames_of_isPlain e plain
  | .swizzle b c, plain => by
    obtain ⟨both, _⟩ := Bool.and_eq_true_iff.mp plain
    obtain ⟨base, components⟩ := Bool.and_eq_true_iff.mp both
    exact Bool.and_eq_true_iff.mpr ⟨allNames_of_isPlain b base, isWord_of_isName components⟩
  | .index b i _, plain => by
    obtain ⟨base, place⟩ := Bool.and_eq_true_iff.mp plain
    exact Bool.and_eq_true_iff.mpr ⟨allNames_of_isPlain b base, allNames_of_isPlain i place⟩
  | .call _ as, plain => argumentNames_of_arePlain as plain
  | .construct _ as, plain => argumentNames_of_arePlain as plain
  | .group e, plain => allNames_of_isPlain e plain
theorem Expr.argumentNames_of_arePlain : (as : List Expr) → Expr.arePlain as = true →
    Expr.argumentNames isWord as = true
  | [], _ => rfl
  | a :: as, plain => by
    obtain ⟨first, others⟩ := Bool.and_eq_true_iff.mp plain
    exact Bool.and_eq_true_iff.mpr ⟨allNames_of_isPlain a first, argumentNames_of_arePlain as others⟩
end

theorem apart_of_printed {text : Text} (printed : text.all isPrinted = true) :
    text.all (!isJoint ·) = true := by
  apply List.all_eq_true.mpr
  intro c mem
  cases joint : isJoint c with
  | false => rfl
  | true =>
    refine absurd mem (notMem_of_printed printed ?_)
    simp only [isJoint, List.contains_iff_mem, List.mem_cons, List.not_mem_nil, or_false] at joint
    rcases joint with rfl | rfl | rfl | rfl | rfl | rfl | rfl <;> decide

theorem Lexes.spaces {text : Text} {ts : List Token} (lexes : Lexes text ts) (n : Nat) :
    Lexes (List.replicate n ' ' ++ text) ts := by
  induction n with
  | zero => exact lexes
  | succ n ih => exact .space rfl ih

theorem isOperand_chars {e : Expr} (plain : e.isPlain = true) (n m : Nat) :
    IsOperand (List.replicate n ' ' ++ (e.chars ++ List.replicate m ' ')) e.normal := by
  have spaces (n : Nat) : (List.replicate n ' ').all (!isJoint ·) = true := by
    apply List.all_eq_true.mpr
    intro c mem
    rw [(List.mem_replicate.mp mem).2]
    decide
  constructor
  · have named := Expr.allNames_mono isSpelled_of_isWord e (e.allNames_of_isPlain plain)
    rw [List.all_append, List.all_append, spaces, spaces,
      apart_of_printed (e.printed_chars named)]
    rfl
  · obtain ⟨p, _, derives⟩ := e.derives_tokens
    have ends : e.Ends (List.replicate m ' ') := by
      cases m with
      | zero => exact e.ends_nil
      | succ m => exact e.ends_cons _ rfl (by decide)
    have after : Lexes (List.replicate m ' ') [] := by
      have lexes := Lexes.done.spaces m
      rwa [List.append_nil] at lexes
    have lexes := (e.lexes_chars plain _ _ ends after).spaces n
    rw [List.append_nil] at lexes
    refine ⟨e.tokens, ?_, derives.weaken p.one_le_strength⟩
    rw [String.toList_ofList]
    exact lexes

namespace Condition

theorem spells_chars {c : Condition Expr} (plain : c.all Expr.isPlain = true) (n : Nat) :
    Spells (List.replicate n ' ' ++ c.chars) (c.map Expr.normal) := by
  obtain ⟨first, rest⟩ := c
  induction rest generalizing first n with
  | nil =>
    obtain ⟨both, _⟩ := Bool.and_eq_true_iff.mp plain
    obtain ⟨left, right⟩ := Bool.and_eq_true_iff.mp both
    have text : List.replicate n ' ' ++ chars ⟨first, []⟩ =
        (List.replicate n ' ' ++ (first.lhs.chars ++ List.replicate 1 ' ')) ++
          (first.relation.symbol.toList ++
            (List.replicate 1 ' ' ++ (first.rhs.chars ++ List.replicate 0 ' '))) := by
      simp [chars, Comparison.chars]
    rw [text]
    exact .comparison first.relation (isOperand_chars left n 1) (isOperand_chars right 1 0)
  | cons joined rest ih =>
    obtain ⟨both, others⟩ := Bool.and_eq_true_iff.mp plain
    obtain ⟨left, right⟩ := Bool.and_eq_true_iff.mp both
    obtain ⟨op, second⟩ := joined
    have text : List.replicate n ' ' ++ chars ⟨first, (op, second) :: rest⟩ =
        (List.replicate n ' ' ++ (first.lhs.chars ++ List.replicate 1 ' ')) ++
          (first.relation.symbol.toList ++
            ((List.replicate 1 ' ' ++ (first.rhs.chars ++ List.replicate 1 ' ')) ++
              (op.symbol.toList ++ (List.replicate 1 ' ' ++ chars ⟨second, rest⟩)))) := by
      simp [chars, Comparison.chars]
    rw [text]
    exact .join first.relation op (isOperand_chars left n 1) (isOperand_chars right 1 1)
      (ih 1 second others)

/-- A text read as a condition of the language, `&&` before `^^` before `||`. -/
def Means (text : Text) (tree : Junction (Comparison Expr)) : Prop :=
  ∃ c, Spells text c ∧ Groups LogicOp.or.strength c tree

theorem means_render {c : Condition Expr} (plain : c.all Expr.isPlain = true)
    (tree : Junction (Comparison Expr)) :
    Means c.render.toList tree ↔ tree = (c.map Expr.normal).byPrecedence := by
  have spells := spells_chars plain 0
  rw [List.replicate_zero, List.nil_append, ← c.toList_render] at spells
  constructor
  · rintro ⟨d, spells', groups⟩
    rw [spells.unique spells']
    exact groups.unique
  · rintro rfl
    exact ⟨c.map Expr.normal, spells, groups_byPrecedence _⟩

theorem isLoosening_map {ε δ : Type} {f : ε → δ} {c : Condition ε} :
    (c.map f).IsLoosening ↔ c.IsLoosening := by
  rw [IsLoosening, map, List.pairwise_map]
  rfl

/-- The text of a chain has one tree, over the comparisons of the chain in their order. For every
truth of the comparisons it has the value of the chain joined from the left to the right, if and
only if no join is tighter than one before it. -/
theorem means_leftToRight_iff {c : Condition Expr} (plain : c.all Expr.isPlain = true) :
    ∃ tree, (∀ other, Means c.render.toList other ↔ other = tree) ∧
      tree.leaves = (c.map Expr.normal).comparisons ∧
      ((∀ truth, tree.value truth 0 = c.leftToRight.value truth 0) ↔ c.IsLoosening) := by
  refine ⟨(c.map Expr.normal).byPrecedence, means_render plain, leaves_byPrecedence _, ?_⟩
  rw [← isLoosening_map (f := Expr.normal)]
  constructor
  · intro agree
    apply isLoosening_of_agree
    intro truth
    rw [agree truth, value_leftToRight_map]
  · intro loosening truth
    rw [byPrecedence_eq_leftToRight loosening, value_leftToRight_map]

def less (a b : String) : Comparison Expr := ⟨.var a (some .float), .lt, .var b (some .float)⟩

theorem means_leftToRight_and_or :
    let c : Condition Expr := ⟨less "a" "b", [(.and, less "c" "d"), (.or, less "e" "f")]⟩
    c.all Expr.isPlain = true ∧ c.IsLoosening ∧
      ∃ tree, Means c.render.toList tree ∧
        ∀ truth, tree.value truth 0 = c.leftToRight.value truth 0 := by
  intro c
  have plain : c.all Expr.isPlain = true := by decide
  have loosening : c.IsLoosening := by
    simp [c, IsLoosening, LogicOp.strength]
  obtain ⟨tree, only, _, agree⟩ := means_leftToRight_iff plain
  exact ⟨plain, loosening, tree, (only tree).mpr rfl, agree.mpr loosening⟩

/-- Of `a < b || c < d && e < f` the last two comparisons are read as joined first. -/
theorem means_otherwise_or_and :
    let c : Condition Expr := ⟨less "a" "b", [(.or, less "c" "d"), (.and, less "e" "f")]⟩
    ∃ tree, Means c.render.toList tree ∧
      tree.value (fun n => n = 0) 0 = true ∧ c.leftToRight.value (fun n => n = 0) 0 = false := by
  intro c
  have plain : c.all Expr.isPlain = true := by decide
  exact ⟨(c.map Expr.normal).byPrecedence, (means_render plain _).mpr rfl, by decide, by decide⟩

end Condition

end ShaderComposer
