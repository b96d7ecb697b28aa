import ShaderComposer.Glsl.Variable
import ShaderComposer.Proofs.Numeric.Rounding

/-!
# Sameness of expressions

Initial values are compared as trees, and float literals in them as numbers. Two trees are the same
just when they differ in nothing but the signs of zeros and hold no NaN (`Expr.same_iff`). So a tree
is the same as itself if and only if no NaN is in it, and what it is printed as is not looked at.
-/

namespace ShaderComposer

/-! ### Numbers -/

namespace Single

/-- The word with the sign of a zero taken off. -/
def level (x : Single) : Single := if x.isZero then zero else x

theorem magnitude_lt (x : Single) : x.exponent * 0x800000 + x.fraction < 0x80000000 := by
  have := x.exponent_lt
  have := x.fraction_lt
  omega

theorem isZero_iff {x : Single} : x.isZero = true ↔ x.exponent = 0 ∧ x.fraction = 0 := by
  unfold isZero isFinite units
  by_cases subnormal : x.exponent = 0
  · simp [subnormal]
  · have positive : (x.fraction + 0x800000) <<< (x.exponent - 1) ≠ 0 := by
      rw [Nat.shiftLeft_eq]
      exact Nat.mul_ne_zero (by omega) (Nat.pos_iff_ne_zero.mp (Nat.two_pow_pos _))
    simp [subnormal, positive]

theorem eq_of_toNat_bits {x y : Single} (same : x.bits.toNat = y.bits.toNat) : x = y := by
  obtain ⟨a⟩ := x
  obtain ⟨b⟩ := y
  exact congrArg Single.mk (UInt32.toNat_inj.mp same)

/-- A word's rank is its magnitude under its sign. -/
theorem rank_eq (x : Single) :
    x.rank = if x.isNegative then -((x.exponent * 0x800000 + x.fraction : Nat) : Int)
      else (x.exponent * 0x800000 + x.fraction : Nat) := by
  have bound := x.magnitude_lt
  have bits := x.bits_eq
  unfold rank
  cases sign : x.isNegative <;>
    simp only [sign, Bool.false_eq_true, if_true, if_false] at bits ⊢ <;> omega

theorem isNaN_eq_false_of_isZero {x : Single} (zero : x.isZero = true) : x.isNaN = false := by
  simp [isNaN, (isZero_iff.mp zero).1]

theorem rank_eq_zero_iff {x : Single} : x.rank = 0 ↔ x.isZero = true := by
  rw [isZero_iff, rank_eq]
  split <;> omega

/-- Past the zeros a rank belongs to one word. -/
theorem eq_of_rank_eq {x y : Single} (same : x.rank = y.rank) (nonzero : x.isZero = false) :
    x = y := by
  have apart : x.rank ≠ 0 := fun zero => by
    rw [rank_eq_zero_iff.mp zero] at nonzero
    cases nonzero
  refine eq_of_toNat_bits ?_
  rw [x.bits_eq, y.bits_eq]
  rw [rank_eq] at same apart
  rw [rank_eq] at same
  cases signx : x.isNegative <;> cases signy : y.isNegative <;>
    simp only [signx, signy, Bool.false_eq_true, if_true, if_false] at same apart ⊢ <;> omega

theorem level_eq_of_rank_eq {x y : Single} (same : x.rank = y.rank) : x.level = y.level := by
  unfold level
  cases zero : x.isZero with
  | true =>
    have zeros : y.isZero = true := rank_eq_zero_iff.mp (same ▸ rank_eq_zero_iff.mpr zero)
    rw [zeros, if_pos rfl, if_pos rfl]
  | false =>
    obtain rfl := eq_of_rank_eq same zero
    rw [zero]

theorem rank_level (x : Single) : x.level.rank = x.rank := by
  unfold level
  split
  · next zero => exact (rank_eq_zero_iff.mpr zero).symm
  · rfl

theorem isNaN_level (x : Single) : x.level.isNaN = x.isNaN := by
  unfold level
  split
  · next zero => exact (isNaN_eq_false_of_isZero zero).symm
  · rfl

theorem same_iff {x y : Single} : x.same y = true ↔ x.isNaN = false ∧ x.level = y.level := by
  have unfolded : x.same y = true ↔ x.isNaN = false ∧ y.isNaN = false ∧ x.rank = y.rank := by
    simp [same, and_assoc]
  rw [unfolded]
  constructor
  · rintro ⟨number, _, ranks⟩
    exact ⟨number, level_eq_of_rank_eq ranks⟩
  · rintro ⟨number, levels⟩
    refine ⟨number, ?_, ?_⟩
    · rw [← y.isNaN_level, ← levels, x.isNaN_level, number]
    · rw [← x.rank_level, levels, y.rank_level]

end Single

/-! ### Trees -/

namespace Literal

def isNaN : Literal → Bool
  | float v => v.isNaN
  | _ => false

def level : Literal → Literal
  | float v => float v.level
  | l => l

theorem same_iff {a b : Literal} : a.same b = true ↔ a.isNaN = false ∧ a.level = b.level := by
  cases a <;> cases b <;> simp [same, isNaN, level, Single.same_iff]

end Literal

namespace Expr

mutual
/-- Some literal in the tree is a NaN. -/
def hasNaN : Expr → Bool
  | var _ _ => false
  | literal l => l.isNaN
  | binary _ l r => l.hasNaN || r.hasNaN
  | negate e => e.hasNaN
  | swizzle b _ => b.hasNaN
  | index b i _ => b.hasNaN || i.hasNaN
  | call _ as => anyNaN as
  | construct _ as => anyNaN as
  | group e => e.hasNaN
def anyNaN : List Expr → Bool
  | [] => false
  | a :: as => a.hasNaN || anyNaN as
end

mutual
/-- The tree with the signs of all zeros taken off. -/
def level : Expr → Expr
  | var n t => var n t
  | literal l => literal l.level
  | binary op l r => binary op l.level r.level
  | negate e => negate e.level
  | swizzle b c => swizzle b.level c
  | index b i t => index b.level i.level t
  | call f as => call f (levelAll as)
  | construct t as => construct t (levelAll as)
  | group e => group e.level
def levelAll : List Expr → List Expr
  | [] => []
  | a :: as => a.level :: levelAll as
end

mutual
-- the parts decide one after the other in `same`, and each on its own on the right-hand side
theorem same_iff : (a b : Expr) → (a.same b = true ↔ a.hasNaN = false ∧ a.level = b.level)
  | var _ _, b => by cases b <;> simp [same, hasNaN, level]
  | literal l, b => by cases b <;> simp [same, hasNaN, level, Literal.same_iff]
  | binary _ l r, b => by
    cases b <;> simp [same, hasNaN, level, same_iff l, same_iff r, and_assoc, and_left_comm]
  | negate e, b => by cases b <;> simp [same, hasNaN, level, same_iff e]
  | swizzle s _, b => by cases b <;> simp [same, hasNaN, level, same_iff s, and_assoc]
  | index s i _, b => by
    cases b <;> simp [same, hasNaN, level, same_iff s, same_iff i, and_assoc, and_left_comm]
  | call _ as, b => by cases b <;> simp [same, hasNaN, level, sameAll_iff as, and_left_comm]
  | construct _ as, b => by cases b <;> simp [same, hasNaN, level, sameAll_iff as, and_left_comm]
  | group e, b => by cases b <;> simp [same, hasNaN, level, same_iff e]
theorem sameAll_iff : (as bs : List Expr) →
    (sameAll as bs = true ↔ anyNaN as = false ∧ levelAll as = levelAll bs)
  | [], bs => by cases bs <;> simp [sameAll, anyNaN, levelAll]
  | a :: as, bs => by
    cases bs <;>
      simp [sameAll, anyNaN, levelAll, same_iff a, sameAll_iff as, and_assoc, and_left_comm]
end

example :
    (float ⟨0x80000000⟩).same (float ⟨0⟩) = true ∧ (float .nan).same (float .nan) = false := by
  decide

end Expr

theorem Variable.sameInitial_iff {a b : Option Expr} :
    sameInitial a b = true ↔
      (∀ value ∈ a, value.hasNaN = false) ∧ a.map Expr.level = b.map Expr.level := by
  cases a <;> cases b <;> simp [sameInitial, Expr.same_iff]

end ShaderComposer
