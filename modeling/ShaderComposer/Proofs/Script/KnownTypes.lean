import ShaderComposer.Proofs.Script.Checking

/-!
# Known types

Inference gives up where a type is unknown or a combination is none that the language has. If every
variable and every indexing carries a type and every call has an argument, it gives up at mistakes
alone, and the check finds those: what passes has a type (`Expr.exists_type`). So a strict body
compares the types of every assignment between such expressions, and those it accepts fit
(`Expr.known_of_passes`).
-/

namespace ShaderComposer

namespace Expr

mutual
/-- Variables and indexings carry types and calls have arguments, everywhere in the tree. -/
def isTyped : Expr → Bool
  | var _ ty => ty.isSome
  | literal _ => true
  | binary _ l r => l.isTyped && r.isTyped
  | negate e | swizzle e _ | group e => e.isTyped
  | index b i ty => ty.isSome && (b.isTyped && i.isTyped)
  | call _ as => !as.isEmpty && areTyped as
  | construct _ as => areTyped as
def areTyped : List Expr → Bool
  | [] => true
  | a :: as => a.isTyped && areTyped as
end

/-! ### One node at a time -/

theorem exists_type_binary {op : BinaryOp} {l r : Expr} (left : ∃ s, l.type = some s)
    (right : ∃ t, r.type = some t) (fine : operandFault op l r = none) :
    ∃ u, (binary op l r).type = some u := by
  obtain ⟨s, left⟩ := left
  obtain ⟨t, right⟩ := right
  unfold operandFault at fine
  rw [left, right] at fine
  rw [type, left, right]
  cases result : op.resultType s t with
  | none => simp [result] at fine
  | some u => exact ⟨u, result⟩

/-- One to four components are a scalar or a vector, whatever they are selected from. -/
theorem exists_type_swizzle {base : Expr} {components : String}
    (fine : swizzleFault base components = none) :
    ∃ u, (swizzle base components).type = some u := by
  unfold swizzleFault at fine
  split at fine
  · cases fine
  · next length =>
    rw [type]
    generalize components.utf8ByteSize = n at length
    obtain rfl | rfl | rfl | rfl : n = 1 ∨ n = 2 ∨ n = 3 ∨ n = 4 := by omega
    all_goals exact ⟨_, rfl⟩

theorem exists_type_call {f : Builtin} {as : List Expr} (first : ∃ t, firstType as = some t) :
    ∃ u, (call f as).type = some u := by
  obtain ⟨t, first⟩ := first
  rw [type, first]
  cases f <;> exact ⟨_, rfl⟩

/-! ### Trees -/

mutual
theorem exists_type : ∀ e : Expr, e.isTyped = true → e.check = none → ∃ t, e.type = some t
  | var _ _, typed, _ => Option.isSome_iff_exists.mp typed
  | literal l, _, _ => ⟨l.type, rfl⟩
  | binary op l r, typed, fine => by
    obtain ⟨typedLeft, typedRight⟩ := Bool.and_eq_true_iff.mp typed
    obtain ⟨left, both⟩ := Option.or_eq_none_iff.mp fine
    obtain ⟨right, here⟩ := Option.or_eq_none_iff.mp both
    exact exists_type_binary (exists_type l typedLeft left) (exists_type r typedRight right) here
  | negate e, typed, fine => exists_type e typed fine
  | swizzle _ _, _, fine => exists_type_swizzle (Option.or_eq_none_iff.mp fine).2
  | index _ _ _, typed, _ => Option.isSome_iff_exists.mp (Bool.and_eq_true_iff.mp typed).1
  | call _ as, typed, fine => by
    obtain ⟨nonempty, typed⟩ := Bool.and_eq_true_iff.mp typed
    exact exists_type_call (exists_firstType as (by simpa using nonempty) typed fine)
  | construct ty _, _, _ => ⟨ty, rfl⟩
  | group e, typed, fine => exists_type e typed fine
theorem exists_firstType : ∀ as : List Expr, as ≠ [] → areTyped as = true → checkAll as = none →
    ∃ t, firstType as = some t
  | [], nonempty, _, _ => absurd rfl nonempty
  | a :: _, _, typed, fine =>
    exists_type a (Bool.and_eq_true_iff.mp typed).1 (Option.or_eq_none_iff.mp fine).1
end

/-- A call without arguments passes and has no type. -/
example : (call .abs []).check = none ∧ (call .abs []).type = none := ⟨rfl, rfl⟩

end Expr

/-! ### Assignments -/

namespace Body

variable {op : AssignOp} {target value : Expr}

theorem fits_of_typed (left : target.isTyped = true) (right : value.isTyped = true)
    (fine : assignMismatch op target value = none) :
    ∃ t v, target.type = some t ∧ value.type = some v ∧ fits op t v = true := by
  obtain ⟨passes, passes'⟩ := check_of_assignMismatch fine
  obtain ⟨t, known⟩ := target.exists_type left passes
  obtain ⟨v, known'⟩ := value.exists_type right passes'
  exact ⟨t, v, known, known', fits_of_assignMismatch fine known known'⟩

theorem mismatch?_of_accepted {b : Body} (strict : b.strict = true) (new : b.nextSegment = b)
    {calls : List (Call Expr)} {block : List Stmt} (ok : (b.performAll calls).segment = .ok block)
    {s : Stmt} (leaf : s ∈ Stmt.leaves block) : s.mismatch? = none := by
  have calm := ((segment_eq_ok_iff _ block).mp ok).1
  have either := (records_of_calm strict calm).leaves s
  rw [gather_of_segment _ _ ok, gather_of_new _ _ new] at either
  exact (either leaf).resolve_left List.not_mem_nil

end Body

/-- What passes has a type. In what a strict body accepts, the types of both sides of an assignment
at any depth are known and fit. -/
theorem Expr.known_of_passes :
    (∀ e : Expr, e.isTyped = true → e.check = none → ∃ t, e.type = some t) ∧
    ∀ (b : Body) (calls : List (Call Expr)) (block : List Stmt), b.strict = true →
      b.nextSegment = b → (b.performAll calls).segment = .ok block →
      ∀ target op value, .assign target op value ∈ Stmt.leaves block →
        target.isTyped = true → value.isTyped = true →
        ∃ t v, target.type = some t ∧ value.type = some v ∧ Body.fits op t v = true := by
  refine ⟨Expr.exists_type, ?_⟩
  intro b calls block strict new ok target op value leaf left right
  exact Body.fits_of_typed left right (Body.mismatch?_of_accepted strict new ok leaf)

namespace Expr

def normalVariable : Expr := .var "n" (some .vec3)

/-- `(-(bones[int(i)] * clamp(p, 0.0, 1.0))).xyz`. -/
def skinned : Expr :=
  .swizzle (.group (.negate (.binary .mul
    (.index (.var "bones" (some .mat4)) (.construct .int [.var "i" (some .float)]) (some .mat4))
    (.call .clamp [.var "p" (some .vec4), .float 0.0, .float 1.0])))) "xyz"

def skinnedCalls : List (Call Expr) :=
  [.startIf (.compare (.float 0.0) .lt (.float 1.0)), .assign .set normalVariable skinned, .endIf]

theorem known_of_passes_skinned :
    skinned.isTyped = true ∧ skinned.check = none ∧ (∃ t, skinned.type = some t) ∧
    ∃ block, ((Body.empty .vertex true).performAll skinnedCalls).segment = .ok block ∧
      .assign normalVariable .set skinned ∈ Stmt.leaves block ∧
      ∃ t v, normalVariable.type = some t ∧ skinned.type = some v ∧ Body.fits .set t v = true := by
  obtain ⟨types, fits⟩ := known_of_passes
  have passes : skinned.check = none := rfl
  have leaf : .assign normalVariable .set skinned ∈
      Stmt.leaves ((Body.empty .vertex true).performAll skinnedCalls).statements :=
    List.mem_cons_self
  refine ⟨rfl, passes, types _ rfl passes, _, rfl, leaf, ?_⟩
  exact fits (.empty .vertex true) skinnedCalls _ rfl rfl rfl _ _ _ leaf rfl rfl

end Expr

end ShaderComposer
