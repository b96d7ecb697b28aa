import Mathlib.Data.List.Forall2
import ShaderComposer.Body

/-!
# The typing rules of the language

What the language itself says of types, apart from what inference finds out: operators, selections,
indexing, constructors, and functions with all their overloads. Indexing an array is left out.

A well-typed expression passes the check and gets its type or none, with one exception. `step` has
overloads whose first argument is a float and whose result is a vector, and the result is inferred
from the first argument. Without such a call a strict body reports no assignment of a type to
itself; with one it reports assignments that are fine (`Expr.passes_unless_mixed`).
-/

namespace ShaderComposer

/-! ### Overloads -/

structure Overload where
  arguments : List DataType
  result : DataType
deriving DecidableEq

namespace Overload

def floats : List DataType := [.float, .vec2, .vec3, .vec4]

def vectors : List DataType := [.vec2, .vec3, .vec4]

/-- `n` arguments of a type, and a result of that type, for each of the types. -/
def uniformly (n : Nat) (types : List DataType) : List Overload :=
  types.map fun t => ⟨List.replicate n t, t⟩

/-- A lookup in a texture, at coordinates of these types, with or without a bias. -/
def lookup (sampler : DataType) (coordinates : List DataType) : List Overload :=
  coordinates.flatMap fun t => [⟨[sampler, t], .vec4⟩, ⟨[sampler, t, .float], .vec4⟩]

end Overload

open Overload in
/-- The overloads of each function that the value types can express, of all versions of the
language. One- and three-dimensional textures have no sampler type here. -/
def Builtin.overloads : Builtin → List Overload
  | .acos | .cos | .floor | .fract | .inverseSqrt | .normalize | .radians | .sin | .sqrt | .tan =>
    uniformly 1 floats
  | .abs => uniformly 1 (.int :: floats)
  | .atan => uniformly 1 floats ++ uniformly 2 floats
  | .pow | .reflect => uniformly 2 floats
  | .min | .max => uniformly 2 (.int :: floats) ++ vectors.map fun t => ⟨[t, .float], t⟩
  | .mod => uniformly 2 floats ++ vectors.map fun t => ⟨[t, .float], t⟩
  | .step => uniformly 2 floats ++ vectors.map fun t => ⟨[.float, t], t⟩
  | .clamp => uniformly 3 (.int :: floats) ++ vectors.map fun t => ⟨[t, .float, .float], t⟩
  | .mix => uniformly 3 floats ++ vectors.map (fun t => ⟨[t, t, .float], t⟩) ++
      [⟨[.float, .float, .bool], .float⟩]
  | .length => floats.map fun t => ⟨[t], .float⟩
  | .dot | .distance => floats.map fun t => ⟨[t, t], .float⟩
  | .cross => [⟨[.vec3, .vec3], .vec3⟩]
  | .texture2D => lookup .sampler2D [.vec2] ++ [⟨[.samplerExternal, .vec2], .vec4⟩]
  | .texture2DProj => lookup .sampler2D [.vec3, .vec4] ++
      [⟨[.samplerExternal, .vec3], .vec4⟩, ⟨[.samplerExternal, .vec4], .vec4⟩]
  | .textureCube => lookup .samplerCube [.vec3]
  | .texture1D | .texture3D => []

/-! ### Rules -/

namespace DataType

def isNumeric (t : DataType) : Bool := !t.isSampler && t != .bool

/-- How many scalars a value holds. -/
def scalars : DataType → Nat
  | float | int | bool => 1
  | vec2 => 2
  | vec3 => 3
  | vec4 => 4
  | mat3 => 9
  | mat4 => 16
  | sampler2D | samplerCube | samplerExternal => 0

def totalScalars : List DataType → Nat
  | [] => 0
  | t :: ts => t.scalars + totalScalars ts

end DataType

/-- What an operator makes of its operands: component by component, or as linear algebra does. -/
inductive Operates : BinaryOp → DataType → DataType → DataType → Prop
  | integers (op : BinaryOp) : Operates op .int .int .int
  | componentwise {op : BinaryOp} {t : DataType} :
      op ≠ .rem → t.isNumeric → t ≠ .int → Operates op t t t
  | scaledLeft {op : BinaryOp} {t : DataType} :
      op ≠ .rem → t.isVector || t.isMatrix → Operates op .float t t
  | scaledRight {op : BinaryOp} {t : DataType} :
      op ≠ .rem → t.isVector || t.isMatrix → Operates op t .float t
  | column {m v : DataType} : m.isMatrix → m.element = some v → Operates .mul m v v
  | row {m v : DataType} : m.isMatrix → m.element = some v → Operates .mul v m v

/-- A selection of one to four of the first components, by names of one family. -/
structure Selects (width : Nat) (components : List Char) : Prop where
  some : components ≠ []
  few : components.length ≤ 4
  family : ∃ family ∈ componentFamilies, ∀ c ∈ components, c ∈ family.take width

/-- Which arguments a constructor takes. -/
inductive Constructs : DataType → List DataType → Prop
  /-- Scalars enough, and no argument beyond. -/
  | fill {t : DataType} {ts : List DataType} :
      (∀ s ∈ ts, s.isSampler = false) → t.scalars ≤ DataType.totalScalars ts →
      DataType.totalScalars ts.dropLast < t.scalars → Constructs t ts
  /-- A scalar in every component or on the diagonal. -/
  | spread {t s : DataType} : t.isVector || t.isMatrix → s.isScalar → Constructs t [s]
  | resize {t s : DataType} : t.isMatrix → s.isMatrix → Constructs t [s]

namespace Expr

mutual
/-- The expression is well typed and has the type, if variables have the types they are given. -/
inductive HasType : Expr → DataType → Prop
  | var (name : String) (t : DataType) : HasType (.var name (some t)) t
  | literal (l : Literal) : HasType (.literal l) l.type
  | binary {op : BinaryOp} {l r : Expr} {s t u : DataType} :
      HasType l s → HasType r t → Operates op s t u → HasType (.binary op l r) u
  | negate {e : Expr} {t : DataType} : HasType e t → t.isNumeric → HasType (.negate e) t
  | swizzle {e : Expr} {v t : DataType} {width : Nat} {components : String} :
      HasType e v → v.isVector → v.components = some width → Selects width components.toList →
      DataType.floatVector components.length = some t → HasType (.swizzle e components) t
  | index {e i : Expr} {s t : DataType} {given : Option DataType} :
      HasType e s → HasType i .int → s.element = some t →
      given = none ∨ given = some t → HasType (.index e i given) t
  | call {f : Builtin} {as : List Expr} {ts : List DataType} {t : DataType} :
      HaveTypes as ts → ⟨ts, t⟩ ∈ f.overloads → HasType (.call f as) t
  | construct {t : DataType} {as : List Expr} {ts : List DataType} :
      HaveTypes as ts → Constructs t ts → HasType (.construct t as) t
  | group {e : Expr} {t : DataType} : HasType e t → HasType (.group e) t
inductive HaveTypes : List Expr → List DataType → Prop
  | nil : HaveTypes [] []
  | cons {a : Expr} {as : List Expr} {t : DataType} {ts : List DataType} :
      HasType a t → HaveTypes as ts → HaveTypes (a :: as) (t :: ts)
end

/-- An edge of type float and something that is not known to be a float. -/
def mixed : List Expr → Bool
  | [edge, x] => edge.type == some .float && x.type != some .float
  | _ => false

mutual
/-- Somewhere in the expression `step` has mixed arguments. -/
def mixesStep : Expr → Bool
  | var _ _ | literal _ => false
  | binary _ l r => l.mixesStep || r.mixesStep
  | negate e | swizzle e _ | group e => e.mixesStep
  | index b i _ => b.mixesStep || i.mixesStep
  | call f as => (f == .step && mixed as) || anyMixesStep as
  | construct _ as => anyMixesStep as
def anyMixesStep : List Expr → Bool
  | [] => false
  | a :: as => a.mixesStep || anyMixesStep as
end

end Expr

/-! ### Operators and selections -/

theorem BinaryOp.resultType_of_operates {op : BinaryOp} {s t u : DataType}
    (operates : Operates op s t u) : op.resultType s t = some u := by
  cases operates with
  | integers => cases op <;> rfl
  | componentwise plain numeric other => cases op <;> cases s <;> first | rfl | contradiction
  | scaledLeft plain shape => cases op <;> cases t <;> first | rfl | contradiction
  | scaledRight plain shape => cases op <;> cases s <;> first | rfl | contradiction
  | column matrix element => cases s <;> cases element <;> first | rfl | contradiction
  | row matrix element => cases t <;> cases element <;> first | rfl | contradiction

theorem idxOf_lt_of_mem_take {letters : List Char} {width : Nat} {c : Char}
    (mem : c ∈ letters.take width) : letters.idxOf c < width := by
  have found := List.idxOf_lt_length_of_mem mem
  have short := List.length_take_le width letters
  rw [← List.take_append_drop width letters, List.idxOf_append_of_mem mem]
  omega

theorem ascii_of_family {family : List Char} (known : family ∈ componentFamilies) {c : Char}
    (mem : c ∈ family) : c.utf8Size = 1 := by
  have table : (componentFamilies.all fun family => family.all (·.utf8Size == 1)) = true := by
    decide
  have row := List.all_eq_true.mp table family known
  exact beq_iff_eq.mp (List.all_eq_true.mp row c mem)

theorem family_unique {family other : List Char} (known : family ∈ componentFamilies)
    (also : other ∈ componentFamilies) {c : Char} (mem : c ∈ family) (inside : c ∈ other) :
    other = family := by
  have table : (componentFamilies.all fun family => componentFamilies.all fun other =>
      other == family || family.all fun c => !other.contains c) = true := by
    decide
  have row := List.all_eq_true.mp (List.all_eq_true.mp table family known) other also
  rcases Bool.or_eq_true_iff.mp row with same | apart
  · exact beq_iff_eq.mp same
  · have outside := List.all_eq_true.mp apart c mem
    simp [inside] at outside

theorem utf8ByteSize_of_ascii : ∀ {letters : List Char}, (∀ c ∈ letters, c.utf8Size = 1) →
    (String.ofList letters).utf8ByteSize = letters.length
  | [], _ => rfl
  | c :: letters, ascii => by
    have first := ascii c List.mem_cons_self
    have later := utf8ByteSize_of_ascii fun d mem => ascii d (List.mem_cons_of_mem c mem)
    rw [String.ofList_cons, String.utf8ByteSize_append, String.utf8ByteSize_singleton, first, later,
      List.length_cons, Nat.add_comm]

namespace Selects

variable {width : Nat} {components : List Char}

theorem componentPositions (selects : Selects width components) :
    ∃ positions, componentPositions components = Option.some positions ∧
      ∀ p ∈ positions, p < width := by
  obtain ⟨family, known, inside⟩ := selects.family
  have members : ∀ c ∈ components, c ∈ family :=
    fun c mem => List.mem_of_mem_take (inside c mem)
  have found : (componentFamilies.find? fun family => components.all (family.contains ·)) =
      Option.some family := by
    obtain ⟨first, some⟩ := List.exists_mem_of_ne_nil components selects.some
    cases search : componentFamilies.find? fun family => components.all (family.contains ·) with
    | none =>
      have missed := List.find?_eq_none.mp search family known
      exact absurd (by simpa using members) missed
    | some other =>
      have all := List.find?_some search
      have also : first ∈ other := by
        have every : ∀ c ∈ components, c ∈ other := by simpa using all
        exact every first some
      rw [family_unique known (List.mem_of_find?_eq_some search) (members first some) also]
  refine ⟨components.map (family.idxOf ·), by rw [ShaderComposer.componentPositions, found]; rfl, ?_⟩
  intro p mem
  obtain ⟨c, here, rfl⟩ := List.mem_map.mp mem
  exact idxOf_lt_of_mem_take (inside c here)

theorem utf8ByteSize {components : String} (selects : Selects width components.toList) :
    components.utf8ByteSize = components.length := by
  obtain ⟨family, known, inside⟩ := selects.family
  have ascii : ∀ c ∈ components.toList, c.utf8Size = 1 :=
    fun c mem => ascii_of_family known (List.mem_of_mem_take (inside c mem))
  have size := utf8ByteSize_of_ascii ascii
  rwa [String.ofList_toList, String.length_toList] at size

theorem swizzleFault {components : String} (selects : Selects width components.toList)
    {e : Expr} {v : DataType} (vector : v.isVector) (counted : v.components = Option.some width)
    (inferred : e.type = none ∨ e.type = Option.some v) : swizzleFault e components = none := by
  obtain ⟨positions, positioned, low⟩ := selects.componentPositions
  have size := selects.utf8ByteSize
  have nonempty : components.toList.length ≠ 0 := fun h => selects.some (List.length_eq_zero_iff.mp h)
  have few := selects.few
  rw [String.length_toList] at nonempty few
  unfold ShaderComposer.swizzleFault
  rw [if_neg (by omega), positioned]
  rcases inferred with unknown | known
  · rw [unknown]
  · rw [known]
    dsimp only
    rw [if_neg (by rw [vector]; decide), counted, if_pos]
    simpa using low

end Selects

/-! ### Calls -/

theorem Builtin.resultType_none (f : Builtin) (first : Option DataType) :
    f.resultType none = none ∨ f.resultType none = f.resultType first := by
  cases f <;> first | exact Or.inl rfl | exact Or.inr rfl

/-- The first argument tells the result, but for the mixed overloads of `step`. -/
theorem Builtin.resultType_of_overload (f : Builtin) : ∀ o ∈ f.overloads,
    f.resultType o.arguments.head? = some o.result ∨
      f = .step ∧ o.arguments = [.float, o.result] ∧ o.result ≠ .float := by
  cases f <;> decide

namespace Expr

/-- Inference gives the type or nothing, and the check finds no mistake. -/
structure Agrees (e : Expr) (t : DataType) : Prop where
  type : e.type = none ∨ e.type = some t
  check : e.check = none

theorem Agrees.binary {op : BinaryOp} {l r : Expr} {s t u : DataType} (left : l.Agrees s)
    (right : r.Agrees t) (operates : Operates op s t u) : Agrees (.binary op l r) u := by
  have result := op.resultType_of_operates operates
  have operands : operandFault op l r = none := by
    unfold operandFault
    rcases left.type with unknown | known <;> rcases right.type with unknown' | known' <;> simp [*]
  refine ⟨?_, by rw [Expr.check, left.check, right.check, operands]; rfl⟩
  rw [Expr.type]
  rcases left.type with unknown | known <;> rcases right.type with unknown' | known' <;> simp [*]

def AllAgree : List Expr → List DataType → Prop := List.Forall₂ Agrees

theorem AllAgree.checkAll {as : List Expr} {ts : List DataType} (agree : AllAgree as ts) :
    checkAll as = none := by
  induction agree with
  | nil => rfl
  | cons first _ ih => rw [Expr.checkAll, first.check, ih]; rfl

theorem AllAgree.firstType_eq {as : List Expr} {ts : List DataType} (agree : AllAgree as ts) :
    firstType as = none ∨ firstType as = ts.head? := by
  cases agree with
  | nil => exact Or.inl rfl
  | cons first _ => exact first.type

theorem AllAgree.call {f : Builtin} {as : List Expr} {ts : List DataType} {t : DataType}
    (agree : AllAgree as ts) (overload : ⟨ts, t⟩ ∈ f.overloads)
    (unmixed : (f == .step && mixed as) = false) : Agrees (.call f as) t := by
  refine ⟨?_, agree.checkAll⟩
  rw [type]
  rcases f.resultType_of_overload _ overload with told | ⟨rfl, shape, vector⟩
  · rw [← told]
    rcases agree.firstType_eq with unknown | known
    · rw [unknown]
      exact f.resultType_none _
    · exact Or.inr (by rw [known])
  · obtain rfl : ts = [.float, t] := shape
    obtain _ | ⟨edge, _ | ⟨x, last⟩⟩ := agree
    cases last
    rcases edge.type with unknown | known
    · exact Or.inl unknown
    · -- the arguments are not mixed, so the other one is known to be a float as well
      rcases x.type with unknown | other
      · simp [mixed, known, unknown] at unmixed
      · exact absurd (by simpa [mixed, known, other] using unmixed) vector

/-! ### Expressions -/

mutual
theorem agrees_of_hasType : ∀ {e : Expr} {t : DataType}, HasType e t → e.mixesStep = false →
    Agrees e t
  | _, _, .var _ _, _ => ⟨Or.inr rfl, rfl⟩
  | _, _, .literal _, _ => ⟨Or.inr rfl, rfl⟩
  | _, _, .binary left right operates, unmixed => by
    obtain ⟨mixedLeft, mixedRight⟩ := Bool.or_eq_false_iff.mp unmixed
    exact (agrees_of_hasType left mixedLeft).binary (agrees_of_hasType right mixedRight) operates
  | _, _, .negate inner _, unmixed => by
    have below := agrees_of_hasType inner unmixed
    exact ⟨below.type, below.check⟩
  | _, _, .swizzle inner vector counted selects result, unmixed => by
    have below := agrees_of_hasType inner unmixed
    refine ⟨Or.inr ?_, ?_⟩
    · rw [type, selects.utf8ByteSize, result]
    · rw [check, below.check, selects.swizzleFault vector counted below.type]
      rfl
  | _, _, .index base position _ given, unmixed => by
    obtain ⟨mixedBase, mixedPosition⟩ := Bool.or_eq_false_iff.mp unmixed
    have first := agrees_of_hasType base mixedBase
    have second := agrees_of_hasType position mixedPosition
    exact ⟨given, by rw [check, first.check, second.check]; rfl⟩
  | _, _, .call arguments overload, unmixed => by
    obtain ⟨here, below⟩ := Bool.or_eq_false_iff.mp unmixed
    exact (allAgree_of_haveTypes arguments below).call overload here
  | _, _, .construct arguments _, unmixed =>
    ⟨Or.inr rfl, (allAgree_of_haveTypes arguments unmixed).checkAll⟩
  | _, _, .group inner, unmixed => by
    have below := agrees_of_hasType inner unmixed
    exact ⟨below.type, below.check⟩
theorem allAgree_of_haveTypes : ∀ {as : List Expr} {ts : List DataType}, HaveTypes as ts →
    anyMixesStep as = false → AllAgree as ts
  | _, _, .nil, _ => .nil
  | _, _, .cons first rest, unmixed => by
    obtain ⟨here, below⟩ := Bool.or_eq_false_iff.mp unmixed
    exact .cons (agrees_of_hasType first here) (allAgree_of_haveTypes rest below)
end

end Expr

/-! ### Assignments -/

namespace Body

variable (b : Body) {op : AssignOp} {target value : Expr} {t : DataType}

theorem fault_push (s : Stmt) : (b.push s).fault = b.fault := by
  unfold push
  split <;> rfl

theorem fits_self (suits : op = .set ∨ t.isNumeric) : fits op t t = true := by
  rcases suits with rfl | numeric
  · exact beq_self_eq_true t
  · cases op <;> cases t <;> first | rfl | contradiction

theorem assignMismatch_of_agrees (suits : op = .set ∨ t.isNumeric) (left : target.Agrees t)
    (right : value.Agrees t) : assignMismatch op target value = none := by
  have fine := fits_self suits
  unfold assignMismatch
  rw [left.check, right.check]
  rcases left.type with unknown | known <;> rcases right.type with unknown' | known' <;> simp [*]

theorem fault_assign_of_agrees (suits : op = .set ∨ t.isNumeric) (left : target.Agrees t)
    (right : value.Agrees t) : (b.perform (.assign op target value)).fault = b.fault := by
  rw [perform, assign, fault_push, assignMismatch_of_agrees suits left right]
  rfl

end Body

namespace Expr

/-- No false positives but through `step`. A well-typed expression in which no call of `step` mixes
arguments passes the check and gets its type or none, and no body reports its assignment to such an
expression of the same type. A call of `step` that gives a vector and whose edge is known to be a
float is taken for a float, and a strict body reports its assignment to a vector of its own type. -/
theorem passes_unless_mixed {e : Expr} {t : DataType} (typed : HasType e t) :
    (e.mixesStep = false →
      ((e.type = none ∨ e.type = some t) ∧ e.check = none) ∧
      ∀ (b : Body) (op : AssignOp) (target : Expr), HasType target t → target.mixesStep = false →
        op = .set ∨ t.isNumeric → (b.perform (.assign op target e)).fault = b.fault) ∧
    ∀ edge x, e = .call .step [edge, x] → edge.mixesStep = false → x.mixesStep = false →
      edge.type = some .float → t ≠ .float →
      e.type = some .float ∧
      ∀ (b : Body) (target : Expr), b.strict = true → b.fault = none → HasType target t →
        target.mixesStep = false → target.type = some t →
          (b.perform (.assign .set target e)).fault =
            some (.typeMismatch b.stage b.owner (.assignment target .set e t .float)) := by
  constructor
  · intro unmixed
    have agrees := agrees_of_hasType typed unmixed
    refine ⟨⟨agrees.type, agrees.check⟩, fun b op target left unmixedLeft suits => ?_⟩
    exact b.fault_assign_of_agrees suits (agrees_of_hasType left unmixedLeft) agrees
  · rintro edge x rfl unmixedEdge unmixed known differs
    have misread : (call .step [edge, x]).type = some .float := known
    have passes : (call .step [edge, x]).check = none := by
      cases typed with
      | call arguments overload =>
        have below : anyMixesStep [edge, x] = false := by
          simp [anyMixesStep, unmixedEdge, unmixed]
        exact (allAgree_of_haveTypes arguments below).checkAll
    refine ⟨misread, fun b target strict calm left unmixedLeft told => ?_⟩
    have mismatch : Body.assignMismatch .set target (.call .step [edge, x]) =
        some (.assignment target .set (.call .step [edge, x]) t .float) := by
      unfold Body.assignMismatch
      rw [(agrees_of_hasType left unmixedLeft).check, passes, told, misread]
      simp [Body.fits, AssignOp.arithmetic, differs]
    rw [Body.perform, Body.assign, Body.fault_push, mismatch, Body.checked]
    simp [strict, Body.withFault, calm]

def light : Expr := .var "light" (some .vec3)

/-- `clamp(light, 0.0, 1.0) * scale`. -/
def brightness : Expr :=
  .binary .mul (.call .clamp [light, .float 0.0, .float 1.0]) (.var "scale" (some .float))

/-- `step(0.5, light)`. -/
def lit : Expr := .call .step [.float 0.5, light]

theorem hasType_light : light.HasType .vec3 := .var _ _

theorem hasType_brightness : brightness.HasType .vec3 :=
  .binary (.call (.cons hasType_light (.cons (.literal _) (.cons (.literal _) .nil))) (by decide))
    (.var _ _) (.scaledRight (by decide) rfl)

theorem hasType_lit : lit.HasType .vec3 :=
  .call (.cons (.literal (.float 0.5)) (.cons hasType_light .nil)) (by decide)

theorem passes_unless_mixed_brightness :
    (brightness.HasType .vec3 ∧ brightness.mixesStep = false ∧
      (brightness.type = none ∨ brightness.type = some .vec3) ∧ brightness.check = none ∧
      ((Body.empty .fragment true).perform (.assign .add light brightness)).fault = none) ∧
    lit.HasType .vec3 ∧ lit.type = some .float ∧
    ((Body.empty .fragment true).perform (.assign .set light lit)).fault =
      some (.typeMismatch .fragment "main" (.assignment light .set lit .vec3 .float)) := by
  obtain ⟨passes, accepted⟩ := (passes_unless_mixed hasType_brightness).1 rfl
  obtain ⟨misread, reported⟩ :=
    (passes_unless_mixed hasType_lit).2 (.float 0.5) light rfl rfl rfl rfl nofun
  refine ⟨⟨hasType_brightness, rfl, passes.1, passes.2, ?_⟩, hasType_lit, misread, ?_⟩
  · exact accepted (Body.empty .fragment true) .add light hasType_light rfl (Or.inr rfl)
  · exact reported (Body.empty .fragment true) light rfl rfl hasType_light rfl rfl

/-- A well-typed assignment that a strict body refuses. -/
theorem refuses_step :
    light.HasType .vec3 ∧ lit.HasType .vec3 ∧ lit.type = some .float ∧
    ((Body.empty .fragment true).perform (.assign .set light lit)).segment =
      .error (.typeMismatch .fragment "main" (.assignment light .set lit .vec3 .float)) :=
  ⟨hasType_light, hasType_lit, rfl, rfl⟩

end Expr

end ShaderComposer
