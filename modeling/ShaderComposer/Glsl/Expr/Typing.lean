import ShaderComposer.Glsl.Expr.Render

/-!
# Types of expressions

`Expr.type` infers what it can: component-wise operators, the products of matrices and vectors,
and functions whose result is fixed or follows their first argument. `Expr.check` reports the
first provable mistake, reading operands before the operator; unknown types pass.
-/

namespace ShaderComposer

/-! ### Inference -/

/-- The type of `l op r`: equal types combine component by component, matrices multiply vectors
of their size, and a float combines with any vector or matrix. -/
def BinaryOp.resultType (op : BinaryOp) (l r : DataType) : Option DataType :=
  if l = r ∧ l.isSampler = false ∧ l ≠ .bool then some l
  else
    match op, l, r with
    | .mul, .mat4, .vec4 | .mul, .vec4, .mat4 => some .vec4
    | .mul, .mat3, .vec3 | .mul, .vec3, .mat3 => some .vec3
    | _, _, _ =>
      if l = .float ∧ (r.isVector || r.isMatrix) then some r
      else if r = .float ∧ (l.isVector || l.isMatrix) then some l
      else none

/-- The type of a call, given the type of its first argument. -/
def Builtin.resultType (f : Builtin) (first : Option DataType) : Option DataType :=
  match f with
  | .dot | .length | .distance => some .float
  | .cross => some .vec3
  | .texture1D | .texture2D | .texture2DProj | .texture3D | .textureCube => some .vec4
  | _ => first

namespace Expr

mutual
/-- The type of an expression, if it can be told. -/
def type : Expr → Option DataType
  | var _ ty => ty
  | literal l => some l.type
  | binary op l r =>
    match l.type, r.type with
    | some lty, some rty => op.resultType lty rty
    | _, _ => none
  | negate e => e.type
  | swizzle _ components => DataType.floatVector components.utf8ByteSize
  | index _ _ ty => ty
  | call f as => f.resultType (firstType as)
  | construct ty _ => some ty
  | group e => e.type
def firstType : List Expr → Option DataType
  | [] => none
  | a :: _ => a.type
end

/-- `base[i]`, a column of a matrix or a component of a vector. -/
def elementAt (base i : Expr) : Expr := index base i (base.type.bind DataType.element)

end Expr

/-! ### Mistakes -/

/-- A provable mistake in an expression. -/
inductive TypingFault where
  | operands (op : BinaryOp) (lhs rhs : DataType) (whole : Expr)
  | swizzleLength (components : String)
  | swizzleNames (components : String)
  | swizzleBase (components : String) (type : DataType) (base : Expr)
  | swizzleWidth (components : String) (type : DataType) (base : Expr)
deriving Inhabited

def TypingFault.message : TypingFault → String
  | operands op l r whole =>
    "cannot apply `" ++ op.symbol ++ "` to " ++ l.name ++ " and " ++ r.name ++ " in `" ++
      whole.render ++ "`"
  | swizzleLength c => "swizzle `." ++ c ++ "` must select 1 to 4 components"
  | swizzleNames c => "swizzle `." ++ c ++ "` mixes or misspells component names"
  | swizzleBase c ty base =>
    "swizzle `." ++ c ++ "` applied to non-vector " ++ ty.name ++ " `" ++ base.render ++ "`"
  | swizzleWidth c ty base =>
    "swizzle `." ++ c ++ "` reads past the end of " ++ ty.name ++ " `" ++ base.render ++ "`"

/-- The three families of component names: positions, colours and texture coordinates. -/
def componentFamilies : List (List Char) :=
  [['x', 'y', 'z', 'w'], ['r', 'g', 'b', 'a'], ['s', 't', 'p', 'q']]

/-- The positions that components select, if all are names of one family. -/
def componentPositions (components : List Char) : Option (List Nat) :=
  (componentFamilies.find? fun family => components.all (family.contains ·)).map fun family =>
    components.map (family.idxOf ·)

/-- The mistake in a selection of components, if it is a provable one. -/
def swizzleFault (base : Expr) (components : String) : Option TypingFault :=
  if components.utf8ByteSize = 0 ∨ 4 < components.utf8ByteSize then some (.swizzleLength components)
  else
    match componentPositions components.toList with
    | none => some (.swizzleNames components)
    | some positions =>
      match base.type with
      | none => none
      | some ty =>
        if ty.isVector = false then some (.swizzleBase components ty base)
        else if positions.all (· < ty.components.getD 0) then none
        else some (.swizzleWidth components ty base)

/-- The mistake in applying an operator to operands of known types. -/
def operandFault (op : BinaryOp) (l r : Expr) : Option TypingFault :=
  match l.type, r.type with
  | some lty, some rty =>
    if (op.resultType lty rty).isNone then some (.operands op lty rty (.binary op l r)) else none
  | _, _ => none

namespace Expr

mutual
/-- The first provable mistake, from left to right and operands first. -/
def check : Expr → Option TypingFault
  | var _ _ => none
  | literal _ => none
  | binary op l r => l.check.or (r.check.or (operandFault op l r))
  | negate e => e.check
  | swizzle b c => b.check.or (swizzleFault b c)
  | index b i _ => b.check.or i.check
  | call _ as => checkAll as
  | construct _ as => checkAll as
  | group e => e.check
def checkAll : List Expr → Option TypingFault
  | [] => none
  | a :: as => a.check.or (checkAll as)
end

end Expr

end ShaderComposer
