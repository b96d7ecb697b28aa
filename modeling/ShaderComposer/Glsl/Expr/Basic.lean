import ShaderComposer.Glsl.DataType
import ShaderComposer.Numeric.Single

/-!
# Expressions

Immutable expression trees over variable references and literals. A variable or an indexing may
carry its type; the types of all other nodes are inferred (`ShaderComposer.Glsl.Expr.Typing`).
`Expr.same` compares trees with IEEE equality on float literals.
-/

namespace ShaderComposer

/-! ### Operators and functions -/

inductive BinaryOp where
  | add
  | sub
  | mul
  | div
  | rem
deriving DecidableEq, Inhabited

def BinaryOp.symbol : BinaryOp → String
  | .add => "+"
  | .sub => "-"
  | .mul => "*"
  | .div => "/"
  | .rem => "%"

def BinaryOp.all : List BinaryOp := [.add, .sub, .mul, .div, .rem]

inductive Builtin where
  | abs
  | acos
  | atan
  | clamp
  | cos
  | cross
  | distance
  | dot
  | floor
  | fract
  | inverseSqrt
  | length
  | max
  | min
  | mix
  | mod
  | normalize
  | pow
  | radians
  | reflect
  | sin
  | sqrt
  | step
  | tan
  | texture1D
  | texture2D
  | texture2DProj
  | texture3D
  | textureCube
deriving DecidableEq, Inhabited

namespace Builtin

def name : Builtin → String
  | abs => "abs"
  | acos => "acos"
  | atan => "atan"
  | clamp => "clamp"
  | cos => "cos"
  | cross => "cross"
  | distance => "distance"
  | dot => "dot"
  | floor => "floor"
  | fract => "fract"
  | inverseSqrt => "inversesqrt"
  | length => "length"
  | max => "max"
  | min => "min"
  | mix => "mix"
  | mod => "mod"
  | normalize => "normalize"
  | pow => "pow"
  | radians => "radians"
  | reflect => "reflect"
  | sin => "sin"
  | sqrt => "sqrt"
  | step => "step"
  | tan => "tan"
  | texture1D => "texture1D"
  | texture2D => "texture2D"
  | texture2DProj => "texture2DProj"
  | texture3D => "texture3D"
  | textureCube => "textureCube"

def all : List Builtin :=
  [abs, acos, atan, clamp, cos, cross, distance, dot, floor, fract, inverseSqrt, length, max, min,
    mix, mod, normalize, pow, radians, reflect, sin, sqrt, step, tan, texture1D, texture2D,
    texture2DProj, texture3D, textureCube]

theorem mem_all (f : Builtin) : f ∈ all := by
  cases f <;> decide

end Builtin

/-! ### Trees -/

inductive Literal where
  | float (value : Single)
  | int (value : Int)
  | bool (value : Bool)
deriving DecidableEq, Inhabited

namespace Literal

def type : Literal → DataType
  | float _ => .float
  | int _ => .int
  | bool _ => .bool

/-- The literal is written with a leading minus, or would be if it had a finite value. -/
def isNegative : Literal → Bool
  | float v => v.isNegative
  | int v => decide (v < 0)
  | bool _ => false

/-- Equality of literals, with IEEE equality of floats. -/
def same : Literal → Literal → Bool
  | float a, float b => a.same b
  | int a, int b => a == b
  | bool a, bool b => a == b
  | _, _ => false

end Literal

inductive Expr where
  /-- A reference to a variable, with its type if it is known. -/
  | var (name : String) (type : Option DataType)
  | literal (value : Literal)
  | binary (op : BinaryOp) (lhs rhs : Expr)
  | negate (operand : Expr)
  /-- A selection of components, such as `.xyz`. -/
  | swizzle (base : Expr) (components : String)
  /-- An indexing, with the type of the result if it is known. -/
  | index (base index : Expr) (type : Option DataType)
  | call (function : Builtin) (arguments : List Expr)
  | construct (type : DataType) (arguments : List Expr)
  /-- Parentheses that are always written. -/
  | group (inner : Expr)
deriving Inhabited

namespace Expr

def variableName : Expr → Option String
  | var name _ => some name
  | _ => none

def float (x : Single) : Expr := literal (.float x)

mutual
/-- Equality of trees, with IEEE equality of float literals. -/
def same : Expr → Expr → Bool
  | var n t, var n' t' => n == n' && t == t'
  | literal l, literal l' => l.same l'
  | binary op l r, binary op' l' r' => op == op' && same l l' && same r r'
  | negate e, negate e' => same e e'
  | swizzle b c, swizzle b' c' => same b b' && c == c'
  | index b i t, index b' i' t' => same b b' && same i i' && t == t'
  | call f as, call f' as' => f == f' && sameAll as as'
  | construct t as, construct t' as' => t == t' && sameAll as as'
  | group e, group e' => same e e'
  | _, _ => false
def sameAll : List Expr → List Expr → Bool
  | [], [] => true
  | a :: as, b :: bs => same a b && sameAll as bs
  | _, _ => false
end

end Expr

end ShaderComposer
