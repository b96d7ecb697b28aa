import ShaderComposer.Glsl.Expr.Basic
import ShaderComposer.Glsl.FloatLiteral

/-!
# Text of expressions

An operand is put into parentheses exactly where its precedence would let it bind otherwise:
a left operand when it binds weaker than the operator, a right operand also when it binds as
strong, the operand of a minus unless it is atomic, and the base of a selection or an indexing
unless it is atomic. A literal written with a minus binds as a negation does.
-/

namespace ShaderComposer

/-! ### Binding strength -/

namespace Precedence

def unary : Nat := 3

def atom : Nat := 4

end Precedence

def BinaryOp.precedence : BinaryOp → Nat
  | .add | .sub => 1
  | .mul | .div | .rem => 2

def Expr.precedence : Expr → Nat
  | .binary op _ _ => op.precedence
  | .negate _ => Precedence.unary
  | .literal l => if l.isNegative then Precedence.unary else Precedence.atom
  | _ => Precedence.atom

theorem BinaryOp.precedence_lt_unary (op : BinaryOp) : op.precedence < Precedence.unary := by
  cases op <;> decide

theorem Expr.precedence_le_atom (e : Expr) : e.precedence ≤ Precedence.atom := by
  cases e with
  | binary op l r => exact Nat.le_succ_of_le (Nat.le_of_lt op.precedence_lt_unary)
  | literal l => simp only [Expr.precedence]; split <;> decide
  | negate e => exact Nat.le_succ _
  | _ => exact Nat.le_refl _

/-! ### Printing -/

def Literal.render : Literal → String
  | .float v => v.literal
  | .int v => toString v
  | .bool v => if v then "true" else "false"

def parenthesized (needed : Bool) (text : String) : String :=
  if needed then "(" ++ text ++ ")" else text

namespace Expr

mutual
def render : Expr → String
  | var name _ => name
  | literal l => l.render
  | binary op l r =>
    parenthesized (l.precedence < op.precedence) l.render ++ " " ++ op.symbol ++ " " ++
      parenthesized (r.precedence ≤ op.precedence) r.render
  | negate e => "-" ++ parenthesized (e.precedence ≤ Precedence.unary) e.render
  | swizzle b c => parenthesized (b.precedence < Precedence.atom) b.render ++ "." ++ c
  | index b i _ =>
    parenthesized (b.precedence < Precedence.atom) b.render ++ "[" ++ i.render ++ "]"
  | call f as => f.name ++ "(" ++ renderArguments as ++ ")"
  | construct ty as => ty.name ++ "(" ++ renderArguments as ++ ")"
  | group e => "(" ++ e.render ++ ")"
def renderArguments : List Expr → String
  | [] => ""
  | a :: as => a.render ++ renderMore as
def renderMore : List Expr → String
  | [] => ""
  | a :: as => ", " ++ a.render ++ renderMore as
end

end Expr

end ShaderComposer
