import ShaderComposer.Glsl.Expr.Typing

/-!
# Variables

A declared variable of a stage and its declaration line. Two variables have the same shape when
name, type, qualifier and array length agree; precision and initial value are not part of it.
-/

namespace ShaderComposer

structure Variable where
  name : String
  type : DataType
  qualifier : Qualifier
  arrayLength : Option Nat := none
  precision : Option Precision := none
  initial : Option Expr := none
deriving Inhabited

namespace Variable

/-- An array length as it is written after a name. -/
def lengthSuffix : Option Nat → String
  | none => ""
  | some n => "[" ++ toString n ++ "]"

/-- A keyword and the space after it, if there is a keyword. -/
def leading : Option String → String
  | none => ""
  | some keyword => keyword ++ " "

/-- The initial value with its sign, if there is one. -/
def initialText : Option Expr → String
  | none => ""
  | some value => " = " ++ value.render

def declaration (v : Variable) : String :=
  leading v.qualifier.keyword ++ leading (v.precision.map Precision.keyword) ++ v.type.name ++
    " " ++ v.name ++ lengthSuffix v.arrayLength ++ initialText v.initial ++ ";"

def reference (v : Variable) : Expr := .var v.name (some v.type)

/-- An element: of the array for an array, else a column or a component. -/
def elementAt (v : Variable) (i : Expr) : Expr :=
  if v.arrayLength.isSome then .index v.reference i (some v.type) else v.reference.elementAt i

/-- Equal name, type, qualifier and array length. -/
def sameShape (v w : Variable) : Bool :=
  v.name == w.name && v.type == w.type && v.qualifier == w.qualifier &&
    v.arrayLength == w.arrayLength

/-- Equality of initial values, with IEEE equality of float literals. -/
def sameInitial : Option Expr → Option Expr → Bool
  | none, none => true
  | some a, some b => a.same b
  | _, _ => false

/-- Equality of all parts, with IEEE equality of float literals. -/
def same (v w : Variable) : Bool :=
  v.sameShape w && v.precision == w.precision && sameInitial v.initial w.initial

theorem sameShape_refl (v : Variable) : v.sameShape v = true := by
  simp [sameShape]

theorem sameShape_of_same {v w : Variable} (h : v.same w = true) : v.sameShape w = true := by
  simp only [same, Bool.and_eq_true] at h
  exact h.1.1

end Variable

end ShaderComposer
