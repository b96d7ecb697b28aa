import ShaderComposer.Glsl.Expr.Render

/-!
# Conditions and statements

The statement tree of a `main()` body and its indented text. A condition is a chain of comparisons
joined by logical operators, generic in the kind of its operands so that a template of a condition
is a condition of templates.
-/

namespace ShaderComposer

/-! ### Conditions -/

inductive Relation where
  | lt
  | le
  | gt
  | ge
  | eq
  | ne
deriving DecidableEq, Inhabited

def Relation.symbol : Relation → String
  | .lt => "<"
  | .le => "<="
  | .gt => ">"
  | .ge => ">="
  | .eq => "=="
  | .ne => "!="

def Relation.all : List Relation := [.lt, .le, .gt, .ge, .eq, .ne]

inductive LogicOp where
  | and
  | or
  | xor
deriving DecidableEq, Inhabited

def LogicOp.symbol : LogicOp → String
  | .and => "&&"
  | .or => "||"
  | .xor => "^^"

def LogicOp.all : List LogicOp := [.and, .or, .xor]

structure Comparison (ε : Type) where
  lhs : ε
  relation : Relation
  rhs : ε
deriving Inhabited

/-- A chain of comparisons, each but the first with the operator that joins it. -/
structure Condition (ε : Type) where
  first : Comparison ε
  rest : List (LogicOp × Comparison ε)
deriving Inhabited

namespace Comparison

def map {ε δ : Type} (f : ε → δ) (c : Comparison ε) : Comparison δ :=
  ⟨f c.lhs, c.relation, f c.rhs⟩

def render (c : Comparison Expr) : String :=
  c.lhs.render ++ " " ++ c.relation.symbol ++ " " ++ c.rhs.render

end Comparison

namespace Condition

def compare {ε : Type} (lhs : ε) (relation : Relation) (rhs : ε) : Condition ε :=
  ⟨⟨lhs, relation, rhs⟩, []⟩

def join {ε : Type} (c : Condition ε) (op : LogicOp) (lhs : ε) (relation : Relation) (rhs : ε) :
    Condition ε :=
  { c with rest := c.rest ++ [(op, ⟨lhs, relation, rhs⟩)] }

def comparisons {ε : Type} (c : Condition ε) : List (Comparison ε) := c.first :: c.rest.map (·.2)

def map {ε δ : Type} (f : ε → δ) (c : Condition ε) : Condition δ :=
  ⟨c.first.map f, c.rest.map fun (op, comparison) => (op, comparison.map f)⟩

def render (c : Condition Expr) : String :=
  c.first.render ++
    String.join (c.rest.map fun (op, comparison) => " " ++ op.symbol ++ " " ++ comparison.render)

theorem comparisons_join {ε : Type} (c : Condition ε) (op : LogicOp) (lhs : ε)
    (relation : Relation) (rhs : ε) :
    (c.join op lhs relation rhs).comparisons = c.comparisons ++ [⟨lhs, relation, rhs⟩] := by
  simp [join, comparisons]

end Condition

/-! ### Statements -/

inductive AssignOp where
  | set
  | add
  | sub
  | mul
  | div
deriving DecidableEq, Inhabited

def AssignOp.symbol : AssignOp → String
  | .set => "="
  | .add => "+="
  | .sub => "-="
  | .mul => "*="
  | .div => "/="

def AssignOp.all : List AssignOp := [.set, .add, .sub, .mul, .div]

def AssignOp.arithmetic : AssignOp → Option BinaryOp
  | .set => none
  | .add => some .add
  | .sub => some .sub
  | .mul => some .mul
  | .div => some .div

inductive Stmt where
  /-- A local variable, with a value if it is initialised. -/
  | declare (type : DataType) (name : String) (value : Option Expr)
  | assign (target : Expr) (op : AssignOp) (value : Expr)
  /-- An `if` with its `else if` branches and the block of its `else`. -/
  | branch (branches : List (Condition Expr × List Stmt)) (otherwise : Option (List Stmt))
  | discard
deriving Inhabited

namespace Stmt

mutual
/-- How many statements there are, with those inside branches. -/
def count : Stmt → Nat
  | declare _ _ _ => 1
  | assign _ _ _ => 1
  | branch branches none => 1 + countBranches branches
  | branch branches (some block) => 1 + countBranches branches + countAll block
  | discard => 1
def countBranches : List (Condition Expr × List Stmt) → Nat
  | [] => 0
  | (_, block) :: rest => countAll block + countBranches rest
def countAll : List Stmt → Nat
  | [] => 0
  | s :: rest => s.count + countAll rest
end

/-! ### Text -/

def indent (depth : Nat) : String := String.ofList (List.replicate (4 * depth) ' ')

def renderInitial : Option Expr → String
  | none => ""
  | some value => " = " ++ value.render

mutual
def render (depth : Nat) : Stmt → String
  | declare ty name value =>
    indent depth ++ ty.name ++ " " ++ name ++ renderInitial value ++ ";\n"
  | assign target op value =>
    indent depth ++ target.render ++ " " ++ op.symbol ++ " " ++ value.render ++ ";\n"
  | branch branches none => indent depth ++ renderBranches depth branches ++ "\n"
  | branch branches (some block) =>
    indent depth ++ renderBranches depth branches ++ " else \x7b\n" ++
      renderBlock (depth + 1) block ++ indent depth ++ "\x7d\n"
  | discard => indent depth ++ "discard;\n"
/-- The branches of an `if`, the first without an `else` before it. -/
def renderBranches (depth : Nat) : List (Condition Expr × List Stmt) → String
  | [] => ""
  | (condition, block) :: rest =>
    "if (" ++ condition.render ++ ") \x7b\n" ++ renderBlock (depth + 1) block ++
      indent depth ++ "\x7d" ++ renderElseIfs depth rest
def renderElseIfs (depth : Nat) : List (Condition Expr × List Stmt) → String
  | [] => ""
  | (condition, block) :: rest =>
    " else if (" ++ condition.render ++ ") \x7b\n" ++ renderBlock (depth + 1) block ++
      indent depth ++ "\x7d" ++ renderElseIfs depth rest
def renderBlock (depth : Nat) : List Stmt → String
  | [] => ""
  | s :: rest => s.render depth ++ renderBlock depth rest
end

theorem render_branch (depth : Nat) (branches : List (Condition Expr × List Stmt)) :
    (branch branches none).render depth = indent depth ++ renderBranches depth branches ++ "\n" :=
  rfl

theorem render_branch_else (depth : Nat) (branches : List (Condition Expr × List Stmt))
    (block : List Stmt) :
    (branch branches (some block)).render depth =
      indent depth ++ renderBranches depth branches ++ " else \x7b\n" ++
        renderBlock (depth + 1) block ++ indent depth ++ "\x7d\n" := rfl

theorem renderBranches_cons (depth : Nat) (condition : Condition Expr) (block : List Stmt)
    (rest : List (Condition Expr × List Stmt)) :
    renderBranches depth ((condition, block) :: rest) =
      "if (" ++ condition.render ++ ") \x7b\n" ++ renderBlock (depth + 1) block ++
        indent depth ++ "\x7d" ++ renderElseIfs depth rest := rfl

theorem renderElseIfs_cons (depth : Nat) (condition : Condition Expr) (block : List Stmt)
    (rest : List (Condition Expr × List Stmt)) :
    renderElseIfs depth ((condition, block) :: rest) =
      " else if (" ++ condition.render ++ ") \x7b\n" ++ renderBlock (depth + 1) block ++
        indent depth ++ "\x7d" ++ renderElseIfs depth rest := rfl

theorem renderBlock_cons (depth : Nat) (s : Stmt) (rest : List Stmt) :
    renderBlock depth (s :: rest) = s.render depth ++ renderBlock depth rest := rfl

end Stmt

end ShaderComposer
