import ShaderComposer.Error

/-!
# Recording a body

A `Body` records the statements of one `main()`. Conditionals nest; a call that misuses them, or
that fails the type checks of a strict body, is remembered as the body's fault and recording goes
on. Taking the segment gives the recorded statements or the fault, and starts the next segment
empty; only the owner and the numbering of automatic locals carry over.
-/

namespace ShaderComposer

/-! ### Calls -/

/-- A call that records something, generic in the kind of its operands. -/
inductive Call (ε : Type) where
  | assign (op : AssignOp) (target value : ε)
  | declare (type : DataType) (name : String) (value : ε)
  /-- A local variable with an automatic name. -/
  | temp (type : DataType) (value : ε)
  | startIf (condition : Condition ε)
  | elseIf (condition : Condition ε)
  | elseBranch
  | endIf
  | discard
  /-- From here on, faults are reported for this owner. -/
  | setOwner (name : String)
deriving Inhabited

def Call.map {ε δ : Type} (f : ε → δ) : Call ε → Call δ
  | assign op target value => assign op (f target) (f value)
  | declare ty name value => declare ty name (f value)
  | temp ty value => temp ty (f value)
  | startIf c => startIf (c.map f)
  | elseIf c => elseIf (c.map f)
  | elseBranch => elseBranch
  | endIf => endIf
  | discard => discard
  | setOwner name => setOwner name

/-! ### Bodies -/

/-- A conditional that is not closed yet. -/
structure OpenIf where
  earlier : List (Condition Expr × List Stmt)
  /-- The condition of the current block; the block of an `else` has none. -/
  guard : Option (Condition Expr)
  block : List Stmt
deriving Inhabited

namespace OpenIf

def start (condition : Condition Expr) : OpenIf := ⟨[], some condition, []⟩

def branches (f : OpenIf) (guard : Condition Expr) : List (Condition Expr × List Stmt) :=
  f.earlier ++ [(guard, f.block)]

def close (f : OpenIf) : Stmt :=
  match f.guard with
  | some guard => .branch (f.branches guard) none
  | none => .branch f.earlier (some f.block)

def push (f : OpenIf) (s : Stmt) : OpenIf := { f with block := f.block ++ [s] }

end OpenIf

/-- The recording of a `main()`. -/
structure Body where
  stage : Stage
  strict : Bool
  owner : String
  /-- The finished statements outside every open conditional. -/
  statements : List Stmt
  /-- The open conditionals, innermost first. -/
  openIfs : List OpenIf
  /-- How many automatic names have been given. -/
  temps : Nat
  /-- The first misuse since the last segment. -/
  fault : Option ShaderError
deriving Inhabited

namespace Body

def empty (stage : Stage) (strict : Bool) : Body := ⟨stage, strict, "main", [], [], 0, none⟩

def withFault (b : Body) (e : ShaderError) : Body := { b with fault := b.fault.or (some e) }

def unbalanced (b : Body) (cause : Imbalance) : Body :=
  b.withFault (.unbalancedConditional b.stage b.owner cause)

def push (b : Body) (s : Stmt) : Body :=
  match b.openIfs with
  | [] => { b with statements := b.statements ++ [s] }
  | f :: rest => { b with openIfs := f.push s :: rest }

/-! ### Assignments and locals -/

def fits (op : AssignOp) (target value : DataType) : Bool :=
  match op.arithmetic with
  | none => target == value
  | some arithmetic => arithmetic.resultType target value == some target

def assignMismatch (op : AssignOp) (target value : Expr) : Option Mismatch :=
  match target.check.or value.check with
  | some fault => some (.expression fault)
  | none =>
    match target.type, value.type with
    | some t, some v => if fits op t v then none else some (.assignment target op value t v)
    -- what has no known type fits anything
    | _, _ => none

def initialMismatch (ty : DataType) (name : String) (value : Expr) : Option Mismatch :=
  match value.type with
  | some v => if v = ty then none else some (.initialiser name ty v)
  | none => none

/-- The body with a mismatch recorded, if it is strict and there is one. -/
def checked (b : Body) (mismatch : Option Mismatch) : Body :=
  match mismatch with
  | some cause => if b.strict then b.withFault (.typeMismatch b.stage b.owner cause) else b
  | none => b

def assign (b : Body) (op : AssignOp) (target value : Expr) : Body :=
  (b.checked (assignMismatch op target value)).push (.assign target op value)

def declare (b : Body) (ty : DataType) (name : String) (value : Expr) : Body :=
  (b.checked (initialMismatch ty name value)).push (.declare ty name (some value))

/-- The next automatic name for a local of a type. -/
def tempName (b : Body) (ty : DataType) : String :=
  "v_" ++ ty.tempPrefix ++ "_" ++ toString b.temps

def temp (b : Body) (ty : DataType) (value : Expr) : Body :=
  { b with temps := b.temps + 1 }.declare ty (b.tempName ty) value

/-! ### Conditionals -/

def startIf (b : Body) (condition : Condition Expr) : Body :=
  { b with openIfs := .start condition :: b.openIfs }

/-- Ends the current branch of the innermost conditional and opens the next block, a branch if it
has a condition and the `else` otherwise. -/
def nextBlock (b : Body) (guard : Option (Condition Expr)) (afterElse outside : Imbalance) : Body :=
  match b.openIfs with
  | [] => b.unbalanced outside
  | f :: rest =>
    match f.guard with
    | none => b.unbalanced afterElse
    | some current => { b with openIfs := ⟨f.branches current, guard, []⟩ :: rest }

def elseIf (b : Body) (condition : Condition Expr) : Body :=
  b.nextBlock (some condition) .elseIfAfterElse .elseIfOutside

def elseBranch (b : Body) : Body := b.nextBlock none .secondElse .elseOutside

def endIf (b : Body) : Body :=
  match b.openIfs with
  | [] => b.unbalanced .endOutside
  | f :: rest => { b with openIfs := rest }.push f.close

/-- Discards the pixel; vertices cannot be discarded. -/
def discard (b : Body) : Body :=
  match b.stage with
  | .fragment => b.push .discard
  | .vertex => b.withFault (.invalidStatement b.stage b.owner .discardInVertex)

/-! ### Performing calls and taking segments -/

def perform (b : Body) : Call Expr → Body
  | .assign op target value => b.assign op target value
  | .declare ty name value => b.declare ty name value
  | .temp ty value => b.temp ty value
  | .startIf condition => b.startIf condition
  | .elseIf condition => b.elseIf condition
  | .elseBranch => b.elseBranch
  | .endIf => b.endIf
  | .discard => b.discard
  | .setOwner name => { b with owner := name }

/-- The reference that a call gives back: the local variable that it makes. -/
def result (b : Body) : Call Expr → Option Expr
  | .declare ty name _ => some (.var name (some ty))
  | .temp ty _ => some (.var (b.tempName ty) (some ty))
  | _ => none

/-- The statements of the segment, or what went wrong in it. -/
def segment (b : Body) : Except ShaderError (List Stmt) :=
  match b.fault with
  | some e => .error e
  | none =>
    if b.openIfs.isEmpty then .ok b.statements
    else .error (.unbalancedConditional b.stage b.owner (.leftOpen b.openIfs.length))

def nextSegment (b : Body) : Body := { b with statements := [], openIfs := [], fault := none }

theorem fault_withFault (b : Body) (e : ShaderError) :
    (b.withFault e).fault = some (b.fault.getD e) := by
  cases h : b.fault <;> simp [withFault, h]

end Body

end ShaderComposer
