import ShaderComposer.Glsl.Stmt
import ShaderComposer.Glsl.Variable

/-!
# Errors

Every failure of a build or of a per-frame call, by its cause, with one function for its text. A
cause `stated` carries words of its own, for failures that are not found by this library.
-/

namespace ShaderComposer

/-! ### Causes -/

/-- Why a declaration was refused. -/
inductive ConflictCause where
  | localOutsideMain (owner : String)
  | attributeInFragment (owner : String)
  | declaredTwice (owner : String)
  /-- `owner` declares a variable otherwise than `earlierOwner` did before. -/
  | differs (owner : String) (declared : Variable) (earlierOwner : String) (earlier : Variable)
  | functionBody (owner : String)
  | repeatedShader
  | stated (text : String)
deriving Inhabited

/-- The qualifier, type and array length of a variable, in words. -/
def Variable.shapeText (v : Variable) : String :=
  v.qualifier.name ++ " " ++ v.type.name ++ Variable.lengthSuffix v.arrayLength

def ConflictCause.text : ConflictCause → String
  | localOutsideMain owner => "`" ++ owner ++ "` declared a local outside main()"
  | attributeInFragment owner => "`" ++ owner ++ "` declared an attribute in a fragment shader"
  | declaredTwice owner => "declared twice by `" ++ owner ++ "`"
  | differs owner declared earlierOwner earlier =>
    "`" ++ owner ++ "` declares " ++ declared.shapeText ++ " but `" ++ earlierOwner ++
      "` already declared " ++ earlier.shapeText
  | functionBody owner => "`" ++ owner ++ "` redefines function with a different body"
  | repeatedShader => "shader id is already declared in this stage"
  | stated text => text

/-- How a conditional was built wrongly. -/
inductive Imbalance where
  | leftOpen (count : Nat)
  | elseIfAfterElse
  | elseIfOutside
  | secondElse
  | elseOutside
  | endOutside
  | stated (text : String)
deriving DecidableEq, Inhabited

def Imbalance.text : Imbalance → String
  | leftOpen count => toString count ++ " `start_if` without `end_if`"
  | elseIfAfterElse => "`else_if` after `else_branch`"
  | elseIfOutside => "`else_if` without `start_if`"
  | secondElse => "second `else_branch` on one conditional"
  | elseOutside => "`else_branch` without `start_if`"
  | endOutside => "`end_if` without `start_if`"
  | stated text => text

/-- Why a statement has no place where it was made. -/
inductive Misplacement where
  | discardInVertex
  | undeclared
  | stated (text : String)
deriving DecidableEq, Inhabited

def Misplacement.text : Misplacement → String
  | discardInVertex => "`discard` is only valid in fragment shaders"
  | undeclared => "main() ran before the fragment declared its variables"
  | stated text => text

/-- Where the types of a statement do not fit. -/
inductive Mismatch where
  | expression (fault : TypingFault)
  | assignment (target : Expr) (op : AssignOp) (value : Expr) (targetType valueType : DataType)
  | initialiser (name : String) (declared valueType : DataType)
  | stated (text : String)
deriving Inhabited

def Mismatch.text : Mismatch → String
  | expression fault => fault.message
  | assignment target op value targetType valueType =>
    "`" ++ target.render ++ " " ++ op.symbol ++ " " ++ value.render ++ "` assigns " ++
      valueType.name ++ " to " ++ targetType.name
  | initialiser name declared valueType =>
    "local `" ++ name ++ "` of type " ++ declared.name ++ " initialised with " ++ valueType.name
  | stated text => text

/-- Sources that a backend refused: one stage's source, or both when linking failed. -/
structure Rejection where
  stage : Option Stage
  source : String
  log : String
deriving DecidableEq, Inhabited

def Rejection.message (r : Rejection) : String :=
  (match r.stage with
    | some stage => stage.name ++ " shader compilation"
    | none => "program link") ++ " failed: " ++ r.log

/-! ### Errors -/

inductive ShaderError where
  | declarationConflict (stage : Stage) (name : String) (cause : ConflictCause)
  | missingGlobal (stage : Stage) (name : String)
  | unbalancedConditional (stage : Stage) (owner : String) (cause : Imbalance)
  | invalidStatement (stage : Stage) (owner : String) (cause : Misplacement)
  | typeMismatch (stage : Stage) (owner : String) (cause : Mismatch)
  | rejected (rejection : Rejection)
  | notLinked (material : String)
  | staleProgram (material : String)
  | tooManyTextures (requested available : Nat)
deriving Inhabited

namespace ShaderError

def message : ShaderError → String
  | declarationConflict stage name cause =>
    stage.name ++ " shader: conflicting declaration of `" ++ name ++ "`: " ++ cause.text
  | missingGlobal stage name =>
    stage.name ++ " shader: `" ++ name ++ "` is required but no attached shader declares it"
  | unbalancedConditional stage owner cause =>
    stage.name ++ " shader: unbalanced conditional in `" ++ owner ++ "`: " ++ cause.text
  | invalidStatement stage owner cause =>
    stage.name ++ " shader: `" ++ owner ++ "` emitted an invalid statement: " ++ cause.text
  | typeMismatch stage owner cause =>
    stage.name ++ " shader: type mismatch in `" ++ owner ++ "`: " ++ cause.text
  | rejected rejection => rejection.message
  | notLinked material => "material `" ++ material ++ "` has no linked program"
  | staleProgram material =>
    "material `" ++ material ++ "` uses a stale program handle; rebuild required"
  | tooManyTextures requested available =>
    "too many textures: " ++ toString requested ++ " requested, " ++ toString available ++
      " texture units available"

def isStale : ShaderError → Bool
  | staleProgram _ => true
  | _ => false

end ShaderError

end ShaderComposer
