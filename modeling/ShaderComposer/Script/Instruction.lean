import ShaderComposer.Body
import ShaderComposer.Script.Declaration

/-!
# Body scripts

The `main()` of a fragment, and each phase of a core shader, is a list of instructions: calls on
the body with templates for operands, requests for shared variables, and blocks that run only when
a role has a variable or a fragment is attached. A request that fails ends the run.
-/

namespace ShaderComposer

inductive Instruction where
  | call (c : Call Term)
  /-- Asks for the variable of a role, whose reference is kept as a result. -/
  | require (role : Role)
  /-- Runs a block if the role has a variable. -/
  | ifRole (role : Role) (block : List Instruction)
  /-- Runs the first block if the fragment is attached and the second if it is not. -/
  | ifFragment (id : String) (block otherwise : List Instruction)
  /-- Fails unless the fragment has declared its variables. -/
  | expectDeclared
deriving Inhabited

namespace Instruction

/-! ### Writing scripts -/

/-- `target = value`. -/
def set (target value : Term) : Instruction := call (.assign .set target value)

/-- `target += value`. -/
def add (target value : Term) : Instruction := call (.assign .add target value)

/-- `target *= value`. -/
def scale (target value : Term) : Instruction := call (.assign .mul target value)

def startIf (condition : Condition Term) : Instruction := call (.startIf condition)

def endIf : Instruction := call .endIf

/-! ### Running scripts -/

/-- What a script can see: the symbols of the stage and the variables its owner declared, if it
has declared them. -/
structure Scene where
  symbols : Symbols
  declared : Option (List Variable)
deriving Inhabited

/-- A script under way: the body and the expressions given back so far. -/
structure Run where
  body : Body
  results : List Expr
deriving Inhabited

/-- What the references of a template stand for at this point. -/
def bindings (scene : Scene) (r : Run) : Bindings := ⟨scene.declared.getD [], r.results⟩

/-- The run after a call; an expression that it gives back is kept. -/
def perform (c : Call Expr) (r : Run) : Run :=
  ⟨r.body.perform c, r.results ++ (r.body.result c).toList⟩

mutual
def run (scene : Scene) : Instruction → Run → Except ShaderError Run
  | call c, r => .ok (perform (c.map (Term.build (bindings scene r))) r)
  | require role, r =>
    match scene.symbols.require role with
    | .ok v => .ok { r with results := r.results ++ [v.reference] }
    | .error e => .error e
  | ifRole role block, r =>
    if (scene.symbols.get? role).isSome then runAll scene block r else .ok r
  | ifFragment id block otherwise, r =>
    if scene.symbols.hasFragment id then runAll scene block r else runAll scene otherwise r
  | expectDeclared, r =>
    if scene.declared.isSome then .ok r
    else .error (.invalidStatement r.body.stage r.body.owner .undeclared)
def runAll (scene : Scene) : List Instruction → Run → Except ShaderError Run
  | [], r => .ok r
  | i :: rest, r =>
    match i.run scene r with
    | .ok next => runAll scene rest next
    | .error e => .error e
end

end Instruction

end ShaderComposer
