import ShaderComposer.Script.Term

/-!
# Declaration scripts

What a shader declares, as a list of steps. Steps run in order on the registry of the stage and
collect the variables that the registry gives back; the first refused step ends the run and
leaves the registry as the steps before it made it.
-/

namespace ShaderComposer

/-- A variable whose initial value may refer to variables declared before it. -/
structure VariableDraft where
  var : Variable
  initial : Option Term := none
deriving Inhabited

def VariableDraft.build (env : Bindings) (d : VariableDraft) : Variable :=
  match d.initial with
  | none => d.var
  | some t => { d.var with initial := some (t.build env) }

/-- One step of a declaration script. -/
inductive DeclareStep where
  | declare (draft : VariableDraft)
  | directive (line : String)
  | precision (type : DataType) (precision : Precision)
  | helper (function : HelperFunction)
deriving Inhabited

namespace DeclareStep

def role (r : Role) : DeclareStep := declare ⟨r.var, none⟩

/-- Declares a variable of a qualifier, type and name. -/
def plain (q : Qualifier) (ty : DataType) (name : String) : DeclareStep :=
  declare ⟨⟨name, ty, q, none, none, none⟩, none⟩

def uniform (ty : DataType) (name : String) : DeclareStep := plain .uniform ty name

def input (ty : DataType) (name : String) : DeclareStep := plain .vertexInput ty name

def varying (ty : DataType) (name : String) : DeclareStep := plain .varying ty name

def constant (ty : DataType) (name : String) (value : Term) : DeclareStep :=
  declare ⟨⟨name, ty, .const, none, none, none⟩, some value⟩

end DeclareStep

/-- A declare phase under way: the registry and the variables given back so far. -/
structure Declaring where
  registry : Registry
  declared : List Variable
deriving Inhabited

namespace Declaring

def step (d : Declaring) (owner : String) : DeclareStep → Except ShaderError Declaring
  | .declare draft =>
    match d.registry.declare owner (draft.build ⟨d.declared, []⟩) with
    | .ok (v, registry) => .ok ⟨registry, d.declared ++ [v]⟩
    | .error e => .error e
  | .directive line => .ok { d with registry := d.registry.addDirective line }
  | .precision ty p => .ok { d with registry := d.registry.setPrecision ty p }
  | .helper f =>
    match d.registry.addHelper owner f with
    | .ok registry => .ok { d with registry := registry }
    | .error e => .error e

/-- The steps of an owner up to the first refusal: what they left behind, and the refusal. -/
def run (owner : String) : List DeclareStep → Declaring → Declaring × Option ShaderError
  | [], d => (d, none)
  | s :: rest, d =>
    match d.step owner s with
    | .ok next => run owner rest next
    | .error e => (d, some e)

end Declaring

end ShaderComposer
