/-!
# Stages, types and qualifiers

The words of the shading language that the library deals in, each with the keyword it is written
as, and the few facts about value types that inference needs: how many components a type has and
what indexing it gives.
-/

namespace ShaderComposer

/-! ### Stages -/

/-- The two programmable stages of a program. -/
inductive Stage where
  | vertex
  | fragment
deriving DecidableEq, Inhabited

/-- The name of a stage in source headers and messages. -/
def Stage.name : Stage → String
  | .vertex => "vertex"
  | .fragment => "fragment"

/-- Both stages, in the order in which they are built. -/
def Stage.all : List Stage := [.vertex, .fragment]

/-! ### Value types -/

inductive DataType where
  | float
  | vec2
  | vec3
  | vec4
  | int
  | bool
  | mat3
  | mat4
  | sampler2D
  | samplerCube
  | samplerExternal
deriving DecidableEq, Inhabited

namespace DataType

def all : List DataType :=
  [float, vec2, vec3, vec4, int, bool, mat3, mat4, sampler2D, samplerCube, samplerExternal]

def name : DataType → String
  | float => "float"
  | vec2 => "vec2"
  | vec3 => "vec3"
  | vec4 => "vec4"
  | int => "int"
  | bool => "bool"
  | mat3 => "mat3"
  | mat4 => "mat4"
  | sampler2D => "sampler2D"
  | samplerCube => "samplerCube"
  | samplerExternal => "samplerExternalOES"

/-- How many scalars a scalar or vector holds; matrices and samplers have no such count. -/
def components : DataType → Option Nat
  | float | int | bool => some 1
  | vec2 => some 2
  | vec3 => some 3
  | vec4 => some 4
  | _ => none

def isVector : DataType → Bool
  | vec2 | vec3 | vec4 => true
  | _ => false

def isScalar : DataType → Bool
  | float | int | bool => true
  | _ => false

def isMatrix : DataType → Bool
  | mat3 | mat4 => true
  | _ => false

def isSampler : DataType → Bool
  | sampler2D | samplerCube | samplerExternal => true
  | _ => false

def floatVector : Nat → Option DataType
  | 1 => some float
  | 2 => some vec2
  | 3 => some vec3
  | 4 => some vec4
  | _ => none

/-- What indexing gives: a column of a matrix, a component of a vector. -/
def element : DataType → Option DataType
  | mat3 => some vec3
  | mat4 => some vec4
  | vec2 | vec3 | vec4 => some float
  | _ => none

/-- The part of an automatic local name that tells its type. -/
def tempPrefix : DataType → String
  | samplerExternal => "samplerExt"
  | other => other.name

end DataType

/-! ### Storage qualifiers -/

/-- Where a variable lives. Sections of a source are ordered as the constructors are. -/
inductive Qualifier where
  | uniform
  | vertexInput
  | varying
  | const
  | global
  | functionLocal
deriving DecidableEq, Inhabited

namespace Qualifier

def all : List Qualifier := [uniform, vertexInput, varying, const, global, functionLocal]

/-- The keyword of a qualifier; plain variables are written without one. -/
def keyword : Qualifier → Option String
  | uniform => some "uniform"
  | vertexInput => some "attribute"
  | varying => some "varying"
  | const => some "const"
  | global | functionLocal => none

def name : Qualifier → String
  | uniform => "uniform"
  | vertexInput => "attribute"
  | varying => "varying"
  | const => "const"
  | global => "global"
  | functionLocal => "local"

def rank : Qualifier → Nat
  | uniform => 0
  | vertexInput => 1
  | varying => 2
  | const => 3
  | global => 4
  | functionLocal => 5

end Qualifier

/-! ### Precision -/

/-- The precision of a declaration or of a type's default. -/
inductive Precision where
  | low
  | medium
  | high
deriving DecidableEq, Inhabited

/-- Every precision, the lowest first. -/
def Precision.all : List Precision := [.low, .medium, .high]

def Precision.keyword : Precision → String
  | .low => "lowp"
  | .medium => "mediump"
  | .high => "highp"

end ShaderComposer
