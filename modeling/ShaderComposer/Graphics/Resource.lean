import ShaderComposer.Glsl.DataType
import ShaderComposer.Numeric.Single

/-!
# Graphics resources

The values that cross the border to a graphics backend: locations, textures, vertex buffers,
uniform values and the calls that are made with them.
-/

namespace ShaderComposer

/-! ### Locations -/

/-- The location of a variable in a linked program; negative ones are of variables that the
program does not have. -/
abbrev Location := Int

namespace Location

/-- The location of a variable that the program does not have. -/
def notFound : Location := -1

def isValid (l : Location) : Bool := decide (0 ≤ l)

theorem isValid_notFound : isValid notFound = false := rfl

end Location

/-! ### Textures and buffers -/

/-- What a texture unit binds. -/
inductive TextureTarget where
  | flat
  | cube
  | external
deriving DecidableEq, Inhabited

def TextureTarget.samplerType : TextureTarget → DataType
  | flat => .sampler2D
  | cube => .samplerCube
  | external => .samplerExternal

theorem TextureTarget.isSampler_samplerType (t : TextureTarget) :
    t.samplerType.isSampler = true := by
  cases t <;> rfl

structure TextureRef where
  target : TextureTarget
  handle : Nat
deriving DecidableEq, Inhabited

/-- A vertex buffer with the layout of one attribute in it. -/
structure VertexBuffer where
  buffer : Nat
  components : Nat
  stride : Nat := 0
  offset : Nat := 0
deriving DecidableEq, Inhabited

/-- The buffers of a mesh. -/
structure MeshBuffers where
  positions : Option VertexBuffer := none
  normals : Option VertexBuffer := none
  texCoords : Option VertexBuffer := none
  colors : Option VertexBuffer := none
  /-- Bone indices, four to a set. -/
  boneIndices : List (Option VertexBuffer) := []
  /-- Bone weights, four to a set. -/
  boneWeights : List (Option VertexBuffer) := []
deriving DecidableEq, Inhabited

/-! ### Uniform values -/

abbrev Vec (n : Nat) := Vector Single n

/-- A 4 by 4 matrix, column by column. -/
abbrev Mat4 := Vector Single 16

abbrev Mat3 := Vector Single 9

/-- The square matrix of `n` columns with ones on its diagonal. -/
def identityMatrix (n : Nat) : Vector Single (n * n) :=
  Vector.ofFn fun i => if i.val / n = i.val % n then .one else .zero

inductive UniformValue where
  | float (x : Single)
  | int (n : Int)
  | bool (b : Bool)
  | vec2 (v : Vec 2)
  | vec3 (v : Vec 3)
  | vec4 (v : Vec 4)
  | mat3 (m : Mat3)
  | mat4 (m : Mat4)
  | mat4Array (ms : List Mat4)
  /-- The texture unit that a sampler reads. -/
  | sampler (unit : Nat)
deriving DecidableEq

/-! ### Calls -/

/-- A call that changes the state of the graphics context. -/
inductive GraphicsCall where
  | useProgram (program : Nat)
  | setUniform (location : Location) (value : UniformValue)
  | bindAttribute (location : Location) (buffer : VertexBuffer)
  | bindTexture (unit : Nat) (texture : TextureRef)
  | unbindTexture (unit : Nat) (target : TextureTarget)
  | deleteProgram (program : Nat)
deriving DecidableEq

end ShaderComposer
