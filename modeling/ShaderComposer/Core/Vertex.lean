import ShaderComposer.Composition
import ShaderComposer.Graphics.Resource
import ShaderComposer.Material.Settings

/-!
# The core vertex shader

Copies the vertex attributes into the shared globals, transforms position and normal, through the
blended bone matrix when skinning is attached, and hands on what the fragment stage reads.
-/

namespace ShaderComposer

/-- The fragment whose presence makes the core transform go through the bone matrix. -/
def skinningFragmentId : String := "SKELETAL_ANIMATION_VERTEX"

structure VertexParams where
  mvpMatrix : Mat4 := identityMatrix 4
  normalMatrix : Mat3 := identityMatrix 3
  modelMatrix : Mat4 := identityMatrix 4
  inverseViewMatrix : Mat4 := identityMatrix 4
  modelViewMatrix : Mat4 := identityMatrix 4
  color : Vec 4 := Vector.replicate 4 .one
  time : Single := .zero
deriving DecidableEq

namespace CoreVertex

open Instruction

def optional (feature : Bool) (roles : List Role) : List Role := if feature then roles else []

def uniforms (f : Features) : List Role :=
  [.mvpMatrix, .normalMatrix, .modelMatrix, .inverseViewMatrix, .modelViewMatrix, .color] ++
    optional f.time [.time]

def attributes (f : Features) : List Role :=
  [.position, .textureCoord, .normal] ++ optional f.vertexColors [.vertexColor]

def varyings (f : Features) : List Role :=
  [.vTextureCoord] ++ optional f.cubeMaps [.vCubeTextureCoord] ++ [.vNormal, .vColor, .vEyeDir]

def globals : List Role := [.gPosition, .gNormal, .gColor, .gTextureCoord]

def declarations (f : Features) (precision : Precision) : List DeclareStep :=
  .precision .float precision ::
    (uniforms f ++ attributes f ++ varyings f ++ globals).map .role

def inputs (f : Features) : List Instruction :=
  [set (.role .gPosition) (.role .position),
    set (.role .gNormal) (.role .normal),
    set (.role .gTextureCoord) (.role .textureCoord),
    set (.role .gColor) (.role (if f.vertexColors then .vertexColor else .color))]

def transform : List Instruction :=
  [.ifFragment skinningFragmentId
    [.require .gBoneTransfMatrix,
      set .glPosition (.role .mvpMatrix * .result 0 * .role .gPosition),
      set (.role .vNormal)
        (.call .normalize
          [.role .normalMatrix * .construct .mat3 [.result 0] * .role .gNormal])]
    [set .glPosition (.role .mvpMatrix * .role .gPosition),
      set (.role .vNormal) (.call .normalize [.role .normalMatrix * .role .gNormal])]]

def lighting : List Instruction :=
  [set (.role .vEyeDir) (.construct .vec3 [.role .modelViewMatrix * .role .gPosition])]

/-- Flips the sampling direction of a sky that is seen from inside. -/
def skyFlip (f : Features) : List Instruction :=
  if f.skyTexture then [scale (.swizzle (.role .vCubeTextureCoord) "x") (.float (-1.0))] else []

def cubeDirection (f : Features) : List Instruction :=
  if f.cubeMaps then
    set (.role .vCubeTextureCoord) (.swizzle (.role .position) "xyz") :: skyFlip f
  else []

def output (f : Features) : List Instruction :=
  [set (.role .vTextureCoord) (.role .gTextureCoord)] ++ cubeDirection f ++
    [set (.role .vColor) (.role .gColor)]

def phase (f : Features) : Phase → List Instruction
  | .inputs => inputs f
  | .transform => transform
  | .lighting => lighting
  | .output => output f

def shader (f : Features) (precision : Precision) : CoreShader :=
  ⟨.vertex, "core_vertex", declarations f precision, phase f⟩

def writes (f : Features) (p : VertexParams) : List (String × UniformValue) :=
  [(Role.mvpMatrix.name, .mat4 p.mvpMatrix), (Role.normalMatrix.name, .mat3 p.normalMatrix),
    (Role.modelMatrix.name, .mat4 p.modelMatrix),
    (Role.inverseViewMatrix.name, .mat4 p.inverseViewMatrix),
    (Role.modelViewMatrix.name, .mat4 p.modelViewMatrix), (Role.color.name, .vec4 p.color)] ++
    if f.time then [(Role.time.name, .float p.time)] else []

def streams (f : Features) (s : MeshBuffers) : List (String × Option VertexBuffer) :=
  [(Role.position.name, s.positions), (Role.normal.name, s.normals),
    (Role.textureCoord.name, s.texCoords)] ++
    if f.vertexColors then [(Role.vertexColor.name, s.colors)] else []

end CoreVertex

end ShaderComposer
