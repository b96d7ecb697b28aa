import ShaderComposer.Glsl.Variable

/-!
# Well-known variables

The variables that core shaders and fragments share are known by their role. Each role has one
canonical variable; a fragment asks for a role and never spells out a name.
-/

namespace ShaderComposer

inductive Role where
  | mvpMatrix
  | normalMatrix
  | modelMatrix
  | inverseViewMatrix
  | modelViewMatrix
  | color
  | colorInfluence
  | influence
  | transform
  | time
  | position
  | textureCoord
  | normal
  | vertexColor
  | vTextureCoord
  | vCubeTextureCoord
  | vNormal
  | vColor
  | vEyeDir
  | gPosition
  | gNormal
  | gColor
  | gTextureCoord
  | gShadowValue
  | gSpecularValue
  | gBoneTransfMatrix
deriving DecidableEq, Inhabited

namespace Role

/-- Every role: uniforms, attributes, varyings and globals. -/
def all : List Role :=
  [mvpMatrix, normalMatrix, modelMatrix, inverseViewMatrix, modelViewMatrix, color,
    colorInfluence, influence, transform, time, position, textureCoord, normal, vertexColor,
    vTextureCoord, vCubeTextureCoord, vNormal, vColor, vEyeDir, gPosition, gNormal, gColor,
    gTextureCoord, gShadowValue, gSpecularValue, gBoneTransfMatrix]

theorem mem_all (r : Role) : r ∈ all := by
  cases r <;> decide

def var : Role → Variable
  | mvpMatrix => ⟨"uMVPMatrix", .mat4, .uniform, none, none, none⟩
  | normalMatrix => ⟨"uNormalMatrix", .mat3, .uniform, none, none, none⟩
  | modelMatrix => ⟨"uModelMatrix", .mat4, .uniform, none, none, none⟩
  | inverseViewMatrix => ⟨"uInverseViewMatrix", .mat4, .uniform, none, none, none⟩
  | modelViewMatrix => ⟨"uModelViewMatrix", .mat4, .uniform, none, none, none⟩
  | color => ⟨"uColor", .vec4, .uniform, none, none, none⟩
  | colorInfluence => ⟨"uColorInfluence", .float, .uniform, none, none, none⟩
  | influence => ⟨"uInfluence", .float, .uniform, none, none, none⟩
  | transform => ⟨"uTransform", .mat3, .uniform, none, none, none⟩
  | time => ⟨"uTime", .float, .uniform, none, none, none⟩
  | position => ⟨"aPosition", .vec4, .vertexInput, none, none, none⟩
  | textureCoord => ⟨"aTextureCoord", .vec2, .vertexInput, none, none, none⟩
  | normal => ⟨"aNormal", .vec3, .vertexInput, none, none, none⟩
  | vertexColor => ⟨"aVertexColor", .vec4, .vertexInput, none, none, none⟩
  | vTextureCoord => ⟨"vTextureCoord", .vec2, .varying, none, none, none⟩
  | vCubeTextureCoord => ⟨"vCubeTextureCoord", .vec3, .varying, none, none, none⟩
  | vNormal => ⟨"vNormal", .vec3, .varying, none, none, none⟩
  | vColor => ⟨"vColor", .vec4, .varying, none, none, none⟩
  | vEyeDir => ⟨"vEyeDir", .vec3, .varying, none, none, none⟩
  | gPosition => ⟨"gPosition", .vec4, .global, none, none, none⟩
  | gNormal => ⟨"gNormal", .vec3, .global, none, none, none⟩
  | gColor => ⟨"gColor", .vec4, .global, none, none, none⟩
  | gTextureCoord => ⟨"gTextureCoord", .vec2, .global, none, none, none⟩
  | gShadowValue => ⟨"gShadowValue", .float, .global, none, none, none⟩
  | gSpecularValue => ⟨"gSpecularValue", .float, .global, none, none, none⟩
  | gBoneTransfMatrix => ⟨"gBoneTransfMatrix", .mat4, .global, none, none, none⟩

def name (r : Role) : String := r.var.name

def ofName? (name : String) : Option Role := all.find? fun r => r.name == name

theorem ofName?_name (r : Role) : ofName? r.name = some r := by
  cases r <;> rfl

theorem name_injective {r s : Role} (h : r.name = s.name) : r = s := by
  have key := ofName?_name r
  rw [h, ofName?_name] at key
  exact (Option.some.inj key).symm

end Role

end ShaderComposer
