import ShaderComposer.Composition
import ShaderComposer.Material.Settings
import ShaderComposer.Material.Texture

/-!
# The core fragment shader

Reads the varyings into the shared globals, samples the material's textures, applies colour
influence and shadow, and writes the colour of the pixel.
-/

namespace ShaderComposer

structure FragmentParams where
  colorInfluence : Single := .one
  time : Single := .zero
deriving DecidableEq

namespace CoreFragment

open Instruction

def externalImageDirective : String := "#extension GL_OES_EGL_image_external : require"

def directives (textures : List MaterialTexture) : List DeclareStep :=
  if textures.any fun t => t.samplerType == .samplerExternal then
    [.directive externalImageDirective]
  else []

/-- The varyings that the shader reads: directions for cube maps if the feature or a texture asks
for them. -/
def varyings (f : Features) (textures : List MaterialTexture) : List Role :=
  let cube := f.cubeMaps || textures.any fun t => t.kind == .cubeMap
  [.vTextureCoord] ++ (if cube then [.vCubeTextureCoord] else []) ++ [.vNormal, .vColor]

def globals : List Role := [.gColor, .gNormal, .gTextureCoord, .gShadowValue, .gSpecularValue]

def uniforms (f : Features) : List Role := [.colorInfluence] ++ if f.time then [.time] else []

def declarations (f : Features) (precision : Precision) (textures : List MaterialTexture) :
    List DeclareStep :=
  directives textures ++ [.precision .float precision] ++ (uniforms f).map .role ++
    textures.map (fun t => .uniform t.samplerType t.name) ++
    (varyings f textures ++ globals).map .role

def sample (t : MaterialTexture) : List Instruction :=
  let sampler : Term := .var t.name (some t.samplerType)
  match t.kind with
  | .diffuse => [scale (.role .gColor) (.call .texture2D [sampler, .role .gTextureCoord])]
  | .cubeMap => [scale (.role .gColor) (.call .textureCube [sampler, .role .vCubeTextureCoord])]
  | .sampler => []

def inputs (textures : List MaterialTexture) : List Instruction :=
  [set (.role .gTextureCoord) (.role .vTextureCoord),
    set (.role .gColor) (.role .vColor),
    set (.role .gShadowValue) (.float 0.0),
    set (.role .gSpecularValue) (.float 1.0)] ++ textures.flatMap sample

def phase (textures : List MaterialTexture) : Phase → List Instruction
  | .inputs => inputs textures
  | .transform =>
    [set (.role .gNormal) (.call .normalize [.role .vNormal]),
      scale (.role .gColor) (.role .colorInfluence)]
  | .lighting =>
    [scale (.swizzle (.role .gColor) "rgb") (.float 1.0 - .role .gShadowValue)]
  | .output => [set .glFragColor (.role .gColor)]

def shader (f : Features) (precision : Precision) (textures : List MaterialTexture) : CoreShader :=
  ⟨.fragment, "core_fragment", declarations f precision textures, phase textures⟩

def writes (f : Features) (p : FragmentParams) : List (String × UniformValue) :=
  [(Role.colorInfluence.name, .float p.colorInfluence)] ++
    if f.time then [(Role.time.name, .float p.time)] else []

end CoreFragment

end ShaderComposer
