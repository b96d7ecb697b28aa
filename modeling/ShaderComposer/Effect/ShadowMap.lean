import ShaderComposer.Composition
import ShaderComposer.Graphics.Resource

/-!
# Shadow map

The vertex stage projects the vertex into the light's view and from there into the shadow map; the
fragment stage compares depths and darkens the pixels in shadow that face away from the light.
-/

namespace ShaderComposer

structure ShadowMap where
  influence : Single := 0.4
  map : Option TextureRef := none
  lightMvp : Mat4 := identityMatrix 4
  lightDirection : Vec 3 := #v[0.0, -1.0, 0.0]
deriving DecidableEq

namespace ShadowMap

open Instruction

/-- The matrix from clip space to texture space, column by column. -/
def biasColumns : List Single :=
  [0.5, 0.0, 0.0, 0.0, 0.0, 0.5, 0.0, 0.0, 0.0, 0.0, 0.5, 0.0, 0.5, 0.5, 0.5, 1.0]

def vertexFragment : Fragment where
  id := "SHADOW_MAP_VERTEX_SHADER_FRAGMENT"
  location := .preTransform
  declarations :=
    [.constant .mat4 "cBiasMatrix" (.mat4OfColumns biasColumns),
      .uniform .mat4 "uLightMVPMatrix", .varying .vec4 "vShadowTexCoord"]
  main :=
    let bias := Term.declared 0
    let lightMvp := Term.declared 1
    let coord := Term.declared 2
    [.expectDeclared,
      .require .position,
      .require .modelMatrix,
      set coord (lightMvp * (.result 1 * .result 0)),
      set coord (bias * coord)]
  uniforms := ["uLightMVPMatrix"]

/-- The test of the pixel. The results are, in order, the shadow value, the specular value, the
normal, the depth in the map and the angle to the light. -/
def pixelFragment : Fragment where
  id := "SHADOW_MAP_FRAGMENT_SHADER_FRAGMENT"
  location := .preLighting
  declarations :=
    [.varying .vec4 "vShadowTexCoord", .uniform .sampler2D "uShadowMapTex",
      .uniform .float "uShadowInfluence", .uniform .vec3 "uShadowLightDir",
      .constant .float "cShadowBias" (.float 0.005)]
  main :=
    let coord := Term.declared 0
    let map := Term.declared 1
    let influence := Term.declared 2
    let direction := Term.declared 3
    let bias := Term.declared 4
    let depthTest : Condition Term :=
      .compare (.swizzle (.result 3) "z") .lt (.swizzle coord "z" - bias)
    [.expectDeclared,
      .require .gShadowValue,
      .require .gSpecularValue,
      .require .gNormal,
      .call (.declare .vec4 "lightDepthCol" (.call .texture2D [map, .swizzle coord "xy"])),
      .call (.declare .float "shadowLightAngle" (.call .dot [.result 2, direction])),
      startIf (depthTest.join .and (.result 4) .le (.float (-0.15))),
      set (.result 0) influence,
      set (.result 1) (.float 0.0),
      endIf]
  uniforms := ["uShadowMapTex", "uShadowInfluence", "uShadowLightDir"]

def fragment : Stage → Fragment
  | .vertex => vertexFragment
  | .fragment => pixelFragment

def writes (s : ShadowMap) : Stage → List (String × UniformValue)
  | .vertex => [("uLightMVPMatrix", .mat4 s.lightMvp)]
  | .fragment =>
    [("uShadowInfluence", .float s.influence), ("uShadowLightDir", .vec3 s.lightDirection)]

/-- The map, once there is one, and the name of its sampler. -/
def textures (s : ShadowMap) : List (TextureRef × String) :=
  s.map.toList.map fun t => (t, "uShadowMapTex")

end ShadowMap

end ShaderComposer
