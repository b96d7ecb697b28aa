import ShaderComposer.Composition
import ShaderComposer.Graphics.Resource

/-!
# Alpha mask

Discards the pixels whose alpha is below a threshold, after lighting. The alpha is the surface
colour's, or that of a mask texture.
-/

namespace ShaderComposer

/-- A threshold on alpha, with a texture to read it from if there is one. -/
structure AlphaMask where
  threshold : Single := 0.5
  mask : Option TextureRef := none
deriving DecidableEq

namespace AlphaMask

open Instruction

/-- The request for what alpha is read from, and the alpha. -/
def alpha (a : AlphaMask) : Role × Term :=
  if a.mask.isSome then
    (.gTextureCoord, .swizzle (.call .texture2D [.declared 1, .result 0]) "a")
  else (.gColor, .swizzle (.result 0) "a")

def uniforms (a : AlphaMask) : List (DataType × String) :=
  (.float, "uAlphaMaskingThreshold") ::
    if a.mask.isSome then [(.sampler2D, "uAlphaMaskTexture")] else []

def fragment (a : AlphaMask) : Fragment where
  id := "ALPHA_MASK_FRAGMENT_SHADER_FRAGMENT"
  location := .postLighting
  declarations := a.uniforms.map fun (ty, name) => .uniform ty name
  main :=
    [.expectDeclared,
      .require a.alpha.1,
      startIf (.compare a.alpha.2 .lt (.declared 0)),
      .call .discard,
      endIf]
  uniforms := a.uniforms.map (·.2)

def writes (a : AlphaMask) : List (String × UniformValue) :=
  [("uAlphaMaskingThreshold", .float a.threshold)]

def textures (a : AlphaMask) : List (TextureRef × String) :=
  a.mask.toList.map fun t => (t, "uAlphaMaskTexture")

end AlphaMask

end ShaderComposer
