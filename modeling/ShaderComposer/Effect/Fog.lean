import ShaderComposer.Composition
import ShaderComposer.Graphics.Resource

/-!
# Fog

The vertex stage computes how dense the fog is from the depth after the core transform; the
fragment stage blends the colour towards the fog's.
-/

namespace ShaderComposer

structure Fog where
  color : Vec 3 := Vector.replicate 3 0.5
  near : Single := 1.0
  far : Single := 100.0
  enabled : Bool := true
deriving DecidableEq

namespace Fog

open Instruction

/-- The density of the vertex: the position of its depth between near and far, if fog is on. -/
def vertexFragment : Fragment where
  id := "FOG_VERTEX_SHADER_FRAGMENT"
  location := .postTransform
  declarations :=
    [.uniform .float "uFogNear", .uniform .float "uFogFar", .uniform .bool "uFogEnabled",
      .varying .float "vFogDensity"]
  main :=
    let near := Term.declared 0
    let far := Term.declared 1
    let enabled := Term.declared 2
    let density := Term.declared 3
    [.expectDeclared,
      set density (.float 0.0),
      startIf (.compare enabled .eq (.literal (.bool true))),
      set density ((.swizzle .glPosition "z" - near) / (far - near)),
      set density (.call .clamp [density, .float 0.0, .float 1.0]),
      endIf]
  uniforms := ["uFogNear", "uFogFar", "uFogEnabled"]

def pixelFragment : Fragment where
  id := "FOG_FRAGMENT_SHADER_FRAGMENT"
  location := .preTransform
  declarations := [.uniform .vec3 "uFogColor", .varying .float "vFogDensity"]
  main :=
    let rgb := Term.swizzle (.result 0) "rgb"
    [.expectDeclared,
      .require .gColor,
      set rgb (.call .mix [rgb, .declared 0, .declared 1])]
  uniforms := ["uFogColor"]

def fragment : Stage → Fragment
  | .vertex => vertexFragment
  | .fragment => pixelFragment

def writes (f : Fog) : Stage → List (String × UniformValue)
  | .vertex =>
    [("uFogNear", .float f.near), ("uFogFar", .float f.far), ("uFogEnabled", .bool f.enabled)]
  | .fragment => [("uFogColor", .vec3 f.color)]

end Fog

end ShaderComposer
