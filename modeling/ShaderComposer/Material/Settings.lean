import ShaderComposer.Glsl.DataType

/-!
# Settings of a material

What a material is built with: optional inputs of the core shaders, the default precision, type
checking and a limit on texture units. Two settings that differ only in whether sources are
printed build the same program.
-/

namespace ShaderComposer

/-- Optional inputs of the core shaders. -/
structure Features where
  /-- Colours come with the vertices instead of from a uniform. -/
  vertexColors : Bool := false
  /-- Directions for sampling cube maps are passed on. -/
  cubeMaps : Bool := false
  /-- The cube map is seen from inside. -/
  skyTexture : Bool := false
  /-- The time is a uniform of both stages. -/
  time : Bool := false
deriving DecidableEq, Inhabited

namespace Features

/-- The features of a bit set; bits without a meaning are dropped. -/
def ofBits (n : Nat) : Features := ⟨n.testBit 0, n.testBit 1, n.testBit 2, n.testBit 3⟩

def toBits (f : Features) : Nat :=
  f.vertexColors.toNat + 2 * f.cubeMaps.toNat + 4 * f.skyTexture.toNat + 8 * f.time.toNat

end Features

structure Settings where
  features : Features := {}
  precision : Precision := .medium
  /-- Types are checked while composing. -/
  strictTypes : Bool := false
  printSources : Bool := false
  /-- A limit on texture units instead of the backend's. -/
  maxTextureUnits : Option Nat := none
deriving DecidableEq, Inhabited

namespace Settings

/-- Going from one to the other changes the program that is built. -/
def requiresRebuild (s t : Settings) : Bool :=
  s.features != t.features || s.precision != t.precision || s.strictTypes != t.strictTypes ||
    s.maxTextureUnits != t.maxTextureUnits

end Settings

end ShaderComposer
