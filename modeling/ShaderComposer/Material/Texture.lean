import ShaderComposer.Error
import ShaderComposer.Graphics.Resource

/-!
# Textures and texture units

The textures that a material samples itself, and the assignment of texture units: the material's
own textures first, then each effect's in order, every owner a range that starts where the one
before it ends.
-/

namespace ShaderComposer

/-! ### Textures -/

/-- What the core shader does with a texture. -/
inductive TextureKind where
  | diffuse
  | cubeMap
  /-- Declared for fragments to sample. -/
  | sampler
deriving DecidableEq, Inhabited

/-- The target that a kind of texture is meant for. -/
def TextureKind.expectedTarget : TextureKind → Option TextureTarget
  | diffuse => some .flat
  | cubeMap => some .cube
  | sampler => none

structure MaterialTexture where
  name : String
  kind : TextureKind
  texture : TextureRef
deriving DecidableEq, Inhabited

def MaterialTexture.samplerType (t : MaterialTexture) : DataType := t.texture.target.samplerType

/-! ### Units -/

/-- The texture units from `start` up to `stop`, which is not one of them. -/
structure UnitRange where
  start : Nat
  stop : Nat
deriving DecidableEq, Inhabited

namespace UnitRange

def toList (r : UnitRange) : List Nat := List.range' r.start (r.stop - r.start)

def isEmpty (r : UnitRange) : Bool := decide (r.stop ≤ r.start)

theorem mem_toList {r : UnitRange} {u : Nat} : u ∈ r.toList ↔ r.start ≤ u ∧ u < r.stop := by
  simp only [toList, List.mem_range'_1]
  omega

end UnitRange

structure UnitPlan where
  /-- How many units the material's own textures take. -/
  core : Nat
  effects : List UnitRange
deriving DecidableEq, Inhabited

namespace UnitPlan

def empty : UnitPlan := ⟨0, []⟩

def ranges : Nat → List Nat → List UnitRange
  | _, [] => []
  | start, count :: rest => ⟨start, start + count⟩ :: ranges (start + count) rest

/-- How many units are asked for: the material's own and each effect's. -/
def requested (core : Nat) (counts : List Nat) : Nat := counts.foldl (· + ·) core

/-- Assigns units, unless more than the limit are asked for. -/
def assign (core : Nat) (counts : List Nat) (limit : Nat) : Except ShaderError UnitPlan :=
  if limit < requested core counts then .error (.tooManyTextures (requested core counts) limit)
  else .ok ⟨core, ranges core counts⟩

def coreRange (p : UnitPlan) : UnitRange := ⟨0, p.core⟩

/-- The units of the effect at an index; past the last effect there are none. -/
def effectRange (p : UnitPlan) (i : Nat) : UnitRange := p.effects.getD i ⟨0, 0⟩

def total (p : UnitPlan) : Nat :=
  match p.effects.getLast? with
  | some r => r.stop
  | none => p.core

theorem length_ranges (start : Nat) (counts : List Nat) :
    (ranges start counts).length = counts.length := by
  induction counts generalizing start with
  | nil => rfl
  | cons count rest ih => simp [ranges, ih]

end UnitPlan

end ShaderComposer
