import ShaderComposer.Effect.AlphaMask
import ShaderComposer.Effect.Custom
import ShaderComposer.Effect.Fog
import ShaderComposer.Effect.ShadowMap
import ShaderComposer.Effect.Skeletal
import ShaderComposer.Effect.SpriteSheet

/-!
# Effects

An effect adds fragments to the two stages of a material, and values, textures and attributes to
each frame. This module lists the kinds of effects and asks each for its share.
-/

namespace ShaderComposer

inductive Effect where
  | fog (f : Fog)
  | alphaMask (a : AlphaMask)
  | shadowMap (s : ShadowMap)
  | skeletal (s : Skeletal)
  | spriteSheet (s : SpriteSheet)
  | custom (c : Custom)

namespace Effect

def id : Effect → String
  | fog _ => "fog"
  | alphaMask _ => "alpha_mask"
  | shadowMap _ => "shadow_map"
  | skeletal _ => "skeletal_animation"
  | spriteSheet _ => "sprite_sheet"
  | custom c => c.id

def fragment? (e : Effect) (stage : Stage) : Option Fragment :=
  match e, stage with
  | fog _, stage => some (Fog.fragment stage)
  | alphaMask a, .fragment => some a.fragment
  | shadowMap _, stage => some (ShadowMap.fragment stage)
  | skeletal s, .vertex => some s.fragment
  | spriteSheet s, .vertex => some s.fragment
  | custom c, stage => (c.stage? stage).map (·.fragment)
  | _, _ => none

/-- How many texture units the effect asks for. A shadow map has its unit before it has a map. -/
def textureCount : Effect → Nat
  | alphaMask a => a.textures.length
  | shadowMap _ => 1
  | custom c => c.textures.length
  | _ => 0

/-- The textures that are bound each frame, with the names of their samplers. -/
def textures : Effect → List (TextureRef × String)
  | alphaMask a => a.textures
  | shadowMap s => s.textures
  | custom c => c.textures
  | _ => []

def advance (e : Effect) (now : Single) : Effect :=
  match e with
  | spriteSheet s => spriteSheet (s.advance now)
  | other => other

def writes (e : Effect) (stage : Stage) (now : Single) : List (String × UniformValue) :=
  match e, stage with
  | fog f, stage => f.writes stage
  | alphaMask a, .fragment => a.writes
  | shadowMap s, stage => s.writes stage
  | skeletal s, .vertex => s.writes
  | spriteSheet s, .vertex => s.writes
  | custom c, stage => c.writes stage now
  | _, _ => []

def streams (e : Effect) (v : MeshBuffers) : List (String × Option VertexBuffer) :=
  match e with
  | skeletal s => s.streams v
  | _ => []

/-- An effect never binds more textures than it asked units for. -/
theorem length_textures_le (e : Effect) : e.textures.length ≤ e.textureCount := by
  cases e with
  | shadowMap s => cases h : s.map <;> simp [textures, textureCount, ShadowMap.textures, h]
  | _ => simp [textures, textureCount]

theorem fragment?_advance (e : Effect) (now : Single) (stage : Stage) :
    (e.advance now).fragment? stage = e.fragment? stage := by
  cases e with
  | spriteSheet s =>
    cases stage with
    | fragment => rfl
    | vertex =>
      simp only [advance, fragment?, SpriteSheet.advance]
      split <;> rfl
  | _ => rfl

end Effect

/-- The fragments of a stage in the order of their effects. -/
def stageFragments (effects : List Effect) (stage : Stage) : List Fragment :=
  effects.filterMap fun e => e.fragment? stage

/-- The fragments of all effects, each effect's vertex fragment first. -/
def attachedIds (effects : List Effect) : List String :=
  effects.flatMap fun e => Stage.all.filterMap fun stage => (e.fragment? stage).map (·.id)

end ShaderComposer
