import ShaderComposer.Proofs.Core.Fragment
import ShaderComposer.Proofs.Material.Composing

/-!
# What the main() of a material reads

A material with effects of different kinds, as their constructors make them, and with textures under
names of their own composes with checked types; and on no path through either `main()` is a name used
that is not in scope, or read before it has been assigned (`Material.pathsRun_of_compose`).

The core's phases and the effects' fragments stand in fixed slots, so what a piece may read goes by
its slot: after the inputs the shared globals are there, after the transform the position of the vertex
and the normal of the pixel. The order of effects changes only the order within a slot, where no piece
needs another.
-/

namespace ShaderComposer

def Composition.stage (c : Composition) : Stage → StageComposition
  | .vertex => c.vertex
  | .fragment => c.fragment

namespace Material

/-- The effects are as their constructors make them and of different kinds, the textures have names
of their own in the fragment stage, types are checked, and there are units for all textures. -/
structure IsFit (m : Material) : Prop where
  made : ∀ e ∈ m.effects, e.isMade = true
  distinct : (m.effects.map Effect.id).Nodup
  named : (m.textures.map (·.name)).Nodup
  apart : ∀ t ∈ m.textures,
    t.name ∉ CoreFragment.otherNames m.settings.features m.textures m.effects
  strict : m.settings.strictTypes = true
  units : m.requestedUnits m.textures.length ≤ m.settings.maxTextureUnits.getD unboundedUnits

/-- The material composes with checked types. In both stages the `main()` uses only what is in scope
there, and on every path it reads nothing that has not been assigned. -/
theorem pathsRun_of_compose {m : Material} (fit : m.IsFit) (b : Backend) :
    ∃ c, (m.compose b).result = .ok c ∧ ∀ stage, ∃ l : Layout,
      l.Describes (m.coreShader stage) (stageFragments m.effects stage) (attachedIds m.effects) true
          (c.stage stage) ∧
        Stmt.PathsRun (l.pieces.flatMap Prod.snd) l.registry.known := by
  obtain ⟨vertex, vertexMade, vertexPaths⟩ := CoreVertex.exists_leading fit.made fit.distinct
    m.settings.features m.settings.precision
  obtain ⟨fragment, fragmentMade, fragmentPaths⟩ := CoreFragment.exists_leading fit.made fit.distinct
    m.settings.features m.settings.precision fit.named fit.apart (attachedIds m.effects)
  have units : ∃ units, m.planUnits = .ok units := by
    have within : ¬ m.settings.maxTextureUnits.getD unboundedUnits <
        UnitPlan.requested m.textures.length (m.effects.map Effect.textureCount) :=
      Nat.not_lt.mpr fit.units
    exact ⟨_, if_neg within⟩
  obtain ⟨units, planned⟩ := units
  have vertexResult : m.stageResult .vertex = .ok vertex := by
    rw [stageResult, fit.strict]
    exact vertexMade
  have fragmentResult : m.stageResult .fragment = .ok fragment := by
    rw [stageResult, fit.strict]
    exact fragmentMade
  have parts : m.composeParts = .ok (⟨vertex, fragment⟩, units) := by
    rw [composeParts, planned]
    dsimp only
    rw [vertexResult]
    dsimp only
    rw [fragmentResult]
  refine ⟨⟨vertex, fragment⟩, ?_, fun stage => ?_⟩
  · rw [result_compose, parts]
    rfl
  · cases stage with
    | vertex => exact vertexPaths
    | fragment => exact fragmentPaths

/-- All features, a texture of each kind, and an effect of each kind. -/
def laden : Material :=
  { create "laden" { features := ⟨true, true, true, true⟩, strictTypes := true } with
    textures := [⟨"uDiffuse", .diffuse, ⟨.flat, 1⟩⟩, ⟨"uSky", .cubeMap, ⟨.cube, 2⟩⟩,
      ⟨"uFilm", .sampler, ⟨.external, 3⟩⟩]
    effects := [.fog {}, .alphaMask { mask := some ⟨.flat, 4⟩ },
      .skeletal (.create 40 8),
      .shadowMap { map := some ⟨.flat, 5⟩, lightDirection := .replicate 3 1.0 },
      .spriteSheet { SpriteSheet.create 4 4 12.0 16 with spliced := true }] }

theorem pathsRun_of_compose_laden :
    laden.IsFit ∧ ∃ c, (laden.compose (.create 8 false)).result = .ok c ∧ ∀ stage, ∃ l : Layout,
      l.Describes (laden.coreShader stage) (stageFragments laden.effects stage)
          (attachedIds laden.effects) true (c.stage stage) ∧
        Stmt.PathsRun (l.pieces.flatMap Prod.snd) l.registry.known := by
  have fit : laden.IsFit := by
    constructor
    all_goals decide +kernel
  exact ⟨fit, pathsRun_of_compose fit (.create 8 false)⟩

end Material

end ShaderComposer
