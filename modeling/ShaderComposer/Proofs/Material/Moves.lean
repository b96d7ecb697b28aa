import Mathlib.Logic.Relation
import ShaderComposer.Proofs.Material.Deeds

/-!
# What a material goes through

On any backend an operation either resets what is built, which counts the version up
(`Material.Reset`), or is a sequence of moves that keep the version (`Material.Move`). Linking is
the only move that asks whether the units are within the limit. `Operation.performOn_cases` says so
for all operations; what a material keeps through every move and every reset it keeps through every
run.
-/

namespace ShaderComposer

namespace Material

/-! ### Moves -/

/-- A change of the configuration: the build starts over, or the settings alone are new. -/
structure Reset (m n : Material) : Prop where
  version : n.version = m.version + 1
  program : n.program = m.program
  build : n.progress = .created ∨
    ∃ settings, n = { m with settings := settings, version := m.version + 1 }

/-- One thing that a material goes through at its version, where backends have `limit` units. -/
inductive Move (limit : Nat) : Material → Material → Prop
  | kept {m n : Material} (same : m.SameBuild n) : Move limit m n
  | composed {m : Material} {c : Composition} {units : UnitPlan}
      (parts : m.composeParts = .ok (c, units)) : Move limit m (m.withComposition c units)
  | uncomposed {m : Material} (reached : BuildState)
      (early : reached = .created ∨ reached = .declared) :
      Move limit m { m with progress := reached, composed := none }
  | retired {m : Material} : Move limit m m.retire
  | linked {m : Material} (handle generation : Nat) (far : m.progress.reaches .bodyBuilt = true)
      (within : m.units.total ≤ m.settings.maxTextureUnits.getD limit) :
      Move limit m (m.withLinked handle generation)
  | located {m : Material} (t : LocationTable) (far : m.progress.reaches .linked = true) :
      Move limit m (m.withLocations t)
  | lost {m : Material} : Move limit m m.contextLost
  | released {m : Material} :
      Move limit m
        { m with program := .none, composed := none, locations := .empty, progress := .created }

def Moves (limit : Nat) : Material → Material → Prop := Relation.ReflTransGen (Move limit)

variable {limit : Nat} {m n : Material}

theorem Move.moves (move : Move limit m n) : Moves limit m n := .single move

theorem Moves.keeps {P : Material → Prop} (keeps : ∀ {m n}, Move limit m n → P m → P n)
    (moves : Moves limit m n) (holds : P m) : P n := by
  induction moves with
  | refl => exact holds
  | tail _ move ih => exact keeps move ih

theorem moves_of_sameBuild (same : m.SameBuild n) : Moves limit m n := (Move.kept same).moves

/-! ### Building -/

section

variable {α β γ : Type}

theorem composeOn_moves (m : Material) (b : β) : Moves limit m (m.composeOn b).material := by
  unfold composeOn
  rcases parts : m.composeParts with ⟨e, reached⟩ | ⟨c, units⟩
  · obtain ⟨n, same, composing⟩ := compose_of_refused parts default
    rw [composing]
    have early := composeParts_reached parts
    exact (moves_of_sameBuild same.sameBuild).tail (.uncomposed reached early)
  · obtain ⟨n, same, composing⟩ := compose_of_parts parts default
    rw [composing]
    have again : n.composeParts = .ok (c, units) :=
      (composeParts_congr same.sameBuild.configuration).trans parts
    exact (moves_of_sameBuild same.sameBuild).tail (.composed again)

theorem andThen_moves {o : OutcomeOn β α} {next : α → Material → β → OutcomeOn β γ}
    (first : Moves limit m o.material)
    (rest : ∀ a, Moves limit o.material (next a o.material o.backend).material) :
    Moves limit m (o.andThen next).material := by
  unfold OutcomeOn.andThen
  rcases o with ⟨e | a, n, b, log⟩
  · exact first
  · exact first.trans (rest a)

theorem progress_of_state {required : BuildState}
    (early : ¬ BuildState.created.reaches required = true)
    (far : m.state.reaches required = true) : m.progress.reaches required = true := by
  unfold state at far
  split at far
  · exact far
  · exact absurd far early

theorem ensureComposedOn_moves (m : Material) (b : β) :
    Moves limit m (m.ensureComposedOn b).material ∧ ∀ c, (m.ensureComposedOn b).result = .ok c →
      (m.ensureComposedOn b).material.progress.reaches .bodyBuilt = true := by
  by_cases composed : m.Composed
  · obtain ⟨c, found⟩ := Option.isSome_iff_exists.mp composed.1
    rw [ensureComposedOn_of_composed found composed.2]
    exact ⟨.refl, fun _ _ => progress_of_state (by decide) composed.2⟩
  · rw [ensureComposedOn_of_not_composed composed]
    refine ⟨m.composeOn_moves b, fun c ok => ?_⟩
    obtain ⟨_, _, ⟨d, _, _, standing⟩ | ⟨e, reached, _, failed, _⟩⟩ := m.composeOn_cases b
    · have progress : (m.composeOn b).material.progress = .bodyBuilt :=
        congrArg Standing.progress standing
      rw [progress]
      rfl
    · rw [failed] at ok
      cases ok

end

variable {α β : Type} [GraphicsBackend β]

theorem compileOn_moves (m : Material) (b : β) :
    Moves (GraphicsBackend.maxTextureUnits b) m (m.compileOn b).material := by
  have backend : (m.ensureComposedOn b).backend = b := rfl
  obtain ⟨moves, far⟩ :
      Moves (GraphicsBackend.maxTextureUnits b) m (m.ensureComposedOn b).material ∧ _ :=
    m.ensureComposedOn_moves b
  unfold compileOn
  generalize m.ensureComposedOn b = o at backend moves far ⊢
  obtain ⟨e | c, n, d, log⟩ := o
  · exact moves
  · obtain rfl : d = b := backend
    dsimp only [OutcomeOn.andThen] at moves far ⊢
    by_cases exceeds : n.unitLimitOn d < n.units.total
    · simp only [if_pos exceeds]
      exact moves
    · simp only [if_neg exceeds, compileCompositionOn]
      rcases GraphicsBackend.compileAndLink d c.vertex.source.text c.fragment.source.text
        with ⟨r | handle, _⟩
      · exact moves.tail .retired
      · exact moves.tail (.linked handle _ (far c rfl) (Nat.not_lt.mp exceeds))

theorem withProgramOn_moves {required : BuildState} {act : Nat → Material → OutcomeOn β α} (b : β)
    (acts : ∀ handle, m.progress.reaches required = true → Moves limit m (act handle m).material) :
    Moves limit m (m.withProgramOn b required act).material := by
  have stale (n : Material) : Move limit n { n with staleReported := true } :=
    .kept n.sameBuild_staleReported
  unfold withProgramOn
  rcases m.liveProgramOn_cases b required with ⟨p, _, _, _, far, given⟩ | given | ⟨_, given⟩ |
    ⟨_, given⟩
  · rw [given]
    exact acts p.handle far
  · rw [given]
    exact .refl
  · rw [given]
    exact (stale m).moves
  · rw [given]
    exact Move.lost.moves.tail (stale m.contextLost)

theorem linkLocationsOn_moves (m : Material) (b : β) :
    Moves limit m (m.linkLocationsOn b).material :=
  withProgramOn_moves b fun _ far => (Move.located _ far).moves

theorem finishOn_moves (m : Material) (b : β) :
    Moves (GraphicsBackend.maxTextureUnits b) m (m.finishOn b).material :=
  andThen_moves (m.compileOn_moves b) fun _ =>
    andThen_moves (linkLocationsOn_moves _ _) fun _ => .refl

theorem buildOn_moves (m : Material) (b : β) :
    Moves (GraphicsBackend.maxTextureUnits b) m (m.buildOn b).material := by
  have composing : (m.composeOn b).backend = b := rfl
  refine andThen_moves (m.composeOn_moves b) fun _ => ?_
  rw [composing]
  exact finishOn_moves _ _

/-! ### Drawing -/

theorem useProgramOn_moves (m : Material) (b : β) : Moves limit m (m.useProgramOn b).material :=
  withProgramOn_moves b fun _ _ => .refl

theorem applyParamsOn_moves (m : Material) (b : β) : Moves limit m (m.applyParamsOn b).material :=
  withProgramOn_moves b fun _ _ =>
    moves_of_sameBuild (m.sameBuild_mapEffects fun e => e.parts_advance m.time)

theorem bindTexturesOn_moves (m : Material) (b : β) : Moves limit m (m.bindTexturesOn b).material :=
  withProgramOn_moves b fun _ _ => .refl

theorem activateOn_moves (m : Material) (b : β) : Moves limit m (m.activateOn b).material := by
  unfold activateOn
  dsimp only
  split
  · exact m.useProgramOn_moves b
  · refine andThen_moves (m.useProgramOn_moves b) fun _ => ?_
    refine andThen_moves (bindTexturesOn_moves _ _) fun units => ?_
    exact andThen_moves (applyParamsOn_moves _ _) fun _ => Relation.ReflTransGen.refl

end Material

open Material

variable {β : Type} [GraphicsBackend β]

theorem FrameCall.performOn_moves {limit : Nat} (m : Material) (b : β) (call : FrameCall) :
    Moves limit m (call.performOn m b).material := by
  cases call with
  | useProgram => exact m.useProgramOn_moves b
  | applyParams => exact m.applyParamsOn_moves b
  | bindTextures => exact m.bindTexturesOn_moves b
  | unbindTextures =>
    have kept : Moves limit m (m.unbindTexturesOn b).material :=
      withProgramOn_moves b fun _ _ => Relation.ReflTransGen.refl
    exact kept
  | bindAttributes v =>
    have kept : Moves limit m (m.bindAttributesOn b v).material :=
      withProgramOn_moves b fun _ _ => Relation.ReflTransGen.refl
    exact kept

theorem Material.Invalidated.reset {m n : Material} (invalidated : m.Invalidated n) :
    m.Reset n := by
  obtain ⟨k, rfl, _, version, program, _⟩ := invalidated.made
  exact ⟨congrArg (· + 1) version, program, Or.inl rfl⟩

/-- An operation on any backend resets the material and does nothing else to it, or moves it. -/
theorem Operation.performOn_cases (m : Material) (b : β) (op : Operation) :
    m.Reset (op.performOn m b).material ∨
      Moves (GraphicsBackend.maxTextureUnits b) m (op.performOn m b).material := by
  have settings (f : Settings → Settings) : m.Reset (m.updateSettings f) ∨
      Moves (GraphicsBackend.maxTextureUnits b) m (m.updateSettings f) := by
    cases rebuild : m.settings.requiresRebuild (f m.settings) with
    | true =>
      have made : m.updateSettings f =
          { m with settings := f m.settings, version := m.version + 1 } := by
        simp only [Material.updateSettings, rebuild, if_true]
      exact Or.inl ⟨by rw [made], rfl, Or.inr ⟨_, made⟩⟩
    | false => exact Or.inr (moves_of_sameBuild (sameBuild_updateSettings rebuild))
  have mutators {n : Material} {taken : Prop}
      (cases : (taken ∧ m.Invalidated n) ∨ (¬ taken ∧ n = m)) :
      m.Reset n ∨ Moves (GraphicsBackend.maxTextureUnits b) m n := by
    rcases cases with ⟨_, invalidated⟩ | ⟨_, same⟩
    · exact Or.inl invalidated.reset
    · exact Or.inr (same ▸ .refl)
  cases op with
  | setFeatures features => exact settings fun s => { s with features := features }
  | updateSettings f => exact settings f
  | addTexture t => exact mutators (m.addTexture_cases t)
  | removeTexture name => exact mutators (m.removeTexture_cases name)
  | addEffect e => exact mutators (m.addEffect_cases e)
  | removeEffect id => exact mutators (m.removeEffect_cases id)
  | clearEffects => exact mutators m.clearEffects_cases
  | setTime time => exact Or.inr (moves_of_sameBuild (m.sameBuild_setTime time))
  | setVertexParams p => exact Or.inr (moves_of_sameBuild (m.sameBuild_params p m.fragmentParams))
  | setFragmentParams p => exact Or.inr (moves_of_sameBuild (m.sameBuild_params m.vertexParams p))
  | setEffect s => exact Or.inr (moves_of_sameBuild (m.sameBuild_mapEffects s.parts_apply))
  | compose => exact Or.inr (m.composeOn_moves b)
  | compile => exact Or.inr (m.compileOn_moves b)
  | linkLocations => exact Or.inr (m.linkLocationsOn_moves b)
  | build => exact Or.inr (m.buildOn_moves b)
  | contextLost => exact Or.inr Move.lost.moves
  | release => exact Or.inr Move.released.moves
  | frame call => exact Or.inr (call.performOn_moves m b)
  | activate => exact Or.inr (m.activateOn_moves b)

end ShaderComposer
