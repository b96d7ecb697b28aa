import Mathlib.Data.List.Nodup
import ShaderComposer.Proofs.Material.Composing
import ShaderComposer.Proofs.Material.Run

/-!
# What an operation can do

An operation on a material either changes what is built, which counts the version up and leaves
the program alone (`Material.Mutated`), or it is a sequence of changes of a few kinds
(`Changes`). `Operation.perform_cases` says so once for all operations; invariants of runs are
then shown for a mutation and for each kind of change. A `Permit` says which of the kinds that
matter may occur.
-/

namespace ShaderComposer

/-! ### Configurations -/

/-- What composing depends on of an effect. -/
structure EffectParts where
  id : String
  units : Nat
  vertex : Option Fragment
  pixel : Option Fragment

def Effect.parts (e : Effect) : EffectParts :=
  ⟨e.id, e.textureCount, e.fragment? .vertex, e.fragment? .fragment⟩

def EffectParts.fragment? (p : EffectParts) : Stage → Option Fragment
  | .vertex => p.vertex
  | .fragment => p.pixel

theorem Effect.fragment?_parts (e : Effect) (stage : Stage) :
    e.parts.fragment? stage = e.fragment? stage := by
  cases stage <;> rfl

/-- What composing depends on of a material. -/
structure Configuration where
  features : Features
  precision : Precision
  strictTypes : Bool
  maxTextureUnits : Option Nat
  textures : List MaterialTexture
  effects : List EffectParts

def Material.configuration (m : Material) : Configuration :=
  ⟨m.settings.features, m.settings.precision, m.settings.strictTypes, m.settings.maxTextureUnits,
    m.textures, m.effects.map Effect.parts⟩

theorem stageFragments_eq (effects : List Effect) (stage : Stage) :
    stageFragments effects stage =
      (effects.map Effect.parts).filterMap fun p => p.fragment? stage := by
  simp only [stageFragments, List.filterMap_map]
  congr 1
  funext e
  exact (e.fragment?_parts stage).symm

theorem attachedIds_eq (effects : List Effect) :
    attachedIds effects =
      (effects.map Effect.parts).flatMap fun p =>
        Stage.all.filterMap fun stage => (p.fragment? stage).map (·.id) := by
  simp only [attachedIds, List.flatMap_map, Effect.fragment?_parts]

theorem textureCounts_eq (effects : List Effect) :
    effects.map Effect.textureCount = (effects.map Effect.parts).map (·.units) := by
  rw [List.map_map]
  rfl

theorem Material.composeParts_congr {m n : Material} (h : n.configuration = m.configuration) :
    n.composeParts = m.composeParts := by
  injection h with features precision strict units textures effects
  have plan : n.planUnits = m.planUnits := by
    simp only [planUnits, textureCounts_eq, units, textures, effects]
  have stage (s : Stage) : n.stageResult s = m.stageResult s := by
    have core : n.coreShader s = m.coreShader s := by
      cases s <;> simp only [coreShader, features, precision, textures]
    simp only [stageResult, core, stageFragments_eq, attachedIds_eq, strict, effects]
  simp only [composeParts, plan, stage]

/-- No two effects have the same name. -/
def Material.Distinct (m : Material) : Prop := (m.effects.map Effect.id).Nodup

theorem Material.ids_congr {m n : Material} (h : n.configuration = m.configuration) :
    n.effects.map Effect.id = m.effects.map Effect.id := by
  have ids (effects : List Effect) :
      effects.map Effect.id = (effects.map Effect.parts).map (·.id) := by
    rw [List.map_map]
    rfl
  have effects : n.effects.map Effect.parts = m.effects.map Effect.parts :=
    congrArg Configuration.effects h
  rw [ids, effects, ← ids]

theorem Material.distinct_congr {m n : Material} (h : n.configuration = m.configuration)
    (distinct : m.Distinct) : n.Distinct := by
  rw [Distinct, ids_congr h]
  exact distinct

/-! ### Kinds of changes -/

/-- The two materials have the same configuration and the same build of it. -/
structure Material.SameBuild (m n : Material) : Prop where
  configuration : n.configuration = m.configuration
  version : n.version = m.version
  progress : n.progress = m.progress
  composed : n.composed = m.composed
  composedVersion : n.composedVersion = m.composedVersion
  program : n.program = m.program
  shaderFeatures : n.shaderFeatures = m.shaderFeatures
  samplers : n.samplers = m.samplers
  held : n.held = m.held
  locations : n.locations = m.locations
  units : n.units = m.units

/-- What a change of the configuration does to the build. -/
structure Material.Mutated (m n : Material) : Prop where
  version : n.version = m.version + 1
  program : n.program = m.program
  composedVersion : n.composedVersion = m.composedVersion
  distinct : m.Distinct → n.Distinct

/-- What may happen to a material; `wrap` is about versions that start over. -/
structure Permit where
  relink : Prop
  drop : Prop
  release : Prop
  wrap : Prop

/-- A change of a material and its backend that keeps the version, with the programs it links. -/
inductive Change (π : Permit) : Material → Backend → List Link → Material → Backend → Prop
  | adjusted {m n : Material} {b : Backend} (calls : List GraphicsCall) (same : m.SameBuild n)
      (quiet : ∀ h, .deleteProgram h ∉ calls) : Change π m b [] n (b.recordAll calls)
  | composed {m : Material} {b : Backend} {c : Composition} {units : UnitPlan}
      (parts : m.composeParts = .ok (c, units)) : Change π m b [] (m.withComposition c units) b
  | notComposed {m : Material} {b : Backend} (reached : BuildState)
      (early : reached = .created ∨ reached = .declared) :
      Change π m b [] { m with progress := reached, composed := none } b
  | rejected {m : Material} {b b' : Backend} {vertex fragment : String} {r : Rejection}
      (failed : b.compileAndLink vertex fragment = (.error r, b')) : Change π m b [] m.retire b'
  | linked {m : Material} {b b' : Backend} {c : Composition} {handle : Nat} (may : π.relink)
      (current : m.isCurrent = true) (composed : m.composed = some c)
      (done : b.compileAndLink c.vertex.source.text c.fragment.source.text = (.ok handle, b')) :
      Change π m b [⟨handle, c.vertex.source.text, c.fragment.source.text⟩]
        (m.withLinked handle (m.releaseProgram b').contextGeneration) (m.releaseProgram b')
  | bound {m : Material} {b : Backend} {p : LinkedProgram} (live : m.program = .live p)
      (generation : p.generation = b.contextGeneration) (version : p.version = m.version) :
      Change π m b [] (m.withLocations (Material.resolveAll b p.handle m.lookups .empty).1) b
  /-- The context of the program is found to be gone. -/
  | lost {m : Material} {b : Backend}
      (gone : ∀ p, m.ownedProgram = some p → p.generation ≠ b.contextGeneration) :
      Change π m b [] m.contextLost b
  /-- The material is told that the context is gone, be it true or not. -/
  | dropped {m : Material} {b : Backend} (may : π.drop) : Change π m b [] m.contextLost b
  | released {m : Material} {b : Backend} (may : π.release) :
      Change π m b [] (m.release b).1 (m.release b).2

inductive Changes (π : Permit) : Material → Backend → List Link → Material → Backend → Prop
  | none {m : Material} {b : Backend} : Changes π m b [] m b
  | next {m n o : Material} {b c d : Backend} {first rest : List Link}
      (change : Change π m b first n c) (changes : Changes π n c rest o d) :
      Changes π m b (first ++ rest) o d

theorem Change.configuration {π : Permit} {m n : Material} {b c : Backend} {links : List Link}
    (change : Change π m b links n c) : n.configuration = m.configuration := by
  cases change with
  | adjusted _ same _ => exact same.configuration
  | rejected _ =>
    unfold Material.retire
    split <;> rfl
  | composed _ | notComposed _ _ | linked _ _ _ _ | bound _ _ _ | lost _ | dropped _ | released _ =>
    rfl

theorem Changes.configuration {π : Permit} {m n : Material} {b c : Backend} {links : List Link}
    (changes : Changes π m b links n c) : n.configuration = m.configuration := by
  induction changes with
  | none => rfl
  | next change _ ih => rw [ih, change.configuration]

theorem Change.single {π : Permit} {m n : Material} {b c : Backend} {links : List Link}
    (h : Change π m b links n c) : Changes π m b links n c := by
  have chain := Changes.next h Changes.none
  rwa [List.append_nil] at chain

theorem Changes.trans {π : Permit} {m n o : Material} {b c d : Backend} {first rest : List Link}
    (h : Changes π m b first n c) (k : Changes π n c rest o d) :
    Changes π m b (first ++ rest) o d := by
  induction h with
  | none => exact k
  | next change _ ih =>
    rw [List.append_assoc]
    exact Changes.next change (ih k)

/-! ### Recorded calls -/

section Calls

variable (h : Nat)

theorem deleteProgram_notMem_writeCalls (l : Location) (value : UniformValue) :
    .deleteProgram h ∉ writeCalls l value := by
  unfold writeCalls
  split <;> simp

theorem deleteProgram_notMem_bindCalls (unit : Nat) (t : TextureRef) (sampler : Location) :
    .deleteProgram h ∉ bindCalls unit t sampler := by
  simp [bindCalls, deleteProgram_notMem_writeCalls]

theorem deleteProgram_notMem_attributeCalls (l : Location) (buffer : Option VertexBuffer) :
    .deleteProgram h ∉ attributeCalls l buffer := by
  unfold attributeCalls
  split
  · split <;> simp
  · simp

theorem deleteProgram_notMem_flatMap {α : Type} {f : α → List GraphicsCall}
    (each : ∀ a, .deleteProgram h ∉ f a) (as : List α) : .deleteProgram h ∉ as.flatMap f := by
  intro mem
  obtain ⟨a, _, ha⟩ := List.mem_flatMap.mp mem
  exact each a ha

theorem deleteProgram_notMem_stageWrites (m : Material) (stage : Stage) :
    .deleteProgram h ∉ m.stageWrites stage := by
  have core : .deleteProgram h ∉ m.coreWrites stage := by
    cases stage <;>
      exact deleteProgram_notMem_flatMap h (fun _ => deleteProgram_notMem_writeCalls h _ _) _
  have effects : .deleteProgram h ∉ m.effects.flatMap (m.effectWrites stage) :=
    deleteProgram_notMem_flatMap h
      (fun _ => deleteProgram_notMem_flatMap h (fun _ => deleteProgram_notMem_writeCalls h _ _) _) _
  simp [Material.stageWrites, core, effects]

theorem deleteProgram_notMem_textureBindings (m : Material) (limit : Nat) :
    .deleteProgram h ∉ m.textureBindings limit := by
  simp only [Material.textureBindings, List.mem_append, not_or]
  constructor
  · refine deleteProgram_notMem_flatMap h ?_ _
    rintro ⟨⟨unit, t⟩, sampler⟩
    exact deleteProgram_notMem_bindCalls h _ _ _
  · refine deleteProgram_notMem_flatMap h ?_ _
    rintro ⟨r, e⟩
    refine deleteProgram_notMem_flatMap h ?_ _
    rintro ⟨unit, texture, sampler⟩
    exact deleteProgram_notMem_bindCalls h _ _ _

theorem deleteProgram_notMem_textureReleases (m : Material) (limit : Nat) :
    .deleteProgram h ∉ m.textureReleases limit := by
  simp [Material.textureReleases]

theorem deleteProgram_notMem_attributeBindings (m : Material) (v : MeshBuffers) :
    .deleteProgram h ∉ m.attributeBindings v := by
  simp only [Material.attributeBindings, List.mem_append, not_or]
  exact ⟨deleteProgram_notMem_flatMap h (fun _ => deleteProgram_notMem_attributeCalls h _ _) _,
    deleteProgram_notMem_flatMap h
      (fun _ => deleteProgram_notMem_flatMap h (fun _ => deleteProgram_notMem_attributeCalls h _ _) _)
      _⟩

end Calls

/-! ### Effects -/

theorem EffectSetting.parts_apply (s : EffectSetting) (e : Effect) : (s.apply e).parts = e.parts := by
  cases s <;> cases e <;> try rfl
  case playSprites.spriteSheet s => simp only [apply, SpriteSheet.play]; split <;> rfl

theorem Effect.parts_advance (e : Effect) (now : Single) : (e.advance now).parts = e.parts := by
  have id : (e.advance now).id = e.id := by cases e <;> rfl
  have units : (e.advance now).textureCount = e.textureCount := by cases e <;> rfl
  simp only [parts, fragment?_advance, id, units]

namespace Material

theorem SameBuild.refl (m : Material) : m.SameBuild m :=
  ⟨rfl, rfl, rfl, rfl, rfl, rfl, rfl, rfl, rfl, rfl, rfl⟩

theorem SameButMemory.sameBuild {m n : Material} (same : m.SameButMemory n) : m.SameBuild n := by
  obtain ⟨remembered, rfl⟩ := same
  exact ⟨rfl, rfl, rfl, rfl, rfl, rfl, rfl, rfl, rfl, rfl, rfl⟩

theorem sameBuild_mapEffects (m : Material) {f : Effect → Effect}
    (parts : ∀ e, (f e).parts = e.parts) : m.SameBuild (m.mapEffects f) := by
  have effects : (m.effects.map f).map Effect.parts = m.effects.map Effect.parts := by
    simp only [List.map_map, Function.comp_def, parts]
  exact ⟨by simp only [configuration, mapEffects, effects], rfl, rfl, rfl, rfl, rfl, rfl, rfl, rfl,
    rfl, rfl⟩

end Material

theorem Backend.recordAll_nil (b : Backend) : b.recordAll [] = b := by
  simp [recordAll]

theorem Backend.recordAll_append (b : Backend) (first later : List GraphicsCall) :
    (b.recordAll first).recordAll later = b.recordAll (first ++ later) := by
  simp only [recordAll, List.append_assoc]

theorem Change.same {π : Permit} {m n : Material} (h : m.SameBuild n) (b : Backend) :
    Change π m b [] n b := by
  have change := Change.adjusted (π := π) (b := b) [] h (by simp)
  rwa [Backend.recordAll_nil] at change

/-! ### Calls on the live program -/

namespace Material

/-- The live program is one of the present context and version. -/
structure IsLive (m : Material) (b : Backend) (p : LinkedProgram) : Prop where
  live : m.program = .live p
  generation : p.generation = b.contextGeneration
  version : p.version = m.version

theorem sameBuild_staleReported (m : Material) : m.SameBuild { m with staleReported := true } :=
  ⟨rfl, rfl, rfl, rfl, rfl, rfl, rfl, rfl, rfl, rfl, rfl⟩

theorem refuseStale_changes {π : Permit} (m : Material) (b : Backend) :
    Changes π m b [] m.refuseStale.2.1 b :=
  (Change.same m.sameBuild_staleReported b).single

theorem ownedProgram_live {m : Material} {p : LinkedProgram} (live : m.program = .live p) :
    m.ownedProgram = some p := by
  simp only [ownedProgram, live]

/-- The live program is handed out, or the call is refused. -/
theorem liveProgram_cases (π : Permit) (m : Material) (b : Backend) (required : BuildState) :
    (∃ p, m.IsLive b p ∧ m.progress.reaches required = true ∧
      m.liveProgram b required = (.ok p.handle, m, [])) ∨
    ∃ e n log, m.liveProgram b required = (.error e, n, log) ∧ Changes π m b [] n b := by
  cases program : m.program with
  | none => exact Or.inr ⟨_, m, [], by simp only [liveProgram, program]; rfl, Changes.none⟩
  | invalidated =>
    exact Or.inr ⟨_, _, _, by simp only [liveProgram, program]; rfl, m.refuseStale_changes b⟩
  | retired p =>
    exact Or.inr ⟨_, _, _, by simp only [liveProgram, program]; rfl, m.refuseStale_changes b⟩
  | live p =>
    by_cases generation : p.generation = b.contextGeneration
    · by_cases version : p.version = m.version
      · by_cases far : m.progress.reaches required = true
        · refine Or.inl ⟨p, ⟨program, generation, version⟩, far, ?_⟩
          simp [liveProgram, program, generation, version, far]
        · refine Or.inr ⟨.notLinked m.name, m, [], ?_, Changes.none⟩
          simp [liveProgram, program, generation, version, far]
      · refine Or.inr ⟨.staleProgram m.name, m.refuseStale.2.1, m.refuseStale.2.2, ?_,
          m.refuseStale_changes b⟩
        simp only [liveProgram, program, generation, version, ne_eq, not_true_eq_false, ite_false,
          not_false_eq_true, ite_true]
        rfl
    · have gone : ∀ q, m.ownedProgram = some q → q.generation ≠ b.contextGeneration := by
        intro q owned
        rw [ownedProgram_live program] at owned
        rwa [← Option.some.inj owned]
      have lost : Changes π m b [] m.contextLost b := (Change.lost gone).single
      refine Or.inr ⟨.staleProgram m.name, m.contextLost.refuseStale.2.1,
        m.contextLost.refuseStale.2.2, ?_, lost.trans (refuseStale_changes _ b)⟩
      simp only [liveProgram, program, generation, ne_eq, not_false_eq_true, ite_true]
      rfl

theorem withProgram_changes {α : Type} {π : Permit} {m : Material} {b : Backend}
    {required : BuildState} {act : Nat → Material → Outcome α}
    (acts : ∀ p, m.IsLive b p →
      Changes π m b [] (act p.handle m).material (act p.handle m).backend) :
    Changes π m b [] (m.withProgram b required act).material
      (m.withProgram b required act).backend := by
  rcases liveProgram_cases π m b required with ⟨p, live, _, given⟩ | ⟨e, n, log, given, changes⟩
  · simp only [withProgram, given]
    exact acts p live
  · simp only [withProgram, given]
    exact changes

theorem useProgram_changes {π : Permit} (m : Material) (b : Backend) :
    Changes π m b [] (m.useProgram b).material (m.useProgram b).backend := by
  refine withProgram_changes fun p _ => ?_
  exact (Change.adjusted [.useProgram p.handle] (SameBuild.refl m) (by simp)).single

theorem applyParams_changes {π : Permit} (m : Material) (b : Backend) :
    Changes π m b [] (m.applyParams b).material (m.applyParams b).backend := by
  refine withProgram_changes fun p _ => ?_
  have same := m.sameBuild_mapEffects (f := fun e => e.advance m.time)
    fun e => e.parts_advance m.time
  refine (Change.adjusted _ same fun h => ?_).single
  rw [List.mem_append, not_or]
  exact ⟨deleteProgram_notMem_stageWrites h _ _, deleteProgram_notMem_stageWrites h _ _⟩

theorem bindTextures_changes {π : Permit} (m : Material) (b : Backend) :
    Changes π m b [] (m.bindTextures b).material (m.bindTextures b).backend := by
  refine withProgram_changes fun p _ => ?_
  exact (Change.adjusted _ (SameBuild.refl m)
    fun h => deleteProgram_notMem_textureBindings h m _).single

theorem unbindTextures_changes {π : Permit} (m : Material) (b : Backend) :
    Changes π m b [] (m.unbindTextures b).material (m.unbindTextures b).backend := by
  refine withProgram_changes fun p _ => ?_
  exact (Change.adjusted _ (SameBuild.refl m)
    fun h => deleteProgram_notMem_textureReleases h m _).single

theorem bindAttributes_changes {π : Permit} (m : Material) (b : Backend) (v : MeshBuffers) :
    Changes π m b [] (m.bindAttributes b v).material (m.bindAttributes b v).backend := by
  refine withProgram_changes fun p _ => ?_
  exact (Change.adjusted _ (SameBuild.refl m)
    fun h => deleteProgram_notMem_attributeBindings h m v).single

theorem linkLocations_changes {π : Permit} (m : Material) (b : Backend) :
    Changes π m b [] (m.linkLocations b).material (m.linkLocations b).backend :=
  withProgram_changes fun _ live => (Change.bound live.live live.generation live.version).single

end Material

theorem FrameCall.perform_changes {π : Permit} (m : Material) (b : Backend) (call : FrameCall) :
    Changes π m b [] (call.perform m b).material (call.perform m b).backend := by
  cases call with
  | useProgram => exact m.useProgram_changes b
  | applyParams => exact m.applyParams_changes b
  | bindTextures => exact m.bindTextures_changes b
  | unbindTextures => exact m.unbindTextures_changes b
  | bindAttributes v => exact m.bindAttributes_changes b v

/-! ### Sequences of operations -/

theorem Outcome.andThen_changes {α β : Type} {π : Permit} {m : Material} {b : Backend}
    {o : Outcome α} {next : α → Material → Backend → Outcome β}
    (first : Changes π m b [] o.material o.backend)
    (rest : ∀ a, o.result = .ok a →
      Changes π o.material o.backend [] (next a o.material o.backend).material
        (next a o.material o.backend).backend) :
    Changes π m b [] (o.andThen next).material (o.andThen next).backend := by
  unfold Outcome.andThen
  split
  · exact first
  · next a ok => exact first.trans (rest a ok)

theorem Material.activate_changes {π : Permit} (m : Material) (b : Backend) :
    Changes π m b [] (m.activate b).material (m.activate b).backend := by
  dsimp only [Material.activate]
  split
  · exact m.useProgram_changes b
  · refine Outcome.andThen_changes (m.useProgram_changes b) fun _ _ => ?_
    refine Outcome.andThen_changes (Material.bindTextures_changes _ _) fun _ _ => ?_
    exact Outcome.andThen_changes (Material.applyParams_changes _ _) fun _ _ => Changes.none

namespace Material

theorem composeParts_reached {m : Material} {e : ShaderError} {reached : BuildState}
    (parts : m.composeParts = .error (e, reached)) : reached = .created ∨ reached = .declared := by
  unfold composeParts at parts
  split at parts
  · cases parts
    exact Or.inl rfl
  · split at parts
    · cases parts
      exact Or.inl rfl
    · split at parts
      · cases parts
        exact Or.inr rfl
      · cases parts

theorem compose_changes {π : Permit} (m : Material) (b : Backend) :
    Changes π m b [] (m.compose b).material (m.compose b).backend := by
  cases parts : m.composeParts with
  | error failure =>
    obtain ⟨e, reached⟩ := failure
    obtain ⟨n, kept, composing⟩ := compose_of_refused parts b
    rw [composing]
    exact .next (.same kept.sameBuild b) (Change.notComposed reached (composeParts_reached parts)).single
  | ok made =>
    obtain ⟨c, units⟩ := made
    obtain ⟨n, kept, composing⟩ := compose_of_parts parts b
    rw [composing]
    have again : n.composeParts = .ok (c, units) :=
      (composeParts_congr kept.sameBuild.configuration).trans parts
    exact .next (.same kept.sameBuild b) (Change.composed again).single

theorem isCurrent_withComposition (m : Material) (c : Composition) (units : UnitPlan) :
    (m.withComposition c units).isCurrent = true := by
  simp [isCurrent, withComposition]

theorem state_withComposition (m : Material) (c : Composition) (units : UnitPlan) :
    (m.withComposition c units).state = .bodyBuilt :=
  if_pos (isCurrent_withComposition m c units)

/-- A composition that is composed or found is current. -/
theorem compose_result {m : Material} {b : Backend} {c : Composition}
    (ok : (m.compose b).result = .ok c) :
    (m.compose b).material.isCurrent = true ∧ (m.compose b).material.composed = some c := by
  obtain ⟨n, units, _, kept⟩ := parts_of_compose ok
  rw [kept]
  exact ⟨isCurrent_withComposition n c units, rfl⟩

theorem isCurrent_of_reaches {m : Material} (far : m.state.reaches .bodyBuilt = true) :
    m.isCurrent = true := by
  cases current : m.isCurrent with
  | true => rfl
  | false => simp [state, current, BuildState.reaches, BuildState.rank] at far

/-- The composition to compile is found as it is, or made now. -/
theorem ensureComposed_cases (m : Material) (b : Backend) :
    (∃ c, m.composed = some c ∧ m.isCurrent = true ∧ m.ensureComposed b = ⟨.ok c, m, b, []⟩) ∨
      m.ensureComposed b = m.compose b := by
  unfold ensureComposed
  split
  · next c composed =>
    split
    · next far => exact Or.inl ⟨c, composed, isCurrent_of_reaches far, rfl⟩
    · exact Or.inr rfl
  · exact Or.inr rfl

theorem backend_ensureComposed (m : Material) (b : Backend) : (m.ensureComposed b).backend = b := by
  rcases m.ensureComposed_cases b with ⟨_, _, _, found⟩ | anew
  · rw [found]
  · rw [anew, backend_compose]

theorem ensureComposed_changes {π : Permit} (m : Material) (b : Backend) :
    Changes π m b [] (m.ensureComposed b).material b := by
  rcases m.ensureComposed_cases b with ⟨_, _, _, found⟩ | anew
  · rw [found]
    exact .none
  · have changes := m.compose_changes (π := π) b
    rw [backend_compose] at changes
    rw [anew]
    exact changes

theorem ensureComposed_result {m : Material} {b : Backend} {c : Composition}
    (ok : (m.ensureComposed b).result = .ok c) :
    (m.ensureComposed b).material.isCurrent = true ∧
      (m.ensureComposed b).material.composed = some c := by
  rcases m.ensureComposed_cases b with ⟨c', composed, current, found⟩ | anew
  · rw [found] at ok ⊢
    obtain rfl := Except.ok.inj ok
    exact ⟨current, composed⟩
  · rw [anew] at ok ⊢
    exact compose_result ok

/-- How compiling ends, where `n` is the material that was composed or failed to: there is nothing to
compile, there are too many units, the backend rejects the sources of the composition, or it links
them. -/
inductive CompileEnds (m : Material) (b : Backend) (n : Material) : Prop
  | uncomposed {e : ShaderError} (composing : (m.ensureComposed b).result = .error e)
      (submits : m.submission? b = none) (result : (m.compile b).result = .error e)
      (material : (m.compile b).material = n) (backend : (m.compile b).backend = b)
  | crowded (exceeds : n.unitLimit b < n.units.total) (submits : m.submission? b = none)
      (result : (m.compile b).result = .error (.tooManyTextures n.units.total (n.unitLimit b)))
      (material : (m.compile b).material = n) (backend : (m.compile b).backend = b)
  | rejected {c : Composition} {r : Rejection} {d : Backend} (current : n.isCurrent = true)
      (composed : n.composed = some c)
      (submits : m.submission? b = some (c.vertex.source.text, c.fragment.source.text))
      (rejecting : b.compileAndLink c.vertex.source.text c.fragment.source.text = (.error r, d))
      (result : (m.compile b).result = .error (.rejected r))
      (material : (m.compile b).material = n.retire) (backend : (m.compile b).backend = d)
  | linked {c : Composition} {handle : Nat} {d : Backend} (current : n.isCurrent = true)
      (composed : n.composed = some c) (within : n.units.total ≤ n.unitLimit b)
      (submits : m.submission? b = some (c.vertex.source.text, c.fragment.source.text))
      (linking : b.compileAndLink c.vertex.source.text c.fragment.source.text = (.ok handle, d))
      (result : (m.compile b).result = .ok handle)
      (material : (m.compile b).material =
        n.withLinked handle (n.releaseProgram d).contextGeneration)
      (backend : (m.compile b).backend = n.releaseProgram d)

theorem compile_ends (m : Material) (b : Backend) :
    m.CompileEnds b (m.ensureComposed b).material := by
  have backend := m.backend_ensureComposed b
  cases composing : (m.ensureComposed b).result with
  | error e =>
    refine .uncomposed composing ?_ ?_ ?_ ?_
    all_goals simp only [submission?, compile, Outcome.andThen, composing, backend]
  | ok c =>
    obtain ⟨current, composed⟩ := ensureComposed_result composing
    by_cases exceeds : (m.ensureComposed b).material.unitLimit b <
        (m.ensureComposed b).material.units.total
    · refine .crowded exceeds ?_ ?_ ?_ ?_
      all_goals simp only [submission?, compile, Outcome.andThen, composing, backend, if_pos exceeds]
    · have submits : m.submission? b =
          some (c.vertex.source.text, c.fragment.source.text) := by
        simp only [submission?, composing, if_neg exceeds]
      rcases made : b.compileAndLink c.vertex.source.text c.fragment.source.text
        with ⟨r | handle, d⟩
      · refine .rejected current composed submits made ?_ ?_ ?_
        all_goals simp only [compile, Outcome.andThen, composing, backend, if_neg exceeds,
          compileComposition, made]
      · refine .linked current composed (Nat.not_lt.mp exceeds) submits made ?_ ?_ ?_
        all_goals simp only [compile, Outcome.andThen, composing, backend, if_neg exceeds,
          compileComposition, made]

/-- Compiling links a program or none; it links one if it succeeds. -/
theorem compile_changes {π : Permit} (m : Material) (b : Backend)
    (may : (∃ handle, (m.compile b).result = .ok handle) → π.relink) :
    Changes π m b (m.link? b).toList (m.compile b).material (m.compile b).backend := by
  have changes := m.ensureComposed_changes (π := π) b
  cases m.compile_ends b with
  | uncomposed _ submits _ material backend | crowded _ submits _ material backend =>
    rw [material, backend, link?, submits]
    exact changes
  | rejected _ _ submits rejecting _ material backend =>
    rw [material, backend, link?, submits]
    simp only [rejecting]
    exact changes.trans (Change.rejected rejecting).single
  | linked current composed _ submits linking result material backend =>
    rw [material, backend, link?, submits]
    simp only [linking]
    exact changes.trans (Change.linked (may ⟨_, result⟩) current composed linking).single

theorem compile_ok {m : Material} {b : Backend} {handle : Nat}
    (ok : (m.compile b).result = .ok handle) :
    ∃ n : Material, (m.compile b).material =
      n.withLinked handle (m.compile b).backend.contextGeneration := by
  cases m.compile_ends b with
  | uncomposed _ _ failed | crowded _ _ failed | rejected _ _ _ _ failed =>
    rw [failed] at ok
    cases ok
  | linked _ _ _ _ _ result material backend =>
    obtain rfl := Except.ok.inj (result.symm.trans ok)
    rw [material, backend]
    exact ⟨_, rfl⟩

theorem withProgram_of_isLive {α : Type} {m : Material} {b : Backend} {required : BuildState}
    {act : Nat → Material → Outcome α} {p : LinkedProgram} (live : m.IsLive b p)
    (far : m.progress.reaches required = true) :
    m.withProgram b required act = act p.handle m := by
  have given : m.liveProgram b required = (.ok p.handle, m, []) := by
    simp [liveProgram, live.live, live.generation, live.version, far]
  simp only [withProgram, given]

/-- A program that was just linked is found live, so looking up its locations succeeds. -/
theorem linkLocations_ok {m : Material} {b : Backend} {p : LinkedProgram} (live : m.IsLive b p)
    (far : m.progress.reaches .linked = true) : (m.linkLocations b).result = .ok () := by
  rw [linkLocations, withProgram_of_isLive live far]

theorem isLive_withLinked (m : Material) (b : Backend) (handle : Nat) :
    (m.withLinked handle b.contextGeneration).IsLive b ⟨handle, b.contextGeneration, m.version⟩ :=
  ⟨rfl, rfl, rfl⟩

theorem backend_linkLocations (m : Material) (b : Backend) : (m.linkLocations b).backend = b := by
  unfold linkLocations withProgram
  split <;> rfl

/-- A build fails as composing or compiling fails; otherwise it looks up the locations. -/
theorem build_cases (m : Material) (b : Backend) :
    (∃ e, (m.compose b).result = .error e ∧ (m.build b).result = .error e ∧
        (m.build b).material = (m.compose b).material ∧ (m.build b).backend = b) ∨
      ∃ c o, (m.compose b).result = .ok c ∧ o = (m.compose b).material.compile b ∧
        ((∃ e, o.result = .error e ∧ (m.build b).result = .error e ∧
            (m.build b).material = o.material ∧ (m.build b).backend = o.backend) ∨
          ∃ handle, o.result = .ok handle ∧ (m.build b).result = .ok handle ∧
            (m.build b).material = (o.material.linkLocations o.backend).material ∧
            (m.build b).backend = o.backend) := by
  unfold build
  generalize composing : m.compose b = o
  have backend : o.backend = b := by
    rw [← composing]
    exact m.backend_compose b
  obtain ⟨result, n, b', log⟩ := o
  dsimp only at backend
  subst backend
  cases result with
  | error e => exact Or.inl ⟨e, rfl, rfl, rfl, rfl⟩
  | ok c =>
    refine Or.inr ⟨c, _, rfl, rfl, ?_⟩
    dsimp only [Outcome.andThen]
    cases compiled : (n.compile b').result with
    | error e => exact Or.inl ⟨e, rfl, rfl, rfl, rfl⟩
    | ok handle =>
      obtain ⟨linked, made⟩ := compile_ok compiled
      have located : ((n.compile b').material.linkLocations (n.compile b').backend).result =
          .ok () := by
        rw [made]
        exact linkLocations_ok (isLive_withLinked _ _ _) rfl
      refine Or.inr ⟨handle, rfl, ?_⟩
      simp only [located]
      exact ⟨trivial, trivial, backend_linkLocations _ _⟩

/-- A build links what compiling links after composing. -/
theorem build_changes {π : Permit} (m : Material) (b : Backend)
    (may : (∃ handle, (m.build b).result = .ok handle) → π.relink) :
    Changes π m b (Operation.build.link? m b).toList (m.build b).material (m.build b).backend := by
  have composing := m.compose_changes (π := π) b
  rw [backend_compose] at composing
  unfold Operation.link?
  rcases m.build_cases b with ⟨e, composed, _, material, backend⟩ | ⟨c, o, composed, rfl, rest⟩
  · rw [composed, material, backend]
    exact composing
  · rw [composed]
    have linking (may : (∃ handle, ((m.compose b).material.compile b).result = .ok handle) →
        π.relink) := composing.trans ((m.compose b).material.compile_changes b may)
    rcases rest with ⟨e, compiled, _, material, backend⟩ | ⟨handle, _, built, material, backend⟩
    · rw [material, backend]
      exact linking fun ⟨handle, ok⟩ => by rw [compiled] at ok; cases ok
    · have locating := ((m.compose b).material.compile b).material.linkLocations_changes (π := π)
        ((m.compose b).material.compile b).backend
      rw [backend_linkLocations] at locating
      have all := (linking fun _ => may ⟨handle, built⟩).trans locating
      rw [material, backend]
      rwa [List.append_nil] at all

/-! ### Mutations -/

/-- The build starts over, after a change of effects or textures and of the settings that go with
it. -/
structure Invalidated (m n : Material) : Prop where
  made : ∃ k : Material, n = k.invalidate ∧ k.name = m.name ∧ k.version = m.version ∧
    k.program = m.program ∧ k.composedVersion = m.composedVersion
  distinct : m.Distinct → n.Distinct

theorem Invalidated.mutated {m n : Material} (invalidated : m.Invalidated n) : m.Mutated n := by
  obtain ⟨k, rfl, _, version, program, composedVersion⟩ := invalidated.made
  refine ⟨?_, program, composedVersion, invalidated.distinct⟩
  rw [version_invalidate, version]

theorem configuration_of_keeps {m : Material} {s : Settings}
    (keeps : m.settings.requiresRebuild s = false) :
    { m with settings := s }.configuration = m.configuration := by
  simp only [Settings.requiresRebuild, Bool.or_eq_false_iff, bne_eq_false_iff_eq] at keeps
  obtain ⟨⟨⟨features, precision⟩, strict⟩, units⟩ := keeps
  simp only [configuration, features, precision, strict, units]

theorem sameBuild_setTime (m : Material) (time : Single) : m.SameBuild (m.setTime time) :=
  ⟨rfl, rfl, rfl, rfl, rfl, rfl, rfl, rfl, rfl, rfl, rfl⟩

theorem sameBuild_params (m : Material) (vertex : VertexParams) (fragment : FragmentParams) :
    m.SameBuild { m with vertexParams := vertex, fragmentParams := fragment } :=
  ⟨rfl, rfl, rfl, rfl, rfl, rfl, rfl, rfl, rfl, rfl, rfl⟩

theorem mutated_updateSettings {m : Material} {f : Settings → Settings}
    (rebuild : m.settings.requiresRebuild (f m.settings) = true) :
    m.Mutated (m.updateSettings f) :=
  ⟨by simp [updateSettings, rebuild], rfl, rfl, id⟩

theorem sameBuild_updateSettings {m : Material} {f : Settings → Settings}
    (keeps : m.settings.requiresRebuild (f m.settings) = false) :
    m.SameBuild (m.updateSettings f) :=
  ⟨configuration_of_keeps keeps, version_updateSettings keeps, rfl, rfl, rfl, rfl, rfl, rfl, rfl, rfl,
    rfl⟩

theorem addTexture_cases (m : Material) (t : MaterialTexture) :
    ((m.addTexture t).1 = .ok true ∧ m.Invalidated (m.addTexture t).2.1) ∨
      ((m.addTexture t).1 ≠ .ok true ∧ (m.addTexture t).2.1 = m) := by
  unfold addTexture
  split
  · exact Or.inr ⟨by simp, rfl⟩
  · dsimp only
    split
    · exact Or.inr ⟨by simp, rfl⟩
    · exact Or.inl ⟨rfl, ⟨_, rfl, rfl, rfl, rfl, rfl⟩, id⟩

theorem removeTexture_cases (m : Material) (name : String) :
    ((m.removeTexture name).1 = true ∧ m.Invalidated (m.removeTexture name).2) ∨
      ((m.removeTexture name).1 ≠ true ∧ (m.removeTexture name).2 = m) := by
  unfold removeTexture
  split
  · exact Or.inr ⟨Bool.false_ne_true, rfl⟩
  · exact Or.inl ⟨rfl, ⟨_, rfl, rfl, rfl, rfl, rfl⟩, id⟩

theorem addEffect_cases (m : Material) (e : Effect) :
    ((m.addEffect e).1 = true ∧ m.Invalidated (m.addEffect e).2.1) ∨
      ((m.addEffect e).1 ≠ true ∧ (m.addEffect e).2.1 = m) := by
  unfold addEffect
  split
  · exact Or.inr ⟨Bool.false_ne_true, rfl⟩
  · next free =>
    refine Or.inl ⟨rfl, ⟨_, rfl, rfl, rfl, rfl, rfl⟩, fun distinct => ?_⟩
    have apart : ∀ d ∈ m.effects, d.id ≠ e.id := by simpa [hasEffect] using free
    simp only [Distinct, invalidate, List.map_append, List.map_cons, List.map_nil]
    exact distinct.append (List.nodup_singleton _) (by simpa using apart)

theorem removeEffect_cases (m : Material) (id : String) :
    ((m.removeEffect id).1 = true ∧ m.Invalidated (m.removeEffect id).2) ∨
      ((m.removeEffect id).1 ≠ true ∧ (m.removeEffect id).2 = m) := by
  unfold removeEffect
  split
  · refine Or.inl ⟨rfl, ⟨_, rfl, rfl, rfl, rfl, rfl⟩, fun distinct => ?_⟩
    exact distinct.sublist (List.filter_sublist.map _)
  · exact Or.inr ⟨Bool.false_ne_true, rfl⟩

theorem clearEffects_cases (m : Material) :
    (m.effects ≠ [] ∧ m.Invalidated m.clearEffects) ∨
      (¬ m.effects ≠ [] ∧ m.clearEffects = m) := by
  unfold clearEffects
  split
  · next empty => exact Or.inr ⟨fun some => some (List.isEmpty_iff.mp empty), rfl⟩
  · next some =>
    exact Or.inl ⟨fun empty => some (List.isEmpty_iff.mpr empty), ⟨_, rfl, rfl, rfl, rfl, rfl⟩,
      fun _ => List.nodup_nil⟩

end Material

/-! ### Operations -/

/-- What the operation may do is permitted. That the context is gone may be told without a permit
if it is true. -/
structure Operation.Permitted (π : Permit) (m : Material) (b : Backend) (op : Operation) :
    Prop where
  relink : op.Relinks m b → π.relink
  drop : op = .contextLost →
    π.drop ∨ ∀ p, m.ownedProgram = some p → p.generation ≠ b.contextGeneration
  release : op = .release → π.release

/-- An operation mutates the material and does nothing else, or is a sequence of changes. -/
theorem Operation.perform_cases {π : Permit} {m : Material} {b : Backend} {op : Operation}
    (permitted : op.Permitted π m b) :
    (m.Mutated (op.perform m b).material ∧ (op.perform m b).backend = b ∧ op.link? m b = none) ∨
      Changes π m b (op.link? m b).toList (op.perform m b).material (op.perform m b).backend := by
  have mutators {n : Material} {taken : Prop}
      (cases : (taken ∧ m.Invalidated n) ∨ (¬ taken ∧ n = m)) :
      (m.Mutated n ∧ b = b ∧ (none : Option Link) = none) ∨ Changes π m b [] n b := by
    rcases cases with ⟨_, invalidated⟩ | ⟨_, same⟩
    · exact Or.inl ⟨invalidated.mutated, rfl, rfl⟩
    · rw [same]
      exact Or.inr Changes.none
  have settings (f : Settings → Settings) :
      (m.Mutated (m.updateSettings f) ∧ b = b ∧ (none : Option Link) = none) ∨
        Changes π m b [] (m.updateSettings f) b := by
    cases rebuild : m.settings.requiresRebuild (f m.settings) with
    | true => exact Or.inl ⟨Material.mutated_updateSettings rebuild, rfl, rfl⟩
    | false => exact Or.inr (Change.same (Material.sameBuild_updateSettings rebuild) b).single
  cases op with
  | setFeatures features => exact settings fun s => { s with features := features }
  | updateSettings f => exact settings f
  | addTexture t => exact mutators (m.addTexture_cases t)
  | removeTexture name => exact mutators (m.removeTexture_cases name)
  | addEffect e => exact mutators (m.addEffect_cases e)
  | removeEffect id => exact mutators (m.removeEffect_cases id)
  | clearEffects => exact mutators m.clearEffects_cases
  | setTime time => exact Or.inr (Change.same (m.sameBuild_setTime time) b).single
  | setVertexParams p =>
    exact Or.inr (Change.same (m.sameBuild_params p m.fragmentParams) b).single
  | setFragmentParams p =>
    exact Or.inr (Change.same (m.sameBuild_params m.vertexParams p) b).single
  | setEffect s => exact Or.inr (Change.same (m.sameBuild_mapEffects s.parts_apply) b).single
  | compose =>
    exact Or.inr (m.compose_changes b)
  | compile =>
    refine Or.inr (m.compile_changes b fun ⟨handle, ok⟩ =>
      permitted.relink ⟨Or.inl rfl, handle, ?_⟩)
    simp [perform, Outcome.map, ok, Except.map]
  | linkLocations => exact Or.inr (m.linkLocations_changes b)
  | build =>
    refine Or.inr (m.build_changes b fun ⟨handle, ok⟩ =>
      permitted.relink ⟨Or.inr rfl, handle, ?_⟩)
    simp [perform, Outcome.map, ok, Except.map]
  | contextLost =>
    -- the loss may be told falsely, or it is true
    rcases permitted.drop rfl with may | gone
    · exact Or.inr (Change.dropped may).single
    · exact Or.inr (Change.lost gone).single
  | release => exact Or.inr (Change.released (permitted.release rfl)).single
  | frame call => exact Or.inr (call.perform_changes m b)
  | activate => exact Or.inr (m.activate_changes b)

end ShaderComposer
