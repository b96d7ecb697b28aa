import ShaderComposer.Proofs.Graphics.Numbering
import ShaderComposer.Proofs.Material.Following
import ShaderComposer.Proofs.Material.FrameCalls
import ShaderComposer.Proofs.Material.UniformTypes
import ShaderComposer.Proofs.Material.Varyings

/-!
# What is written to a uniform

Locations are shared by both stages, and a write goes by a location alone. The location of a write
is that of one name in the program (`Backend.uniformLocation_injective`), and a built-in shader of a
stage declares that name with a type that the value is of (`Material.home_of_mem_stageWrites`,
`Material.home_of_mem_textureBindings`). So it fits every declaration of the name in either stage,
unless a texture has taken the name of a uniform of the vertex stage (`World.fits_of_written`).
-/

namespace ShaderComposer

/-! ### Calls of a frame -/

namespace FrameCall

def leaves (m : Material) : FrameCall → Material
  | applyParams => m.mapEffects fun e => e.advance m.time
  | _ => m

def records (m : Material) (b : Backend) (program : Nat) : FrameCall → List GraphicsCall
  | useProgram => [.useProgram program]
  | applyParams => m.stageWrites .vertex ++ m.stageWrites .fragment
  | bindTextures => m.textureBindings b.maxTextureUnits
  | unbindTextures => m.textureReleases b.maxTextureUnits
  | bindAttributes v => m.attributeBindings v

theorem sameBuild_leaves (m : Material) (call : FrameCall) : m.SameBuild (call.leaves m) := by
  cases call with
  | applyParams => exact m.sameBuild_mapEffects fun e => e.parts_advance m.time
  | _ => exact .refl m

theorem isBuiltIn_leaves {m : Material} (builtIn : ∀ e ∈ m.effects, e.isBuiltIn = true)
    (call : FrameCall) : ∀ e ∈ (call.leaves m).effects, e.isBuiltIn = true := by
  cases call with
  | applyParams =>
    intro e mem
    obtain ⟨d, attached, rfl⟩ := List.mem_map.mp mem
    have kind : (d.advance m.time).isBuiltIn = d.isBuiltIn := by cases d <;> rfl
    rw [kind]
    exact builtIn d attached
  | _ => exact builtIn

theorem perform_of_isLive {m : Material} {b : Backend} {p : LinkedProgram} (live : m.IsLive b p)
    (bound : m.progress = .bound) (call : FrameCall) :
    (call.perform m b).material = call.leaves m ∧
      (call.perform m b).backend = b.recordAll (call.records (call.leaves m) b p.handle) := by
  have far : m.progress.reaches .bound = true := by
    rw [bound]
    rfl
  cases call with
  | useProgram =>
    simp only [perform, Outcome.map, Material.useProgram, Material.withProgram_of_isLive live far]
    exact ⟨rfl, rfl⟩
  | applyParams =>
    simp only [perform, Outcome.map, Material.applyParams, Material.withProgram_of_isLive live far]
    exact ⟨rfl, rfl⟩
  | bindTextures =>
    simp only [perform, Outcome.map, Material.bindTextures, Material.withProgram_of_isLive live far]
    exact ⟨rfl, rfl⟩
  | unbindTextures =>
    simp only [perform, Outcome.map, Material.unbindTextures, Material.withProgram_of_isLive live far]
    exact ⟨rfl, rfl⟩
  | bindAttributes v =>
    simp only [perform, Outcome.map, Material.bindAttributes, Material.withProgram_of_isLive live far]
    exact ⟨rfl, rfl⟩

/-- A call records nothing, or it works on the live program. -/
theorem perform_cases (m : Material) (b : Backend) (call : FrameCall) :
    (call.perform m b).backend = b ∨ ∃ p, m.IsLive b p ∧ m.progress = .bound ∧
      (call.perform m b).material = call.leaves m ∧
      (call.perform m b).backend = b.recordAll (call.records (call.leaves m) b p.handle) := by
  rcases Material.liveProgram_cases .any m b .bound with ⟨p, live, far, _⟩ | ⟨e, n, log, given, _⟩
  · have bound := Material.eq_bound_of_reaches far
    exact Or.inr ⟨p, live, bound, call.perform_of_isLive live bound⟩
  · left
    cases call <;>
      simp only [perform, Outcome.map, Material.useProgram, Material.applyParams, Material.bindTextures,
        Material.unbindTextures, Material.bindAttributes, Material.withProgram, given]

end FrameCall

/-! ### Homes of writes -/

namespace Material

variable {m n : Material} {b : Backend} {program : Nat} {t : LocationTable} {l : Location}
  {value : UniformValue}

/-- A shader of the stage declares the uniform that has the location, and the value is of its
type. -/
structure IsHome (m : Material) (b : Backend) (program : Nat) (stage : Stage) (l : Location)
    (value : UniformValue) (v : Variable) : Prop where
  declares : m.DeclaresUniform stage v
  fits : value.fits v = true
  valid : l.isValid = true
  located : l = b.uniformLocation program v.name

theorem home_of_mem_coreWrites (resolved : t.Resolved b program) (holds : m.HoldsOf t)
    (agree : m.ShadersAgree) {stage : Stage} (mem : .setUniform l value ∈ m.coreWrites stage) :
    ∃ v, m.IsHome b program stage l value v := by
  cases stage with
  | vertex =>
    obtain ⟨⟨name, given⟩, listed, written⟩ := List.mem_flatMap.mp mem
    obtain ⟨valid, same⟩ := mem_writeCalls written
    obtain ⟨rfl, rfl⟩ := GraphicsCall.setUniform.inj same
    rw [agree.features] at listed
    obtain ⟨role, known, rfl, fits⟩ := CoreVertex.fits_of_mem_writes listed
    exact ⟨role.var, declaresUniform_vertex known, fits, valid, coreUniform_eq resolved holds valid⟩
  | fragment =>
    obtain ⟨⟨name, given⟩, listed, written⟩ := List.mem_flatMap.mp mem
    obtain ⟨valid, same⟩ := mem_writeCalls written
    obtain ⟨rfl, rfl⟩ := GraphicsCall.setUniform.inj same
    rw [agree.features] at listed
    obtain ⟨role, known, rfl, fits⟩ := CoreFragment.fits_of_mem_writes listed
    exact ⟨role.var, declaresUniform_fragment known, fits, valid, coreUniform_eq resolved holds valid⟩

/-- The location that an effect has for a uniform it declares is the one in the program. -/
theorem home_of_effectLocation (resolved : t.Resolved b program) (holds : m.HoldsOf t) {e : Effect}
    (attached : e ∈ m.effects) {stage : Stage} {name : String}
    (takes : ∃ f, e.fragment? stage = some f ∧ Takes f.declarations name value)
    (notAttribute : ∀ f, e.fragment? stage = some f → name ∉ f.attributes)
    (written : .setUniform l value ∈ writeCalls (m.effectLocation e stage name) value) :
    ∃ v, m.IsHome b program stage l value v := by
  obtain ⟨valid, same⟩ := mem_writeCalls written
  obtain ⟨rfl, _⟩ := GraphicsCall.setUniform.inj same
  obtain ⟨f, made, declared⟩ := takes
  obtain ⟨v, declares, rfl, fits⟩ := declaresUniform_of_takes declared attached made
  obtain ⟨g, again, ⟨isAttribute, _⟩ | ⟨_, located⟩⟩ :=
    effectLocation_cases resolved holds attached valid
  · exact absurd isAttribute (notAttribute g again)
  · exact ⟨v, declares, fits, valid, located⟩

theorem home_of_mem_stageWrites (resolved : t.Resolved b program) (holds : m.HoldsOf t)
    (agree : m.ShadersAgree) (builtIn : ∀ e ∈ m.effects, e.isBuiltIn = true) {stage : Stage}
    (mem : .setUniform l value ∈ m.stageWrites stage) :
    ∃ v, m.IsHome b program stage l value v := by
  rcases List.mem_append.mp mem with core | effects
  · exact home_of_mem_coreWrites resolved holds agree core
  · obtain ⟨e, attached, written⟩ := List.mem_flatMap.mp effects
    obtain ⟨⟨name, given⟩, listed, written⟩ := List.mem_flatMap.mp written
    obtain ⟨_, same⟩ := mem_writeCalls written
    obtain ⟨_, rfl⟩ := GraphicsCall.setUniform.inj same
    refine home_of_effectLocation resolved holds attached
      (Effect.takes_of_mem_writes (builtIn e attached) listed) (fun f made isAttribute => ?_) written
    obtain ⟨c, rfl⟩ := Effect.custom_of_write_mem made listed isAttribute
    cases builtIn _ attached

theorem home_of_mem_textureBindings (resolved : t.Resolved b program) (holds : m.HoldsOf t)
    (agree : m.ShadersAgree) (builtIn : ∀ e ∈ m.effects, e.isBuiltIn = true) {limit : Nat}
    (mem : .setUniform l value ∈ m.textureBindings limit) :
    ∃ v, m.IsHome b program .fragment l value v := by
  rcases List.mem_append.mp mem with core | effects
  · obtain ⟨⟨⟨unit, _⟩, sampler⟩, listed, bound⟩ := List.mem_flatMap.mp core
    have written := (mem_bindCalls bound).resolve_left GraphicsCall.noConfusion
    obtain ⟨valid, same⟩ := mem_writeCalls written
    obtain ⟨rfl, rfl⟩ := GraphicsCall.setUniform.inj same
    have known : sampler ∈ m.textures.map (·.name) := agree.samplers ▸ (List.of_mem_zip listed).2
    obtain ⟨texture, owned, rfl⟩ := List.mem_map.mp known
    exact ⟨texture.sampler, declaresUniform_texture owned, texture.fits_sampler unit, valid,
      coreUniform_eq resolved holds valid⟩
  · obtain ⟨⟨r, e⟩, ranged, bound⟩ := List.mem_flatMap.mp effects
    obtain ⟨⟨unit, texture, sampler⟩, listed, bound⟩ := List.mem_flatMap.mp bound
    have written := (mem_bindCalls bound).resolve_left GraphicsCall.noConfusion
    obtain ⟨_, same⟩ := mem_writeCalls written
    obtain ⟨_, rfl⟩ := GraphicsCall.setUniform.inj same
    have attached := effect_mem_of_effectUnits ranged
    refine home_of_effectLocation resolved holds attached
      (Effect.takes_of_mem_textures (builtIn e attached) (List.of_mem_zip listed).2 unit)
      (fun f made isAttribute => ?_) written
    obtain ⟨c, rfl⟩ := Effect.custom_of_sampler_mem made isAttribute
    cases builtIn _ attached

theorem setUniform_notMem_textureReleases (limit : Nat) :
    .setUniform l value ∉ m.textureReleases limit := by
  simp [textureReleases]

theorem setUniform_notMem_attributeBindings (v : MeshBuffers) :
    .setUniform l value ∉ m.attributeBindings v := by
  have single (k : Location) (buffer : Option VertexBuffer) :
      .setUniform l value ∉ attributeCalls k buffer := fun mem => by
    obtain ⟨_, _, same⟩ := mem_attributeCalls mem
    cases same
  simp only [attributeBindings, List.mem_append, List.mem_flatMap, not_or, not_exists, not_and]
  exact ⟨fun _ _ => single _ _, fun _ _ _ _ => single _ _⟩

theorem home_of_mem_records (resolved : t.Resolved b program) (holds : m.HoldsOf t)
    (agree : m.ShadersAgree) (builtIn : ∀ e ∈ m.effects, e.isBuiltIn = true) {call : FrameCall}
    (mem : .setUniform l value ∈ call.records m b program) :
    ∃ stage v, m.IsHome b program stage l value v := by
  cases call with
  | useProgram => cases List.mem_singleton.mp mem
  | applyParams =>
    rcases List.mem_append.mp mem with mem | mem
    · exact ⟨_, home_of_mem_stageWrites resolved holds agree builtIn mem⟩
    · exact ⟨_, home_of_mem_stageWrites resolved holds agree builtIn mem⟩
  | bindTextures => exact ⟨_, home_of_mem_textureBindings resolved holds agree builtIn mem⟩
  | unbindTextures => exact absurd mem (setUniform_notMem_textureReleases _)
  | bindAttributes v => exact absurd mem (setUniform_notMem_attributeBindings v)

/-! ### Every declaration -/

/-- The location is that of one uniform. The value is of the type that a stage declares for it, and
of every type that one does, unless a texture has taken the name of a uniform of the vertex stage. -/
structure FitsUniform (m : Material) (b : Backend) (program : Nat) (l : Location)
    (value : UniformValue) (name : String) : Prop where
  located : ∀ other, b.uniformLocation program other = l ↔ other = name
  declared : ∃ stage v, m.DeclaresUniform stage v ∧ v.name = name ∧ value.fits v = true
  fits : ¬ m.TakesVertexName name →
    ∀ stage v, m.DeclaresUniform stage v → v.name = name → value.fits v = true

theorem FitsUniform.recordAll {name : String} (fits : m.FitsUniform b program l value name)
    (calls : List GraphicsCall) : m.FitsUniform (b.recordAll calls) program l value name :=
  ⟨fits.located, fits.declared, fits.fits⟩

theorem IsHome.fitsUniform {stage : Stage} {v : Variable}
    (home : m.IsHome b program stage l value v) (builtIn : ∀ e ∈ m.effects, e.isBuiltIn = true)
    {c : Composition} {units : UnitPlan} (parts : m.composeParts = .ok (c, units)) :
    m.FitsUniform b program l value v.name := by
  obtain ⟨declares, fits, valid, rfl⟩ := home
  refine ⟨fun other => ⟨fun same => Backend.uniformLocation_injective valid same, ?_⟩,
    ⟨stage, v, declares, rfl, fits⟩, fun free other w declared named => ?_⟩
  · rintro rfl
    rfl
  · exact (sameType_of_declared parts builtIn declares declared named.symm free).fits fits

/-! ### A texture under the name of a vertex uniform -/

theorem held_of_asked (resolved : t.Resolved b program) (holds : m.HoldsOf t) {stage : Stage}
    {name : String} (asked : name ∈ (m.coreLookup stage).uniforms) (knows : t.Knows name) :
    m.coreUniform stage name = b.uniformLocation program name := by
  have held := holds _ (m.coreLookup_mem stage)
  rw [holder_coreLookup] at held
  rw [coreUniform, held, LocationTable.uniformLocation_select, if_pos asked]
  exact resolved.uniformLocation_of_knows knows

/-- What was built has the location of everything that its core shaders ask for. -/
theorem BuildsBy.coreUniform_eq {handle : Nat} {c : Composition} {d : Backend}
    (builds : m.BuildsBy b handle n c d) (distinct : m.Distinct) {stage : Stage} {name : String}
    (asked : name ∈ ((m.build b).material.coreLookup stage).uniforms) :
    (m.build b).material.coreUniform stage name = (m.build b).backend.uniformLocation handle name := by
  have built := (builds.built distinct []).distinct
  rw [builds.material] at asked built ⊢
  rw [builds.backend]
  have linked : (n.withLinked handle (n.releaseProgram d).contextGeneration).Distinct := built
  refine held_of_asked (resolved_resolveAll (LocationTable.resolved_empty _ handle) n.lookups)
    (holdsOf_withLocations linked _) asked (knows_resolveAll (Or.inl ?_))
  exact ⟨_, coreLookup_mem n stage, by cases stage <;> exact asked⟩

/-- The first program of a material has the locations that its sources give it. -/
theorem BuildsBy.isValid_uniformLocation {handle : Nat} {c : Composition} {d : Backend}
    (builds : m.BuildsBy b handle n c d) (first : n.ownedProgram = none) {name : String}
    (known : name ∈ (ProgramInterface.ofSources c.vertex.source.text.toList
      c.fragment.source.text.toList).uniforms) :
    ((m.build b).backend.uniformLocation handle name).isValid = true := by
  obtain ⟨next, gains, _⟩ := Backend.compileAndLink_ok builds.linked
  have kept : n.releaseProgram d = d := by
    rw [releaseProgram, first]
  have found : d.programs.lookup handle = some (.ofSources c.vertex.source.text.toList
      c.fragment.source.text.toList) := by
    rw [gains.lookup, if_pos next]
  rw [builds.backend, kept, Backend.uniformLocation, found]
  exact ProgramInterface.isValid_uniformLocation known

theorem recorded_of_build {handle : Nat} {o : Outcome Nat} (built : m.build b = o)
    (ok : o.result = .ok handle) (written : .setUniform l value ∈ o.material.coreWrites .vertex) :
    ∃ p calls, p.handle = handle ∧ o.material.program = .live p ∧
      (FrameCall.applyParams.perform o.material o.backend).backend = o.backend.recordAll calls ∧
      .setUniform l value ∈ calls := by
  subst built
  obtain ⟨p, same, live, bound⟩ := build_ready ok
  exact ⟨p, _, same, live.live, (FrameCall.applyParams.perform_of_isLive live bound).2,
    List.mem_append_left _ (List.mem_append_left _ written)⟩

/-- A program has the uniforms that the vertex stage declares and its source mentions. -/
theorem IsPlain.mem_uniforms (plain : m.IsPlain) {c : Composition} {units : UnitPlan}
    (parts : m.composeParts = .ok (c, units)) {v : Variable} (declares : m.DeclaresUniform .vertex v)
    (mentioned : SourceScan.mentions v.name.toList c.vertex.source.text.toList = true) :
    v.name ∈ (ProgramInterface.ofSources c.vertex.source.text.toList
      c.fragment.source.text.toList).uniforms := by
  obtain ⟨vertex, _⟩ := stageResult_of_composeParts parts
  have quiet := plain.isQuiet .vertex
  rw [← fragments_attach] at quiet
  obtain ⟨mem, uniform⟩ := declares
  rw [← fragments_attach] at mem
  obtain ⟨step, known, drafted⟩ := List.mem_filterMap.mp mem
  cases step with
  | declare draft =>
    obtain rfl := Option.some.inj drafted
    have declared := (CoreShader.mem_declarations_iff vertex quiet (q := .uniform) rfl
      (by decide)).mpr ⟨draft, known, uniform, rfl⟩
    rw [← String.ofList_toList (s := draft.var.name)]
    exact ProgramInterface.mem_active (List.mem_append_left _ declared)
      (Bool.or_eq_true_iff.mpr (Or.inl mentioned))
  | _ => cases drafted

def colorTexture : MaterialTexture := ⟨"uColor", .diffuse, ⟨.flat, 1⟩⟩

/-- A new material with a texture that has the name of the vertex stage's colour. -/
def clashing : Material := ((create "m" {}).addTexture colorTexture).2.1

theorem isPlain_clashing : clashing.IsPlain := by
  refine ⟨fun _ mem => absurd mem List.not_mem_nil, fun t mem => ?_⟩
  obtain rfl := List.mem_singleton.mp mem
  decide

def mentions (name : String) : Except ShaderError (List Char) → Bool
  | .ok text => SourceScan.mentions name.toList text
  | .error _ => false

theorem mentions_color :
    mentions "uColor" ((CoreVertex.shader {} .medium).chars [] [] false) = true := by
  decide +kernel

theorem exists_clashing_fragment : (clashing.stageResult .fragment).toOption.isSome = true := by
  decide +kernel

/-- It composes, and the vertex stage uses its colour. -/
theorem clashing_composes : ∃ c, clashing.composeParts = .ok (c, ⟨1, []⟩) ∧
    SourceScan.mentions "uColor".toList c.vertex.source.text.toList = true := by
  have uses := mentions_color
  have made := exists_clashing_fragment
  cases vertexChars : (CoreVertex.shader {} .medium).chars [] [] false with
  | error e =>
    rw [vertexChars] at uses
    cases uses
  | ok text =>
    rw [vertexChars] at uses
    obtain ⟨vertex, vertexMade, rfl⟩ := CoreShader.compose_of_chars vertexChars
    have first : clashing.stageResult .vertex = .ok vertex := vertexMade
    have plan : clashing.planUnits = .ok ⟨1, []⟩ := rfl
    cases second : clashing.stageResult .fragment with
    | error e =>
      rw [second] at made
      cases made
    | ok fragment =>
      refine ⟨⟨vertex, fragment⟩, ?_, uses⟩
      simp only [composeParts, plan, first, second]

theorem clashing_builds : (clashing.build (.create 8 false)).result = .ok 1 := by
  obtain ⟨c, parts, _⟩ := clashing_composes
  refine build_of_accepted parts (by decide) rfl ?_
  rw [sourceFault_of_composeParts isPlain_clashing parts]
  rfl

theorem clashing_declares :
    (clashing.build (.create 8 false)).material.DeclaresUniform .fragment colorTexture.sampler ∧
      ∀ e ∈ (clashing.build (.create 8 false)).material.effects, e.isBuiltIn = true := by
  obtain ⟨n, _, d, builds⟩ := exists_buildsBy clashing_builds
  obtain ⟨_, _, ⟨_, rfl⟩, _, rfl⟩ := builds.composed
  rw [builds.material]
  exact ⟨declaresUniform_texture (List.mem_singleton_self _), fun e mem => absurd mem List.not_mem_nil⟩

/-- The colour is written to the location that the texture shares. -/
theorem clashing_writes : ∃ l color,
    .setUniform l (.vec4 color) ∈ (clashing.build (.create 8 false)).material.coreWrites .vertex ∧
      l = (clashing.build (.create 8 false)).backend.uniformLocation 1 "uColor" := by
  obtain ⟨c, parts, uses⟩ := clashing_composes
  obtain ⟨n, _, d, builds⟩ := exists_buildsBy clashing_builds
  have asked : "uColor" ∈ ((clashing.build (.create 8 false)).material.coreLookup .vertex).uniforms := by
    simp only [coreLookup, CoreVertex.uniforms, List.map_append]
    exact List.mem_append_left _ (by decide)
  have located := builds.coreUniform_eq List.nodup_nil asked
  have valid : ((clashing.build (.create 8 false)).backend.uniformLocation 1 "uColor").isValid =
      true := by
    obtain ⟨o, made, ⟨_, rfl⟩, again, rfl⟩ := builds.composed
    obtain ⟨rfl, rfl⟩ := Prod.mk.inj (Except.ok.inj (parts.symm.trans again))
    have declares : clashing.DeclaresUniform .vertex Role.color.var :=
      declaresUniform_vertex (by decide)
    exact builds.isValid_uniformLocation rfl (isPlain_clashing.mem_uniforms parts declares uses)
  generalize clashing.build (.create 8 false) = o at located valid ⊢
  have written : (Role.color.name, .vec4 o.material.vertexParams.color) ∈
      CoreVertex.writes o.material.shaderFeatures o.material.vertexParams :=
    List.mem_append_left _ (by simp)
  refine ⟨_, o.material.vertexParams.color, List.mem_flatMap.mpr ⟨_, written, ?_⟩, rfl⟩
  show _ ∈ writeCalls (o.material.coreUniform .vertex "uColor") _
  rw [located, writeCalls, if_pos valid]
  exact List.mem_singleton_self _

end Material

/-! ### Runs -/

/-- The outcome recorded calls, and every write among them fits the uniform that it goes to, in a live
program that was linked from what the material composes to. -/
def Outcome.WritesFit {α : Type} (o : Outcome α) (before : Backend) (links : List Link) : Prop :=
  ∃ calls, o.backend = before.recordAll calls ∧
    ∀ l value, .setUniform l value ∈ calls → ∃ p c name, o.material.program = .live p ∧
      (o.material.compose o.backend).result = .ok c ∧
      ⟨p.handle, c.vertex.source.text, c.fragment.source.text⟩ ∈ links ∧
      o.material.FitsUniform o.backend p.handle l value name

namespace World

/-- From a build on, or from the beginning: as long as the version of the material does not start over,
and the handles of programs do not if there are other materials, what a call of a frame writes fits
every declaration of the uniform, unless a texture has taken the name of a uniform of the vertex
stage. -/
theorem fits_of_written (materials : List (String × Settings)) (limit i : Nat)
    {before later : List Step} (ends : EndsWithBuild i (fresh materials limit) before)
    (few : ∀ v, ((fresh materials limit).run before).version? i = some v →
      v.toNat + ((fresh materials limit).run before).mutations i later < UInt64.size)
    (short : 1 < materials.length →
      ((fresh materials limit).links (before ++ later)).length < UInt32.size)
    {w : World} (reached : (fresh materials limit).run (before ++ later) = w) {m : Material}
    (present : w.materials[i]? = some m) (builtIn : ∀ e ∈ m.effects, e.isBuiltIn = true)
    (call : FrameCall) :
    (call.perform m w.backend).WritesFit w.backend ((fresh materials limit).links (before ++ later)) := by
  have follows := follows_run materials limit ends few short
  subst reached
  have built := follows.built m present
  rcases call.perform_cases m _ with same | ⟨p, live, bound, material, backend⟩
  · exact ⟨[], by rw [same, Backend.recordAll_nil], fun _ _ mem => absurd mem List.not_mem_nil⟩
  · obtain ⟨c, units, parts, linked⟩ := built.sources p live.live live.version
    obtain ⟨t, resolved, holds⟩ := built.locations p live bound
    have sameBuild := call.sameBuild_leaves m
    have holds := sameBuild.holdsOf holds
    have agree := sameBuild.shadersAgree ((follows.attuned m present).linked p live.live live.version)
    have builtIn := call.isBuiltIn_leaves builtIn
    have parts : (call.leaves m).composeParts = .ok (c, units) :=
      (Material.composeParts_congr sameBuild.configuration).trans parts
    refine ⟨_, backend, fun l value mem => ?_⟩
    obtain ⟨stage, v, home⟩ := Material.home_of_mem_records resolved holds agree builtIn mem
    refine ⟨p, c, v.name, ?_, ?_, linked, ?_⟩
    · rw [material, sameBuild.program, live.live]
    · rw [material, Material.result_compose, parts]
      rfl
    · rw [material, backend]
      exact (home.fitsUniform builtIn parts).recordAll _

theorem fits_of_written_after_build :
    EndsWithBuild 0 (fresh [("m", {})] 8) [.material 0 .build] ∧
      ∃ m, ((fresh [("m", {})] 8).run [.material 0 .build]).materials[0]? = some m ∧
        (∀ e ∈ m.effects, e.isBuiltIn = true) ∧
        (FrameCall.applyParams.perform m
            ((fresh [("m", {})] 8).run [.material 0 .build]).backend).WritesFit
          ((fresh [("m", {})] 8).run [.material 0 .build]).backend
          ((fresh [("m", {})] 8).links [.material 0 .build]) := by
  have ok := Material.build_create (b := .create 8 false) "m" rfl
  have ends : EndsWithBuild 0 (fresh [("m", {})] 8) [.material 0 .build] :=
    Or.inr ⟨[], _, _, rfl, getElem?_fresh "m" 8, ok⟩
  obtain ⟨m, present, same⟩ := effects_of_build (getElem?_fresh "m" 8) ok
  have builtIn : ∀ e ∈ m.effects, e.isBuiltIn = true := by
    rw [same]
    exact fun e mem => absurd mem List.not_mem_nil
  refine ⟨ends, m, present, builtIn, ?_⟩
  have short : ((fresh [("m", {})] 8).links ([.material 0 .build] ++ [])).length < UInt32.size :=
    Nat.lt_of_le_of_lt (length_links_le _ _) (by decide)
  refine fits_of_written [("m", {})] 8 0 ends (fun v _ => ?_) (fun _ => short) rfl present builtIn
    .applyParams
  exact v.toNat_lt

theorem run_texture : (fresh [("m", {})] 8).run [.material 0 (.addTexture Material.colorTexture)] =
    ⟨[Material.clashing], .create 8 false⟩ :=
  rfl

theorem present_texture : ((fresh [("m", {})] 8).run
    [.material 0 (.addTexture Material.colorTexture)]).materials[0]? = some Material.clashing := by
  rw [run_texture]
  rfl

theorem clashing_ends : EndsWithBuild 0 (fresh [("m", {})] 8)
    [.material 0 (.addTexture Material.colorTexture), .material 0 .build] := by
  refine Or.inr ⟨[.material 0 (.addTexture Material.colorTexture)], _, 1, rfl, present_texture, ?_⟩
  rw [run_texture]
  exact Material.clashing_builds

/-- The outcome is not computed: the kernel would compose and scan both sources. -/
theorem run_clashing : ∃ o, Material.clashing.build (.create 8 false) = o ∧
    (fresh [("m", {})] 8).run
        [.material 0 (.addTexture Material.colorTexture), .material 0 .build] =
      World.put ⟨[Material.clashing], .create 8 false⟩ 0 o.material o.backend := by
  have reached := run_build present_texture
  rw [run_texture] at reached
  exact ⟨_, rfl, reached⟩

/-- With a texture called `uColor` the colour of the vertex stage is written to the location of a
uniform that the fragment stage declares as a sampler. -/
theorem colour_written_to_sampler :
    ∃ steps w m, EndsWithBuild 0 (fresh [("m", {})] 8) steps ∧ (fresh [("m", {})] 8).run steps = w ∧
      w.materials[0]? = some m ∧ (∀ e ∈ m.effects, e.isBuiltIn = true) ∧
      ∃ p calls l value v, m.program = .live p ∧
        (FrameCall.applyParams.perform m w.backend).backend = w.backend.recordAll calls ∧
        .setUniform l value ∈ calls ∧ l = w.backend.uniformLocation p.handle v.name ∧
        m.DeclaresUniform .fragment v ∧ value.fits v = false := by
  obtain ⟨o, built, reached⟩ := run_clashing
  have ok := Material.clashing_builds
  obtain ⟨l, color, written, located⟩ := Material.clashing_writes
  obtain ⟨declares, builtIn⟩ := Material.clashing_declares
  rw [built] at ok written located declares builtIn
  obtain ⟨p, calls, handle, live, recorded, mem⟩ := Material.recorded_of_build built ok written
  rw [← handle] at located
  exact ⟨_, _, o.material, clashing_ends, reached, rfl, builtIn, p, calls, l, _,
    Material.colorTexture.sampler, live, recorded, mem, located, declares, rfl⟩

end World

end ShaderComposer
