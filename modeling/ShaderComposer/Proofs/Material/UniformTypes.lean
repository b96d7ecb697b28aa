import ShaderComposer.Proofs.Core.Fragment
import ShaderComposer.Proofs.Material.BuiltIn
import ShaderComposer.Proofs.Material.Composing

/-!
# Types of uniforms

What the library's shaders write to a uniform is of the type that they declare for it. A stage that
composes declares each name with one type (`CoreShader.sameType_of_compose`). The two stages share
the time and no other uniform, unless a texture takes the name of one that the vertex stage declares
(`Material.sameType_of_declared`).
-/

namespace ShaderComposer

/-! ### Values -/

/-- The value is of the type of the variable; an array may be longer than what is written to it. -/
def UniformValue.fits (v : Variable) : UniformValue → Bool
  | float _ => v.type == .float && v.arrayLength.isNone
  | int _ => v.type == .int && v.arrayLength.isNone
  | bool _ => v.type == .bool && v.arrayLength.isNone
  | vec2 _ => v.type == .vec2 && v.arrayLength.isNone
  | vec3 _ => v.type == .vec3 && v.arrayLength.isNone
  | vec4 _ => v.type == .vec4 && v.arrayLength.isNone
  | mat3 _ => v.type == .mat3 && v.arrayLength.isNone
  | mat4 _ => v.type == .mat4 && v.arrayLength.isNone
  | mat4Array ms => v.type == .mat4 && v.arrayLength.any fun n => decide (ms.length ≤ n)
  | sampler _ => v.type.isSampler && v.arrayLength.isNone

def Variable.SameType (v w : Variable) : Prop := v.type = w.type ∧ v.arrayLength = w.arrayLength

theorem Variable.SameType.fits {v w : Variable} (same : v.SameType w) {value : UniformValue}
    (fits : value.fits v = true) : value.fits w = true := by
  obtain ⟨type, length⟩ := same
  rw [← fits]
  cases value <;> simp only [UniformValue.fits, type, length]

/-! ### What shaders write -/

theorem CoreVertex.qualifier_uniforms (f : Features) :
    ∀ role ∈ uniforms f, role.var.qualifier = .uniform := by
  obtain ⟨_, _, _, time⟩ := f
  cases time <;> decide +revert

theorem CoreVertex.fits_of_mem_writes {f : Features} {p : VertexParams} {name : String}
    {value : UniformValue} (mem : (name, value) ∈ writes f p) :
    ∃ role ∈ uniforms f, role.name = name ∧ value.fits role.var = true := by
  rcases List.mem_append.mp mem with mem | mem
  · simp only [List.mem_cons, Prod.mk.injEq, List.not_mem_nil, or_false] at mem
    rcases mem with ⟨rfl, rfl⟩ | ⟨rfl, rfl⟩ | ⟨rfl, rfl⟩ | ⟨rfl, rfl⟩ | ⟨rfl, rfl⟩ | ⟨rfl, rfl⟩
    · exact ⟨.mvpMatrix, by simp [uniforms], rfl, rfl⟩
    · exact ⟨.normalMatrix, by simp [uniforms], rfl, rfl⟩
    · exact ⟨.modelMatrix, by simp [uniforms], rfl, rfl⟩
    · exact ⟨.inverseViewMatrix, by simp [uniforms], rfl, rfl⟩
    · exact ⟨.modelViewMatrix, by simp [uniforms], rfl, rfl⟩
    · exact ⟨.color, by simp [uniforms], rfl, rfl⟩
  · split at mem
    · next time =>
      obtain ⟨rfl, rfl⟩ := Prod.mk.inj (List.mem_singleton.mp mem)
      exact ⟨.time, by simp [uniforms, optional, time], rfl, rfl⟩
    · exact absurd mem List.not_mem_nil

theorem CoreFragment.qualifier_uniforms (f : Features) :
    ∀ role ∈ uniforms f, role.var.qualifier = .uniform := by
  obtain ⟨_, _, _, time⟩ := f
  cases time <;> decide +revert

theorem CoreFragment.fits_of_mem_writes {f : Features} {p : FragmentParams} {name : String}
    {value : UniformValue} (mem : (name, value) ∈ writes f p) :
    ∃ role ∈ uniforms f, role.name = name ∧ value.fits role.var = true := by
  rcases List.mem_append.mp mem with mem | mem
  · obtain ⟨rfl, rfl⟩ := Prod.mk.inj (List.mem_singleton.mp mem)
    exact ⟨.colorInfluence, by simp [uniforms], rfl, rfl⟩
  · split at mem
    · next time =>
      obtain ⟨rfl, rfl⟩ := Prod.mk.inj (List.mem_singleton.mp mem)
      exact ⟨.time, by simp [uniforms, time], rfl, rfl⟩
    · exact absurd mem List.not_mem_nil

theorem MaterialTexture.fits_sampler (t : MaterialTexture) (unit : Nat) :
    (UniformValue.sampler unit).fits t.sampler = true := by
  have isSampler : t.sampler.type.isSampler = true := t.texture.target.isSampler_samplerType
  simp only [UniformValue.fits, isSampler]
  rfl

/-- The steps declare a uniform of the name that the value fits. -/
def Takes (steps : List DeclareStep) (name : String) (value : UniformValue) : Prop :=
  ∃ v ∈ drafts steps, v.qualifier = .uniform ∧ v.name = name ∧ value.fits v = true

theorem Takes.of_uniform {steps : List DeclareStep} (ty : DataType) {name : String}
    {value : UniformValue} (mem : .uniform ty name ∈ steps)
    (fits : value.fits ⟨name, ty, .uniform, none, none, none⟩ = true) : Takes steps name value :=
  ⟨_, List.mem_filterMap.mpr ⟨_, mem, rfl⟩, rfl, rfl, fits⟩

theorem Skeletal.takes_of_mem_writes {s : Skeletal} {name : String} {value : UniformValue}
    (mem : (name, value) ∈ s.writes) : Takes s.fragment.declarations name value := by
  unfold writes at mem
  split at mem
  · exact absurd mem List.not_mem_nil
  · obtain ⟨rfl, rfl⟩ := Prod.mk.inj (List.mem_singleton.mp mem)
    refine ⟨⟨"uBoneMatrix", .mat4, .uniform, some s.joints, none, none⟩, ?_, rfl, rfl, ?_⟩
    · exact List.mem_filterMap.mpr
        ⟨.declare ⟨⟨"uBoneMatrix", .mat4, .uniform, some s.joints, none, none⟩, none⟩,
          by simp [fragment], rfl⟩
    · exact decide_eq_true (List.length_take_le _ _)

theorem AlphaMask.takes_threshold (a : AlphaMask) :
    Takes a.fragment.declarations "uAlphaMaskingThreshold" (.float a.threshold) :=
  .of_uniform .float (by simp [fragment, uniforms]) rfl

theorem AlphaMask.takes_of_mem_textures {a : AlphaMask} {texture : TextureRef} {sampler : String}
    (mem : (texture, sampler) ∈ a.textures) (unit : Nat) :
    Takes a.fragment.declarations sampler (.sampler unit) := by
  obtain ⟨t, mask, same⟩ := List.mem_map.mp mem
  obtain ⟨rfl, rfl⟩ := Prod.mk.inj same
  have some : a.mask.isSome = true := by
    rw [Option.mem_toList.mp mask]
    rfl
  exact .of_uniform .sampler2D (by simp [fragment, uniforms, some]) rfl

namespace Effect

variable {e : Effect} {stage : Stage} {name : String} {value : UniformValue} {now : Single}

/-- A built-in effect declares what it writes, with a type that the value is of. -/
theorem takes_of_mem_writes (builtIn : e.isBuiltIn = true)
    (mem : (name, value) ∈ e.writes stage now) :
    ∃ f, e.fragment? stage = some f ∧ Takes f.declarations name value := by
  cases e with
  | custom c => cases builtIn
  | fog f =>
    refine ⟨_, rfl, ?_⟩
    cases stage with
    | vertex =>
      simp only [writes, Fog.writes, List.mem_cons, Prod.mk.injEq, List.not_mem_nil, or_false] at mem
      rcases mem with ⟨rfl, rfl⟩ | ⟨rfl, rfl⟩ | ⟨rfl, rfl⟩
      · exact .of_uniform .float (by simp [Fog.fragment, Fog.vertexFragment]) rfl
      · exact .of_uniform .float (by simp [Fog.fragment, Fog.vertexFragment]) rfl
      · exact .of_uniform .bool (by simp [Fog.fragment, Fog.vertexFragment]) rfl
    | fragment =>
      obtain ⟨rfl, rfl⟩ := Prod.mk.inj (List.mem_singleton.mp mem)
      exact .of_uniform .vec3 (by simp [Fog.fragment, Fog.pixelFragment]) rfl
  | alphaMask a =>
    cases stage with
    | vertex => exact absurd mem List.not_mem_nil
    | fragment =>
      obtain ⟨rfl, rfl⟩ := Prod.mk.inj (List.mem_singleton.mp mem)
      exact ⟨_, rfl, a.takes_threshold⟩
  | shadowMap s =>
    refine ⟨_, rfl, ?_⟩
    cases stage with
    | vertex =>
      obtain ⟨rfl, rfl⟩ := Prod.mk.inj (List.mem_singleton.mp mem)
      exact .of_uniform .mat4 (by simp [ShadowMap.fragment, ShadowMap.vertexFragment]) rfl
    | fragment =>
      simp only [writes, ShadowMap.writes, List.mem_cons, Prod.mk.injEq, List.not_mem_nil,
        or_false] at mem
      rcases mem with ⟨rfl, rfl⟩ | ⟨rfl, rfl⟩
      · exact .of_uniform .float (by simp [ShadowMap.fragment, ShadowMap.pixelFragment]) rfl
      · exact .of_uniform .vec3 (by simp [ShadowMap.fragment, ShadowMap.pixelFragment]) rfl
  | skeletal s =>
    cases stage with
    | vertex => exact ⟨_, rfl, Skeletal.takes_of_mem_writes mem⟩
    | fragment => exact absurd mem List.not_mem_nil
  | spriteSheet s =>
    cases stage with
    | vertex =>
      simp only [writes, SpriteSheet.writes, List.mem_cons, Prod.mk.injEq, List.not_mem_nil,
        or_false] at mem
      refine ⟨_, rfl, ?_⟩
      rcases mem with ⟨rfl, rfl⟩ | ⟨rfl, rfl⟩
      · exact .of_uniform .vec2 (by simp [SpriteSheet.fragment]) rfl
      · exact .of_uniform .vec2 (by simp [SpriteSheet.fragment]) rfl
    | fragment => exact absurd mem List.not_mem_nil

/-- A built-in effect declares a sampler for every texture that it binds. -/
theorem takes_of_mem_textures (builtIn : e.isBuiltIn = true) {texture : TextureRef}
    {sampler : String} (mem : (texture, sampler) ∈ e.textures) (unit : Nat) :
    ∃ f, e.fragment? .fragment = some f ∧ Takes f.declarations sampler (.sampler unit) := by
  cases e with
  | custom c => cases builtIn
  | alphaMask a => exact ⟨_, rfl, AlphaMask.takes_of_mem_textures mem unit⟩
  | shadowMap s =>
    obtain ⟨t, _, same⟩ := List.mem_map.mp mem
    obtain ⟨rfl, rfl⟩ := Prod.mk.inj same
    exact ⟨_, rfl, .of_uniform .sampler2D
      (by simp [ShadowMap.fragment, ShadowMap.pixelFragment]) rfl⟩
  | fog _ | skeletal _ | spriteSheet _ => exact absurd mem List.not_mem_nil

end Effect

/-! ### Declarations of a stage -/

/-- What registers under one name has one type. -/
theorem CoreShader.sameType_of_compose {core : CoreShader} {fragments : List AttachedFragment}
    {attached : List String} {strict : Bool} {c : StageComposition}
    (ok : (core.compose fragments attached strict).1 = .ok c) {v w : Variable}
    (first : v ∈ drafts (core.steps (fragments.map (·.fragment))))
    (second : w ∈ drafts (core.steps (fragments.map (·.fragment)))) (names : v.name = w.name) :
    v.SameType w := by
  obtain ⟨l, describes⟩ := describes_of_compose ok
  have any : Builds (fun _ => True) (core.steps (fragments.map (·.fragment))) :=
    fun _ _ _ _ => trivial
  obtain ⟨made, _⟩ := describes.declares.madeOf any
  have registered {u : Variable} (mem : u ∈ drafts (core.steps (fragments.map (·.fragment)))) :
      ∃ r ∈ l.registry.vars, r.sameShape u = true := by
    obtain ⟨step, known, drafted⟩ := List.mem_filterMap.mp mem
    cases step with
    | declare draft =>
      obtain rfl := Option.some.inj drafted
      obtain ⟨r, registered, shape, _⟩ := describes.declares.has known
      exact ⟨r, registered, shape⟩
    | _ => cases drafted
  obtain ⟨r, knownR, shapeR⟩ := registered first
  obtain ⟨s, knownS, shapeS⟩ := registered second
  simp only [Variable.sameShape, Bool.and_eq_true, beq_iff_eq] at shapeR shapeS
  obtain ⟨⟨⟨nameR, typeR⟩, _⟩, lengthR⟩ := shapeR
  obtain ⟨⟨⟨nameS, typeS⟩, _⟩, lengthS⟩ := shapeS
  obtain rfl : r = s := List.inj_on_of_nodup_map made.distinct knownR knownS
    ((nameR.trans names).trans nameS.symm)
  exact ⟨typeR.symm.trans typeS, lengthR.symm.trans lengthS⟩

namespace Material

variable {m : Material} {stage : Stage} {v w : Variable}

/-- A shader of the stage declares the uniform. -/
def DeclaresUniform (m : Material) (stage : Stage) (v : Variable) : Prop :=
  v ∈ drafts ((m.coreShader stage).steps (stageFragments m.effects stage)) ∧ v.qualifier = .uniform

theorem declaresUniform_vertex {role : Role} (known : role ∈ CoreVertex.uniforms m.settings.features) :
    m.DeclaresUniform .vertex role.var := by
  refine ⟨drafts_subset (List.subset_append_left _ _) ?_, CoreVertex.qualifier_uniforms _ role known⟩
  show role.var ∈ drafts (CoreVertex.declarations _ _)
  rw [CoreVertex.drafts_declarations]
  exact List.mem_map_of_mem (List.mem_append_left _ (List.mem_append_left _
    (List.mem_append_left _ known)))

theorem declaresUniform_fragment {role : Role}
    (known : role ∈ CoreFragment.uniforms m.settings.features) : m.DeclaresUniform .fragment role.var := by
  refine ⟨drafts_subset (List.subset_append_left _ _) ?_,
    CoreFragment.qualifier_uniforms _ role known⟩
  show role.var ∈ drafts (CoreFragment.declarations _ _ _)
  rw [CoreFragment.drafts_declarations]
  exact List.mem_append_left _ (List.mem_append_left _ (List.mem_map_of_mem known))

theorem declaresUniform_texture {t : MaterialTexture} (mem : t ∈ m.textures) :
    m.DeclaresUniform .fragment t.sampler := by
  refine ⟨drafts_subset (List.subset_append_left _ _) ?_, rfl⟩
  show t.sampler ∈ drafts (CoreFragment.declarations _ _ _)
  rw [CoreFragment.drafts_declarations]
  exact List.mem_append_left _ (List.mem_append_right _ (List.mem_map_of_mem mem))

theorem declaresUniform_of_takes {e : Effect} {f : Fragment} {name : String} {value : UniformValue}
    (takes : Takes f.declarations name value) (attached : e ∈ m.effects)
    (made : e.fragment? stage = some f) :
    ∃ v, m.DeclaresUniform stage v ∧ v.name = name ∧ value.fits v = true := by
  obtain ⟨v, mem, uniform, named, fits⟩ := takes
  have known : f ∈ stageFragments m.effects stage := List.mem_filterMap.mpr ⟨e, attached, made⟩
  have inside : f.declarations ⊆ (m.coreShader stage).steps (stageFragments m.effects stage) :=
    fun _ step => List.mem_append_right _ (List.mem_flatMap.mpr ⟨f, known, step⟩)
  exact ⟨v, ⟨drafts_subset inside mem, uniform⟩, named, fits⟩

theorem declaresUniform_cases (declares : m.DeclaresUniform stage v) :
    v ∈ drafts (m.coreShader stage).declarations ∨
      ∃ e ∈ m.effects, ∃ f, e.fragment? stage = some f ∧ v ∈ drafts f.declarations := by
  obtain ⟨mem, _⟩ := declares
  rw [CoreShader.steps, drafts_append, drafts_flatMap] at mem
  rcases List.mem_append.mp mem with mem | mem
  · exact Or.inl mem
  · obtain ⟨f, known, inside⟩ := List.mem_flatMap.mp mem
    obtain ⟨e, attached, made⟩ := List.mem_filterMap.mp known
    exact Or.inr ⟨e, attached, f, made, inside⟩

end Material

/-! ### Both stages -/

/-- The names of the uniforms that the fragment stage may declare, the time and textures apart. -/
def pixelUniforms : List String :=
  ["uColorInfluence", "uFogColor", "uShadowMapTex", "uShadowInfluence", "uShadowLightDir",
    "uAlphaMaskingThreshold", "uAlphaMaskTexture"]

theorem CoreVertex.name_of_uniform (f : Features) :
    ∀ role ∈ roles f, role.var.qualifier = .uniform →
      role = .time ∨ role.name ∉ "uTime" :: pixelUniforms := by
  obtain ⟨vertexColors, cubeMaps, _, time⟩ := f
  cases vertexColors <;> cases cubeMaps <;> cases time <;> decide +revert

theorem CoreFragment.name_of_uniform (f : Features) :
    ∀ role ∈ uniforms f, role = .time ∨ role.name ∈ pixelUniforms := by
  obtain ⟨_, _, _, time⟩ := f
  cases time <;> decide +revert

theorem CoreFragment.qualifier_globals (f : Features) (textures : List MaterialTexture) :
    ∀ role ∈ varyings f textures ++ globals, role.var.qualifier ≠ .uniform := by
  unfold varyings
  dsimp only
  generalize (f.cubeMaps || textures.any fun t => t.kind == .cubeMap) = cube
  cases cube <;> decide

namespace Effect

variable {e : Effect} {f : Fragment} {v : Variable}

theorem name_of_vertexUniform (builtIn : e.isBuiltIn = true) (made : e.fragment? .vertex = some f)
    (mem : v ∈ drafts f.declarations) (uniform : v.qualifier = .uniform) :
    v.name ∉ "uTime" :: pixelUniforms := by
  cases e with
  | custom c => cases builtIn
  | fog _ =>
    obtain rfl := Option.some.inj made
    exact (by decide : ∀ v ∈ drafts Fog.vertexFragment.declarations,
      v.qualifier = .uniform → v.name ∉ "uTime" :: pixelUniforms) v mem uniform
  | alphaMask _ => cases made
  | shadowMap _ =>
    obtain rfl := Option.some.inj made
    exact (by decide : ∀ v ∈ drafts ShadowMap.vertexFragment.declarations,
      v.qualifier = .uniform → v.name ∉ "uTime" :: pixelUniforms) v mem uniform
  | skeletal s =>
    obtain rfl := Option.some.inj made
    have bones : v.name = "uBoneMatrix" := by
      rcases List.mem_cons.mp mem with rfl | mem
      · cases uniform
      rcases List.mem_cons.mp mem with rfl | mem
      · rfl
      · obtain ⟨step, known, drafted⟩ := List.mem_filterMap.mp mem
        obtain ⟨name, _, rfl⟩ := List.mem_map.mp known
        obtain rfl := Option.some.inj drafted
        cases uniform
    rw [bones]
    decide
  | spriteSheet _ =>
    obtain rfl := Option.some.inj made
    exact (by decide : ∀ v ∈ drafts [.uniform .vec2 "uTileSize", .uniform .vec2 "uTileOffset"],
      v.qualifier = .uniform → v.name ∉ "uTime" :: pixelUniforms) v mem uniform

theorem name_of_pixelUniform (builtIn : e.isBuiltIn = true) (made : e.fragment? .fragment = some f)
    (mem : v ∈ drafts f.declarations) (uniform : v.qualifier = .uniform) :
    v.name ∈ pixelUniforms := by
  cases e with
  | custom c => cases builtIn
  | fog _ =>
    obtain rfl := Option.some.inj made
    exact (by decide : ∀ v ∈ drafts Fog.pixelFragment.declarations,
      v.qualifier = .uniform → v.name ∈ pixelUniforms) v mem uniform
  | alphaMask a =>
    obtain rfl := Option.some.inj made
    have known : v ∈ drafts [.uniform .float "uAlphaMaskingThreshold",
        .uniform .sampler2D "uAlphaMaskTexture"] := by
      refine drafts_subset ?_ mem
      cases some : a.mask.isSome <;> simp [AlphaMask.fragment, AlphaMask.uniforms, some]
    exact (by decide : ∀ v ∈ drafts [.uniform .float "uAlphaMaskingThreshold",
      .uniform .sampler2D "uAlphaMaskTexture"], v.qualifier = .uniform → v.name ∈ pixelUniforms)
      v known uniform
  | shadowMap _ =>
    obtain rfl := Option.some.inj made
    exact (by decide : ∀ v ∈ drafts ShadowMap.pixelFragment.declarations,
      v.qualifier = .uniform → v.name ∈ pixelUniforms) v mem uniform
  | skeletal _ | spriteSheet _ => cases made

end Effect

namespace Material

variable {m : Material} {stage other : Stage} {v w : Variable}

theorem DeclaresUniform.vertex_cases (declares : m.DeclaresUniform .vertex v)
    (builtIn : ∀ e ∈ m.effects, e.isBuiltIn = true) :
    v = Role.time.var ∨ v.name ∉ "uTime" :: pixelUniforms := by
  rcases declaresUniform_cases declares with mem | ⟨e, attached, f, made, mem⟩
  · have core : v ∈ drafts (CoreVertex.declarations m.settings.features m.settings.precision) := mem
    rw [CoreVertex.drafts_declarations] at core
    obtain ⟨role, known, rfl⟩ := List.mem_map.mp core
    exact (CoreVertex.name_of_uniform _ role known declares.2).imp_left (congrArg Role.var)
  · exact Or.inr (Effect.name_of_vertexUniform (builtIn e attached) made mem declares.2)

theorem DeclaresUniform.fragment_cases (declares : m.DeclaresUniform .fragment v)
    (builtIn : ∀ e ∈ m.effects, e.isBuiltIn = true) :
    v = Role.time.var ∨ v.name ∈ pixelUniforms ∨ ∃ t ∈ m.textures, t.name = v.name := by
  rcases declaresUniform_cases declares with mem | ⟨e, attached, f, made, mem⟩
  · have core : v ∈ drafts (CoreFragment.declarations m.settings.features m.settings.precision
        m.textures) := mem
    rw [CoreFragment.drafts_declarations, List.mem_append, List.mem_append] at core
    rcases core with (core | texture) | others
    · obtain ⟨role, known, rfl⟩ := List.mem_map.mp core
      rcases CoreFragment.name_of_uniform _ role known with rfl | named
      · exact Or.inl rfl
      · exact Or.inr (Or.inl named)
    · obtain ⟨t, known, rfl⟩ := List.mem_map.mp texture
      exact Or.inr (Or.inr ⟨t, known, rfl⟩)
    · obtain ⟨role, known, rfl⟩ := List.mem_map.mp others
      exact absurd declares.2 (CoreFragment.qualifier_globals _ _ role known)
  · exact Or.inr (Or.inl (Effect.name_of_pixelUniform (builtIn e attached) made mem declares.2))

/-- A texture of the material has the name of a uniform that the vertex stage declares. -/
def TakesVertexName (m : Material) (name : String) : Prop :=
  (∃ t ∈ m.textures, t.name = name) ∧ ∃ v, m.DeclaresUniform .vertex v ∧ v.name = name

/-- Of what the two stages declare only the time has one name. -/
theorem sameType_across (builtIn : ∀ e ∈ m.effects, e.isBuiltIn = true)
    (vertex : m.DeclaresUniform .vertex v) (fragment : m.DeclaresUniform .fragment w)
    (names : v.name = w.name) (free : ¬ m.TakesVertexName v.name) : v = w := by
  rcases fragment.fragment_cases builtIn with rfl | pixel
  · exact (vertex.vertex_cases builtIn).resolve_right fun apart =>
      apart (names ▸ List.mem_cons_self)
  · rcases pixel with pixel | ⟨t, known, named⟩
    · rcases vertex.vertex_cases builtIn with rfl | apart
      · rw [← names] at pixel
        exact absurd pixel (by decide : "uTime" ∉ pixelUniforms)
      · exact absurd (List.mem_cons_of_mem _ (names ▸ pixel)) apart
    · exact absurd ⟨⟨t, known, named.trans names.symm⟩, v, vertex, rfl⟩ free

theorem sameType_within {c : StageComposition} (ok : m.stageResult stage = .ok c)
    (first : m.DeclaresUniform stage v) (second : m.DeclaresUniform stage w)
    (names : v.name = w.name) : v.SameType w := by
  have mem {u : Variable} (declares : m.DeclaresUniform stage u) :
      u ∈ drafts ((m.coreShader stage).steps
        (((stageFragments m.effects stage).map Fragment.attach).map (·.fragment))) := by
    rw [fragments_attach]
    exact declares.1
  exact CoreShader.sameType_of_compose ok (mem first) (mem second) names

/-- A material that composes declares a uniform with one type in both stages, unless a texture has
taken its name. -/
theorem sameType_of_declared {c : Composition} {units : UnitPlan}
    (parts : m.composeParts = .ok (c, units)) (builtIn : ∀ e ∈ m.effects, e.isBuiltIn = true)
    (first : m.DeclaresUniform stage v) (second : m.DeclaresUniform other w)
    (names : v.name = w.name) (free : ¬ m.TakesVertexName v.name) : v.SameType w := by
  obtain ⟨vertex, fragment⟩ := stageResult_of_composeParts parts
  cases stage <;> cases other
  case vertex.vertex => exact sameType_within vertex first second names
  case fragment.fragment => exact sameType_within fragment first second names
  case vertex.fragment =>
    rw [sameType_across builtIn first second names free]
    exact ⟨rfl, rfl⟩
  case fragment.vertex =>
    rw [sameType_across builtIn second first names.symm (names ▸ free)]
    exact ⟨rfl, rfl⟩

end Material

end ShaderComposer
