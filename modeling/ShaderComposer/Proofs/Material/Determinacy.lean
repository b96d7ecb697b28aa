import ShaderComposer.Proofs.Material.Invariant

/-!
# What composing depends on

Composing goes by the settings, by name, kind and target of the textures, and by what was given
when the effects were constructed. Whatever else has happened to a material has no part in it:
compositions and builds, also failed ones, lost contexts, frames, parameters, and settings of
effects (`World.made_of_agrees`).

An effect can be set and advanced, so its construction is not found in it. It is read off the
steps of the run (`attached`), and no step but attaching and removing changes what composing sees
of the effects (`World.parts_run`).
-/

namespace ShaderComposer

/-! ### Construction -/

/-- What a texture is used as and where it is sampled from, but not which it is. -/
structure TextureDesign where
  name : String
  kind : TextureKind
  target : TextureTarget
deriving DecidableEq

def MaterialTexture.design (t : MaterialTexture) : TextureDesign :=
  ⟨t.name, t.kind, t.texture.target⟩

def TextureDesign.sample (d : TextureDesign) : MaterialTexture := ⟨d.name, d.kind, ⟨d.target, 0⟩⟩

/-- What is given when an effect is constructed and cannot be set afterwards. -/
inductive EffectDesign where
  | fog
  | alphaMask (mask : Option TextureRef)
  | shadowMap
  | skeletal (joints sets : Nat)
  | spriteSheet (columns rows frames : Nat) (spliced : Bool)
  | custom (c : Custom)

def Effect.design : Effect → EffectDesign
  | .fog _ => .fog
  | .alphaMask a => .alphaMask a.mask
  | .shadowMap _ => .shadowMap
  | .skeletal s => .skeletal s.joints s.sets
  | .spriteSheet s => .spriteSheet s.columns s.rows s.frames s.spliced
  | .custom c => .custom c

def EffectDesign.sample : EffectDesign → Effect
  | fog => .fog {}
  | alphaMask mask => .alphaMask { mask := mask }
  | shadowMap => .shadowMap {}
  | skeletal joints sets => .skeletal ⟨joints, sets, []⟩
  | spriteSheet columns rows frames spliced =>
    .spriteSheet { SpriteSheet.create columns rows 0.0 frames with
      columns := columns, rows := rows, frames := frames, spliced := spliced }
  | custom c => .custom c

/-- Composing sees of an effect what it was constructed with. -/
theorem Effect.parts_design (e : Effect) : e.design.sample.parts = e.parts := by
  cases e <;> rfl

/-- The textures that the core shader samples are known by their designs. -/
theorem CoreFragment.shader_design (f : Features) (precision : Precision)
    (textures : List MaterialTexture) :
    shader f precision ((textures.map MaterialTexture.design).map TextureDesign.sample) =
      shader f precision textures := by
  have directive : directives ((textures.map MaterialTexture.design).map TextureDesign.sample) =
      directives textures := by
    simp only [directives, List.any_map]
    rfl
  have varying : varyings f ((textures.map MaterialTexture.design).map TextureDesign.sample) =
      varyings f textures := by
    simp only [varyings, List.any_map]
    rfl
  have samplers : ((textures.map MaterialTexture.design).map TextureDesign.sample).map
      (fun t => DeclareStep.uniform t.samplerType t.name) =
        textures.map fun t => .uniform t.samplerType t.name := by
    rw [List.map_map, List.map_map]
    rfl
  have phases : phase ((textures.map MaterialTexture.design).map TextureDesign.sample) =
      phase textures := by
    funext p
    cases p with
    | inputs =>
      simp only [phase, inputs, List.flatMap_map]
      rfl
    | _ => rfl
  simp only [shader, declarations, directive, varying, samplers, phases]

/-! ### Agreement -/

/-- Two materials agree on what composing depends on, if their effects were constructed so. -/
structure Material.Agrees (m n : Material) (constructed others : List Effect) : Prop where
  features : n.settings.features = m.settings.features
  precision : n.settings.precision = m.settings.precision
  strictTypes : n.settings.strictTypes = m.settings.strictTypes
  maxTextureUnits : n.settings.maxTextureUnits = m.settings.maxTextureUnits
  textures : n.textures.map MaterialTexture.design = m.textures.map MaterialTexture.design
  effects : others.map Effect.design = constructed.map Effect.design

namespace Material

/-- What composing gives: both stages and the texture units, or the error. -/
def made (m : Material) (b : Backend) : Except ShaderError (Composition × UnitPlan) :=
  (m.compose b).result.map fun c => (c, (m.compose b).material.units)

theorem made_eq (m : Material) (b : Backend) : m.made b = m.composeParts.mapError Prod.fst := by
  unfold made
  rcases parts : m.composeParts with ⟨e, reached⟩ | ⟨c, units⟩
  · obtain ⟨n, _, composing⟩ := compose_of_refused parts b
    rw [composing]
    rfl
  · obtain ⟨n, _, composing⟩ := compose_of_parts parts b
    rw [composing]
    rfl

theorem parts_of_design (effects : List Effect) :
    (effects.map Effect.design).map (fun d => d.sample.parts) = effects.map Effect.parts := by
  simp only [List.map_map, Function.comp_def, Effect.parts_design]

theorem composeParts_of_agrees {m n : Material} {constructed others : List Effect}
    (agrees : m.Agrees n constructed others)
    (mParts : m.effects.map Effect.parts = constructed.map Effect.parts)
    (nParts : n.effects.map Effect.parts = others.map Effect.parts) :
    n.composeParts = m.composeParts := by
  have parts : n.effects.map Effect.parts = m.effects.map Effect.parts := by
    rw [nParts, mParts, ← parts_of_design, ← parts_of_design, agrees.effects]
  have count : n.textures.length = m.textures.length := by
    simpa using congrArg List.length agrees.textures
  have plan : n.planUnits = m.planUnits := by
    simp only [planUnits, textureCounts_eq, agrees.maxTextureUnits, count, parts]
  have stage (s : Stage) : n.stageResult s = m.stageResult s := by
    have core : n.coreShader s = m.coreShader s := by
      cases s with
      | vertex => simp only [coreShader, agrees.features, agrees.precision]
      | fragment =>
        simp only [coreShader, agrees.features, agrees.precision]
        rw [← CoreFragment.shader_design, agrees.textures, CoreFragment.shader_design]
    simp only [stageResult, core, stageFragments_eq, attachedIds_eq, agrees.strictTypes, parts]
  simp only [composeParts, plan, stage]

end Material

/-! ### Effects along a run -/

/-- The effects as they were attached, after an operation. -/
def Operation.attach : Operation → List Effect → List Effect
  | addEffect e, es => if es.any fun d => d.id == e.id then es else es ++ [e]
  | removeEffect id, es => es.filter fun d => d.id != id
  | clearEffects, _ => []
  | _, es => es

def Step.attach (i : Nat) : Step → List Effect → List Effect
  | material j op, es => if j = i then op.attach es else es
  | _, es => es

/-- The effects of a new material as they were attached in a run, without what was removed. -/
def attached (i : Nat) (steps : List Step) : List Effect :=
  steps.foldl (fun es s => s.attach i es) []

theorem Operation.parts_attach {es ds : List Effect} (op : Operation)
    (same : es.map Effect.parts = ds.map Effect.parts) :
    (op.attach es).map Effect.parts = (op.attach ds).map Effect.parts := by
  have any (es : List Effect) (id : String) : (es.any fun d => d.id == id) =
      (es.map Effect.parts).any fun p => p.id == id := by
    rw [List.any_map]
    rfl
  have filter (es : List Effect) (id : String) : (es.filter fun d => d.id != id).map Effect.parts =
      (es.map Effect.parts).filter fun p => p.id != id := by
    rw [List.filter_map]
    rfl
  cases op with
  | addEffect e =>
    simp only [attach, any, same]
    split
    · exact same
    · simp only [List.map_append, same]
  | removeEffect id => simp only [attach, filter, same]
  | clearEffects => rfl
  | _ => exact same

theorem Changes.parts {π : Permit} {m n : Material} {b c : Backend} {links : List Link}
    (changes : Changes π m b links n c) :
    n.effects.map Effect.parts = m.effects.map Effect.parts :=
  congrArg Configuration.effects changes.configuration

/-- What composing sees of the effects changes as effects are attached and removed. -/
theorem Operation.parts_perform (m : Material) (b : Backend) (op : Operation) :
    (op.perform m b).material.effects.map Effect.parts =
      (op.attach m.effects).map Effect.parts := by
  cases op with
  | addEffect e =>
    have known : (m.effects.any fun d => d.id == e.id) = m.hasEffect e.id := rfl
    simp only [perform, attach, Material.addEffect, known]
    cases m.hasEffect e.id <;> rfl
  | removeEffect id =>
    cases known : m.hasEffect id with
    | true => simp only [perform, attach, Material.removeEffect, known]; rfl
    | false =>
      have all : (m.effects.filter fun d => d.id != id) = m.effects := by
        refine List.filter_eq_self.mpr ?_
        simpa [Material.hasEffect] using known
      simp only [perform, attach, Material.removeEffect, known, all]
      rfl
  | clearEffects =>
    simp only [perform, attach, Material.clearEffects]
    split
    · next empty => rw [List.isEmpty_iff.mp empty]
    · rfl
  | addTexture t =>
    simp only [perform, attach, Material.addTexture]
    split
    · rfl
    · split <;> rfl
  | removeTexture name =>
    simp only [perform, attach, Material.removeTexture]
    split <;> rfl
  | setEffect s =>
    exact congrArg Configuration.effects (m.sameBuild_mapEffects s.parts_apply).configuration
  | compose => exact (m.compose_changes (π := .any) b).parts
  | compile => exact (m.compile_changes (π := .any) b fun _ => trivial).parts
  | linkLocations => exact (m.linkLocations_changes (π := .any) b).parts
  | build => exact (m.build_changes (π := .any) b fun _ => trivial).parts
  | frame call => exact (call.perform_changes (π := .any) m b).parts
  | activate => exact (m.activate_changes (π := .any) b).parts
  | setFeatures _ | updateSettings _ | setTime _ | setVertexParams _ | setFragmentParams _
  | contextLost | release => rfl

namespace World

variable {w : World} {i : Nat}

/-- What composing sees of the effects of a material, if it exists, is that of these effects. -/
def ShowsParts (i : Nat) (es : List Effect) (w : World) : Prop :=
  ∀ m, w.materials[i]? = some m → m.effects.map Effect.parts = es.map Effect.parts

theorem ShowsParts.step {es : List Effect} (shows : w.ShowsParts i es) (s : Step) :
    (w.step s).ShowsParts i (s.attach i es) := by
  cases s with
  | loseContext => exact shows
  | failNextCompile stage log => exact shows
  | material j op =>
    cases present : w.materials[j]? with
    | none =>
      simp only [World.step, present, Step.attach]
      split
      · next same =>
        intro m here
        rw [← same, present] at here
        cases here
      · exact shows
    | some n =>
      rw [step_material present, Step.attach]
      intro m here
      rw [getElem?_put present] at here
      by_cases same : i = j
      · subst same
        rw [if_pos rfl] at here ⊢
        obtain rfl := Option.some.inj here
        rw [op.parts_perform, op.parts_attach (shows n present)]
      · rw [if_neg same] at here
        rw [if_neg (Ne.symm same)]
        exact shows m here

theorem parts_run {es : List Effect} (shows : w.ShowsParts i es) (steps : List Step) :
    (w.run steps).ShowsParts i (steps.foldl (fun es s => s.attach i es) es) := by
  induction steps generalizing w es with
  | nil => exact shows
  | cons s rest ih => exact ih (shows.step s)

theorem showsParts_fresh (materials : List (String × Settings)) (limit i : Nat) :
    (fresh materials limit).ShowsParts i [] := by
  intro m present
  obtain ⟨name, settings, rfl⟩ := exists_of_fresh present
  rfl

/-- Two materials that agree on what composing depends on compose to the same, whatever their
histories, and so does each of them again. -/
theorem made_of_agrees {materials others : List (String × Settings)} {limit limit' : Nat}
    {steps steps' : List Step} {i j : Nat} {m n : Material}
    (present : ((fresh materials limit).run steps).materials[i]? = some m)
    (present' : ((fresh others limit').run steps').materials[j]? = some n)
    (agrees : m.Agrees n (attached i steps) (attached j steps')) (b c : Backend) :
    n.made c = m.made b ∧ (n.compose c).material.made b = m.made b := by
  have mParts := parts_run (showsParts_fresh materials limit i) steps m present
  have nParts := parts_run (showsParts_fresh others limit' j) steps' n present'
  have parts := Material.composeParts_of_agrees agrees mParts nParts
  have again : (n.compose c).material.composeParts = n.composeParts :=
    Material.composeParts_congr (n.compose_changes (π := .any) c).configuration
  exact ⟨by rw [n.made_eq, m.made_eq, parts], by rw [Material.made_eq, m.made_eq, again, parts]⟩

/-- An effect that does not compose: the core declares the uniform with another type. -/
def conflicting : Custom where
  id := "conflicting"
  vertex := some ⟨{
    id := "CONFLICTING"
    location := .ignore
    declarations := [.uniform .float "uColor"]
    main := [] }, []⟩
  pixel := none
  textures := []

/-- A run of a material with effects that come and go, one that fails to compose among them, and
with a context that is lost. -/
def detour : List Step :=
  [.material 0 (.addEffect (.skeletal (Skeletal.create 4 4))),
    .material 0 (.addTexture ⟨"uMap", .diffuse, ⟨.flat, 3⟩⟩), .material 0 .compose,
    .material 0 (.removeEffect "skeletal_animation"), .material 0 (.addEffect (.fog {})),
    .material 0 (.addEffect (.custom conflicting)), .material 0 .compose,
    .material 0 (.removeEffect "conflicting"), .material 0 (.setEffect (.fogEnabled false)),
    .loseContext, .material 0 .compose, .material 0 .contextLost, .material 0 (.setTime 1.0)]

def direct : List Step :=
  [.material 1 (.addTexture ⟨"uMap", .diffuse, ⟨.flat, 7⟩⟩),
    .material 1 (.addEffect (.fog { near := 5.0 }))]

theorem made_of_agrees_detour :
    ∃ m n, ((fresh [("m", {})] 8).run detour).materials[0]? = some m ∧
      ((fresh [("o", {}), ("n", { printSources := true })] 4).run direct).materials[1]? = some n ∧
      m.Agrees n (attached 0 detour) (attached 1 direct) ∧
      n.made (.create 4 false) = m.made (.create 8 false) := by
  have first : (((fresh [("m", {})] 8).run detour).materials[0]?.map fun m =>
      (m.settings, m.textures.map MaterialTexture.design)) =
        some (({} : Settings), [⟨"uMap", .diffuse, .flat⟩]) := by
    decide +kernel
  have second : (((fresh [("o", {}), ("n", { printSources := true })] 4).run
      direct).materials[1]?.map fun m => (m.settings, m.textures.map MaterialTexture.design)) =
        some (({ printSources := true } : Settings), [⟨"uMap", .diffuse, .flat⟩]) := by
    decide +kernel
  obtain ⟨m, present, m_eq⟩ := Option.map_eq_some_iff.mp first
  obtain ⟨n, present', n_eq⟩ := Option.map_eq_some_iff.mp second
  obtain ⟨mSettings, mTextures⟩ := Prod.mk.inj m_eq
  obtain ⟨nSettings, nTextures⟩ := Prod.mk.inj n_eq
  have agrees : m.Agrees n (attached 0 detour) (attached 1 direct) :=
    ⟨by rw [mSettings, nSettings], by rw [mSettings, nSettings], by rw [mSettings, nSettings],
      by rw [mSettings, nSettings], by rw [mTextures, nTextures], rfl⟩
  exact ⟨m, n, present, present', agrees, (made_of_agrees present present' agrees _ _).1⟩

end World

end ShaderComposer
