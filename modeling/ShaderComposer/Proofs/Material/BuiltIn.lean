import ShaderComposer.Effect.Basic
import ShaderComposer.Material.Build
import ShaderComposer.Proofs.Composition.Origins

/-!
# Built-in shaders

The core shaders and the built-in effects have quiet names, whatever their features and parameters,
as long as the textures of the material have (`Material.IsPlain.isQuiet`). Every built-in effect
declares the same varyings in both stages (`Effect.filterMap_varying?`), so that the stages of a
material differ in the varyings of the core shaders alone (`Material.IsPlain.filterMap_varying?`).
-/

namespace ShaderComposer

/-! ### Core shaders -/

theorem Role.isQuiet_role (r : Role) : (DeclareStep.role r).isQuiet = true := by
  cases r <;> decide

theorem CoreVertex.isQuiet_steps (f : Features) (precision : Precision) :
    ∀ step ∈ declarations f precision, step.isQuiet = true := by
  intro step mem
  rcases List.mem_cons.mp mem with rfl | mem
  · rfl
  · obtain ⟨role, _, rfl⟩ := List.mem_map.mp mem
    exact role.isQuiet_role

theorem CoreVertex.isQuiet_phases (f : Features) (p : Phase) :
    ∀ c ∈ Instruction.callsAll (phase f p), c.isQuiet = true := by
  cases p with
  | inputs =>
    rw [phase, inputs]
    cases f.vertexColors <;> decide
  | transform =>
    rw [phase]
    decide
  | lighting =>
    rw [phase]
    decide
  | output =>
    rw [phase, output, cubeDirection, skyFlip]
    cases f.cubeMaps <;> cases f.skyTexture <;> decide

/-- The texture has a name of letters, digits and underscores that is no word of a declaration. -/
def MaterialTexture.isNamed (t : MaterialTexture) : Bool :=
  !t.name.toList.isEmpty && isQuietName t.name.toList

namespace CoreFragment

theorem isQuiet_steps (f : Features) (precision : Precision) {textures : List MaterialTexture}
    (named : ∀ t ∈ textures, t.isNamed = true) :
    ∀ step ∈ declarations f precision textures, step.isQuiet = true := by
  intro step mem
  simp only [declarations, List.mem_append, List.mem_singleton] at mem
  rcases mem with (((mem | rfl) | mem) | mem) | mem
  · unfold directives at mem
    split at mem
    · obtain rfl := List.mem_singleton.mp mem
      decide
    · cases mem
  · rfl
  · obtain ⟨role, _, rfl⟩ := List.mem_map.mp mem
    exact role.isQuiet_role
  · obtain ⟨t, known, rfl⟩ := List.mem_map.mp mem
    exact (DeclareStep.isQuiet_declare rfl).trans (named t known)
  · obtain ⟨role, _, rfl⟩ := List.mem_map.mp mem
    exact role.isQuiet_role

theorem isQuiet_sample {t : MaterialTexture} (named : t.isNamed = true) :
    ∀ i ∈ sample t, ∀ c ∈ i.calls, c.isQuiet = true := by
  have name := (Bool.and_eq_true_iff.mp named).2
  have color : (Term.role .gColor).isQuiet = true := by decide
  have sampled (f : Builtin) {role : Role} (coordinate : (Term.role role).isQuiet = true) :
      (Call.assign .mul (Term.role .gColor)
        (.call f [.var t.name (some t.samplerType), .role role])).isQuiet = true := by
    simp only [Call.isQuiet, Call.all, Term.isQuiet, Term.areQuiet, color, name, coordinate,
      Bool.and_true]
  intro i mem c called
  unfold sample at mem
  cases kind : t.kind with
  | sampler => simp [kind] at mem
  | diffuse =>
    simp only [kind, List.mem_singleton] at mem
    subst mem
    obtain rfl := List.mem_singleton.mp called
    exact sampled .texture2D (by decide)
  | cubeMap =>
    simp only [kind, List.mem_singleton] at mem
    subst mem
    obtain rfl := List.mem_singleton.mp called
    exact sampled .textureCube (by decide)

theorem isQuiet_phases {textures : List MaterialTexture}
    (named : ∀ t ∈ textures, t.isNamed = true) (p : Phase) :
    ∀ c ∈ Instruction.callsAll (phase textures p), c.isQuiet = true := by
  cases p with
  | inputs =>
    have plain : ∀ i ∈ inputs [], ∀ c ∈ i.calls, c.isQuiet = true := by decide
    have parts : inputs textures = inputs [] ++ textures.flatMap sample := by simp [inputs]
    intro c mem
    obtain ⟨i, inside, called⟩ := Instruction.mem_callsAll.mp mem
    rw [phase, parts] at inside
    rcases List.mem_append.mp inside with inside | inside
    · exact plain i inside c called
    · obtain ⟨t, known, sampled⟩ := List.mem_flatMap.mp inside
      exact isQuiet_sample (named t known) i sampled c called
  | transform =>
    rw [phase]
    decide
  | lighting =>
    rw [phase]
    decide
  | output =>
    rw [phase]
    decide

end CoreFragment

/-! ### Effects -/

/-- The declarations and the script of the fragment have quiet names. -/
structure Fragment.IsQuiet (f : Fragment) : Prop where
  declarations : ∀ step ∈ f.declarations, step.isQuiet = true
  main : ∀ c ∈ Instruction.callsAll f.main, c.isQuiet = true

theorem Fog.isQuiet_fragment (stage : Stage) : (fragment stage).IsQuiet := by
  cases stage <;> exact ⟨by decide, by decide⟩

theorem ShadowMap.isQuiet_fragment (stage : Stage) : (fragment stage).IsQuiet := by
  cases stage <;> exact ⟨by decide, by decide⟩

theorem AlphaMask.isQuiet_fragment (a : AlphaMask) : a.fragment.IsQuiet := by
  obtain ⟨threshold, mask⟩ := a
  cases mask with
  | none =>
    show (fragment {}).IsQuiet
    exact ⟨by decide, by decide⟩
  | some t =>
    show (fragment { mask := some ⟨.flat, 0⟩ }).IsQuiet
    exact ⟨by decide, by decide⟩

theorem SpriteSheet.isQuiet_fragment (s : SpriteSheet) : s.fragment.IsQuiet where
  declarations := by
    rw [fragment]
    dsimp only
    decide
  main := by
    rw [fragment]
    dsimp only
    decide

namespace Skeletal

theorem isQuietName_attributes (s : Skeletal) :
    ∀ name ∈ s.attributes, (!name.toList.isEmpty && isQuietName name.toList) = true := by
  have numbered {start : String}
      (apart : (start.toList.all SourceScan.isIdentifier &&
        declarationWords.all fun word => !start.toList.isPrefixOf word) = true) (n : Nat) :
      (!(start ++ toString n).toList.isEmpty && isQuietName (start ++ toString n).toList) = true := by
    have written : (start.toList ++ (toString n).toList).isEmpty = false := by
      simp
    rw [String.toList_append, isQuietName_append apart isIdentifier_of_mem_toString, written]
    rfl
  intro name mem
  obtain ⟨set, _, inside⟩ := List.mem_flatMap.mp mem
  rcases List.mem_cons.mp inside with rfl | inside
  · exact numbered (by decide) _
  · obtain rfl := List.mem_singleton.mp inside
    exact numbered (by decide) _

theorem isQuiet_weightedBone (set : Nat) {component : String}
    (plain : component.toList.all SourceScan.isIdentifier = true) :
    (weightedBone set component).isQuiet = true := by
  show ((true && component.toList.all SourceScan.isIdentifier) &&
    (true && ((true && component.toList.all SourceScan.isIdentifier) && true))) = true
  rw [plain]
  rfl

theorem isQuiet_weightedSum (set : Nat) : (weightedSum set).isQuiet = true := by
  show ((((weightedBone set "x").isQuiet && (weightedBone set "y").isQuiet) &&
    (weightedBone set "z").isQuiet) && (weightedBone set "w").isQuiet) = true
  rw [isQuiet_weightedBone set (by decide : "x".toList.all SourceScan.isIdentifier = true),
    isQuiet_weightedBone set (by decide : "y".toList.all SourceScan.isIdentifier = true),
    isQuiet_weightedBone set (by decide : "z".toList.all SourceScan.isIdentifier = true),
    isQuiet_weightedBone set (by decide : "w".toList.all SourceScan.isIdentifier = true)]
  rfl

theorem isQuiet_fragment (s : Skeletal) : s.fragment.IsQuiet where
  declarations := by
    intro step mem
    rcases List.mem_append.mp mem with mem | mem
    · rcases List.mem_cons.mp mem with rfl | mem
      · exact Role.isQuiet_role _
      · obtain rfl := List.mem_singleton.mp mem
        rw [DeclareStep.isQuiet_declare rfl]
        dsimp only
        decide
    · obtain ⟨name, known, rfl⟩ := List.mem_map.mp mem
      exact (DeclareStep.isQuiet_declare rfl).trans (s.isQuietName_attributes name known)
  main := by
    intro c mem
    obtain ⟨i, inside, called⟩ := Instruction.mem_callsAll.mp mem
    rcases List.mem_cons.mp inside with rfl | inside
    · cases called
    · obtain ⟨set, _, rfl⟩ := List.mem_map.mp inside
      obtain rfl := List.mem_singleton.mp called
      exact isQuiet_weightedSum set

end Skeletal

/-- The effect is one of the library's own. -/
def Effect.isBuiltIn : Effect → Bool
  | custom _ => false
  | _ => true

theorem Effect.isQuiet_fragment {e : Effect} (builtIn : e.isBuiltIn = true) {stage : Stage}
    {f : Fragment} (has : e.fragment? stage = some f) : f.IsQuiet := by
  cases e with
  | custom c => cases builtIn
  | fog g =>
    obtain rfl := Option.some.inj has
    exact Fog.isQuiet_fragment stage
  | shadowMap s =>
    obtain rfl := Option.some.inj has
    exact ShadowMap.isQuiet_fragment stage
  | alphaMask a =>
    cases stage with
    | vertex => cases has
    | fragment =>
      obtain rfl := Option.some.inj has
      exact a.isQuiet_fragment
  | skeletal s =>
    cases stage with
    | fragment => cases has
    | vertex =>
      obtain rfl := Option.some.inj has
      exact s.isQuiet_fragment
  | spriteSheet s =>
    cases stage with
    | fragment => cases has
    | vertex =>
      obtain rfl := Option.some.inj has
      exact s.isQuiet_fragment

namespace Material

/-- All effects are built in, and all textures have names. -/
structure IsPlain (m : Material) : Prop where
  builtIn : ∀ e ∈ m.effects, e.isBuiltIn = true
  named : ∀ t ∈ m.textures, t.isNamed = true

theorem IsPlain.isQuiet {m : Material} (plain : m.IsPlain) (stage : Stage) :
    (m.coreShader stage).IsQuiet (stageFragments m.effects stage) := by
  have each : ∀ f ∈ stageFragments m.effects stage, f.IsQuiet := by
    intro f mem
    obtain ⟨e, known, has⟩ := List.mem_filterMap.mp mem
    exact Effect.isQuiet_fragment (plain.builtIn e known) has
  refine ⟨fun step mem => ?_, fun p => ?_, fun f mem => (each f mem).main⟩
  · rcases List.mem_append.mp mem with mem | mem
    · cases stage with
      | vertex => exact CoreVertex.isQuiet_steps _ _ step mem
      | fragment => exact CoreFragment.isQuiet_steps _ _ plain.named step mem
    · obtain ⟨f, known, inside⟩ := List.mem_flatMap.mp mem
      exact (each f known).declarations step inside
  · cases stage with
    | vertex => exact CoreVertex.isQuiet_phases _ p
    | fragment => exact CoreFragment.isQuiet_phases plain.named p

end Material

/-! ### Varyings -/

def DeclareStep.varying? : DeclareStep → Option Variable
  | declare draft => if draft.var.qualifier = .varying then some draft.var else none
  | _ => none

theorem CoreVertex.filterMap_varying? (f : Features) (precision : Precision) :
    (declarations f precision).filterMap DeclareStep.varying? = (varyings f).map Role.var := by
  obtain ⟨vertexColors, cubeMaps, skyTexture, time⟩ := f
  cases vertexColors <;> cases cubeMaps <;> cases time <;> rfl

theorem CoreFragment.filterMap_varying? (f : Features) (precision : Precision)
    (textures : List MaterialTexture) :
    (declarations f precision textures).filterMap DeclareStep.varying? =
      (varyings f textures).map Role.var := by
  have directive : (directives textures).filterMap DeclareStep.varying? = [] := by
    unfold directives
    split <;> rfl
  have uniform : ((uniforms f).map DeclareStep.role).filterMap DeclareStep.varying? = [] := by
    unfold uniforms
    split <;> rfl
  have samplers : (textures.map fun t => DeclareStep.uniform t.samplerType t.name).filterMap
      DeclareStep.varying? = [] := by
    rw [List.filterMap_map]
    exact List.filterMap_eq_nil_iff.mpr fun _ _ => rfl
  have roles : ((varyings f textures ++ globals).map DeclareStep.role).filterMap
      DeclareStep.varying? = (varyings f textures).map Role.var := by
    dsimp only [varyings]
    split <;> rfl
  rw [declarations, List.filterMap_append, List.filterMap_append, List.filterMap_append,
    List.filterMap_append, directive, uniform, samplers, roles]
  rfl

namespace Effect

/-- The varyings by which the stages of an effect are connected. -/
def varyings : Effect → List Variable
  | fog _ => [⟨"vFogDensity", .float, .varying, none, none, none⟩]
  | shadowMap _ => [⟨"vShadowTexCoord", .vec4, .varying, none, none, none⟩]
  | _ => []

theorem filterMap_varying? {e : Effect} (builtIn : e.isBuiltIn = true) (stage : Stage) :
    ((e.fragment? stage).toList.flatMap (·.declarations)).filterMap DeclareStep.varying? =
      e.varyings := by
  cases e with
  | custom c => cases builtIn
  | fog g => cases stage <;> rfl
  | shadowMap s => cases stage <;> rfl
  | alphaMask a =>
    obtain ⟨threshold, mask⟩ := a
    cases stage <;> cases mask <;> rfl
  | spriteSheet s => cases stage <;> rfl
  | skeletal s =>
    cases stage with
    | fragment => rfl
    | vertex =>
      have inputs : (s.attributes.map (DeclareStep.input .vec4)).filterMap DeclareStep.varying? =
          [] := by
        rw [List.filterMap_map]
        exact List.filterMap_eq_nil_iff.mpr fun _ _ => rfl
      show (s.fragment.declarations ++ []).filterMap DeclareStep.varying? = []
      rw [List.append_nil, Skeletal.fragment, List.filterMap_append, inputs]
      rfl

end Effect

theorem filterMap_varying?_stageFragments {effects : List Effect}
    (builtIn : ∀ e ∈ effects, e.isBuiltIn = true) (stage : Stage) :
    ((stageFragments effects stage).flatMap (·.declarations)).filterMap DeclareStep.varying? =
      effects.flatMap Effect.varyings := by
  induction effects with
  | nil => rfl
  | cons e rest ih =>
    have later := ih fun d mem => builtIn d (List.mem_cons_of_mem _ mem)
    have first := Effect.filterMap_varying? (builtIn e List.mem_cons_self) stage
    have split : stageFragments (e :: rest) stage =
        (e.fragment? stage).toList ++ stageFragments rest stage := by
      rw [stageFragments, List.filterMap_cons]
      cases e.fragment? stage <;> rfl
    rw [split, List.flatMap_append, List.filterMap_append, first, later, List.flatMap_cons]

namespace Material

/-- The varyings that a stage declares: the core's, then the effects'. -/
def varyings (m : Material) : Stage → List Variable
  | .vertex => (CoreVertex.varyings m.settings.features).map Role.var ++
    m.effects.flatMap Effect.varyings
  | .fragment => (CoreFragment.varyings m.settings.features m.textures).map Role.var ++
    m.effects.flatMap Effect.varyings

theorem IsPlain.filterMap_varying? {m : Material} (plain : m.IsPlain) (stage : Stage) :
    ((m.coreShader stage).steps (stageFragments m.effects stage)).filterMap DeclareStep.varying? =
      m.varyings stage := by
  rw [CoreShader.steps, List.filterMap_append, filterMap_varying?_stageFragments plain.builtIn]
  cases stage with
  | vertex => exact congrArg (· ++ _) (CoreVertex.filterMap_varying? _ _)
  | fragment => exact congrArg (· ++ _) (CoreFragment.filterMap_varying? _ _ _)

end Material

end ShaderComposer
