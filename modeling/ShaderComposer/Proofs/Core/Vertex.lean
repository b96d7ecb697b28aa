import ShaderComposer.Proofs.Material.Effects

/-!
# The vertex stage of a material

The inputs set the shared globals from the attributes, and the transform sets the position from these
and from the matrices; with skinning it goes through the bone matrix, which the skinning fragment has
set before it. So the stage composes with the library's effects in any order, and its `main()` reads
nothing before it is assigned (`CoreVertex.exists_leading`).
-/

namespace ShaderComposer

/-- The skinning fragment is attached by a skeleton only. -/
theorem mem_effects_of_skinned {effects : List Effect} (made : ∀ e ∈ effects, e.isMade = true)
    (skinned : skinningFragmentId ∈ attachedIds effects) : ∃ s, Effect.skeletal s ∈ effects := by
  obtain ⟨e, known, inside⟩ := List.mem_flatMap.mp skinned
  obtain ⟨stage, _, id⟩ := List.mem_filterMap.mp inside
  cases e with
  | skeletal s => exact ⟨s, known⟩
  | custom c => cases made _ known
  | fog f =>
    cases stage <;> simp [Effect.fragment?, Fog.fragment, Fog.vertexFragment, Fog.pixelFragment,
      skinningFragmentId] at id
  | shadowMap s =>
    cases stage <;> simp [Effect.fragment?, ShadowMap.fragment, ShadowMap.vertexFragment,
      ShadowMap.pixelFragment, skinningFragmentId] at id
  | alphaMask a =>
    cases stage <;> simp [Effect.fragment?, AlphaMask.fragment, skinningFragmentId] at id
  | spriteSheet s =>
    cases stage <;> simp [Effect.fragment?, SpriteSheet.fragment, skinningFragmentId] at id

theorem append_subset_append {α : Type} {a b c d : List α} (first : a ⊆ c) (second : b ⊆ d) :
    a ++ b ⊆ c ++ d :=
  List.append_subset.mpr
    ⟨List.subset_append_of_subset_left d first, List.subset_append_of_subset_right c second⟩

namespace CoreVertex

open Instruction

def roles (f : Features) : List Role := uniforms f ++ attributes f ++ varyings f ++ globals

variable {f : Features} {precision : Precision} {strict : Bool} {symbols : Symbols}
  {declared : Option (List Variable)}

theorem role_mem_declarations {role : Role} (mem : role ∈ roles f) :
    .role role ∈ declarations f precision :=
  List.mem_cons_of_mem _ (List.mem_map_of_mem mem)

theorem drafts_declarations (f : Features) (precision : Precision) :
    drafts (declarations f precision) = (roles f).map Role.var := by
  rw [declarations, drafts_cons, drafts_roles]
  rfl

def sources (f : Features) : List Role :=
  [.position, .normal, .textureCoord, if f.vertexColors then .vertexColor else .color]

theorem sources_known (f : Features) :
    (∀ role ∈ sources f, role ∈ roles f) ∧ (sources f).all (·.var.isGiven .vertex) = true := by
  obtain ⟨a, b, c, d⟩ := f
  decide +revert

theorem leads_inputs : Piece.Leads .vertex strict symbols (globals.map Role.name)
    ((sources f).map Role.name)
    ⟨"core_vertex", .core .inputs, inputs f, declared⟩ (globals.map Role.name) := by
  obtain ⟨vertexColors, _, _, _⟩ := f
  cases vertexColors <;>
    exact Piece.leads_of_assigns ⟨rfl, fun _ => rfl, by decide +revert⟩
      (Stmt.leads_of_blockLeads (by decide +revert))

theorem leads_lighting : Piece.Leads .vertex strict symbols [Role.vEyeDir.name]
    ([Role.modelViewMatrix.name] ++ globals.map Role.name)
    ⟨"core_vertex", .core .lighting, lighting, declared⟩ [] :=
  Piece.leads_of_assigns ⟨rfl, fun _ => rfl, by decide⟩
    (Stmt.leads_of_blockLeads (by decide))

theorem leads_output : Piece.Leads .vertex strict symbols ((varyings f).map Role.name)
    ([Role.position.name] ++ globals.map Role.name)
    ⟨"core_vertex", .core .output, output f, declared⟩ [] := by
  obtain ⟨_, cubeMaps, skyTexture, _⟩ := f
  cases cubeMaps <;> cases skyTexture <;>
    exact Piece.leads_of_assigns ⟨rfl, fun _ => rfl, by decide +revert⟩
      (Stmt.leads_of_blockLeads (by decide +revert))

def transformed : List String := Stage.outputs .vertex ++ [Role.vNormal.name]

def matrices : List Role := [.mvpMatrix, .normalMatrix]

def skinned : List Instruction :=
  [set .glPosition (.role .mvpMatrix * .result 0 * .role .gPosition),
    set (.role .vNormal)
      (.call .normalize [.role .normalMatrix * .construct .mat3 [.result 0] * .role .gNormal])]

def skinnedBlock : List Stmt :=
  (assignments skinned).map (·.build ⟨[], [Role.gBoneTransfMatrix.var.reference]⟩)

theorem leads_transform_skinned (attached : symbols.hasFragment skinningFragmentId = true)
    {v : Variable} (found : symbols.get? .gBoneTransfMatrix = some v)
    (looks : v.LooksLike Role.gBoneTransfMatrix.var) :
    Piece.Leads .vertex strict symbols transformed
      (matrices.map Role.name ++ globals.map Role.name ++ [Role.gBoneTransfMatrix.name])
      ⟨"core_vertex", .core .transform, transform, declared⟩ transformed := by
  have built : (assignments skinned).map (·.build ⟨declared.getD [], [v.reference]⟩) =
      skinnedBlock := by
    rw [looks.reference_eq]
    rfl
  have fit : skinnedBlock.all Stmt.fits = true := by decide
  have emits : Piece.Emits .vertex strict symbols ⟨"core_vertex", .core .transform,
      .require .gBoneTransfMatrix :: (assignments skinned).map Assignment.instruction, declared⟩
      0 _ 0 :=
    Piece.emits_required rfl found fun a mem =>
      List.all_eq_true.mp fit _ (built ▸ List.mem_map_of_mem mem)
  rw [built] at emits
  -- a trial shows no fragments, so the branch is taken here and its block is looked at alone
  refine Piece.Leads.ifFragment ?_
  rw [if_pos attached]
  exact ⟨skinnedBlock, emits, Stmt.leads_of_blockLeads (by decide)⟩

theorem leads_transform_plain (detached : symbols.hasFragment skinningFragmentId = false) :
    Piece.Leads .vertex strict symbols transformed
      (matrices.map Role.name ++ globals.map Role.name)
      ⟨"core_vertex", .core .transform, transform, declared⟩ transformed := by
  refine Piece.Leads.ifFragment ?_
  rw [if_neg (ne_true_of_eq_false detached)]
  exact Piece.leads_of_assigns ⟨rfl, fun _ => rfl, by decide⟩
    (Stmt.leads_of_blockLeads (by decide))

theorem stepsFit (f : Features) (precision : Precision) :
    StepsFit .vertex (declarations f precision) := by
  constructor
  · intro v mem
    rw [drafts_declarations] at mem
    obtain ⟨role, _, rfl⟩ := List.mem_map.mp mem
    cases role <;> rfl
  · intro s mem
    rcases List.mem_cons.mp mem with rfl | mem
    · rfl
    · obtain ⟨role, _, rfl⟩ := List.mem_map.mp mem
      rfl

theorem draftNames_declarations (f : Features) (precision : Precision) :
    draftNames (declarations f precision) = (roles f).map Role.name := by
  rw [draftNames, drafts_declarations, List.map_map]
  rfl

section Composing

variable {effects : List Effect} (made : ∀ e ∈ effects, e.isMade = true)

include made in
theorem isFresh (distinct : (effects.map Effect.id).Nodup) (f : Features) (precision : Precision) :
    (shader f precision).IsFresh (stageFragments effects .vertex) := by
  have nodup : (roles f).Nodup := by
    obtain ⟨a, b, c, d⟩ := f
    decide +revert
  have known : ∀ role ∈ roles f, role ∈ Role.all.erase .gBoneTransfMatrix := by
    obtain ⟨a, b, c, d⟩ := f
    decide +revert
  refine CoreShader.isFresh_of_effects made distinct (stepsFit f precision) ?_ ?_
    (List.mem_cons_self)
  · show (draftNames (declarations f precision)).Nodup
    rw [draftNames_declarations]
    exact nodup.map fun _ _ => Role.name_injective
  · intro g mem name inside declared
    refine (isSound_of_mem made mem).apart name inside ?_
    have declared : name ∈ draftNames (declarations f precision) := declared
    rw [draftNames_declarations] at declared
    exact List.map_subset _ known declared

variable {own : Declaring} {kept : List AttachedFragment} {registry : Registry}
  (declares : (shader f precision).Declares (stageFragments effects .vertex) own kept registry)

/-- What the effects before the transform leave behind. -/
abbrev gained (f : Features) (precision : Precision) (own : Declaring)
    (kept : List AttachedFragment) : List String :=
  gains ((Slot.bucket .preTransform).pieces (shader f precision) own.declared kept)

include declares in
theorem boneMatrix_mem_gained {s : Skeletal} (known : Effect.skeletal s ∈ effects) :
    Role.gBoneTransfMatrix.name ∈ gained f precision own kept := by
  have attached : s.fragment ∈ stageFragments effects .vertex :=
    List.mem_filterMap.mpr ⟨_, known, rfl⟩
  rw [← declares.others.fragments] at attached
  obtain ⟨k, inside, same⟩ := List.mem_map.mp attached
  refine List.mem_flatMap.mpr ⟨⟨k.fragment.id, .bucket .preTransform, k.fragment.main,
    k.remembered⟩, List.mem_map_of_mem (List.mem_filter.mpr ⟨inside, ?_⟩), ?_⟩
  · rw [same]
    rfl
  · rw [same]
    exact List.mem_singleton_self _

include made declares in
theorem phasesLead : PhasesLead (shader f precision) (stageFragments effects .vertex) own.declared
    (registry.symbols (attachedIds effects)) (globals.map Role.name) (gained f precision own kept)
    transformed := by
  have declared {among : List Role} (known : ∀ role ∈ among, role ∈ roles f) :
      ∀ role ∈ among, .role role ∈ (shader f precision).declarations :=
    fun role mem => role_mem_declarations (known role mem)
  have globalsKnown : ∀ role ∈ globals, role ∈ roles f := fun role mem => List.mem_append_right _ mem
  have matricesGiven : matrices.map Role.name ⊆
      (shader f precision).given (stageFragments effects .vertex) :=
    CoreShader.roles_subset_given _ (declared (by simp [matrices, roles, uniforms])) rfl
  have inScope : transformed ⊆ (shader f precision).scope (stageFragments effects .vertex) :=
    List.append_subset.mpr ⟨List.subset_append_right _ _,
      CoreShader.roles_subset_scope [.vNormal] (declared (by simp [roles, varyings]))⟩
  constructor
  · exact leads_inputs.mono (CoreShader.roles_subset_scope _ (declared globalsKnown))
      (CoreShader.roles_subset_given _ (declared (sources_known f).1) (sources_known f).2)
  -- with a skeleton the transformation reads the bone matrix, which only its fragment declares
  · cases skinning : (registry.symbols (attachedIds effects)).hasFragment skinningFragmentId with
    | true =>
      obtain ⟨s, known⟩ := mem_effects_of_skinned made (List.contains_iff_mem.mp skinning)
      have mem : s.fragment ∈ stageFragments effects .vertex := List.mem_filterMap.mpr ⟨_, known, rfl⟩
      obtain ⟨v, found, looks⟩ := declares.get?_symbols
        (CoreShader.declarations_subset mem List.mem_cons_self) (attachedIds effects)
      refine (leads_transform_skinned skinning found looks).mono inScope ?_
      exact append_subset_append (append_subset_append matricesGiven (List.Subset.refl _))
        (List.cons_subset.mpr ⟨boneMatrix_mem_gained declares known, List.nil_subset _⟩)
    | false =>
      refine (leads_transform_plain skinning).mono inScope ?_
      exact List.subset_append_of_subset_left _
        (append_subset_append matricesGiven (List.Subset.refl _))
  · intro phase mem
    simp only [List.mem_cons, List.not_mem_nil, or_false] at mem
    rcases mem with rfl | rfl
    · refine leads_lighting.mono
        (CoreShader.roles_subset_scope [.vEyeDir] (declared (by simp [roles, varyings]))) ?_
      exact List.subset_append_of_subset_left _ (append_subset_append (CoreShader.roles_subset_given
        [.modelViewMatrix] (declared (by simp [roles, uniforms])) rfl) (List.Subset.refl _))
    · refine leads_output.mono
        (CoreShader.roles_subset_scope _ (declared (by simp +contextual [roles]))) ?_
      exact List.subset_append_of_subset_left _ (append_subset_append (CoreShader.roles_subset_given
        [.position] (declared (by simp [roles, attributes])) rfl) (List.Subset.refl _))

include made in
/-- The vertex stage composes, and no path through its `main()` stops. -/
theorem exists_leading (distinct : (effects.map Effect.id).Nodup) (f : Features)
    (precision : Precision) :
    ∃ c, ((shader f precision).compose ((stageFragments effects .vertex).map Fragment.attach)
        (attachedIds effects) true).1 = .ok c ∧
      ∃ l : Layout, l.Describes (shader f precision) (stageFragments effects .vertex)
          (attachedIds effects) true c ∧
        Stmt.PathsRun (l.pieces.flatMap Prod.snd) l.registry.known := by
  refine CoreShader.exists_leading (isFresh made distinct f precision)
    fun own kept registry declares => ?_
  have shared : ∀ role ∈ Stage.sharedRoles .vertex, role ∈ roles f := by
    simp +contextual [Stage.sharedRoles, roles, uniforms, attributes]
  have first : Stage.reached .vertex .preTransform ⊆
      (shader f precision).given (stageFragments effects .vertex) ++ globals.map Role.name := by
    show (([Role.modelMatrix, .position] ++ globals).map Role.name) ⊆ _
    rw [List.map_append]
    exact append_subset_append (CoreShader.roles_subset_given _
      (fun role mem => role_mem_declarations (shared role (List.mem_append_left _ mem))) rfl)
      (List.Subset.refl _)
  refine leads_order made declares (fun role mem => role_mem_declarations (shared role mem))
    (phasesLead made declares) first fun location other => ?_
  have reached : Stage.reached .vertex location =
      Stage.reached .vertex .preTransform ++ Stage.outputs .vertex := by
    cases location <;> first | rfl | exact absurd rfl other
  show Stage.reached .vertex location ⊆ _
  rw [reached]
  exact append_subset_append first (List.subset_append_left _ _)

end Composing

end CoreVertex

end ShaderComposer
