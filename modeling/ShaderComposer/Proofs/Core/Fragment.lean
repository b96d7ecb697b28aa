import ShaderComposer.Proofs.Core.Vertex

/-!
# The fragment stage of a material

The inputs set the shared globals and sample each texture under its own name, a cube map with the
directions that are declared when there is one; the transform adds the normal. So the stage composes
with the library's effects in any order and any textures under names of their own, and its `main()`
reads nothing before it is assigned (`CoreFragment.exists_leading`).
-/

namespace ShaderComposer

def MaterialTexture.sampler (t : MaterialTexture) : Variable :=
  ⟨t.name, t.samplerType, .uniform, none, none, none⟩

namespace CoreFragment

open Instruction

variable {f : Features} {precision : Precision} {textures : List MaterialTexture} {strict : Bool}
  {symbols : Symbols} {declared : Option (List Variable)}

def roles (f : Features) (textures : List MaterialTexture) : List Role :=
  uniforms f ++ (varyings f textures ++ globals)

theorem roles_known (f : Features) (textures : List MaterialTexture) :
    (roles f textures).Nodup ∧ ∀ role ∈ roles f textures,
      role ∈ Role.all.erase .gBoneTransfMatrix ∧ role.var.fits .fragment = true := by
  unfold roles uniforms varyings
  dsimp only
  generalize (f.cubeMaps || textures.any fun t => t.kind == .cubeMap) = cube
  generalize f.time = time
  decide +revert

theorem role_mem_declarations {role : Role} (mem : role ∈ roles f textures) :
    .role role ∈ declarations f precision textures := by
  rcases List.mem_append.mp mem with mem | mem
  · exact List.mem_append_left _ (List.mem_append_left _
      (List.mem_append_right _ (List.mem_map_of_mem mem)))
  · exact List.mem_append_right _ (List.mem_map_of_mem mem)

theorem drafts_declarations (f : Features) (precision : Precision)
    (textures : List MaterialTexture) :
    drafts (declarations f precision textures) = (uniforms f).map Role.var ++
      textures.map MaterialTexture.sampler ++ (varyings f textures ++ globals).map Role.var := by
  have directive : drafts (directives textures) = [] := by
    unfold directives
    split <;> rfl
  have samplers : drafts (textures.map fun t => .uniform t.samplerType t.name) =
      textures.map MaterialTexture.sampler := by
    rw [drafts, List.filterMap_map, ← List.filterMap_eq_map]
    rfl
  rw [declarations, drafts_append, drafts_append, drafts_append, drafts_append, directive, samplers,
    drafts_roles, drafts_roles]
  rfl

theorem draftNames_perm (f : Features) (precision : Precision) (textures : List MaterialTexture) :
    (draftNames (declarations f precision textures)).Perm
      (textures.map (·.name) ++ (roles f textures).map Role.name) := by
  have names : draftNames (declarations f precision textures) = (uniforms f).map Role.name ++
      textures.map (·.name) ++ (varyings f textures ++ globals).map Role.name := by
    rw [draftNames, drafts_declarations, List.map_append, List.map_append, List.map_map,
      List.map_map, List.map_map]
    rfl
  have split : (roles f textures).map Role.name = (uniforms f).map Role.name ++
      (varyings f textures ++ globals).map Role.name := List.map_append
  rw [names, split, ← List.append_assoc]
  exact List.perm_append_comm.append_right _

theorem stepsFit (f : Features) (precision : Precision) (textures : List MaterialTexture) :
    StepsFit .fragment (declarations f precision textures) := by
  constructor
  · intro v mem
    have shared {role : Role} (known : role ∈ roles f textures) : role.var.fits .fragment = true :=
      ((roles_known f textures).2 role known).2
    rw [drafts_declarations] at mem
    simp only [List.mem_append, List.mem_map] at mem
    rcases mem with (⟨role, known, rfl⟩ | ⟨t, _, rfl⟩) | ⟨role, known, rfl⟩
    · exact shared (List.mem_append_left _ known)
    · rfl
    · exact shared (List.mem_append_right _ (List.mem_append.mpr known))
  · intro s mem
    simp only [declarations, List.mem_append, List.mem_map, List.mem_singleton] at mem
    rcases mem with (((mem | rfl) | ⟨role, _, rfl⟩) | ⟨t, _, rfl⟩) | ⟨role, _, rfl⟩
    · unfold directives at mem
      split at mem
      · obtain rfl := List.mem_singleton.mp mem
        rfl
      · cases mem
    all_goals rfl

/-! ### Phases -/

def early : List Role := [.gTextureCoord, .gColor, .gShadowValue, .gSpecularValue]

/-- What a texture is sampled with, the coordinates in the plane apart. -/
def directions (t : MaterialTexture) : List Role :=
  match t.kind with
  | .cubeMap => [.vCubeTextureCoord]
  | .diffuse | .sampler => []

theorem assigns_sample (t : MaterialTexture) : Assigns (sample t) := by
  obtain ⟨name, kind, texture⟩ := t
  cases kind <;> exact ⟨rfl, fun _ => rfl, rfl⟩

theorem leads_sample (t : MaterialTexture) {scope before : List String}
    (assigned : early.map Role.name ⊆ before) (known : t.name ∈ before)
    (directed : (directions t).map Role.name ⊆ before) :
    Stmt.Leads scope before (block (sample t)) [] := by
  obtain ⟨name, kind, texture⟩ := t
  have color : Role.gColor.name ∈ before := assigned (by decide)
  have coord : Role.gTextureCoord.name ∈ before := assigned (by decide)
  cases kind with
  | diffuse =>
    exact Stmt.leads_scale (List.cons_subset.mpr ⟨color, List.cons_subset.mpr ⟨known,
      List.cons_subset.mpr ⟨coord, List.nil_subset _⟩⟩⟩)
  | cubeMap =>
    exact Stmt.leads_scale (List.cons_subset.mpr ⟨color, List.cons_subset.mpr ⟨known, directed⟩⟩)
  | sampler => exact (Stmt.leads_nil scope before).subset (List.nil_subset _)

theorem leads_inputs {scope before : List String} (scopes : early.map Role.name ⊆ scope)
    (sources : [Role.vTextureCoord, .vColor].map Role.name ⊆ before)
    (sampled : ∀ t ∈ textures, t.name ∈ before ∧ (directions t).map Role.name ⊆ before) :
    Piece.Leads .fragment strict symbols scope before
      ⟨"core_fragment", .core .inputs, inputs textures, declared⟩ (early.map Role.name) := by
  have split : inputs textures = inputs [] ++ textures.flatMap sample := by
    simp [inputs]
  have fixed : Stmt.Leads (early.map Role.name) ([Role.vTextureCoord, .vColor].map Role.name)
      (block (inputs [])) (early.map Role.name) := Stmt.leads_of_blockLeads (by decide)
  have textured : Stmt.Leads scope (before ++ early.map Role.name)
      (textures.flatMap fun t => block (sample t)) (before ++ early.map Role.name) := by
    refine Stmt.leads_flatMap fun t mem => ?_
    obtain ⟨known, directed⟩ := sampled t mem
    exact leads_sample t (List.subset_append_right _ _) (List.mem_append_left _ known)
      (List.subset_append_of_subset_left _ directed)
  rw [split]
  refine Piece.leads_of_assigns (Assigns.append ⟨rfl, fun _ => rfl, by decide⟩
    (assigns_flatMap fun t _ => assigns_sample t)) ?_
  rw [block_append, block_flatMap]
  exact ((fixed.frame scopes sources).append textured).subset (List.subset_append_right _ _)

theorem leads_transform (textures : List MaterialTexture) :
    Piece.Leads .fragment strict symbols [Role.gNormal.name]
      ([Role.vNormal, .colorInfluence].map Role.name ++ early.map Role.name)
      ⟨"core_fragment", .core .transform, phase textures .transform, declared⟩
      [Role.gNormal.name] := by
  show Piece.Leads .fragment strict symbols _ _ ⟨_, _, phase [] .transform, declared⟩ _
  exact Piece.leads_of_assigns ⟨rfl, fun _ => rfl, by decide⟩
    (Stmt.leads_of_blockLeads (by decide))

theorem leads_lighting (textures : List MaterialTexture) :
    Piece.Leads .fragment strict symbols [] (early.map Role.name)
      ⟨"core_fragment", .core .lighting, phase textures .lighting, declared⟩ [] := by
  show Piece.Leads .fragment strict symbols _ _ ⟨_, _, phase [] .lighting, declared⟩ _
  exact Piece.leads_of_assigns ⟨rfl, fun _ => rfl, by decide⟩
    (Stmt.leads_of_blockLeads (by decide))

theorem leads_output (textures : List MaterialTexture) :
    Piece.Leads .fragment strict symbols (Stage.outputs .fragment) (early.map Role.name)
      ⟨"core_fragment", .core .output, phase textures .output, declared⟩ [] := by
  show Piece.Leads .fragment strict symbols _ _ ⟨_, _, phase [] .output, declared⟩ _
  exact Piece.leads_of_assigns ⟨rfl, fun _ => rfl, by decide⟩
    (Stmt.leads_of_blockLeads (by decide))

/-! ### Composing -/

section Composing

variable {effects : List Effect} (made : ∀ e ∈ effects, e.isMade = true)

def otherNames (f : Features) (textures : List MaterialTexture) (effects : List Effect) :
    List String :=
  (roles f textures).map Role.name ++
    draftNames ((stageFragments effects .fragment).flatMap (·.declarations))

include made in
theorem isFresh (distinct : (effects.map Effect.id).Nodup) (f : Features) (precision : Precision)
    (named : (textures.map (·.name)).Nodup)
    (apart : ∀ t ∈ textures, t.name ∉ otherNames f textures effects) :
    (shader f precision textures).IsFresh (stageFragments effects .fragment) := by
  obtain ⟨nodup, known⟩ := roles_known f textures
  refine CoreShader.isFresh_of_effects made distinct (stepsFit f precision textures) ?_ ?_
    (List.mem_cons_of_mem _ List.mem_cons_self)
  · refine (draftNames_perm f precision textures).nodup_iff.mpr (List.nodup_append.mpr
      ⟨named, nodup.map fun _ _ => Role.name_injective, ?_⟩)
    rintro name here _ there rfl
    obtain ⟨t, mem, rfl⟩ := List.mem_map.mp here
    exact apart t mem (List.mem_append_left _ there)
  · intro g mem name inside declared
    rcases List.mem_append.mp ((draftNames_perm f precision textures).mem_iff.mp declared) with
      here | here
    · obtain ⟨t, memT, rfl⟩ := List.mem_map.mp here
      refine apart t memT (List.mem_append_right _ ?_)
      rw [draftNames_flatMap]
      exact List.mem_flatMap.mpr ⟨g, mem, inside⟩
    · refine (isSound_of_mem made mem).apart name inside ?_
      exact List.map_subset _ (fun role mem => (known role mem).1) here

theorem samplers_given {t : MaterialTexture} (mem : t ∈ textures) (fragments : List Fragment) :
    t.name ∈ (shader f precision textures).given fragments := by
  have drafted : t.sampler ∈ drafts (declarations f precision textures) := by
    rw [drafts_declarations]
    exact List.mem_append_left _ (List.mem_append_right _ (List.mem_map_of_mem mem))
  exact List.mem_map_of_mem (f := Variable.name) (List.mem_filter.mpr
    ⟨drafts_subset (List.subset_append_left _ _) drafted, rfl⟩)

theorem directions_known {t : MaterialTexture} (mem : t ∈ textures) :
    ∀ role ∈ directions t, role ∈ roles f textures := by
  intro role inside
  unfold directions at inside
  cases kind : t.kind with
  | diffuse | sampler =>
    rw [kind] at inside
    cases inside
  | cubeMap =>
    rw [kind] at inside
    obtain rfl := List.mem_singleton.mp inside
    have cube : (f.cubeMaps || textures.any fun t => t.kind == .cubeMap) = true := by
      rw [Bool.or_eq_true]
      exact Or.inr (List.any_eq_true.mpr ⟨t, mem, by rw [kind]; rfl⟩)
    simp [roles, varyings, cube]

theorem phasesLead (fragments : List Fragment) (own : List Variable) (symbols : Symbols)
    (gained : List String) :
    PhasesLead (shader f precision textures) fragments own symbols (early.map Role.name) gained
      [Role.gNormal.name] := by
  have declared {among : List Role} (known : ∀ role ∈ among, role ∈ roles f textures) :
      ∀ role ∈ among, .role role ∈ (shader f precision textures).declarations :=
    fun role mem => role_mem_declarations (known role mem)
  have globalsKnown {among : List Role} (some : among ⊆ globals) :
      ∀ role ∈ among, role ∈ roles f textures :=
    fun role mem => List.mem_append_right _ (List.mem_append_right _ (some mem))
  constructor
  · refine leads_inputs (CoreShader.roles_subset_scope _ (declared (globalsKnown (by decide))))
      (CoreShader.roles_subset_given _ (declared (by simp [roles, varyings])) rfl) fun t mem => ?_
    refine ⟨samplers_given mem fragments,
      CoreShader.roles_subset_given _ (declared (directions_known mem)) ?_⟩
    unfold directions
    split <;> rfl
  · refine (leads_transform textures).mono (CoreShader.roles_subset_scope [.gNormal]
      (declared (globalsKnown (by decide)))) (List.subset_append_of_subset_left _ ?_)
    exact append_subset_append (CoreShader.roles_subset_given _
      (declared (by simp [roles, varyings, uniforms])) rfl) (List.Subset.refl _)
  · intro phase mem
    simp only [List.mem_cons, List.not_mem_nil, or_false] at mem
    have assigned : early.map Role.name ⊆
        (shader f precision textures).given fragments ++ early.map Role.name ++
          [Role.gNormal.name] :=
      List.subset_append_of_subset_left _ (List.subset_append_right _ _)
    rcases mem with rfl | rfl
    · exact (leads_lighting textures).mono (List.nil_subset _) assigned
    · exact (leads_output textures).mono (List.subset_append_right _ _) assigned

include made in
/-- The fragment stage composes, and no path through its `main()` stops. -/
theorem exists_leading (distinct : (effects.map Effect.id).Nodup) (f : Features)
    (precision : Precision) (named : (textures.map (·.name)).Nodup)
    (apart : ∀ t ∈ textures, t.name ∉ otherNames f textures effects) (attached : List String) :
    ∃ c, ((shader f precision textures).compose
        ((stageFragments effects .fragment).map Fragment.attach) attached true).1 = .ok c ∧
      ∃ l : Layout, l.Describes (shader f precision textures) (stageFragments effects .fragment)
          attached true c ∧
        Stmt.PathsRun (l.pieces.flatMap Prod.snd) l.registry.known := by
  refine CoreShader.exists_leading (isFresh made distinct f precision named apart)
    fun own kept registry declares => ?_
  have shared : ∀ role ∈ Stage.sharedRoles .fragment, .role role ∈
      (shader f precision textures).declarations := fun role mem =>
    role_mem_declarations (List.mem_append_right _ (List.mem_append_right _ mem))
  refine leads_order made declares shared (phasesLead _ _ _ _) ?_ fun location _ => ?_
  · show Stage.reached .fragment .preTransform ⊆ _
    exact List.subset_append_of_subset_right _ (by decide)
  · have reached : Stage.reached .fragment location ⊆ early.map Role.name ++ [Role.gNormal.name] := by
      cases location <;> decide
    rw [List.append_assoc]
    exact List.subset_append_of_subset_right _ reached

end Composing

end CoreFragment

end ShaderComposer
