import ShaderComposer.Core.Fragment
import ShaderComposer.Effect.Basic
import ShaderComposer.Proofs.Composition.Scope

/-!
# The library's effects in a stage

Whatever the parameters of an effect, its fragments are those of one of a few specimens, up to the
lengths of arrays (`Effect.exists_specimen`). What is shown of the specimens by computing so holds of
all effects: no two of different kinds declare a name in common or a name of the core's, and each
script leads from what the core has assigned by then to the end (`Fragment.IsSound`).
-/

namespace ShaderComposer

/-! ### Specimens -/

/-- The effect is one of the library's own, as its constructor makes it. -/
def Effect.isMade : Effect → Bool
  | custom _ => false
  | skeletal s => s.sets == 1 || s.sets == 2
  | fog _ | alphaMask _ | shadowMap _ | spriteSheet _ => true

/-- What of a variable decides whether it can be declared: its name and its qualifier. -/
def Variable.claim (v : Variable) : String × Qualifier := (v.name, v.qualifier)

/-- Two fragments differ at most in what no stage goes by when it composes and no script sees: array
lengths, initial values and what is looked up after linking. -/
structure Fragment.Alike (f g : Fragment) : Prop where
  id : f.id = g.id
  location : f.location = g.location
  main : f.main = g.main
  looks : LookAlike (drafts f.declarations) (drafts g.declarations)
  claims : (drafts f.declarations).map Variable.claim = (drafts g.declarations).map Variable.claim
  helpers : f.declarations.all (!·.isHelper) = true

theorem Fragment.alike_refl {f : Fragment} (helpers : f.declarations.all (!·.isHelper) = true) :
    f.Alike f :=
  ⟨rfl, rfl, rfl, .refl _, rfl, helpers⟩

theorem Fragment.Alike.names_eq {f g : Fragment} (alike : f.Alike g) :
    draftNames f.declarations = draftNames g.declarations := by
  have names := congrArg (List.map Prod.fst) alike.claims
  rwa [List.map_map, List.map_map] at names

namespace Skeletal

/-- How many joints there are shows only in the length of an array. -/
theorem alike_fragment (joints : Nat) {sets : Nat} (bones : List Mat4)
    (made : sets = 1 ∨ sets = 2) :
    (fragment ⟨joints, sets, bones⟩).Alike (fragment ⟨1, sets, []⟩) := by
  have looks : LookAlike (drafts (fragment ⟨joints, sets, bones⟩).declarations)
      (drafts (fragment ⟨1, sets, []⟩).declarations) :=
    .cons (Variable.looksLike_refl _) (.cons ⟨rfl, rfl, rfl⟩ (LookAlike.refl _))
  rcases made with rfl | rfl <;> exact ⟨rfl, rfl, rfl, looks, rfl, rfl⟩

end Skeletal

namespace Effect

def plainSheet : SpriteSheet := .create 1 1 1.0 1

def plainShadow : ShadowMap := { lightDirection := .replicate 3 0.0 }

/-- Effects that have the fragments of all others. -/
def specimens : List Effect :=
  [fog {}, alphaMask {}, alphaMask { mask := some ⟨.flat, 0⟩ }, shadowMap plainShadow,
    skeletal ⟨1, 1, []⟩, skeletal ⟨1, 2, []⟩, spriteSheet plainSheet,
    spriteSheet { plainSheet with spliced := true }]

theorem exists_specimen {e : Effect} (made : e.isMade = true) :
    ∃ d ∈ specimens, d.id = e.id ∧
      ∀ stage, Option.Rel Fragment.Alike (e.fragment? stage) (d.fragment? stage) := by
  cases e with
  | custom c => cases made
  | fog f =>
    refine ⟨fog {}, by simp [specimens], rfl, fun stage => ?_⟩
    cases stage <;> exact .some (Fragment.alike_refl rfl)
  | shadowMap s =>
    refine ⟨shadowMap plainShadow, by simp [specimens], rfl, fun stage => ?_⟩
    cases stage <;> exact .some (Fragment.alike_refl rfl)
  | alphaMask a =>
    obtain ⟨threshold, _ | t⟩ := a
    · refine ⟨alphaMask {}, by simp [specimens], rfl, fun stage => ?_⟩
      cases stage with
      | vertex => exact .none
      | fragment => exact .some (Fragment.alike_refl rfl)
    · refine ⟨alphaMask { mask := some ⟨.flat, 0⟩ }, by simp [specimens], rfl, fun stage => ?_⟩
      cases stage with
      | vertex => exact .none
      | fragment => exact .some (Fragment.alike_refl rfl)
  | spriteSheet s =>
    cases spliced : s.spliced with
    | false =>
      refine ⟨spriteSheet plainSheet, by simp [specimens], rfl, fun stage => ?_⟩
      cases stage with
      | vertex =>
        exact .some ⟨rfl, by simp [SpriteSheet.fragment, spliced]; rfl, rfl, .refl _, rfl, rfl⟩
      | fragment => exact .none
    | true =>
      refine ⟨spriteSheet { plainSheet with spliced := true }, by simp [specimens], rfl,
        fun stage => ?_⟩
      cases stage with
      | vertex =>
        exact .some ⟨rfl, by simp [SpriteSheet.fragment, spliced], rfl, .refl _, rfl, rfl⟩
      | fragment => exact .none
  | skeletal s =>
    obtain ⟨joints, sets, bones⟩ := s
    have made : sets = 1 ∨ sets = 2 := by simpa [isMade] using made
    refine ⟨skeletal ⟨1, sets, []⟩, ?_, rfl, fun stage => ?_⟩
    · rcases made with rfl | rfl <;> simp [specimens]
    · cases stage with
      | vertex => exact .some (Skeletal.alike_fragment joints bones made)
      | fragment => exact .none

end Effect

/-! ### What the core has by then -/

namespace Stage

/-- The roles that fragments may ask for: the core declares them whatever its features. -/
def sharedRoles : Stage → List Role
  | .vertex => [.modelMatrix, .position] ++ CoreVertex.globals
  | .fragment => CoreFragment.globals

/-- The names that have been assigned when the fragments of a location run. -/
def reached : Stage → InsertLocation → List String
  | .vertex, .preTransform => (sharedRoles .vertex).map Role.name
  | .vertex, _ => (sharedRoles .vertex).map Role.name ++ outputs .vertex
  | .fragment, .preTransform =>
    [Role.gColor, .gTextureCoord, .gShadowValue, .gSpecularValue].map Role.name
  | .fragment, _ => (sharedRoles .fragment).map Role.name

end Stage

/-- The names that a core shader may declare, textures apart. -/
def coreNames : List String := (Role.all.erase .gBoneTransfMatrix).map Role.name

/-- The owners of the core shaders' variables. -/
def coreOwners : List String := ["core_vertex", "core_fragment"]

namespace Fragment

/-- The names that the `main()` of a fragment gives to those after it. -/
def gain (id : String) : List String :=
  if id = skinningFragmentId then [Role.gBoneTransfMatrix.name] else []

def scope (f : Fragment) : List String :=
  draftNames f.declarations ++ (Instruction.rolesAll f.main).map Role.name

def given (stage : Stage) (f : Fragment) : List String :=
  ((drafts f.declarations).filter (·.isGiven stage)).map (·.name)

/-- The fragment fits between the core and others: its names are its own, and its script asks for
what there is and leads to its end. -/
structure IsSound (stage : Stage) (f : Fragment) : Prop where
  names : (draftNames f.declarations).Nodup
  fit : StepsFit stage f.declarations
  apart : ∀ name ∈ draftNames f.declarations, name ∉ coreNames
  owner : f.id ∉ coreOwners
  roles : ∀ role ∈ Instruction.rolesAll f.main, role ∈ stage.sharedRoles
  ids : Instruction.idsAll f.main = []
  leads : f.location ≠ .ignore → ∃ vars, LookAlike (drafts f.declarations) vars ∧
    Instruction.trial stage f.id f.main vars f.scope (f.given stage ++ stage.reached f.location)
      (gain f.id) = true

def isSound (stage : Stage) (f : Fragment) : Bool :=
  decide (draftNames f.declarations).Nodup && (drafts f.declarations).all (·.fits stage) &&
    (draftNames f.declarations).all (fun name => !coreNames.contains name) &&
    !coreOwners.contains f.id &&
    (Instruction.rolesAll f.main).all stage.sharedRoles.contains &&
    (Instruction.idsAll f.main).isEmpty &&
    (f.location == .ignore ||
      Instruction.trial stage f.id f.main (drafts f.declarations) f.scope
        (f.given stage ++ stage.reached f.location) (gain f.id))

namespace Alike

variable {f g : Fragment}

theorem given_eq (alike : f.Alike g) (stage : Stage) : f.given stage = g.given stage := by
  have of_claims (vars : List Variable) : (vars.filter (·.isGiven stage)).map (·.name) =
      ((vars.map Variable.claim).filter fun c => c.2.isGiven stage).map Prod.fst := by
    rw [List.filter_map, List.map_map]
    rfl
  rw [given, given, of_claims, of_claims, alike.claims]

theorem scope_eq (alike : f.Alike g) : f.scope = g.scope := by
  rw [scope, scope, alike.names_eq, alike.main]

theorem stepsFit (alike : f.Alike g) {stage : Stage}
    (fits : ∀ v ∈ drafts g.declarations, v.fits stage = true) : StepsFit stage f.declarations := by
  refine ⟨fun v mem => ?_, by simpa using alike.helpers⟩
  have claimed := List.mem_map_of_mem (f := Variable.claim) mem
  rw [alike.claims] at claimed
  obtain ⟨w, known, same⟩ := List.mem_map.mp claimed
  have fit := fits w known
  unfold Variable.fits at fit ⊢
  rwa [← (Prod.mk.inj same).2]

theorem isSound (alike : f.Alike g) {stage : Stage} (sound : g.isSound stage = true) :
    f.IsSound stage := by
  simp only [Fragment.isSound, Bool.and_eq_true, decide_eq_true_eq, List.all_eq_true,
    Bool.not_eq_true', Bool.or_eq_true, beq_iff_eq, List.isEmpty_iff] at sound
  obtain ⟨⟨⟨⟨⟨⟨names, fits⟩, apart⟩, owner⟩, roles⟩, ids⟩, leads⟩ := sound
  constructor
  · rw [alike.names_eq]
    exact names
  · exact alike.stepsFit fits
  · rw [alike.names_eq]
    exact fun name mem known => by simpa [known] using apart name mem
  · rw [alike.id]
    simpa using owner
  · rw [alike.main]
    exact fun role mem => List.contains_iff_mem.mp (roles role mem)
  · rw [alike.main]
    exact ids
  · intro spliced
    rw [alike.location] at spliced ⊢
    rw [alike.main, alike.id, alike.scope_eq, alike.given_eq]
    exact ⟨_, alike.looks, leads.resolve_left spliced⟩

end Alike

end Fragment

theorem Stage.mem_all (stage : Stage) : stage ∈ Stage.all := by
  cases stage <;> decide

namespace Effect

theorem isSound_specimens : ∀ d ∈ specimens, ∀ stage ∈ Stage.all,
    ∀ f ∈ (d.fragment? stage).toList, f.isSound stage = true := by
  decide

theorem apart_specimens : ∀ d ∈ specimens, ∀ e ∈ specimens, d.id ≠ e.id → ∀ stage ∈ Stage.all,
    ∀ f ∈ (d.fragment? stage).toList, ∀ g ∈ (e.fragment? stage).toList,
      f.id ≠ g.id ∧ ∀ name ∈ draftNames f.declarations, name ∉ draftNames g.declarations := by
  decide

theorem isSound_fragment {e : Effect} (made : e.isMade = true) {stage : Stage} {f : Fragment}
    (has : e.fragment? stage = some f) : f.IsSound stage := by
  obtain ⟨d, known, _, same⟩ := exists_specimen made
  have alike := same stage
  rw [has] at alike
  generalize found : d.fragment? stage = g at alike
  cases alike with
  | some alike =>
    exact alike.isSound (isSound_specimens d known stage stage.mem_all _ (by simp [found]))

theorem apart_fragments {d e : Effect} (made : d.isMade = true) (made' : e.isMade = true)
    (apart : d.id ≠ e.id) {stage : Stage} {f g : Fragment} (has : d.fragment? stage = some f)
    (has' : e.fragment? stage = some g) :
    f.id ≠ g.id ∧ ∀ name ∈ draftNames f.declarations, name ∉ draftNames g.declarations := by
  obtain ⟨d', known, id, same⟩ := exists_specimen made
  obtain ⟨e', known', id', same'⟩ := exists_specimen made'
  have alike := same stage
  have alike' := same' stage
  rw [has] at alike
  rw [has'] at alike'
  rw [← id, ← id'] at apart
  generalize found : d'.fragment? stage = f' at alike
  generalize found' : e'.fragment? stage = g' at alike'
  cases alike with
  | some alike =>
    cases alike' with
    | some alike' =>
      rw [alike.id, alike'.id, alike.names_eq, alike'.names_eq]
      exact apart_specimens d' known e' known' apart stage stage.mem_all _ (by simp [found]) _
        (by simp [found'])

end Effect

theorem Fragment.scope_subset {core : CoreShader} {fragments : List Fragment} {f : Fragment}
    (mem : f ∈ fragments)
    (roles : ∀ role ∈ Instruction.rolesAll f.main, .role role ∈ core.declarations) :
    f.scope ⊆ core.scope fragments := by
  intro name known
  rcases List.mem_append.mp known with known | known
  · obtain ⟨v, drafted, rfl⟩ := List.mem_map.mp known
    exact List.mem_append_left _
      (List.mem_map_of_mem (drafts_subset (CoreShader.declarations_subset mem) drafted))
  · exact CoreShader.roles_subset_scope _ roles known

theorem Fragment.given_subset {core : CoreShader} {fragments : List Fragment} {f : Fragment}
    (mem : f ∈ fragments) : f.given core.stage ⊆ core.given fragments := by
  intro name known
  obtain ⟨v, drafted, rfl⟩ := List.mem_map.mp known
  obtain ⟨drafted, given⟩ := List.mem_filter.mp drafted
  exact List.mem_map_of_mem (List.mem_filter.mpr
    ⟨drafts_subset (CoreShader.declarations_subset mem) drafted, given⟩)

/-! ### Effects of different kinds -/

section Effects

variable {effects : List Effect} (made : ∀ e ∈ effects, e.isMade = true)

include made in
theorem isSound_of_mem {stage : Stage} {f : Fragment} (mem : f ∈ stageFragments effects stage) :
    f.IsSound stage := by
  obtain ⟨e, known, has⟩ := List.mem_filterMap.mp mem
  exact Effect.isSound_fragment (made e known) has

include made in
theorem pairwise_stageFragments (distinct : (effects.map Effect.id).Nodup) (stage : Stage) :
    (stageFragments effects stage).Pairwise fun f g =>
      f.id ≠ g.id ∧ ∀ name ∈ draftNames f.declarations, name ∉ draftNames g.declarations := by
  have apart : effects.Pairwise fun d e => d.id ≠ e.id := List.pairwise_map.mp distinct
  refine List.pairwise_filterMap.mpr (apart.imp_of_mem ?_)
  intro d e memD memE differ f has g has'
  exact Effect.apart_fragments (made d memD) (made e memE) differ has has'

include made in
theorem CoreShader.isFresh_of_effects {core : CoreShader}
    (distinct : (effects.map Effect.id).Nodup) (fit : StepsFit core.stage core.declarations)
    (names : (draftNames core.declarations).Nodup)
    (apart : ∀ f ∈ stageFragments effects core.stage, ∀ name ∈ draftNames f.declarations,
      name ∉ draftNames core.declarations)
    (owner : core.id ∈ coreOwners) : core.IsFresh (stageFragments effects core.stage) := by
  have pairs := pairwise_stageFragments made distinct core.stage
  constructor
  · constructor
    · intro v mem
      rw [steps, drafts_append, drafts_flatMap] at mem
      rcases List.mem_append.mp mem with mem | mem
      · exact fit.drafts v mem
      · obtain ⟨f, known, inside⟩ := List.mem_flatMap.mp mem
        exact (isSound_of_mem made known).fit.drafts v inside
    · intro s mem
      rcases List.mem_append.mp mem with mem | mem
      · exact fit.helpers s mem
      · obtain ⟨f, known, inside⟩ := List.mem_flatMap.mp mem
        exact (isSound_of_mem made known).fit.helpers s inside
  · rw [steps, draftNames_append, draftNames_flatMap]
    refine List.nodup_append.mpr ⟨names, List.nodup_flatMap.mpr ⟨fun f mem =>
      (isSound_of_mem made mem).names, pairs.imp fun apart name here there =>
        apart.2 name here there⟩, ?_⟩
    intro name here other there same
    obtain ⟨f, known, inside⟩ := List.mem_flatMap.mp there
    exact apart f known other inside (same ▸ here)
  · refine List.nodup_cons.mpr ⟨fun mem => ?_, List.pairwise_map.mpr (pairs.imp And.left)⟩
    obtain ⟨f, known, same⟩ := List.mem_map.mp mem
    exact (isSound_of_mem made known).owner (same ▸ owner)

/-! ### Slots -/

/-- The core declares what fragments may ask for. -/
def CoreShader.Shares (core : CoreShader) : Prop :=
  ∀ role ∈ core.stage.sharedRoles, .role role ∈ core.declarations

def gains (pieces : List Piece) : List String := pieces.flatMap fun p => Fragment.gain p.owner

variable {core : CoreShader} {own : Declaring} {kept : List AttachedFragment} {registry : Registry}
  (declares : core.Declares (stageFragments effects core.stage) own kept registry)
  {attached : List String}

include made declares in
theorem leads_bucket (shares : core.Shares) {location : InsertLocation} (spliced : location ≠ .ignore)
    {before : List String} (given : core.given (stageFragments effects core.stage) ⊆ before)
    (reached : core.stage.reached location ⊆ before) :
    Piece.LeadInTurn core.stage true (registry.symbols attached)
      (core.scope (stageFragments effects core.stage)) before
      ((Slot.bucket location).pieces core own.declared kept)
      (before ++ gains ((Slot.bucket location).pieces core own.declared kept)) := by
  refine Piece.LeadInTurn.of_each (fun p mem => ?_) (List.Subset.refl before)
  obtain ⟨k, inside, rfl⟩ := List.mem_map.mp mem
  obtain ⟨known, here⟩ := List.mem_filter.mp inside
  obtain rfl := of_decide_eq_true here
  have attachedHere : k.fragment ∈ stageFragments effects core.stage :=
    declares.others.fragments ▸ List.mem_map_of_mem known
  have sound := isSound_of_mem made attachedHere
  obtain ⟨vars, remembered, looks⟩ := declares.others.remembers k known
  obtain ⟨vars', alike, trial⟩ := sound.leads spliced
  have roles : ∀ role ∈ Instruction.rolesAll k.fragment.main, .role role ∈ core.declarations :=
    fun role mem => shares role (sound.roles role mem)
  have leads := Piece.leads_of_trial declares
    (p := ⟨k.fragment.id, .bucket k.fragment.location, k.fragment.main, k.remembered⟩) trial
    (fun role mem => List.mem_append_left _ (roles role mem)) sound.ids attached remembered
    (looks.trans alike)
  refine leads.mono (Fragment.scope_subset attachedHere roles) ?_
  exact List.append_subset.mpr
    ⟨List.Subset.trans (Fragment.given_subset attachedHere) given, reached⟩

/-- The phases of the core: the inputs assign the early names, the transform the late ones, and the
others need no more than these. -/
structure PhasesLead (core : CoreShader) (fragments : List Fragment) (own : List Variable)
    (symbols : Symbols) (early gained late : List String) : Prop where
  inputs : Piece.Leads core.stage true symbols (core.scope fragments) (core.given fragments)
    ⟨core.id, .core .inputs, core.phase .inputs, some own⟩ early
  transform : Piece.Leads core.stage true symbols (core.scope fragments)
    (core.given fragments ++ early ++ gained)
    ⟨core.id, .core .transform, core.phase .transform, some own⟩ late
  others : ∀ phase ∈ [Phase.lighting, .output], Piece.Leads core.stage true symbols
    (core.scope fragments) (core.given fragments ++ early ++ late)
    ⟨core.id, .core phase, core.phase phase, some own⟩ []

include made declares in
/-- The core's phases and the fragments between them, slot by slot. -/
theorem leads_order (shares : core.Shares) {early late : List String}
    (phases : PhasesLead core (stageFragments effects core.stage) own.declared
      (registry.symbols attached)
      early (gains ((Slot.bucket .preTransform).pieces core own.declared kept)) late)
    (first : core.stage.reached .preTransform ⊆
      core.given (stageFragments effects core.stage) ++ early)
    (later : ∀ location, location ≠ .preTransform → core.stage.reached location ⊆
      core.given (stageFragments effects core.stage) ++ early ++ late) :
    ∃ after, Piece.LeadInTurn core.stage true (registry.symbols attached)
      (core.scope (stageFragments effects core.stage))
      (core.given (stageFragments effects core.stage))
      (Slot.order.flatMap (Slot.pieces core own.declared kept)) after := by
  have inputs := phases.inputs.frame (List.Subset.refl _) (List.Subset.refl _)
  have before : Piece.LeadInTurn core.stage true (registry.symbols attached) _ _
      ((Slot.bucket .preTransform).pieces core own.declared kept) _ :=
    leads_bucket made declares shares (by decide) (List.subset_append_left _ _) first
  have transform := phases.transform.frame (List.Subset.refl _) (List.Subset.refl _)
  -- from here on the late names are there, and nothing that is there goes
  have bucket {names : List String} (enough : core.given (stageFragments effects core.stage) ++
      early ++ late ⊆ names) (location : InsertLocation)
      (spliced : location ≠ .ignore ∧ location ≠ .preTransform) :
      ∃ more, core.given (stageFragments effects core.stage) ++ early ++ late ⊆ more ∧
        Piece.LeadInTurn core.stage true (registry.symbols attached)
          (core.scope (stageFragments effects core.stage)) names
          ((Slot.bucket location).pieces core own.declared kept) more := by
    refine ⟨_, List.subset_append_of_subset_left _ enough, leads_bucket made declares shares
      spliced.1 ?_ (List.Subset.trans (later location spliced.2) enough)⟩
    exact List.Subset.trans (List.subset_append_of_subset_left _ (List.subset_append_left _ _)) enough
  have phase {names : List String} (enough : core.given (stageFragments effects core.stage) ++
      early ++ late ⊆ names) (phase : Phase) (mem : phase ∈ [Phase.lighting, .output]) :
      ∃ more, core.given (stageFragments effects core.stage) ++ early ++ late ⊆ more ∧
        Piece.LeadInTurn core.stage true (registry.symbols attached)
          (core.scope (stageFragments effects core.stage)) names
          ((Slot.core phase).pieces core own.declared kept) more :=
    ⟨_, List.subset_append_of_subset_left _ enough,
      .cons ((phases.others phase mem).frame (List.Subset.refl _) enough) (.nil _)⟩
  have enough : core.given (stageFragments effects core.stage) ++ early ++ late ⊆
      core.given (stageFragments effects core.stage) ++ early ++
        gains ((Slot.bucket .preTransform).pieces core own.declared kept) ++ late :=
    List.append_subset.mpr ⟨List.subset_append_of_subset_left _ (List.subset_append_left _ _),
      List.subset_append_right _ _⟩
  obtain ⟨_, enough, preLighting⟩ := bucket enough .preLighting (by decide)
  obtain ⟨_, enough, lighting⟩ := phase enough .lighting (by decide)
  obtain ⟨_, enough, postLighting⟩ := bucket enough .postLighting (by decide)
  obtain ⟨_, enough, postTransform⟩ := bucket enough .postTransform (by decide)
  obtain ⟨last, _, output⟩ := phase enough .output (by decide)
  refine ⟨last, ?_⟩
  simp only [Slot.order, List.flatMap_cons, List.flatMap_nil, List.append_nil]
  exact (Piece.LeadInTurn.cons inputs (.nil _)).append <| before.append <|
    (Piece.LeadInTurn.cons transform (.nil _)).append <| preLighting.append <| lighting.append <|
    postLighting.append <| postTransform.append output

end Effects

end ShaderComposer
