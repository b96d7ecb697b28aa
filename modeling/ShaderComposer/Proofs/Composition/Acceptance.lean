import ShaderComposer.Proofs.Composition.Order

/-!
# Stages that compose

A stage composes when nothing that its owners ask for is refused. Declarations are not, if every
variable may stand in the stage and no name is asked for twice (`CoreShader.exists_declares`).
Recording is not, if each piece of `main()` emits by itself (`CoreShader.exists_compose`).
-/

namespace ShaderComposer

/-! ### Declaring -/

/-- The variable can be declared in the stage. -/
def Variable.fits (stage : Stage) (v : Variable) : Bool :=
  match v.qualifier, stage with
  | .functionLocal, _ => false
  | .vertexInput, .fragment => false
  | _, _ => true

theorem Registry.misplaced?_of_fits {r : Registry} {v : Variable} (fits : v.fits r.stage = true)
    (owner : String) : r.misplaced? owner v = none := by
  unfold Variable.fits at fits
  unfold misplaced?
  split at fits <;> simp_all

def DeclareStep.isHelper : DeclareStep → Bool
  | helper _ => true
  | declare _ | directive _ | precision .. => false

def Registry.names (r : Registry) : List String := r.vars.map (·.name)

def draftNames (steps : List DeclareStep) : List String := (drafts steps).map (·.name)

theorem drafts_append (first second : List DeclareStep) :
    drafts (first ++ second) = drafts first ++ drafts second := List.filterMap_append

theorem drafts_cons (s : DeclareStep) (rest : List DeclareStep) :
    drafts (s :: rest) = s.draft?.toList ++ drafts rest := by
  unfold drafts
  cases drafted : s.draft? <;> simp [drafted]

theorem mem_draftNames_of_role {steps : List DeclareStep} {role : Role} (mem : .role role ∈ steps) :
    role.name ∈ draftNames steps :=
  List.mem_map_of_mem (List.mem_filterMap.mpr ⟨_, mem, rfl⟩)

theorem draftNames_append (first second : List DeclareStep) :
    draftNames (first ++ second) = draftNames first ++ draftNames second := by
  rw [draftNames, drafts_append, List.map_append, draftNames, draftNames]

theorem drafts_subset {steps others : List DeclareStep} (subset : steps ⊆ others) :
    drafts steps ⊆ drafts others := by
  intro v mem
  obtain ⟨s, known, drafted⟩ := List.mem_filterMap.mp mem
  exact List.mem_filterMap.mpr ⟨s, subset known, drafted⟩

theorem drafts_flatMap (fragments : List Fragment) :
    drafts (fragments.flatMap (·.declarations)) =
      fragments.flatMap fun f => drafts f.declarations := by
  induction fragments with
  | nil => rfl
  | cons f rest ih => rw [List.flatMap_cons, drafts_append, ih, List.flatMap_cons]

theorem draftNames_flatMap (fragments : List Fragment) :
    draftNames (fragments.flatMap (·.declarations)) =
      fragments.flatMap fun f => draftNames f.declarations := by
  rw [draftNames, drafts_flatMap, List.map_flatMap]
  rfl

theorem drafts_roles (roles : List Role) :
    drafts (roles.map .role) = roles.map Role.var := by
  rw [drafts, List.filterMap_map, ← List.filterMap_eq_map]
  rfl

/-- The steps ask for variables only that can be declared in the stage. -/
structure StepsFit (stage : Stage) (steps : List DeclareStep) : Prop where
  drafts : ∀ v ∈ drafts steps, v.fits stage = true
  helpers : ∀ s ∈ steps, s.isHelper = false

theorem StepsFit.subset {stage : Stage} {steps fewer : List DeclareStep} (fit : StepsFit stage steps)
    (subset : fewer ⊆ steps) : StepsFit stage fewer :=
  ⟨fun v mem => fit.drafts v (drafts_subset subset mem),
    fun s mem => fit.helpers s (subset mem)⟩

namespace Declaring

/-- A name that has not been declared is not refused. -/
theorem exists_step {d : Declaring} {s : DeclareStep} (owner : String)
    (fit : StepsFit d.registry.stage [s]) (new : ∀ v ∈ s.draft?, v.name ∉ d.registry.names) :
    ∃ next, d.step owner s = .ok next ∧ next.registry.stage = d.registry.stage ∧
      next.registry.names = d.registry.names ++ draftNames [s] := by
  cases s with
  | declare draft =>
    have name : (draft.build ⟨d.declared, []⟩).name = draft.var.name ∧
        (draft.build ⟨d.declared, []⟩).qualifier = draft.var.qualifier := by
      unfold VariableDraft.build
      split <;> exact ⟨rfl, rfl⟩
    have fits : (draft.build ⟨d.declared, []⟩).fits d.registry.stage = true := by
      unfold Variable.fits
      rw [name.2]
      exact fit.drafts draft.var (List.mem_singleton_self _)
    have fresh : d.registry.entry? (draft.build ⟨d.declared, []⟩).name = none := by
      refine List.find?_eq_none.mpr fun e mem same => new draft.var rfl ?_
      rw [← name.1, ← eq_of_beq same]
      exact List.mem_map_of_mem (List.mem_map_of_mem mem)
    have declared := Registry.declare_fresh (Registry.misplaced?_of_fits fits owner) fresh
    have stepped : d.step owner (.declare draft) = .ok ⟨{ d.registry with
        entries := d.registry.entries ++ [⟨draft.build ⟨d.declared, []⟩, owner⟩] },
        d.declared ++ [draft.build ⟨d.declared, []⟩]⟩ := by
      rw [step, declared]
    refine ⟨_, stepped, rfl, ?_⟩
    simp [Registry.names, Registry.vars, draftNames, drafts, DeclareStep.draft?, name.1]
  | directive line =>
    refine ⟨_, rfl, ?_, ?_⟩
    · exact (d.registry.grows_addDirective line).1.stage
    · rw [Registry.names, Registry.vars, Registry.addDirective]
      split <;> exact (List.append_nil _).symm
  | precision ty p =>
    refine ⟨_, rfl, ?_, ?_⟩
    · exact (d.registry.grows_setPrecision ty p).1.stage
    · rw [Registry.names, Registry.vars, Registry.setPrecision]
      split <;> exact (List.append_nil _).symm
  | helper f => cases fit.helpers _ (List.mem_singleton_self _)

theorem exists_run (owner : String) : ∀ (steps : List DeclareStep) {d : Declaring},
    StepsFit d.registry.stage steps → (d.registry.names ++ draftNames steps).Nodup →
      ∃ last, run owner steps d = (last, none) ∧ last.registry.stage = d.registry.stage ∧
        last.registry.names = d.registry.names ++ draftNames steps
  | [], d, _, _ => ⟨d, rfl, rfl, (List.append_nil _).symm⟩
  | s :: rest, d, fit, distinct => by
    have split : draftNames (s :: rest) = draftNames [s] ++ draftNames rest :=
      draftNames_append [s] rest
    rw [split] at distinct ⊢
    have new : ∀ v ∈ s.draft?, v.name ∉ d.registry.names := by
      intro v drafted known
      have asked : v.name ∈ draftNames [s] ++ draftNames rest := by
        refine List.mem_append_left _ (List.mem_map_of_mem ?_)
        rw [drafts_cons]
        exact List.mem_append_left _ (Option.mem_toList.mpr drafted)
      exact (List.nodup_append.mp distinct).2.2 _ known _ asked rfl
    obtain ⟨next, first, stage, names⟩ :=
      exists_step owner (fit.subset (List.cons_subset_cons s (List.nil_subset rest))) new
    rw [← List.append_assoc, ← names] at distinct
    obtain ⟨last, others, stageOn, namesOn⟩ := exists_run owner rest
      (stage ▸ fit.subset (List.subset_cons_self s rest)) distinct
    refine ⟨last, ?_, stageOn.trans stage, ?_⟩
    · rw [run, first]
      exact others
    · rw [namesOn, names, List.append_assoc]

end Declaring

namespace Registry

theorem exists_declareAll {r : Registry} {owner : String} {steps : List DeclareStep}
    (new : owner ∉ r.owners) (fit : StepsFit r.stage steps)
    (distinct : (r.names ++ draftNames steps).Nodup) :
    ∃ d, r.declareAll owner steps = .ok d ∧ d.registry.stage = r.stage ∧
      d.registry.names = r.names ++ draftNames steps ∧ d.registry.owners = r.owners ++ [owner] := by
  have begun : r.begin? owner = some { r with owners := r.owners ++ [owner] } := by
    simp [begin?, hasBegun, new]
  obtain ⟨last, ran, stage, names⟩ := Declaring.exists_run owner steps
    (d := ⟨{ r with owners := r.owners ++ [owner] }, []⟩) fit distinct
  refine ⟨last, ?_, stage, names, (Declaring.grows_run ran).2.2⟩
  rw [declareAll, begun]
  simp only [ran]

theorem exists_declareAttached : ∀ {fragments : List AttachedFragment} {r : Registry},
    (r.owners ++ fragments.map (·.fragment.id)).Nodup →
    (∀ f ∈ fragments, StepsFit r.stage f.fragment.declarations) →
    (r.names ++ draftNames (fragments.flatMap (·.fragment.declarations))).Nodup →
      ∃ last kept, r.declareAttached fragments = (.ok last, kept)
  | [], r, _, _, _ => ⟨r, [], rfl⟩
  | f :: rest, r, owners, fit, distinct => by
    have split : draftNames ((f :: rest).flatMap (·.fragment.declarations)) =
        draftNames f.fragment.declarations ++
          draftNames (rest.flatMap (·.fragment.declarations)) := by
      rw [List.flatMap_cons, draftNames_append]
    rw [split, ← List.append_assoc] at distinct
    rw [List.map_cons, List.append_cons] at owners
    have new : f.fragment.id ∉ r.owners := fun known =>
      (List.nodup_append.mp (List.nodup_append.mp owners).1).2.2 _ known _
        (List.mem_singleton_self _) rfl
    obtain ⟨d, first, stage, names, begun⟩ := exists_declareAll new (fit f List.mem_cons_self)
      (List.nodup_append.mp distinct).1
    rw [← names] at distinct
    rw [← begun] at owners
    obtain ⟨last, kept, others⟩ := exists_declareAttached owners
      (fun g mem => stage ▸ fit g (List.mem_cons_of_mem _ mem)) distinct
    refine ⟨last, ⟨f.fragment, some d.declared⟩ :: kept, ?_⟩
    rw [declareAttached, first]
    simp only [others]

end Registry

/-! ### Recording -/

section Recording

variable {stage : Stage} {strict : Bool} {symbols : Symbols}

/-- What a script emits by itself is recorded on a body that is as good as new. -/
theorem Piece.exists_record {p : Piece} {b : Body} {statements : List Stmt} {n k : Nat}
    (new : b.IsNew stage strict n) (emits : p.Emits stage strict symbols n statements k) :
    ∃ next, p.record symbols b = .ok (statements, next) ∧ next.IsNew stage strict k := by
  have again := new
  obtain ⟨owner, rfl⟩ := new
  obtain ⟨r, ran, segment, rfl⟩ := emits
  have recorded : p.record symbols { Body.empty stage strict with owner := owner, temps := n } =
      .ok (statements, r.body.nextSegment) := by
    unfold record
    simp only [ran, segment]
  exact ⟨_, recorded, (Piece.emits_of_record again recorded).2⟩

theorem Assembly.exists_recordAll {n : Nat} {recorded : List (Piece × List Stmt)}
    (emitted : Piece.EmitInTurn stage strict symbols n recorded) :
    ∀ {a : Assembly}, a.body.IsNew stage strict n →
      ∃ last, recordAll stage symbols (recorded.map Prod.fst) a = .ok last := by
  induction emitted with
  | nil n =>
    intro a _
    exact ⟨a, rfl⟩
  | cons first _ ih =>
    intro a new
    obtain ⟨next, ok, again⟩ := Piece.exists_record new first
    rw [List.map_cons, recordAll, record, ok]
    exact ih again

end Recording

/-! ### Composing -/

namespace CoreShader

/-- No name is asked for twice in the stage, and the owners have different names. -/
structure IsFresh (core : CoreShader) (fragments : List Fragment) : Prop where
  fit : StepsFit core.stage (core.steps fragments)
  names : (draftNames (core.steps fragments)).Nodup
  owners : (core.id :: fragments.map (·.id)).Nodup

variable {core : CoreShader} {fragments : List Fragment} {attached : List String} {strict : Bool}

theorem exists_declares (fresh : core.IsFresh fragments) :
    ∃ own registry kept, (Registry.empty core.stage).declareAll core.id core.declarations = .ok own ∧
      own.registry.declareAttached (fragments.map Fragment.attach) = (.ok registry, kept) := by
  have distinct := fresh.names
  rw [steps, draftNames_append] at distinct
  have new : core.id ∉ (Registry.empty core.stage).owners := List.not_mem_nil
  have fit : StepsFit (Registry.empty core.stage).stage core.declarations :=
    fresh.fit.subset (List.subset_append_left _ _)
  obtain ⟨own, first, stage, names, owners⟩ :=
    Registry.exists_declareAll new fit (List.nodup_append.mp distinct).1
  have ids : (own.registry.owners ++ (fragments.map Fragment.attach).map (·.fragment.id)).Nodup := by
    rw [owners, List.map_map]
    exact fresh.owners
  have fits : ∀ f ∈ fragments.map Fragment.attach,
      StepsFit own.registry.stage f.fragment.declarations := by
    intro f mem
    obtain ⟨g, known, rfl⟩ := List.mem_map.mp mem
    rw [stage]
    exact fresh.fit.subset fun step inside =>
      List.mem_append_right _ (List.mem_flatMap.mpr ⟨g, known, inside⟩)
  have apart : (own.registry.names ++ draftNames
      ((fragments.map Fragment.attach).flatMap (·.fragment.declarations))).Nodup := by
    rw [names, List.flatMap_map]
    exact distinct
  obtain ⟨registry, kept, rest⟩ := Registry.exists_declareAttached ids fits apart
  exact ⟨own, registry, kept, first, rest⟩

theorem exists_compose (fresh : core.IsFresh fragments)
    (emit : ∀ own kept registry, core.Declares fragments own kept registry →
      ∃ recorded : List (Piece × List Stmt),
        recorded.map Prod.fst = Slot.order.flatMap (Slot.pieces core own.declared kept) ∧
        Piece.EmitInTurn core.stage strict (registry.symbols attached) 0 recorded) :
    ∃ c, (core.compose (fragments.map Fragment.attach) attached strict).1 = .ok c := by
  obtain ⟨own, registry, kept, first, rest⟩ := exists_declares fresh
  have others := Registry.declaresAll_of_declareAttached rest
  rw [List.map_map] at others
  obtain ⟨recorded, order, emitted⟩ :=
    emit own kept registry ⟨first, (List.map_id fragments) ▸ others⟩
  have new : (Assembly.empty core.stage strict).body.IsNew core.stage strict 0 := ⟨_, rfl⟩
  obtain ⟨last, recording⟩ := Assembly.exists_recordAll emitted new
  rw [order, ← Assembly.recordSlots_eq] at recording
  rw [compose, first]
  simp only [rest]
  rw [assemble, recording]
  exact ⟨_, rfl⟩

end CoreShader

end ShaderComposer
