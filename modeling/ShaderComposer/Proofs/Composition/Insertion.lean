import Mathlib.Tactic.Tauto
import ShaderComposer.Core.Fragment
import ShaderComposer.Effect.Basic
import ShaderComposer.Proofs.Composition.Acceptance
import ShaderComposer.Proofs.Composition.Order
import ShaderComposer.Proofs.Script.Questions

/-!
# Inserting an effect

A further effect is visible to a stage in four ways: its fragment may be asked after, in either
stage; its declarations may give a role a variable; its `main()` takes part in the slots; and it may
be the first owner of a shared name. If no question that the stage asks without the effect is about
the effect, then a stage in which it has no fragment composes to the same result, error or not, and
a stage in which its fragment is ignored has the same `main()` and the same segments
(`CoreShader.compose_inserted`).

The questions of a stage are those that its pieces ask in turn (`CoreShader.asked`). Pieces that are
answered alike record the same, up to the first that fails (`Assembly.recordAll_of_asked`).
-/

namespace ShaderComposer

/-! ### Questions of a stage -/

/-- The questions that a piece asks when it is recorded on a body. -/
def Piece.asked (symbols : Symbols) (b : Body) (p : Piece) : List Question :=
  Instruction.askedAll ⟨symbols, p.declared⟩ p.script ⟨{ b with owner := p.owner }, []⟩

/-- The questions that pieces ask in turn; the first that fails is the last to ask. -/
def Assembly.asked (stage : Stage) (symbols : Symbols) : List Piece → Assembly → List Question
  | [], _ => []
  | p :: rest, a =>
    p.asked symbols a.body ++
      match a.record stage symbols p with
      | .ok next => asked stage symbols rest next
      | .error _ => []

def CoreShader.asked (core : CoreShader) (fragments : List AttachedFragment)
    (attached : List String) (strict : Bool) : List Question :=
  match (Registry.empty core.stage).declareAll core.id core.declarations with
  | .error _ => []
  | .ok own =>
    match own.registry.declareAttached fragments with
    | (.error _, _) => []
    | (.ok registry, kept) =>
      Assembly.asked core.stage (registry.symbols attached)
        (Slot.order.flatMap (Slot.pieces core own.declared kept)) (.empty core.stage strict)

section Answers

variable {symbols symbols' : Symbols} (same : symbols.stage = symbols'.stage)

include same

theorem Piece.record_of_asked {p q : Piece} (pieces : p.Alike q) {b : Body}
    (answers : ∀ question ∈ p.asked symbols b, question.SameAnswer symbols symbols') :
    p.record symbols b = q.record symbols' b := by
  have agrees : Instruction.Scene.Agrees (p.asked symbols b) ⟨symbols, p.declared⟩
      ⟨symbols', q.declared⟩ := ⟨same, answers, pieces.declared⟩
  have ran := Instruction.runAll_of_asked _ _ agrees
  unfold record
  dsimp only
  rw [ran, pieces.script, pieces.owner]

namespace Assembly

theorem record_of_asked {stage : Stage} {p q : Piece} (pieces : p.Alike q) {a : Assembly}
    (answers : ∀ question ∈ p.asked symbols a.body, question.SameAnswer symbols symbols') :
    a.record stage symbols p = a.record stage symbols' q := by
  have recorded := Piece.record_of_asked same pieces answers
  have contribution : p.contribution stage = q.contribution stage := by
    funext statements
    rw [Piece.contribution, Piece.contribution, pieces.owner, pieces.slot]
  unfold record
  rw [recorded, contribution, pieces.owner, pieces.slot]

/-- Pieces that differ in looks only, and whose questions are answered alike, record the same. -/
theorem recordAll_of_asked {stage : Stage} {pieces pieces' : List Piece}
    (alike : List.Forall₂ Piece.Alike pieces pieces') {a : Assembly}
    (answers : ∀ question ∈ asked stage symbols pieces a, question.SameAnswer symbols symbols') :
    recordAll stage symbols pieces a = recordAll stage symbols' pieces' a := by
  induction alike generalizing a with
  | nil => rfl
  | cons first _ ih =>
    have now : a.record stage symbols _ = a.record stage symbols' _ :=
      record_of_asked same first fun question mem => answers question (List.mem_append_left _ mem)
    rw [recordAll, recordAll, ← now]
    cases recorded : a.record stage symbols _ with
    | error e => rfl
    | ok next =>
      refine ih fun question mem => answers question ?_
      rw [asked, recorded]
      exact List.mem_append_right _ mem

end Assembly

end Answers

namespace CoreShader

variable {core : CoreShader} {strict : Bool}

/-- Whether a fragment is attached matters only if it is asked after. -/
theorem compose_attached {fragments : List AttachedFragment} {attached attached' : List String}
    (ids : ∀ id, .fragment id ∈ core.asked fragments attached strict →
      attached.contains id = attached'.contains id) :
    (core.compose fragments attached strict).1 = (core.compose fragments attached' strict).1 := by
  unfold asked at ids
  unfold compose
  split
  · rfl
  · next own declared =>
    rw [declared] at ids
    dsimp only at ids
    split
    · rfl
    · next registry kept begun =>
      rw [begun] at ids
      have answers : ∀ question ∈ Assembly.asked core.stage (registry.symbols attached)
          (Slot.order.flatMap (Slot.pieces core own.declared kept)) (.empty core.stage strict),
          question.SameAnswer (registry.symbols attached) (registry.symbols attached') := by
        intro question mem
        cases question with
        | role role => rfl
        | fragment id => exact ids id mem
      have stage : (registry.symbols attached).stage = (registry.symbols attached').stage := rfl
      have recorded := Assembly.recordAll_of_asked stage
        (List.forall₂_same.mpr fun p _ => Piece.Alike.refl p) answers
      simp only [assemble, Assembly.recordSlots_eq, recorded]

end CoreShader

/-! ### Registries with further declarations -/

theorem mem_draftNames_iff {steps : List DeclareStep} {name : String} :
    name ∈ draftNames steps ↔ ∃ draft, .declare draft ∈ steps ∧ draft.var.name = name := by
  simp only [draftNames, drafts, List.mem_map, List.mem_filterMap]
  constructor
  · rintro ⟨v, ⟨step, mem, drafted⟩, rfl⟩
    cases step with
    | declare draft =>
      cases drafted
      exact ⟨draft, mem, rfl⟩
    | directive | precision | helper => cases drafted
  · rintro ⟨draft, mem, rfl⟩
    exact ⟨draft.var, ⟨_, mem, rfl⟩, rfl⟩

namespace Registry

variable {r : Registry} {steps : List DeclareStep} {good : Variable → Prop} {name : String}

/-- A registry made of steps has the names that the steps declare and no others. -/
theorem MadeOf.isSome_get? (made : r.MadeOf good steps) (has : ∀ step ∈ steps, r.Has step) :
    (r.get? name).isSome = true ↔ name ∈ draftNames steps := by
  rw [mem_draftNames_iff]
  constructor
  · intro found
    obtain ⟨v, known⟩ := Option.isSome_iff_exists.mp found
    obtain ⟨mem, rfl⟩ := mem_of_get? known
    obtain ⟨draft, step, shape⟩ := made.vars v mem
    exact ⟨draft, step, (Variable.sameShape_iff.mp shape).1.symm⟩
  · rintro ⟨draft, step, rfl⟩
    obtain ⟨v, mem, shape, _⟩ := has _ step
    rw [← (Variable.sameShape_iff.mp shape).1, get?_of_mem made.distinct mem]
    rfl

theorem declareAttached_of_declaresAll : ∀ {fragments kept : List AttachedFragment}
    {r last : Registry}, r.DeclaresAll (fragments.map (·.fragment)) kept last →
      r.declareAttached fragments = (.ok last, kept)
  | [], kept, r, last, declares => by
    cases declares
    rfl
  | f :: rest, kept, r, last, declares => by
    cases declares with
    | cons first others =>
      rw [declareAttached, first]
      simp only [declareAttached_of_declaresAll others]

end Registry

namespace CoreShader

section Declared

variable {core : CoreShader} {fragments others : List Fragment} {own own' : Declaring}
  {kept kept' : List AttachedFragment} {registry registry' : Registry}

theorem Declares.madeOf_steps (declares : core.Declares fragments own kept registry) :
    registry.MadeOf (fun _ => True) (core.steps fragments) :=
  (declares.madeOf fun _ _ _ _ => trivial).1

/-- The core comes before all fragments, so it declares alike. -/
theorem Declares.own_unique (declares : core.Declares fragments own kept registry)
    (declares' : core.Declares others own' kept' registry') : own = own' := by
  have both := declares.first
  rw [declares'.first] at both
  exact (Except.ok.inj both).symm

/-- A name that further declarations do not bring in stands for a variable of the same shape. -/
theorem Declares.rel_get? (declares : core.Declares fragments own kept registry)
    (declares' : core.Declares others own' kept' registry')
    (more : core.steps fragments ⊆ core.steps others) {name : String}
    (old : name ∈ draftNames (core.steps others) → name ∈ draftNames (core.steps fragments)) :
    Option.Rel (fun v w => v.sameShape w = true) (registry.get? name) (registry'.get? name) := by
  have made := declares.madeOf_steps
  have made' := declares'.madeOf_steps
  cases here : registry.get? name with
  | some v =>
    obtain ⟨w, there, same⟩ :=
      made.sameShape_get? (fun step mem => declares'.has (more mem)) made'.distinct here
    rw [there]
    exact .some same
  | none =>
    cases there : registry'.get? name with
    | none => exact .none
    | some w =>
      have known : name ∈ draftNames (core.steps others) :=
        (made'.isSome_get? fun _ => declares'.has).mp (by rw [there]; rfl)
      have also := (made.isSome_get? fun _ => declares.has).mpr (old known)
      rw [here] at also
      cases also

end Declared

theorem asked_eq {core : CoreShader} {fragments : List AttachedFragment} {attached : List String}
    {strict : Bool} {own : Declaring} {kept : List AttachedFragment} {registry : Registry}
    (declares : core.Declares (fragments.map (·.fragment)) own kept registry) :
    core.asked fragments attached strict =
      Assembly.asked core.stage (registry.symbols attached)
        (Slot.order.flatMap (Slot.pieces core own.declared kept)) (.empty core.stage strict) := by
  rw [asked, declares.first]
  simp only [Registry.declareAttached_of_declaresAll declares.others]

end CoreShader

/-! ### Ignored fragments -/

/-- The pieces of a layout are recorded to what the layout has. -/
theorem Layout.Describes.recordAll {l : Layout} {core : CoreShader} {fragments : List Fragment}
    {attached : List String} {strict : Bool} {c : StageComposition}
    (describes : l.Describes core fragments attached strict c) :
    ∃ last, Assembly.recordAll core.stage (l.registry.symbols attached)
        (Slot.order.flatMap (Slot.pieces core l.own.declared l.fragments))
        (.empty core.stage strict) = .ok last ∧
      l.main = Stmt.renderBlock 1 last.statements ∧ c.segments = last.segments := by
  have new : (Assembly.empty core.stage strict).body.IsNew core.stage strict 0 := ⟨_, rfl⟩
  obtain ⟨last, recording⟩ := Assembly.exists_recordAll describes.emitted new
  obtain ⟨recorded, order, emitted, extend⟩ := Assembly.emitInTurn_of_recordAll new recording
  have looks : List.Forall₂ Piece.Alike (l.pieces.map Prod.fst) (recorded.map Prod.fst) := by
    rw [order]
    exact List.forall₂_same.mpr fun p _ => Piece.Alike.refl p
  -- pieces in turn have one outcome, so what is recorded now is what the layout has
  have same := describes.emitted.unique (.refl l.registry) rfl emitted looks
  rw [describes.order] at recording
  refine ⟨last, recording, ?_, ?_⟩
  · rw [Layout.main, statements_alike same, extend.statements]
    rfl
  · rw [describes.segments, segments_alike same, extend.segments]
    rfl

namespace CoreShader

variable {core : CoreShader} {strict : Bool} {fragments others : List AttachedFragment}
  {attached attached' : List String} {c c' : StageComposition}

theorem slots_of_ignored {first last : List Fragment} {f : Fragment} (ignored : f.location = .ignore)
    (location : InsertLocation) (slot : .bucket location ∈ Slot.order) :
    (first ++ last).filter (fun f => f.location = location) =
      (first ++ f :: last).filter fun f => f.location = location := by
  have elsewhere : f.location ≠ location := by
    rw [ignored]
    rintro rfl
    revert slot
    decide
  rw [List.filter_append, List.filter_append, List.filter_cons_of_neg (by simpa using elsewhere)]

theorem steps_inserted (core : CoreShader) (first last : List Fragment) (f : Fragment) :
    core.steps (first ++ last) ⊆ core.steps (first ++ f :: last) := by
  intro step mem
  simp only [steps, List.mem_append, List.flatMap_append, List.flatMap_cons] at mem ⊢
  tauto

theorem mem_draftNames_inserted {first last : List Fragment} {f : Fragment} {name : String}
    (mem : name ∈ draftNames (core.steps (first ++ f :: last))) :
    name ∈ draftNames (core.steps (first ++ last)) ∨ name ∈ draftNames f.declarations := by
  simp only [steps, draftNames_append, draftNames_flatMap, List.mem_append, List.flatMap_append,
    List.flatMap_cons] at mem ⊢
  tauto

/-- An ignored fragment that no question is about. -/
theorem main_of_ignored {first last : List Fragment} {f : Fragment}
    (here : fragments.map (·.fragment) = first ++ last)
    (there : others.map (·.fragment) = first ++ f :: last) (ignored : f.location = .ignore)
    (ids : ∀ id, .fragment id ∈ core.asked fragments attached strict →
      attached.contains id = attached'.contains id)
    (roles : ∀ role, .role role ∈ core.asked fragments attached strict →
      role.name ∈ draftNames f.declarations → role.name ∈ draftNames (core.steps (first ++ last)))
    (ok : (core.compose fragments attached strict).1 = .ok c)
    (ok' : (core.compose others attached' strict).1 = .ok c') :
    (∃ l l' : Layout, l.Describes core (first ++ last) attached strict c ∧
      l'.Describes core (first ++ f :: last) attached' strict c' ∧ l.main = l'.main) ∧
      c.segments = c'.segments := by
  obtain ⟨l, describes⟩ := describes_of_compose ok
  obtain ⟨l', describes'⟩ := describes_of_compose ok'
  have questions : core.asked fragments attached strict = _ := asked_eq describes.declares
  rw [here] at describes
  rw [there] at describes'
  have declares := describes.declares
  have declares' := describes'.declares
  have answers : ∀ question ∈ core.asked fragments attached strict,
      question.SameAnswer (l.registry.symbols attached) (l'.registry.symbols attached') := by
    intro question mem
    cases question with
    | role role =>
      show ((l.registry.symbols attached).get? role).map Variable.reference =
        ((l'.registry.symbols attached').get? role).map Variable.reference
      rw [Registry.get?_symbols, Registry.get?_symbols]
      refine Registry.roleVariable?_of_get?
        (declares.rel_get? declares' (steps_inserted core first last f) fun known => ?_)
      exact (mem_draftNames_inserted known).elim (fun old => old) (roles role mem)
    | fragment id => exact ids id mem
  -- an ignored fragment adds no piece, so the same pieces are recorded
  have looks : List.Forall₂ Piece.Alike
      (Slot.order.flatMap (Slot.pieces core l.own.declared l.fragments))
      (Slot.order.flatMap (Slot.pieces core l'.own.declared l'.fragments)) := by
    rw [declares.own_unique declares']
    refine alike_slots describes.fragmentsDeclare.remembers describes'.fragmentsDeclare.remembers ?_
    rw [describes.fragmentsDeclare.fragments, describes'.fragmentsDeclare.fragments]
    exact slots_of_ignored ignored
  have stage : (l.registry.symbols attached).stage = (l'.registry.symbols attached').stage :=
    declares.stage_eq.trans declares'.stage_eq.symm
  obtain ⟨a, recording, main, segments⟩ := describes.recordAll
  obtain ⟨a', recording', main', segments'⟩ := describes'.recordAll
  rw [questions] at answers
  rw [Assembly.recordAll_of_asked stage looks answers, recording'] at recording
  cases recording
  exact ⟨⟨l, l', describes, describes', main.trans main'.symm⟩, segments.trans segments'.symm⟩

/-! ### Effects -/

theorem contains_attachedIds (before after : List Effect) {new : Effect} {id : String}
    (other : id ∉ attachedIds [new]) :
    (attachedIds (before ++ after)).contains id =
      (attachedIds (before ++ new :: after)).contains id := by
  have split : attachedIds (before ++ new :: after) =
      attachedIds before ++ (attachedIds [new] ++ attachedIds after) := by
    simp [attachedIds]
  have joined : attachedIds (before ++ after) = attachedIds before ++ attachedIds after := by
    simp [attachedIds]
  rw [Bool.eq_iff_iff, List.contains_iff_mem, List.contains_iff_mem, split, joined]
  simp [other]

/-- A further effect anywhere in the list, if no phase and no `main()` asks after its fragments. A
stage in which it has no fragment composes to the same result or fails with the same error. A stage
in which its fragment is ignored has the same `main()` and segments, if no role is asked for that
only the new fragment declares. -/
theorem compose_inserted {before after : List Effect} {new : Effect}
    (here : fragments.map (·.fragment) = stageFragments (before ++ after) core.stage)
    (there : others.map (·.fragment) = stageFragments (before ++ new :: after) core.stage)
    (unasked : ∀ id ∈ attachedIds [new],
      .fragment id ∉ core.asked fragments (attachedIds (before ++ after)) strict) :
    (new.fragment? core.stage = none →
      (core.compose others (attachedIds (before ++ new :: after)) strict).1 =
        (core.compose fragments (attachedIds (before ++ after)) strict).1) ∧
    ∀ f c c', new.fragment? core.stage = some f → f.location = .ignore →
      (∀ role, .role role ∈ core.asked fragments (attachedIds (before ++ after)) strict →
        role.name ∈ draftNames f.declarations →
        role.name ∈ draftNames (core.steps (stageFragments (before ++ after) core.stage))) →
      (core.compose fragments (attachedIds (before ++ after)) strict).1 = .ok c →
      (core.compose others (attachedIds (before ++ new :: after)) strict).1 = .ok c' →
        (∃ l l' : Layout,
          l.Describes core (stageFragments (before ++ after) core.stage)
            (attachedIds (before ++ after)) strict c ∧
          l'.Describes core (stageFragments (before ++ new :: after) core.stage)
            (attachedIds (before ++ new :: after)) strict c' ∧
          l.main = l'.main) ∧
        c.segments = c'.segments := by
  have ids : ∀ id, .fragment id ∈ core.asked fragments (attachedIds (before ++ after)) strict →
      (attachedIds (before ++ after)).contains id =
        (attachedIds (before ++ new :: after)).contains id :=
    fun id mem => contains_attachedIds before after fun inside => unasked id inside mem
  constructor
  · intro absent
    have same : others.map (·.fragment) = fragments.map (·.fragment) := by
      rw [here, there]
      simp [stageFragments, absent]
    rw [compose_congr same, compose_attached ids]
  · intro f c c' present ignored roles ok ok'
    have joined : stageFragments (before ++ after) core.stage =
        stageFragments before core.stage ++ stageFragments after core.stage := by
      simp [stageFragments]
    have split : stageFragments (before ++ new :: after) core.stage =
        stageFragments before core.stage ++ f :: stageFragments after core.stage := by
      simp [stageFragments, present]
    rw [joined] at here roles ⊢
    rw [split] at there ⊢
    exact main_of_ignored here there ignored ids roles ok ok'

/-- The stage of effects whose fragments have not declared before. -/
abbrev composeEffects (core : CoreShader) (effects : List Effect) :
    Except ShaderError StageComposition :=
  (core.compose ((stageFragments effects core.stage).map Fragment.attach) (attachedIds effects)
    true).1

abbrev askedByEffects (core : CoreShader) (effects : List Effect) : List Question :=
  core.asked ((stageFragments effects core.stage).map Fragment.attach) (attachedIds effects) true

/-- An ignored fragment in the vertex stage and none in the other. -/
def sprites : Effect := .spriteSheet (.create 2 2 1.0 4)

def skinnedFog : List Effect := [.fog {}] ++ [.skeletal (.create 4 2)]

def spritedFog : List Effect := [.fog {}] ++ sprites :: [.skeletal (.create 4 2)]

/-- The vertex stage asks after the skeleton and for its bone matrix, and not about the sprites. -/
theorem compose_inserted_sprites :
    (∃ c c', (CoreVertex.shader {} .medium).composeEffects skinnedFog = .ok c ∧
      (CoreVertex.shader {} .medium).composeEffects spritedFog = .ok c' ∧
      c.source ≠ c'.source ∧ c.segments = c'.segments) ∧
    (CoreFragment.shader {} .medium []).composeEffects spritedFog =
      (CoreFragment.shader {} .medium []).composeEffects skinnedFog := by
  have old (stage : Stage) : ((stageFragments skinnedFog stage).map Fragment.attach).map
      (·.fragment) = stageFragments ([.fog {}] ++ [.skeletal (.create 4 2)]) stage := by
    rw [List.map_map]
    exact List.map_id _
  have more (stage : Stage) : ((stageFragments spritedFog stage).map Fragment.attach).map
      (·.fragment) = stageFragments ([.fog {}] ++ sprites :: [.skeletal (.create 4 2)]) stage := by
    rw [List.map_map]
    exact List.map_id _
  constructor
  · have unasked : ∀ id ∈ attachedIds [sprites],
        .fragment id ∉ (CoreVertex.shader {} .medium).askedByEffects skinnedFog := by
      decide +kernel
    have plain : ∀ role ∈ Role.all,
        role.name ∉ draftNames (SpriteSheet.create 2 2 1.0 4).fragment.declarations := by
      decide +kernel
    have apart : ((CoreVertex.shader {} .medium).composeEffects skinnedFog).toOption.map
        StageComposition.source ≠
          ((CoreVertex.shader {} .medium).composeEffects spritedFog).toOption.map
            StageComposition.source := by
      decide +kernel
    have made : ((CoreVertex.shader {} .medium).composeEffects skinnedFog).toOption.isSome ∧
        ((CoreVertex.shader {} .medium).composeEffects spritedFog).toOption.isSome := by
      decide +kernel
    obtain ⟨_, ignored⟩ := compose_inserted (old _) (more _) unasked
    cases here : (CoreVertex.shader {} .medium).composeEffects skinnedFog with
    | error e =>
      rw [here] at made
      cases made.1
    | ok c =>
      cases there : (CoreVertex.shader {} .medium).composeEffects spritedFog with
      | error e =>
        rw [there] at made
        cases made.2
      | ok c' =>
        rw [here, there] at apart
        have same := ignored _ c c' rfl rfl (fun role _ mem => absurd mem (plain role role.mem_all))
          here there
        exact ⟨c, c', rfl, rfl, fun equal => apart (congrArg some equal), same.2⟩
  · have unasked : ∀ id ∈ attachedIds [sprites],
        .fragment id ∉ (CoreFragment.shader {} .medium []).askedByEffects skinnedFog := by
      decide +kernel
    obtain ⟨absent, _⟩ := compose_inserted (old _) (more _) unasked
    exact absent rfl

end CoreShader

end ShaderComposer
