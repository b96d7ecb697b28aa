import ShaderComposer.Proofs.Composition.Acceptance
import ShaderComposer.Proofs.Source.Agreement

/-!
# Declaring in another order

What a shader asks of the registry of its stage does not depend on what others have asked before:
the initial value of a constant may refer to variables that were given back, but these have the
names and types that were asked for (`DeclareStep.requests`). So the declare phase of a stage is a
fixed list of requests for each shader. If no fragment asks for a name twice, it succeeds for all
orders of the fragments or for none (`CoreShader.declares_reordered`).
-/

namespace ShaderComposer

open Registry (Request)

/-! ### What a shader asks for -/

namespace DeclareStep

/-- The request of a step, the variables declared before it being like `before`. -/
def request (owner : String) (before : List Variable) : DeclareStep → Request
  | declare draft => .declare owner (draft.build ⟨before, []⟩)
  | directive line => .directive line
  | precision ty p => .precision ty p
  | helper f => .helper owner f

def requests (owner : String) : List Variable → List DeclareStep → List Request
  | _, [] => []
  | before, s :: rest => s.request owner before :: requests owner (before ++ s.draft?.toList) rest

theorem build_alike {declared before : List Variable} (alike : LookAlike declared before)
    (draft : VariableDraft) : draft.build ⟨declared, []⟩ = draft.build ⟨before, []⟩ := by
  have bindings : Bindings.Alike ⟨declared, []⟩ ⟨before, []⟩ := ⟨alike, rfl⟩
  unfold VariableDraft.build
  cases draft.initial with
  | none => rfl
  | some t => simp only [Term.build_alike bindings t]

theorem claims_requests (owner : String) (steps : List DeclareStep) (before : List Variable) :
    (requests owner before steps).filterMap Request.claim? =
      (draftNames steps).map fun name => (owner, name) := by
  induction steps generalizing before with
  | nil => rfl
  | cons s rest ih =>
    rw [requests, List.filterMap_cons, ih]
    cases s with
    | declare draft =>
      have name : (draft.build ⟨before, []⟩).name = draft.var.name := by
        unfold VariableDraft.build
        split <;> rfl
      simp only [request, Request.claim?, name]
      rfl
    | directive line => rfl
    | precision ty p => rfl
    | helper f => rfl

theorem owners_requests (owner : String) (steps : List DeclareStep) (before : List Variable) :
    (requests owner before steps).filterMap Request.owner? = [] := by
  induction steps generalizing before with
  | nil => rfl
  | cons s rest ih =>
    rw [requests, List.filterMap_cons, ih]
    cases s <;> rfl

end DeclareStep

namespace Declaring

open DeclareStep (request requests)

/-- A step asks its request. If that is granted, the step goes on with the registry after it. -/
theorem step_eq {owner : String} {d : Declaring} {before : List Variable}
    (alike : LookAlike d.declared before) (s : DeclareStep) :
    (∃ next, d.step owner s = .ok next ∧
        Registry.granted (d.registry.handle (s.request owner before)).1 = true ∧
        next.registry = (d.registry.handle (s.request owner before)).2 ∧
        LookAlike next.declared (before ++ s.draft?.toList)) ∨
      (∃ e, d.step owner s = .error e) ∧
        Registry.granted (d.registry.handle (s.request owner before)).1 = false := by
  have unchanged : LookAlike d.declared (before ++ []) := (List.append_nil before).symm ▸ alike
  cases s with
  | declare draft =>
    simp only [step, request, Registry.handle, DeclareStep.build_alike alike draft]
    cases declared : d.registry.declare owner (draft.build ⟨before, []⟩) with
    | error e => exact Or.inr ⟨⟨e, rfl⟩, rfl⟩
    | ok given =>
      obtain ⟨v, registry⟩ := given
      obtain ⟨_, _, shape, _⟩ := Registry.grows_declare declared
      rw [VariableDraft.sameShape_build] at shape
      exact Or.inl ⟨⟨registry, d.declared ++ [v]⟩, rfl, rfl, rfl,
        List.rel_append alike (.cons (Variable.looksLike_of_sameShape shape) .nil)⟩
  | directive line => exact Or.inl ⟨_, rfl, rfl, rfl, unchanged⟩
  | precision ty p => exact Or.inl ⟨_, rfl, rfl, rfl, unchanged⟩
  | helper f =>
    simp only [step, request, Registry.handle]
    cases added : d.registry.addHelper owner f with
    | error e => exact Or.inr ⟨⟨e, rfl⟩, rfl⟩
    | ok registry => exact Or.inl ⟨⟨registry, d.declared⟩, rfl, rfl, rfl, unchanged⟩

/-- The steps of an owner come to their end just when all their requests are granted. -/
theorem run_eq {owner : String} (steps : List DeclareStep) {d : Declaring} {before : List Variable}
    (alike : LookAlike d.declared before) :
    (∃ last, run owner steps d = (last, none) ∧ d.registry.GrantsAll (requests owner before steps) ∧
        last.registry = d.registry.run (requests owner before steps)) ∨
      (∃ last e, run owner steps d = (last, some e)) ∧
        ¬ d.registry.GrantsAll (requests owner before steps) := by
  induction steps generalizing d before with
  | nil =>
    refine Or.inl ⟨d, rfl, ?_, rfl⟩
    intro answer mem
    cases mem
  | cons s rest ih =>
    rw [requests, Registry.grantsAll_cons]
    rcases step_eq alike s with ⟨next, stepped, given, registry, alike'⟩ | ⟨⟨e, refused⟩, denied⟩
    · rcases ih alike' with ⟨last, ran, grants, after⟩ | ⟨⟨last, e, ran⟩, refused⟩
      · rw [registry] at grants after
        refine Or.inl ⟨last, ?_, ⟨given, grants⟩, after⟩
        rw [run, stepped]
        exact ran
      · rw [registry] at refused
        refine Or.inr ⟨⟨last, e, ?_⟩, fun both => refused both.2⟩
        rw [run, stepped]
        exact ran
    · refine Or.inr ⟨⟨d, e, ?_⟩, fun both => ?_⟩
      · rw [run, refused]
      · rw [denied] at both
        cases both.1

end Declaring

/-! ### The declare phase as requests -/

/-- A shader's part of the declare phase: its owner and its steps. -/
abbrev DeclareTurn : Type := String × List DeclareStep

namespace DeclareTurn

def requests (turn : DeclareTurn) : List Request :=
  .begin turn.1 :: DeclareStep.requests turn.1 [] turn.2

theorem claims_requests (turn : DeclareTurn) : turn.requests.filterMap Request.claim? =
    (draftNames turn.2).map fun name => (turn.1, name) :=
  DeclareStep.claims_requests turn.1 turn.2 []

theorem owners_flatMap (turns : List DeclareTurn) :
    (turns.flatMap requests).filterMap Request.owner? = turns.map Prod.fst := by
  induction turns with
  | nil => rfl
  | cons turn rest ih =>
    rw [List.flatMap_cons, List.filterMap_append, ih, requests, List.filterMap_cons,
      DeclareStep.owners_requests]
    rfl

/-- Owners that are different and ask for no name twice make every claim once. -/
theorem nodup_claims {turns : List DeclareTurn} (owners : (turns.map Prod.fst).Nodup)
    (names : ∀ turn ∈ turns, (draftNames turn.2).Nodup) :
    ((turns.flatMap requests).filterMap Request.claim?).Nodup := by
  rw [List.filterMap_flatMap, List.nodup_flatMap]
  constructor
  · intro turn mem
    rw [claims_requests]
    exact (names turn mem).map fun a b same => (Prod.mk.inj same).2
  · refine (List.pairwise_map.mp owners).imp ?_
    intro first second differ claim here there
    dsimp only at here there
    rw [claims_requests] at here there
    obtain ⟨_, _, rfl⟩ := List.mem_map.mp here
    obtain ⟨_, _, same⟩ := List.mem_map.mp there
    exact differ (Prod.mk.inj same).1.symm

end DeclareTurn

namespace Registry

theorem declareAll_eq (r : Registry) (turn : DeclareTurn) :
    (∃ d, r.declareAll turn.1 turn.2 = .ok d ∧ r.GrantsAll turn.requests ∧
        d.registry = r.run turn.requests) ∨
      (∃ e, r.declareAll turn.1 turn.2 = .error e) ∧ ¬ r.GrantsAll turn.requests := by
  rw [DeclareTurn.requests, grantsAll_cons]
  unfold declareAll
  cases begun : r.begin? turn.1 with
  | none =>
    refine Or.inr ⟨⟨_, rfl⟩, fun both => ?_⟩
    have denied : (r.handle (.begin turn.1)).1 = .ok (.view false) := by
      simp only [handle, begun]
    rw [denied] at both
    cases both.1
  | some next =>
    have handled : r.handle (.begin turn.1) = (.ok (.view true), next) := by
      simp only [handle, begun]
    have whole : r.run (.begin turn.1 :: DeclareStep.requests turn.1 [] turn.2) =
        next.run (DeclareStep.requests turn.1 [] turn.2) := by
      show (r.handle (.begin turn.1)).2.run _ = _
      rw [handled]
    rw [handled, whole]
    have alike : LookAlike (Declaring.mk next []).declared [] := .nil
    rcases Declaring.run_eq turn.2 alike with
      ⟨last, ran, grants, after⟩ | ⟨⟨last, e, ran⟩, refused⟩
    · exact Or.inl ⟨last, by simp only [ran], ⟨rfl, grants⟩, after⟩
    · exact Or.inr ⟨⟨e, by simp only [ran]⟩, fun both => refused both.2⟩

def turns (fragments : List AttachedFragment) : List DeclareTurn :=
  fragments.map fun f => (f.fragment.id, f.fragment.declarations)

theorem exists_declareAttached_iff (fragments : List AttachedFragment) {r : Registry} :
    (∃ last kept, r.declareAttached fragments = (.ok last, kept)) ↔
      r.GrantsAll ((turns fragments).flatMap DeclareTurn.requests) := by
  induction fragments generalizing r with
  | nil =>
    refine iff_of_true ⟨r, [], rfl⟩ ?_
    intro answer mem
    cases mem
  | cons f rest ih =>
    rw [turns, List.map_cons, List.flatMap_cons, grantsAll_append]
    rcases declareAll_eq r (f.fragment.id, f.fragment.declarations) with
      ⟨d, declared, grants, registry⟩ | ⟨⟨e, declared⟩, refused⟩
    · rw [and_iff_right grants, ← registry]
      refine Iff.trans ?_ ih
      dsimp only at declared
      simp only [declareAttached, declared]
      constructor
      · rintro ⟨last, kept, ended⟩
        have first := congrArg Prod.fst ended
        exact ⟨last, (d.registry.declareAttached rest).2, Prod.ext first rfl⟩
      · rintro ⟨last, kept, ended⟩
        rw [ended]
        exact ⟨last, _, rfl⟩
    · refine iff_of_false ?_ fun both => refused both.1
      rintro ⟨last, kept, ended⟩
      dsimp only at declared
      simp only [declareAttached, declared] at ended
      cases ended

end Registry

namespace CoreShader

/-- The declare phase of the stage succeeds. -/
def CanDeclare (core : CoreShader) (fragments : List AttachedFragment) : Prop :=
  ∃ own last kept, (Registry.empty core.stage).declareAll core.id core.declarations = .ok own ∧
    own.registry.declareAttached fragments = (.ok last, kept)

def turns (core : CoreShader) (fragments : List AttachedFragment) : List DeclareTurn :=
  (core.id, core.declarations) :: Registry.turns fragments

theorem canDeclare_iff {core : CoreShader} {fragments : List AttachedFragment} :
    core.CanDeclare fragments ↔
      (Registry.empty core.stage).GrantsAll ((core.turns fragments).flatMap DeclareTurn.requests) := by
  rw [turns, List.flatMap_cons, Registry.grantsAll_append]
  rcases Registry.declareAll_eq (.empty core.stage) (core.id, core.declarations) with
    ⟨own, declared, grants, registry⟩ | ⟨⟨e, declared⟩, refused⟩
  · rw [and_iff_right grants, ← registry, ← Registry.exists_declareAttached_iff]
    constructor
    · rintro ⟨d, last, kept, first, rest⟩
      cases declared.symm.trans first
      exact ⟨last, kept, rest⟩
    · rintro ⟨last, kept, rest⟩
      exact ⟨own, last, kept, declared, rest⟩
  · refine iff_of_false ?_ fun both => refused both.1
    rintro ⟨own, _, _, first, _⟩
    cases declared.symm.trans first

/-! ### Another order of the fragments -/

section Order

variable {core : CoreShader} {fragments others : List AttachedFragment}

theorem nodup_claims_turns (once : ∀ f ∈ fragments, (draftNames f.fragment.declarations).Nodup)
    (can : core.CanDeclare fragments) :
    (((core.turns fragments).flatMap DeclareTurn.requests).filterMap Request.claim?).Nodup := by
  have grants := canDeclare_iff.mp can
  have owners := Registry.nodup_owners_of_grantsAll grants
  rw [DeclareTurn.owners_flatMap] at owners
  rw [turns, List.flatMap_cons, Registry.grantsAll_append] at grants
  -- nobody has declared before the core, so what it is refused it has asked for itself
  have alone : ∀ claim ∈ (DeclareTurn.requests (core.id, core.declarations)).filterMap
      Request.claim?, claim.1 = core.id := by
    intro claim mem
    rw [DeclareTurn.claims_requests] at mem
    obtain ⟨_, _, rfl⟩ := List.mem_map.mp mem
    rfl
  have own := Registry.nodup_claims_of_grantsAll alone grants.1
  rw [DeclareTurn.claims_requests] at own
  apply DeclareTurn.nodup_claims owners
  intro turn mem
  rcases List.mem_cons.mp mem with rfl | mem
  · exact own.of_map _
  · obtain ⟨f, known, rfl⟩ := List.mem_map.mp mem
    exact once f known

theorem turns_perm (perm : (fragments.map (·.fragment)).Perm (others.map (·.fragment))) :
    (core.turns fragments).Perm (core.turns others) := by
  have same := perm.map fun f => (f.id, f.declarations)
  rw [List.map_map, List.map_map] at same
  exact same.cons _

theorem CanDeclare.perm (can : core.CanDeclare fragments)
    (perm : (fragments.map (·.fragment)).Perm (others.map (·.fragment)))
    (once : ∀ f ∈ fragments, (draftNames f.fragment.declarations).Nodup) :
    core.CanDeclare others := by
  have turns : (core.turns fragments).Perm (core.turns others) := turns_perm perm
  have requests := turns.flatMap_right DeclareTurn.requests
  have distinct := nodup_claims_turns once can
  rw [canDeclare_iff] at can ⊢
  exact (Registry.grantsAll_perm requests distinct).mp can

theorem canDeclare_perm (perm : (fragments.map (·.fragment)).Perm (others.map (·.fragment)))
    (once : ∀ f ∈ fragments, (draftNames f.fragment.declarations).Nodup) :
    core.CanDeclare fragments ↔ core.CanDeclare others := by
  refine ⟨fun can => can.perm perm once, fun can => can.perm perm.symm ?_⟩
  intro f mem
  have known := perm.mem_iff.mpr (List.mem_map_of_mem mem)
  obtain ⟨g, mem', same⟩ := List.mem_map.mp known
  have distinct := once g mem'
  rwa [same] at distinct

end Order

/-- In the stage of a core, an owner is refused a name that it has declared before only if it is
registered as the first that did. So whether the stage can declare its fragments does not depend on
their order, unless one of them asks for a name twice. -/
theorem declares_reordered (core : CoreShader) :
    (∀ (requests later : List Request) (owner : String) (v w : Variable),
      ((Registry.empty core.stage).run requests).Accepts owner v → w.name = v.name →
        ∃ e, Registry.AskedAgain core.stage
          ((Registry.empty core.stage).run (requests ++ .declare owner v :: later)) owner v w e) ∧
      ∀ fragments others : List AttachedFragment,
        (fragments.map (·.fragment)).Perm (others.map (·.fragment)) →
          (∀ f ∈ fragments, (draftNames f.fragment.declarations).Nodup) →
            (core.CanDeclare fragments ↔ core.CanDeclare others) := by
  constructor
  · intro requests later owner v w accepted named
    exact Registry.askedAgain_run accepted named
  · intro fragments others perm once
    exact canDeclare_perm perm once

theorem declares_reordered_light :
    let light : Variable := { name := "uLight", type := .vec3, qualifier := .uniform }
    let requests : List Request := [.begin "sun", .declare "sun" light, .begin "moon"]
    let lit (id : String) : AttachedFragment :=
      Fragment.attach ⟨id, .preLighting, [.declare ⟨light, none⟩], [], [], []⟩
    let core : CoreShader := ⟨.vertex, "core", [], fun _ => []⟩
    ((Registry.empty .vertex).run requests).Accepts "moon" light ∧
      (∃ e, Registry.AskedAgain .vertex
        ((Registry.empty .vertex).run (requests ++ [.declare "moon" light])) "moon" light light e) ∧
      (∀ f ∈ [lit "sun", lit "moon"], (draftNames f.fragment.declarations).Nodup) ∧
      (core.CanDeclare [lit "sun", lit "moon"] ↔ core.CanDeclare [lit "moon", lit "sun"]) := by
  intro light requests lit core
  have accepted : ((Registry.empty .vertex).run requests).Accepts "moon" light := ⟨light, rfl⟩
  have once : ∀ f ∈ [lit "sun", lit "moon"], (draftNames f.fragment.declarations).Nodup := by
    decide
  obtain ⟨again, reordered⟩ := declares_reordered core
  exact ⟨accepted, again requests [] "moon" light light accepted rfl, once,
    reordered [lit "sun", lit "moon"] [lit "moon", lit "sun"] (.swap ..) once⟩

/-- After another owner, one declares a name twice without being refused; before it, it is refused,
and the stage with it. -/
theorem declares_twice_after_another :
    let light : Variable := { name := "uLight", type := .vec3, qualifier := .uniform }
    let lit (id : String) (declarations : List DeclareStep) : AttachedFragment :=
      Fragment.attach ⟨id, .preLighting, declarations, [], [], []⟩
    let once := lit "sun" [.declare ⟨light, none⟩]
    let twice := lit "moon" [.declare ⟨light, none⟩, .declare ⟨light, none⟩]
    let core : CoreShader := ⟨.vertex, "core", [], fun _ => []⟩
    let requests : List Request :=
      [.begin "core", .begin "sun", .declare "sun" light, .begin "moon"]
    ((Registry.empty .vertex).run requests).Accepts "moon" light ∧
      ((Registry.empty .vertex).run (requests ++ [.declare "moon" light])).Accepts "moon" light ∧
      core.CanDeclare [once, twice] ∧ ¬ core.CanDeclare [twice, once] := by
  intro light lit once twice core requests
  refine ⟨⟨light, rfl⟩, ⟨light, rfl⟩, ⟨_, _, _, rfl, rfl⟩, ?_⟩
  rintro ⟨own, last, kept, first, rest⟩
  cases first
  cases rest

end CoreShader

end ShaderComposer
