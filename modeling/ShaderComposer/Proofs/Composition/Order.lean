import ShaderComposer.Proofs.Composition.Origins
import ShaderComposer.Proofs.Script.Alike

/-!
# The order of fragments

Fragments declare in the order of their effects, so another order registers shared variables for
other owners and puts declaration lines elsewhere. It does not reach `main()`: whoever comes first,
a name stands for a variable of the same shape (`Registry.MadeOf.alike`), each fragment is
given back what it asked for up to initial values and precisions (`Registry.DeclaresAll.remembers`),
and scripts see no more of a variable than that. Since pieces are recorded slot by slot, automatic
names go by the slots and not by the list. So any order that keeps the fragments of each location in
order gives the same `main()`, segments and contributions (`CoreShader.main_of_reordered`).
-/

namespace ShaderComposer

/-! ### What declarations give back -/

namespace DeclareStep

def draft? : DeclareStep → Option Variable
  | declare draft => some draft.var
  | directive _ | precision .. | helper _ => none

end DeclareStep

def drafts (steps : List DeclareStep) : List Variable := steps.filterMap DeclareStep.draft?

namespace Declaring

theorem lookAlike_step {owner : String} {d next : Declaring} {step : DeclareStep}
    (ok : d.step owner step = .ok next) :
    ∃ given, next.declared = d.declared ++ given ∧ LookAlike given step.draft?.toList := by
  cases step with
  | declare draft =>
    simp only [Declaring.step] at ok
    split at ok
    · next v registry declared =>
      cases ok
      obtain ⟨_, _, shape, _⟩ := Registry.grows_declare declared
      rw [VariableDraft.sameShape_build] at shape
      exact ⟨[v], rfl, .cons (Variable.looksLike_of_sameShape shape) .nil⟩
    · cases ok
  | directive line =>
    cases ok
    exact ⟨[], (List.append_nil _).symm, .nil⟩
  | precision ty p =>
    cases ok
    exact ⟨[], (List.append_nil _).symm, .nil⟩
  | helper f =>
    simp only [Declaring.step] at ok
    split at ok
    · cases ok
      exact ⟨[], (List.append_nil _).symm, .nil⟩
    · cases ok

theorem lookAlike_run {owner : String} : ∀ {steps : List DeclareStep} {d last : Declaring},
    run owner steps d = (last, none) →
      ∃ given, last.declared = d.declared ++ given ∧ LookAlike given (drafts steps)
  | [], d, last, ran => by
    cases ran
    exact ⟨[], (List.append_nil _).symm, .nil⟩
  | s :: rest, d, last, ran => by
    rw [run] at ran
    split at ran
    · next next first =>
      obtain ⟨given, here, same⟩ := lookAlike_step first
      obtain ⟨others, there, again⟩ := lookAlike_run ran
      refine ⟨given ++ others, by rw [there, here, List.append_assoc], ?_⟩
      have split : drafts (s :: rest) = s.draft?.toList ++ drafts rest := by
        unfold drafts
        cases drafted : s.draft? <;> simp [drafted]
      rw [split]
      exact List.rel_append same again
    · cases ran

end Declaring

namespace Registry

theorem lookAlike_declareAll {r : Registry} {owner : String} {steps : List DeclareStep}
    {d : Declaring} (ok : r.declareAll owner steps = .ok d) :
    LookAlike d.declared (drafts steps) := by
  unfold declareAll at ok
  split at ok
  · cases ok
  · split at ok
    · next last ran =>
      cases ok
      obtain ⟨given, declared, same⟩ := Declaring.lookAlike_run ran
      rw [declared]
      exact same
    · cases ok

theorem DeclaresAll.remembers {r last : Registry} {fragments : List Fragment}
    {kept : List AttachedFragment} (declares : r.DeclaresAll fragments kept last) :
    ∀ f ∈ kept, ∃ vars, f.remembered = some vars ∧
      LookAlike vars (drafts f.fragment.declarations) := by
  induction declares with
  | nil r => simp
  | cons first _ ih =>
    intro g mem
    rcases List.mem_cons.mp mem with rfl | mem
    · exact ⟨_, rfl, lookAlike_declareAll first⟩
    · exact ih g mem

/-! ### What names stand for -/

variable {r s : Registry}

theorem get?_of_mem (distinct : (r.vars.map (·.name)).Nodup) {v : Variable} (mem : v ∈ r.vars) :
    r.get? v.name = some v := by
  obtain ⟨e, entry, rfl⟩ := List.mem_map.mp mem
  rw [vars, List.map_map] at distinct
  have found : r.entry? e.var.name = some e := by
    unfold entry?
    obtain ⟨before, after, split⟩ := List.append_of_mem entry
    rw [split, List.map_append, List.map_cons] at distinct
    have apart := (List.nodup_append.mp distinct).2.2
    refine List.find?_eq_some_iff_append.mpr ⟨beq_self_eq_true _, before, after, split, ?_⟩
    intro other earlier
    have different := apart _ (List.mem_map_of_mem earlier) _ List.mem_cons_self
    simpa using different
  rw [get?, found]
  rfl

theorem mem_of_get? {name : String} {v : Variable} (found : r.get? name = some v) :
    v ∈ r.vars ∧ v.name = name := by
  obtain ⟨e, entry, rfl⟩ := Option.map_eq_some_iff.mp found
  exact ⟨List.mem_map_of_mem (List.mem_of_find?_eq_some entry), by simpa using List.find?_some entry⟩

/-- A name of one registry stands for a variable of the same shape in another that has all that the
first is made of. -/
theorem MadeOf.sameShape_get? {good : Variable → Prop} {steps : List DeclareStep}
    (made : r.MadeOf good steps) (has : ∀ step ∈ steps, s.Has step)
    (distinct : (s.vars.map (·.name)).Nodup) {name : String} {v : Variable}
    (found : r.get? name = some v) : ∃ w, s.get? name = some w ∧ v.sameShape w = true := by
  obtain ⟨mem, rfl⟩ := mem_of_get? found
  obtain ⟨draft, step, shape⟩ := made.vars v mem
  obtain ⟨w, known, same, _⟩ := has _ step
  have alike := Variable.sameShape_trans shape (Variable.sameShape_symm same)
  refine ⟨w, ?_, alike⟩
  rw [(Variable.sameShape_iff.mp alike).1]
  exact get?_of_mem distinct known

/-- Names stand for variables of the same shapes in both registries. -/
def Alike (r s : Registry) : Prop :=
  ∀ name, Option.Rel (fun v w => v.sameShape w = true) (r.get? name) (s.get? name)

theorem MadeOf.alike {good good' : Variable → Prop} {steps steps' : List DeclareStep}
    (made : r.MadeOf good steps) (made' : s.MadeOf good' steps') (has : ∀ step ∈ steps', r.Has step)
    (has' : ∀ step ∈ steps, s.Has step) : r.Alike s := by
  intro name
  cases here : r.get? name with
  | some v =>
    obtain ⟨w, there, same⟩ := made.sameShape_get? has' made'.distinct here
    rw [there]
    exact .some same
  | none =>
    cases there : s.get? name with
    | none => exact .none
    | some w =>
      obtain ⟨v, known, _⟩ := made'.sameShape_get? has made.distinct there
      rw [here] at known
      cases known

theorem roleVariable?_of_get? {role : Role}
    (same : Option.Rel (fun v w => v.sameShape w = true) (r.get? role.name) (s.get? role.name)) :
    (r.roleVariable? role).map Variable.reference =
      (s.roleVariable? role).map Variable.reference := by
  unfold Registry.roleVariable?
  generalize r.get? role.name = v at same ⊢
  generalize s.get? role.name = w at same ⊢
  cases same with
  | none => rfl
  | some same =>
    obtain ⟨_, type, qualifier, _⟩ := Variable.sameShape_iff.mp same
    simp only [Option.filter_some, type, qualifier]
    split
    · exact congrArg some (Variable.looksLike_of_sameShape same).reference_eq
    · rfl

theorem Alike.roleVariable? (alike : r.Alike s) (role : Role) :
    (r.roleVariable? role).map Variable.reference =
      (s.roleVariable? role).map Variable.reference :=
  roleVariable?_of_get? (alike role.name)

end Registry

/-- A table of the keys that have a value is looked up as the values are. -/
theorem lookup_filterMap {κ α : Type} [DecidableEq κ] (value : κ → Option α) (keys : List κ) (k : κ) :
    (keys.filterMap fun k => (value k).map fun a => (k, a)).lookup k =
      if k ∈ keys then value k else none := by
  induction keys with
  | nil => rfl
  | cons first keys ih =>
    by_cases here : k = first
    · subst here
      cases found : value k with
      | none =>
        rw [List.filterMap_cons_none (by rw [found]; rfl), ih, found]
        split <;> simp
      | some a =>
        rw [List.filterMap_cons_some (by rw [found]; rfl), List.lookup_cons_self,
          if_pos List.mem_cons_self]
    · have rest : k ∈ first :: keys ↔ k ∈ keys := by simp [here]
      simp only [rest]
      cases found : value first with
      | none => rw [List.filterMap_cons_none (by rw [found]; rfl), ih]
      | some a =>
        rw [List.filterMap_cons_some (by rw [found]; rfl), List.lookup_cons,
          beq_eq_false_iff_ne.mpr here]
        exact ih

theorem Registry.get?_symbols (r : Registry) (attached : List String) (role : Role) :
    (r.symbols attached).get? role = r.roleVariable? role :=
  (lookup_filterMap r.roleVariable? Role.all role).trans (if_pos role.mem_all)

theorem Registry.Alike.refl (r : Registry) : r.Alike r := by
  intro name
  cases r.get? name with
  | none => exact .none
  | some v => exact .some v.sameShape_refl

theorem Registry.Alike.scene {r s : Registry} (alike : r.Alike s) (stage : r.stage = s.stage)
    (attached : List String) {declared declared' : Option (List Variable)}
    (same : Option.Rel LookAlike declared declared') (roles : List Role) (ids : List String) :
    Instruction.Scene.Alike roles ids ⟨r.symbols attached, declared⟩
      ⟨s.symbols attached, declared'⟩ :=
  ⟨stage, fun role _ => by rw [r.get?_symbols, s.get?_symbols, alike.roleVariable? role],
    fun _ _ => rfl, same⟩

/-! ### Pieces in turn -/

/-- The pieces differ in nothing but initial values and precisions of declared variables. -/
structure Piece.Alike (p q : Piece) : Prop where
  owner : p.owner = q.owner
  slot : p.slot = q.slot
  script : p.script = q.script
  declared : Option.Rel LookAlike p.declared q.declared

theorem Piece.Alike.refl (p : Piece) : p.Alike p := by
  refine ⟨rfl, rfl, rfl, ?_⟩
  cases p.declared with
  | none => exact .none
  | some vars => exact .some (.refl vars)

section Emitting

variable {r s : Registry} (alike : r.Alike s) (same : r.stage = s.stage) {attached : List String}
  {stage : Stage} {strict : Bool}

include alike same in
theorem Piece.Alike.emits_unique {p q : Piece} (pieces : p.Alike q) {n k k' : Nat}
    {statements statements' : List Stmt}
    (here : p.Emits stage strict (r.symbols attached) n statements k)
    (there : q.Emits stage strict (s.symbols attached) n statements' k') :
    statements = statements' ∧ k = k' := by
  obtain ⟨last, ran, segment, temps⟩ := here
  obtain ⟨last', ran', segment', temps'⟩ := there
  have scenes := alike.scene same attached pieces.declared
    (Instruction.rolesAll p.script) (Instruction.idsAll p.script)
  rw [Instruction.runAll_alike p.script scenes, pieces.script, pieces.owner, ran'] at ran
  cases ran
  rw [segment'] at segment
  exact ⟨(Except.ok.inj segment).symm, temps.symm.trans temps'⟩

include alike same in
theorem Piece.EmitInTurn.unique {n : Nat} {pieces : List (Piece × List Stmt)}
    (here : EmitInTurn stage strict (r.symbols attached) n pieces) :
    ∀ {pieces' : List (Piece × List Stmt)},
      EmitInTurn stage strict (s.symbols attached) n pieces' →
      List.Forall₂ Piece.Alike (pieces.map Prod.fst) (pieces'.map Prod.fst) →
      List.Forall₂ (fun p q => p.1.Alike q.1 ∧ p.2 = q.2) pieces pieces' := by
  induction here with
  | nil n =>
    intro pieces' _ same
    cases pieces' with
    | nil => exact .nil
    | cons q rest => cases same
  | cons first _ ih =>
    intro pieces' there looks
    cases there with
    | nil => cases looks
    | cons first' others' =>
      obtain ⟨pieceAlike, others⟩ := List.forall₂_cons.mp looks
      obtain ⟨statements, names⟩ := pieceAlike.emits_unique alike same first first'
      subst names
      exact .cons ⟨pieceAlike, statements⟩ (ih others' others)

end Emitting

/-! ### Another order -/

/-- The second list has the fragments of the first, those of each location in the same order among
themselves. -/
def KeepsOrder (fragments others : List Fragment) : Prop :=
  ∀ location, fragments.filter (fun f => f.location = location) =
    others.filter fun f => f.location = location

theorem KeepsOrder.perm {fragments others : List Fragment} (keeps : KeepsOrder fragments others) :
    fragments.Perm others := by
  have whole (list : List Fragment) :
      (InsertLocation.all.flatMap fun location => list.filter fun f => f.location = location).Perm
        list := by
    have all : (list.filter fun f => f.location ∈ InsertLocation.all) = list := by
      refine List.filter_eq_self.mpr fun f _ => ?_
      cases f.location <;> decide
    have classes := perm_flatMap_filter Fragment.location list
      (by decide : InsertLocation.all.Nodup)
    rwa [all] at classes
  have same : (InsertLocation.all.flatMap fun location =>
      fragments.filter fun f => f.location = location) = InsertLocation.all.flatMap fun location =>
        others.filter fun f => f.location = location :=
    List.flatMap_congr fun location _ => keeps location
  exact (whole fragments).symm.trans (same ▸ whole others)

theorem KeepsOrder.steps_subset {fragments others : List Fragment} (core : CoreShader)
    (keeps : KeepsOrder fragments others) : core.steps others ⊆ core.steps fragments := by
  intro step mem
  rcases List.mem_append.mp mem with mem | mem
  · exact List.mem_append_left _ mem
  · obtain ⟨f, known, inside⟩ := List.mem_flatMap.mp mem
    exact List.mem_append_right _ (List.mem_flatMap.mpr ⟨f, keeps.perm.mem_iff.mpr known, inside⟩)

/-- The fragment keeps variables that look like those it asked for. -/
def AttachedFragment.Remembers (f : AttachedFragment) : Prop :=
  ∃ vars, f.remembered = some vars ∧ LookAlike vars (drafts f.fragment.declarations)

theorem alike_bucket {location : InsertLocation} : ∀ {kept kept' : List AttachedFragment},
    (∀ f ∈ kept, f.Remembers) → (∀ f ∈ kept', f.Remembers) →
    kept.map (·.fragment) = kept'.map (·.fragment) →
    List.Forall₂ Piece.Alike
      (kept.map fun f => ⟨f.fragment.id, .bucket location, f.fragment.main, f.remembered⟩)
      (kept'.map fun f => ⟨f.fragment.id, .bucket location, f.fragment.main, f.remembered⟩)
  | [], [], _, _, _ => .nil
  | [], _ :: _, _, _, same => by cases same
  | _ :: _, [], _, _, same => by cases same
  | f :: rest, g :: others, here, there, same => by
    obtain ⟨equal, same⟩ := List.cons.inj same
    dsimp only at equal
    obtain ⟨vars, kept, shapes⟩ := here f List.mem_cons_self
    obtain ⟨vars', kept', shapes'⟩ := there g List.mem_cons_self
    have declared : Option.Rel LookAlike f.remembered g.remembered := by
      rw [equal] at shapes
      rw [kept, kept']
      exact .some (shapes.trans shapes'.symm)
    exact .cons ⟨congrArg Fragment.id equal, rfl, congrArg Fragment.main equal, declared⟩
      (alike_bucket (fun f mem => here f (List.mem_cons_of_mem _ mem))
        (fun f mem => there f (List.mem_cons_of_mem _ mem)) same)

theorem alike_slots {core : CoreShader} {own : List Variable} {kept kept' : List AttachedFragment}
    (here : ∀ f ∈ kept, f.Remembers) (there : ∀ f ∈ kept', f.Remembers) {slots : List Slot}
    (keeps : ∀ location, .bucket location ∈ slots →
      (kept.map (·.fragment)).filter (fun f => f.location = location) =
        (kept'.map (·.fragment)).filter fun f => f.location = location) :
    List.Forall₂ Piece.Alike (slots.flatMap (Slot.pieces core own kept))
      (slots.flatMap (Slot.pieces core own kept')) := by
  induction slots with
  | nil => exact .nil
  | cons slot slots ih =>
    refine List.rel_append ?_ (ih fun location mem => keeps location (List.mem_cons_of_mem _ mem))
    cases slot with
    | core phase => exact .cons ⟨rfl, rfl, rfl, .some (.refl own)⟩ .nil
    | bucket location =>
      have order := keeps location List.mem_cons_self
      rw [List.filter_map, List.filter_map] at order
      exact alike_bucket (fun f mem => here f (List.mem_filter.mp mem).1)
        (fun f mem => there f (List.mem_filter.mp mem).1) order

theorem alike_pieces {core : CoreShader} {own : List Variable} {kept kept' : List AttachedFragment}
    (here : ∀ f ∈ kept, f.Remembers) (there : ∀ f ∈ kept', f.Remembers)
    (keeps : KeepsOrder (kept.map (·.fragment)) (kept'.map (·.fragment))) (slots : List Slot) :
    List.Forall₂ Piece.Alike (slots.flatMap (Slot.pieces core own kept))
      (slots.flatMap (Slot.pieces core own kept')) :=
  alike_slots here there fun location _ => keeps location

def Layout.main (l : Layout) : String := Stmt.renderBlock 1 (l.pieces.flatMap Prod.snd)

section Recorded

variable {pieces pieces' : List (Piece × List Stmt)}
  (same : List.Forall₂ (fun p q => p.1.Alike q.1 ∧ p.2 = q.2) pieces pieces')

include same in
theorem statements_alike : pieces.flatMap Prod.snd = pieces'.flatMap Prod.snd := by
  induction same with
  | nil => rfl
  | cons first _ ih => rw [List.flatMap_cons, List.flatMap_cons, first.2, ih]

include same in
theorem segments_alike : pieces.map Assembly.segment = pieces'.map Assembly.segment := by
  induction same with
  | nil => rfl
  | cons first _ ih =>
    obtain ⟨looks, statements⟩ := first
    rw [List.map_cons, List.map_cons, ih, Assembly.segment, Assembly.segment, looks.owner,
      looks.slot, statements]

include same in
theorem contributions_alike (stage : Stage) :
    splicedContributions stage pieces = splicedContributions stage pieces' := by
  unfold splicedContributions
  induction same with
  | nil => rfl
  | @cons p q _ _ first _ ih =>
    obtain ⟨looks, statements⟩ := first
    have one : p.1.contribution stage p.2 = q.1.contribution stage q.2 := by
      rw [Piece.contribution, Piece.contribution, looks.owner, looks.slot, statements]
    rw [List.filterMap_cons, List.filterMap_cons, one, ih]

end Recorded

namespace CoreShader

variable {core : CoreShader} {attached : List String} {strict : Bool} {c c' : StageComposition}

/-- Fragments in another order, those of each location in the same order among themselves. The
`main()` is the same to the letter, and so are segments and contributions. -/
theorem main_of_reordered {fragments others : List AttachedFragment}
    (keeps : KeepsOrder (fragments.map (·.fragment)) (others.map (·.fragment)))
    (ok : (core.compose fragments attached strict).1 = .ok c)
    (ok' : (core.compose others attached strict).1 = .ok c') :
    (∃ l l' : Layout, l.Describes core (fragments.map (·.fragment)) attached strict c ∧
      l'.Describes core (others.map (·.fragment)) attached strict c' ∧ l.main = l'.main) ∧
      c.segments = c'.segments ∧ c.contributions = c'.contributions := by
  obtain ⟨l, describes⟩ := describes_of_compose ok
  obtain ⟨l', describes'⟩ := describes_of_compose ok'
  -- the core comes first in both orders, so it declares alike
  have own : l.own = l'.own := by
    have both := describes.coreDeclares
    rw [describes'.coreDeclares] at both
    exact (Except.ok.inj both).symm
  have trivially (steps : List DeclareStep) : Builds (fun _ => True) steps :=
    fun _ _ _ _ => trivial
  have made := (describes.declares.madeOf (trivially _)).1
  have made' := (describes'.declares.madeOf (trivially _)).1
  have alike : l.registry.Alike l'.registry :=
    made.alike made' (fun step mem => describes.declares.has (keeps.steps_subset core mem))
      fun step mem =>
        describes'.declares.has (KeepsOrder.steps_subset core (fun k => (keeps k).symm) mem)
  have stage := describes.declares.stage_eq.trans describes'.declares.stage_eq.symm
  have looks : List.Forall₂ Piece.Alike (l.pieces.map Prod.fst) (l'.pieces.map Prod.fst) := by
    rw [describes.order, describes'.order, own]
    refine alike_pieces describes.fragmentsDeclare.remembers
      describes'.fragmentsDeclare.remembers ?_ _
    rw [describes.fragmentsDeclare.fragments, describes'.fragmentsDeclare.fragments]
    exact keeps
  have recorded := describes.emitted.unique alike stage describes'.emitted looks
  refine ⟨⟨l, l', describes, describes', ?_⟩, ?_, ?_⟩
  · rw [Layout.main, Layout.main, statements_alike recorded]
  · rw [describes.segments, describes'.segments, segments_alike recorded]
  · rw [describes.contributions, describes'.contributions, contributions_alike recorded,
      ignoredContributions, ignoredContributions, keeps .ignore]

/-- A fragment that shares a uniform with another and makes an automatic local from it. -/
def scaledLate : Fragment where
  id := "SCALED_LATE"
  location := .postTransform
  declarations := [.uniform .float "uOffset", .uniform .float "uScale"]
  main := [.call (.temp .float (.declared 1))]

/-- Two fragments in both orders. The shared uniform is declared first by one and then by the
other, and the automatic locals go by the slots both times. -/
theorem main_of_reordered_scaled :
    ∃ c c', ((CoreVertex.shader {} .medium).compose [scaledLate.attach, twoLocals.attach] []
        true).1 = .ok c ∧
      ((CoreVertex.shader {} .medium).compose [twoLocals.attach, scaledLate.attach] []
        true).1 = .ok c' ∧
      KeepsOrder [scaledLate, twoLocals] [twoLocals, scaledLate] ∧ c.source ≠ c'.source ∧
      c.segments = c'.segments := by
  have keeps : KeepsOrder ([scaledLate.attach, twoLocals.attach].map (·.fragment))
      ([twoLocals.attach, scaledLate.attach].map (·.fragment)) := by
    intro location
    cases location <;> rfl
  have apart : ((CoreVertex.shader {} .medium).compose [scaledLate.attach, twoLocals.attach] []
      true).1.toOption.map StageComposition.source ≠
        ((CoreVertex.shader {} .medium).compose [twoLocals.attach, scaledLate.attach] []
          true).1.toOption.map StageComposition.source := by
    decide +kernel
  have made : ((CoreVertex.shader {} .medium).compose [scaledLate.attach, twoLocals.attach] []
      true).1.toOption.isSome ∧
        ((CoreVertex.shader {} .medium).compose [twoLocals.attach, scaledLate.attach] []
          true).1.toOption.isSome := by
    decide +kernel
  cases here : ((CoreVertex.shader {} .medium).compose [scaledLate.attach, twoLocals.attach] []
      true).1 with
  | error e =>
    rw [here] at made
    cases made.1
  | ok c =>
    cases there : ((CoreVertex.shader {} .medium).compose [twoLocals.attach, scaledLate.attach] []
        true).1 with
    | error e =>
      rw [there] at made
      cases made.2
    | ok c' =>
      rw [here, there] at apart
      exact ⟨c, c', rfl, rfl, keeps, fun same => apart (congrArg some same),
        (main_of_reordered keeps here there).2.1⟩

end CoreShader

end ShaderComposer
