import Mathlib.Data.List.Nodup
import Mathlib.Data.List.Perm.Basic
import ShaderComposer.Core.Vertex
import ShaderComposer.Effect.Fog
import ShaderComposer.Effect.SpriteSheet
import ShaderComposer.Proofs.Glsl.Characters
import ShaderComposer.Proofs.Script.Runs

/-!
# The layout of a composed stage

How a stage that composed came about: all of its owners declared, the core first; the pieces of
`main()` stand slot by slot, the core's phase or the fragments of the location in order; each piece
is what its script emits by itself, with automatic names going on where the piece before stopped;
and segments and contributions list these pieces (`CoreShader.layout_of_compose`).

What fragments remember from earlier compositions has no part in this: each declares again before
its `main()` runs (`CoreShader.compose_congr`).
-/

namespace ShaderComposer

/-! ### Declaring in order -/

namespace Registry

/-- The fragments declare one after another. Each keeps the variables it is given back. -/
inductive DeclaresAll : Registry → List Fragment → List AttachedFragment → Registry → Prop
  | nil (r : Registry) : DeclaresAll r [] [] r
  | cons {r last : Registry} {f : Fragment} {rest : List Fragment} {kept : List AttachedFragment}
    {d : Declaring} (first : r.declareAll f.id f.declarations = .ok d)
    (others : DeclaresAll d.registry rest kept last) :
    DeclaresAll r (f :: rest) (⟨f, some d.declared⟩ :: kept) last

theorem declaresAll_of_declareAttached : ∀ {fragments kept : List AttachedFragment}
    {r last : Registry}, r.declareAttached fragments = (.ok last, kept) →
      DeclaresAll r (fragments.map (·.fragment)) kept last
  | [], kept, r, last, ok => by
    cases ok
    exact .nil r
  | f :: rest, kept, r, last, ok => by
    rw [declareAttached] at ok
    cases first : r.declareAll f.fragment.id f.fragment.declarations with
    | error e =>
      rw [first] at ok
      cases ok
    | ok d =>
      rw [first] at ok
      cases others : d.registry.declareAttached rest with
      | mk result others' =>
        simp only [others, Prod.mk.injEq] at ok
        obtain ⟨rfl, rfl⟩ := ok
        exact .cons first (declaresAll_of_declareAttached others)

/-- Declaring goes by the fragments, not by what they remember. -/
theorem declareAttached_congr : ∀ {fragments others : List AttachedFragment} (r : Registry),
    fragments.map (·.fragment) = others.map (·.fragment) →
      (∃ last kept, r.declareAttached fragments = (.ok last, kept) ∧
        r.declareAttached others = (.ok last, kept)) ∨
      ∃ e kept kept', r.declareAttached fragments = (.error e, kept) ∧
        r.declareAttached others = (.error e, kept')
  | [], [], r, _ => Or.inl ⟨r, [], rfl, rfl⟩
  | [], _ :: _, _, same => by cases same
  | _ :: _, [], _, same => by cases same
  | f :: rest, g :: others, r, same => by
    obtain ⟨equal, same⟩ := List.cons.inj same
    dsimp only at equal
    simp only [declareAttached, ← equal]
    cases r.declareAll f.fragment.id f.fragment.declarations with
    | error e => exact Or.inr ⟨e, _, _, rfl, rfl⟩
    | ok d =>
      rcases declareAttached_congr d.registry same with ⟨last, kept, here, there⟩ |
        ⟨e, kept, kept', here, there⟩
      · exact Or.inl ⟨last, ⟨f.fragment, some d.declared⟩ :: kept, by simp only [here],
          by simp only [there]⟩
      · exact Or.inr ⟨e, ⟨f.fragment, some d.declared⟩ :: kept,
          ⟨f.fragment, some d.declared⟩ :: kept', by simp only [here], by simp only [there]⟩

theorem declareAttached_map {change : AttachedFragment → AttachedFragment}
    (ids : ∀ f, (change f).fragment.id = f.fragment.id)
    (declarations : ∀ f, (change f).fragment.declarations = f.fragment.declarations)
    (remember : ∀ f vars, { change f with remembered := vars } = change { f with remembered := vars })
    (r : Registry) (fragments : List AttachedFragment) :
    r.declareAttached (fragments.map change) =
      ((r.declareAttached fragments).1, (r.declareAttached fragments).2.map change) := by
  induction fragments generalizing r with
  | nil => rfl
  | cons f rest ih =>
    rw [List.map_cons, declareAttached, declareAttached, ids, declarations]
    cases r.declareAll f.fragment.id f.fragment.declarations with
    | error e => rfl
    | ok d =>
      dsimp only
      rw [ih, remember]
      rfl

end Registry

/-! ### Pieces -/

/-- The pieces of a slot: the core's phase, or the fragments with the location in order. -/
def Slot.pieces (core : CoreShader) (own : List Variable) (fragments : List AttachedFragment) :
    Slot → List Piece
  | .core phase => [⟨core.id, .core phase, core.phase phase, some own⟩]
  | .bucket location =>
    (fragments.filter fun f => f.fragment.location = location).map fun f =>
      ⟨f.fragment.id, .bucket location, f.fragment.main, f.remembered⟩

/-- The script of the piece, run by itself on a new body with automatic names from `n` on, emits
these statements and leaves the names at `k`. -/
def Piece.Emits (stage : Stage) (strict : Bool) (symbols : Symbols) (p : Piece) (n : Nat)
    (statements : List Stmt) (k : Nat) : Prop :=
  ∃ r, Instruction.runAll ⟨symbols, p.declared⟩ p.script
      ⟨{ Body.empty stage strict with owner := p.owner, temps := n }, []⟩ = .ok r ∧
    r.body.segment = .ok statements ∧ r.body.temps = k

/-- Each piece emits its statements; its automatic names go on where the piece before stopped. -/
inductive Piece.EmitInTurn (stage : Stage) (strict : Bool) (symbols : Symbols) :
    Nat → List (Piece × List Stmt) → Prop
  | nil (n : Nat) : EmitInTurn stage strict symbols n []
  | cons {n k : Nat} {p : Piece} {statements : List Stmt} {rest : List (Piece × List Stmt)}
    (first : p.Emits stage strict symbols n statements k)
    (others : EmitInTurn stage strict symbols k rest) :
    EmitInTurn stage strict symbols n ((p, statements) :: rest)

/-- The body is new but for its owner and the number of the next automatic name. -/
def Body.IsNew (stage : Stage) (strict : Bool) (n : Nat) (b : Body) : Prop :=
  ∃ owner, b = { Body.empty stage strict with owner := owner, temps := n }

theorem Body.isNew_nextSegment {start b : Body} (same : start.SameKind b) :
    b.nextSegment.IsNew start.stage start.strict b.temps := by
  obtain ⟨sameStage, sameStrict⟩ := same
  refine ⟨b.owner, ?_⟩
  simp only [nextSegment, empty, mk.injEq]
  exact ⟨sameStage, sameStrict, trivial, trivial, trivial, trivial, trivial⟩

section Recording

variable {stage : Stage} {strict : Bool} {symbols : Symbols}

/-- What is recorded on a body that is as good as new is what the script emits by itself. -/
theorem Piece.emits_of_record {p : Piece} {b next : Body} {statements : List Stmt} {n : Nat}
    (new : b.IsNew stage strict n) (ok : p.record symbols b = .ok (statements, next)) :
    p.Emits stage strict symbols n statements next.temps ∧ next.IsNew stage strict next.temps := by
  obtain ⟨owner, rfl⟩ := new
  unfold record at ok
  dsimp only at ok
  split at ok
  · cases ok
  · next r ran =>
    split at ok
    · cases ok
    · next recorded segment =>
      cases ok
      exact ⟨⟨r, ran, segment, rfl⟩, Body.isNew_nextSegment (Instruction.sameKind_runAll ran)⟩

namespace Assembly

def recordAll (stage : Stage) (symbols : Symbols) :
    List Piece → Assembly → Except ShaderError Assembly
  | [], a => .ok a
  | p :: rest, a =>
    match a.record stage symbols p with
    | .error e => .error e
    | .ok next => recordAll stage symbols rest next

theorem recordAll_append (stage : Stage) (symbols : Symbols) (first second : List Piece)
    (a : Assembly) :
    recordAll stage symbols (first ++ second) a =
      (recordAll stage symbols first a).bind (recordAll stage symbols second) := by
  induction first generalizing a with
  | nil => rfl
  | cons p first ih =>
    simp only [List.cons_append, recordAll]
    cases a.record stage symbols p with
    | error e => rfl
    | ok next => exact ih next

theorem recordBucket_eq (core : CoreShader) (own : List Variable) (location : InsertLocation)
    (fragments : List AttachedFragment) (a : Assembly) :
    recordBucket stage symbols location fragments a =
      recordAll stage symbols ((Slot.bucket location).pieces core own fragments) a := by
  induction fragments generalizing a with
  | nil => rfl
  | cons f rest ih =>
    by_cases here : f.fragment.location = location
    · have pieces : (Slot.bucket location).pieces core own (f :: rest) =
          ⟨f.fragment.id, .bucket location, f.fragment.main, f.remembered⟩ ::
            (Slot.bucket location).pieces core own rest := by
        simp [Slot.pieces, here]
      rw [recordBucket, if_pos here, pieces, recordAll]
      cases a.record stage symbols ⟨f.fragment.id, .bucket location, f.fragment.main, f.remembered⟩ with
      | error e => rfl
      | ok next => exact ih next
    · have pieces : (Slot.bucket location).pieces core own (f :: rest) =
          (Slot.bucket location).pieces core own rest := by
        simp [Slot.pieces, here]
      rw [recordBucket, if_neg here, pieces]
      exact ih a

/-- Going over the slots, and over all fragments for each, records the pieces slot by slot. -/
theorem recordSlots_eq (core : CoreShader) (own : List Variable)
    (fragments : List AttachedFragment) (slots : List Slot) (a : Assembly) :
    recordSlots symbols core own fragments slots a =
      recordAll core.stage symbols (slots.flatMap (Slot.pieces core own fragments)) a := by
  induction slots generalizing a with
  | nil => rfl
  | cons slot rest ih =>
    rw [List.flatMap_cons, recordAll_append]
    cases slot with
    | core phase =>
      rw [recordSlots]
      simp only [Slot.pieces, recordAll]
      cases a.record core.stage symbols ⟨core.id, .core phase, core.phase phase, some own⟩ with
      | error e => rfl
      | ok next => exact ih next
    | bucket location =>
      rw [recordSlots, recordBucket_eq core own]
      cases recordAll core.stage symbols ((Slot.bucket location).pieces core own fragments) a with
      | error e => rfl
      | ok next => exact ih next

def segment (p : Piece × List Stmt) : Segment := ⟨p.1.owner, p.1.slot, Stmt.countAll p.2⟩

/-- The pieces were recorded after what the first assembly has. -/
structure Extends (stage : Stage) (a : Assembly) (recorded : List (Piece × List Stmt))
    (last : Assembly) : Prop where
  statements : last.statements = a.statements ++ recorded.flatMap (·.2)
  segments : last.segments = a.segments ++ recorded.map segment
  contributions : last.contributions =
    a.contributions ++ recorded.filterMap fun p => p.1.contribution stage p.2

theorem emitInTurn_of_recordAll : ∀ {pieces : List Piece} {a last : Assembly} {n : Nat},
    a.body.IsNew stage strict n → recordAll stage symbols pieces a = .ok last →
      ∃ recorded, recorded.map Prod.fst = pieces ∧
        Piece.EmitInTurn stage strict symbols n recorded ∧ a.Extends stage recorded last
  | [], a, last, n, new, ok => by
    cases ok
    exact ⟨[], rfl, .nil n, by simp, by simp, by simp⟩
  | p :: rest, a, last, n, new, ok => by
    rw [recordAll] at ok
    cases first : p.record symbols a.body with
    | error e => simp [record, first] at ok
    | ok made =>
      obtain ⟨statements, next⟩ := made
      simp only [record, first] at ok
      obtain ⟨emits, newAgain⟩ := p.emits_of_record new first
      obtain ⟨recorded, rfl, others, extend⟩ := emitInTurn_of_recordAll newAgain ok
      refine ⟨(p, statements) :: recorded, rfl, .cons emits others, ?_, ?_, ?_⟩
      · rw [extend.statements, List.flatMap_cons, List.append_assoc]
      · rw [extend.segments, List.map_cons, List.append_assoc]
        rfl
      · rw [extend.contributions, List.append_assoc, List.filterMap_cons]
        cases p.contribution stage statements <;> rfl

end Assembly

end Recording

/-! ### Declarations in the text -/

/-- The line stands in the text by itself, after another line. -/
def HasLine (text line : List Char) : Prop :=
  ∃ before after, text = before ++ '\n' :: (line ++ '\n' :: after)

theorem HasLine.append {text line : List Char} (has : HasLine text line) (first last : List Char) :
    HasLine (first ++ (text ++ last)) line := by
  obtain ⟨before, after, rfl⟩ := has
  exact ⟨first ++ before, after ++ last, by simp⟩

/-- What a step declares stands in the text. If a variable had been declared before, it stands
there as it was declared then, and so does a default precision. -/
def DeclareStep.ShownIn (text : List Char) : DeclareStep → Prop
  | declare draft =>
    ∃ v : Variable, v.sameShape draft.var = true ∧ HasLine text v.declaration.toList
  | directive line => HasLine text line.toList
  | precision ty _ => ∃ p, HasLine text (Registry.precisionLine (ty, p)).toList
  | helper f => HasLine text f.text.toList

namespace Registry

/-- The registry has what the step declares. -/
def Has (r : Registry) : DeclareStep → Prop
  | .declare draft => ∃ v ∈ r.vars, v.sameShape draft.var = true ∧ v.qualifier ∈ sections
  | .directive line => line ∈ r.directives
  | .precision ty _ => ∃ p, (ty, p) ∈ r.precisions
  | .helper f => f ∈ r.helpers

/-- Whatever was registered stays, and only the owner may have begun since. -/
structure Grows (r s : Registry) : Prop where
  stage : s.stage = r.stage
  entries : r.entries ⊆ s.entries
  directives : r.directives ⊆ s.directives
  precisions : r.precisions ⊆ s.precisions
  helpers : r.helpers ⊆ s.helpers
  owners : r.owners ⊆ s.owners

theorem Grows.refl (r : Registry) : r.Grows r :=
  ⟨rfl, List.Subset.refl _, List.Subset.refl _, List.Subset.refl _, List.Subset.refl _,
    List.Subset.refl _⟩

theorem Grows.trans {r s t : Registry} (first : r.Grows s) (second : s.Grows t) : r.Grows t :=
  ⟨second.stage.trans first.stage, List.Subset.trans first.entries second.entries,
    List.Subset.trans first.directives second.directives,
    List.Subset.trans first.precisions second.precisions,
    List.Subset.trans first.helpers second.helpers, List.Subset.trans first.owners second.owners⟩

theorem Has.grows {r s : Registry} {step : DeclareStep} (has : r.Has step) (grows : r.Grows s) :
    s.Has step := by
  cases step with
  | declare draft =>
    obtain ⟨v, mem, shape⟩ := has
    obtain ⟨e, entry, rfl⟩ := List.mem_map.mp mem
    exact ⟨e.var, List.mem_map_of_mem (grows.entries entry), shape⟩
  | directive line => exact grows.directives has
  | precision ty p =>
    obtain ⟨p, mem⟩ := has
    exact ⟨p, grows.precisions mem⟩
  | helper f => exact grows.helpers has

theorem grows_addDirective (r : Registry) (line : String) :
    r.Grows (r.addDirective line) ∧ line ∈ (r.addDirective line).directives := by
  unfold addDirective
  split
  · next known => exact ⟨.refl r, by simpa using known⟩
  · exact ⟨{ Grows.refl r with directives := List.subset_append_left _ _ }, by simp⟩

theorem grows_setPrecision (r : Registry) (ty : DataType) (p : Precision) :
    r.Grows (r.setPrecision ty p) ∧ ∃ q, (ty, q) ∈ (r.setPrecision ty p).precisions := by
  unfold setPrecision
  split
  · next known =>
    obtain ⟨⟨t, q⟩, mem, same⟩ := List.any_eq_true.mp known
    have same : t = ty := by simpa using same
    exact ⟨.refl r, q, same ▸ mem⟩
  · exact ⟨{ Grows.refl r with precisions := List.subset_append_left _ _ }, p, by simp⟩

theorem grows_addHelper {r next : Registry} {owner : String} {f : HelperFunction}
    (ok : r.addHelper owner f = .ok next) : r.Grows next ∧ f ∈ next.helpers := by
  unfold addHelper at ok
  split at ok
  · cases ok
    exact ⟨{ Grows.refl r with helpers := List.subset_append_left _ _ }, by simp⟩
  · next earlier found =>
    split at ok
    · next same =>
      cases ok
      exact ⟨.refl r, same ▸ List.mem_of_find?_eq_some found⟩
    · cases ok

theorem mem_sections_of_placed {r : Registry} {owner : String} {v : Variable}
    (placed : r.misplaced? owner v = none) : v.qualifier ∈ sections := by
  unfold misplaced? at placed
  split at placed
  · cases placed
  · cases placed
  · next notLocal _ =>
    cases qualifier : v.qualifier with
    | functionLocal => exact absurd qualifier notLocal
    | _ => decide

theorem grows_declare {r next : Registry} {owner : String} {v given : Variable}
    (ok : r.declare owner v = .ok (given, next)) :
    r.Grows next ∧ given ∈ next.vars ∧ given.sameShape v = true ∧ v.qualifier ∈ sections := by
  unfold declare at ok
  split at ok
  · cases ok
  · next placed =>
    split at ok
    · cases ok
      refine ⟨{ Grows.refl r with entries := List.subset_append_left _ _ }, ?_,
        v.sameShape_refl, mem_sections_of_placed placed⟩
      simp [vars]
    · next e found =>
      split at ok
      · cases ok
      · split at ok
        · next repeated =>
          cases ok
          exact ⟨.refl r, List.mem_map_of_mem (List.mem_of_find?_eq_some found),
            sameShape_of_repeats repeated, mem_sections_of_placed placed⟩
        · cases ok

end Registry

theorem Variable.eq_of_sameShape {v w : Variable} (same : v.sameShape w = true) :
    v.name = w.name ∧ v.type = w.type ∧ v.qualifier = w.qualifier := by
  simp only [sameShape, Bool.and_eq_true, beq_iff_eq] at same
  exact ⟨same.1.1.1, same.1.1.2, same.1.2⟩

theorem VariableDraft.sameShape_build {v : Variable} {env : Bindings} {d : VariableDraft} :
    v.sameShape (d.build env) = v.sameShape d.var := by
  unfold build
  split <;> rfl

namespace Declaring

theorem grows_step {owner : String} {d next : Declaring} {step : DeclareStep}
    (ok : d.step owner step = .ok next) :
    d.registry.Grows next.registry ∧ next.registry.Has step := by
  cases step with
  | declare draft =>
    simp only [Declaring.step] at ok
    split at ok
    · next v registry declared =>
      cases ok
      obtain ⟨grows, mem, shape, placed⟩ := Registry.grows_declare declared
      rw [← (Variable.eq_of_sameShape shape).2.2] at placed
      rw [VariableDraft.sameShape_build] at shape
      exact ⟨grows, v, mem, shape, placed⟩
    · cases ok
  | directive line =>
    cases ok
    exact d.registry.grows_addDirective line
  | precision ty p =>
    cases ok
    exact d.registry.grows_setPrecision ty p
  | helper f =>
    simp only [Declaring.step] at ok
    split at ok
    · next registry added =>
      cases ok
      exact Registry.grows_addHelper added
    · cases ok

theorem owners_step {owner : String} {d next : Declaring} {step : DeclareStep}
    (ok : d.step owner step = .ok next) : next.registry.owners = d.registry.owners := by
  cases step with
  | declare draft =>
    simp only [Declaring.step, Registry.declare] at ok
    grind
  | directive line =>
    cases ok
    simp only [Registry.addDirective]
    split <;> rfl
  | precision ty p =>
    cases ok
    simp only [Registry.setPrecision]
    split <;> rfl
  | helper f =>
    simp only [Declaring.step, Registry.addHelper] at ok
    grind

theorem grows_run {owner : String} : ∀ {steps : List DeclareStep} {d last : Declaring},
    run owner steps d = (last, none) →
      d.registry.Grows last.registry ∧ (∀ step ∈ steps, last.registry.Has step) ∧
        last.registry.owners = d.registry.owners
  | [], d, last, ran => by
    cases ran
    exact ⟨.refl _, by simp, rfl⟩
  | s :: rest, d, last, ran => by
    rw [run] at ran
    split at ran
    · next next first =>
      obtain ⟨grows, has⟩ := grows_step first
      obtain ⟨growsOn, all, owners⟩ := grows_run ran
      refine ⟨grows.trans growsOn, ?_, owners.trans (owners_step first)⟩
      intro step mem
      rcases List.mem_cons.mp mem with rfl | mem
      · exact has.grows growsOn
      · exact all step mem
    · cases ran

end Declaring

namespace Registry

theorem grows_declareAll {r : Registry} {owner : String} {steps : List DeclareStep} {d : Declaring}
    (ok : r.declareAll owner steps = .ok d) :
    r.Grows d.registry ∧ (∀ step ∈ steps, d.registry.Has step) ∧ owner ∉ r.owners ∧
      owner ∈ d.registry.owners := by
  unfold declareAll at ok
  split at ok
  · cases ok
  · next begun began =>
    split at ok
    · next last ran =>
      cases ok
      unfold begin? at began
      split at began
      · cases began
      · next new =>
        cases began
        obtain ⟨grows, has, owners⟩ := Declaring.grows_run ran
        have start : r.Grows { r with owners := r.owners ++ [owner] } :=
          { Grows.refl r with owners := List.subset_append_left _ _ }
        refine ⟨start.trans grows, has, by simpa [hasBegun] using new, ?_⟩
        rw [owners]
        simp
    · cases ok

/-- Every declaration of every fragment stays, and every fragment has another name. -/
theorem DeclaresAll.grows {r last : Registry} {fragments : List Fragment}
    {kept : List AttachedFragment} (declares : r.DeclaresAll fragments kept last) :
    r.Grows last ∧ (∀ f ∈ fragments, ∀ step ∈ f.declarations, last.Has step) ∧
      (∀ f ∈ fragments, f.id ∉ r.owners) ∧ (fragments.map (·.id)).Nodup := by
  induction declares with
  | nil r => exact ⟨.refl r, by simp, by simp, List.nodup_nil⟩
  | @cons r last f rest kept d first _ ih =>
    obtain ⟨grows, has, new, begun⟩ := grows_declareAll first
    obtain ⟨growsOn, others, apart, distinct⟩ := ih
    refine ⟨grows.trans growsOn, ?_, ?_, ?_⟩
    · intro g mem step stepMem
      rcases List.mem_cons.mp mem with rfl | mem
      · exact (has step stepMem).grows growsOn
      · exact others g mem step stepMem
    · intro g mem known
      rcases List.mem_cons.mp mem with rfl | mem
      · exact new known
      · exact apart g mem (grows.owners known)
    · refine List.nodup_cons.mpr ⟨?_, distinct⟩
      intro mem
      obtain ⟨g, gMem, same⟩ := List.mem_map.mp mem
      exact apart g gMem (same ▸ begun)

end Registry

/-! ### Lines of the source -/

namespace Registry

theorem hasLine_linesChars {texts : List (List Char)} {line : List Char} (mem : line ∈ texts) :
    HasLine ('\n' :: linesChars texts) line := by
  induction texts with
  | nil => cases mem
  | cons text rest ih =>
    rcases List.mem_cons.mp mem with rfl | mem
    · exact ⟨[], linesChars rest, by simp [linesChars]⟩
    · have later := (ih mem).append ('\n' :: text) []
      simpa [linesChars] using later

theorem hasLine_blockChars {texts : List (List Char)} {line : List Char} (mem : line ∈ texts) :
    HasLine (blockChars texts) line := by
  cases texts with
  | nil => cases mem
  | cons text rest => exact hasLine_linesChars mem

theorem HasLine.flatMap {α : Type} {f : α → List Char} {a : α} {as : List α} {line : List Char}
    (mem : a ∈ as) (has : HasLine (f a) line) : HasLine (as.flatMap f) line := by
  obtain ⟨before, after, rfl⟩ := List.append_of_mem mem
  simpa using has.append (before.flatMap f) (after.flatMap f)

/-- What the registry has stands in the text of the stage, whatever the body. -/
theorem Has.shownIn {r : Registry} {step : DeclareStep} (has : r.Has step) (body : List Char) :
    step.ShownIn (r.chars body) := by
  have heading {line : List Char} (mem : line ∈ r.directives.map String.toList ++
      r.precisions.map fun p => (precisionLine p).toList) : HasLine (r.chars body) line := by
    have lines := (hasLine_linesChars mem).append (header r.stage).toList []
    have all := lines.append [] (sections.flatMap (fun q =>
      blockChars ((r.withQualifier q).map Variable.chars)) ++ (r.helpers.flatMap (fun f =>
        blockChars [f.text.toList]) ++ ("\nvoid main() \x7b\n".toList ++ (body ++ ['\x7d', '\n']))))
    simpa [chars, linesChars] using all
  cases step with
  | directive line =>
    exact heading (List.mem_append_left _ (List.mem_map_of_mem has))
  | precision ty p =>
    obtain ⟨p, mem⟩ := has
    exact ⟨p, heading (List.mem_append_right _
      (List.mem_map_of_mem (f := fun p => (precisionLine p).toList) mem))⟩
  | declare draft =>
    obtain ⟨v, mem, shape, placed⟩ := has
    have listed : v.chars ∈ (r.withQualifier v.qualifier).map Variable.chars := by
      refine List.mem_map_of_mem (List.mem_filter.mpr ⟨mem, beq_self_eq_true _⟩)
    have lines := HasLine.flatMap (f := fun q => blockChars ((r.withQualifier q).map Variable.chars))
      placed (hasLine_blockChars listed)
    refine ⟨v, shape, ?_⟩
    rw [v.toList_declaration]
    exact lines.append _ _
  | helper f =>
    have lines := HasLine.flatMap (f := fun f : HelperFunction => blockChars [f.text.toList])
      has (hasLine_blockChars (List.mem_singleton_self _))
    rw [chars, ← List.append_assoc]
    exact lines.append _ _

end Registry

/-! ### Contributions -/

/-- Where a fragment ends up: under which name, in which stage, and where in `main()`. -/
abbrev Place := String × Stage × Option InsertLocation

def Contribution.place (c : Contribution) : Place := (c.id, c.stage, c.location?)

/-- An ignored fragment has no place in `main()`. -/
def Fragment.place (stage : Stage) (f : Fragment) : Place :=
  (f.id, stage, if f.location = .ignore then none else some f.location)

theorem nodup_ids_of_places {contributions : List Contribution} {fragments : List Fragment}
    {stage : Stage}
    (places : (contributions.map Contribution.place).Perm (fragments.map (Fragment.place stage)))
    (distinct : (fragments.map (·.id)).Nodup) : (contributions.map Contribution.id).Nodup := by
  have ids := places.map Prod.fst
  rw [List.map_map, List.map_map] at ids
  exact ids.nodup_iff.mpr distinct

/-- Going through the members class by class meets each member of these classes once. -/
theorem perm_flatMap_filter {α κ : Type} [DecidableEq κ] (key : α → κ) (members : List α) :
    ∀ {classes : List κ}, classes.Nodup →
      (classes.flatMap fun k => members.filter fun a => key a = k).Perm
        (members.filter fun a => key a ∈ classes)
  | [], _ => by simp
  | k :: classes, distinct => by
    obtain ⟨new, distinct⟩ := List.nodup_cons.mp distinct
    have split := List.filter_append_perm (fun a => decide (key a = k))
      (members.filter fun a => key a ∈ k :: classes)
    have first : (members.filter fun a => key a ∈ k :: classes).filter (fun a => key a = k) =
        members.filter fun a => key a = k := by
      rw [List.filter_filter]
      refine List.filter_congr fun a _ => ?_
      by_cases h : key a = k <;> simp [h]
    have rest : (members.filter fun a => key a ∈ k :: classes).filter (fun a => !decide (key a = k)) =
        members.filter fun a => key a ∈ classes := by
      rw [List.filter_filter]
      refine List.filter_congr fun a _ => ?_
      by_cases h : key a = k
      · simp [h, new]
      · simp [h]
    rw [first, rest] at split
    rw [List.flatMap_cons]
    exact ((perm_flatMap_filter key members distinct).append_left _).trans split

namespace Piece

/-- Where the fragment of a piece ends up, if it is one. -/
def place? (stage : Stage) (p : Piece) : Option Place :=
  match p.slot with
  | .core _ => none
  | .bucket location => some (p.owner, stage, some location)

theorem place?_contribution (stage : Stage) (p : Piece) (statements : List Stmt) :
    (p.contribution stage statements).map Contribution.place = p.place? stage := by
  unfold contribution place?
  cases p.slot <;> rfl

/-- The slots meet the fragments that are not ignored, location by location. -/
theorem places_eq (core : CoreShader) (own : List Variable) (fragments : List AttachedFragment) :
    (Slot.order.flatMap (Slot.pieces core own fragments)).filterMap (place? core.stage) =
      ([.preTransform, .preLighting, .postLighting, .postTransform].flatMap fun location =>
        (fragments.map (·.fragment)).filter fun f => f.location = location).map
          (Fragment.place core.stage) := by
  have phase (p : Phase) :
      ((Slot.core p).pieces core own fragments).filterMap (place? core.stage) = [] := rfl
  have bucket (location : InsertLocation) (spliced : location ≠ .ignore) :
      ((Slot.bucket location).pieces core own fragments).filterMap (place? core.stage) =
        ((fragments.map (·.fragment)).filter fun f => f.location = location).map
          (Fragment.place core.stage) := by
    rw [Slot.pieces, List.filter_map, List.map_map, List.filterMap_map, ← List.filterMap_eq_map]
    refine List.filterMap_congr fun f mem => ?_
    have here : f.fragment.location = location := by simpa using (List.mem_filter.mp mem).2
    simp [place?, Fragment.place, here, spliced]
  simp only [Slot.order, List.flatMap_cons, List.flatMap_nil, List.filterMap_append, phase,
    bucket .preTransform (by decide), bucket .preLighting (by decide),
    bucket .postLighting (by decide), bucket .postTransform (by decide), List.map_append,
    List.nil_append, List.append_nil]

end Piece

theorem Registry.DeclaresAll.fragments {r last : Registry} {fragments : List Fragment}
    {kept : List AttachedFragment} (declares : r.DeclaresAll fragments kept last) :
    kept.map (·.fragment) = fragments := by
  induction declares with
  | nil r => rfl
  | cons first others ih => rw [List.map_cons, ih]

/-- What the recorded pieces say about their fragments, in order. -/
def splicedContributions (stage : Stage) (recorded : List (Piece × List Stmt)) :
    List Contribution :=
  recorded.filterMap fun p => p.1.contribution stage p.2

/-- What there is to say about the ignored fragments, in order. -/
def ignoredContributions (stage : Stage) (fragments : List Fragment) : List Contribution :=
  (fragments.filter fun f => f.location = .ignore).map fun f => .metadataOnly f.id stage

/-- Every fragment is among the pieces or among the ignored ones, and once. -/
theorem contributions_perm (core : CoreShader) (own : List Variable)
    (fragments : List AttachedFragment) {recorded : List (Piece × List Stmt)}
    (order : recorded.map Prod.fst = Slot.order.flatMap (Slot.pieces core own fragments)) :
    ((splicedContributions core.stage recorded ++
      ignoredContributions core.stage (fragments.map (·.fragment))).map Contribution.place).Perm
      ((fragments.map (·.fragment)).map (Fragment.place core.stage)) := by
  have spliced : (splicedContributions core.stage recorded).map Contribution.place =
      (recorded.map Prod.fst).filterMap (Piece.place? core.stage) := by
    rw [splicedContributions, List.map_filterMap, List.filterMap_map]
    exact List.filterMap_congr fun p _ => p.1.place?_contribution core.stage p.2
  have ignored : (ignoredContributions core.stage (fragments.map (·.fragment))).map
      Contribution.place = ((fragments.map (·.fragment)).filter fun f => f.location = .ignore).map
        (Fragment.place core.stage) := by
    rw [ignoredContributions, List.map_map]
    refine List.map_congr_left fun f mem => ?_
    have here : f.location = .ignore := by simpa using (List.mem_filter.mp mem).2
    simp [Contribution.place, Contribution.id, Contribution.stage, Contribution.location?,
      Fragment.place, here]
  have locations : [InsertLocation.preTransform, .preLighting, .postLighting, .postTransform,
      .ignore].Nodup := by decide
  have all : ((fragments.map (·.fragment)).filter fun f => f.location ∈
      [InsertLocation.preTransform, .preLighting, .postLighting, .postTransform, .ignore]) =
        fragments.map (·.fragment) := by
    refine List.filter_eq_self.mpr fun f _ => ?_
    cases f.location <;> decide
  have whole := perm_flatMap_filter Fragment.location (fragments.map (·.fragment)) locations
  rw [all] at whole
  rw [List.map_append, spliced, order, Piece.places_eq, ignored, ← List.map_append]
  refine List.Perm.map _ ?_
  simpa only [List.flatMap_cons, List.flatMap_nil, List.append_nil, List.append_assoc] using whole

/-! ### The layout -/

/-- What a composed stage is made of: what the core declared, the fragments with the variables
that they were given back, the registry when all have declared, and the pieces of `main()` with
their statements. -/
structure Layout where
  own : Declaring
  fragments : List AttachedFragment
  registry : Registry
  pieces : List (Piece × List Stmt)

/-- The layout is that of a core shader with these fragments, and the composition shows it. -/
structure Layout.Describes (l : Layout) (core : CoreShader) (fragments : List Fragment)
    (attached : List String) (strict : Bool) (c : StageComposition) : Prop where
  coreDeclares : (Registry.empty core.stage).declareAll core.id core.declarations = .ok l.own
  fragmentsDeclare : l.own.registry.DeclaresAll fragments l.fragments l.registry
  order : l.pieces.map Prod.fst = Slot.order.flatMap (Slot.pieces core l.own.declared l.fragments)
  emitted : Piece.EmitInTurn core.stage strict (l.registry.symbols attached) 0 l.pieces
  source : c.source = l.registry.source (Stmt.renderBlock 1 (l.pieces.flatMap Prod.snd))
  shown : ∀ f ∈ fragments, ∀ step ∈ f.declarations, step.ShownIn c.source.text.toList
  segments : c.segments = l.pieces.map Assembly.segment
  contributions : c.contributions =
    splicedContributions core.stage l.pieces ++ ignoredContributions core.stage fragments
  once : (c.contributions.map Contribution.place).Perm (fragments.map (Fragment.place core.stage))
  distinct : (c.contributions.map Contribution.id).Nodup

/-- All owners of the stage declare, the core first, and nothing is refused. -/
structure CoreShader.Declares (core : CoreShader) (fragments : List Fragment) (own : Declaring)
    (kept : List AttachedFragment) (registry : Registry) : Prop where
  first : (Registry.empty core.stage).declareAll core.id core.declarations = .ok own
  others : own.registry.DeclaresAll fragments kept registry

theorem Layout.Describes.declares {l : Layout} {core : CoreShader} {fragments : List Fragment}
    {attached : List String} {strict : Bool} {c : StageComposition}
    (describes : l.Describes core fragments attached strict c) :
    core.Declares fragments l.own l.fragments l.registry :=
  ⟨describes.coreDeclares, describes.fragmentsDeclare⟩

/-- The fragment with another `main()`, if it is ignored. -/
def AttachedFragment.withIgnoredMain (main : Fragment → List Instruction) (f : AttachedFragment) :
    AttachedFragment :=
  if f.fragment.location = .ignore then
    { f with fragment := { f.fragment with main := main f.fragment } }
  else f

namespace AttachedFragment

variable (main : Fragment → List Instruction) (f : AttachedFragment)

theorem id_withIgnoredMain : (f.withIgnoredMain main).fragment.id = f.fragment.id := by
  unfold withIgnoredMain
  split <;> rfl

theorem declarations_withIgnoredMain :
    (f.withIgnoredMain main).fragment.declarations = f.fragment.declarations := by
  unfold withIgnoredMain
  split <;> rfl

theorem location_withIgnoredMain :
    (f.withIgnoredMain main).fragment.location = f.fragment.location := by
  unfold withIgnoredMain
  split <;> rfl

theorem remember_withIgnoredMain (vars : Option (List Variable)) :
    { f.withIgnoredMain main with remembered := vars } =
      withIgnoredMain main { f with remembered := vars } := by
  unfold withIgnoredMain
  split <;> rfl

end AttachedFragment

namespace CoreShader

variable {core : CoreShader} {attached : List String} {strict : Bool}
  {fragments others : List AttachedFragment} {c : StageComposition}

theorem compose_congr (same : fragments.map (·.fragment) = others.map (·.fragment)) :
    (core.compose fragments attached strict).1 = (core.compose others attached strict).1 := by
  unfold compose
  split
  · rfl
  · next own declared =>
    rcases Registry.declareAttached_congr own.registry same with ⟨last, kept, here, there⟩ |
      ⟨e, kept, kept', here, there⟩
    · rw [here, there]
    · rw [here, there]

theorem pieces_withIgnoredMain (own : List Variable) (main : Fragment → List Instruction)
    {slot : Slot} (spliced : slot ≠ .bucket .ignore) (fragments : List AttachedFragment) :
    slot.pieces core own (fragments.map (AttachedFragment.withIgnoredMain main)) =
      slot.pieces core own fragments := by
  cases slot with
  | core phase => rfl
  | bucket location =>
    have other : location ≠ .ignore := fun same => spliced (same ▸ rfl)
    induction fragments with
    | nil => rfl
    | cons f rest ih =>
      simp only [Slot.pieces, List.map_cons, List.filter_cons] at ih ⊢
      by_cases ignored : f.fragment.location = .ignore
      · simp [AttachedFragment.withIgnoredMain, ignored, other.symm] at ih ⊢
        exact ih
      · have kept : f.withIgnoredMain main = f := by
          simp [AttachedFragment.withIgnoredMain, ignored]
        rw [kept]
        split
        · rw [List.map_cons, List.map_cons, ih]
        · exact ih

/-- The `main()` of an ignored fragment has no part in the composition. -/
theorem compose_withIgnoredMain (main : Fragment → List Instruction) :
    (core.compose (fragments.map (AttachedFragment.withIgnoredMain main)) attached strict).1 =
      (core.compose fragments attached strict).1 := by
  unfold compose
  split
  · rfl
  · next own declared =>
    rw [Registry.declareAttached_map (AttachedFragment.id_withIgnoredMain main)
      (AttachedFragment.declarations_withIgnoredMain main)
      (AttachedFragment.remember_withIgnoredMain main)]
    cases own.registry.declareAttached fragments with
    | mk result kept =>
      cases result with
      | error e => rfl
      | ok registry =>
        have slots : Slot.order.flatMap
            (Slot.pieces core own.declared (kept.map (AttachedFragment.withIgnoredMain main))) =
              Slot.order.flatMap (Slot.pieces core own.declared kept) := by
          refine List.flatMap_congr fun slot mem => ?_
          exact pieces_withIgnoredMain own.declared main (by rintro rfl; revert mem; decide) kept
        have ignored : (kept.map (AttachedFragment.withIgnoredMain main)).filter
            (fun f => f.fragment.location == .ignore) =
              (kept.filter fun f => f.fragment.location == .ignore).map
                (AttachedFragment.withIgnoredMain main) := by
          rw [List.filter_map]
          simp only [Function.comp_def, AttachedFragment.location_withIgnoredMain]
        simp only [assemble, Assembly.recordSlots_eq, slots, ignored, List.map_map,
          Function.comp_def, AttachedFragment.id_withIgnoredMain]

theorem describes_of_compose (ok : (core.compose fragments attached strict).1 = .ok c) :
    ∃ l : Layout, l.Describes core (fragments.map (·.fragment)) attached strict c := by
  unfold compose at ok
  split at ok
  · cases ok
  · next own declared =>
    split at ok
    · cases ok
    · next registry kept begun =>
      unfold assemble at ok
      split at ok
      · cases ok
      · next a recording =>
        -- recording slot by slot is recording the pieces in the order of the layout
        rw [Assembly.recordSlots_eq] at recording
        have new : (Assembly.empty core.stage strict).body.IsNew core.stage strict 0 := ⟨_, rfl⟩
        obtain ⟨recorded, order, emitted, extend⟩ := Assembly.emitInTurn_of_recordAll new recording
        have declares := Registry.declaresAll_of_declareAttached begun
        obtain ⟨_, has, _, distinct⟩ := declares.grows
        have fragmentsKept := declares.fragments
        have ignored : (kept.filter fun f => f.fragment.location == .ignore).map (fun f =>
            Contribution.metadataOnly f.fragment.id core.stage) =
              ignoredContributions core.stage (fragments.map (·.fragment)) := by
          rw [← fragmentsKept, ignoredContributions, List.filter_map, List.map_map]
          rfl
        have contributions : c.contributions = splicedContributions core.stage recorded ++
            ignoredContributions core.stage (fragments.map (·.fragment)) := by
          rw [← Except.ok.inj ok, ← ignored, extend.contributions]
          rfl
        have once : (c.contributions.map Contribution.place).Perm
            ((fragments.map (·.fragment)).map (Fragment.place core.stage)) := by
          rw [contributions, ← fragmentsKept]
          exact contributions_perm core own.declared kept order
        have source : c.source =
            registry.source (Stmt.renderBlock 1 (recorded.flatMap Prod.snd)) := by
          rw [← Except.ok.inj ok, extend.statements]
          rfl
        refine ⟨⟨own, kept, registry, recorded⟩, declared, declares, order, emitted, source, ?_, ?_,
          contributions, once, nodup_ids_of_places once distinct⟩
        · intro f mem step stepMem
          rw [source]
          show step.ShownIn (registry.render _).toList
          rw [registry.toList_render]
          exact (has f mem step stepMem).shownIn _
        · rw [← Except.ok.inj ok, extend.segments]
          rfl

/-- A stage that composes is laid out slot by slot, whatever its fragments remember. -/
theorem layout_of_compose (ok : (core.compose fragments attached strict).1 = .ok c) :
    (∃ l : Layout, l.Describes core (fragments.map (·.fragment)) attached strict c) ∧
      ∀ main, (core.compose (fragments.map (AttachedFragment.withIgnoredMain main)) attached
        strict).1 = .ok c :=
  ⟨describes_of_compose ok, fun main => (compose_withIgnoredMain main).trans ok⟩

/-- A fragment with two automatic locals, the second made from the first. -/
def twoLocals : Fragment where
  id := "TWO_LOCALS"
  location := .preTransform
  declarations := [.uniform .float "uScale"]
  main := [.call (.temp .float (.declared 0)), .call (.temp .float (.result 0))]

/-- An ignored fragment between two that are spliced in, one of which remembers other variables. -/
theorem layout_of_compose_mixed :
    ∃ c, ((CoreVertex.shader {} .medium).compose [⟨Fog.vertexFragment, some []⟩,
        (SpriteSheet.create 2 2 1.0 4).fragment.attach, twoLocals.attach] [] true).1 = .ok c ∧
      c.contributions = [.spliced "TWO_LOCALS" .vertex .preTransform 2,
        .spliced "FOG_VERTEX_SHADER_FRAGMENT" .vertex .postTransform 4,
        .metadataOnly "SPRITE_SHEET_VERTEX_SHADER_FRAGMENT" .vertex] ∧
      ∃ l : Layout, l.Describes (CoreVertex.shader {} .medium) [Fog.vertexFragment,
        (SpriteSheet.create 2 2 1.0 4).fragment, twoLocals] [] true c := by
  have made : ((CoreVertex.shader {} .medium).compose [⟨Fog.vertexFragment, some []⟩,
      (SpriteSheet.create 2 2 1.0 4).fragment.attach, twoLocals.attach] [] true).1.toOption.map
        StageComposition.contributions =
      some [.spliced "TWO_LOCALS" .vertex .preTransform 2,
        .spliced "FOG_VERTEX_SHADER_FRAGMENT" .vertex .postTransform 4,
        .metadataOnly "SPRITE_SHEET_VERTEX_SHADER_FRAGMENT" .vertex] := by
    decide +kernel
  cases composed : ((CoreVertex.shader {} .medium).compose [⟨Fog.vertexFragment, some []⟩,
      (SpriteSheet.create 2 2 1.0 4).fragment.attach, twoLocals.attach] [] true).1 with
  | error e =>
    rw [composed] at made
    cases made
  | ok c =>
    rw [composed] at made
    exact ⟨c, rfl, Option.some.inj made, (layout_of_compose composed).1⟩

end CoreShader

end ShaderComposer
