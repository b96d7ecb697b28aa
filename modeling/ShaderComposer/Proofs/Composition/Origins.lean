import ShaderComposer.Proofs.Composition.Layout
import ShaderComposer.Proofs.Script.Quiet

/-!
# Where the parts of a composed stage come from

The variables of a composed stage are those that its shaders declare, each name once, and all its
names are quiet if those of its declarations and scripts are (`Layout.Describes.madeOf`,
`Layout.Describes.areQuiet`).
-/

namespace ShaderComposer

/-! ### Declarations with quiet names -/

/-- The line has no end and no brace in it and begins with no word of a declaration. -/
def isQuietDirective (line : SourceScan.Text) : Bool :=
  line.all isInert && !declarationWords.contains (SourceScan.lead line)

/-- The step declares a variable with a name, or sets a precision or adds a line; all names are
quiet. A helper function may say anything and is not quiet. -/
def DeclareStep.isQuiet : DeclareStep → Bool
  | declare draft =>
    !draft.var.name.toList.isEmpty && draft.var.isQuiet && draft.initial.all Term.isQuiet
  | directive line => isQuietDirective line.toList
  | precision .. => true
  | helper _ => false

theorem DeclareStep.isQuiet_declare {v : Variable} (plain : v.initial = none) :
    (declare ⟨v, none⟩).isQuiet = (!v.name.toList.isEmpty && isQuietName v.name.toList) := by
  simp [isQuiet, Variable.isQuiet, plain]

theorem VariableDraft.isQuiet_build {d : VariableDraft} {env : Bindings}
    (step : (DeclareStep.declare d).isQuiet = true) (bound : env.IsQuiet) :
    (d.build env).isQuiet = true := by
  obtain ⟨named, initial⟩ := Bool.and_eq_true_iff.mp step
  obtain ⟨_, var⟩ := Bool.and_eq_true_iff.mp named
  unfold build
  cases written : d.initial with
  | none => exact var
  | some t =>
    rw [written] at initial
    exact Bool.and_eq_true_iff.mpr ⟨(Variable.isQuiet_iff.mp var).1, t.isQuiet_build bound initial⟩

/-! ### Registries -/

namespace Registry

/-- Whatever is registered comes from one of the steps, no name is registered twice, and the
variables are good. -/
structure MadeOf (good : Variable → Prop) (steps : List DeclareStep) (r : Registry) : Prop where
  good : ∀ v ∈ r.vars, good v
  vars : ∀ v ∈ r.vars, ∃ draft, .declare draft ∈ steps ∧ v.sameShape draft.var = true
  distinct : (r.vars.map (·.name)).Nodup
  directives : ∀ line ∈ r.directives, .directive line ∈ steps
  helpers : ∀ f ∈ r.helpers, .helper f ∈ steps

variable {good : Variable → Prop} {steps : List DeclareStep} {r next : Registry}

theorem madeOf_empty (good : Variable → Prop) (steps : List DeclareStep) (stage : Stage) :
    (empty stage).MadeOf good steps :=
  ⟨by simp [vars, empty], by simp [vars, empty], List.nodup_nil, by simp [empty], by simp [empty]⟩

theorem MadeOf.declare (made : r.MadeOf good steps) {owner : String} {v given : Variable}
    (fine : good v) {draft : VariableDraft} (mem : .declare draft ∈ steps)
    (shape : v.sameShape draft.var = true) (ok : r.declare owner v = .ok (given, next)) :
    next.MadeOf good steps := by
  unfold Registry.declare at ok
  split at ok
  · cases ok
  · split at ok
    -- only a fresh name changes the registry
    · next fresh =>
      cases ok
      have grown : Registry.vars { r with entries := r.entries ++ [⟨v, owner⟩] } =
          r.vars ++ [v] := by
        simp [Registry.vars]
      refine ⟨?_, ?_, ?_, made.directives, made.helpers⟩
      · rw [grown]
        intro w memW
        rcases List.mem_append.mp memW with memW | memW
        · exact made.good w memW
        · obtain rfl := List.mem_singleton.mp memW
          exact fine
      · rw [grown]
        intro w memW
        rcases List.mem_append.mp memW with memW | memW
        · exact made.vars w memW
        · obtain rfl := List.mem_singleton.mp memW
          exact ⟨draft, mem, shape⟩
      · rw [grown, List.map_append, List.map_singleton]
        refine List.nodup_append.mpr ⟨made.distinct, List.nodup_singleton _, ?_⟩
        intro name memName other memOther same
        obtain ⟨w, memW, rfl⟩ := List.mem_map.mp memName
        obtain ⟨e, entry, rfl⟩ := List.mem_map.mp memW
        have new := List.find?_eq_none.mp fresh e entry
        rw [List.mem_singleton.mp memOther] at same
        simp [same] at new
    · split at ok
      · cases ok
      · split at ok
        · cases ok
          exact made
        · cases ok

theorem MadeOf.addDirective (made : r.MadeOf good steps) {line : String}
    (mem : .directive line ∈ steps) : (r.addDirective line).MadeOf good steps := by
  unfold Registry.addDirective
  split
  · exact made
  · refine { made with directives := fun other memOther => ?_ }
    rcases List.mem_append.mp memOther with memOther | memOther
    · exact made.directives other memOther
    · obtain rfl := List.mem_singleton.mp memOther
      exact mem

theorem MadeOf.addHelper (made : r.MadeOf good steps) {owner : String} {f : HelperFunction}
    (mem : .helper f ∈ steps) (ok : r.addHelper owner f = .ok next) : next.MadeOf good steps := by
  unfold Registry.addHelper at ok
  split at ok
  · cases ok
    refine { made with helpers := fun other memOther => ?_ }
    rcases List.mem_append.mp memOther with memOther | memOther
    · exact made.helpers other memOther
    · obtain rfl := List.mem_singleton.mp memOther
      exact mem
  · split at ok
    · cases ok
      exact made
    · cases ok

theorem MadeOf.setPrecision (made : r.MadeOf good steps) (ty : DataType) (p : Precision) :
    (r.setPrecision ty p).MadeOf good steps := by
  unfold Registry.setPrecision
  split
  · exact made
  · exact { made with }

end Registry

/-! ### Declaring -/

/-- The steps make good variables from good ones. -/
def Builds (good : Variable → Prop) (steps : List DeclareStep) : Prop :=
  ∀ draft, .declare draft ∈ steps → ∀ declared : List Variable, (∀ v ∈ declared, good v) →
    good (draft.build ⟨declared, []⟩)

theorem builds_quiet {steps : List DeclareStep} (quiet : ∀ step ∈ steps, step.isQuiet = true) :
    Builds (fun v => v.isQuiet = true) steps :=
  fun _ mem _ declared => VariableDraft.isQuiet_build (quiet _ mem) ⟨declared, by simp⟩

namespace Declaring

/-- The registry and the variables given back come from the steps, and all of these are good. -/
structure MadeOf (good : Variable → Prop) (steps : List DeclareStep) (d : Declaring) : Prop where
  registry : d.registry.MadeOf good steps
  declared : ∀ v ∈ d.declared, good v

variable {good : Variable → Prop} {steps : List DeclareStep} {d : Declaring}

theorem MadeOf.step (builds : Builds good steps) (made : d.MadeOf good steps)
    {owner : String} {step : DeclareStep} (mem : step ∈ steps) {next : Declaring}
    (ok : d.step owner step = .ok next) : next.MadeOf good steps := by
  cases step with
  | declare draft =>
    simp only [Declaring.step] at ok
    split at ok
    · next v registry declared =>
      cases ok
      have built := builds draft mem d.declared made.declared
      have shape : (draft.build ⟨d.declared, []⟩).sameShape draft.var = true := by
        rw [← Variable.sameShape_refl (draft.build ⟨d.declared, []⟩)]
        exact VariableDraft.sameShape_build.symm
      have registry := made.registry.declare built mem shape declared
      refine ⟨registry, fun w memW => ?_⟩
      rcases List.mem_append.mp memW with memW | memW
      · exact made.declared w memW
      · obtain rfl := List.mem_singleton.mp memW
        exact registry.good _ (Registry.grows_declare declared).2.1
    · cases ok
  | directive line =>
    cases ok
    exact ⟨made.registry.addDirective mem, made.declared⟩
  | precision ty p =>
    cases ok
    exact ⟨made.registry.setPrecision ty p, made.declared⟩
  | helper f =>
    simp only [Declaring.step] at ok
    split at ok
    · next registry added =>
      cases ok
      exact ⟨made.registry.addHelper mem added, made.declared⟩
    · cases ok

theorem MadeOf.run (builds : Builds good steps) {owner : String} :
    ∀ {script : List DeclareStep} {d last : Declaring}, d.MadeOf good steps → script ⊆ steps →
      Declaring.run owner script d = (last, none) → last.MadeOf good steps
  | [], d, last, made, _, ran => by
    cases ran
    exact made
  | s :: rest, d, last, made, subset, ran => by
    rw [Declaring.run] at ran
    split at ran
    · next next first =>
      have step := made.step builds (subset List.mem_cons_self) first
      exact MadeOf.run builds step (fun s mem => subset (List.mem_cons_of_mem _ mem)) ran
    · cases ran

end Declaring

namespace Registry

variable {good : Variable → Prop} {steps : List DeclareStep} {r last : Registry}

theorem MadeOf.declareAll (builds : Builds good steps) (made : r.MadeOf good steps)
    {owner : String} {script : List DeclareStep} (subset : script ⊆ steps) {d : Declaring}
    (ok : r.declareAll owner script = .ok d) : d.MadeOf good steps := by
  unfold Registry.declareAll at ok
  split at ok
  · cases ok
  · next begun began =>
    split at ok
    · next done ran =>
      cases ok
      have start : begun.MadeOf good steps := by
        unfold begin? at began
        split at began
        · cases began
        · cases began
          exact { made with }
      exact Declaring.MadeOf.run builds ⟨start, by simp⟩ subset ran
    · cases ok

theorem MadeOf.declaresAll (builds : Builds good steps)
    {fragments : List Fragment} {kept : List AttachedFragment}
    (declares : r.DeclaresAll fragments kept last) (made : r.MadeOf good steps)
    (subset : ∀ f ∈ fragments, f.declarations ⊆ steps) :
    last.MadeOf good steps ∧ ∀ f ∈ kept, ∀ v ∈ f.remembered.getD [], good v := by
  induction declares with
  | nil r => exact ⟨made, by simp⟩
  | @cons r last f rest kept d first _ ih =>
    have declared := made.declareAll builds (subset f List.mem_cons_self) first
    obtain ⟨later, remembered⟩ :=
      ih declared.registry fun g mem => subset g (List.mem_cons_of_mem _ mem)
    refine ⟨later, fun g mem => ?_⟩
    rcases List.mem_cons.mp mem with rfl | mem
    · exact declared.declared
    · exact remembered g mem

end Registry

/-! ### Layouts -/

namespace CoreShader

def steps (core : CoreShader) (fragments : List Fragment) : List DeclareStep :=
  core.declarations ++ fragments.flatMap (·.declarations)

/-- The declarations and the scripts of a stage have quiet names. -/
structure IsQuiet (core : CoreShader) (fragments : List Fragment) : Prop where
  steps : ∀ step ∈ core.steps fragments, step.isQuiet = true
  phases : ∀ phase, ∀ c ∈ Instruction.callsAll (core.phase phase), c.isQuiet = true
  mains : ∀ f ∈ fragments, ∀ c ∈ Instruction.callsAll f.main, c.isQuiet = true

namespace Declares

variable {core : CoreShader} {fragments : List Fragment} {own : Declaring}
  {kept : List AttachedFragment} {registry : Registry}

theorem madeOf (declares : core.Declares fragments own kept registry) {good : Variable → Prop}
    (builds : Builds good (core.steps fragments)) :
    registry.MadeOf good (core.steps fragments) ∧ (∀ v ∈ own.declared, good v) ∧
      ∀ f ∈ kept, ∀ v ∈ f.remembered.getD [], good v := by
  have first := (Registry.madeOf_empty good (core.steps fragments) core.stage).declareAll builds
    (List.subset_append_left _ _) declares.first
  obtain ⟨made, remembered⟩ := first.registry.declaresAll builds declares.others
    fun f mem step inside => List.mem_append_right _ (List.mem_flatMap.mpr ⟨f, mem, inside⟩)
  exact ⟨made, first.declared, remembered⟩

theorem has (declares : core.Declares fragments own kept registry) {step : DeclareStep}
    (mem : step ∈ core.steps fragments) : registry.Has step := by
  obtain ⟨_, first, _⟩ := Registry.grows_declareAll declares.first
  obtain ⟨grows, others, _⟩ := declares.others.grows
  rcases List.mem_append.mp mem with mem | mem
  · exact (first step mem).grows grows
  · obtain ⟨f, memF, inside⟩ := List.mem_flatMap.mp mem
    exact others f memF step inside

theorem stage_eq (declares : core.Declares fragments own kept registry) :
    registry.stage = core.stage := by
  obtain ⟨first, _⟩ := Registry.grows_declareAll declares.first
  obtain ⟨grows, _⟩ := declares.others.grows
  exact grows.stage.trans first.stage

end Declares

end CoreShader

theorem Registry.mem_of_require {r : Registry} {attached : List String} {role : Role}
    {v : Variable} (given : (r.symbols attached).require role = .ok v) : v ∈ r.vars := by
  unfold Symbols.require at given
  split at given
  · next found shared =>
    cases given
    obtain ⟨before, after, shown, _⟩ := List.lookup_eq_some_iff.mp shared
    have mem : (role, v) ∈ (r.symbols attached).shared := by simp [shown]
    obtain ⟨known, _, made⟩ := List.mem_filterMap.mp mem
    obtain ⟨w, registered, same⟩ := Option.map_eq_some_iff.mp made
    obtain ⟨_, rfl⟩ := Prod.mk.inj same
    obtain ⟨entry, _⟩ := Option.filter_eq_some_iff.mp registered
    obtain ⟨e, found, rfl⟩ := Option.map_eq_some_iff.mp entry
    exact List.mem_map_of_mem (List.mem_of_find?_eq_some found)
  · cases given

theorem Body.isQuiet_empty (stage : Stage) (strict : Bool) (owner : String) (n : Nat) :
    { Body.empty stage strict with owner := owner, temps := n }.IsQuiet :=
  ⟨rfl, by simp [Body.empty]⟩

theorem Piece.areQuiet_of_emits {stage : Stage} {strict : Bool} {symbols : Symbols} {p : Piece}
    {n k : Nat} {statements : List Stmt} (emits : p.Emits stage strict symbols n statements k)
    (sees : (⟨symbols, p.declared⟩ : Instruction.Scene).IsQuiet)
    (quiet : ∀ c ∈ Instruction.callsAll p.script, c.isQuiet = true) :
    Stmt.areQuiet statements = true := by
  obtain ⟨r, ran, segment, _⟩ := emits
  have start : Instruction.Run.IsQuiet
      ⟨{ Body.empty stage strict with owner := p.owner, temps := n }, []⟩ :=
    ⟨Body.isQuiet_empty stage strict p.owner n, by simp⟩
  have last := start.runAll sees quiet ran
  unfold Body.segment at segment
  split at segment
  · cases segment
  · split at segment
    · cases segment
      exact last.body.statements
    · cases segment

theorem Piece.EmitInTurn.areQuiet {stage : Stage} {strict : Bool} {symbols : Symbols} {n : Nat}
    {pieces : List (Piece × List Stmt)} (emitted : EmitInTurn stage strict symbols n pieces)
    (sees : ∀ p ∈ pieces.map Prod.fst, (⟨symbols, p.declared⟩ : Instruction.Scene).IsQuiet)
    (quiet : ∀ p ∈ pieces.map Prod.fst, ∀ c ∈ Instruction.callsAll p.script, c.isQuiet = true) :
    Stmt.areQuiet (pieces.flatMap Prod.snd) = true := by
  induction emitted with
  | nil n => rfl
  | @cons n k p statements rest first _ ih =>
    rw [List.flatMap_cons]
    refine Stmt.areQuiet_append.mpr ⟨?_, ?_⟩
    · exact p.areQuiet_of_emits first (sees p List.mem_cons_self) (quiet p List.mem_cons_self)
    · exact ih (fun p mem => sees p (List.mem_cons_of_mem _ mem))
        fun p mem => quiet p (List.mem_cons_of_mem _ mem)

namespace Layout.Describes

variable {l : Layout} {core : CoreShader} {fragments : List Fragment} {attached : List String}
  {strict : Bool} {c : StageComposition}

theorem areQuiet (describes : l.Describes core fragments attached strict c)
    (quiet : core.IsQuiet fragments) : Stmt.areQuiet (l.pieces.flatMap Prod.snd) = true := by
  obtain ⟨registry, own, remembered⟩ := describes.declares.madeOf (builds_quiet quiet.steps)
  have sees {p : Piece} (declared : ∀ v ∈ p.declared.getD [], v.isQuiet = true) :
      (⟨l.registry.symbols attached, p.declared⟩ : Instruction.Scene).IsQuiet :=
    ⟨declared, fun role v given => registry.good v (Registry.mem_of_require given)⟩
  -- a piece is a phase of the core or the `main()` of a fragment
  have each : ∀ p ∈ l.pieces.map Prod.fst, (∀ v ∈ p.declared.getD [], v.isQuiet = true) ∧
      ∀ c ∈ Instruction.callsAll p.script, c.isQuiet = true := by
    intro p mem
    rw [describes.order] at mem
    obtain ⟨slot, _, inside⟩ := List.mem_flatMap.mp mem
    cases slot with
    | core phase =>
      obtain rfl := List.mem_singleton.mp inside
      exact ⟨own, quiet.phases phase⟩
    | bucket location =>
      obtain ⟨f, kept, rfl⟩ := List.mem_map.mp inside
      have known := (List.mem_filter.mp kept).1
      refine ⟨remembered f known, quiet.mains f.fragment ?_⟩
      rw [← describes.fragmentsDeclare.fragments]
      exact List.mem_map_of_mem known
  exact describes.emitted.areQuiet (fun p mem => sees (each p mem).1) fun p mem => (each p mem).2

end Layout.Describes

end ShaderComposer
