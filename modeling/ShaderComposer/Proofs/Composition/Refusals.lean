import ShaderComposer.Proofs.Composition.Layout

/-!
# What composing is refused for

Composing a stage fails with an error about that stage: a declaration, a shared variable or a
statement of it (`CoreShader.stage?_of_compose`). It never fails with what a backend would answer.
-/

namespace ShaderComposer

/-- The stage that an error of a shader is about. -/
def ShaderError.stage? : ShaderError → Option Stage
  | declarationConflict stage _ _ | missingGlobal stage _ | unbalancedConditional stage _ _
  | invalidStatement stage _ _ | typeMismatch stage _ _ => some stage
  | rejected _ | notLinked _ | staleProgram _ | tooManyTextures _ _ => none

/-! ### Declaring -/

theorem Declaring.stage?_of_step {d : Declaring} {owner : String} {step : DeclareStep}
    {e : ShaderError} (failed : d.step owner step = .error e) :
    e.stage? = some d.registry.stage := by
  cases step with
  | declare draft =>
    simp only [Declaring.step, Registry.declare, Registry.conflict] at failed
    grind [ShaderError.stage?]
  | directive line => cases failed
  | precision ty p => cases failed
  | helper f =>
    simp only [Declaring.step, Registry.addHelper, Registry.conflict] at failed
    grind [ShaderError.stage?]

theorem Declaring.stage?_of_run {owner : String} {e : ShaderError} :
    ∀ {steps : List DeclareStep} {d last : Declaring}, run owner steps d = (last, some e) →
      e.stage? = some d.registry.stage
  | [], d, last, failed => by cases failed
  | s :: rest, d, last, failed => by
    rw [run] at failed
    split at failed
    · next next first =>
      rw [stage?_of_run failed, (grows_step first).1.stage]
    · next error =>
      cases failed
      exact stage?_of_step error

namespace Registry

variable {r : Registry} {e : ShaderError}

theorem stage?_of_declareAll {owner : String} {steps : List DeclareStep}
    (failed : r.declareAll owner steps = .error e) : e.stage? = some r.stage := by
  unfold declareAll at failed
  split at failed
  · cases failed
    rfl
  · next begun began =>
    have stage : begun.stage = r.stage := by
      unfold begin? at began
      split at began
      · cases began
      · exact (congrArg Registry.stage (Option.some.inj began)).symm
    split at failed
    · cases failed
    · next refused =>
      cases failed
      rw [Declaring.stage?_of_run refused, stage]

theorem stage?_of_declareAttached : ∀ {fragments : List AttachedFragment} {r : Registry},
    (r.declareAttached fragments).1 = .error e → e.stage? = some r.stage
  | [], r, failed => by cases failed
  | f :: rest, r, failed => by
    rw [declareAttached] at failed
    split at failed
    · next refused =>
      cases failed
      exact stage?_of_declareAll refused
    · next d first =>
      rw [stage?_of_declareAttached failed, (grows_declareAll first).1.stage]

end Registry

/-! ### Recording -/

namespace Body

/-- The body records for the stage, and a fault of it is about the stage. -/
structure FaultsIn (stage : Stage) (b : Body) : Prop where
  recordsFor : b.stage = stage
  fault : ∀ e, b.fault = some e → e.stage? = some stage

namespace FaultsIn

variable {stage : Stage} {b d : Body}

theorem of_isNew {strict : Bool} {n : Nat} (new : b.IsNew stage strict n) : b.FaultsIn stage := by
  obtain ⟨owner, rfl⟩ := new
  exact ⟨rfl, fun e fault => by cases fault⟩

theorem same (faults : b.FaultsIn stage) (stages : d.stage = b.stage) (kept : d.fault = b.fault) :
    d.FaultsIn stage :=
  ⟨stages.trans faults.recordsFor, fun e fault => faults.fault e (kept ▸ fault)⟩

theorem withFault (faults : b.FaultsIn stage) {e : ShaderError} (about : e.stage? = some b.stage) :
    (b.withFault e).FaultsIn stage := by
  refine ⟨faults.recordsFor, fun d fault => ?_⟩
  rw [fault_withFault] at fault
  cases before : b.fault with
  | none =>
    rw [before] at fault
    obtain rfl : e = d := Option.some.inj fault
    rw [about, faults.recordsFor]
  | some first =>
    rw [before] at fault
    exact faults.fault d (before.trans fault)

theorem push (faults : b.FaultsIn stage) (s : Stmt) : (b.push s).FaultsIn stage := by
  unfold Body.push
  split <;> exact faults.same rfl rfl

theorem checked (faults : b.FaultsIn stage) (mismatch : Option Mismatch) :
    (b.checked mismatch).FaultsIn stage := by
  unfold Body.checked
  split
  · split
    · exact faults.withFault rfl
    · exact faults
  · exact faults

theorem nextBlock (faults : b.FaultsIn stage) (guard : Option (Condition Expr))
    (afterElse outside : Imbalance) : (b.nextBlock guard afterElse outside).FaultsIn stage := by
  unfold Body.nextBlock
  split
  · exact faults.withFault rfl
  · split
    · exact faults.withFault rfl
    · exact faults.same rfl rfl

theorem perform (faults : b.FaultsIn stage) (c : Call Expr) : (b.perform c).FaultsIn stage := by
  cases c with
  | assign op target value => exact (faults.checked _).push _
  | declare ty name value => exact (faults.checked _).push _
  | temp ty value =>
    have counted : { b with temps := b.temps + 1 }.FaultsIn stage := faults.same rfl rfl
    exact (counted.checked _).push _
  | startIf condition => exact faults.same rfl rfl
  | elseIf condition => exact faults.nextBlock _ _ _
  | elseBranch => exact faults.nextBlock _ _ _
  | endIf =>
    show b.endIf.FaultsIn stage
    unfold Body.endIf
    split
    · exact faults.withFault rfl
    · next f rest opened =>
      have closed : { b with openIfs := rest }.FaultsIn stage := faults.same rfl rfl
      exact closed.push _
  | discard =>
    show b.discard.FaultsIn stage
    unfold Body.discard
    split
    · exact faults.push _
    · exact faults.withFault rfl
  | setOwner name => exact faults.same rfl rfl

theorem stage?_of_segment (faults : b.FaultsIn stage) {e : ShaderError}
    (failed : b.segment = .error e) : e.stage? = some stage := by
  unfold segment at failed
  split at failed
  · next fault =>
    cases failed
    exact faults.fault e fault
  · split at failed
    · cases failed
    · cases failed
      exact congrArg some faults.recordsFor

end FaultsIn

end Body

namespace Instruction

variable {scene : Scene} {e : ShaderError}

theorem keeps_faultsIn (scene : Scene) (calls : List (Call Term)) (stage : Stage) :
    Keeps scene calls fun r => r.body.FaultsIn stage :=
  ⟨fun _ _ _ faults => faults.perform _, fun _ _ _ _ faults => faults⟩

mutual
theorem stage?_of_run : ∀ {i : Instruction} {r : Run}, r.body.FaultsIn scene.symbols.stage →
    i.run scene r = .error e → e.stage? = some scene.symbols.stage
  | call c, r, faults, failed => by
    rw [run] at failed
    cases failed
  | require role, r, faults, failed => by
    rw [run] at failed
    unfold Symbols.require at failed
    cases found : scene.symbols.get? role with
    | some v =>
      rw [found] at failed
      cases failed
    | none =>
      rw [found] at failed
      cases failed
      rfl
  | ifRole role block, r, faults, failed => by
    rw [run] at failed
    split at failed
    · exact stage?_of_runAll faults failed
    · cases failed
  | ifFragment id block otherwise, r, faults, failed => by
    rw [run] at failed
    split at failed
    · exact stage?_of_runAll faults failed
    · exact stage?_of_runAll faults failed
  | expectDeclared, r, faults, failed => by
    rw [run] at failed
    split at failed
    · cases failed
    · cases failed
      exact congrArg some faults.recordsFor
theorem stage?_of_runAll : ∀ {script : List Instruction} {r : Run},
    r.body.FaultsIn scene.symbols.stage → runAll scene script r = .error e →
      e.stage? = some scene.symbols.stage
  | [], r, faults, failed => by
    rw [runAll] at failed
    cases failed
  | i :: rest, r, faults, failed => by
    rw [runAll] at failed
    cases first : i.run scene r with
    | ok next =>
      rw [first] at failed
      have kept : next.body.FaultsIn scene.symbols.stage :=
        run_keeps (keeps_faultsIn scene i.calls scene.symbols.stage) first faults
      exact stage?_of_runAll kept failed
    | error d =>
      rw [first] at failed
      cases failed
      exact stage?_of_run faults first
end

end Instruction

section

variable {symbols : Symbols} {strict : Bool} {n : Nat} {e : ShaderError}

theorem Piece.stage?_of_record {p : Piece} {b : Body} (new : b.IsNew symbols.stage strict n)
    (failed : p.record symbols b = .error e) : e.stage? = some symbols.stage := by
  have faults : { b with owner := p.owner }.FaultsIn symbols.stage :=
    (Body.FaultsIn.of_isNew new).same rfl rfl
  unfold record at failed
  dsimp only at failed
  split at failed
  · next refused =>
    cases failed
    exact Instruction.stage?_of_runAll faults refused
  · next r ran =>
    have kept : r.body.FaultsIn symbols.stage :=
      Instruction.runAll_keeps (Instruction.keeps_faultsIn _ _ _) ran faults
    split at failed
    · next refused =>
      cases failed
      exact kept.stage?_of_segment refused
    · cases failed

theorem Assembly.stage?_of_recordAll : ∀ {pieces : List Piece} {a : Assembly} {n : Nat},
    a.body.IsNew symbols.stage strict n →
      recordAll symbols.stage symbols pieces a = .error e → e.stage? = some symbols.stage
  | [], a, n, new, failed => by cases failed
  | p :: rest, a, n, new, failed => by
    rw [recordAll] at failed
    cases first : p.record symbols a.body with
    | error d =>
      simp only [record, first] at failed
      cases failed
      exact p.stage?_of_record new first
    | ok made =>
      obtain ⟨statements, next⟩ := made
      simp only [record, first] at failed
      exact stage?_of_recordAll (p.emits_of_record new first).2 failed

end

/-! ### Composing -/

/-- Composing a stage is refused for something about that stage. -/
theorem CoreShader.stage?_of_compose {core : CoreShader} {fragments : List AttachedFragment}
    {attached : List String} {strict : Bool} {e : ShaderError}
    (failed : (core.compose fragments attached strict).1 = .error e) :
    e.stage? = some core.stage := by
  unfold compose at failed
  split at failed
  · next refused =>
    cases failed
    exact Registry.stage?_of_declareAll refused
  · next own first =>
    have ownStage : own.registry.stage = core.stage := (Registry.grows_declareAll first).1.stage
    split at failed
    · next kept refused =>
      cases failed
      rw [← ownStage]
      exact Registry.stage?_of_declareAttached (congrArg Prod.fst refused)
    · next registry kept others =>
      obtain ⟨grows, _⟩ := (Registry.declaresAll_of_declareAttached others).grows
      have stage : (registry.symbols attached).stage = core.stage := grows.stage.trans ownStage
      unfold assemble at failed
      split at failed
      · next refused =>
        cases failed
        rw [Assembly.recordSlots_eq, ← stage] at refused
        rw [← stage]
        exact Assembly.stage?_of_recordAll (n := 0) ⟨_, rfl⟩ refused
      · cases failed

end ShaderComposer
