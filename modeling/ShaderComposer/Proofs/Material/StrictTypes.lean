import ShaderComposer.Proofs.Material.Composing
import ShaderComposer.Proofs.Script.Strictness

/-!
# Composing without type checks

What a material composes to with strict types it composes to without them, to the letter: strict
types only ever refuse (`Material.compose_relaxed`). The composer hands one body on from piece to
piece, so the strict and the lax body have to stay in step across all of them
(`Assembly.recordAll_mirrors`); everything else that composing reads has no part in type checks.
-/

namespace ShaderComposer

/-! ### Stages -/

theorem Piece.record_mirrors {symbols : Symbols} {p : Piece} {b d next : Body}
    {statements : List Stmt} (mirrors : b.Mirrors d)
    (ok : p.record symbols b = .ok (statements, next)) :
    ∃ next', p.record symbols d = .ok (statements, next') ∧ next.Mirrors next' := by
  unfold record at ok ⊢
  dsimp only at ok ⊢
  split at ok
  · cases ok
  · next r ran =>
    have start : Instruction.Run.Mirrors ⟨{ b with owner := p.owner }, []⟩
        ⟨{ d with owner := p.owner }, []⟩ := ⟨mirrors.withOwner p.owner, rfl⟩
    obtain ⟨r', ran', last⟩ := Instruction.runAll_mirrors start ran
    split at ok
    · cases ok
    · next recorded segment =>
      cases ok
      rw [ran']
      dsimp only
      rw [last.body.segment segment]
      exact ⟨r'.body.nextSegment, rfl, last.body.nextSegment⟩

namespace Assembly

/-- The assemblies have put the same together, on bodies in step. -/
structure Mirrors (a a' : Assembly) : Prop where
  body : a.body.Mirrors a'.body
  statements : a.statements = a'.statements
  segments : a.segments = a'.segments
  contributions : a.contributions = a'.contributions

variable {stage : Stage} {symbols : Symbols}

theorem record_mirrors {p : Piece} {a a' next : Assembly} (mirrors : a.Mirrors a')
    (ok : a.record stage symbols p = .ok next) :
    ∃ next', a'.record stage symbols p = .ok next' ∧ next.Mirrors next' := by
  unfold record at ok ⊢
  split at ok
  · cases ok
  · next statements body recorded =>
    cases ok
    obtain ⟨body', recorded', inStep⟩ := p.record_mirrors mirrors.body recorded
    rw [recorded']
    refine ⟨_, rfl, inStep, ?_, ?_, ?_⟩
    · rw [mirrors.statements]
    · rw [mirrors.segments]
    · rw [mirrors.contributions]

theorem recordAll_mirrors : ∀ {pieces : List Piece} {a a' last : Assembly}, a.Mirrors a' →
    recordAll stage symbols pieces a = .ok last →
      ∃ last', recordAll stage symbols pieces a' = .ok last' ∧ last.Mirrors last'
  | [], a, a', last, mirrors, ok => by
    cases ok
    exact ⟨a', rfl, mirrors⟩
  | p :: rest, a, a', last, mirrors, ok => by
    rw [recordAll] at ok ⊢
    cases first : a.record stage symbols p with
    | error e =>
      rw [first] at ok
      cases ok
    | ok next =>
      rw [first] at ok
      obtain ⟨next', first', inStep⟩ := record_mirrors mirrors first
      rw [first']
      exact recordAll_mirrors inStep ok

end Assembly

theorem CoreShader.compose_lax {core : CoreShader} {fragments : List AttachedFragment}
    {attached : List String} {c : StageComposition}
    (ok : (core.compose fragments attached true).1 = .ok c) :
    (core.compose fragments attached false).1 = .ok c := by
  unfold compose at ok ⊢
  split at ok
  · cases ok
  · next own declared =>
    split at ok
    · cases ok
    · next registry kept begun =>
      unfold assemble at ok ⊢
      dsimp only at ok ⊢
      rw [Assembly.recordSlots_eq] at ok ⊢
      split at ok
      · cases ok
      · next a recorded =>
        have start : (Assembly.empty core.stage true).Mirrors (.empty core.stage false) :=
          ⟨(Body.empty core.stage true).mirrors_relaxed rfl, rfl, rfl, rfl⟩
        obtain ⟨a', recorded', inStep⟩ := Assembly.recordAll_mirrors start recorded
        rw [recorded']
        dsimp only
        rw [← inStep.statements, ← inStep.segments, ← inStep.contributions]
        exact ok

/-! ### Materials -/

namespace Material

def relaxed (m : Material) : Material :=
  { m with settings := { m.settings with strictTypes := false } }

variable {m : Material}

theorem stageResult_relaxed (strict : m.settings.strictTypes = true) {stage : Stage}
    {c : StageComposition} (ok : m.stageResult stage = .ok c) :
    m.relaxed.stageResult stage = .ok c := by
  unfold stageResult at ok
  rw [strict] at ok
  have same : m.relaxed.coreShader stage = m.coreShader stage := by cases stage <;> rfl
  unfold stageResult
  rw [same]
  exact CoreShader.compose_lax ok

theorem composeParts_relaxed (strict : m.settings.strictTypes = true) {made : Composition × UnitPlan}
    (ok : m.composeParts = .ok made) : m.relaxed.composeParts = .ok made := by
  have units : m.relaxed.planUnits = m.planUnits := rfl
  unfold composeParts at ok ⊢
  rw [units]
  split at ok
  · cases ok
  · split at ok
    · cases ok
    · next vertex vertexMade =>
      split at ok
      · cases ok
      · next fragment fragmentMade =>
        rw [stageResult_relaxed strict vertexMade]
        dsimp only
        rw [stageResult_relaxed strict fragmentMade]
        exact ok

/-- What composes with strict types composes without them to the same sources, segments and
contributions. So it is with the calls of a segment; calls that only a strict body refuses are
refused for the first assignment or local, in the order of calls, whose types do not fit. -/
theorem compose_relaxed :
    (∀ (m : Material) (backend : Backend) (c : Composition), m.settings.strictTypes = true →
      (m.compose backend).result = .ok c → (m.relaxed.compose backend).result = .ok c) ∧
    ∀ (b : Body) (calls : List (Call Expr)), b.strict = true → b.nextSegment = b →
      (∀ block, (b.performAll calls).segment = .ok block →
        (b.relaxed.performAll calls).segment = .ok block) ∧
      ∀ block e, (b.relaxed.performAll calls).segment = .ok block →
        (b.performAll calls).segment = .error e →
          ∃ owner cause, firstMismatch? b.owner b.temps calls = some (owner, cause) ∧
            e = .typeMismatch b.stage owner cause := by
  constructor
  · intro m backend c strict ok
    rw [result_compose] at ok ⊢
    cases made : m.composeParts with
    | error failure =>
      rw [made] at ok
      cases ok
    | ok parts =>
      rw [made] at ok
      rw [composeParts_relaxed strict made]
      exact ok
  · intro b calls strict new
    have start := b.mirrors_relaxed strict
    have last := start.performAll calls
    refine ⟨fun block ok => last.segment ok, fun block e accepted refused => ?_⟩
    obtain ⟨calm, closed, _⟩ := (Body.segment_eq_ok_iff _ block).mp accepted
    have fault := start.fault_performAll calm
    have none : b.fault = none := congrArg Body.fault new.symm
    rw [none, Option.none_or] at fault
    -- the lax body has closed all conditionals, and the strict one with it
    have balanced : (b.performAll calls).openIfs = [] := by
      rw [last.same]
      exact closed
    have refusal : (b.performAll calls).fault = some e := by
      rcases (Body.segment_eq_error_iff _ e).mp refused with refusal | ⟨_, opened, _⟩
      · exact refusal
      · exact absurd balanced opened
    rw [refusal] at fault
    obtain ⟨⟨owner, cause⟩, first, same⟩ := Option.map_eq_some_iff.mp fault.symm
    exact ⟨owner, cause, first, same.symm⟩

/-- A scripted effect that shades pixels under a condition. -/
def shade : Custom where
  id := "shade"
  vertex := none
  pixel := some ⟨{
    id := "SHADE"
    location := .preLighting
    declarations := [.uniform .float "uShade"]
    main := [.startIf (.compare (.declared 0) .gt (.float 0.0)),
      .scale (.role .gColor) (.declared 0), .endIf] }, []⟩
  textures := []

def shadedFog : Material :=
  { create "m" { strictTypes := true } with effects := [.fog {}, .custom shade] }

/-- Calls of two owners. The second gives a float a vector twice. -/
def mixedCalls : List (Call Expr) :=
  let scale : Expr := .var "scale" (some .float)
  let light : Expr := .var "light" (some .vec3)
  [.setOwner "FIRST", .assign .mul light scale, .startIf (.compare scale .lt scale),
    .setOwner "SECOND", .temp .float light, .assign .set scale light, .endIf]

theorem compose_relaxed_shaded :
    (∃ c, shadedFog.settings.strictTypes = true ∧
      (shadedFog.compose (.create 8 false)).result = .ok c ∧
      (shadedFog.relaxed.compose (.create 8 false)).result = .ok c) ∧
    ∃ block e, ((Body.empty .fragment true).relaxed.performAll mixedCalls).segment = .ok block ∧
      ((Body.empty .fragment true).performAll mixedCalls).segment = .error e ∧
      e = .typeMismatch .fragment "SECOND" (.initialiser (automaticName .float 0) .float .vec3) := by
  obtain ⟨composes, segments⟩ := compose_relaxed
  constructor
  · have made : (shadedFog.compose (.create 8 false)).result.toOption.isSome = true := by
      decide +kernel
    cases composed : (shadedFog.compose (.create 8 false)).result with
    | error e =>
      rw [composed] at made
      cases made
    | ok c => exact ⟨c, rfl, rfl, composes shadedFog (.create 8 false) c rfl composed⟩
  · obtain ⟨_, refusals⟩ := segments (.empty .fragment true) mixedCalls rfl rfl
    refine ⟨_, _, rfl, rfl, ?_⟩
    obtain ⟨owner, cause, first, same⟩ := refusals _ _ rfl rfl
    obtain ⟨rfl, rfl⟩ := Prod.mk.inj (Option.some.inj first)
    exact same

end Material

end ShaderComposer
