import ShaderComposer.Proofs.Material.Custody
import ShaderComposer.Proofs.Material.NewMaterial
import ShaderComposer.Proofs.Material.Session

/-!
# Sessions on the headless backend

What a material that was built does next on the headless backend: it compiles again as long as the
backend has nothing against it, and is rejected if a failure waits.
-/

namespace ShaderComposer

/-- What was linked was accepted, and no failure waits. -/
theorem Backend.of_compileAndLink_ok {b c : Backend} {vertex fragment : String} {handle : Nat}
    (linked : b.compileAndLink vertex fragment = (.ok handle, c)) :
    sourceFault vertex fragment = none ∧ c.pendingFailure = none := by
  unfold compileAndLink at linked
  dsimp only at linked
  split at linked
  · cases linked
  · next none =>
    cases linked
    exact ⟨(Option.or_eq_none_iff.mp none).2, rfl⟩

theorem Change.maxTextureUnits {π : Permit} {m n : Material} {b c : Backend} {links : List Link}
    (change : Change π m b links n c) : c.maxTextureUnits = b.maxTextureUnits := by
  have released (m : Material) (b : Backend) :
      (m.releaseProgram b).maxTextureUnits = b.maxTextureUnits := by
    rcases m.releaseProgram_cases b with ⟨p, _, _, deleted⟩ | ⟨_, kept⟩
    · rw [deleted]
      rfl
    · rw [kept]
  cases change with
  | adjusted _ _ _ | composed _ | notComposed _ _ | bound _ _ _ | lost _ | dropped _ => rfl
  | rejected failed =>
    rw [Backend.compileAndLink_error failed]
    rfl
  | linked _ _ _ done =>
    rw [released]
    unfold Backend.compileAndLink at done
    dsimp only at done
    split at done <;> cases done
    rfl
  | released _ => exact released m b

theorem Changes.maxTextureUnits {π : Permit} {m n : Material} {b c : Backend} {links : List Link}
    (changes : Changes π m b links n c) : c.maxTextureUnits = b.maxTextureUnits := by
  induction changes with
  | none => rfl
  | next change _ ih => rw [ih, change.maxTextureUnits]

namespace Material

variable {m : Material} {b : Backend}

theorem maxTextureUnits_build (m : Material) (b : Backend) :
    (m.build b).backend.maxTextureUnits = b.maxTextureUnits :=
  (m.build_changes (π := .any) b fun _ => trivial).maxTextureUnits

/-- A call for which no live program was built far enough is refused. It asks nothing of the backend
and brings no program to life. -/
theorem withProgram_refused {α : Type} (required : BuildState) (act : Nat → Material → Outcome α)
    (unready : ∀ p, m.IsLive b p → ¬ m.progress.reaches required = true) :
    (∃ e, (m.withProgram b required act).result = .error e) ∧
      (m.withProgram b required act).backend = b ∧
      ∀ p, (m.withProgram b required act).material.IsLive b p → m.IsLive b p := by
  have given : m.liveProgram b required = m.liveProgramOn b required := rfl
  unfold withProgram
  rw [given]
  rcases m.liveProgramOn_cases b required with ⟨p, live, generation, version, far, _⟩ | given |
    ⟨_, given⟩ | ⟨_, given⟩
  · exact absurd far (unready p ⟨live, generation, version⟩)
  · rw [given]
    exact ⟨⟨_, rfl⟩, rfl, fun p live => live⟩
  · rw [given]
    exact ⟨⟨_, rfl⟩, rfl, fun p live => ⟨live.live, live.generation, live.version⟩⟩
  · rw [given]
    refine ⟨⟨_, rfl⟩, rfl, fun p live => ?_⟩
    have lost : m.contextLost.program = .live p := live.live
    unfold contextLost at lost
    dsimp only at lost
    split at lost <;> cases lost

/-- What was built is composed and within the limit on units, and its sources are accepted. -/
theorem build_leaves {handle : Nat} (ok : (m.build b).result = .ok handle) :
    ∃ c, (m.build b).material.composed = some c ∧ (m.build b).material.state = .bound ∧
      (m.build b).material.units.total ≤ (m.build b).material.unitLimit (m.build b).backend ∧
      sourceFault c.vertex.source.text c.fragment.source.text = none ∧
      (m.build b).backend.pendingFailure = none := by
  obtain ⟨n, c, d, builds⟩ := exists_buildsBy ok
  obtain ⟨o, units, _, _, rfl⟩ := builds.composed
  obtain ⟨accepted, calm⟩ := Backend.of_compileAndLink_ok builds.linked
  have within := builds.within
  rw [unitLimit] at within
  simp only [unitLimit, maxTextureUnits_build]
  rw [builds.material, builds.backend]
  refine ⟨c, rfl, ?_, within, accepted, ?_⟩
  · exact if_pos (isCurrent_withComposition o c units)
  · rcases (o.withComposition c units).releaseProgram_cases d with ⟨p, _, _, deleted⟩ | ⟨_, kept⟩
    · rw [deleted]
      exact calm
    · rw [kept]
      exact calm

end Material

/-! ### Sessions -/

namespace Session

theorem step_headless (s : Session Backend) (t : Turn Backend) :
    s.step t = ⟨(t.op.perform s.material (t.meanwhile s.backend)).material,
      (t.op.perform s.material (t.meanwhile s.backend)).backend⟩ := by
  simp only [step, answer, Operation.performOn_headless]
  rfl

theorem features_of_build (s : Session Backend) :
    (s.step { op := .build }).material.settings.features = s.material.settings.features := by
  have changes := s.material.build_changes (π := .any) s.backend fun _ => trivial
  rw [step_headless]
  exact congrArg Configuration.features changes.configuration

/-- The material was built from a composition that the backend accepts. -/
structure Ready (s : Session Backend) (c : Composition) (p : LinkedProgram) : Prop where
  composed : s.material.composed = some c
  bound : s.material.state = .bound
  live : s.material.IsLive s.backend p
  units : s.material.units.total ≤ s.material.unitLimit s.backend
  accepted : sourceFault c.vertex.source.text c.fragment.source.text = none
  calm : s.backend.pendingFailure = none

theorem ready_of_build {s : Session Backend} {handle : Nat}
    (ok : (s.material.build s.backend).result = .ok handle) :
    ∃ c p, (s.step { op := .build }).Ready c p := by
  obtain ⟨c, composed, bound, units, accepted, calm⟩ := Material.build_leaves ok
  obtain ⟨p, _, live, _⟩ := Material.build_ready ok
  rw [step_headless]
  exact ⟨c, p, composed, bound, live, units, accepted, calm⟩

theorem locates_of_build {s : Session Backend} {handle : Nat}
    (ok : (s.material.build s.backend).result = .ok handle) : s.Locates { op := .build } := by
  refine ⟨Or.inr rfl, .program handle, ?_⟩
  rw [Operation.performOn_headless]
  show ((s.material.build s.backend).map Reply.program).result = _
  simp only [Outcome.map, ok]
  rfl

/-- A new material with default settings and the build of it. -/
theorem ready_start (name : String) (limit : Nat) :
    ∃ c p, ((start name {} (.create limit false)).step { op := .build }).Ready c p :=
  ready_of_build (Material.build_create name rfl)

namespace Ready

variable {s : Session Backend} {c : Composition} {p : LinkedProgram}

theorem far (ready : s.Ready c p) : s.material.state.reaches .bodyBuilt = true := by
  rw [ready.bound]
  rfl

/-- Compiling again, possibly with a failure waiting, is up to the backend alone. -/
theorem compile (ready : s.Ready c p) {b : Backend} (limit : b.maxTextureUnits =
    s.backend.maxTextureUnits) : s.material.compile b = s.material.compileComposition b c := by
  refine Material.compile_of_composed ready.composed ready.far ?_
  rw [Material.unitLimit, limit]
  exact ready.units

theorem ruling? (ready : s.Ready c p) {b : Backend} (limit : b.maxTextureUnits =
    s.backend.maxTextureUnits) : s.material.ruling? b =
      some (b.compileAndLink c.vertex.source.text c.fragment.source.text).1 := by
  have enough : ¬ s.material.unitLimitOn b < s.material.units.total := by
    refine Nat.not_lt.mpr ?_
    rw [Material.unitLimitOn, show GraphicsBackend.maxTextureUnits b = b.maxTextureUnits from rfl, limit]
    exact ready.units
  simp only [Material.ruling?, Material.ensureComposedOn_of_composed ready.composed ready.far,
    if_neg enough]
  rfl

/-- A failure that waits in the backend is the answer to compiling. -/
theorem compile_failing (ready : s.Ready c p) (stage : Option Stage) (log : String) :
    (s.material.compile (s.backend.failNextCompile stage log)).result =
      .error (.rejected ⟨stage, rejectedSource c.vertex.source.text c.fragment.source.text stage,
        log⟩) := by
  rw [ready.compile (b := s.backend.failNextCompile stage log) rfl]
  rfl

/-- A failure that waits in the backend puts the program out of use. -/
theorem step_failing (ready : s.Ready c p) (stage : Option Stage) (log : String) :
    let t : Turn Backend := { meanwhile := fun b => b.failNextCompile stage log, op := .compile }
    s.Rejects t ∧ (s.step t).material = { s.material with program := .retired p } ∧
      (s.step t).backend.contextGeneration = s.backend.contextGeneration := by
  intro t
  have failed : ((s.backend.failNextCompile stage log).compileAndLink c.vertex.source.text
      c.fragment.source.text).1 = .error ⟨stage, rejectedSource c.vertex.source.text
        c.fragment.source.text stage, log⟩ := rfl
  have rejected : s.Rejects t := by
    exact ⟨_, (ready.ruling? (b := s.backend.failNextCompile stage log) rfl).trans
      (congrArg some failed)⟩
  have compiled := ready.compile (b := s.backend.failNextCompile stage log) rfl
  unfold Material.compileComposition at compiled
  rcases linking : (s.backend.failNextCompile stage log).compileAndLink c.vertex.source.text
    c.fragment.source.text with ⟨r | handle, d⟩
  · rw [linking] at compiled
    rw [step_headless]
    simp only [t, Operation.perform, Outcome.map, compiled]
    refine ⟨rejected, ?_, (Backend.samePrograms_of_compileAndLink_error linking).1.contextGeneration⟩
    simp only [Material.retire, ready.live.live]
  · rw [linking] at failed
    cases failed

theorem step_compile (ready : s.Ready c p) :
    s.Links { op := .compile } ∧ ∃ handle generation,
      (s.step { op := .compile }).material = s.material.withLinked handle generation := by
  have linked := Backend.compileAndLink_of_accepted ready.calm ready.accepted
  have links : s.Links { op := .compile } :=
    ⟨_, (ready.ruling? (b := s.backend) rfl).trans (congrArg some linked)⟩
  have compiled := ready.compile (b := s.backend) rfl
  unfold Material.compileComposition at compiled
  rcases linking : s.backend.compileAndLink c.vertex.source.text c.fragment.source.text
    with ⟨r | handle, d⟩
  · rw [linking] at linked
    cases linked
  · rw [linking] at compiled
    rw [step_headless]
    simp only [Operation.perform, Outcome.map, id, compiled]
    exact ⟨links, _, _, rfl⟩

end Ready

end Session

end ShaderComposer
