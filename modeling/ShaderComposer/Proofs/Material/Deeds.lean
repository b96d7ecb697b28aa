import ShaderComposer.Proofs.Material.Standing

/-!
# What an operation does to a build

An operation on any backend does one of the deeds to the build, and which one it is shows in what
the operation is, in what the backend answers to the sources, in the operation's own answer and in
its log (`Operation.Does`). `Operation.exists_deed` says so for all operations.
-/

namespace ShaderComposer

/-! ### What an operation shows -/

section

variable {β : Type} [GraphicsBackend β]

/-- What the backend answers to the sources that compiling gives to it, if it comes that far. -/
def Material.ruling? (m : Material) (b : β) : Option (Except Rejection Nat) :=
  let composed := m.ensureComposedOn b
  match composed.result with
  | .error _ => none
  | .ok c =>
    if composed.material.unitLimitOn b < composed.material.units.total then none
    else some (GraphicsBackend.compileAndLink b c.vertex.source.text c.fragment.source.text).1

namespace Operation

variable (m : Material) (b : β)

/-- What the backend answers to the sources that the operation gives to it, if it does. -/
def ruling? : Operation → Option (Except Rejection Nat)
  | .compile => m.ruling? b
  | .build =>
    match (m.composeOn b).result with
    | .ok _ => (m.composeOn b).material.ruling? b
    | .error _ => none
  | _ => none

def LinksOn (op : Operation) : Prop := ∃ handle, op.ruling? m b = some (.ok handle)

def RejectsOn (op : Operation) : Prop := ∃ r, op.ruling? m b = some (.error r)

def LocatesOn (op : Operation) : Prop :=
  (op = .linkLocations ∨ op = .build) ∧ ∃ reply, (op.performOn m b).result = .ok reply

def UsesProgram : Operation → Prop
  | .linkLocations | .frame _ | .activate => True
  | _ => False

/-- The operation answers that the program is stale. -/
def RefusesOn (op : Operation) : Prop :=
  op.UsesProgram ∧ ((op.performOn m b).result = .ok (.activation .skipped) ∨
    ∃ name, (op.performOn m b).result = .error (.staleProgram name))

/-- The operation does this to the build, and it shows. -/
structure Does (op : Operation) (d : Deed) : Prop where
  standing : (op.performOn m b).material.standing = d.effect m.standing
  fits : d.Fits m.standing
  mutates : op.Mutates m ↔ d = .mutated
  resettles : op.Resettles m ↔ d = .resettled
  told : op = .contextLost ↔ d = .told
  links : op.LinksOn m b ↔ d.links = true
  reuses (p : LinkedProgram) (linked : d = .linked false p) : op = .compile ∧ m.Composed
  rejects : op.RejectsOn m b ↔ d.rejects = true
  locates : op.LocatesOn m b ↔ d.locates = true
  refuses : op.RefusesOn m b ↔ d.refuses = true
  warnings : (op.performOn m b).log.count m.staleWarning = d.warnings m.standing

end Operation

namespace LocationTable

theorem calm_missingRecords (kind consequence name : String) (l : Location) :
    Calm (missingRecords kind consequence name l) := by
  unfold missingRecords
  split
  · exact calm_nil
  · exact calm_singleton (by simp)

theorem calm_resolveEach {look : LocationTable → String → LocationTable × List LogRecord}
    (each : ∀ t name, Calm (look t name).2) (names : List String) (t : LocationTable) :
    Calm (resolveEach look names t).2 := by
  induction names generalizing t with
  | nil => exact calm_nil
  | cons name rest ih => exact (each t name).append (ih _)

theorem calm_learnUniform (t : LocationTable) (name : String) (l : Location) :
    Calm (t.learnUniform name l).2 := by
  unfold learnUniform
  split
  · exact calm_nil
  · exact calm_missingRecords _ _ _ _

theorem calm_learnAttribute (t : LocationTable) (name : String) (l : Location) :
    Calm (t.learnAttribute name l).2 := by
  unfold learnAttribute
  split
  · exact calm_nil
  · exact calm_missingRecords _ _ _ _

theorem calm_resolveOn (t : LocationTable) (b : β) (program : Nat)
    (uniforms attributes : List String) : Calm (t.resolveOn b program uniforms attributes).2 :=
  (calm_resolveEach (fun t name => t.calm_learnUniform name _) uniforms t).append
    (calm_resolveEach (fun t name => t.calm_learnAttribute name _) attributes _)

end LocationTable

namespace Material

theorem calm_resolveAllOn (b : β) (program : Nat) (lookups : List Lookup) (t : LocationTable) :
    Calm (resolveAllOn b program lookups t).2 := by
  induction lookups generalizing t with
  | nil => exact calm_nil
  | cons l rest ih => exact (t.calm_resolveOn b program l.uniforms l.attributes).append (ih _)

/-! ### Compiling -/

variable {m : Material} {b : β}

/-- What compiling does with a composition that was found or made. -/
theorem compileOn_of_composed {c : Composition} {n : Material} {log : List LogRecord}
    (composing : m.ensureComposedOn b = ⟨.ok c, n, b, log⟩) (calm : Calm log) :
    Calm (m.compileOn b).log ∧
      ((m.ruling? b = none ∧ (∃ e, (m.compileOn b).result = .error e) ∧
          (m.compileOn b).material = n) ∨
        (∃ r, m.ruling? b = some (.error r) ∧ (∃ e, (m.compileOn b).result = .error e) ∧
          (m.compileOn b).material = n.retire) ∨
        ∃ handle, m.ruling? b = some (.ok handle) ∧ (m.compileOn b).result = .ok handle ∧
          (m.compileOn b).material =
            n.withLinked handle (GraphicsBackend.contextGeneration (m.compileOn b).backend)) := by
  unfold compileOn ruling?
  simp only [composing, OutcomeOn.andThen]
  by_cases exceeds : n.unitLimitOn b < n.units.total
  · simp only [if_pos exceeds]
    exact ⟨calm.append calm_nil, Or.inl ⟨trivial, ⟨_, rfl⟩, trivial⟩⟩
  · simp only [if_neg exceeds, compileCompositionOn]
    rcases GraphicsBackend.compileAndLink b c.vertex.source.text c.fragment.source.text
      with ⟨r | handle, d⟩
    · exact ⟨calm.append (calm_singleton (by simp [report])), Or.inr (Or.inl ⟨r, rfl, ⟨_, rfl⟩, rfl⟩)⟩
    · exact ⟨calm.append (n.calm_programRecord handle), Or.inr (Or.inr ⟨handle, rfl, rfl, rfl⟩)⟩

theorem compileOn_of_failed {e : ShaderError} (failed : (m.ensureComposedOn b).result = .error e) :
    m.ruling? b = none ∧ (m.compileOn b).result = .error e ∧
      (m.compileOn b).material = (m.ensureComposedOn b).material ∧
      (m.compileOn b).log = (m.ensureComposedOn b).log := by
  simp only [ruling?, compileOn, OutcomeOn.andThen, failed, and_self]

theorem state_of_current (current : m.composedVersion = m.version) : m.state = m.progress := by
  simp [state, isCurrent, current]

/-! ### Calls on the live program -/

/-- The live program is given, or nothing is linked, or the program is refused as stale or as one
of a lost context. -/
theorem liveProgramOn_cases (m : Material) (b : β) (required : BuildState) :
    (∃ p, m.program = .live p ∧ p.generation = GraphicsBackend.contextGeneration b ∧
        p.version = m.version ∧ m.progress.reaches required = true ∧
        m.liveProgramOn b required = (.ok p.handle, m, [])) ∨
      m.liveProgramOn b required = (.error (.notLinked m.name), m, []) ∨
      (m.standing.IsStale ∧ m.liveProgramOn b required = m.refuseStale) ∨
      (∃ p, m.program = .live p ∧ p.generation ≠ GraphicsBackend.contextGeneration b) ∧
        m.liveProgramOn b required = m.contextLost.refuseStale := by
  unfold liveProgramOn
  cases program : m.program with
  | none => exact Or.inr (Or.inl rfl)
  | invalidated =>
    refine Or.inr (Or.inr (Or.inl ⟨?_, rfl⟩))
    simp only [Standing.IsStale, standing, program]
  | retired p =>
    refine Or.inr (Or.inr (Or.inl ⟨?_, rfl⟩))
    simp only [Standing.IsStale, standing, program]
  | live p =>
    by_cases generation : p.generation = GraphicsBackend.contextGeneration b
    · by_cases version : p.version = m.version
      · simp only [generation, version, ne_eq, not_true_eq_false, ite_false]
        cases far : m.progress.reaches required with
        | true => exact Or.inl ⟨p, rfl, generation, version, rfl, rfl⟩
        | false => exact Or.inr (Or.inl rfl)
      · simp only [generation, version, ne_eq, not_true_eq_false, ite_false, not_false_eq_true,
          ite_true]
        refine Or.inr (Or.inr (Or.inl ⟨?_, trivial⟩))
        simpa only [Standing.IsStale, standing, program] using version
    · simp only [generation, ne_eq, not_false_eq_true, ite_true]
      exact Or.inr (Or.inr (Or.inr ⟨⟨p, rfl, generation⟩, trivial⟩))

/-! ### Calls of a frame -/

/-- A call on the live program does what it does with the program, or nothing, or is refused. -/
theorem withProgramOn_cases {α : Type} (m : Material) (b : β) (required : BuildState)
    (act : Nat → Material → OutcomeOn β α) :
    (∃ p, m.program = .live p ∧ p.generation = GraphicsBackend.contextGeneration b ∧
        p.version = m.version ∧ m.progress.reaches required = true ∧
        m.withProgramOn b required act = act p.handle m) ∨
      (¬ ∃ a, (m.withProgramOn b required act).result = .ok a) ∧
        m.Visit (m.withProgramOn b required act) := by
  unfold withProgramOn
  rcases m.liveProgramOn_cases b required with ⟨p, live, generation, version, far, given⟩ | given |
    ⟨stale, given⟩ | ⟨⟨p, live, _⟩, given⟩
  · exact Or.inl ⟨p, live, generation, version, far, by rw [given]⟩
  · rw [given]
    exact Or.inr ⟨by simp, .notLinked ⟨_, rfl⟩ rfl calm_nil⟩
  · rw [given]
    exact Or.inr ⟨by simp [refuseStale_eq],
      .refused .refused rfl stale ⟨_, rfl⟩ rfl m.count_refuseStale⟩
  · rw [given]
    refine Or.inr ⟨by simp [refuseStale_eq], .refused .detected rfl ⟨p, live⟩ ⟨_, rfl⟩ ?_
      m.contextLost.count_refuseStale⟩
    have lost := m.standing_contextLost
    show { m.contextLost with staleReported := true }.standing = _
    simp only [Deed.effect, ← lost]
    rfl

theorem linkLocationsOn_cases (m : Material) (b : β) :
    (∃ p, m.program = .live p ∧ p.version = m.version ∧ m.progress.reaches .linked = true ∧
        m.linkLocationsOn b =
          ⟨.ok (), m.withLocations (m.lookUpOn b p.handle).1, b, (m.lookUpOn b p.handle).2⟩) ∨
      (¬ ∃ a, (m.linkLocationsOn b).result = .ok a) ∧ m.Visit (m.linkLocationsOn b) := by
  rcases m.withProgramOn_cases b .linked fun handle m =>
    ⟨.ok (), m.withLocations (m.lookUpOn b handle).1, b, (m.lookUpOn b handle).2⟩
    with ⟨p, live, _, version, far, given⟩ | visit
  · exact Or.inl ⟨p, live, version, far, given⟩
  · exact Or.inr visit

theorem visit_withProgramOn {α : Type} {required : BuildState}
    {act : Nat → Material → OutcomeOn β α}
    (acts : ∀ handle, (∃ a, (act handle m).result = .ok a) ∧
      (act handle m).material.standing = m.standing ∧ Calm (act handle m).log) :
    m.Visit (m.withProgramOn b required act) := by
  rcases m.withProgramOn_cases b required act with ⟨p, _, _, _, _, given⟩ | ⟨_, visit⟩
  · rw [given]
    obtain ⟨⟨a, result⟩, standing, calm⟩ := acts p.handle
    exact .done a result standing calm
  · exact visit

theorem visit_useProgramOn (m : Material) (b : β) : m.Visit (m.useProgramOn b) :=
  visit_withProgramOn fun _ => ⟨⟨(), rfl⟩, rfl, calm_nil⟩

theorem visit_applyParamsOn (m : Material) (b : β) : m.Visit (m.applyParamsOn b) :=
  visit_withProgramOn fun _ => ⟨⟨(), rfl⟩, rfl, calm_nil⟩

theorem visit_bindTexturesOn (m : Material) (b : β) : m.Visit (m.bindTexturesOn b) :=
  visit_withProgramOn fun _ => ⟨⟨_, rfl⟩, rfl, m.calm_overflowRecords _⟩

end Material

theorem FrameCall.visit_performOn (m : Material) (b : β) (call : FrameCall) :
    m.Visit (call.performOn m b) := by
  cases call with
  | useProgram => exact (m.visit_useProgramOn b).map _
  | applyParams => exact (m.visit_applyParamsOn b).map _
  | bindTextures => exact (m.visit_bindTexturesOn b).map _
  | unbindTextures =>
    have visit : m.Visit (m.unbindTexturesOn b) :=
      Material.visit_withProgramOn fun _ => ⟨⟨(), rfl⟩, rfl, calm_nil⟩
    exact visit.map _
  | bindAttributes v =>
    have visit : m.Visit (m.bindAttributesOn b v) :=
      Material.visit_withProgramOn fun _ => ⟨⟨(), rfl⟩, rfl, calm_nil⟩
    exact visit.map _

/-! ### Operations -/

namespace Operation

variable {m : Material} {b : β} {op : Operation} {d : Deed}

theorem ruling?_eq_none (h : op ≠ .compile) (k : op ≠ .build) : op.ruling? m b = none := by
  cases op <;> first | rfl | exact absurd rfl h | exact absurd rfl k

theorem does_of_plain (compile : op ≠ .compile) (build : op ≠ .build) (uses : ¬ op.UsesProgram)
    (calm : Calm (op.performOn m b).log)
    (standing : (op.performOn m b).material.standing = d.effect m.standing)
    (plain : d.links = false ∧ d.rejects = false ∧ d.locates = false ∧ d.refuses = false)
    (fits : d.Fits m.standing) (mutates : op.Mutates m ↔ d = .mutated)
    (resettles : op.Resettles m ↔ d = .resettled) (told : op = .contextLost ↔ d = .told) :
    op.Does m b d := by
  obtain ⟨links, rejects, locates, refuses⟩ := plain
  have ruling : op.ruling? m b = none := ruling?_eq_none compile build
  have locate : op ≠ .linkLocations := fun same => uses (same ▸ trivial)
  refine ⟨standing, fits, mutates, resettles, told, ?_, ?_, ?_, ?_, ?_, ?_⟩
  · simp [LinksOn, ruling, links]
  · intro p linked
    rw [linked] at links
    cases links
  · simp [RejectsOn, ruling, rejects]
  · simp [LocatesOn, locate, build, locates]
  · simp [RefusesOn, uses, refuses]
  · rw [calm.count_staleWarning]
    cases d <;> first | rfl | cases refuses

theorem does_of_use (uses : op.UsesProgram) (warnings :
      (op.performOn m b).log.count m.staleWarning = d.warnings m.standing)
    (standing : (op.performOn m b).material.standing = d.effect m.standing)
    (fits : d.Fits m.standing) (locates : op.LocatesOn m b ↔ d.locates = true)
    (refuses : op.RefusesOn m b ↔ d.refuses = true)
    (kinds : d = .kept ∨ (∃ t, d = .located t) ∨ d.refuses = true) : op.Does m b d := by
  have ruling : op.ruling? m b = none := by cases op <;> first | rfl | exact uses.elim
  have plain : d.links = false ∧ d.rejects = false ∧ d ≠ .mutated ∧ d ≠ .resettled ∧ d ≠ .told := by
    rcases kinds with rfl | ⟨t, rfl⟩ | refuses
    · simp [Deed.links, Deed.rejects]
    · simp [Deed.links, Deed.rejects]
    · cases d <;> simp [Deed.refuses, Deed.links, Deed.rejects] at refuses ⊢
  obtain ⟨links, rejects, mutated, resettled, told⟩ := plain
  refine ⟨standing, fits, ?_, ?_, ?_, ?_, ?_, ?_, locates, refuses, warnings⟩
  · cases op <;> first | exact uses.elim | simp [Mutates, mutated]
  · cases op <;> first | exact uses.elim | simp [Resettles, resettled]
  · cases op <;> first | exact uses.elim | simp [told]
  · simp [LinksOn, ruling, links]
  · intro p linked
    rw [linked] at links
    cases links
  · simp [RejectsOn, ruling, rejects]

/-- A call of a frame keeps the build, or is refused. -/
theorem exists_does_of_visit (uses : op.UsesProgram) (link : op ≠ .linkLocations)
    (visit : m.Visit (op.performOn m b))
    (unskipped : (op.performOn m b).result ≠ .ok (.activation .skipped)) :
    ∃ d, op.Does m b d := by
  have build : op ≠ .build := fun same => by rw [same] at uses; exact uses
  have locates : ¬ op.LocatesOn m b := by simp [LocatesOn, link, build]
  cases visit with
  | done a result standing calm =>
    refine ⟨.kept, does_of_use uses (calm.count_staleWarning m) standing trivial ?_ ?_ (Or.inl rfl)⟩
    · simp [locates, Deed.locates]
    · simp [RefusesOn, result ▸ unskipped, result, Deed.refuses]
  | notLinked result standing calm =>
    obtain ⟨name, result⟩ := result
    refine ⟨.kept, does_of_use uses (calm.count_staleWarning m) standing trivial ?_ ?_ (Or.inl rfl)⟩
    · simp [locates, Deed.locates]
    · simp [RefusesOn, result, Deed.refuses]
  | refused d refuses fits result standing warnings =>
    refine ⟨d, does_of_use uses warnings standing fits ?_ ?_ (Or.inr (Or.inr refuses))⟩
    · cases d <;> simp [locates, Deed.locates, Deed.refuses] at refuses ⊢
    · simp [RefusesOn, uses, result, refuses]

theorem exists_does_linkLocations (m : Material) (b : β) : ∃ d, linkLocations.Does m b d := by
  have uses : linkLocations.UsesProgram := trivial
  have locates : linkLocations.LocatesOn m b ↔ ∃ a, (m.linkLocationsOn b).result = .ok a := by
    simp only [LocatesOn, performOn, OutcomeOn.map, true_or, true_and]
    cases (m.linkLocationsOn b).result <;> simp [Except.map]
  rcases m.linkLocationsOn_cases b with ⟨p, live, version, far, given⟩ | ⟨failed, visit⟩
  · refine ⟨.located (m.lookUpOn b p.handle).1, does_of_use uses ?_ ?_ ⟨p, live, version, far⟩ ?_ ?_
      (Or.inr (Or.inl ⟨_, rfl⟩))⟩
    · simp only [performOn, given, OutcomeOn.map]
      exact (Material.calm_resolveAllOn b p.handle m.lookups .empty).count_staleWarning m
    · simp only [performOn, given, OutcomeOn.map]
      rfl
    · rw [locates, given]
      simp [Deed.locates]
    · simp only [RefusesOn, performOn, given, OutcomeOn.map]
      simp [Deed.refuses, Except.map]
  · cases visit with
    | done a result _ _ => exact absurd ⟨a, result⟩ failed
    | notLinked result standing calm =>
      obtain ⟨name, result⟩ := result
      refine ⟨.kept, does_of_use uses ?_ standing trivial ?_ ?_ (Or.inl rfl)⟩
      · exact calm.count_staleWarning m
      · rw [locates, iff_false_left failed]
        simp [Deed.locates]
      · simp [RefusesOn, performOn, OutcomeOn.map, result, Except.map, Deed.refuses]
    | refused d refuses fits result standing warnings =>
      obtain ⟨name, result⟩ := result
      refine ⟨d, does_of_use uses warnings standing fits ?_ ?_ (Or.inr (Or.inr refuses))⟩
      · rw [locates, iff_false_left failed]
        cases d <;> simp [Deed.locates, Deed.refuses] at refuses ⊢
      · simp [RefusesOn, uses, performOn, OutcomeOn.map, result, Except.map, refuses]

theorem exists_does_frame (m : Material) (b : β) (call : FrameCall) :
    ∃ d, (frame call).Does m b d := by
  refine exists_does_of_visit trivial (by simp) (call.visit_performOn m b) fun skipped => ?_
  cases call <;> obtain ⟨_, reply⟩ := OutcomeOn.of_result_map skipped <;> cases reply

def activation (m : Material) (b : β) : OutcomeOn β Material.Activation :=
  (m.useProgramOn b).andThen fun _ m b =>
    (m.bindTexturesOn b).andThen fun units m b =>
      (m.applyParamsOn b).andThen fun _ m b => ⟨.ok (.ready units), m, b, []⟩

theorem visit_activation (m : Material) (b : β) : m.Visit (activation m b) :=
  (m.visit_useProgramOn b).andThen fun _ => (Material.visit_bindTexturesOn _ _).andThen fun units =>
    (Material.visit_applyParamsOn _ _).andThen fun _ => .done (.ready units) rfl rfl calm_nil

theorem activation_ne_skipped (m : Material) (b : β) :
    ((activation m b).map Reply.activation).result ≠ .ok (.activation .skipped) := by
  intro skipped
  have ok : (activation m b).result = .ok .skipped := by
    cases result : (activation m b).result with
    | error e => simp [OutcomeOn.map, result, Except.map] at skipped
    | ok a => simpa [OutcomeOn.map, result, Except.map] using skipped
  obtain ⟨_, _, rest, _⟩ := OutcomeOn.of_result_andThen ok
  obtain ⟨_, _, rest, _⟩ := OutcomeOn.of_result_andThen rest
  obtain ⟨_, _, rest, _⟩ := OutcomeOn.of_result_andThen rest
  cases rest

theorem exists_does_activate (m : Material) (b : β) : ∃ d, activate.Does m b d := by
  have uses : activate.UsesProgram := trivial
  have whole (same : m.activateOn b = activation m b) : ∃ d, activate.Does m b d := by
    refine exists_does_of_visit trivial (by simp) ?_ ?_
    · rw [performOn, same]
      exact (visit_activation m b).map _
    · rw [performOn, same]
      exact activation_ne_skipped m b
  cases m.visit_useProgramOn b with
  | done a result _ _ => exact whole (by simp only [Material.activateOn, result]; rfl)
  | notLinked result _ _ =>
    obtain ⟨name, result⟩ := result
    exact whole (by simp only [Material.activateOn, result]; rfl)
  | refused d refuses fits result standing warnings =>
    obtain ⟨name, result⟩ := result
    have skipped : m.activateOn b = { m.useProgramOn b with result := .ok .skipped } := by
      simp only [Material.activateOn, result]
    refine ⟨d, does_of_use uses ?_ ?_ fits ?_ ?_ (Or.inr (Or.inr refuses))⟩
    · rw [← warnings, performOn, skipped]
      rfl
    · rw [← standing, performOn, skipped]
      rfl
    · cases d <;> simp [LocatesOn, Deed.locates, Deed.refuses] at refuses ⊢
    · simp [RefusesOn, uses, performOn, skipped, OutcomeOn.map, Except.map, refuses]

/-! ### Building -/

theorem does_of_building (building : op = .compile ∨ op = .build)
    (standing : (op.performOn m b).material.standing = d.effect m.standing) (fits : d.Fits m.standing)
    (calm : Calm (op.performOn m b).log) (links : op.LinksOn m b ↔ d.links = true)
    (reuses : ∀ p, d = .linked false p → op = .compile ∧ m.Composed)
    (rejects : op.RejectsOn m b ↔ d.rejects = true) (locates : op.LocatesOn m b ↔ d.locates = true)
    (kinds : d.refuses = false ∧ d ≠ .mutated ∧ d ≠ .resettled ∧ d ≠ .told) : op.Does m b d := by
  obtain ⟨refuses, mutated, resettled, told⟩ := kinds
  refine ⟨standing, fits, ?_, ?_, ?_, links, reuses, rejects, locates, ?_, ?_⟩
  · rcases building with rfl | rfl <;> simp [Mutates, mutated]
  · rcases building with rfl | rfl <;> simp [Resettles, resettled]
  · rcases building with rfl | rfl <;> simp [told]
  · rcases building with rfl | rfl <;> simp [RefusesOn, UsesProgram, refuses]
  · rw [calm.count_staleWarning]
    cases d <;> first | rfl | cases refuses

theorem not_locates_compile (m : Material) (b : β) : ¬ compile.LocatesOn m b := by
  simp [LocatesOn]

theorem exists_does_compile_of_composed {c : Composition} {n : Material} {log : List LogRecord}
    (anew : Bool) (composing : m.ensureComposedOn b = ⟨.ok c, n, b, log⟩) (calm : Calm log)
    (standing : n.standing = m.standing.composeIf anew) (found : anew = false → m.Composed) :
    ∃ d, compile.Does m b d := by
  have current (old : anew = false) : m.standing.composedVersion = m.standing.version :=
    m.composed_current (found old)
  have version : n.version = m.version := by
    have same := congrArg Standing.version standing
    cases anew <;> exact same
  obtain ⟨calm, ⟨ruling, _, material⟩ | ⟨r, ruling, _, material⟩ | ⟨handle, ruling, _, material⟩⟩ :=
    Material.compileOn_of_composed composing calm
  · have answer : compile.ruling? m b = none := ruling
    refine ⟨if anew then .composed else .kept, does_of_building (Or.inl rfl) ?_ ?_ calm ?_ ?_ ?_ ?_ ?_⟩
    · rw [performOn, OutcomeOn.map, material, standing]
      cases anew <;> rfl
    · cases anew <;> trivial
    · cases anew <;> simp [LinksOn, answer, Deed.links]
    · cases anew <;> simp
    · cases anew <;> simp [RejectsOn, answer, Deed.rejects]
    · cases anew <;> simp [not_locates_compile, Deed.locates]
    · cases anew <;> simp [Deed.refuses]
  · have answer : compile.ruling? m b = some (.error r) := ruling
    refine ⟨.rejected anew, does_of_building (Or.inl rfl) ?_ current calm ?_ (by simp) ?_ ?_ ?_⟩
    · have program : n.program = (m.standing.composeIf anew).program :=
        congrArg Standing.program standing
      rw [performOn, OutcomeOn.map, material, Material.standing_retire, standing, program]
      cases anew <;> rfl
    · simp [LinksOn, answer, Deed.links]
    · simp [RejectsOn, answer, Deed.rejects]
    · simp [not_locates_compile, Deed.locates]
    · simp [Deed.refuses]
  · have answer : compile.ruling? m b = some (.ok handle) := ruling
    refine ⟨.linked anew
      ⟨handle, GraphicsBackend.contextGeneration (m.compileOn b).backend, m.version⟩,
      does_of_building (Or.inl rfl) ?_ ⟨rfl, current⟩ calm ?_ ?_ ?_ ?_ ?_⟩
    · rw [performOn, OutcomeOn.map, material]
      simp only [Deed.effect, ← standing]
      simp only [Material.standing, Material.withLinked, Standing.link, version]
    · simp [LinksOn, answer, Deed.links]
    · intro p linked
      injection linked with old
      exact ⟨rfl, found old⟩
    · simp [RejectsOn, answer, Deed.rejects]
    · simp [not_locates_compile, Deed.locates]
    · simp [Deed.refuses]

theorem exists_does_compile (m : Material) (b : β) : ∃ d, compile.Does m b d := by
  by_cases composed : m.Composed
  · obtain ⟨c, made⟩ := Option.isSome_iff_exists.mp composed.1
    exact exists_does_compile_of_composed false
      (Material.ensureComposedOn_of_composed made composed.2 b) calm_nil rfl fun _ => composed
  · have anew := Material.ensureComposedOn_of_not_composed composed b
    obtain ⟨backend, calm, ⟨c, result, _, standing⟩ | ⟨e, reached, early, result, standing⟩⟩ :=
      m.composeOn_cases b
    · have composing : m.ensureComposedOn b =
          ⟨.ok c, (m.composeOn b).material, b, (m.composeOn b).log⟩ := by
        rw [anew, ← result]
        exact congrArg (fun backend => (⟨_, _, backend, _⟩ : OutcomeOn β Composition)) backend
      exact exists_does_compile_of_composed true composing calm standing (by simp)
    · have failed : (m.ensureComposedOn b).result = .error e := by rw [anew, result]
      obtain ⟨ruling, _, material, log⟩ := Material.compileOn_of_failed failed
      have answer : compile.ruling? m b = none := ruling
      rw [anew] at material log
      refine ⟨.uncomposed reached, does_of_building (Or.inl rfl) ?_ early ?_ ?_ (by simp) ?_ ?_ ?_⟩
      · rw [performOn, OutcomeOn.map, material, standing]
        rfl
      · rw [performOn, OutcomeOn.map, log]
        exact calm
      · simp [LinksOn, answer, Deed.links]
      · simp [RejectsOn, answer, Deed.rejects]
      · simp [not_locates_compile, Deed.locates]
      · simp [Deed.refuses]

theorem linkLocationsOn_withLinked (n : Material) (b : β) (handle : Nat) :
    (n.withLinked handle (GraphicsBackend.contextGeneration b)).linkLocationsOn b =
      ⟨.ok (), (n.withLinked handle (GraphicsBackend.contextGeneration b)).withLocations
        ((n.withLinked handle (GraphicsBackend.contextGeneration b)).lookUpOn b handle).1, b,
        ((n.withLinked handle (GraphicsBackend.contextGeneration b)).lookUpOn b handle).2⟩ := by
  simp [Material.linkLocationsOn, Material.withProgramOn, Material.liveProgramOn,
    Material.withLinked, BuildState.reaches]

/-- After composing, a build compiles and looks up all locations of what it linked. -/
theorem finishOn_of_composed {c : Composition} (composed : m.composed = some c)
    (far : m.state.reaches .bodyBuilt = true) (b : β) :
    Calm (m.finishOn b).log ∧
      ((m.ruling? b = none ∧ (∃ e, (m.finishOn b).result = .error e) ∧
          (m.finishOn b).material = m) ∨
        (∃ r, m.ruling? b = some (.error r) ∧ (∃ e, (m.finishOn b).result = .error e) ∧
          (m.finishOn b).material = m.retire) ∨
        ∃ handle generation t, m.ruling? b = some (.ok handle) ∧
          (m.finishOn b).result = .ok handle ∧
          (m.finishOn b).material = (m.withLinked handle generation).withLocations t) := by
  have stopped {e : ShaderError} (failed : (m.compileOn b).result = .error e) :
      (m.finishOn b).result = .error e ∧ (m.finishOn b).material = (m.compileOn b).material ∧
        (m.finishOn b).log = (m.compileOn b).log := by
    simp only [Material.finishOn, OutcomeOn.andThen, failed, and_self]
  obtain ⟨calm, ⟨ruling, ⟨e, failed⟩, material⟩ | ⟨r, ruling, ⟨e, failed⟩, material⟩ |
    ⟨handle, ruling, ok, material⟩⟩ := Material.compileOn_of_composed
      (Material.ensureComposedOn_of_composed composed far b) calm_nil
  · obtain ⟨result, left, log⟩ := stopped failed
    rw [result, left, log]
    exact ⟨calm, Or.inl ⟨ruling, ⟨e, rfl⟩, material⟩⟩
  · obtain ⟨result, left, log⟩ := stopped failed
    rw [result, left, log]
    exact ⟨calm, Or.inr (Or.inl ⟨r, ruling, ⟨e, rfl⟩, material⟩)⟩
  · have located := linkLocationsOn_withLinked m (m.compileOn b).backend handle
    rw [← material] at located
    have done : (m.finishOn b).result = .ok handle ∧
        (m.finishOn b).material = ((m.compileOn b).material.withLocations
          ((m.compileOn b).material.lookUpOn (m.compileOn b).backend handle).1) ∧
        (m.finishOn b).log = (m.compileOn b).log ++
          (((m.compileOn b).material.lookUpOn (m.compileOn b).backend handle).2 ++ []) := by
      simp only [Material.finishOn, OutcomeOn.andThen, ok, located, and_self]
    rw [done.1, done.2.1, done.2.2, material]
    exact ⟨calm.append ((Material.calm_resolveAllOn _ _ _ _).append calm_nil),
      Or.inr (Or.inr ⟨handle, _, _, ruling, rfl, rfl⟩)⟩

theorem exists_does_build (m : Material) (b : β) : ∃ d, build.Does m b d := by
  obtain ⟨backend, calm, ⟨c, composing, composed, standing⟩ | ⟨e, reached, early, failed, standing⟩⟩ :=
    m.composeOn_cases b
  · -- What was composed is compiled as it is.
    have far : (m.composeOn b).material.state.reaches .bodyBuilt = true := by
      have progress : (m.composeOn b).material.progress = .bodyBuilt :=
        congrArg Standing.progress standing
      have version : (m.composeOn b).material.version = m.version :=
        congrArg Standing.version standing
      have composedVersion : (m.composeOn b).material.composedVersion = m.version :=
        congrArg Standing.composedVersion standing
      rw [Material.state_of_current (composedVersion.trans version.symm), progress]
      rfl
    have asked : build.ruling? m b = (m.composeOn b).material.ruling? b := by
      simp only [ruling?, composing]
    obtain ⟨quiet, cases⟩ := finishOn_of_composed composed far b
    have built : (m.buildOn b).result = ((m.composeOn b).material.finishOn b).result ∧
        (m.buildOn b).material = ((m.composeOn b).material.finishOn b).material ∧
        (m.buildOn b).log = (m.composeOn b).log ++ ((m.composeOn b).material.finishOn b).log := by
      simp only [Material.buildOn, OutcomeOn.andThen, composing, backend, and_self]
    obtain ⟨result, material, log⟩ := built
    have calm : Calm (build.performOn m b).log := by
      rw [performOn, OutcomeOn.map, log]
      exact calm.append quiet
    have after : (build.performOn m b).material = ((m.composeOn b).material.finishOn b).material :=
      material
    have locates : build.LocatesOn m b ↔
        ∃ handle, ((m.composeOn b).material.finishOn b).result = .ok handle := by
      simp only [LocatesOn, performOn, OutcomeOn.map, or_true, true_and, result]
      cases ((m.composeOn b).material.finishOn b).result <;> simp [Except.map]
    rcases cases with ⟨ruling, ⟨e, failed⟩, made⟩ | ⟨r, ruling, ⟨e, failed⟩, made⟩ |
      ⟨handle, generation, t, ruling, ok, made⟩
    · refine ⟨.composed, does_of_building (Or.inr rfl) ?_ trivial calm ?_ (by simp) ?_ ?_ ?_⟩
      · rw [after, made]
        exact standing
      · simp [LinksOn, asked, ruling, Deed.links]
      · simp [RejectsOn, asked, ruling, Deed.rejects]
      · simp [locates, failed, Deed.locates]
      · simp [Deed.refuses]
    · refine ⟨.rejected true, does_of_building (Or.inr rfl) ?_ ?_ calm ?_ (by simp) ?_ ?_ ?_⟩
      · have program : (m.composeOn b).material.program = m.program :=
          congrArg Standing.program standing
        rw [after, made, Material.standing_retire, standing, program]
        rfl
      · simp [Deed.Fits]
      · simp [LinksOn, asked, ruling, Deed.links]
      · simp [RejectsOn, asked, ruling, Deed.rejects]
      · simp [locates, failed, Deed.locates]
      · simp [Deed.refuses]
    · refine ⟨.built ⟨handle, generation, m.version⟩ t,
        does_of_building (Or.inr rfl) ?_ rfl calm ?_ (by simp) ?_ ?_ ?_⟩
      · have version : (m.composeOn b).material.version = m.version :=
          congrArg Standing.version standing
        rw [after, made]
        simp only [Deed.effect, ← standing]
        simp only [Material.standing, Material.withLinked, Material.withLocations, Standing.link,
          Standing.locate, version]
      · simp [LinksOn, asked, ruling, Deed.links]
      · simp [RejectsOn, asked, ruling, Deed.rejects]
      · simp [locates, ok, Deed.locates]
      · simp [Deed.refuses]
  · have stopped : m.buildOn b = ⟨.error e, (m.composeOn b).material, (m.composeOn b).backend,
        (m.composeOn b).log⟩ := by
      simp only [Material.buildOn, OutcomeOn.andThen, failed]
    have answer : build.ruling? m b = none := by simp only [ruling?, failed]
    refine ⟨.uncomposed reached, does_of_building (Or.inr rfl) ?_ early ?_ ?_ (by simp) ?_ ?_ ?_⟩
    · rw [performOn, OutcomeOn.map, stopped]
      exact standing
    · rw [performOn, OutcomeOn.map, stopped]
      exact calm
    · simp [LinksOn, answer, Deed.links]
    · simp [RejectsOn, answer, Deed.rejects]
    · simp [LocatesOn, performOn, OutcomeOn.map, stopped, Except.map, Deed.locates]
    · simp [Deed.refuses]

/-! ### Other operations -/

theorem exists_does_of_mutator (plain : op ≠ .compile ∧ op ≠ .build ∧ op ≠ .contextLost)
    (uses : ¬ op.UsesProgram) (calm : Calm (op.performOn m b).log) (resettles : ¬ op.Resettles m)
    (cases : op.Mutates m ∧ m.Invalidated (op.performOn m b).material ∨
      ¬ op.Mutates m ∧ (op.performOn m b).material = m) :
    ∃ d, op.Does m b d := by
  obtain ⟨compile, build, told⟩ := plain
  rcases cases with ⟨mutates, invalidated⟩ | ⟨unchanged, same⟩
  · exact ⟨.mutated, does_of_plain compile build uses calm invalidated.standing
      ⟨rfl, rfl, rfl, rfl⟩ trivial (by simp [mutates]) (by simp [resettles]) (by simp [told])⟩
  · exact ⟨.kept, does_of_plain compile build uses calm (congrArg Material.standing same)
      ⟨rfl, rfl, rfl, rfl⟩ trivial (by simp [unchanged]) (by simp [resettles]) (by simp [told])⟩

theorem exists_does_of_settings (plain : op ≠ .compile ∧ op ≠ .build ∧ op ≠ .contextLost)
    (uses : ¬ op.UsesProgram) (calm : Calm (op.performOn m b).log) (mutates : ¬ op.Mutates m)
    {f : Settings → Settings}
    (resettles : op.Resettles m ↔ m.settings.requiresRebuild (f m.settings) = true)
    (material : (op.performOn m b).material = m.updateSettings f) : ∃ d, op.Does m b d := by
  obtain ⟨compile, build, told⟩ := plain
  cases rebuild : m.settings.requiresRebuild (f m.settings) with
  | true =>
    refine ⟨.resettled, does_of_plain compile build uses calm ?_ ⟨rfl, rfl, rfl, rfl⟩ trivial
      (by simp [mutates]) (by simp [resettles, rebuild]) (by simp [told])⟩
    rw [material]
    simp only [Material.updateSettings, rebuild, ite_true]
    rfl
  | false =>
    refine ⟨.kept, does_of_plain compile build uses calm ?_ ⟨rfl, rfl, rfl, rfl⟩ trivial
      (by simp [mutates]) (by simp [resettles, rebuild]) (by simp [told])⟩
    rw [material]
    simp only [Material.updateSettings, rebuild, Bool.false_eq_true, ite_false]
    rfl

theorem exists_does_of_kept (plain : op ≠ .compile ∧ op ≠ .build ∧ op ≠ .contextLost)
    (uses : ¬ op.UsesProgram) (calm : Calm (op.performOn m b).log) (mutates : ¬ op.Mutates m)
    (resettles : ¬ op.Resettles m) (standing : (op.performOn m b).material.standing = m.standing) :
    ∃ d, op.Does m b d := by
  obtain ⟨compile, build, told⟩ := plain
  exact ⟨.kept, does_of_plain compile build uses calm standing ⟨rfl, rfl, rfl, rfl⟩ trivial
    (by simp [mutates]) (by simp [resettles]) (by simp [told])⟩

/-- Every operation does one of the deeds. -/
theorem exists_deed (m : Material) (b : β) (op : Operation) : ∃ d, op.Does m b d := by
  cases op with
  | compile => exact exists_does_compile m b
  | build => exact exists_does_build m b
  | linkLocations => exact exists_does_linkLocations m b
  | frame call => exact exists_does_frame m b call
  | activate => exact exists_does_activate m b
  | setFeatures features =>
    exact exists_does_of_settings (f := fun s => { s with features := features }) (by simp)
      (by simp [UsesProgram]) calm_nil (by simp [Mutates]) Iff.rfl rfl
  | updateSettings f =>
    exact exists_does_of_settings (f := f) (by simp) (by simp [UsesProgram]) calm_nil
      (by simp [Mutates]) Iff.rfl rfl
  | setTime time =>
    exact exists_does_of_kept (by simp) (by simp [UsesProgram]) calm_nil (by simp [Mutates])
      (by simp [Resettles]) rfl
  | setVertexParams p =>
    exact exists_does_of_kept (by simp) (by simp [UsesProgram]) calm_nil (by simp [Mutates])
      (by simp [Resettles]) rfl
  | setFragmentParams p =>
    exact exists_does_of_kept (by simp) (by simp [UsesProgram]) calm_nil (by simp [Mutates])
      (by simp [Resettles]) rfl
  | setEffect s =>
    exact exists_does_of_kept (by simp) (by simp [UsesProgram]) calm_nil (by simp [Mutates])
      (by simp [Resettles]) rfl
  | contextLost =>
    exact ⟨.told, does_of_plain (by simp) (by simp) (by simp [UsesProgram]) calm_nil
      m.standing_contextLost ⟨rfl, rfl, rfl, rfl⟩ trivial (by simp [Mutates]) (by simp [Resettles])
      (by simp)⟩
  | release =>
    exact ⟨.released, does_of_plain (by simp) (by simp) (by simp [UsesProgram]) calm_nil
      rfl ⟨rfl, rfl, rfl, rfl⟩ trivial (by simp [Mutates]) (by simp [Resettles]) (by simp)⟩
  | compose =>
    obtain ⟨_, calm, ⟨c, _, _, standing⟩ | ⟨e, reached, early, _, standing⟩⟩ := m.composeOn_cases b
    · exact ⟨.composed, does_of_plain (by simp) (by simp) (by simp [UsesProgram]) calm standing
        ⟨rfl, rfl, rfl, rfl⟩ trivial (by simp [Mutates]) (by simp [Resettles]) (by simp)⟩
    · exact ⟨.uncomposed reached, does_of_plain (by simp) (by simp) (by simp [UsesProgram]) calm
        standing ⟨rfl, rfl, rfl, rfl⟩ early (by simp [Mutates]) (by simp [Resettles]) (by simp)⟩
  | addTexture t =>
    exact exists_does_of_mutator (by simp) (by simp [UsesProgram]) (m.calm_addTexture t)
      (by simp [Resettles]) (m.addTexture_cases t)
  | removeTexture name =>
    exact exists_does_of_mutator (by simp) (by simp [UsesProgram]) calm_nil (by simp [Resettles])
      (m.removeTexture_cases name)
  | addEffect e =>
    exact exists_does_of_mutator (by simp) (by simp [UsesProgram]) (m.calm_addEffect e)
      (by simp [Resettles]) (m.addEffect_cases e)
  | removeEffect id =>
    exact exists_does_of_mutator (by simp) (by simp [UsesProgram]) calm_nil (by simp [Resettles])
      (m.removeEffect_cases id)
  | clearEffects =>
    exact exists_does_of_mutator (by simp) (by simp [UsesProgram]) calm_nil (by simp [Resettles])
      m.clearEffects_cases

end Operation

end

end ShaderComposer
