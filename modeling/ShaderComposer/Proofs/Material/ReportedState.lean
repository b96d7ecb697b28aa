import ShaderComposer.Proofs.Material.HeadlessSession

/-!
# The reported state of a build

A material reports a state of its build, and its calls of a frame succeed or are refused; the two
are kept in different fields. They agree in every run on every backend as long as no compilation was
rejected since the last program was linked: a rejection puts the program out of use and leaves the
state as it is.
-/

namespace ShaderComposer

/-! ### How a standing hangs together -/

theorem ProgramState.owned_retire (q : ProgramState) : q.retire.owned = q.owned := by
  cases q <;> rfl

/-- How the state of a build goes with its program; `rejected` tells whether a compilation was
rejected since the last program was linked. -/
structure Standing.Sound (rejected : Prop) (s : Standing) : Prop where
  owns : s.progress.reaches .linked = true →
    ∃ p, s.program.owned = some p ∧ p.version = s.composedVersion
  live (p : LinkedProgram) : s.program = .live p → ¬ rejected
  retired (p : LinkedProgram) : s.program = .retired p → rejected

namespace Standing.Sound

variable {rejected : Prop} {s : Standing}

/-- A build that has not come as far as linking. -/
theorem of_early (early : ¬ s.progress.reaches .linked = true)
    (live : ∀ p, s.program = .live p → ¬ rejected) (retired : ∀ p, s.program = .retired p → rejected) :
    s.Sound rejected :=
  ⟨fun far => absurd far early, live, retired⟩

theorem composeIf (sound : s.Sound rejected) (anew : Bool) : (s.composeIf anew).Sound rejected := by
  cases anew with
  | false => exact sound
  | true =>
    have early : ¬ BuildState.bodyBuilt.reaches .linked = true := by decide
    exact of_early early sound.live sound.retired

theorem link (s : Standing) {p : LinkedProgram} (version : p.version = s.composedVersion) :
    (s.link p).Sound False where
  owns _ := ⟨p, rfl, version⟩
  live _ _ := not_false
  retired _ retired := by cases retired

theorem retire (sound : s.Sound rejected) : { s with program := s.program.retire }.Sound True where
  owns far := by
    rw [ProgramState.owned_retire]
    exact sound.owns far
  live p live := by
    cases program : s.program <;> simp [program, ProgramState.retire] at live
  retired _ _ := trivial

theorem lose (s : Standing) (rejected : Prop) : s.lose.Sound rejected := by
  have early : ¬ BuildState.declared.reaches .linked = true := by decide
  refine of_early (fun far => early (BuildState.reaches_of_earlier far)) ?_ ?_ <;>
    (intro p program; cases before : s.program <;>
      simp [Standing.lose, before, ProgramState.lose] at program)

/-- A deed that neither rejects nor links leaves it open whether a compilation was rejected. -/
theorem of_neither (d : Deed) (rejects : d.rejects = false) (links : d.links = false)
    (sound : s.Sound rejected) : s.Sound (d.rejects = true ∨ (rejected ∧ ¬ d.links = true)) := by
  simpa [rejects, links] using sound

theorem effect (sound : s.Sound rejected) {d : Deed} (fits : d.Fits s) :
    (d.effect s).Sound (d.rejects = true ∨ (rejected ∧ ¬ d.links = true)) := by
  have early {reached : BuildState} (h : reached = .created ∨ reached = .declared ∨
      reached = .bodyBuilt) : ¬ reached.reaches .linked = true := by
    rcases h with rfl | rfl | rfl <;> decide
  have current {anew : Bool} (old : anew = false → s.composedVersion = s.version) :
      (s.composeIf anew).composedVersion = s.version := by
    cases anew with
    | false => exact old rfl
    | true => rfl
  cases d with
  | kept => exact of_neither .kept rfl rfl sound
  | mutated =>
    refine of_neither .mutated rfl rfl ?_
    exact of_early (early (Or.inl rfl)) sound.live sound.retired
  | resettled =>
    refine of_neither .resettled rfl rfl ?_
    exact ⟨sound.owns, sound.live, sound.retired⟩
  | composed =>
    refine of_neither .composed rfl rfl ?_
    exact of_early (early (Or.inr (Or.inr rfl))) sound.live sound.retired
  | uncomposed reached =>
    refine of_neither (.uncomposed reached) rfl rfl ?_
    exact of_early (early (fits.imp_right Or.inl)) sound.live sound.retired
  | linked anew p =>
    obtain ⟨version, old⟩ := fits
    have shows : (Deed.linked anew p).rejects = true ∨ (rejected ∧ ¬ (Deed.linked anew p).links = true) ↔
        False := by simp [Deed.rejects, Deed.links]
    rw [shows]
    exact link (s.composeIf anew) (version.trans (current old).symm)
  | rejected anew =>
    have shows : (Deed.rejected anew).rejects = true ∨
        (rejected ∧ ¬ (Deed.rejected anew).links = true) ↔ True := by simp [Deed.rejects]
    rw [shows]
    cases anew <;> exact (sound.composeIf _).retire
  | located t =>
    obtain ⟨p, live, version, far⟩ := fits
    refine of_neither (.located t) rfl rfl ?_
    exact ⟨fun _ => sound.owns far, sound.live, sound.retired⟩
  | built p t =>
    have shows : (Deed.built p t).rejects = true ∨ (rejected ∧ ¬ (Deed.built p t).links = true) ↔
        False := by simp [Deed.rejects, Deed.links]
    rw [shows]
    have linked := link s.compose (p := p) fits
    exact ⟨fun _ => ⟨p, rfl, fits⟩, linked.live, linked.retired⟩
  | told =>
    refine of_neither .told rfl rfl ?_
    exact lose s rejected
  | released =>
    refine of_neither .released rfl rfl ?_
    exact of_early (early (Or.inl rfl)) (fun _ live => by cases live)
      (fun _ retired => by cases retired)
  | refused =>
    refine of_neither .refused rfl rfl ?_
    exact ⟨sound.owns, sound.live, sound.retired⟩
  | detected =>
    refine of_neither .detected rfl rfl ?_
    have lost := lose s rejected
    exact ⟨lost.owns, lost.live, lost.retired⟩

end Standing.Sound

/-! ### Runs -/

theorem Material.owned_standing (m : Material) : m.standing.program.owned = m.ownedProgram := by
  simp only [standing, ownedProgram]
  cases m.program <;> rfl

theorem Material.sound_create (name : String) (settings : Settings) :
    (create name settings).standing.Sound False := by
  have early : ¬ BuildState.created.reaches .linked = true := by decide
  exact .of_early early (fun _ _ => not_false) (fun _ retired => by cases retired)

namespace Session

variable {β : Type} [GraphicsBackend β]

theorem sound_run {s : Session β} (sound : s.material.standing.Sound False) (turns : List (Turn β)) :
    (s.run turns).material.standing.Sound (Since Rejects Links s turns) := by
  induction turns using List.reverseRecOn with
  | nil => exact sound
  | append_singleton turns t ih =>
    obtain ⟨d, does⟩ := (s.run turns).exists_deed t
    have next := ih.effect does.fits
    rw [← does.standing] at next
    have shows : Since Rejects Links s (turns ++ [t]) ↔
        (d.rejects = true ∨ (Since Rejects Links s turns ∧ ¬ d.links = true)) := by
      rw [since_snoc]
      exact or_congr does.rejects (and_congr_right fun _ => not_congr does.links)
    rw [run_append, shows]
    exact next

end Session

/-! ### Calls of a frame -/

section

variable {β : Type} [GraphicsBackend β] {m : Material} {b : β}

theorem Material.withProgramOn_ok_iff {α : Type} {act : Nat → Material → OutcomeOn β α}
    (acts : ∀ handle, ∃ a, (act handle m).result = .ok a) :
    (∃ a, (m.withProgramOn b .bound act).result = .ok a) ↔
      ∃ p, m.program = .live p ∧ p.generation = GraphicsBackend.contextGeneration b ∧
        p.version = m.version ∧ m.progress = .bound := by
  have reaches : m.progress.reaches .bound = true ↔ m.progress = .bound := by
    cases m.progress <;> decide
  constructor
  · intro ok
    rcases m.withProgramOn_cases b .bound act with ⟨p, live, generation, version, far, _⟩ | ⟨failed, _⟩
    · exact ⟨p, live, generation, version, reaches.mp far⟩
    · exact absurd ok failed
  · rintro ⟨p, live, generation, version, bound⟩
    have given : m.withProgramOn b .bound act = act p.handle m := by
      simp [withProgramOn, liveProgramOn, live, generation, version, reaches.mpr bound]
    rw [given]
    exact acts p.handle

/-- A call of a frame succeeds if the program is live, of the present context and version, and all
its locations were looked up. -/
theorem FrameCall.performOn_ok_iff (m : Material) (b : β) (call : FrameCall) :
    (∃ reply, (call.performOn m b).result = .ok reply) ↔
      ∃ p, m.program = .live p ∧ p.generation = GraphicsBackend.contextGeneration b ∧
        p.version = m.version ∧ m.progress = .bound := by
  cases call <;> exact OutcomeOn.map_ok_iff.trans
    (Material.withProgramOn_ok_iff fun _ => ⟨_, rfl⟩)

end

theorem Material.state_eq_bound_iff (m : Material) :
    m.state = .bound ↔ m.composedVersion = m.version ∧ m.progress = .bound := by
  unfold state isCurrent
  by_cases current : m.composedVersion = m.version <;> simp [current]

namespace Session

variable {β : Type} [GraphicsBackend β]

/-- In the context that the program was linked in, calls of a frame succeed if and only if the state
is bound, unless a compilation was rejected since. -/
theorem frame_ok_iff_bound (name : String) (settings : Settings) (b c : β) (turns : List (Turn β))
    (same : ∀ p, ((start name settings b).run turns).material.ownedProgram = some p →
      p.generation = GraphicsBackend.contextGeneration c) (call : FrameCall) :
    (∃ reply, (call.performOn ((start name settings b).run turns).material c).result = .ok reply) ↔
      ((start name settings b).run turns).material.state = .bound ∧
        ¬ Since Rejects Links (start name settings b) turns := by
  have sound := sound_run (s := start name settings b) (Material.sound_create name settings) turns
  generalize Since Rejects Links (start name settings b) turns = rejected at sound ⊢
  generalize ((start name settings b).run turns).material = m at same sound ⊢
  rw [FrameCall.performOn_ok_iff, Material.state_eq_bound_iff]
  constructor
  · rintro ⟨p, live, _, version, bound⟩
    have far : m.progress.reaches .linked = true := by rw [bound]; rfl
    obtain ⟨q, owned, composed⟩ := sound.owns far
    rw [Material.owned_standing, Material.ownedProgram_live live] at owned
    obtain rfl := Option.some.inj owned
    exact ⟨⟨composed.symm.trans version, bound⟩, sound.live p live⟩
  · rintro ⟨⟨current, bound⟩, unrejected⟩
    have far : m.progress.reaches .linked = true := by rw [bound]; rfl
    obtain ⟨p, owned, composed⟩ := sound.owns far
    have live : m.program = .live p := by
      cases program : m.program with
      | live q =>
        rw [Material.owned_standing, Material.ownedProgram_live program] at owned
        rw [Option.some.inj owned]
      | retired q => exact absurd (sound.retired q program) unrejected
      | none => simp [Material.standing, program, ProgramState.owned] at owned
      | invalidated => simp [Material.standing, program, ProgramState.owned] at owned
    exact ⟨p, live, same p (Material.ownedProgram_live live), composed.trans current, bound⟩

/-- A build on the headless backend can be used. -/
theorem frame_ok_of_build :
    ∃ p, ((start "m" {} (Backend.create 8 false)).run [{ op := .build }]).material.ownedProgram =
        some p ∧
      ((∃ reply, (FrameCall.useProgram.performOn
          ((start "m" {} (Backend.create 8 false)).run [{ op := .build }]).material
          ((start "m" {} (Backend.create 8 false)).run [{ op := .build }]).backend).result =
            .ok reply) ↔
        ((start "m" {} (Backend.create 8 false)).run [{ op := .build }]).material.state = .bound ∧
          ¬ Since Rejects Links (start "m" {} (Backend.create 8 false)) [{ op := .build }]) := by
  obtain ⟨c, p, ready⟩ := ready_start "m" 8
  have owned := Material.ownedProgram_live ready.live.live
  refine ⟨p, owned, frame_ok_iff_bound "m" {} _ _ [{ op := .build }] ?_ .useProgram⟩
  intro q same
  rw [← Option.some.inj (owned.symm.trans same)]
  exact ready.live.generation

/-- A build, and then a compilation that the backend rejects. -/
def rejectedRecompile : List (Turn Backend) :=
  [{ op := .build },
    { meanwhile := fun b => b.failNextCompile none "out of memory", op := .compile }]

/-- After a rejected compilation the state is still bound, in the context of the program that was
put out of use. -/
theorem refused_while_bound :
    ∃ p, ((start "m" {} (Backend.create 8 false)).run rejectedRecompile).material.ownedProgram =
        some p ∧
      p.generation = GraphicsBackend.contextGeneration
        ((start "m" {} (Backend.create 8 false)).run rejectedRecompile).backend ∧
      ((start "m" {} (Backend.create 8 false)).run rejectedRecompile).material.state = .bound ∧
      ¬ ∃ reply, (FrameCall.useProgram.performOn
        ((start "m" {} (Backend.create 8 false)).run rejectedRecompile).material
        ((start "m" {} (Backend.create 8 false)).run rejectedRecompile).backend).result =
          .ok reply := by
  obtain ⟨c, p, ready⟩ := ready_start "m" 8
  simp only [rejectedRecompile, run, List.foldl_cons, List.foldl_nil]
  obtain ⟨s, built⟩ : ∃ s, s = (start "m" {} (Backend.create 8 false)).step { op := .build } :=
    ⟨_, rfl⟩
  rw [← built] at ready ⊢
  obtain ⟨_, material, generation⟩ := ready.step_failing none "out of memory"
  rw [material]
  refine ⟨p, rfl, ready.live.generation.trans generation.symm, ready.bound, fun ok => ?_⟩
  obtain ⟨q, live, _⟩ := (FrameCall.performOn_ok_iff _ _ _).mp ok
  cases live

end Session

end ShaderComposer
