import ShaderComposer.Proofs.Composition.Refusals
import ShaderComposer.Proofs.Material.Accounting
import ShaderComposer.Proofs.Material.FrameCalls
import ShaderComposer.Proofs.Material.HeadlessSession

/-!
# What failures leave behind

A texture that is refused changes nothing. A composition that fails leaves the material with nothing
composed, and otherwise as it was but for what fragments remember; it draws nothing until a program
is linked and its locations are looked up (`Session.rebuilds_of_bound`). A rejected compilation
counts and does nothing else to the backend, and a material with too many textures asks the backend
for nothing.
-/

namespace ShaderComposer

/-! ### Rebuilding -/

namespace Deed

variable {s : Standing} {d : Deed}

/-- Only looking up the locations brings a build to its end. -/
theorem bound_of_not_locates (fits : d.Fits s) (without : d.locates = false)
    (bound : (d.effect s).progress = .bound) : s.progress = .bound := by
  have early : s.progress.earlier .declared ≠ .bound := fun ended => by
    have far : (s.progress.earlier .declared).reaches .bound = true := by
      rw [ended]
      rfl
    cases BuildState.reaches_of_earlier far
  cases d with
  | kept | resettled | refused => exact bound
  | mutated | composed | linked _ _ | released => cases bound
  | uncomposed reached =>
    obtain rfl : reached = .bound := bound
    rcases fits with early | early <;> cases early
  | rejected anew =>
    cases anew with
    | false => exact bound
    | true => cases bound
  | located _ | built _ _ => cases without
  | told | detected => exact absurd bound early

/-- Only linking brings a build to a program. -/
theorem linked_of_not_links (fits : d.Fits s) (without : d.links = false)
    (far : (d.effect s).progress.reaches .linked = true) :
    s.progress.reaches .linked = true := by
  have early : ¬ BuildState.declared.reaches .linked = true := by decide
  cases d with
  | kept | resettled | refused => exact far
  | mutated | composed | released => cases far
  | uncomposed reached =>
    rcases fits with rfl | rfl <;> cases far
  | rejected anew =>
    cases anew with
    | false => exact far
    | true => cases far
  | located _ =>
    obtain ⟨_, _, _, linked⟩ := fits
    exact linked
  | linked _ _ | built _ _ => cases without
  | told | detected => exact absurd (BuildState.reaches_of_earlier far) early

end Deed

namespace Session

variable {β : Type} [GraphicsBackend β] {s : Session β}

/-- Some turn of a run has the property, in the session that it is taken in. -/
def Sometime (P : Session β → Turn β → Prop) : Session β → List (Turn β) → Prop
  | _, [] => False
  | s, t :: rest => P s t ∨ Sometime P (s.step t) rest

/-- A program is linked, and in the same turn or later its locations are looked up. -/
def Rebuilds : Session β → List (Turn β) → Prop
  | _, [] => False
  | s, t :: rest =>
    (Links s t ∧ (Locates s t ∨ Sometime Locates (s.step t) rest)) ∨ Rebuilds (s.step t) rest

variable {t : Turn β}

theorem bound_of_not_locates (without : ¬ s.Locates t)
    (bound : (s.step t).material.progress = .bound) : s.material.progress = .bound := by
  obtain ⟨d, does⟩ := s.exists_deed t
  have looksUp : d.locates = false := Bool.eq_false_iff.mpr fun yes =>
    without (does.locates.mpr yes)
  have after := congrArg Standing.progress does.standing
  exact d.bound_of_not_locates does.fits looksUp (after.symm.trans bound)

theorem linked_of_not_links (without : ¬ s.Links t)
    (far : (s.step t).material.progress.reaches .linked = true) :
    s.material.progress.reaches .linked = true := by
  obtain ⟨d, does⟩ := s.exists_deed t
  have makes : d.links = false := Bool.eq_false_iff.mpr fun yes => without (does.links.mpr yes)
  have after := congrArg Standing.progress does.standing
  refine d.linked_of_not_links does.fits makes ?_
  rw [← after]
  exact far

theorem locates_of_bound {turns : List (Turn β)} (unbound : s.material.progress ≠ .bound)
    (bound : (s.run turns).material.progress = .bound) : Sometime Locates s turns := by
  induction turns generalizing s with
  | nil => exact absurd bound unbound
  | cons t rest ih =>
    by_cases locates : s.Locates t
    · exact .inl locates
    · exact .inr (ih (fun after => unbound (bound_of_not_locates locates after)) bound)

/-- From before it is linked, a build only comes to its end by a rebuild. -/
theorem rebuilds_of_bound {turns : List (Turn β)}
    (early : ¬ s.material.progress.reaches .linked = true)
    (bound : (s.run turns).material.progress = .bound) : Rebuilds s turns := by
  induction turns generalizing s with
  | nil => exact absurd bound (BuildState.ne_bound_of_early early)
  | cons t rest ih =>
    by_cases links : s.Links t
    · refine .inl ⟨links, ?_⟩
      by_cases locates : s.Locates t
      · exact .inl locates
      · have unbound : (s.step t).material.progress ≠ .bound := fun ended =>
          BuildState.ne_bound_of_early early (bound_of_not_locates locates ended)
        exact .inr (locates_of_bound unbound bound)
    · exact .inr (ih (fun far => early (linked_of_not_links links far)) bound)

end Session

namespace Material

variable {m : Material} {b : Backend}

/-! ### Drawing nothing -/

/-- All calls of a frame are refused, an activation does not get ready, and nothing is recorded. -/
structure DrawsNothing (m : Material) (b : Backend) : Prop where
  frame (call : FrameCall) : (∃ e, (call.perform m b).result = .error e) ∧
    (call.perform m b).backend = b
  activate : (∀ count, (m.activate b).result ≠ .ok (.ready count)) ∧ (m.activate b).backend = b

theorem drawsNothing_of_not_bound (unbound : m.progress ≠ .bound) (b : Backend) :
    m.DrawsNothing b := by
  have refused {α : Type} (act : Nat → Material → Outcome α) :
      (∃ e, (m.withProgram b .bound act).result = .error e) ∧
        (m.withProgram b .bound act).backend = b := by
    have unready (p : LinkedProgram) (_ : m.IsLive b p) : ¬ m.progress.reaches .bound = true :=
      fun far => unbound (eq_bound_of_reaches far)
    obtain ⟨failed, kept, _⟩ := withProgram_refused .bound act unready
    exact ⟨failed, kept⟩
  have answers {α : Type} {o : Outcome α} (f : α → Reply)
      (failed : (∃ e, o.result = .error e) ∧ o.backend = b) :
      (∃ e, (o.map f).result = .error e) ∧ (o.map f).backend = b := by
    obtain ⟨⟨e, failed⟩, kept⟩ := failed
    exact ⟨⟨e, by simp only [Outcome.map, failed, Except.map]⟩, kept⟩
  constructor
  case frame =>
    intro call
    cases call <;> exact answers _ (refused _)
  case activate =>
    obtain ⟨⟨e, failed⟩, kept⟩ := refused (fun handle m =>
      ⟨.ok (), m, b.record (.useProgram handle), []⟩)
    change (m.useProgram b).result = .error e at failed
    change (m.useProgram b).backend = b at kept
    unfold activate
    dsimp only
    split
    · exact ⟨fun _ => by simp, kept⟩
    · simp only [Outcome.andThen, failed]
      exact ⟨fun _ => by simp, kept⟩

/-! ### Errors of composing -/

/-- Composing fails for something about a stage, or because the settings allow for too few units. -/
theorem composeParts_error {e : ShaderError} {reached : BuildState}
    (parts : m.composeParts = .error (e, reached)) :
    (∃ stage, e.stage? = some stage) ∨ ∃ requested limit, e = .tooManyTextures requested limit := by
  unfold composeParts at parts
  split at parts
  · next refused =>
    cases parts
    unfold planUnits UnitPlan.assign at refused
    split at refused
    · cases refused
      exact .inr ⟨_, _, rfl⟩
    · cases refused
  · split at parts
    · next refused =>
      cases parts
      exact .inl ⟨_, CoreShader.stage?_of_compose refused⟩
    · split at parts
      · next refused =>
        cases parts
        exact .inl ⟨_, CoreShader.stage?_of_compose refused⟩
      · cases parts

theorem compose_not_rejected {r : Rejection} : (m.compose b).result ≠ .error (.rejected r) := by
  intro failed
  rcases parts : m.composeParts with ⟨e, reached⟩ | ⟨c, units⟩
  · obtain ⟨n, _, composing⟩ := compose_of_refused parts b
    rw [composing] at failed
    obtain rfl : e = .rejected r := Except.error.inj failed
    rcases composeParts_error parts with ⟨stage, about⟩ | ⟨_, _, same⟩
    · cases about
    · cases same
  · obtain ⟨n, _, composing⟩ := compose_of_parts parts b
    rw [composing] at failed
    cases failed

/-! ### Compiling -/

/-- The rejection has the source of the stage that it is about, or both sources if they do not link. -/
structure Quotes (r : Rejection) (vertex fragment : String) : Prop where
  ofVertex : r.stage = some .vertex → r.source = vertex
  ofFragment : r.stage = some .fragment → r.source = fragment
  ofLinking : r.stage = none → r.source = vertex ++ "\n" ++ fragment

theorem quotes_of_compileAndLink {c : Backend} {vertex fragment : String} {r : Rejection}
    (failed : b.compileAndLink vertex fragment = (.error r, c)) : Quotes r vertex fragment := by
  unfold Backend.compileAndLink at failed
  dsimp only at failed
  split at failed
  · next stage log _ =>
    cases failed
    constructor
    all_goals
      rintro rfl
      rfl
  · cases failed

theorem composition_retire (m : Material) : m.retire.composition = m.composition := by
  unfold retire
  split <;> rfl

theorem ensureComposed_error {e : ShaderError} (failed : (m.ensureComposed b).result = .error e) :
    (m.compose b).result = .error e := by
  rcases m.ensureComposed_cases b with ⟨_, _, _, found⟩ | anew
  · rw [found] at failed
    cases failed
  · rwa [anew] at failed

/-! ### Failures -/

/-- What failures leave behind. -/
structure FailsCleanly (m : Material) (b : Backend) : Prop where
  addTexture (t : MaterialTexture) (e : ShaderError) :
    (m.addTexture t).1 = .error e → (m.addTexture t).2.1 = m
  /-- Nothing else changes than how far the build came, and what fragments remember. -/
  compose (e : ShaderError) : (m.compose b).result = .error e →
    (m.compose b).material.composition = none ∧ (m.compose b).backend = b ∧
    ∃ remembered reached, (reached = .created ∨ reached = .declared) ∧
      (m.compose b).material =
        { m with remembered := remembered, progress := reached, composed := none }
  refused (e : ShaderError) (c : Backend) (turns : List (Turn Backend)) :
    (m.compose b).result = .error e → ¬ Session.Rebuilds ⟨(m.compose b).material, c⟩ turns →
      ∀ d, (Session.run ⟨(m.compose b).material, c⟩ turns).material.DrawsNothing d
  /-- The backend was asked once, and did nothing but count. -/
  rejected (r : Rejection) : (m.compile b).result = .error (.rejected r) →
    (m.compile b).backend = { b with compileCount := b.compileCount + 1, pendingFailure := none } ∧
    ∃ c, (m.compile b).material.composition = some c ∧
      Quotes r c.vertex.source.text c.fragment.source.text
  crowded (requested limit : Nat) :
    (m.compile b).result = .error (.tooManyTextures requested limit) →
      (m.compile b).backend = b ∧ (m.compile b).material.program = m.program

theorem compose_failed {e : ShaderError} (failed : (m.compose b).result = .error e) :
    (m.compose b).material.composition = none ∧ (m.compose b).backend = b ∧
    ∃ remembered reached, (reached = .created ∨ reached = .declared) ∧
      (m.compose b).material =
        { m with remembered := remembered, progress := reached, composed := none } := by
  rcases parts : m.composeParts with ⟨d, reached⟩ | ⟨c, units⟩
  · obtain ⟨_, ⟨remembered, rfl⟩, composing⟩ := compose_of_refused parts b
    rw [composing]
    refine ⟨?_, rfl, remembered, reached, composeParts_reached parts, rfl⟩
    unfold composition
    split <;> rfl
  · obtain ⟨n, _, composing⟩ := compose_of_parts parts b
    rw [composing] at failed
    cases failed

theorem compile_rejected {r : Rejection} (failed : (m.compile b).result = .error (.rejected r)) :
    (m.compile b).backend = { b with compileCount := b.compileCount + 1, pendingFailure := none } ∧
    ∃ c, (m.compile b).material.composition = some c ∧
      Quotes r c.vertex.source.text c.fragment.source.text := by
  cases m.compile_ends b with
  | uncomposed composing _ result =>
    obtain rfl := Except.error.inj (result.symm.trans failed)
    exact absurd (ensureComposed_error composing) compose_not_rejected
  | crowded _ _ result | linked _ _ _ _ _ result =>
    rw [result] at failed
    cases failed
  | rejected current composed _ rejecting result material backend =>
    obtain rfl := ShaderError.rejected.inj (Except.error.inj (result.symm.trans failed))
    rw [backend, material]
    refine ⟨Backend.compileAndLink_error rejecting, _, ?_, quotes_of_compileAndLink rejecting⟩
    rw [composition_retire, composition, if_pos current, composed]

theorem compile_crowded {requested limit : Nat}
    (failed : (m.compile b).result = .error (.tooManyTextures requested limit)) :
    (m.compile b).backend = b ∧ (m.compile b).material.program = m.program := by
  cases m.compile_ends b with
  | uncomposed _ _ _ material backend | crowded _ _ _ material backend =>
    exact ⟨backend, material ▸ m.program_ensureComposed b⟩
  | rejected _ _ _ _ result | linked _ _ _ _ _ result =>
    rw [result] at failed
    cases failed

/-- Whatever the material and the backend have gone through, a failure leaves them as it should. -/
theorem failsCleanly (m : Material) (b : Backend) : m.FailsCleanly b := by
  constructor
  case addTexture =>
    intro t e failed
    have answer : m.addTexture t = (.error e, (m.addTexture t).2.1, (m.addTexture t).2.2) :=
      Prod.ext failed rfl
    exact addTexture_error answer
  case compose => exact fun e failed => compose_failed failed
  case refused =>
    intro e c turns failed unbuilt d
    obtain ⟨_, _, remembered, reached, early, made⟩ := compose_failed failed
    have unlinked : ¬ (m.compose b).material.progress.reaches .linked = true := by
      rw [made]
      dsimp only
      rcases early with rfl | rfl <;> decide
    refine drawsNothing_of_not_bound (fun bound => unbuilt ?_) d
    exact Session.rebuilds_of_bound unlinked bound
  case rejected => exact fun r failed => compile_rejected failed
  case crowded => exact fun requested limit failed => compile_crowded failed

/-- A new material that may have one texture, with an effect that has two. -/
def overfull : Material :=
  { create "mat" { maxTextureUnits := some 1 } with
    effects := [.custom ⟨"pair", none, none, [(⟨.flat, 3⟩, "uC"), (⟨.flat, 4⟩, "uD")]⟩] }

/-- Each failure happens: of a texture, of a composition, of a compilation before the backend is
asked and of one that it rejects. -/
theorem failsCleanly_overfull :
    ((overfull.addTexture ⟨"uBase", .diffuse, ⟨.flat, 1⟩⟩).1 = .error (.tooManyTextures 3 1) ∧
      (overfull.addTexture ⟨"uBase", .diffuse, ⟨.flat, 1⟩⟩).2.1 = overfull) ∧
    ((overfull.compose (.create 8 false)).result = .error (.tooManyTextures 2 1) ∧
      (overfull.compose (.create 8 false)).material.composition = none) ∧
    ((overfull.compile (.create 8 false)).result = .error (.tooManyTextures 2 1) ∧
      (overfull.compile (.create 8 false)).backend = .create 8 false) ∧
    ∃ (m : Material) (b : Backend) (r : Rejection), (m.compile b).result = .error (.rejected r) ∧
      (m.compile b).backend.compileCount = b.compileCount + 1 := by
  have cleanly := failsCleanly overfull (.create 8 false)
  obtain ⟨s, c, p, ready⟩ : ∃ (s : Session Backend) (c : Composition) (p : LinkedProgram),
      s.Ready c p := ⟨_, Session.ready_start "mat" 8⟩
  have failing := ready.compile_failing none "out of memory"
  have counted := ((failsCleanly s.material _).rejected _ failing).1
  exact ⟨⟨rfl, cleanly.addTexture _ _ rfl⟩, ⟨rfl, (cleanly.compose _ rfl).1⟩,
    ⟨rfl, (cleanly.crowded 2 1 rfl).1⟩, _, _, _, failing, congrArg Backend.compileCount counted⟩

end Material

end ShaderComposer
