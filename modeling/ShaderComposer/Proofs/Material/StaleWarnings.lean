import ShaderComposer.Proofs.Material.HeadlessSession
import ShaderComposer.Proofs.Material.Invariant

/-!
# Warnings about a stale program

A material whose program is stale warns when it is first used, and is silent afterwards. Whether it
was warned is one flag, which a change of effects or textures, a loss of the context and a new
program lower. Between two events that put a program out of use there is at most one warning
(`Session.warnings_le_one`). Every event but a change of settings is followed by one; a change of
settings does not lower the flag, so it is followed by a warning only if none was logged since the
flag was last lowered.
-/

namespace ShaderComposer

/-! ### The flag -/

namespace Standing

/-- How many warnings can follow before the next event. -/
def pending (s : Standing) : Nat :=
  match s.program with
  | .none => 0
  | .live p => if p.version = s.version then 0 else if s.staleReported then 0 else 1
  | .retired _ | .invalidated => if s.staleReported then 0 else 1

theorem pending_le_one (s : Standing) : s.pending ≤ 1 := by
  unfold pending
  split
  · exact Nat.zero_le 1
  · split
    · exact Nat.zero_le 1
    · split <;> omega
  · split <;> omega
  · split <;> omega

theorem pending_of_reported {s : Standing} (reported : s.staleReported = true) : s.pending = 0 := by
  unfold pending
  split <;> simp [reported]

theorem pending_of_stale {s : Standing} (stale : s.IsStale) :
    s.pending = if s.staleReported then 0 else 1 := by
  unfold IsStale at stale
  unfold pending
  split at stale
  · exact stale.elim
  · next program => simp only [program]
  · next program => simp only [program]
  · next p program => simp only [program, if_neg stale]

theorem pending_congr {s t : Standing} (program : t.program = s.program)
    (version : t.version = s.version) (reported : t.staleReported = s.staleReported) :
    t.pending = s.pending := by
  simp only [pending, program, version, reported]

end Standing

namespace Deed

/-- The deed puts a program out of use, or finds that it is. A rejection does if the program was
live and up to date. -/
def IsEvent (s : Standing) : Deed → Prop
  | mutated | resettled | told | detected => True
  | rejected _ => ∃ p, s.program = .live p ∧ p.version = s.version
  | _ => False

/-- The deed lowers the flag. -/
def Rearms (d : Deed) : Prop := d = mutated ∨ d = told ∨ d.links = true

theorem name_effect (d : Deed) (s : Standing) : (d.effect s).name = s.name := by
  cases d with
  | linked anew _ | rejected anew => cases anew <;> rfl
  | _ => rfl

/-- The flag is raised by a warning and stays up until it is lowered. -/
theorem staleReported_effect (d : Deed) (s : Standing) :
    (d.effect s).staleReported = true ↔
      0 < d.warnings s ∨ (s.staleReported = true ∧ ¬ d.Rearms) := by
  cases d with
  | linked anew p | rejected anew =>
    cases anew <;> simp [effect, warnings, Rearms, links, Standing.link, Standing.composeIf,
      Standing.compose]
  | refused => cases reported : s.staleReported <;> simp [effect, warnings, reported, Rearms, links]
  | _ => simp [effect, warnings, Rearms, links, Standing.mutate, Standing.lose, Standing.resettle,
      Standing.compose, Standing.locate, Standing.link]

theorem pending_link (s : Standing) {p : LinkedProgram} (version : p.version = s.version) :
    (s.link p).pending = 0 := by
  simp [Standing.pending, Standing.link, version]

/-- A deed that is no event uses up the warnings that it logs. -/
theorem warnings_add_pending_le {d : Deed} {s : Standing} (fits : d.Fits s) (calm : ¬ d.IsEvent s) :
    d.warnings s + (d.effect s).pending ≤ s.pending := by
  have same {t : Standing} (program : t.program = s.program) (version : t.version = s.version)
      (reported : t.staleReported = s.staleReported) : 0 + t.pending ≤ s.pending :=
    Nat.le_of_eq ((Nat.zero_add _).trans (Standing.pending_congr program version reported))
  cases d with
  | mutated | resettled | told | detected => exact absurd trivial calm
  | kept | composed | uncomposed _ | located _ => exact same rfl rfl rfl
  | released => exact Nat.zero_le _
  | linked anew p =>
    have current : p.version = (s.composeIf anew).version := by
      rw [fits.1]
      cases anew <;> rfl
    have none : ((linked anew p).effect s).pending = 0 := pending_link (s.composeIf anew) current
    rw [none]
    exact Nat.zero_le _
  | built p t =>
    have none : ((built p t).effect s).pending = 0 := pending_link s.compose fits
    rw [none]
    exact Nat.zero_le _
  | rejected anew =>
    -- The program was out of use before, so it is nothing new that it is now.
    have before : ((rejected anew).effect s).pending ≤ s.pending := by
      have plain : ((rejected anew).effect s).pending =
          ({ s with program := s.program.retire } : Standing).pending := by
        cases anew <;> exact Standing.pending_congr rfl rfl rfl
      rw [plain]
      cases program : s.program with
      | live p =>
        have old : p.version ≠ s.version := fun current => calm ⟨p, program, current⟩
        simp [Standing.pending, ProgramState.retire, program, old]
      | none | retired _ | invalidated => simp [Standing.pending, ProgramState.retire, program]
    exact Nat.le_trans (Nat.le_of_eq (Nat.zero_add _)) before
  | refused =>
    have used : (refused.effect s).pending = 0 := Standing.pending_of_reported rfl
    rw [used, Standing.pending_of_stale fits]
    exact Nat.le_refl _

/-- After an event there is one warning at most, if the event logged none. -/
theorem warnings_add_pending_le_one {d : Deed} {s : Standing} (event : d.IsEvent s) :
    d.warnings s + (d.effect s).pending ≤ 1 := by
  cases d with
  | detected =>
    have used : (detected.effect s).pending = 0 := Standing.pending_of_reported rfl
    rw [used]
    exact Nat.le_refl 1
  | mutated | resettled | told | rejected _ =>
    exact Nat.le_trans (Nat.le_of_eq (Nat.zero_add _)) (Standing.pending_le_one _)
  | _ => exact event.elim

end Deed

/-! ### Versions that are counted -/

/-- The version is the number of changes so far. A live program is of an earlier version or of this
one, and of an earlier one if a warning was given. -/
structure Standing.Counted (count : Nat) (s : Standing) : Prop where
  version : s.version.toNat = count
  older (p : LinkedProgram) : s.program = .live p → p.version.toNat ≤ count
  reported (p : LinkedProgram) : s.staleReported = true → s.program = .live p →
    p.version.toNat < count

namespace Standing.Counted

variable {count : Nat} {s : Standing}

theorem counts (counted : s.Counted count) (few : count + 1 < UInt64.size) {t : Standing}
    (version : t.version = s.version + 1) (program : t.program = s.program) :
    t.Counted (count + 1) where
  version := by
    rw [version, World.toNat_add_one (by rw [counted.version]; exact few), counted.version]
  older p live := Nat.le_succ_of_le (counted.older p (program ▸ live))
  reported p _ live := Nat.lt_succ_of_le (counted.older p (program ▸ live))

theorem without (counted : s.Counted count) {t : Standing} (version : t.version = s.version)
    (dead : ∀ p, t.program ≠ .live p) : t.Counted count :=
  ⟨by rw [version]; exact counted.version, fun p live => absurd live (dead p),
    fun p _ live => absurd live (dead p)⟩

theorem kept (counted : s.Counted count) {t : Standing} (version : t.version = s.version)
    (program : t.program = s.program) (reported : t.staleReported = s.staleReported) :
    t.Counted count :=
  ⟨by rw [version]; exact counted.version, program ▸ counted.older,
    by rw [program, reported]; exact counted.reported⟩

theorem link (counted : s.Counted count) {t : Standing} {p : LinkedProgram}
    (version : t.version = s.version) (live : t.program = .live p) (current : p.version = s.version)
    (reported : t.staleReported = false) : t.Counted count where
  version := by rw [version]; exact counted.version
  older q same := by
    obtain rfl : p = q := by simpa [live] using same
    rw [current]
    exact Nat.le_of_eq counted.version
  reported q true _ := by
    rw [reported] at true
    cases true

theorem effect (counted : s.Counted count) {d : Deed} (fits : d.Fits s) :
    ((d.effect s).version = s.version ∧ (d.effect s).Counted count) ∨
      ((d.effect s).version = s.version + 1 ∧
        (count + 1 < UInt64.size → (d.effect s).Counted (count + 1))) := by
  cases d with
  | mutated | resettled => exact Or.inr ⟨rfl, fun few => counted.counts few rfl rfl⟩
  | kept | composed | uncomposed _ | located _ => exact Or.inl ⟨rfl, counted.kept rfl rfl rfl⟩
  | linked anew p =>
    cases anew <;> exact Or.inl ⟨rfl, counted.link rfl rfl fits.1 rfl⟩
  | built p t => exact Or.inl ⟨rfl, counted.link rfl rfl fits rfl⟩
  | rejected anew =>
    have dead (p : LinkedProgram) : s.program.retire ≠ .live p := by
      cases s.program <;> simp [ProgramState.retire]
    cases anew <;> exact Or.inl ⟨rfl, counted.without rfl dead⟩
  | told | detected =>
    have dead (p : LinkedProgram) : s.program.lose ≠ .live p := by
      cases s.program <;> simp [ProgramState.lose]
    exact Or.inl ⟨rfl, counted.without rfl dead⟩
  | released => exact Or.inl ⟨rfl, counted.without rfl fun _ live => by cases live⟩
  | refused =>
    refine Or.inl ⟨rfl, counted.version, counted.older, fun p _ (live : s.program = .live p) => ?_⟩
    have old : p.version ≠ s.version := by
      simpa only [Deed.Fits, IsStale, live] using fits
    refine Nat.lt_of_le_of_ne (counted.older p live) fun same => old ?_
    exact UInt64.toNat_inj.mp (same.trans counted.version.symm)

end Standing.Counted

theorem Material.counted_create (name : String) (settings : Settings) :
    (create name settings).standing.Counted 0 where
  version := rfl
  older _ live := by cases live
  reported _ reported := by cases reported

/-! ### Events -/

namespace Session

variable {β : Type} [GraphicsBackend β] {s : Session β} {t : Turn β} {d : Deed}

def Mutates (s : Session β) (t : Turn β) : Prop := t.op.Mutates s.material

def Resettles (s : Session β) (t : Turn β) : Prop := t.op.Resettles s.material

/-- The material is told that the context is gone. -/
def Told (_ : Session β) (t : Turn β) : Prop := t.op = .contextLost

/-- A call finds out that the context of the program is gone. -/
def Detects (s : Session β) (t : Turn β) : Prop :=
  s.Refuses t ∧ (∃ p, s.material.program = .live p) ∧ (s.step t).material.program = .invalidated

/-- The backend rejects a program that is to replace one that is up to date. -/
def RejectsRebuild (s : Session β) (t : Turn β) : Prop :=
  s.Rejects t ∧ ∃ p, s.material.program = .live p ∧ p.version = s.material.version

/-- The program is put out of use, or found to be. -/
def Event (s : Session β) (t : Turn β) : Prop :=
  s.Mutates t ∨ s.Resettles t ∨ s.Told t ∨ s.Detects t ∨ s.RejectsRebuild t

/-- How many warnings about a stale program a turn logs. -/
def warned (s : Session β) (t : Turn β) : Nat := (s.answer t).log.count s.material.staleWarning

/-- How many warnings about a stale program a run logs. -/
def warnings (s : Session β) (turns : List (Turn β)) : Nat :=
  (s.log turns).count s.material.staleWarning

/-- The turn links a program, or changes effects or textures, or tells of a lost context. -/
def Rearms (s : Session β) (t : Turn β) : Prop := s.Mutates t ∨ s.Told t ∨ s.Links t

namespace Does

theorem detects (does : s.Does t d) : s.Detects t ↔ d = .detected := by
  have program : (s.step t).material.program = (d.effect s.material.standing).program :=
    congrArg Standing.program does.standing
  constructor
  · rintro ⟨refuses, ⟨p, live⟩, gone⟩
    have refuses : d.refuses = true := does.refuses.mp refuses
    rw [program] at gone
    cases d with
    | refused =>
      have kept : s.material.program = .invalidated := gone
      rw [live] at kept
      cases kept
    | detected => rfl
    | _ => cases refuses
  · rintro rfl
    obtain ⟨p, live⟩ := does.fits
    refine ⟨does.refuses.mpr rfl, ⟨p, live⟩, program.trans ?_⟩
    show s.material.standing.program.lose = .invalidated
    rw [live]
    rfl

theorem event (does : s.Does t d) : s.Event t ↔ d.IsEvent s.material.standing := by
  have mutates : s.Mutates t ↔ d = .mutated := does.mutates
  have resettles : s.Resettles t ↔ d = .resettled := does.resettles
  have told : s.Told t ↔ d = .told := does.told
  have rejects : s.Rejects t ↔ d.rejects = true := does.rejects
  unfold Event RejectsRebuild
  rw [mutates, resettles, told, does.detects, rejects]
  cases d <;> simp [Deed.IsEvent, Deed.rejects, Material.standing]

theorem rearms (does : s.Does t d) : s.Rearms t ↔ d.Rearms :=
  or_congr does.mutates (or_congr does.told does.links)

theorem staleReported (does : s.Does t d) :
    (s.step t).material.staleReported = true ↔
      0 < s.warned t ∨ (s.material.staleReported = true ∧ ¬ s.Rearms t) := by
  have after : (s.step t).material.staleReported = (d.effect s.material.standing).staleReported :=
    congrArg Standing.staleReported does.standing
  have warned : s.warned t = d.warnings s.material.standing := does.warnings
  rw [after, warned, does.rearms]
  exact d.staleReported_effect s.material.standing

end Does

theorem staleWarning_step (s : Session β) (t : Turn β) :
    (s.step t).material.staleWarning = s.material.staleWarning := by
  obtain ⟨d, does⟩ := s.exists_deed t
  have name : (s.step t).material.name = s.material.name :=
    (congrArg Standing.name does.standing).trans (d.name_effect s.material.standing)
  simp only [Material.staleWarning, Material.report, name]

theorem warnings_cons (s : Session β) (t : Turn β) (rest : List (Turn β)) :
    s.warnings (t :: rest) = s.warned t + (s.step t).warnings rest := by
  rw [warnings, log, List.count_append, warned, warnings, staleWarning_step]

/-! ### One warning between two events -/

theorem warnings_le_pending {turns : List (Turn β)} (calm : Throughout (fun s t => ¬ s.Event t) s turns) :
    s.warnings turns ≤ s.material.standing.pending := by
  induction turns generalizing s with
  | nil => exact Nat.zero_le _
  | cons t rest ih =>
    obtain ⟨d, does⟩ := s.exists_deed t
    have first := Deed.warnings_add_pending_le does.fits fun event => calm.1 (does.event.mpr event)
    have later := ih calm.2
    have warned : s.warned t = d.warnings s.material.standing := does.warnings
    rw [does.step_standing] at later
    rw [warnings_cons, warned]
    omega

theorem warnings_le_one {event : Turn β} {near : List (Turn β)} (happened : s.Event event)
    (calm : Throughout (fun s t => ¬ s.Event t) (s.step event) near) :
    s.warnings (event :: near) ≤ 1 := by
  obtain ⟨d, does⟩ := s.exists_deed event
  have first := Deed.warnings_add_pending_le_one (does.event.mp happened)
  have later := warnings_le_pending calm
  have warned : s.warned event = d.warnings s.material.standing := does.warnings
  rw [does.step_standing] at later
  rw [warnings_cons, warned]
  omega

/-! ### The flag along a run -/

/-- The flag is up if a warning was logged and the flag was not lowered since. -/
theorem staleReported_run (lowered : s.material.staleReported = false) (turns : List (Turn β)) :
    (s.run turns).material.staleReported = true ↔ Since (fun s t => 0 < s.warned t) Rearms s turns := by
  induction turns using List.reverseRecOn with
  | nil =>
    show s.material.staleReported = true ↔ False
    simp [lowered]
  | append_singleton turns t ih =>
    obtain ⟨d, does⟩ := (s.run turns).exists_deed t
    rw [run_append, since_snoc, ← ih]
    exact does.staleReported

def changes : Session β → List (Turn β) → Nat
  | _, [] => 0
  | s, t :: rest =>
    (if (s.step t).material.version = s.material.version then 0 else 1) + changes (s.step t) rest

theorem changes_snoc (turns : List (Turn β)) (t : Turn β) :
    s.changes (turns ++ [t]) = s.changes turns +
      if ((s.run turns).step t).material.version = (s.run turns).material.version then 0 else 1 := by
  induction turns generalizing s with
  | nil =>
    show _ + 0 = 0 + _
    rw [Nat.add_zero, Nat.zero_add]
    rfl
  | cons u rest ih =>
    have later : s.run (u :: rest) = (s.step u).run rest := rfl
    rw [List.cons_append, changes, ih, later, changes, Nat.add_assoc]

theorem counted_run (counted : s.material.standing.Counted 0) (turns : List (Turn β))
    (few : s.changes turns < UInt64.size) :
    (s.run turns).material.standing.Counted (s.changes turns) := by
  induction turns using List.reverseRecOn with
  | nil => exact counted
  | append_singleton turns t ih =>
    obtain ⟨d, does⟩ := (s.run turns).exists_deed t
    have version : ((s.run turns).step t).material.version =
        (d.effect (s.run turns).material.standing).version :=
      congrArg Standing.version does.standing
    have last : (s.run (turns ++ [t])).material.standing =
        d.effect (s.run turns).material.standing := by
      rw [run_append]
      exact does.standing
    rw [changes_snoc, version] at few ⊢
    have before := ih (by omega)
    rw [last]
    rcases before.effect does.fits with ⟨same, counted⟩ | ⟨changed, counted⟩
    · have kept : (d.effect (s.run turns).material.standing).version =
          (s.run turns).material.version := same
      rw [if_pos kept]
      exact counted
    · have moved : (d.effect (s.run turns).material.standing).version ≠
          (s.run turns).material.version := by
        rw [changed]
        exact add_one_ne _
      rw [if_neg moved] at few ⊢
      exact counted few

/-! ### The first refusal after an event -/

/-- The turn refuses, and since the event no turn did, nor linked a program. -/
structure FirstRefusal (s : Session β) (event : Turn β) (near : List (Turn β)) (t : Turn β) :
    Prop where
  refuses : (s.run (event :: near)).Refuses t
  unrefused : ¬ s.Refuses event
  near : Throughout (fun s t => ¬ s.Refuses t ∧ ¬ s.Links t) (s.step event) near

/-- A refusal warns if it detects the loss of a context or the flag is down. -/
theorem warned_of_refuses (refuses : s.Refuses t) :
    s.warned t = 1 ∧ (s.Detects t ∨ s.material.staleReported = false) ∨
      s.warned t = 0 ∧ ¬ s.Detects t ∧ s.material.staleReported = true := by
  obtain ⟨d, does⟩ := s.exists_deed t
  have warned : s.warned t = d.warnings s.material.standing := does.warnings
  have refuses : d.refuses = true := does.refuses.mp refuses
  rw [warned, does.detects]
  cases d with
  | detected => exact Or.inl ⟨rfl, Or.inl rfl⟩
  | refused =>
    have shown : Deed.warnings s.material.standing .refused =
        if s.material.staleReported then 0 else 1 := rfl
    rw [shown]
    cases s.material.staleReported <;> simp
  | _ => cases refuses

/-- Turns that are no events, refuse nothing and link nothing leave the flag alone. -/
theorem staleReported_of_quiet {turns : List (Turn β)}
    (calm : Throughout (fun s t => ¬ s.Event t) s turns)
    (quiet : Throughout (fun s t => ¬ s.Refuses t ∧ ¬ s.Links t) s turns) :
    (s.run turns).material.staleReported = s.material.staleReported := by
  induction turns generalizing s with
  | nil => rfl
  | cons t rest ih =>
    have later := ih calm.2 quiet.2
    obtain ⟨d, does⟩ := s.exists_deed t
    have event : ¬ d.IsEvent s.material.standing := fun event => calm.1 (does.event.mpr event)
    have refuses : ¬ d.refuses = true := fun refuses => quiet.1.1 (does.refuses.mpr refuses)
    have links : ¬ d.links = true := fun links => quiet.1.2 (does.links.mpr links)
    have first : (s.step t).material.staleReported = s.material.staleReported := by
      have after : (s.step t).material.staleReported =
          (d.effect s.material.standing).staleReported := congrArg Standing.staleReported does.standing
      rw [after]
      cases d with
      | mutated | resettled | told | detected => exact absurd trivial event
      | linked _ _ | built _ _ => exact absurd rfl links
      | refused => exact absurd rfl refuses
      | rejected anew => cases anew <;> rfl
      | _ => rfl
    exact later.trans first

/-- An event lowers the flag, except that a change of settings leaves it as it is, and a rejection
finds it down as long as no version has wrapped. -/
theorem staleReported_of_event {event : Turn β} (happened : s.Event event)
    (unrefused : ¬ s.Refuses event) :
    (¬ s.Resettles event → (s.RejectsRebuild event → s.material.staleReported = false) →
        (s.step event).material.staleReported = false) ∧
      (s.Resettles event → (s.step event).material.staleReported = s.material.staleReported) := by
  obtain ⟨d, does⟩ := s.exists_deed event
  have after : (s.step event).material.staleReported =
      (d.effect s.material.standing).staleReported := congrArg Standing.staleReported does.standing
  have resettles : s.Resettles event ↔ d = .resettled := does.resettles
  rw [after, resettles]
  have happened := does.event.mp happened
  have refuses : ¬ d.refuses = true := fun refuses => unrefused (does.refuses.mpr refuses)
  cases d with
  | mutated | told => exact ⟨fun _ _ => rfl, fun same => by cases same⟩
  | resettled => exact ⟨fun other => absurd rfl other, fun _ => rfl⟩
  | detected => exact absurd rfl refuses
  | rejected anew =>
    have lowered (down : s.RejectsRebuild event → s.material.staleReported = false) :
        ((Deed.rejected anew).effect s.material.standing).staleReported = false := by
      have before := down ⟨does.rejects.mpr rfl, happened⟩
      cases anew <;> exact before
    exact ⟨fun _ down => lowered down, fun same => by cases same⟩
  | _ => exact happened.elim

/-- A rejected rebuild finds the flag down. -/
theorem staleReported_of_rejectsRebuild (name : String) (settings : Settings) (b : β)
    (far : List (Turn β)) (event : Turn β) (few : (start name settings b).changes far < UInt64.size)
    (rejects : ((start name settings b).run far).RejectsRebuild event) :
    ((start name settings b).run far).material.staleReported = false := by
  have counted := counted_run (s := start name settings b) (Material.counted_create name settings)
    far few
  obtain ⟨_, p, live, current⟩ := rejects
  cases reported : ((start name settings b).run far).material.staleReported with
  | false => rfl
  | true =>
    have older := counted.reported p reported live
    rw [current] at older
    exact absurd counted.version (Nat.ne_of_gt older).symm

/-- Between two consecutive events at most one warning is logged, and one is logged by the detection
of a lost context and by the first refusal after any other event. Only after a change of settings it
is missing if the last warning was not followed by a new program, a change of effects or textures or
the news of a lost context. -/
theorem warns_once_per_event (name : String) (settings : Settings) (b : β) (far : List (Turn β))
    (event : Turn β) (near : List (Turn β)) (happened : ((start name settings b).run far).Event event)
    (calm : Throughout (fun s t => ¬ s.Event t) (((start name settings b).run far).step event) near) :
    ((start name settings b).run far).warnings (event :: near) ≤ 1 ∧
      (((start name settings b).run far).Detects event →
        ((start name settings b).run far).warned event = 1) ∧
      ∀ t, ((start name settings b).run far).FirstRefusal event near t →
        (¬ ((start name settings b).run far).Resettles event →
          (((start name settings b).run far).RejectsRebuild event →
            (start name settings b).changes far < UInt64.size) →
          (((start name settings b).run far).run (event :: near)).warned t = 1) ∧
        (((start name settings b).run far).Resettles event →
          ((((start name settings b).run far).run (event :: near)).warned t = 1 ↔
            (((start name settings b).run far).run (event :: near)).Detects t ∨
              ¬ Since (fun s t => 0 < s.warned t) Rearms (start name settings b) far)) := by
  have flag := staleReported_run (s := start name settings b) rfl far
  have rejected := staleReported_of_rejectsRebuild name settings b far event
  -- of what happened before only the flag matters
  generalize Since (fun s t => 0 < s.warned t) Rearms (start name settings b) far = raised at flag ⊢
  generalize ((start name settings b).changes far < UInt64.size) = few at rejected ⊢
  generalize (start name settings b).run far = s at happened calm flag rejected ⊢
  refine ⟨warnings_le_one happened calm, fun detects => ?_, fun t first => ?_⟩
  · rcases warned_of_refuses detects.1 with ⟨one, _⟩ | ⟨_, not, _⟩
    · exact one
    · exact absurd detects not
  · obtain ⟨lowered, left⟩ := staleReported_of_event happened first.unrefused
    have quiet : (s.run (event :: near)).material.staleReported =
        (s.step event).material.staleReported := staleReported_of_quiet calm first.near
    constructor
    · intro other few
      rcases warned_of_refuses first.refuses with ⟨one, _⟩ | ⟨_, _, up⟩
      · exact one
      · rw [quiet, lowered other fun rejects => rejected (few rejects) rejects] at up
        cases up
    · intro resettles
      rw [← flag]
      rw [left resettles] at quiet
      rcases warned_of_refuses first.refuses with ⟨one, why⟩ | ⟨none, undetected, up⟩
      · rw [quiet] at why
        simp only [one, true_iff]
        exact why.imp_right fun down => by rw [down]; exact Bool.false_ne_true
      · rw [quiet] at up
        simp [none, undetected, up]

/-! ### Runs on the headless backend -/

def use : Turn Backend := { op := .frame .useProgram }

def resets (features : Features) : Turn Backend := { op := .setFeatures features }

theorem answer_use_of_old {s : Session Backend} {p : LinkedProgram} (live : s.material.program = .live p)
    (generation : p.generation = s.backend.contextGeneration) (old : p.version ≠ s.material.version) :
    s.answer use = ⟨.error (.staleProgram s.material.name),
      { s.material with staleReported := true }, s.backend,
      if s.material.staleReported then [] else [s.material.staleWarning]⟩ := by
  have present : GraphicsBackend.contextGeneration s.backend = p.generation := generation.symm
  simp [answer, use, Operation.performOn, FrameCall.performOn, Material.useProgramOn,
    Material.withProgramOn, Material.liveProgramOn, live, present, old, OutcomeOn.map,
    Material.refuseStale_eq, Except.map]

theorem step_use_of_old {s : Session Backend} {p : LinkedProgram} (live : s.material.program = .live p)
    (generation : p.generation = s.backend.contextGeneration) (old : p.version ≠ s.material.version) :
    s.Refuses use ∧ s.step use = ⟨{ s.material with staleReported := true }, s.backend⟩ ∧
      s.warned use = if s.material.staleReported then 0 else 1 := by
  have answer := answer_use_of_old live generation old
  refine ⟨⟨trivial, Or.inr ⟨s.material.name, ?_⟩⟩, ?_, ?_⟩
  · exact congrArg OutcomeOn.result answer
  · rw [step, answer]
  · rw [warned, answer]
    cases s.material.staleReported <;> simp

theorem step_resets {s : Session Backend} (features : Features)
    (other : s.material.settings.features ≠ features) :
    s.Resettles (resets features) ∧ s.step (resets features) =
      ⟨{ s.material with
        settings := { s.material.settings with features := features }
        version := s.material.version + 1 }, s.backend⟩ := by
  have rebuild : s.material.settings.requiresRebuild
      { s.material.settings with features := features } = true := by
    simp [Settings.requiresRebuild, other]
  refine ⟨rebuild, ?_⟩
  show (⟨s.material.setFeatures features, s.backend⟩ : Session Backend) = _
  simp only [Material.setFeatures, Material.updateSettings, rebuild, ite_true]

/-- The features of what was built change and the program is used, and they change back and it is
used: the second refusal is not reported. -/
theorem unwarned_after_second_change :
    ((start "m" {} (Backend.create 8 false)).run
        [{ op := .build }, resets { time := true }, use]).Event (resets {}) ∧
      (∃ p, ((start "m" {} (Backend.create 8 false)).run
        [{ op := .build }, resets { time := true }, use]).material.ownedProgram = some p) ∧
      ((start "m" {} (Backend.create 8 false)).run
        [{ op := .build }, resets { time := true }, use, resets {}]).Refuses use ∧
      ((start "m" {} (Backend.create 8 false)).run
        [{ op := .build }, resets { time := true }, use, resets {}]).warned use = 0 := by
  obtain ⟨c, p, ready⟩ := ready_start "m" 8
  have plain := features_of_build (start "m" {} (Backend.create 8 false))
  simp only [run, List.foldl_cons, List.foldl_nil]
  obtain ⟨s, built⟩ : ∃ s, s = (start "m" {} (Backend.create 8 false)).step { op := .build } :=
    ⟨_, rfl⟩
  rw [← built] at plain ready ⊢
  have plain : s.material.settings.features = {} := plain
  obtain ⟨_, changed⟩ := step_resets (s := s) { time := true } (by rw [plain]; decide)
  have current := ready.live.version
  rw [changed]
  obtain ⟨_, used, _⟩ := step_use_of_old (s := ⟨{ s.material with
      settings := { s.material.settings with features := { time := true } }
      version := s.material.version + 1 }, s.backend⟩) ready.live.live ready.live.generation
    (by rw [current]; exact (add_one_ne _).symm)
  rw [used]
  obtain ⟨resettles, back⟩ := step_resets (s := ⟨{ s.material with
      settings := { s.material.settings with features := { time := true } }
      version := s.material.version + 1
      staleReported := true }, s.backend⟩) {}
    (show ({ time := true } : Features) ≠ {} by decide)
  rw [back]
  refine ⟨Or.inr (Or.inl resettles), ⟨p, Material.ownedProgram_live ready.live.live⟩, ?_⟩
  -- the features are back, and the version is not
  have older : p.version ≠ s.material.version + 1 + 1 := by
    rw [current, UInt64.add_assoc]
    intro same
    have zero : s.material.version + 0 = s.material.version + (1 + 1) :=
      (UInt64.add_zero _).trans same
    exact absurd ((UInt64.add_right_inj _).mp zero) (by decide)
  obtain ⟨refuses, _, warned⟩ := step_use_of_old (s := ⟨{ s.material with
      settings := { s.material.settings with features := {} }
      version := s.material.version + 1 + 1
      staleReported := true }, s.backend⟩) ready.live.live ready.live.generation older
  exact ⟨refuses, warned⟩

theorem refuses_use_of_invalidated {s : Session Backend} (gone : s.material.program = .invalidated) :
    s.Refuses use := by
  refine ⟨trivial, Or.inr ⟨s.material.name, ?_⟩⟩
  simp [use, Operation.performOn, FrameCall.performOn, Material.useProgramOn,
    Material.withProgramOn, Material.liveProgramOn, gone, OutcomeOn.map, Material.refuseStale_eq,
    Except.map]

/-- What was built is told that its context is gone, and warns when it is used. -/
theorem warned_of_lost_context :
    ((start "m" {} (Backend.create 8 false)).run [{ op := .build }]).Event { op := .contextLost } ∧
      (((start "m" {} (Backend.create 8 false)).run [{ op := .build }]).run
        [{ op := .contextLost }]).warned use = 1 := by
  obtain ⟨c, p, ready⟩ := ready_start "m" 8
  have happened : ((start "m" {} (Backend.create 8 false)).run [{ op := .build }]).Event
      { op := .contextLost } := Or.inr (Or.inr (Or.inl rfl))
  have rule := warns_once_per_event "m" {} (Backend.create 8 false) [{ op := .build }]
    { op := .contextLost } [] happened trivial
  simp only [run, List.foldl_cons, List.foldl_nil] at happened rule ⊢
  refine ⟨happened, ?_⟩
  have told (s : Session Backend) (live : s.material.program = .live p) :
      s.FirstRefusal { op := .contextLost } [] use := by
    have gone : (s.step { op := .contextLost }).material.program = .invalidated := by
      show (if s.material.program = .none then ProgramState.none else .invalidated) = _
      simp [live]
    exact ⟨refuses_use_of_invalidated gone, fun refuses => refuses.1, trivial⟩
  refine ((rule.2.2 use (told _ ready.live.live)).1 (fun other => other) ?_)
  rintro ⟨⟨r, ruled⟩, _⟩
  cases ruled

end Session

end ShaderComposer
