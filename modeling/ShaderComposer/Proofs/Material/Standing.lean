import ShaderComposer.Proofs.Material.AnyBackend
import ShaderComposer.Proofs.Material.Change

/-!
# How a build stands

How a build stands is told by a few fields of a material (`Standing`), and a dozen deeds change them
(`Deed`). A call on the live program (`Material.Visit`) is answered, finds nothing linked, or is
refused and reported. Nothing else that an operation logs is a warning (`Calm`).
-/

namespace ShaderComposer

/-! ### Standings -/

namespace BuildState

variable {s t required : BuildState}

theorem reaches_trans (first : s.reaches t = true) (second : t.reaches required = true) :
    s.reaches required = true := by
  simp only [reaches, decide_eq_true_eq] at first second ⊢
  exact Nat.le_trans second first

theorem reaches_of_earlier (far : (s.earlier t).reaches required = true) :
    t.reaches required = true := by
  unfold earlier at far
  split at far
  · next past => exact reaches_trans past far
  · exact far

theorem ne_bound_of_early (early : ¬ s.reaches .linked = true) : s ≠ .bound := by
  rintro rfl
  exact early rfl

end BuildState

namespace ProgramState

def retire : ProgramState → ProgramState
  | live p => retired p
  | q => q

def lose : ProgramState → ProgramState
  | none => none
  | _ => invalidated

def owned : ProgramState → Option LinkedProgram
  | live p | retired p => some p
  | none | invalidated => Option.none

end ProgramState

/-- How the build of a material stands. -/
structure Standing where
  name : String
  version : UInt64
  composedVersion : UInt64
  progress : BuildState
  program : ProgramState
  locations : LocationTable
  staleReported : Bool

def Material.standing (m : Material) : Standing :=
  ⟨m.name, m.version, m.composedVersion, m.progress, m.program, m.locations, m.staleReported⟩

def Material.staleWarning (m : Material) : LogRecord :=
  m.report .warn "program is stale, skipping until rebuilt"

namespace Standing

def mutate (s : Standing) : Standing :=
  { s with
    version := s.version + 1
    progress := .created
    locations := .empty
    staleReported := false }

def resettle (s : Standing) : Standing := { s with version := s.version + 1 }

def compose (s : Standing) : Standing :=
  { s with composedVersion := s.version, progress := .bodyBuilt, locations := .empty }

/-- The standing that is compiled: composed anew, or as it is. -/
def composeIf (s : Standing) (anew : Bool) : Standing := if anew then s.compose else s

def link (s : Standing) (p : LinkedProgram) : Standing :=
  { s with program := .live p, progress := .linked, staleReported := false }

def locate (s : Standing) (t : LocationTable) : Standing :=
  { s with locations := t, progress := .bound }

def lose (s : Standing) : Standing :=
  { s with
    program := s.program.lose
    locations := .empty
    progress := s.progress.earlier .declared
    staleReported := false }

/-- The program is known to be out of date. -/
def IsStale (s : Standing) : Prop :=
  match s.program with
  | .none => False
  | .invalidated | .retired _ => True
  | .live p => p.version ≠ s.version

end Standing

/-! ### Deeds -/

/-- What an operation does to a build. -/
inductive Deed where
  | kept
  | mutated
  /-- A settings change that asks for a rebuild. -/
  | resettled
  | composed
  | uncomposed (reached : BuildState)
  /-- A program is linked, composed anew for it or not. -/
  | linked (anew : Bool) (p : LinkedProgram)
  | rejected (anew : Bool)
  | located (t : LocationTable)
  | built (p : LinkedProgram) (t : LocationTable)
  /-- The material is told that the context is gone. -/
  | told
  | released
  | refused
  /-- The loss of the context is found, and the program refused. -/
  | detected

namespace Deed

def effect : Deed → Standing → Standing
  | kept, s => s
  | mutated, s => s.mutate
  | resettled, s => s.resettle
  | composed, s => s.compose
  | uncomposed reached, s => { s with progress := reached }
  | linked anew p, s => (s.composeIf anew).link p
  | rejected anew, s => { s.composeIf anew with program := s.program.retire }
  | located t, s => s.locate t
  | built p t, s => (s.compose.link p).locate t
  | told, s => s.lose
  | released, s => { s with program := .none, locations := .empty, progress := .created }
  | refused, s => { s with staleReported := true }
  | detected, s => { s.lose with staleReported := true }

/-- When a deed can be done. -/
def Fits (s : Standing) : Deed → Prop
  | uncomposed reached => reached = .created ∨ reached = .declared
  | linked anew p => p.version = s.version ∧ (anew = false → s.composedVersion = s.version)
  | rejected anew => anew = false → s.composedVersion = s.version
  | located _ => ∃ p, s.program = .live p ∧ p.version = s.version ∧ s.progress.reaches .linked = true
  | built p _ => p.version = s.version
  | refused => s.IsStale
  | detected => ∃ p, s.program = .live p
  | _ => True

def links : Deed → Bool
  | linked .. | built .. => true
  | _ => false

def rejects : Deed → Bool
  | rejected _ => true
  | _ => false

def locates : Deed → Bool
  | located _ | built .. => true
  | _ => false

def refuses : Deed → Bool
  | refused | detected => true
  | _ => false

/-- How many warnings about a stale program are logged. -/
def warnings (s : Standing) : Deed → Nat
  | refused => if s.staleReported then 0 else 1
  | detected => 1
  | _ => 0

end Deed

/-! ### What an operation shows -/

namespace Operation

/-- The operation changes effects or textures. -/
def Mutates (m : Material) : Operation → Prop
  | .addTexture t => (m.addTexture t).1 = .ok true
  | .removeTexture name => (m.removeTexture name).1 = true
  | .addEffect e => (m.addEffect e).1 = true
  | .removeEffect id => (m.removeEffect id).1 = true
  | .clearEffects => m.effects ≠ []
  | _ => False

/-- The operation changes settings in a way that asks for a rebuild. -/
def Resettles (m : Material) : Operation → Prop
  | .updateSettings f => m.settings.requiresRebuild (f m.settings) = true
  | .setFeatures features =>
    m.settings.requiresRebuild { m.settings with features := features } = true
  | _ => False

end Operation

/-! ### Logs without warnings -/

/-- No record of the log is a warning. -/
def Calm (log : List LogRecord) : Prop := ∀ r ∈ log, r.level ≠ .warn

theorem Calm.count_staleWarning {log : List LogRecord} (calm : Calm log) (m : Material) :
    log.count m.staleWarning = 0 :=
  List.count_eq_zero.mpr fun mem => calm _ mem rfl

theorem calm_nil : Calm [] := fun _ mem => absurd mem List.not_mem_nil

theorem Calm.append {log more : List LogRecord} (first : Calm log) (second : Calm more) :
    Calm (log ++ more) := fun r mem => (List.mem_append.mp mem).elim (first r) (second r)

theorem calm_singleton {r : LogRecord} (h : r.level ≠ .warn) : Calm [r] := by
  simpa [Calm] using h

namespace Material

theorem calm_sourceRecords (m : Material) (c : Composition) : Calm (m.sourceRecords c) := by
  unfold sourceRecords
  split
  · simp [Calm, sourceRecord]
  · exact calm_nil

theorem calm_programRecord (m : Material) (handle : Nat) : Calm [m.programRecord handle] := by
  refine calm_singleton ?_
  unfold programRecord
  dsimp only
  split <;> simp [report]

theorem calm_overflowRecords (m : Material) (limit : Nat) : Calm (m.overflowRecords limit) := by
  unfold overflowRecords
  split
  · exact calm_singleton (by simp [report])
  · exact calm_nil

theorem calm_addTexture (m : Material) (t : MaterialTexture) : Calm (m.addTexture t).2.2 := by
  unfold addTexture
  split
  · exact calm_singleton (by simp [report])
  · dsimp only
    split <;> exact calm_nil

theorem calm_addEffect (m : Material) (e : Effect) : Calm (m.addEffect e).2.2 := by
  unfold addEffect
  split
  · exact calm_singleton (by simp [report])
  · exact calm_nil

/-! ### Composing -/

variable {m : Material} {β : Type}

theorem Invalidated.standing {n : Material} (invalidated : m.Invalidated n) :
    n.standing = m.standing.mutate := by
  obtain ⟨k, rfl, name, version, program, composedVersion⟩ := invalidated.made
  simp only [Material.standing, invalidate, Standing.mutate, name, version, program,
    composedVersion]

theorem standing_retire (m : Material) :
    m.retire.standing = { m.standing with program := m.program.retire } := by
  unfold retire
  cases program : m.program <;> simp only [standing, program, ProgramState.retire]

theorem standing_contextLost (m : Material) : m.contextLost.standing = m.standing.lose := by
  have program : (if m.program = .none then .none else .invalidated) = m.program.lose := by
    cases m.program <;> simp [ProgramState.lose]
  simp only [contextLost, standing, Standing.lose, program]

/-- Composing succeeds or fails; it asks nothing of the backend and warns of nothing. -/
theorem composeOn_cases (m : Material) (b : β) :
    (m.composeOn b).backend = b ∧ Calm (m.composeOn b).log ∧
      ((∃ c, (m.composeOn b).result = .ok c ∧ (m.composeOn b).material.composed = some c ∧
          (m.composeOn b).material.standing = m.standing.compose) ∨
        ∃ e reached, (reached = .created ∨ reached = .declared) ∧
          (m.composeOn b).result = .error e ∧
          (m.composeOn b).material.standing = { m.standing with progress := reached }) := by
  unfold composeOn
  rcases parts : m.composeParts with ⟨e, reached⟩ | ⟨c, units⟩
  · obtain ⟨n, same, composing⟩ := compose_of_refused parts default
    rw [composing]
    refine ⟨rfl, calm_nil, Or.inr ⟨e, reached, composeParts_reached parts, rfl, ?_⟩⟩
    obtain ⟨_, rfl⟩ := same
    rfl
  · obtain ⟨n, same, composing⟩ := compose_of_parts parts default
    rw [composing]
    refine ⟨rfl, m.calm_sourceRecords c, Or.inl ⟨c, rfl, rfl, ?_⟩⟩
    obtain ⟨_, rfl⟩ := same
    rfl

/-- What is composed already is found. -/
def Composed (m : Material) : Prop := m.composed.isSome = true ∧ m.state.reaches .bodyBuilt = true

theorem composed_current (m : Material) (composed : m.Composed) :
    m.composedVersion = m.version := by
  have current := isCurrent_of_reaches composed.2
  simpa [isCurrent] using current

theorem ensureComposedOn_of_composed {c : Composition} (composed : m.composed = some c)
    (far : m.state.reaches .bodyBuilt = true) (b : β) : m.ensureComposedOn b = ⟨.ok c, m, b, []⟩ := by
  simp only [ensureComposedOn, ensureComposed, composed, far, ite_true]
  rfl

theorem ensureComposedOn_of_not_composed (not : ¬ m.Composed) (b : β) :
    m.ensureComposedOn b = m.composeOn b := by
  unfold ensureComposedOn ensureComposed composeOn
  cases composed : m.composed with
  | none => rfl
  | some c =>
    have early : m.state.reaches .bodyBuilt ≠ true := fun far =>
      not ⟨by rw [composed]; rfl, far⟩
    simp only [if_neg early]

/-! ### Visits -/

/-- A call on the live program is answered, finds nothing linked, or is refused. -/
inductive Visit {α : Type} (m : Material) (o : OutcomeOn β α) : Prop
  | done (a : α) (result : o.result = .ok a) (standing : o.material.standing = m.standing)
      (calm : Calm o.log)
  | notLinked (result : ∃ name, o.result = .error (.notLinked name))
      (standing : o.material.standing = m.standing) (calm : Calm o.log)
  | refused (d : Deed) (refuses : d.refuses = true) (fits : d.Fits m.standing)
      (result : ∃ name, o.result = .error (.staleProgram name))
      (standing : o.material.standing = d.effect m.standing)
      (warnings : o.log.count m.staleWarning = d.warnings m.standing)

theorem staleWarning_standing {n : Material} (same : n.standing = m.standing) :
    n.staleWarning = m.staleWarning := by
  have name : n.name = m.name := congrArg Standing.name same
  simp only [staleWarning, report, name]

theorem Visit.map {α γ : Type} {o : OutcomeOn β α} (visit : m.Visit o) (f : α → γ) :
    m.Visit (o.map f) := by
  cases visit with
  | done a result standing calm =>
    exact .done (f a) (by simp only [OutcomeOn.map, result]; rfl) standing calm
  | notLinked result standing calm =>
    obtain ⟨name, result⟩ := result
    exact .notLinked ⟨name, by simp only [OutcomeOn.map, result]; rfl⟩ standing calm
  | refused d refuses fits result standing warnings =>
    obtain ⟨name, result⟩ := result
    exact .refused d refuses fits ⟨name, by simp only [OutcomeOn.map, result]; rfl⟩ standing
      warnings

theorem Visit.andThen {α γ : Type} {o : OutcomeOn β α}
    {next : α → Material → β → OutcomeOn β γ} (visit : m.Visit o)
    (rest : ∀ a, o.material.Visit (next a o.material o.backend)) : m.Visit (o.andThen next) := by
  unfold OutcomeOn.andThen
  cases visit with
  | done a result standing calm =>
    simp only [result]
    cases rest a with
    | done c after same still => exact .done c after (same.trans standing) (calm.append still)
    | notLinked after same still =>
      exact .notLinked after (same.trans standing) (calm.append still)
    | refused d refuses fits after effect warnings =>
      rw [standing] at fits effect warnings
      rw [staleWarning_standing standing] at warnings
      refine .refused d refuses fits after effect ?_
      rw [List.count_append, calm.count_staleWarning, Nat.zero_add, warnings]
  | notLinked result standing calm =>
    obtain ⟨name, result⟩ := result
    simp only [result]
    exact .notLinked ⟨name, rfl⟩ standing calm
  | refused d refuses fits result standing warnings =>
    obtain ⟨name, result⟩ := result
    simp only [result]
    exact .refused d refuses fits ⟨name, rfl⟩ standing warnings

theorem refuseStale_eq (m : Material) :
    m.refuseStale = (.error (.staleProgram m.name), { m with staleReported := true },
      if m.staleReported then [] else [m.staleWarning]) := rfl

theorem count_refuseStale (m : Material) :
    m.refuseStale.2.2.count m.staleWarning = if m.staleReported then 0 else 1 := by
  rw [refuseStale_eq]
  cases m.staleReported <;> simp

end Material

end ShaderComposer
