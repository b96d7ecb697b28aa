import ShaderComposer.Material.Build
import ShaderComposer.Proofs.Composition.Layout

/-!
# What a material composes to

Composing changes what the fragments remember and goes by none of it: both stages come out as if
every fragment was new (`Material.composeStages_eq`). What composing gives is so a function of the
configuration alone (`Material.composeParts`).
-/

namespace ShaderComposer

namespace Material

/-- What a stage composes to with fragments that remember nothing. -/
def stageResult (m : Material) (stage : Stage) : Except ShaderError StageComposition :=
  ((m.coreShader stage).compose ((stageFragments m.effects stage).map Fragment.attach)
    (attachedIds m.effects) m.settings.strictTypes).1

/-- What is composed, with its units; or the failure and how far composing comes. -/
def composeParts (m : Material) : Except (ShaderError × BuildState) (Composition × UnitPlan) :=
  match m.planUnits with
  | .error e => .error (e, .created)
  | .ok units =>
    match m.stageResult .vertex with
    | .error e => .error (e, .created)
    | .ok vertex =>
      match m.stageResult .fragment with
      | .error e => .error (e, .declared)
      | .ok fragment => .ok (⟨vertex, fragment⟩, units)

theorem stageResult_of_composeParts {m : Material} {c : Composition} {units : UnitPlan}
    (parts : m.composeParts = .ok (c, units)) :
    m.stageResult .vertex = .ok c.vertex ∧ m.stageResult .fragment = .ok c.fragment := by
  unfold composeParts at parts
  split at parts
  · cases parts
  · split at parts
    · cases parts
    · next vertex vertexMade =>
      split at parts
      · cases parts
      · next fragment fragmentMade =>
        cases parts
        exact ⟨vertexMade, fragmentMade⟩

theorem fragments_attach (effects : List Effect) (stage : Stage) :
    ((stageFragments effects stage).map Fragment.attach).map (·.fragment) =
      stageFragments effects stage := by
  rw [List.map_map]
  exact List.map_id _

/-- Two materials differ at most in what fragments remember. -/
def SameButMemory (m n : Material) : Prop := ∃ remembered, n = { m with remembered := remembered }

theorem SameButMemory.refl (m : Material) : m.SameButMemory m := ⟨m.remembered, rfl⟩

theorem SameButMemory.trans {m n o : Material} (first : m.SameButMemory n)
    (second : n.SameButMemory o) : m.SameButMemory o := by
  obtain ⟨_, rfl⟩ := first
  obtain ⟨remembered, rfl⟩ := second
  exact ⟨remembered, rfl⟩

theorem fragments_attachedFragments (m : Material) (stage : Stage) :
    (m.attachedFragments stage).map (·.fragment) =
      ((stageFragments m.effects stage).map Fragment.attach).map (·.fragment) := by
  simp only [attachedFragments, stageFragments, List.map_filterMap, Option.map_map,
    Function.comp_def, Fragment.attach]

theorem composeStage_eq (m : Material) (stage : Stage) :
    (m.composeStage stage).1 = m.stageResult stage ∧ m.SameButMemory (m.composeStage stage).2 :=
  ⟨CoreShader.compose_congr (m.fragments_attachedFragments stage), _, rfl⟩

theorem composeStages_eq (m : Material) :
    m.composeStages.1 = m.composeParts ∧ m.SameButMemory m.composeStages.2 := by
  unfold composeStages composeParts
  cases m.planUnits with
  | error e => exact ⟨rfl, .refl m⟩
  | ok units =>
    obtain ⟨vertex, kept⟩ := m.composeStage_eq .vertex
    dsimp only
    rw [← vertex]
    generalize m.composeStage .vertex = first at kept ⊢
    obtain ⟨result, n⟩ := first
    cases result with
    | error e => exact ⟨rfl, kept⟩
    | ok vertex =>
      obtain ⟨fragment, keptOn⟩ := n.composeStage_eq .fragment
      have same : n.stageResult .fragment = m.stageResult .fragment := by
        obtain ⟨_, rfl⟩ := kept
        rfl
      dsimp only
      rw [← same, ← fragment]
      generalize n.composeStage .fragment = second at keptOn ⊢
      obtain ⟨result, o⟩ := second
      cases result with
      | error e => exact ⟨rfl, kept.trans keptOn⟩
      | ok fragment => exact ⟨rfl, kept.trans keptOn⟩

theorem compose_of_parts {m : Material} {c : Composition} {units : UnitPlan}
    (parts : m.composeParts = .ok (c, units)) (b : Backend) :
    ∃ n, m.SameButMemory n ∧
      m.compose b = ⟨.ok c, n.withComposition c units, b, m.sourceRecords c⟩ := by
  obtain ⟨result, kept⟩ := m.composeStages_eq
  rw [parts] at result
  unfold compose
  generalize m.composeStages = o at result kept
  obtain ⟨_, n⟩ := o
  subst result
  obtain ⟨remembered, rfl⟩ := kept
  exact ⟨_, ⟨remembered, rfl⟩, rfl⟩

theorem compose_of_refused {m : Material} {e : ShaderError} {reached : BuildState}
    (parts : m.composeParts = .error (e, reached)) (b : Backend) :
    ∃ n, m.SameButMemory n ∧
      m.compose b = ⟨.error e, { n with progress := reached, composed := none }, b, []⟩ := by
  obtain ⟨result, kept⟩ := m.composeStages_eq
  rw [parts] at result
  unfold compose
  generalize m.composeStages = o at result kept
  obtain ⟨_, n⟩ := o
  subst result
  exact ⟨n, kept, rfl⟩

/-- A material that has composed holds what it composed. -/
theorem parts_of_compose {m : Material} {b : Backend} {c : Composition}
    (ok : (m.compose b).result = .ok c) :
    ∃ (n : Material) (units : UnitPlan), m.composeParts = .ok (c, units) ∧
      (m.compose b).material = n.withComposition c units := by
  rcases parts : m.composeParts with ⟨e, reached⟩ | ⟨made, units⟩
  · obtain ⟨n, _, composing⟩ := compose_of_refused parts b
    rw [composing] at ok
    cases ok
  · obtain ⟨n, _, composing⟩ := compose_of_parts parts b
    rw [composing] at ok ⊢
    obtain rfl := Except.ok.inj ok
    exact ⟨n, units, rfl, rfl⟩

theorem result_compose (m : Material) (b : Backend) :
    (m.compose b).result = (m.composeParts.map Prod.fst).mapError Prod.fst := by
  rcases parts : m.composeParts with ⟨e, reached⟩ | ⟨c, units⟩
  · obtain ⟨n, _, composing⟩ := compose_of_refused parts b
    rw [composing]
    rfl
  · obtain ⟨n, _, composing⟩ := compose_of_parts parts b
    rw [composing]
    rfl

theorem program_compose (m : Material) (b : Backend) :
    (m.compose b).material.program = m.program := by
  rcases parts : m.composeParts with ⟨e, reached⟩ | ⟨c, units⟩
  · obtain ⟨_, ⟨_, rfl⟩, composing⟩ := compose_of_refused parts b
    rw [composing]
  · obtain ⟨_, ⟨_, rfl⟩, composing⟩ := compose_of_parts parts b
    rw [composing]
    rfl

end Material

end ShaderComposer
