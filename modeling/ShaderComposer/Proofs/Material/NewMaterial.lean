import ShaderComposer.Proofs.Glsl.Characters
import ShaderComposer.Proofs.Graphics.Programs
import ShaderComposer.Proofs.Material.Invariant

/-!
# Builds that succeed

A build succeeds if composing does, the units suffice, no failure waits in the backend and it has
nothing against the sources (`Material.build_of_accepted`). What was built is ready to be drawn
with (`Material.build_ready`). A new material with default settings builds on every backend
(`Material.build_create`).
-/

namespace ShaderComposer

theorem sourceFault_eq_none_iff {vertex fragment : String} :
    sourceFault vertex fragment = none ↔
      SourceScan.stageFault vertex.toList = none ∧ SourceScan.stageFault fragment.toList = none ∧
        linkFault vertex.toList fragment.toList = none := by
  unfold sourceFault
  cases SourceScan.stageFault vertex.toList with
  | some log => simp
  | none => cases SourceScan.stageFault fragment.toList <;> simp

theorem Backend.compileAndLink_of_accepted {b : Backend} {vertex fragment : String}
    (calm : b.pendingFailure = none) (accepted : sourceFault vertex fragment = none) :
    (b.compileAndLink vertex fragment).1 = .ok b.nextProgram.toNat := by
  simp [compileAndLink, calm, accepted]

namespace Material

variable {m : Material} {b : Backend}

theorem build_ready {handle : Nat} (ok : (m.build b).result = .ok handle) :
    ∃ p, p.handle = handle ∧ (m.build b).material.IsLive (m.build b).backend p ∧
      (m.build b).material.progress = .bound := by
  rcases m.build_cases b with ⟨_, _, failed, _⟩ | ⟨_, o, _, compiles, ⟨_, _, failed, _⟩ |
    ⟨linked, compiled, built, material, backend⟩⟩
  · rw [failed] at ok
    cases ok
  · rw [failed] at ok
    cases ok
  · obtain rfl := Except.ok.inj (built.symm.trans ok)
    obtain ⟨n, made⟩ : ∃ n : Material,
        o.material = n.withLinked linked o.backend.contextGeneration := by
      rw [compiles] at compiled ⊢
      exact compile_ok compiled
    have live := isLive_withLinked n o.backend linked
    rw [← made] at live
    have far : o.material.progress.reaches .linked = true := by
      rw [made]
      rfl
    rw [material, backend, linkLocations, withProgram_of_isLive live far]
    exact ⟨_, rfl, ⟨live.live, live.generation, live.version⟩, rfl⟩

/-- What is composed already is compiled as it is. -/
theorem compile_of_composed {c : Composition} (composed : m.composed = some c)
    (far : m.state.reaches .bodyBuilt = true) (units : m.units.total ≤ m.unitLimit b) :
    m.compile b = m.compileComposition b c := by
  have enough : ¬ m.unitLimit b < m.units.total := Nat.not_lt.mpr units
  simp only [compile, ensureComposed, composed, far, ite_true, Outcome.andThen, if_neg enough,
    List.nil_append]

theorem result_compile {c : Composition} (composed : m.composed = some c)
    (far : m.state.reaches .bodyBuilt = true) (units : m.units.total ≤ m.unitLimit b) :
    (m.compile b).result =
      (b.compileAndLink c.vertex.source.text c.fragment.source.text).1.mapError .rejected := by
  rw [compile_of_composed composed far units, compileComposition]
  split
  · next r d failed =>
    rw [failed]
    rfl
  · next handle d done =>
    rw [done]
    rfl

theorem compile_of_accepted {c : Composition} (composed : m.composed = some c)
    (far : m.state.reaches .bodyBuilt = true) (units : m.units.total ≤ m.unitLimit b)
    (calm : b.pendingFailure = none)
    (accepted : sourceFault c.vertex.source.text c.fragment.source.text = none) :
    (m.compile b).result = .ok b.nextProgram.toNat := by
  rw [result_compile composed far units, Backend.compileAndLink_of_accepted calm accepted]
  rfl

theorem far_withComposition (n : Material) (c : Composition) (units : UnitPlan) :
    (n.withComposition c units).state.reaches .bodyBuilt = true := by
  rw [state_withComposition]
  rfl

theorem build_of_accepted {c : Composition} {units : UnitPlan}
    (parts : m.composeParts = .ok (c, units)) (enough : units.total ≤ m.unitLimit b)
    (calm : b.pendingFailure = none)
    (accepted : sourceFault c.vertex.source.text c.fragment.source.text = none) :
    (m.build b).result = .ok b.nextProgram.toNat := by
  obtain ⟨n, ⟨_, rfl⟩, composing⟩ := compose_of_parts parts b
  have compiled : ((m.compose b).material.compile b).result = .ok b.nextProgram.toNat := by
    rw [composing]
    exact compile_of_accepted rfl (far_withComposition _ c units) enough calm accepted
  rcases m.build_cases b with ⟨_, failed, _⟩ | ⟨_, o, _, rfl, ⟨_, failed, _⟩ |
    ⟨handle, linked, built, _⟩⟩
  · rw [composing] at failed
    cases failed
  · rw [compiled] at failed
    cases failed
  · rw [built, ← linked, compiled]

/-- A build in its steps: `n` is the material once it has composed, and the backend answers with `d`
when it links what was composed. -/
structure BuildsBy (m : Material) (b : Backend) (handle : Nat) (n : Material) (c : Composition)
    (d : Backend) : Prop where
  composed : ∃ o units, m.SameButMemory o ∧ m.composeParts = .ok (c, units) ∧
    n = o.withComposition c units
  within : n.units.total ≤ n.unitLimit b
  linked : b.compileAndLink c.vertex.source.text c.fragment.source.text = (.ok handle, d)
  backend : (m.build b).backend = n.releaseProgram d
  material : (m.build b).material =
    (n.withLinked handle (n.releaseProgram d).contextGeneration).withLocations
      (resolveAll (n.releaseProgram d) handle n.lookups .empty).1
  link : Operation.build.link? m b =
    some ⟨handle, c.vertex.source.text, c.fragment.source.text⟩

theorem exists_buildsBy {handle : Nat} (ok : (m.build b).result = .ok handle) :
    ∃ n c d, m.BuildsBy b handle n c d := by
  rcases m.build_cases b with ⟨_, _, failed, _⟩ | ⟨c, o, composing, rfl, ⟨_, _, failed, _⟩ |
    ⟨linked, compiled, built, material, backend⟩⟩
  · rw [failed] at ok
    cases ok
  · rw [failed] at ok
    cases ok
  · obtain rfl := Except.ok.inj (built.symm.trans ok)
    obtain ⟨o, units, same, parts, made⟩ : ∃ o units, m.SameButMemory o ∧
        m.composeParts = .ok (c, units) ∧ (m.compose b).material = o.withComposition c units := by
      obtain ⟨_, units, parts, _⟩ := parts_of_compose composing
      obtain ⟨o, same, made⟩ := compose_of_parts parts b
      exact ⟨o, units, same, parts, by rw [made]⟩
    have found : (m.compose b).material.composed = some c := by
      rw [made]
      rfl
    have far : (m.compose b).material.state.reaches .bodyBuilt = true := by
      rw [made]
      exact far_withComposition o c units
    -- what was just composed is found and not composed again
    have ensured : (m.compose b).material.ensureComposed b =
        ⟨.ok c, (m.compose b).material, b, []⟩ := by
      simp only [ensureComposed, found, far, ite_true]
    cases (m.compose b).material.compile_ends b with
    | uncomposed _ _ result | crowded _ _ result | rejected _ _ _ _ result =>
      rw [result] at compiled
      cases compiled
    | @linked c' handle d _ composed within submits linking result after answer =>
      rw [ensured] at composed within after answer
      obtain rfl := Option.some.inj (found.symm.trans composed)
      obtain rfl := Except.ok.inj (result.symm.trans compiled)
      rw [after, answer] at material
      have live := isLive_withLinked (m.compose b).material
        ((m.compose b).material.releaseProgram d) handle
      rw [linkLocations, withProgram_of_isLive live rfl] at material
      refine ⟨(m.compose b).material, c, d, ⟨o, units, same, parts, made⟩, within, linking,
        backend.trans answer, material, ?_⟩
      simp only [Operation.link?, composing, link?, submits, linking]

/-! ### New materials -/

/-- The checks of a backend on the characters of two composed stages. -/
def acceptsChars : Except ShaderError (List Char) → Except ShaderError (List Char) → Bool
  | .ok vertex, .ok fragment =>
    (SourceScan.stageFault vertex).isNone && (SourceScan.stageFault fragment).isNone &&
      (linkFault vertex fragment).isNone
  | _, _ => false

theorem acceptsChars_core :
    acceptsChars ((CoreVertex.shader {} .medium).chars [] [] false)
      ((CoreFragment.shader {} .medium []).chars [] [] false) = true := by
  decide +kernel

/-- A material with the default core shaders and nothing to add to them builds if its units suffice.
-/
theorem build_of_bare (features : m.settings.features = {}) (precision : m.settings.precision = .medium)
    (strict : m.settings.strictTypes = false) (textures : m.textures = [])
    (fragments : ∀ stage, stageFragments m.effects stage = []) (attached : attachedIds m.effects = [])
    (units : UnitPlan) (plan : m.planUnits = .ok units) (enough : units.total ≤ m.unitLimit b)
    (calm : b.pendingFailure = none) : (m.build b).result = .ok b.nextProgram.toNat := by
  have vertexStage : m.stageResult .vertex =
      ((CoreVertex.shader {} .medium).compose [] [] false).1 := by
    unfold stageResult
    rw [fragments, attached, strict]
    simp only [coreShader, features, precision, List.map_nil]
  have fragmentStage : m.stageResult .fragment =
      ((CoreFragment.shader {} .medium []).compose [] [] false).1 := by
    unfold stageResult
    rw [fragments, attached, strict]
    simp only [coreShader, features, precision, textures, List.map_nil]
  have accepts := acceptsChars_core
  unfold acceptsChars at accepts
  split at accepts
  · next vertexText fragmentText vertexChars fragmentChars =>
    obtain ⟨vertex, vertexMade, vertexText⟩ := CoreShader.compose_of_chars vertexChars
    obtain ⟨fragment, fragmentMade, fragmentText⟩ := CoreShader.compose_of_chars fragmentChars
    have parts : m.composeParts = .ok (⟨vertex, fragment⟩, units) := by
      have first : m.stageResult .vertex = .ok vertex := vertexStage.trans vertexMade
      have second : m.stageResult .fragment = .ok fragment := fragmentStage.trans fragmentMade
      simp only [composeParts, plan, first, second]
    refine build_of_accepted parts enough calm (sourceFault_eq_none_iff.mpr ?_)
    simp only [Bool.and_eq_true, Option.isNone_iff_eq_none] at accepts
    rw [vertexText, fragmentText]
    exact ⟨accepts.1.1, accepts.1.2, accepts.2⟩
  · cases accepts

theorem build_create (name : String) (calm : b.pendingFailure = none) :
    ((create name {}).build b).result = .ok b.nextProgram.toNat :=
  build_of_bare rfl rfl rfl rfl (fun _ => rfl) rfl .empty rfl (Nat.zero_le _) calm

end Material

namespace World

variable {w : World} {i : Nat} {m : Material} {handle : Nat}

theorem relinks_of_build (present : w.materials[i]? = some m)
    (ok : (m.build w.backend).result = .ok handle) : w.Relinks i (.material i .build) := by
  refine ⟨rfl, m, present, Or.inr rfl, handle, ?_⟩
  simp only [Operation.perform, Outcome.map, ok]
  rfl

theorem useProgram_of_build (present : w.materials[i]? = some m)
    (ok : (m.build w.backend).result = .ok handle) :
    ∃ n, (w.step (.material i .build)).materials[i]? = some n ∧
      (FrameCall.useProgram.perform n (w.step (.material i .build)).backend).result = .ok .done := by
  obtain ⟨p, _, live, bound⟩ := Material.build_ready ok
  have far : (m.build w.backend).material.progress.reaches .bound = true := by
    rw [bound]
    rfl
  rw [step_material present]
  refine ⟨_, getElem?_put_self present, ?_⟩
  show (FrameCall.useProgram.perform (m.build w.backend).material (m.build w.backend).backend).result
    = .ok .done
  simp only [FrameCall.perform, Outcome.map, Material.useProgram,
    Material.withProgram_of_isLive live far]
  rfl

theorem getElem?_fresh (name : String) (limit : Nat) :
    (fresh [(name, {})] limit).materials[0]? = some (Material.create name {}) := rfl

end World

end ShaderComposer
