import ShaderComposer.Proofs.Composition.Origins
import ShaderComposer.Proofs.Source.ReadBack

/-!
# What a backend reads in a composed stage

If the names of declarations and scripts are quiet, a backend reads in the text of a composed stage
exactly the variables that the shaders of the stage declare (`CoreShader.mem_declarations_iff`),
each name once, and it has nothing against the stage (`CoreShader.stageFault_of_compose`).
-/

namespace ShaderComposer

open SourceScan (Text isIdentifier lead qualifiers)

/-! ### Registries made of quiet steps -/

namespace Registry

variable {steps : List DeclareStep} {r : Registry}

theorem isPlainText_of_isQuietDirective {line : Text} (quiet : isQuietDirective line = true) :
    IsPlainText line := by
  obtain ⟨all, apart⟩ := Bool.and_eq_true_iff.mp quiet
  have other : lead line ∉ declarationWords := by simpa using apart
  exact isPlainText_of_inert (List.all_eq_true.mp all)
    fun mem => other (List.mem_append_left _ mem)

theorem MadeOf.isReadable (quiet : ∀ step ∈ steps, step.isQuiet = true)
    (made : r.MadeOf (fun v => v.isQuiet = true) steps) : r.IsReadable := by
  refine ⟨fun v mem => ⟨made.good v mem, ?_⟩, fun line mem => ?_, fun f mem => ?_⟩
  · obtain ⟨draft, known, shape⟩ := made.vars v mem
    have step := quiet _ known
    simp only [DeclareStep.isQuiet, Bool.and_eq_true, Bool.not_eq_true',
      List.isEmpty_eq_false_iff] at step
    rw [(Variable.eq_of_sameShape shape).1]
    exact step.1.1
  · exact isPlainText_of_isQuietDirective (quiet _ (made.directives line mem))
  · cases quiet _ (made.helpers f mem)

end Registry

/-! ### Composed stages -/

namespace CoreShader

variable {core : CoreShader} {fragments : List AttachedFragment} {attached : List String}
  {strict : Bool} {c : StageComposition}

theorem text_of_compose (ok : (core.compose fragments attached strict).1 = .ok c)
    (quiet : core.IsQuiet (fragments.map (·.fragment))) :
    ∃ (r : Registry) (body : List Stmt),
      r.MadeOf (fun v => v.isQuiet = true) (core.steps (fragments.map (·.fragment))) ∧
      (∀ step ∈ core.steps (fragments.map (·.fragment)), r.Has step) ∧
      Stmt.areQuiet body = true ∧ c.source.text.toList = r.chars (Stmt.blockChars 1 body) := by
  obtain ⟨l, describes⟩ := describes_of_compose ok
  refine ⟨l.registry, _, (describes.declares.madeOf (builds_quiet quiet.steps)).1,
    fun step mem => describes.declares.has mem, describes.areQuiet quiet, ?_⟩
  rw [describes.source, ← Stmt.toList_renderBlock]
  exact Registry.toList_render _ _

theorem stageFault_of_compose (ok : (core.compose fragments attached strict).1 = .ok c)
    (quiet : core.IsQuiet (fragments.map (·.fragment))) :
    SourceScan.stageFault c.source.text.toList = none := by
  obtain ⟨r, body, made, _, bodyQuiet, text⟩ := text_of_compose ok quiet
  rw [text]
  exact Registry.stageFault_chars (made.isReadable quiet.steps) 1 bodyQuiet

/-- The declarations that a backend reads are those of the stage's shaders. -/
theorem mem_declarations_iff (ok : (core.compose fragments attached strict).1 = .ok c)
    (quiet : core.IsQuiet (fragments.map (·.fragment))) {q : Qualifier} {w : String}
    (keyword : q.keyword = some w) (reads : w.toList ∈ qualifiers) {p : Text × Text} :
    p ∈ SourceScan.declarations w.toList c.source.text.toList ↔
      ∃ draft : VariableDraft, .declare draft ∈ core.steps (fragments.map (·.fragment)) ∧
        draft.var.qualifier = q ∧ p = (draft.var.name.toList, draft.var.type.name.toList) := by
  obtain ⟨r, body, made, has, bodyQuiet, text⟩ := text_of_compose ok quiet
  rw [text, (made.isReadable quiet.steps).declarations_eq keyword reads 1 bodyQuiet]
  constructor
  · intro mem
    obtain ⟨v, inside, rfl⟩ := List.mem_map.mp mem
    obtain ⟨known, here⟩ := List.mem_filter.mp inside
    obtain ⟨draft, step, shape⟩ := made.vars v known
    obtain ⟨name, type, qualifier⟩ := Variable.eq_of_sameShape shape
    refine ⟨draft, step, qualifier.symm.trans (beq_iff_eq.mp here), ?_⟩
    rw [Registry.shown, name, type]
  · rintro ⟨draft, step, here, rfl⟩
    obtain ⟨v, known, shape, _⟩ := has _ step
    obtain ⟨name, type, qualifier⟩ := Variable.eq_of_sameShape shape
    rw [← name, ← type]
    exact List.mem_map_of_mem (f := Registry.shown)
      (List.mem_filter.mpr ⟨known, beq_iff_eq.mpr (qualifier.trans here)⟩)

theorem nodup_declarations (ok : (core.compose fragments attached strict).1 = .ok c)
    (quiet : core.IsQuiet (fragments.map (·.fragment))) {q : Qualifier} {w : String}
    (keyword : q.keyword = some w) (reads : w.toList ∈ qualifiers) :
    ((SourceScan.declarations w.toList c.source.text.toList).map Prod.fst).Nodup := by
  obtain ⟨r, body, made, _, bodyQuiet, text⟩ := text_of_compose ok quiet
  rw [text, (made.isReadable quiet.steps).declarations_eq keyword reads 1 bodyQuiet]
  exact Registry.nodup_shown made.distinct q

end CoreShader

end ShaderComposer
