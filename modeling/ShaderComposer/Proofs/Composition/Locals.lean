import ShaderComposer.Proofs.Composition.Layout
import ShaderComposer.Proofs.Script.Turns

/-!
# Locals of a composed main()

All pieces of a stage are recorded on one body: for each, its owner is set, its script makes calls,
and the segment is taken (`Layout.turns`). So the locals of `main()` that nobody named are numbered
through all pieces, and no two of them have the same name, whatever their types, their depth and
their owners (`Body.tempNames_apart`).
-/

namespace ShaderComposer

/-! ### Turns of pieces -/

namespace Piece

variable {stage : Stage} {strict : Bool} {symbols : Symbols} {b : Body} {n k : Nat}

def made (symbols : Symbols) (b : Body) (p : Piece) : List (Call Expr) :=
  .setOwner p.owner ::
    Instruction.madeAll ⟨symbols, p.declared⟩ p.script ⟨{ b with owner := p.owner }, []⟩

/-- What is done with a body to record pieces on it, one after another. -/
def turns (symbols : Symbols) : Body → List Piece → List Body.Turn
  | _, [] => []
  | b, p :: rest =>
    Body.segmentTurns (p.made symbols b) ++
      turns symbols (b.performAll (p.made symbols b)).nextSegment rest

theorem segment_of_emits {p : Piece} {statements : List Stmt}
    (emits : p.Emits stage strict symbols n statements k) (new : b.IsNew stage strict n) :
    (b.performAll (p.made symbols b)).segment = .ok statements ∧
      (b.performAll (p.made symbols b)).nextSegment.IsNew stage strict k := by
  obtain ⟨r, ran, segment, rfl⟩ := emits
  obtain ⟨owner, rfl⟩ := new
  have recorded : Body.performAll { Body.empty stage strict with owner := owner, temps := n }
      (p.made symbols { Body.empty stage strict with owner := owner, temps := n }) = r.body :=
    (Instruction.body_of_runAll ran).symm
  rw [recorded]
  exact ⟨segment, Body.isNew_nextSegment (Instruction.sameKind_runAll ran)⟩

theorem nextSegment_of_isNew (new : b.IsNew stage strict n) : b.nextSegment = b := by
  obtain ⟨owner, rfl⟩ := new
  rfl

/-- The turns of pieces that emit their statements take these as segments, and the locals of all of
them, as often as they stand there, are those that the body named and those that came with names. -/
theorem turns_of_emitInTurn {recorded : List (Piece × List Stmt)}
    (emit : EmitInTurn stage strict symbols n recorded) {b : Body} (new : b.IsNew stage strict n) :
    b.segments (turns symbols b (recorded.map Prod.fst)) = recorded.map (fun p => .ok p.2) ∧
      (Stmt.locals (recorded.flatMap Prod.snd)).Perm
        (b.tempNames (turns symbols b (recorded.map Prod.fst)) ++
          (turns symbols b (recorded.map Prod.fst)).filterMap Body.Turn.ownName?) := by
  induction emit generalizing b with
  | nil n => exact ⟨rfl, .nil⟩
  | @cons n k p statements rest first others ih =>
    obtain ⟨segment, newAgain⟩ := segment_of_emits first new
    obtain ⟨taken, later⟩ := ih newAgain
    have here := Body.perm_locals_of_segment (nextSegment_of_isNew new) segment
    simp only [List.map_cons, turns, List.flatMap_cons]
    refine ⟨?_, ?_⟩
    · rw [Body.segments_append, Body.segments_segmentTurns, Body.turnAll_segmentTurns, taken, segment]
      rfl
    · rw [Body.tempNames_append, Body.turnAll_segmentTurns, List.filterMap_append, Stmt.locals,
        Stmt.gatherAll_append]
      refine (here.append later).trans (List.perm_iff_count.mpr fun name => ?_)
      simp only [List.count_append]
      omega

end Piece

def Layout.turns (l : Layout) (core : CoreShader) (attached : List String) (strict : Bool) :
    List Body.Turn :=
  Piece.turns (l.registry.symbols attached) (.empty core.stage strict) (l.pieces.map Prod.fst)

/-- The names that a body gives are numbered through all calls and segments, so none is given twice.
The locals of a composed `main()` at any depth, as often as they stand there, are those that its one
body named and those that came with names, and so no two of the former have the same name. -/
theorem Body.tempNames_apart :
    (∀ (b : Body) (ts : List Body.Turn),
      b.tempNames ts = ((ts.filterMap Body.Turn.tempType?).zipIdx b.temps).map
          (fun l => automaticName l.1 l.2) ∧
        (b.tempNames ts).Nodup) ∧
    ∀ (core : CoreShader) (fragments : List AttachedFragment) (attached : List String)
      (strict : Bool) (c : StageComposition),
      (core.compose fragments attached strict).1 = .ok c →
      ∃ l : Layout, l.Describes core (fragments.map (·.fragment)) attached strict c ∧
        (Body.empty core.stage strict).segments (l.turns core attached strict) =
          l.pieces.map (fun p => .ok p.2) ∧
        (Stmt.locals (l.pieces.flatMap Prod.snd)).Perm
          ((Body.empty core.stage strict).tempNames (l.turns core attached strict) ++
            (l.turns core attached strict).filterMap Body.Turn.ownName?) ∧
        ((Body.empty core.stage strict).tempNames (l.turns core attached strict)).Nodup := by
  refine ⟨fun b ts => ⟨b.tempNames_eq ts, b.nodup_tempNames ts⟩, ?_⟩
  intro core fragments attached strict c ok
  obtain ⟨l, describes⟩ := CoreShader.describes_of_compose ok
  have new : (Body.empty core.stage strict).IsNew core.stage strict 0 := ⟨_, rfl⟩
  obtain ⟨taken, locals⟩ := Piece.turns_of_emitInTurn describes.emitted new
  exact ⟨l, describes, taken, locals, Body.nodup_tempNames _ _⟩

/-- Two owners. The segment of the first is discarded: there is an `else` outside conditionals. -/
def discardedTurns : List Body.Turn :=
  [.call (.setOwner "FIRST"), .call (.temp .vec3 (.var "a" (some .vec3))), .call .elseBranch, .take,
    .call (.setOwner "SECOND"), .call (.temp .float (.var "b" (some .float))), .take]

theorem Body.tempNames_apart_discarded :
    ((Body.empty .vertex true).segments discardedTurns).map (·.toOption.isSome) = [false, true] ∧
    (Body.empty .vertex true).tempNames discardedTurns = ["v_vec3_0", "v_float_1"] ∧
    ((Body.empty .vertex true).tempNames discardedTurns).Nodup ∧
    ∃ c, ((CoreVertex.shader {} .medium).compose
        [CoreShader.twoLocals.attach, Fog.vertexFragment.attach] [] true).1 = .ok c ∧
      ∃ l : Layout, l.Describes (CoreVertex.shader {} .medium)
          [CoreShader.twoLocals, Fog.vertexFragment] [] true c ∧
        (Stmt.locals (l.pieces.flatMap Prod.snd)).Perm
          ((Body.empty .vertex true).tempNames (l.turns (CoreVertex.shader {} .medium) [] true) ++
            (l.turns (CoreVertex.shader {} .medium) [] true).filterMap Body.Turn.ownName?) ∧
        ((Body.empty .vertex true).tempNames
          (l.turns (CoreVertex.shader {} .medium) [] true)).Nodup := by
  obtain ⟨numbered, apart⟩ := tempNames_apart
  refine ⟨by decide, by decide, (numbered _ _).2, ?_⟩
  have made : ((CoreVertex.shader {} .medium).compose
      [CoreShader.twoLocals.attach, Fog.vertexFragment.attach] [] true).1.toOption.isSome = true := by
    decide +kernel
  cases composed : ((CoreVertex.shader {} .medium).compose
      [CoreShader.twoLocals.attach, Fog.vertexFragment.attach] [] true).1 with
  | error e =>
    rw [composed] at made
    cases made
  | ok c =>
    obtain ⟨l, describes, _, locals, distinct⟩ := apart _ _ _ _ c composed
    exact ⟨c, rfl, l, describes, locals, distinct⟩

end ShaderComposer
