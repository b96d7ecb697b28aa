import ShaderComposer.Proofs.Material.TextureBindings
import ShaderComposer.Proofs.Material.WrittenUniforms

/-!
# Drawing again

An activation brings the effects of a material to its time, and effects that are at a time already
stay as they are (`Effect.advance_advance`). A refusal is noted in the material, and refusing again
notes nothing new (`Material.liveProgram_refused`). So a material that was activated is left as it is
by everything that is drawn afterwards, and a further activation makes the same calls in the same
order (`Session.draws_alike`).
-/

namespace ShaderComposer

/-! ### Effects at a time -/

theorem SpriteSheet.advance_advance (s : SpriteSheet) (now : Single) :
    (s.advance now).advance now = s.advance now := by
  cases playing : s.playing with
  | false => rw [advance_paused playing, advance_paused playing]
  | true =>
    -- the start of playing is kept, so the same time has passed
    unfold advance
    rw [if_pos playing]
    dsimp only
    rw [if_pos playing]
    rfl

namespace Effect

theorem advance_advance (e : Effect) (now : Single) :
    (e.advance now).advance now = e.advance now := by
  cases e with
  | spriteSheet s => exact congrArg spriteSheet (s.advance_advance now)
  | _ => rfl

theorem id_advance (e : Effect) (now : Single) : (e.advance now).id = e.id := by
  cases e <;> rfl

theorem textures_advance (e : Effect) (now : Single) : (e.advance now).textures = e.textures := by
  cases e <;> rfl

end Effect

namespace Material

variable {m n : Material} {b c : Backend} {limit handle : Nat} {required : BuildState}

def brought (m : Material) : Material := m.mapEffects fun e => e.advance m.time

theorem brought_brought (m : Material) : m.brought.brought = m.brought := by
  have effects : (m.effects.map fun e => e.advance m.time).map (fun e => e.advance m.time) =
      m.effects.map fun e => e.advance m.time := by
    rw [List.map_map]
    exact List.map_congr_left fun e _ => e.advance_advance m.time
  exact congrArg (fun effects => { m with effects := effects }) effects

/-! ### Calls of an activation -/

/-- What an activation calls: it uses the program, binds the textures, each with its sampler, and
writes the uniforms of the vertex stage and those of the fragment stage, in each stage the core's
before those of the effects. -/
def drawing (m : Material) (limit program : Nat) : List GraphicsCall :=
  [.useProgram program] ++ m.textureBindings limit ++
    ((m.coreWrites .vertex ++ m.effects.flatMap (m.effectWrites .vertex)) ++
      (m.coreWrites .fragment ++ m.effects.flatMap (m.effectWrites .fragment)))

theorem effectLocation_advance (m : Material) (e : Effect) (now : Single) (stage : Stage)
    (name : String) :
    m.brought.effectLocation (e.advance now) stage name = m.effectLocation e stage name := by
  unfold effectLocation
  rw [e.fragment?_advance, e.id_advance]
  rfl

theorem effectUnits_brought (m : Material) (limit : Nat) :
    m.brought.effectUnits limit =
      (m.effectUnits limit).map fun (r, e) => (r, e.advance m.time) := by
  -- the units of an effect go by its place, which is kept
  simp only [effectUnits, brought, mapEffects, List.zipIdx_map, List.map_map, List.filter_map]
  rfl

theorem textureBindings_brought (m : Material) (limit : Nat) :
    m.brought.textureBindings limit = m.textureBindings limit := by
  have bindings (r : UnitRange) (e : Effect) :
      effectBindings r (e.advance m.time) = effectBindings r e := by
    rw [effectBindings, e.textures_advance, effectBindings]
  unfold textureBindings
  rw [effectUnits_brought, List.flatMap_map]
  simp only [bindings, effectLocation_advance]
  rfl

/-! ### The program of an activation -/

/-- Of a backend only the context counts. -/
theorem liveProgram_congr (same : c.contextGeneration = b.contextGeneration) :
    m.liveProgram c required = m.liveProgram b required := by
  unfold liveProgram
  rw [same]

theorem liveProgram_of_isLive {p : LinkedProgram} (live : m.IsLive b p)
    (far : m.progress.reaches required = true) :
    m.liveProgram b required = (.ok p.handle, m, []) := by
  simp [liveProgram, live.live, live.generation, live.version, far]

theorem liveProgram_ok {log : List LogRecord}
    (given : m.liveProgram b required = (.ok handle, n, log)) :
    n = m ∧ log = [] ∧ ∃ p, m.IsLive b p ∧ m.progress.reaches required = true ∧
      p.handle = handle := by
  rcases liveProgram_cases .any m b required with ⟨p, live, far, found⟩ | ⟨e, _, _, refused, _⟩
  · rw [found] at given
    cases given
    exact ⟨rfl, rfl, p, live, far, rfl⟩
  · rw [refused] at given
    cases given

/-- A program that was refused is refused again, and nothing more is noted or logged. -/
theorem liveProgram_refused {e : ShaderError} {log : List LogRecord}
    (given : m.liveProgram b required = (.error e, n, log)) :
    n.liveProgram b required = (.error e, n, []) := by
  cases program : m.program with
  | none =>
    simp only [liveProgram, program] at given
    cases given
    simp only [liveProgram, program]
  | invalidated | retired _ =>
    simp only [liveProgram, program] at given
    cases given
    simp only [liveProgram, program]
    rfl
  | live p =>
    by_cases generation : p.generation = b.contextGeneration
    · have here : (p.generation ≠ b.contextGeneration) = False := eq_false (not_not_intro generation)
      by_cases version : p.version = m.version
      · have now : (p.version ≠ m.version) = False := eq_false (not_not_intro version)
        by_cases far : m.progress.reaches required = true
        · simp only [liveProgram, program, here, now, far, if_false, if_true] at given
          cases given
        · simp only [liveProgram, program, here, now, far, if_false] at given
          cases given
          simp only [liveProgram, program, here, now, far, if_false, Bool.false_eq_true]
      · simp only [liveProgram, program, here, ne_eq, version, not_false_eq_true, if_false,
          if_true] at given
        cases given
        simp only [liveProgram, program, here, ne_eq, version, not_false_eq_true, if_false, if_true]
        rfl
    · simp only [liveProgram, program, ne_eq, generation, not_false_eq_true, if_true] at given
      cases given
      have gone : m.contextLost.program = .invalidated := by
        simp [contextLost, program]
      simp only [liveProgram, gone]
      rfl

theorem liveProgram_brought {log : List LogRecord}
    (given : m.liveProgram b required = (.ok handle, n, log)) :
    m.brought.liveProgram b required = (.ok handle, m.brought, []) := by
  obtain ⟨_, _, p, live, far, rfl⟩ := liveProgram_ok given
  exact liveProgram_of_isLive (m := m.brought) ⟨live.live, live.generation, live.version⟩ far

/-! ### One activation -/

/-- What an activation answers to a refusal. -/
def Activation.ofRefusal : ShaderError → Except ShaderError Activation
  | .staleProgram _ => .ok .skipped
  | e => .error e

theorem activate_of_ok {log : List LogRecord}
    (given : m.liveProgram b .bound = (.ok handle, n, log)) :
    m.activate b = ⟨.ok (.ready (min m.units.total b.maxTextureUnits)), m.brought,
      b.recordAll (m.brought.drawing b.maxTextureUnits handle),
      m.overflowRecords b.maxTextureUnits⟩ := by
  obtain ⟨rfl, rfl, _⟩ := liveProgram_ok given
  -- the call and the textures recorded before leave the program in use
  have still (calls : List GraphicsCall) : n.liveProgram (b.recordAll calls) .bound =
      (.ok handle, n, []) := given
  have used : n.useProgram b = ⟨.ok (), n, b.recordAll [.useProgram handle], []⟩ := by
    simp only [useProgram, withProgram, given]
    rfl
  have bound (calls : List GraphicsCall) : n.bindTextures (b.recordAll calls) =
      ⟨.ok (min n.units.total b.maxTextureUnits), n,
        (b.recordAll calls).recordAll (n.textureBindings b.maxTextureUnits),
        n.overflowRecords b.maxTextureUnits⟩ := by
    simp only [bindTextures, withProgram, still]
    rfl
  have applied (calls : List GraphicsCall) : n.applyParams (b.recordAll calls) =
      ⟨.ok (), n.brought, (b.recordAll calls).recordAll
        (n.brought.stageWrites .vertex ++ n.brought.stageWrites .fragment), []⟩ := by
    simp only [applyParams, withProgram, still]
    rfl
  simp only [activate, used, Outcome.andThen, bound, Backend.recordAll_append, applied,
    List.append_nil]
  rw [← textureBindings_brought]
  rfl

theorem activate_of_error {e : ShaderError} {log : List LogRecord}
    (given : m.liveProgram b .bound = (.error e, n, log)) :
    m.activate b = ⟨Activation.ofRefusal e, n, b, log⟩ := by
  have used : m.useProgram b = ⟨.error e, n, b, log⟩ := by
    simp only [useProgram, withProgram, given]
  simp only [activate, used]
  cases e <;> rfl

/-- Drawing leaves the material as it is: a refusal has been noted, and the effects are at its time.
-/
structure Settled (m : Material) (b : Backend) : Prop where
  noted : (m.liveProgram b .bound).2 = (m, [])
  brought (program : Nat) : (m.liveProgram b .bound).1 = .ok program → m.brought = m

theorem Settled.congr (settled : m.Settled b) (same : c.contextGeneration = b.contextGeneration) :
    m.Settled c := by
  constructor
  · rw [liveProgram_congr same]
    exact settled.noted
  · rw [liveProgram_congr same]
    exact settled.brought

theorem settled_activate (m : Material) (b : Backend) : (m.activate b).material.Settled b := by
  rcases given : m.liveProgram b .bound with ⟨e | handle, n, log⟩
  · have again := liveProgram_refused given
    rw [activate_of_error given]
    exact ⟨by rw [again], fun program ok => by rw [again] at ok; cases ok⟩
  · have again := liveProgram_brought given
    rw [activate_of_ok given]
    exact ⟨by rw [again], fun _ _ => m.brought_brought⟩

theorem Settled.material_perform (settled : m.Settled b) (call : FrameCall) :
    (call.perform m b).material = m := by
  rcases given : m.liveProgram b .bound with ⟨e | handle, n, log⟩
  · have noted := settled.noted
    rw [given] at noted
    obtain rfl : n = m := congrArg Prod.fst noted
    cases call <;>
      simp only [FrameCall.perform, Outcome.map, useProgram, applyParams, bindTextures,
        unbindTextures, bindAttributes, withProgram, given]
  · obtain ⟨_, _, p, live, far, _⟩ := liveProgram_ok given
    have brought := settled.brought handle (by rw [given])
    have leaves := (call.perform_of_isLive live (eq_bound_of_reaches far)).1
    rw [leaves]
    cases call with
    | applyParams => exact brought
    | _ => rfl

theorem Settled.material_activate (settled : m.Settled b) : (m.activate b).material = m := by
  rcases given : m.liveProgram b .bound with ⟨e | handle, n, log⟩
  · have noted := settled.noted
    rw [given] at noted
    rw [activate_of_error given]
    exact congrArg Prod.fst noted
  · have brought := settled.brought handle (by rw [given])
    rw [activate_of_ok given]
    exact brought

/-- An activation records calls only, and one after it makes the same calls and gives the same
answer, also on a backend that is at another point of the same context. -/
theorem activate_again (m : Material) (context : c.contextGeneration = b.contextGeneration)
    (units : c.maxTextureUnits = b.maxTextureUnits) :
    ((m.activate b).material.activate c).result = (m.activate b).result ∧
      ∃ calls, (m.activate b).backend = b.recordAll calls ∧
        ((m.activate b).material.activate c).backend = c.recordAll calls := by
  rcases given : m.liveProgram b .bound with ⟨e | handle, n, log⟩
  · have again := liveProgram_refused given
    rw [← liveProgram_congr context] at again
    rw [activate_of_error given, activate_of_error again]
    exact ⟨rfl, [], (Backend.recordAll_nil b).symm, (Backend.recordAll_nil c).symm⟩
  · have again := liveProgram_brought given
    rw [← liveProgram_congr context] at again
    rw [activate_of_ok given, activate_of_ok again, m.brought_brought, units]
    exact ⟨rfl, _, rfl, rfl⟩

end Material

/-! ### Sessions -/

/-- The turn draws with the material, and the backend stays in its context meanwhile. -/
structure Turn.Draws (t : Turn Backend) : Prop where
  op : t.op = .activate ∨ ∃ call, t.op = .frame call
  context (b : Backend) : (t.meanwhile b).contextGeneration = b.contextGeneration
  units (b : Backend) : (t.meanwhile b).maxTextureUnits = b.maxTextureUnits

namespace Session

variable {s : Session Backend} {turns : List (Turn Backend)}

/-- Of a settled material nothing changes while it draws, nor does the context of its backend. -/
theorem step_of_draws {t : Turn Backend} (draws : t.Draws)
    (settled : s.material.Settled s.backend) :
    (s.step t).material = s.material ∧
      (s.step t).backend.contextGeneration = s.backend.contextGeneration ∧
      (s.step t).backend.maxTextureUnits = s.backend.maxTextureUnits := by
  have settled := settled.congr (draws.context s.backend)
  rw [step_headless, ← draws.context s.backend, ← draws.units s.backend]
  obtain same | ⟨call, same⟩ := draws.op
  · rw [same]
    obtain ⟨_, calls, recorded, _⟩ := s.material.activate_again (b := t.meanwhile s.backend) rfl rfl
    refine ⟨settled.material_activate, ?_⟩
    simp only [Operation.perform, Outcome.map, recorded]
    exact ⟨rfl, rfl⟩
  · rw [same]
    refine ⟨settled.material_perform call, ?_⟩
    simp only [Operation.perform]
    rcases call.perform_cases s.material (t.meanwhile s.backend) with kept | ⟨_, _, _, _, recorded⟩
    · rw [kept]
      exact ⟨rfl, rfl⟩
    · rw [recorded]
      exact ⟨rfl, rfl⟩

theorem run_of_draws (draws : ∀ t ∈ turns, t.Draws) (settled : s.material.Settled s.backend) :
    (s.run turns).material = s.material ∧
      (s.run turns).backend.contextGeneration = s.backend.contextGeneration ∧
      (s.run turns).backend.maxTextureUnits = s.backend.maxTextureUnits := by
  induction turns generalizing s with
  | nil => exact ⟨rfl, rfl, rfl⟩
  | cons t rest ih =>
    obtain ⟨material, context, units⟩ := step_of_draws (draws t List.mem_cons_self) settled
    have still : (s.step t).material.Settled (s.step t).backend := by
      rw [material]
      exact settled.congr context
    obtain ⟨last, lastContext, lastUnits⟩ :=
      ih (fun u mem => draws u (List.mem_cons_of_mem t mem)) still
    exact ⟨last.trans material, lastContext.trans context, lastUnits.trans units⟩

theorem step_activate (s : Session Backend) : s.step { op := .activate } =
    ⟨(s.material.activate s.backend).material, (s.material.activate s.backend).backend⟩ :=
  s.step_headless { op := .activate }

theorem result_activate (s : Session Backend) : (s.answer { op := .activate }).result =
    (s.material.activate s.backend).result.map .activation := by
  simp only [answer, Operation.performOn_headless]
  rfl

/-- An activation leaves the material settled, in the context that it was drawn in. -/
theorem step_activate_leaves (s : Session Backend) :
    (s.step { op := .activate }).material.Settled (s.step { op := .activate }).backend ∧
      (s.step { op := .activate }).backend.contextGeneration = s.backend.contextGeneration ∧
      (s.step { op := .activate }).backend.maxTextureUnits = s.backend.maxTextureUnits := by
  obtain ⟨_, calls, recorded, _⟩ := s.material.activate_again (b := s.backend) rfl rfl
  rw [step_activate, recorded]
  exact ⟨(s.material.settled_activate s.backend).congr rfl, rfl, rfl⟩

theorem calls_of_activate (s : Session Backend) (bound : s.material.state = .bound)
    {calls : List GraphicsCall}
    (recorded : (s.step { op := .activate }).backend = s.backend.recordAll calls) :
    (∃ p, s.material.IsLive s.backend p ∧
        (s.answer { op := .activate }).result = .ok (.activation (.ready
          (min s.material.units.total s.backend.maxTextureUnits))) ∧
        calls = (s.step { op := .activate }).material.drawing s.backend.maxTextureUnits p.handle) ∨
      (¬ ∃ p, s.material.IsLive s.backend p) ∧ calls = [] := by
  have progress := ((Material.state_eq_bound_iff s.material).mp bound).2
  have sameCalls {others : List GraphicsCall}
      (same : s.backend.recordAll calls = s.backend.recordAll others) : calls = others :=
    List.append_cancel_left (congrArg Backend.calls same)
  rw [step_activate] at recorded ⊢
  rw [result_activate]
  rcases given : s.material.liveProgram s.backend .bound with ⟨e | handle, n, log⟩
  · right
    rw [Material.activate_of_error given] at recorded
    refine ⟨fun ⟨p, live⟩ => ?_, sameCalls ?_⟩
    · have far : s.material.progress.reaches .bound = true := by
        rw [progress]
        rfl
      cases (Material.liveProgram_of_isLive live far).symm.trans given
    · rw [Backend.recordAll_nil]
      exact recorded.symm
  · left
    obtain ⟨_, _, p, live, _, rfl⟩ := Material.liveProgram_ok given
    rw [Material.activate_of_ok given] at recorded ⊢
    exact ⟨p, live, rfl, sameCalls recorded.symm⟩

/-- A bound material that was activated is left as it is by drawing, and activating it again makes
the same calls in the same order. They are those of drawing with its program; there are none if its
program is not in use. -/
theorem draws_alike (s : Session Backend) (bound : s.material.state = .bound)
    {turns : List (Turn Backend)} (draws : ∀ t ∈ turns, t.Draws) {first later : Session Backend}
    (activated : s.step { op := .activate } = first) (reached : first.run turns = later) :
    ∃ calls, first.backend = s.backend.recordAll calls ∧
      (later.step { op := .activate }).backend = later.backend.recordAll calls ∧
      later.material = first.material ∧
      (later.step { op := .activate }).material = first.material ∧
      (later.answer { op := .activate }).result = (s.answer { op := .activate }).result ∧
      ((∃ p, s.material.IsLive s.backend p ∧
          (s.answer { op := .activate }).result = .ok (.activation (.ready
            (min s.material.units.total s.backend.maxTextureUnits))) ∧
          calls = first.material.drawing s.backend.maxTextureUnits p.handle) ∨
        (¬ ∃ p, s.material.IsLive s.backend p) ∧ calls = []) := by
  subst activated reached
  obtain ⟨settled, firstContext, firstUnits⟩ := s.step_activate_leaves
  obtain ⟨kept, context, units⟩ := run_of_draws draws settled
  generalize (s.step { op := .activate }).run turns = later at kept context units
  obtain ⟨result, calls, recorded, again⟩ :=
    s.material.activate_again (context.trans firstContext) (units.trans firstUnits)
  have still := (settled.congr context).material_activate
  have begun : (s.step { op := .activate }).backend = s.backend.recordAll calls := by
    rw [step_activate]
    exact recorded
  have called := s.calls_of_activate bound begun
  rw [step_activate] at kept settled still called ⊢
  refine ⟨calls, recorded, ?_, kept, ?_, ?_, called⟩
  · rw [step_activate, kept]
    exact again
  · rw [step_activate, kept]
    exact still
  · rw [result_activate, result_activate, kept, result]

def playingSheet : SpriteSheet := { SpriteSheet.create 4 2 10.0 8 with spliced := true }.play

/-- A material with a sprite sheet that plays, spliced into the vertex stage. -/
def playing : Session Backend :=
  ⟨((Material.create "m" {}).addEffect (.spriteSheet playingSheet)).2.1, .create 8 false⟩

theorem build_playing : (playing.material.build playing.backend).result = .ok 1 := by
  have composes : World.composesWith true 0 playing.material = true := by
    decide +kernel
  obtain ⟨plain, serves, c, composed⟩ := World.compose_of_composesWith composes
  obtain ⟨ok, enough⟩ := composed playing.backend
  obtain ⟨_, units, parts, _⟩ := Material.parts_of_compose ok
  obtain ⟨n, ⟨_, rfl⟩, composing⟩ := Material.compose_of_parts parts playing.backend
  have within := enough playing.backend (Nat.zero_le _)
  rw [composing] at within
  refine Material.build_of_accepted parts within rfl ?_
  rw [Material.sourceFault_of_composeParts plain parts, serves, if_pos rfl]

/-- The outcome of its build is not computed. -/
theorem built_playing : ∃ (o : Outcome Nat) (p : LinkedProgram),
    o.material.state = .bound ∧ o.material.IsLive o.backend p ∧
      o.material.effects = [.spriteSheet playingSheet] := by
  have built := build_playing
  obtain ⟨_, _, bound, _⟩ := Material.build_leaves built
  obtain ⟨p, _, live, _⟩ := Material.build_ready built
  obtain ⟨o, c, d, builds⟩ := Material.exists_buildsBy built
  obtain ⟨_, units, ⟨_, rfl⟩, _, rfl⟩ := builds.composed
  refine ⟨_, p, bound, live, ?_⟩
  rw [builds.material]
  rfl

/-- Activated twice, with its parameters applied in between, it makes calls on its program. -/
theorem draws_alike_playing : ∃ (s : Session Backend) (p : LinkedProgram),
    s.material.state = .bound ∧ s.material.IsLive s.backend p ∧
      s.material.effects = [.spriteSheet playingSheet] ∧ playingSheet.playing = true ∧
      ∃ first later calls, s.step { op := .activate } = first ∧
        first.run [{ op := .frame .applyParams }, { op := .activate }] = later ∧
        first.backend = s.backend.recordAll calls ∧ .useProgram p.handle ∈ calls ∧
        (later.step { op := .activate }).backend = later.backend.recordAll calls := by
  obtain ⟨o, p, bound, live, effects⟩ := built_playing
  have draws (t : Turn Backend)
      (mem : t ∈ [{ op := .frame .applyParams }, ({ op := .activate } : Turn Backend)]) :
      t.Draws := by
    rcases List.mem_pair.mp mem with rfl | rfl
    · exact ⟨.inr ⟨_, rfl⟩, fun _ => rfl, fun _ => rfl⟩
    · exact ⟨.inl rfl, fun _ => rfl, fun _ => rfl⟩
  obtain ⟨calls, recorded, again, _, _, _, ⟨q, used, _, drawn⟩ | ⟨dead, _⟩⟩ :=
    draws_alike ⟨o.material, o.backend⟩ bound draws rfl rfl
  · have same : q = p := ProgramState.live.inj (used.live.symm.trans live.live)
    refine ⟨⟨o.material, o.backend⟩, p, bound, live, effects, rfl, _, _, calls, rfl, rfl, recorded,
      ?_, again⟩
    rw [drawn, same, Material.drawing]
    exact List.mem_append_left _ (List.mem_append_left _ List.mem_cons_self)
  · exact absurd ⟨p, live⟩ dead

end Session

end ShaderComposer
