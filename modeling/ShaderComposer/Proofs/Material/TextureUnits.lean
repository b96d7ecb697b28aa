import Mathlib.Algebra.GroupWithZero.Nat
import Mathlib.Data.List.Flatten
import ShaderComposer.Proofs.Material.HeadlessSession
import ShaderComposer.Proofs.Material.Moves

/-!
# Texture units

Composing lays the units out without gaps: the material's own textures first, then each effect's
(`Material.Laid`). A backend with fewer units is handed a first part of them: it ends at the limit,
or where the range starts that reaches over the limit (`Material.range_handed`), since a range is
handed out as a whole or not at all. The number that binding answers with is the smaller of the
total and the limit, so it is the number handed out if and only if no range reaches over the limit
(`Session.hands_of_run`).
-/

namespace ShaderComposer

/-! ### Plans -/

/-- The range begins below the limit and ends above it. -/
def UnitRange.Straddles (r : UnitRange) (limit : Nat) : Prop := r.start < limit ∧ limit < r.stop

namespace UnitPlan

/-- The plan without gaps for so many textures of each owner. -/
def ofCounts (core : Nat) (counts : List Nat) : UnitPlan := ⟨core, ranges core counts⟩

theorem ranges_append (start : Nat) (first second : List Nat) :
    ranges start (first ++ second) = ranges start first ++ ranges (start + first.sum) second := by
  induction first generalizing start with
  | nil => rfl
  | cons count rest ih =>
    simp only [List.cons_append, ranges, ih, List.sum_cons]
    rw [Nat.add_assoc]

theorem total_ofCounts (core : Nat) (counts : List Nat) :
    (ofCounts core counts).total = core + counts.sum := by
  rcases counts.eq_nil_or_concat with rfl | ⟨rest, count, rfl⟩
  · rfl
  · simp only [ofCounts, total, List.concat_eq_append, ranges_append, ranges,
      List.getLast?_append, List.getLast?_singleton, Option.some_or, List.sum_append,
      List.sum_singleton]
    omega

theorem assign_ok {core limit : Nat} {counts : List Nat} {p : UnitPlan}
    (ok : assign core counts limit = .ok p) : p = ofCounts core counts := by
  unfold assign at ok
  split at ok
  · cases ok
  · exact (Except.ok.inj ok).symm

theorem start_of_mem_ranges {start : Nat} {counts : List Nat} {r : UnitRange}
    (mem : r ∈ ranges start counts) : start ≤ r.start ∧ r.start ≤ r.stop ∧
      r.stop ≤ start + counts.sum := by
  induction counts generalizing start with
  | nil => cases mem
  | cons count rest ih =>
    rw [List.sum_cons]
    rcases List.mem_cons.mp mem with rfl | later
    · dsimp only
      omega
    · have next := ih later
      omega

/-- Where handing out ends that has come to `done`, when ranges are taken as a whole or not at all.
-/
def reach (limit : Nat) : Nat → List UnitRange → Nat
  | done, [] => done
  | done, r :: rest => reach limit (if r.stop ≤ limit then r.stop else done) rest

/-- How many units a backend with so many units is handed. -/
def handed (p : UnitPlan) (limit : Nat) : Nat := reach limit (min p.core limit) p.effects

variable {limit start done : Nat} {counts : List Nat}

theorem reach_past (past : limit < start) : reach limit done (ranges start counts) = done := by
  induction counts generalizing start with
  | nil => rfl
  | cons count rest ih =>
    have above : ¬ start + count ≤ limit := by omega
    rw [ranges, reach, if_neg above, ih (by omega)]

theorem reach_bounds (within : start ≤ limit) :
    start ≤ reach limit start (ranges start counts) ∧
      reach limit start (ranges start counts) ≤ limit := by
  induction counts generalizing start with
  | nil => exact ⟨Nat.le_refl _, within⟩
  | cons count rest ih =>
    rw [ranges, reach]
    by_cases fits : start + count ≤ limit
    · obtain ⟨low, high⟩ := ih fits
      rw [if_pos fits]
      exact ⟨Nat.le_trans (Nat.le_add_right _ _) low, high⟩
    · rw [if_neg fits, reach_past (by omega)]
      exact ⟨Nat.le_refl _, within⟩

theorem reach_of_straddles (within : start ≤ limit) {r : UnitRange}
    (mem : r ∈ ranges start counts) (straddles : r.Straddles limit) :
    reach limit start (ranges start counts) = r.start := by
  induction counts generalizing start with
  | nil => cases mem
  | cons count rest ih =>
    obtain ⟨below, above⟩ := straddles
    rw [ranges, reach]
    rcases List.mem_cons.mp mem with rfl | later
    · -- the first range is passed over, and all after it begin past the limit
      dsimp only at above ⊢
      rw [if_neg (by omega), reach_past (by omega)]
    · have starts := (start_of_mem_ranges later).1
      have fits : start + count ≤ limit := by omega
      rw [if_pos fits]
      exact ih fits later

theorem reach_of_none (within : start ≤ limit)
    (none : ∀ r ∈ ranges start counts, ¬ r.Straddles limit) :
    reach limit start (ranges start counts) = min (start + counts.sum) limit := by
  induction counts generalizing start with
  | nil => exact (Nat.min_eq_left within).symm
  | cons count rest ih =>
    rw [ranges, reach, List.sum_cons]
    by_cases fits : start + count ≤ limit
    · rw [if_pos fits, ih fits fun r mem => none r (List.mem_cons_of_mem _ mem), Nat.add_assoc]
    · -- the range ends above the limit, so it begins there
      have here := none ⟨start, start + count⟩ List.mem_cons_self
      unfold UnitRange.Straddles at here
      dsimp only at here
      rw [if_neg fits, reach_past (by omega)]
      omega

variable {core : Nat}

theorem handed_le (limit core : Nat) (counts : List Nat) :
    (ofCounts core counts).handed limit ≤ limit := by
  unfold handed ofCounts
  dsimp only
  rcases Nat.lt_or_ge limit core with past | within
  · refine Nat.le_of_eq ?_
    rw [Nat.min_eq_right (Nat.le_of_lt past), reach_past past]
  · rw [Nat.min_eq_left within]
    exact (reach_bounds within).2

theorem handed_of_straddles {r : UnitRange} (mem : r ∈ (ofCounts core counts).effects)
    (straddles : r.Straddles limit) : (ofCounts core counts).handed limit = r.start := by
  have starts := (start_of_mem_ranges mem).1
  have within : core ≤ limit := Nat.le_of_lt (Nat.lt_of_le_of_lt starts straddles.1)
  unfold handed ofCounts
  dsimp only
  rw [Nat.min_eq_left within]
  exact reach_of_straddles within mem straddles

theorem handed_of_none (none : ∀ r ∈ (ofCounts core counts).effects, ¬ r.Straddles limit) :
    (ofCounts core counts).handed limit = min (ofCounts core counts).total limit := by
  rw [total_ofCounts]
  unfold handed ofCounts
  dsimp only
  rcases Nat.lt_or_ge limit core with past | within
  · rw [Nat.min_eq_right (Nat.le_of_lt past), reach_past past]
    omega
  · rw [Nat.min_eq_left within]
    exact reach_of_none within none

theorem handed_eq_iff :
    min (ofCounts core counts).total limit = (ofCounts core counts).handed limit ↔
      ∀ r ∈ (ofCounts core counts).effects, ¬ r.Straddles limit := by
  constructor
  · intro same r mem straddles
    rw [handed_of_straddles mem straddles, total_ofCounts] at same
    have ends := (start_of_mem_ranges mem).2.2
    obtain ⟨below, above⟩ := straddles
    omega
  · exact fun none => (handed_of_none none).symm

end UnitPlan

/-! ### Layouts -/

namespace Material

def plan (m : Material) : UnitPlan :=
  .ofCounts m.textures.length (m.effects.map Effect.textureCount)

/-- Once composed, the units are those of the plan and the samplers those of the textures. -/
structure Laid (m : Material) : Prop where
  units : m.progress.reaches .bodyBuilt = true → m.units = m.plan
  samplers : m.progress.reaches .bodyBuilt = true → m.samplers = m.textures.map (·.name)

variable {limit : Nat} {m n : Material}

theorem plan_congr (same : n.configuration = m.configuration) : n.plan = m.plan := by
  injection same with _ _ _ _ textures effects
  simp only [plan, textureCounts_eq, textures, effects]

theorem units_of_composeParts {c : Composition} {units : UnitPlan}
    (parts : m.composeParts = .ok (c, units)) : units = m.plan := by
  unfold composeParts at parts
  split at parts
  · cases parts
  · next planned ok =>
    obtain rfl := UnitPlan.assign_ok ok
    split at parts
    · cases parts
    · split at parts
      · cases parts
      · cases parts
        rfl

namespace Laid

theorem of_early (early : ¬ m.progress.reaches .bodyBuilt = true) : m.Laid :=
  ⟨fun far => absurd far early, fun far => absurd far early⟩

theorem create (name : String) (settings : Settings) : (Material.create name settings).Laid := by
  have early : ¬ BuildState.created.reaches .bodyBuilt = true := by decide
  exact of_early early

theorem move (move : Move limit m n) (laid : m.Laid) : n.Laid := by
  cases move with
  | kept same =>
    have textures : n.textures = m.textures := congrArg Configuration.textures same.configuration
    refine ⟨fun far => ?_, fun far => ?_⟩ <;> rw [same.progress] at far
    · rw [same.units, plan_congr same.configuration, laid.units far]
    · rw [same.samplers, textures, laid.samplers far]
  | composed parts => exact ⟨fun _ => units_of_composeParts parts, fun _ => rfl⟩
  | uncomposed reached early =>
    have before : ¬ reached.reaches .bodyBuilt = true := by
      rcases early with rfl | rfl <;> decide
    exact of_early before
  | retired =>
    unfold retire
    split
    · exact ⟨laid.units, laid.samplers⟩
    · exact laid
  | linked handle generation far _ => exact ⟨fun _ => laid.units far, fun _ => laid.samplers far⟩
  | located t far =>
    have composed : m.progress.reaches .bodyBuilt = true :=
      BuildState.reaches_trans far (by decide)
    exact ⟨fun _ => laid.units composed, fun _ => laid.samplers composed⟩
  | lost =>
    have early : ¬ BuildState.declared.reaches .bodyBuilt = true := by decide
    exact of_early fun far => early (BuildState.reaches_of_earlier far)
  | released =>
    have early : ¬ BuildState.created.reaches .bodyBuilt = true := by decide
    exact of_early early

theorem reset (reset : m.Reset n) (laid : m.Laid) : n.Laid := by
  rcases reset.build with early | ⟨settings, rfl⟩
  · refine of_early ?_
    rw [early]
    decide
  · exact ⟨laid.units, laid.samplers⟩

theorem performOn {β : Type} [GraphicsBackend β] (laid : m.Laid) (b : β) (op : Operation) :
    (op.performOn m b).material.Laid := by
  rcases op.performOn_cases m b with reset | moves
  · exact laid.reset reset
  · exact moves.keeps Laid.move laid

end Laid

theorem layout_of_build {b : Backend} {handle : Nat} (ok : (m.build b).result = .ok handle) :
    (m.build b).material.units = m.plan ∧ (m.build b).material.effects = m.effects ∧
      (m.build b).material.textures = m.textures := by
  obtain ⟨n, c, d, builds⟩ := exists_buildsBy ok
  obtain ⟨o, units, ⟨_, rfl⟩, parts, rfl⟩ := builds.composed
  rw [builds.material]
  exact ⟨units_of_composeParts parts, rfl, rfl⟩

/-! ### Handing out -/

/-- The effects with their units, without gaps from a unit on. -/
def placed (start : Nat) (effects : List Effect) : List (UnitRange × Effect) :=
  (UnitPlan.ranges start (effects.map Effect.textureCount)).zip effects

def handsOut (limit : Nat) (p : UnitRange × Effect) : Bool :=
  !p.1.isEmpty && decide (p.1.stop ≤ limit)

theorem placed_eq (laid : m.units = m.plan) :
    placed m.textures.length m.effects =
      m.effects.zipIdx.map fun (e, i) => (m.units.effectRange i, e) := by
  have lengths := UnitPlan.length_ranges m.textures.length (m.effects.map Effect.textureCount)
  rw [List.length_map] at lengths
  rw [laid]
  refine List.ext_getElem ?_ fun i here there => ?_
  · simp [placed, lengths]
  · have inside : i < m.effects.length := by simpa using there
    simp [placed, plan, UnitPlan.ofCounts, UnitPlan.effectRange, lengths, inside]

theorem effectUnits_eq (laid : m.units = m.plan) (limit : Nat) :
    m.effectUnits limit = (placed m.textures.length m.effects).filter (handsOut limit) := by
  rw [placed_eq laid]
  rfl

/-- The units that the core shader and the effects are handed, in the order of the calls. -/
def handedUnits (m : Material) (limit : Nat) : List Nat :=
  (m.coreUnits limit).map Prod.fst ++ (m.effectUnits limit).flatMap fun (r, _) => r.toList

theorem coreUnits_eq (laid : m.units = m.plan) (limit : Nat) :
    (m.coreUnits limit).map Prod.fst = List.range (min m.textures.length limit) := by
  have core : m.units.core = m.textures.length := by
    rw [laid]
    rfl
  unfold coreUnits
  dsimp only
  rw [core, List.map_fst_zip]
  rw [List.length_range]
  exact Nat.min_le_left _ _

theorem filter_placed_past {start : Nat} (past : limit < start) (effects : List Effect) :
    (placed start effects).filter (handsOut limit) = [] := by
  refine List.filter_eq_nil_iff.mpr fun p mem => ?_
  have starts := UnitPlan.start_of_mem_ranges (List.of_mem_zip mem).1
  have above : ¬ p.1.stop ≤ limit := by omega
  simp [handsOut, above]

theorem units_placed {start : Nat} (within : start ≤ limit) (effects : List Effect) :
    (((placed start effects).filter (handsOut limit)).flatMap fun (r, _) => r.toList) =
      List.range' start (UnitPlan.reach limit start
        (UnitPlan.ranges start (effects.map Effect.textureCount)) - start) := by
  induction effects generalizing start with
  | nil => simp [placed, UnitPlan.ranges, UnitPlan.reach]
  | cons e rest ih =>
    have split : placed start (e :: rest) =
        (⟨start, start + e.textureCount⟩, e) :: placed (start + e.textureCount) rest := rfl
    rw [split, List.map_cons, UnitPlan.ranges, UnitPlan.reach]
    dsimp only
    by_cases fits : start + e.textureCount ≤ limit
    · -- the range is handed out, unless it is empty and adds no units
      have bounds : start + e.textureCount ≤ UnitPlan.reach limit (start + e.textureCount)
          (UnitPlan.ranges (start + e.textureCount) (rest.map Effect.textureCount)) :=
        (UnitPlan.reach_bounds fits).1
      have first :
          (((⟨⟨start, start + e.textureCount⟩, e⟩ ::
            placed (start + e.textureCount) rest).filter (handsOut limit)).flatMap
              fun (r, _) => r.toList) =
            List.range' start e.textureCount ++
              (((placed (start + e.textureCount) rest).filter (handsOut limit)).flatMap
                fun (r, _) => r.toList) := by
        by_cases empty : e.textureCount = 0
        · simp [handsOut, UnitRange.isEmpty, empty]
        · have nonempty : ¬ start + e.textureCount ≤ start := by omega
          have kept : handsOut limit (⟨start, start + e.textureCount⟩, e) = true := by
            simp [handsOut, UnitRange.isEmpty, nonempty, fits]
          rw [List.filter_cons_of_pos kept, List.flatMap_cons]
          simp [UnitRange.toList]
      rw [first, ih fits, if_pos fits, List.range'_append_1]
      congr 1
      omega
    · have dropped : handsOut limit (⟨start, start + e.textureCount⟩, e) = false := by
        simp [handsOut, fits]
      rw [List.filter_cons_of_neg (by simp [dropped]), filter_placed_past (by omega), if_neg fits,
        UnitPlan.reach_past (by omega)]
      simp

/-- The first units of the plan are handed out, in order. -/
theorem range_handed (laid : m.units = m.plan) (limit : Nat) :
    m.handedUnits limit = List.range (m.units.handed limit) := by
  unfold handedUnits
  rw [coreUnits_eq laid, effectUnits_eq laid, laid]
  unfold UnitPlan.handed plan UnitPlan.ofCounts
  dsimp only
  rcases Nat.lt_or_ge limit m.textures.length with past | within
  · rw [Nat.min_eq_right (Nat.le_of_lt past), filter_placed_past past, UnitPlan.reach_past past]
    simp
  · have bounds : m.textures.length ≤ UnitPlan.reach limit m.textures.length
        (UnitPlan.ranges m.textures.length (m.effects.map Effect.textureCount)) :=
      (UnitPlan.reach_bounds within).1
    have both := @List.range'_append_1 0 m.textures.length
      (UnitPlan.reach limit m.textures.length
        (UnitPlan.ranges m.textures.length (m.effects.map Effect.textureCount)) -
          m.textures.length)
    rw [Nat.zero_add, Nat.add_sub_cancel' bounds] at both
    rw [Nat.min_eq_left within, units_placed within, List.range_eq_range', List.range_eq_range',
      both]

end Material

/-! ### Calls -/

namespace GraphicsCall

def bound? : GraphicsCall → Option (Nat × TextureRef)
  | .bindTexture unit t => some (unit, t)
  | _ => none

/-- The call that takes back the binding of a texture. -/
def undone? (c : GraphicsCall) : Option GraphicsCall :=
  c.bound?.map fun (unit, t) => .unbindTexture unit t.target

end GraphicsCall

theorem bound_bindCalls (unit : Nat) (t : TextureRef) (sampler : Location) :
    (bindCalls unit t sampler).filterMap GraphicsCall.bound? = [(unit, t)] := by
  unfold bindCalls writeCalls
  cases sampler.isValid <;> rfl

theorem isPrefix_map_fst_zip {α γ : Type} (l : List α) (k : List γ) :
    (l.zip k).map Prod.fst <+: l := by
  induction l generalizing k with
  | nil => simp
  | cons a l ih =>
    cases k with
    | nil => simp
    | cons c k => exact List.cons_prefix_cons.mpr ⟨rfl, ih k⟩

namespace Material

variable {limit : Nat} {m n : Material}

def boundTextures (m : Material) (limit : Nat) : List (Nat × TextureRef) :=
  ((m.coreUnits limit).map fun (unit, t) => (unit, t.texture)) ++
    (m.effectUnits limit).flatMap fun (r, e) =>
      (effectBindings r e).map fun (unit, texture, _) => (unit, texture)

/-- Each texture that is handed a unit has a sampler. -/
theorem bound_coreBindings (samplers : m.samplers = m.textures.map (·.name)) (limit : Nat) :
    (((m.coreUnits limit).zip m.samplers).flatMap fun ((unit, t), sampler) =>
      (bindCalls unit t.texture (m.coreUniform .fragment sampler)).filterMap GraphicsCall.bound?) =
        (m.coreUnits limit).map fun (unit, t) => (unit, t.texture) := by
  have enough : (m.coreUnits limit).length ≤ m.samplers.length := by
    rw [samplers, List.length_map]
    unfold coreUnits
    dsimp only
    rw [List.length_zip]
    exact Nat.min_le_right _ _
  simp only [bound_bindCalls, ← List.map_eq_flatMap]
  conv_rhs => rw [← List.map_fst_zip enough, List.map_map]
  rfl

theorem bound_textureBindings (samplers : m.samplers = m.textures.map (·.name)) (limit : Nat) :
    (m.textureBindings limit).filterMap GraphicsCall.bound? = m.boundTextures limit := by
  unfold textureBindings boundTextures
  rw [List.filterMap_append, List.filterMap_flatMap, List.filterMap_flatMap,
    bound_coreBindings samplers]
  simp only [List.filterMap_flatMap, bound_bindCalls, ← List.map_eq_flatMap]

theorem textureReleases_eq (m : Material) (limit : Nat) :
    m.textureReleases limit =
      (m.boundTextures limit).map fun (unit, t) => .unbindTexture unit t.target := by
  unfold textureReleases boundTextures
  simp only [List.map_append, List.map_flatMap, List.map_map]
  rfl

/-- What unbinding does takes back what binding did, call by call. -/
theorem undone_textureBindings (samplers : m.samplers = m.textures.map (·.name)) (limit : Nat) :
    (m.textureBindings limit).filterMap GraphicsCall.undone? = m.textureReleases limit := by
  rw [textureReleases_eq, ← bound_textureBindings samplers, List.map_filterMap]
  rfl

theorem boundTextures_sublist (m : Material) (limit : Nat) :
    ((m.boundTextures limit).map Prod.fst).Sublist (m.handedUnits limit) := by
  unfold boundTextures handedUnits
  rw [List.map_append, List.map_map, List.map_flatMap]
  refine List.Sublist.append (.refl _) (List.Sublist.flatMap_right _ fun (r, e) _ => ?_)
  rw [List.map_map]
  exact (isPrefix_map_fst_zip r.toList e.textures).sublist

/-! ### What binding answers -/

/-- The answer to a call that binds textures, beside the units that it hands out. -/
structure Hands (m : Material) (limit count : Nat) : Prop where
  count_eq : count = min m.units.total limit
  handed : m.handedUnits limit = List.range (m.units.handed limit)
  /-- The calls bind textures to units that are handed out. -/
  bound : (((m.textureBindings limit).filterMap GraphicsCall.bound?).map Prod.fst).Sublist
    (m.handedUnits limit)
  /-- The answer is their number unless the range of an effect reaches over the limit. -/
  exact_iff : count = (m.handedUnits limit).length ↔ ∀ r ∈ m.units.effects, ¬ r.Straddles limit
  /-- Then the answer is the limit, and the units from the start of the range on are not used. -/
  straddled (r : UnitRange) : r ∈ m.units.effects → r.Straddles limit →
    count = limit ∧ (m.handedUnits limit).length = r.start

theorem hands_of_laid (laid : m.units = m.plan) (samplers : m.samplers = m.textures.map (·.name))
    (limit : Nat) : m.Hands limit (min m.units.total limit) := by
  have handed := range_handed laid limit
  have length : (m.handedUnits limit).length = m.units.handed limit := by
    rw [handed, List.length_range]
  constructor
  case count_eq => rfl
  case handed => exact handed
  case bound =>
    rw [bound_textureBindings samplers]
    exact m.boundTextures_sublist limit
  case exact_iff =>
    rw [length, laid]
    exact UnitPlan.handed_eq_iff
  case straddled =>
    intro r mem straddles
    rw [length]
    rw [laid] at mem ⊢
    have ends := (UnitPlan.start_of_mem_ranges mem).2.2
    refine ⟨?_, UnitPlan.handed_of_straddles mem straddles⟩
    rw [plan, UnitPlan.total_ofCounts]
    exact Nat.min_eq_right (Nat.le_trans (Nat.le_of_lt straddles.2) ends)

section

variable {β : Type} [GraphicsBackend β] {b : β} {count : Nat}

theorem withProgramOn_ok {α : Type} {required : BuildState} {act : Nat → Material → OutcomeOn β α}
    {a : α} (ok : (m.withProgramOn b required act).result = .ok a) :
    m.progress.reaches required = true ∧
      ∃ handle, m.withProgramOn b required act = act handle m := by
  rcases m.withProgramOn_cases b required act with ⟨p, _, _, _, far, given⟩ | ⟨failed, _⟩
  · exact ⟨far, p.handle, given⟩
  · exact absurd ⟨a, ok⟩ failed

theorem Laid.of_bound (laid : m.Laid) (far : m.progress.reaches .bound = true) :
    m.units = m.plan ∧ m.samplers = m.textures.map (·.name) := by
  have composed : m.progress.reaches .bodyBuilt = true :=
    BuildState.reaches_trans far (by decide)
  exact ⟨laid.units composed, laid.samplers composed⟩

theorem Laid.hands (laid : m.Laid) (ok : (m.bindTexturesOn b).result = .ok count) :
    m.Hands (GraphicsBackend.maxTextureUnits b) count ∧
      (m.bindTexturesOn b).backend =
        callAll b (m.textureBindings (GraphicsBackend.maxTextureUnits b)) := by
  obtain ⟨far, handle, given⟩ := withProgramOn_ok ok
  obtain ⟨units, samplers⟩ := laid.of_bound far
  unfold bindTexturesOn at ok ⊢
  rw [given] at ok ⊢
  rw [← Except.ok.inj ok]
  exact ⟨hands_of_laid units samplers _, rfl⟩

theorem bindTexturesOn_of_ready (ready : (m.activateOn b).result = .ok (.ready count)) :
    (m.bindTexturesOn (m.useProgramOn b).backend).result = .ok count := by
  unfold activateOn at ready
  dsimp only at ready
  split at ready
  · cases ready
  · obtain ⟨_, used, ready, _⟩ := OutcomeOn.of_result_andThen ready
    obtain ⟨units, bound, ready, _⟩ := OutcomeOn.of_result_andThen ready
    obtain ⟨_, _, ready, _⟩ := OutcomeOn.of_result_andThen ready
    obtain rfl : units = count := by
      cases ready
      rfl
    obtain ⟨_, handle, given⟩ := withProgramOn_ok used
    have same : (m.useProgramOn b).material = m := by
      unfold useProgramOn
      rw [given]
    rwa [same] at bound

end

end Material

/-! ### Runs -/

namespace Session

open Material

variable {β : Type} [GraphicsBackend β]

theorem laid_run {s : Session β} (laid : s.material.Laid) (turns : List (Turn β)) :
    (s.run turns).material.Laid := by
  induction turns using List.reverseRecOn with
  | nil => exact laid
  | append_singleton turns t ih =>
    rw [run_append]
    exact ih.performOn _ t.op

/-- In every run, whatever limit the settings have and whatever limit the backend has, the answer of
a call that binds textures is told by the plan of the material. -/
theorem hands_of_run (name : String) (settings : Settings) (b c : β) (turns : List (Turn β))
    (count : Nat) :
    ((((start name settings b).run turns).material.bindTexturesOn c).result = .ok count →
      ((start name settings b).run turns).material.Hands (GraphicsBackend.maxTextureUnits c) count ∧
      (((start name settings b).run turns).material.bindTexturesOn c).backend =
        callAll c (((start name settings b).run turns).material.textureBindings
          (GraphicsBackend.maxTextureUnits c))) ∧
    ((((start name settings b).run turns).material.activateOn c).result = .ok (.ready count) →
      ((start name settings b).run turns).material.Hands (GraphicsBackend.maxTextureUnits
        (((start name settings b).run turns).material.useProgramOn c).backend) count) := by
  have laid := laid_run (s := start name settings b) (Laid.create name settings) turns
  exact ⟨laid.hands, fun ready => (laid.hands (bindTexturesOn_of_ready ready)).1⟩

/-! ### A pair of textures -/

theorem step_build (s : Session Backend) :
    s.step { op := .build } =
      ⟨(s.material.build s.backend).material, (s.material.build s.backend).backend⟩ :=
  s.step_headless _

theorem bindTexturesOn_of_isLive {m : Material} {b : Backend} {p : LinkedProgram}
    (live : m.IsLive b p) (bound : m.progress = .bound) :
    (m.bindTexturesOn b).result = .ok (min m.units.total b.maxTextureUnits) := by
  have far : m.progress.reaches .bound = true := by
    rw [bound]
    rfl
  rw [bindTexturesOn_headless, Material.bindTextures, withProgram_of_isLive live far]
  rfl

theorem answers_of_build {s : Session Backend} {handle : Nat}
    (ok : (s.material.build s.backend).result = .ok handle) :
    (s.step { op := .build }).material.state = .bound ∧
      (s.step { op := .build }).material.units = s.material.plan ∧
      (s.step { op := .build }).material.plan = s.material.plan ∧
      (s.step { op := .build }).backend.maxTextureUnits = s.backend.maxTextureUnits ∧
      ((s.step { op := .build }).material.bindTexturesOn (s.step { op := .build }).backend).result =
        .ok (min s.material.plan.total s.backend.maxTextureUnits) := by
  obtain ⟨_, _, bound, _⟩ := build_leaves ok
  obtain ⟨p, _, live, progress⟩ := build_ready ok
  obtain ⟨units, effects, textures⟩ := layout_of_build ok
  have limit := maxTextureUnits_build s.material s.backend
  have answer := bindTexturesOn_of_isLive live progress
  rw [units, limit] at answer
  rw [step_build]
  exact ⟨bound, units, by unfold plan; rw [effects, textures], limit, answer⟩

def pair : Effect := .custom ⟨"pair", none, none, [(⟨.flat, 3⟩, "uC"), (⟨.flat, 4⟩, "uD")]⟩

def pairTurns : List (Turn Backend) := [{ op := .addEffect pair }, { op := .build }]

/-- A new material that may have two textures, once the pair is added. -/
def paired (b : Backend) : Session Backend :=
  ⟨{ create "mat" { maxTextureUnits := some 2 } with effects := [pair], version := 1 }, b⟩

theorem run_pairTurns (b : Backend) :
    (start "mat" { maxTextureUnits := some 2 } b).run pairTurns =
      (paired b).step { op := .build } := rfl

theorem build_paired (limit : Nat) :
    ((paired (.create limit false)).material.build (paired (.create limit false)).backend).result =
      .ok 1 :=
  build_of_bare rfl rfl rfl rfl (fun stage => by cases stage <;> rfl) rfl
    ⟨0, [⟨0, 2⟩]⟩ rfl (Nat.le_refl 2) rfl

theorem hands_of_run_pair :
    ∃ s : Session Backend,
      s = (start "mat" { maxTextureUnits := some 2 } (.create 8 false)).run pairTurns ∧
      (s.material.bindTexturesOn s.backend).result = .ok 2 ∧
      s.material.Hands (GraphicsBackend.maxTextureUnits s.backend) 2 := by
  obtain ⟨_, _, _, _, answer⟩ := answers_of_build (build_paired 8)
  have hands := hands_of_run "mat" { maxTextureUnits := some 2 } (.create 8 false)
    ((paired (.create 8 false)).step { op := .build }).backend pairTurns 2
  rw [run_pairTurns] at hands
  exact ⟨_, (run_pairTurns _).symm, answer, (hands.1 answer).1⟩

/-- On a backend with one unit the pair is bound to none, and the answer is one. -/
theorem counts_dropped_pair :
    ∃ s : Session Backend,
      s = (start "mat" { maxTextureUnits := some 2 } (.create 1 false)).run pairTurns ∧
      s.material.state = .bound ∧ (s.material.bindTexturesOn s.backend).result = .ok 1 ∧
      GraphicsBackend.maxTextureUnits s.backend = 1 ∧ s.material.handedUnits 1 = [] := by
  obtain ⟨bound, units, plan, limit, answer⟩ := answers_of_build (build_paired 1)
  refine ⟨_, (run_pairTurns _).symm, bound, answer, limit, ?_⟩
  rw [range_handed (units.trans plan.symm), units]
  rfl

end Session

end ShaderComposer
