import ShaderComposer.Proofs.Material.ReportedState
import ShaderComposer.Proofs.Material.UnitPlans

/-!
# Binding and unbinding

A material binds its textures to the units that composing assigned to them, in rising order and
below the limit of the backend, and unbinding takes back the same bindings in the same order. Where
the settings leave the limit to the backend, a program is only linked if the backend has all units,
so nothing is left out (`World.binds_as_planned`).
-/

namespace ShaderComposer

namespace Material

variable {limit : Nat} {m n : Material}

/-! ### Owners of units -/

/-- Composing assigned the unit to the texture: as the material's own or as one of an effect's. -/
inductive Assigns (m : Material) (unit : Nat) (t : TextureRef) : Prop
  | own (texture : MaterialTexture) (found : m.textures[unit]? = some texture)
      (same : texture.texture = t) (inside : unit ∈ m.units.coreRange.toList)
  | effect (j k : Nat) (e : Effect) (sampler : String) (attached : m.effects[j]? = some e)
      (found : e.textures[k]? = some (t, sampler))
      (place : unit = (m.units.effectRange j).start + k)
      (inside : unit ∈ (m.units.effectRange j).toList)

theorem mem_coreUnits {unit : Nat} {t : MaterialTexture} :
    (unit, t) ∈ m.coreUnits limit ↔
      unit < min m.units.core limit ∧ m.textures[unit]? = some t := by
  have counts (i : Nat) : (List.range (min m.units.core limit))[i]? = some unit ↔
      i < min m.units.core limit ∧ i = unit := by
    simp [List.getElem?_eq_some_iff]
  unfold coreUnits
  simp only [List.mem_iff_getElem?, List.getElem?_zip_eq_some, counts]
  constructor
  · rintro ⟨_, ⟨below, rfl⟩, found⟩
    exact ⟨below, found⟩
  · rintro ⟨below, found⟩
    exact ⟨unit, ⟨below, rfl⟩, found⟩

theorem mem_effectUnits {r : UnitRange} {e : Effect} :
    (r, e) ∈ m.effectUnits limit ↔ ∃ j, m.effects[j]? = some e ∧ m.units.effectRange j = r ∧
      r.isEmpty = false ∧ r.stop ≤ limit := by
  unfold effectUnits
  simp only [List.mem_filter, List.mem_map, Prod.mk.injEq, Bool.and_eq_true, decide_eq_true_eq,
    Bool.not_eq_true']
  constructor
  · rintro ⟨⟨⟨d, j⟩, mem, rfl, rfl⟩, nonempty, fits⟩
    exact ⟨j, List.mem_zipIdx_iff_getElem?.mp mem, rfl, nonempty, fits⟩
  · rintro ⟨j, attached, rfl, nonempty, fits⟩
    exact ⟨⟨(e, j), List.mem_zipIdx_iff_getElem?.mpr attached, rfl, rfl⟩, nonempty, fits⟩

theorem mem_effectBindings {r : UnitRange} {e : Effect} {unit : Nat} {t : TextureRef}
    {sampler : String} :
    (unit, t, sampler) ∈ effectBindings r e ↔
      ∃ k, e.textures[k]? = some (t, sampler) ∧ unit = r.start + k ∧ unit ∈ r.toList := by
  have counts (k : Nat) : r.toList[k]? = some unit ↔ unit = r.start + k ∧ unit ∈ r.toList := by
    rw [UnitRange.mem_toList, UnitRange.toList]
    simp only [List.getElem?_eq_some_iff, List.length_range', List.getElem_range', Nat.one_mul]
    constructor
    · rintro ⟨inside, rfl⟩
      omega
    · rintro ⟨rfl, bounds⟩
      exact ⟨by omega, rfl⟩
  unfold effectBindings
  rw [List.mem_iff_getElem?]
  simp only [List.getElem?_zip_eq_some, counts]
  constructor
  · rintro ⟨k, inside, found⟩
    exact ⟨k, found, inside⟩
  · rintro ⟨k, found, inside⟩
    exact ⟨k, inside, found⟩

theorem mem_boundTextures {unit : Nat} {t : TextureRef} :
    (unit, t) ∈ m.boundTextures limit ↔
      (∃ own, (unit, own) ∈ m.coreUnits limit ∧ own.texture = t) ∨
        ∃ r e sampler, (r, e) ∈ m.effectUnits limit ∧ (unit, t, sampler) ∈ effectBindings r e := by
  unfold boundTextures
  rw [List.mem_append]
  refine or_congr ?_ ?_
  · simp [List.mem_map]
  · simp only [List.mem_flatMap, List.mem_map, Prod.exists, Prod.mk.injEq]
    constructor
    · rintro ⟨r, e, handed, _, _, sampler, mem, rfl, rfl⟩
      exact ⟨r, e, sampler, handed, mem⟩
    · rintro ⟨r, e, sampler, handed, mem⟩
      exact ⟨r, e, handed, unit, t, sampler, mem, rfl, rfl⟩

theorem assigns_of_bound {unit : Nat} {t : TextureRef} (mem : (unit, t) ∈ m.boundTextures limit) :
    m.Assigns unit t := by
  rcases mem_boundTextures.mp mem with ⟨own, mem, same⟩ | ⟨r, e, sampler, handed, mem⟩
  · obtain ⟨below, found⟩ := mem_coreUnits.mp mem
    have inside : unit < m.units.core := Nat.lt_of_lt_of_le below (Nat.min_le_left _ _)
    exact .own own found same (UnitRange.mem_toList.mpr ⟨Nat.zero_le _, inside⟩)
  · obtain ⟨j, attached, rfl, _⟩ := mem_effectUnits.mp handed
    obtain ⟨k, found, place, inside⟩ := mem_effectBindings.mp mem
    exact .effect j k e sampler attached found place inside

/-! ### One call -/

/-- The calls bind textures to units that are theirs, each unit once and in rising order. -/
structure BindsAsPlanned (m : Material) (limit : Nat) (calls : List GraphicsCall) : Prop where
  increasing : ((calls.filterMap GraphicsCall.bound?).map Prod.fst).Pairwise (· < ·)
  below : ∀ unit ∈ (calls.filterMap GraphicsCall.bound?).map Prod.fst, unit < limit
  assigned (unit : Nat) (t : TextureRef) : .bindTexture unit t ∈ calls → m.Assigns unit t

/-- Nothing is left out: all units are handed out, and all textures are bound. -/
structure BindsAll (m : Material) (limit : Nat) (calls : List GraphicsCall) : Prop where
  handed : m.handedUnits limit = List.range m.units.total
  ranges (j : Nat) (e : Effect) : m.effects[j]? = some e → (m.units.effectRange j).isEmpty = false →
    (m.units.effectRange j, e) ∈ m.effectUnits limit
  own (i : Nat) (t : MaterialTexture) : m.textures[i]? = some t → .bindTexture i t.texture ∈ calls
  effects (j k : Nat) (e : Effect) (t : TextureRef) (sampler : String) : m.effects[j]? = some e →
    e.textures[k]? = some (t, sampler) →
      .bindTexture ((m.units.effectRange j).start + k) t ∈ calls

theorem mem_of_bound {unit : Nat} {t : TextureRef} {calls : List GraphicsCall} :
    (unit, t) ∈ calls.filterMap GraphicsCall.bound? ↔ .bindTexture unit t ∈ calls := by
  rw [List.mem_filterMap]
  constructor
  · rintro ⟨call, mem, bound⟩
    cases call <;> simp only [GraphicsCall.bound?, reduceCtorEq, Option.some.injEq,
      Prod.mk.injEq] at bound
    obtain ⟨rfl, rfl⟩ := bound
    exact mem
  · exact fun mem => ⟨_, mem, rfl⟩

theorem bindsAsPlanned_nil (m : Material) (limit : Nat) : m.BindsAsPlanned limit [] :=
  ⟨List.Pairwise.nil, fun _ mem => (by cases mem), fun _ _ mem => (by cases mem)⟩

theorem effectRange_eq (laid : m.units = m.plan) {j : Nat} {e : Effect}
    (attached : m.effects[j]? = some e) :
    ∃ first, m.units.effectRange j = ⟨first, first + e.textureCount⟩ ∧
      first + e.textureCount ≤ m.units.total := by
  have count : (m.effects.map Effect.textureCount)[j]? = some e.textureCount := by
    rw [List.getElem?_map, attached, Option.map_some]
  have found := UnitPlan.getElem?_ranges m.textures.length (m.effects.map Effect.textureCount) j
  rw [count, Option.map_some] at found
  have ends := (UnitPlan.start_of_mem_ranges (List.mem_of_getElem? found)).2.2
  rw [laid]
  refine ⟨_, UnitPlan.effectRange_ofCounts count, ?_⟩
  rw [plan, UnitPlan.total_ofCounts]
  exact ends

section

variable (laid : m.units = m.plan) (samplers : m.samplers = m.textures.map (·.name))

include laid samplers

theorem bindsAsPlanned (limit : Nat) : m.BindsAsPlanned limit (m.textureBindings limit) := by
  have bound := bound_textureBindings samplers limit
  have first := m.boundTextures_sublist limit
  rw [range_handed laid, ← bound] at first
  constructor
  case increasing => exact List.Pairwise.sublist first List.pairwise_lt_range
  case below =>
    intro unit mem
    have handed := List.mem_range.mp (first.subset mem)
    rw [laid] at handed
    exact Nat.lt_of_lt_of_le handed (UnitPlan.handed_le limit _ _)
  case assigned =>
    intro unit t mem
    have bound := mem_of_bound.mpr mem
    rw [bound_textureBindings samplers] at bound
    exact assigns_of_bound bound

theorem bindsAll (enough : m.units.total ≤ limit) : m.BindsAll limit (m.textureBindings limit) := by
  have core : m.units.core = m.textures.length := by
    rw [laid]
    rfl
  have total : m.units.total = m.textures.length + (m.effects.map Effect.textureCount).sum := by
    rw [laid, plan, UnitPlan.total_ofCounts]
  have whole {j : Nat} {e : Effect} (attached : m.effects[j]? = some e)
      (nonempty : (m.units.effectRange j).isEmpty = false) :
      (m.units.effectRange j, e) ∈ m.effectUnits limit := by
    obtain ⟨first, range, ends⟩ := effectRange_eq laid attached
    refine mem_effectUnits.mpr ⟨j, attached, rfl, nonempty, ?_⟩
    rw [range]
    exact Nat.le_trans ends enough
  have binds {unit : Nat} {t : TextureRef} (mem : (unit, t) ∈ m.boundTextures limit) :
      .bindTexture unit t ∈ m.textureBindings limit := by
    rwa [← bound_textureBindings samplers, mem_of_bound] at mem
  constructor
  case handed =>
    -- with enough units no range is cut off by the limit
    have none : ∀ r ∈ m.units.effects, ¬ r.Straddles limit := by
      intro r mem straddles
      rw [laid] at mem
      have ends := (UnitPlan.start_of_mem_ranges mem).2.2
      have above := straddles.2
      omega
    rw [laid] at none
    rw [range_handed laid]
    conv_lhs => rw [laid, plan, UnitPlan.handed_of_none none, ← plan, ← laid]
    rw [Nat.min_eq_left enough]
  case ranges => exact fun j e => whole
  case own =>
    intro i t found
    have inside := (List.getElem?_eq_some_iff.mp found).1
    refine binds (mem_boundTextures.mpr (.inl ⟨t, mem_coreUnits.mpr ⟨?_, found⟩, rfl⟩))
    omega
  case effects =>
    intro j k e t sampler attached found
    obtain ⟨first, range, _⟩ := effectRange_eq laid attached
    have inside := (List.getElem?_eq_some_iff.mp found).1
    have room := Nat.lt_of_lt_of_le inside e.length_textures_le
    have nonempty : (m.units.effectRange j).isEmpty = false := by
      rw [range, UnitRange.isEmpty, decide_eq_false_iff_not]
      dsimp only
      omega
    have place : (m.units.effectRange j).start + k ∈ (m.units.effectRange j).toList := by
      rw [UnitRange.mem_toList, range]
      dsimp only
      omega
    exact binds (mem_boundTextures.mpr (.inr ⟨_, e, sampler, whole attached nonempty,
      mem_effectBindings.mpr ⟨k, found, rfl, place⟩⟩))

end

/-! ### Limits -/

/-- A live program of the present version was linked within the limit. -/
structure Affords (limit : Nat) (m : Material) : Prop where
  older (p : LinkedProgram) : m.program = .live p → p.version ≤ m.version
  within (p : LinkedProgram) : m.program = .live p → p.version = m.version →
    m.plan.total ≤ m.settings.maxTextureUnits.getD limit

namespace Affords

theorem of_not_live (dead : ∀ p, m.program ≠ .live p) : m.Affords limit :=
  ⟨fun p live => absurd live (dead p), fun p live => absurd live (dead p)⟩

theorem create (name : String) (settings : Settings) :
    (Material.create name settings).Affords limit :=
  of_not_live fun _ live => by cases live

theorem move (move : Move limit m n) (laid : m.Laid) (affords : m.Affords limit) :
    n.Affords limit := by
  cases move with
  | kept same =>
    have units : n.settings.maxTextureUnits = m.settings.maxTextureUnits :=
      congrArg Configuration.maxTextureUnits same.configuration
    constructor
    · intro p live
      rw [same.version]
      exact affords.older p (same.program ▸ live)
    · intro p live version
      rw [plan_congr same.configuration, units]
      exact affords.within p (same.program ▸ live) (version.trans same.version)
  | composed _ | uncomposed _ _ | located _ _ => exact ⟨affords.older, affords.within⟩
  | retired =>
    unfold retire
    split
    · exact of_not_live fun _ live => by cases live
    · exact affords
  | linked handle generation far within =>
    refine ⟨fun p live => ?_, fun p live version => ?_⟩
    · cases live
      exact UInt64.le_refl _
    · rw [laid.units far] at within
      exact within
  | lost =>
    refine of_not_live fun p live => ?_
    unfold contextLost at live
    dsimp only at live
    split at live <;> cases live
  | released => exact of_not_live fun _ live => by cases live

theorem reset (reset : m.Reset n) (grows : m.version < n.version) (affords : m.Affords limit) :
    n.Affords limit := by
  -- the live program is then one of an earlier version
  have earlier (p : LinkedProgram) (live : n.program = .live p) : p.version < n.version :=
    UInt64.lt_of_le_of_lt (affords.older p (reset.program ▸ live)) grows
  exact ⟨fun p live => UInt64.le_of_lt (earlier p live),
    fun p live version => absurd version (UInt64.ne_of_lt (earlier p live))⟩

theorem perform {b : Backend} {op : Operation} (laid : m.Laid)
    (affords : m.Affords b.maxTextureUnits)
    (grows : m.version ≤ (op.perform m b).material.version) :
    (op.perform m b).material.Affords b.maxTextureUnits := by
  have same : (op.performOn m b).material = (op.perform m b).material := by
    rw [Operation.performOn_headless]
    rfl
  have cases := op.performOn_cases m b
  rw [same] at cases
  rcases cases with reset | moves
  · refine affords.reset reset (UInt64.lt_of_le_of_ne grows fun same => ?_)
    exact add_one_ne m.version (reset.version.symm.trans same.symm)
  · -- the limit is told by what is laid out, so both go along together
    have both := moves.keeps (P := fun m => m.Laid ∧ m.Affords b.maxTextureUnits)
      (fun step holds => ⟨holds.1.move step, holds.2.move step holds.1⟩) ⟨laid, affords⟩
    exact both.2

end Affords

/-! ### Calls -/

section

variable {b : Backend} {p : LinkedProgram}

theorem bindTextures_of_isLive (live : m.IsLive b p) (far : m.progress.reaches .bound = true) :
    m.bindTextures b = ⟨.ok (min m.units.total b.maxTextureUnits), m,
      b.recordAll (m.textureBindings b.maxTextureUnits), m.overflowRecords b.maxTextureUnits⟩ := by
  rw [bindTextures, withProgram_of_isLive live far]

theorem unbindTextures_of_isLive (live : m.IsLive b p) (far : m.progress.reaches .bound = true)
    (calls : List GraphicsCall) : m.unbindTextures (b.recordAll calls) =
      ⟨.ok (), m, (b.recordAll calls).recordAll (m.textureReleases b.maxTextureUnits), []⟩ := by
  -- recorded calls leave the program in use
  have still : m.IsLive (b.recordAll calls) p := ⟨live.live, live.generation, live.version⟩
  rw [unbindTextures, withProgram_of_isLive still far]
  rfl

theorem bindTextures_of_not_isLive (dead : ∀ p, ¬ m.IsLive b p) :
    (∃ e, (m.bindTextures b).result = .error e) ∧ (m.bindTextures b).backend = b ∧
      ∀ p, ¬ (m.bindTextures b).material.IsLive b p := by
  obtain ⟨refused, kept, live⟩ := withProgram_refused .bound (fun _ m =>
    ⟨.ok (min m.units.total b.maxTextureUnits), m,
      b.recordAll (m.textureBindings b.maxTextureUnits), m.overflowRecords b.maxTextureUnits⟩)
    fun p live => absurd live (dead p)
  exact ⟨refused, kept, fun p still => dead p (live p still)⟩

theorem unbindTextures_of_not_isLive (dead : ∀ p, ¬ m.IsLive b p) :
    (∃ e, (m.unbindTextures b).result = .error e) ∧ (m.unbindTextures b).backend = b := by
  obtain ⟨refused, kept, _⟩ := withProgram_refused .bound (fun _ m =>
    ⟨.ok (), m, b.recordAll (m.textureReleases b.maxTextureUnits), []⟩)
    fun p live => absurd live (dead p)
  exact ⟨refused, kept⟩

end

end Material

/-! ### Runs -/

namespace World

open Material

variable {w : World} {i : Nat} {m n : Material}

/-- A material after a step is as it was, or the step was one of its operations. -/
theorem material_of_step {s : Step} (present : (w.step s).materials[i]? = some n) :
    ∃ m, w.materials[i]? = some m ∧
      (n = m ∨ ∃ op, s = .material i op ∧ n = (op.perform m w.backend).material) := by
  cases s with
  | loseContext => exact ⟨n, present, .inl rfl⟩
  | failNextCompile stage log => exact ⟨n, present, .inl rfl⟩
  | material j op =>
    cases before : w.materials[j]? with
    | none =>
      rw [step, before] at present
      exact ⟨n, present, .inl rfl⟩
    | some m =>
      rw [step_material before, getElem?_put before] at present
      split at present
      · next same =>
        subst same
        exact ⟨m, before, .inr ⟨op, rfl, (Option.some.inj present).symm⟩⟩
      · exact ⟨n, present, .inl rfl⟩

theorem maxTextureUnits_step (w : World) (s : Step) :
    (w.step s).backend.maxTextureUnits = w.backend.maxTextureUnits := by
  cases s with
  | loseContext => rfl
  | failNextCompile stage log => rfl
  | material j op =>
    cases present : w.materials[j]? with
    | none => rw [step, present]
    | some m =>
      rw [step_material present]
      rcases Operation.perform_cases (op.permitted_any m w.backend) with ⟨_, kept, _⟩ | changes
      · exact congrArg Backend.maxTextureUnits kept
      · exact changes.maxTextureUnits

theorem maxTextureUnits_run (w : World) (steps : List Step) :
    (w.run steps).backend.maxTextureUnits = w.backend.maxTextureUnits := by
  induction steps generalizing w with
  | nil => rfl
  | cons s rest ih => exact (ih (w.step s)).trans (w.maxTextureUnits_step s)

theorem laid_step {s : Step} (laid : ∀ m, w.materials[i]? = some m → m.Laid)
    (present : (w.step s).materials[i]? = some n) : n.Laid := by
  obtain ⟨m, before, rfl | ⟨op, rfl, rfl⟩⟩ := material_of_step present
  · exact laid n before
  · have after := (laid m before).performOn w.backend op
    rwa [Operation.performOn_headless] at after

theorem laid_run {steps : List Step} (laid : ∀ m, w.materials[i]? = some m → m.Laid)
    (present : (w.run steps).materials[i]? = some m) : m.Laid := by
  induction steps generalizing w with
  | nil => exact laid m present
  | cons s rest ih => exact ih (fun n => laid_step laid) present

/-- As long as its version does not wrap, a material affords what it has linked. -/
theorem affords_run {steps : List Step} (laid : ∀ m, w.materials[i]? = some m → m.Laid)
    (affords : ∀ m, w.materials[i]? = some m → m.Affords w.backend.maxTextureUnits)
    (grows : w.Along (GrowsAt i) steps) (present : (w.run steps).materials[i]? = some m) :
    m.Affords w.backend.maxTextureUnits := by
  induction steps generalizing w with
  | nil => exact affords m present
  | cons s rest ih =>
    obtain ⟨first, later⟩ := grows
    have limit := w.maxTextureUnits_step s
    rw [← limit]
    refine ih (fun n => laid_step laid) (fun n after => ?_) later present
    rw [limit]
    obtain ⟨m, before, rfl | ⟨op, rfl, rfl⟩⟩ := material_of_step after
    · exact affords n before
    · exact (affords m before).perform (laid m before) (first rfl m before)

section Fresh

variable {materials : List (String × Settings)} {limit : Nat} {steps : List Step}

theorem laid_fresh (present : (fresh materials limit).materials[i]? = some m) : m.Laid := by
  obtain ⟨name, settings, rfl⟩ := exists_of_fresh present
  exact Laid.create name settings

theorem laid_of_fresh (present : ((fresh materials limit).run steps).materials[i]? = some m) :
    m.Laid := laid_run (fun _ => laid_fresh) present

theorem affords_of_fresh (few : (fresh materials limit).mutations i steps < UInt64.size)
    (present : ((fresh materials limit).run steps).materials[i]? = some m) : m.Affords limit := by
  refine affords_run (w := fresh materials limit) (fun _ => laid_fresh) (fun m here => ?_)
    (along_growsAt fun v version => ?_) present
  · obtain ⟨name, settings, rfl⟩ := exists_of_fresh here
    exact Affords.create name settings
  · obtain ⟨n, here, rfl⟩ := Option.map_eq_some_iff.mp version
    obtain ⟨name, settings, rfl⟩ := exists_of_fresh here
    rwa [show (Material.create name settings).version = 0 from rfl, UInt64.toNat_zero,
      Nat.zero_add]

end Fresh

/-- In every run, a material in its bound state binds textures to the units that they were assigned,
and unbinding right afterwards takes back each binding. If the program is not in use both refuse
and call nothing. If the settings leave the limit to the backend nothing is left out. -/
theorem binds_as_planned (materials : List (String × Settings)) (limit : Nat) (steps : List Step)
    {w : World} (reached : (fresh materials limit).run steps = w)
    (present : w.materials[i]? = some m) (bound : m.state = .bound)
    {binding : Outcome Nat} (binds : m.bindTextures w.backend = binding)
    {unbinding : Outcome Unit}
    (unbinds : binding.material.unbindTextures binding.backend = unbinding) :
    w.backend.maxTextureUnits = limit ∧ m.units = m.plan ∧
    ∃ calls, binding.backend = w.backend.recordAll calls ∧ m.BindsAsPlanned limit calls ∧
      unbinding.backend = binding.backend.recordAll (calls.filterMap GraphicsCall.undone?) ∧
      ((∃ count, binding.result = .ok count) ↔ ∃ p, m.IsLive w.backend p) ∧
      ∀ count, binding.result = .ok count → unbinding.result = .ok () ∧
        (m.settings.maxTextureUnits = none →
          (fresh materials limit).mutations i steps < UInt64.size →
            count = m.units.total ∧ m.BindsAll limit calls) := by
  subst reached binds unbinds
  have backend : ((fresh materials limit).run steps).backend.maxTextureUnits = limit :=
    maxTextureUnits_run _ steps
  have progress := ((state_eq_bound_iff m).mp bound).2
  have far : m.progress.reaches .bound = true := by
    rw [progress]
    rfl
  obtain ⟨units, samplers⟩ := (laid_of_fresh present).of_bound far
  refine ⟨backend, units, ?_⟩
  -- without a live program both calls are refused and no call is recorded
  by_cases used : ∃ p, m.IsLive ((fresh materials limit).run steps).backend p
  · obtain ⟨p, live⟩ := used
    have affords (few : (fresh materials limit).mutations i steps < UInt64.size) :
        m.Affords limit := affords_of_fresh few present
    generalize ((fresh materials limit).run steps).backend = b at backend live
    rw [bindTextures_of_isLive live far, unbindTextures_of_isLive live far, backend]
    refine ⟨_, rfl, bindsAsPlanned units samplers limit, ?_,
      ⟨fun _ => ⟨p, live⟩, fun _ => ⟨_, rfl⟩⟩, fun count ok => ⟨rfl, fun unset few => ?_⟩⟩
    · rw [undone_textureBindings samplers]
    · have enough := (affords few).within p live.live live.version
      rw [unset, Option.getD_none, ← units] at enough
      obtain rfl := Except.ok.inj ok
      exact ⟨Nat.min_eq_left enough, bindsAll units samplers enough⟩
  · have dead (p : LinkedProgram) : ¬ m.IsLive ((fresh materials limit).run steps).backend p :=
      fun live => used ⟨p, live⟩
    generalize ((fresh materials limit).run steps).backend = b at dead used
    obtain ⟨⟨e, refused⟩, kept, still⟩ := bindTextures_of_not_isLive dead
    obtain ⟨_, unchanged⟩ := unbindTextures_of_not_isLive still
    rw [kept, unchanged, refused]
    have nothing := (Backend.recordAll_nil b).symm
    refine ⟨[], nothing, bindsAsPlanned_nil m limit, nothing, ?_, fun count ok => by cases ok⟩
    exact ⟨fun ok => absurd ok (by simp), fun live => absurd live used⟩

/-- A new material with a pair of textures, and a backend with so many units. -/
def paired (limit : Nat) : World :=
  ⟨[{ create "mat" {} with effects := [Session.pair], version := 1 }], .create limit false⟩

def pairSteps : List Step := [.material 0 (.addEffect Session.pair), .material 0 .build]

theorem run_pairSteps (limit : Nat) :
    (fresh [("mat", {})] limit).run pairSteps = (paired limit).step (.material 0 .build) := rfl

theorem built_paired : ∃ m, (paired 8).materials[0]? = some m ∧
    m.settings.maxTextureUnits = none ∧ (m.build (paired 8).backend).result = .ok 1 := by
  refine ⟨_, rfl, rfl, build_of_bare rfl rfl rfl rfl (fun stage => by cases stage <;> rfl) rfl
    ⟨0, [⟨0, 2⟩]⟩ rfl ?_ rfl⟩
  exact (by decide : 2 ≤ 8)

theorem bound_of_build {handle : Nat} (present : w.materials[i]? = some m)
    (ok : (m.build w.backend).result = .ok handle) :
    ∃ n count, (w.step (.material i .build)).materials[i]? = some n ∧ n.state = .bound ∧
      n.settings.maxTextureUnits = m.settings.maxTextureUnits ∧
      (n.bindTextures (w.step (.material i .build)).backend).result = .ok count := by
  obtain ⟨_, _, bound, _⟩ := build_leaves ok
  obtain ⟨p, _, live, progress⟩ := build_ready ok
  have far : (m.build w.backend).material.progress.reaches .bound = true := by
    rw [progress]
    rfl
  have changes := m.build_changes (π := .any) w.backend fun _ => trivial
  have answer := congrArg Outcome.result (bindTextures_of_isLive live far)
  rw [step_material present]
  exact ⟨_, _, getElem?_put_self present, bound,
    congrArg Configuration.maxTextureUnits changes.configuration, answer⟩

theorem binds_as_planned_pair :
    ∃ w m count calls, w = (fresh [("mat", {})] 8).run pairSteps ∧ w.materials[0]? = some m ∧
      m.state = .bound ∧ (m.bindTextures w.backend).result = .ok count ∧ count = m.units.total ∧
      (m.bindTextures w.backend).backend = w.backend.recordAll calls ∧ m.BindsAll 8 calls := by
  obtain ⟨n, found, unset, ok⟩ := built_paired
  obtain ⟨m, count, present, bound, same, answer⟩ := bound_of_build found ok
  rw [← run_pairSteps] at present answer
  have few : (fresh [("mat", {})] 8).mutations 0 pairSteps < UInt64.size :=
    Nat.lt_of_le_of_lt (mutations_le_length 0 _ _) (by decide)
  obtain ⟨_, _, calls, recorded, _, _, _, answers⟩ :=
    binds_as_planned [("mat", {})] 8 pairSteps rfl present bound rfl rfl
  obtain ⟨total, all⟩ := (answers count answer).2 (same.trans unset) few
  exact ⟨_, m, count, calls, rfl, present, bound, answer, total, recorded, all⟩

end World

end ShaderComposer
