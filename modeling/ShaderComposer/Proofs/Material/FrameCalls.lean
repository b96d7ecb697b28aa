import ShaderComposer.Proofs.Material.Freshness
import ShaderComposer.Proofs.Material.NewMaterial

/-!
# Calls of a frame

A call of a frame that succeeds records calls for locations of its program only
(`FrameCall.perform_ok`), and the program is fresh (`World.fresh_of_frame_ok`).
-/

namespace ShaderComposer

/-! ### Names that effects write to -/

namespace Effect

variable {e : Effect} {f : Fragment} {stage : Stage}

/-- Only skeletons and custom effects ask for attributes. -/
theorem attributes_cases (made : e.fragment? stage = some f) :
    f.attributes = [] ∨ (∃ s, e = .skeletal s ∧ stage = .vertex ∧ f = s.fragment) ∨
      ∃ c, e = .custom c := by
  cases e with
  | custom c => exact Or.inr (Or.inr ⟨c, rfl⟩)
  | skeletal s =>
    cases stage with
    | vertex => exact Or.inr (Or.inl ⟨s, rfl, rfl, (Option.some.inj made).symm⟩)
    | fragment => cases made
  | _ =>
    left
    cases stage <;> cases made <;> rfl

theorem uBoneMatrix_notMem_attributes (s : Skeletal) : "uBoneMatrix" ∉ s.attributes := by
  have apart (name : String) (head : name.toList.head? = some 'a') : "uBoneMatrix" ≠ name := by
    rintro rfl
    exact absurd head (by decide)
  intro mem
  obtain ⟨set, _, named⟩ := List.mem_flatMap.mp mem
  rcases List.mem_pair.mp named with named | named
  · exact apart _ (by simp [Skeletal.indexName]) named
  · exact apart _ (by simp [Skeletal.weightName]) named

theorem custom_of_write_mem {name : String} {value : UniformValue} {now : Single}
    (made : e.fragment? stage = some f) (written : (name, value) ∈ e.writes stage now)
    (isAttribute : name ∈ f.attributes) : ∃ c, e = .custom c := by
  rcases attributes_cases made with none | ⟨s, rfl, rfl, rfl⟩ | custom
  · rw [none] at isAttribute
    exact absurd isAttribute List.not_mem_nil
  · have bones : name = "uBoneMatrix" := by
      simp only [writes, Skeletal.writes] at written
      split at written
      · exact absurd written List.not_mem_nil
      · exact congrArg Prod.fst (List.mem_singleton.mp written)
    exact absurd (bones ▸ isAttribute) (uBoneMatrix_notMem_attributes s)
  · exact custom

theorem custom_of_sampler_mem {name : String} (made : e.fragment? .fragment = some f)
    (isAttribute : name ∈ f.attributes) : ∃ c, e = .custom c := by
  rcases attributes_cases made with none | ⟨s, _, stage, _⟩ | custom
  · rw [none] at isAttribute
    exact absurd isAttribute List.not_mem_nil
  · cases stage
  · exact custom

/-- Buffers are for attributes that the effect asked for. -/
theorem stream_mem {v : MeshBuffers} {name : String} {buffer : Option VertexBuffer}
    (made : e.fragment? .vertex = some f) (streamed : (name, buffer) ∈ e.streams v) :
    name ∈ f.attributes := by
  cases e with
  | skeletal s =>
    obtain rfl := Option.some.inj made
    obtain ⟨set, inside, named⟩ := List.mem_flatMap.mp streamed
    refine List.mem_flatMap.mpr ⟨set, inside, ?_⟩
    rcases List.mem_pair.mp named with named | named
    · exact List.mem_pair.mpr (Or.inl (congrArg Prod.fst named))
    · exact List.mem_pair.mpr (Or.inr (congrArg Prod.fst named))
  | _ => exact absurd streamed List.not_mem_nil

end Effect

/-! ### Calls and locations -/

/-- A custom effect asks for the name as an attribute. -/
def Material.ScriptsAttribute (m : Material) (name : String) : Prop :=
  ∃ c stage f, .custom c ∈ m.effects ∧ (Effect.custom c).fragment? stage = some f ∧
    name ∈ f.attributes

/-- The call is one on the program: what it writes or binds goes to a location that the backend has
for a name in it. A custom effect may write to what it asked for as an attribute. -/
def GraphicsCall.IsOn (m : Material) (b : Backend) (program : Nat) : GraphicsCall → Prop
  | .useProgram h => h = program
  | .setUniform l _ => l.isValid = true ∧ ∃ name, l = b.uniformLocation program name ∨
    (l = b.attributeLocation program name ∧ m.ScriptsAttribute name)
  | .bindAttribute l _ => l.isValid = true ∧ ∃ name, l = b.attributeLocation program name
  | .bindTexture .. | .unbindTexture .. => True
  | .deleteProgram _ => False

namespace Material

variable {m : Material} {b : Backend} {program : Nat} {t : LocationTable} {e : Effect}
  {stage : Stage} {name : String}

theorem coreUniform_eq (resolved : t.Resolved b program) (holds : m.HoldsOf t)
    (valid : (m.coreUniform stage name).isValid = true) :
    m.coreUniform stage name = b.uniformLocation program name := by
  have held := holds _ (m.coreLookup_mem stage)
  rw [holder_coreLookup] at held
  unfold coreUniform at valid ⊢
  rw [held] at valid ⊢
  exact resolved.uniformLocation_select valid

theorem coreAttribute_eq (resolved : t.Resolved b program) (holds : m.HoldsOf t)
    (valid : ((m.held (.core stage)).attributeLocation name).isValid = true) :
    (m.held (.core stage)).attributeLocation name = b.attributeLocation program name := by
  have held := holds _ (m.coreLookup_mem stage)
  rw [holder_coreLookup] at held
  rw [held] at valid ⊢
  exact resolved.attributeLocation_select valid

theorem effectLookup_mem {f : Fragment} (attached : e ∈ m.effects)
    (made : e.fragment? stage = some f) :
    ⟨.effect e.id stage, f.uniforms, f.attributes⟩ ∈ m.lookups :=
  mem_lookups.mpr ⟨stage, Or.inr ⟨e, attached, effectLookup_eq_some.mpr ⟨f, made, rfl⟩⟩⟩

theorem effectLocation_cases (resolved : t.Resolved b program) (holds : m.HoldsOf t)
    (attached : e ∈ m.effects) (valid : (m.effectLocation e stage name).isValid = true) :
    ∃ f, e.fragment? stage = some f ∧
      ((name ∈ f.attributes ∧ m.effectLocation e stage name = b.attributeLocation program name) ∨
        (name ∉ f.attributes ∧ m.effectLocation e stage name = b.uniformLocation program name)) := by
  unfold effectLocation at valid ⊢
  cases made : e.fragment? stage with
  | none =>
    rw [made, Location.isValid_notFound] at valid
    cases valid
  | some f =>
    have held := holds _ (effectLookup_mem attached made)
    dsimp only at held
    simp only [made, held, LocationTable.locate_select] at valid ⊢
    refine ⟨f, rfl, ?_⟩
    by_cases isAttribute : name ∈ f.attributes
    · simp only [if_pos isAttribute] at valid ⊢
      exact Or.inl ⟨isAttribute, resolved.attributeLocation valid⟩
    · simp only [if_neg isAttribute] at valid ⊢
      refine Or.inr ⟨isAttribute, ?_⟩
      split at valid
      · next asked =>
        rw [if_pos asked]
        exact resolved.uniformLocation valid
      · rw [Location.isValid_notFound] at valid
        cases valid

theorem mem_writeCalls {l : Location} {value : UniformValue} {call : GraphicsCall}
    (mem : call ∈ writeCalls l value) : l.isValid = true ∧ call = .setUniform l value := by
  unfold writeCalls at mem
  split at mem
  · next valid => exact ⟨valid, List.mem_singleton.mp mem⟩
  · exact absurd mem List.not_mem_nil

theorem mem_attributeCalls {l : Location} {buffer : Option VertexBuffer} {call : GraphicsCall}
    (mem : call ∈ attributeCalls l buffer) : l.isValid = true ∧ ∃ v, call = .bindAttribute l v := by
  unfold attributeCalls at mem
  split at mem
  · split at mem
    · next valid => exact ⟨valid, _, List.mem_singleton.mp mem⟩
    · exact absurd mem List.not_mem_nil
  · exact absurd mem List.not_mem_nil

theorem isOn_coreWrite (resolved : t.Resolved b program) (holds : m.HoldsOf t)
    {value : UniformValue} {call : GraphicsCall}
    (mem : call ∈ writeCalls (m.coreUniform stage name) value) : call.IsOn m b program := by
  obtain ⟨valid, rfl⟩ := mem_writeCalls mem
  exact ⟨valid, name, Or.inl (coreUniform_eq resolved holds valid)⟩

theorem isOn_effectWrite (resolved : t.Resolved b program) (holds : m.HoldsOf t)
    (attached : e ∈ m.effects) {value : UniformValue} {call : GraphicsCall}
    (custom : ∀ f, e.fragment? stage = some f → name ∈ f.attributes → ∃ c, e = .custom c)
    (mem : call ∈ writeCalls (m.effectLocation e stage name) value) : call.IsOn m b program := by
  obtain ⟨valid, rfl⟩ := mem_writeCalls mem
  refine ⟨valid, name, ?_⟩
  obtain ⟨f, made, ⟨isAttribute, same⟩ | ⟨_, same⟩⟩ :=
    effectLocation_cases resolved holds attached valid
  · obtain ⟨c, rfl⟩ := custom f made isAttribute
    exact Or.inr ⟨same, c, stage, f, attached, made, isAttribute⟩
  · exact Or.inl same

theorem isOn_stageWrites (resolved : t.Resolved b program) (holds : m.HoldsOf t)
    {call : GraphicsCall} (mem : call ∈ m.stageWrites stage) : call.IsOn m b program := by
  rcases List.mem_append.mp mem with core | effects
  · cases stage <;>
      · obtain ⟨_, _, written⟩ := List.mem_flatMap.mp core
        exact isOn_coreWrite resolved holds written
  · obtain ⟨e, attached, written⟩ := List.mem_flatMap.mp effects
    obtain ⟨⟨name, value⟩, listed, written⟩ := List.mem_flatMap.mp written
    exact isOn_effectWrite resolved holds attached
      (fun f made isAttribute => Effect.custom_of_write_mem made listed isAttribute) written

theorem mem_bindCalls {unit : Nat} {texture : TextureRef} {sampler : Location} {call : GraphicsCall}
    (mem : call ∈ bindCalls unit texture sampler) :
    call = .bindTexture unit texture ∨ call ∈ writeCalls sampler (.sampler unit) :=
  List.mem_cons.mp mem

theorem effect_mem_of_effectUnits {limit : Nat} {r : UnitRange} (mem : (r, e) ∈ m.effectUnits limit) :
    e ∈ m.effects := by
  obtain ⟨⟨d, i⟩, listed, same⟩ := List.mem_map.mp (List.mem_of_mem_filter mem)
  obtain rfl : d = e := congrArg Prod.snd same
  exact List.fst_mem_of_mem_zipIdx listed

theorem isOn_textureBindings (resolved : t.Resolved b program) (holds : m.HoldsOf t) {limit : Nat}
    {call : GraphicsCall} (mem : call ∈ m.textureBindings limit) : call.IsOn m b program := by
  rcases List.mem_append.mp mem with core | effects
  · obtain ⟨_, _, bound⟩ := List.mem_flatMap.mp core
    rcases mem_bindCalls bound with rfl | written
    · trivial
    · exact isOn_coreWrite resolved holds written
  · obtain ⟨⟨r, e⟩, ranged, bound⟩ := List.mem_flatMap.mp effects
    obtain ⟨_, _, bound⟩ := List.mem_flatMap.mp bound
    rcases mem_bindCalls bound with rfl | written
    · trivial
    · exact isOn_effectWrite resolved holds (effect_mem_of_effectUnits ranged)
        (fun f made isAttribute => Effect.custom_of_sampler_mem made isAttribute) written

theorem isOn_textureReleases {limit : Nat} {call : GraphicsCall}
    (mem : call ∈ m.textureReleases limit) : call.IsOn m b program := by
  rcases List.mem_append.mp mem with core | effects
  · obtain ⟨_, _, rfl⟩ := List.mem_map.mp core
    trivial
  · obtain ⟨_, _, released⟩ := List.mem_flatMap.mp effects
    obtain ⟨_, _, rfl⟩ := List.mem_map.mp released
    trivial

theorem isOn_attributeBindings (resolved : t.Resolved b program) (holds : m.HoldsOf t)
    {v : MeshBuffers} {call : GraphicsCall} (mem : call ∈ m.attributeBindings v) :
    call.IsOn m b program := by
  rcases List.mem_append.mp mem with core | effects
  · obtain ⟨⟨name, buffer⟩, _, bound⟩ := List.mem_flatMap.mp core
    obtain ⟨valid, v, rfl⟩ := mem_attributeCalls bound
    exact ⟨valid, name, coreAttribute_eq resolved holds valid⟩
  · obtain ⟨e, attached, bound⟩ := List.mem_flatMap.mp effects
    obtain ⟨⟨name, buffer⟩, streamed, bound⟩ := List.mem_flatMap.mp bound
    obtain ⟨valid, v, rfl⟩ := mem_attributeCalls bound
    refine ⟨valid, name, ?_⟩
    obtain ⟨f, made, ⟨_, same⟩ | ⟨other, _⟩⟩ := effectLocation_cases resolved holds attached valid
    · exact same
    · exact absurd (Effect.stream_mem made streamed) other

theorem withProgram_ok {α : Type} {required : BuildState} {act : Nat → Material → Outcome α} {a : α}
    (ok : (m.withProgram b required act).result = .ok a) :
    ∃ p, m.IsLive b p ∧ m.progress.reaches required = true ∧
      m.withProgram b required act = act p.handle m := by
  rcases liveProgram_cases .any m b required with ⟨p, live, far, given⟩ | ⟨e, n, log, given, _⟩
  · exact ⟨p, live, far, by simp only [withProgram, given]⟩
  · simp only [withProgram, given] at ok
    cases ok

theorem eq_bound_of_reaches {s : BuildState} (far : s.reaches .bound = true) : s = .bound := by
  cases s <;> first | rfl | cases far

/-- The build stays the same, and what is recorded is on the program. -/
def CallsOn {α : Type} (m : Material) (b : Backend) (program : Nat) (o : Outcome α) : Prop :=
  m.SameBuild o.material ∧ ∃ calls, o.backend = b.recordAll calls ∧
    ∀ t : LocationTable, t.Resolved b program → o.material.HoldsOf t →
      ∀ c ∈ calls, c.IsOn o.material b program

theorem withProgram_callsOn {α : Type} {act : Nat → Material → Outcome α}
    (acts : ∀ program, m.CallsOn b program (act program m)) {a : α}
    (ok : (m.withProgram b .bound act).result = .ok a) :
    ∃ p, m.IsLive b p ∧ m.progress = .bound ∧
      m.CallsOn b p.handle (m.withProgram b .bound act) := by
  obtain ⟨p, live, far, performed⟩ := withProgram_ok ok
  rw [performed]
  exact ⟨p, live, eq_bound_of_reaches far, acts p.handle⟩

end Material

theorem FrameCall.perform_ok {m : Material} {b : Backend} {call : FrameCall} {r : Reply}
    (ok : (call.perform m b).result = .ok r) :
    ∃ p, m.IsLive b p ∧ m.progress = .bound ∧ m.CallsOn b p.handle (call.perform m b) := by
  have result {α : Type} {f : α → Reply} {o : Outcome α} (ok : (o.map f).result = .ok r) :
      ∃ a, o.result = .ok a := by
    cases given : o.result with
    | error e => simp [Outcome.map, given, Except.map] at ok
    | ok a => exact ⟨a, rfl⟩
  cases call with
  | useProgram =>
    obtain ⟨_, ok⟩ := result ok
    refine Material.withProgram_callsOn (fun program => ?_) ok
    refine ⟨.refl m, [.useProgram program], rfl, fun t _ _ c mem => ?_⟩
    rw [List.mem_singleton.mp mem]
    rfl
  | applyParams =>
    obtain ⟨_, ok⟩ := result ok
    refine Material.withProgram_callsOn (fun program => ?_) ok
    refine ⟨m.sameBuild_mapEffects fun e => e.parts_advance m.time, _, rfl, ?_⟩
    intro t resolved holds c mem
    rcases List.mem_append.mp mem with mem | mem
    · exact Material.isOn_stageWrites resolved holds mem
    · exact Material.isOn_stageWrites resolved holds mem
  | bindTextures =>
    obtain ⟨_, ok⟩ := result ok
    refine Material.withProgram_callsOn (fun program => ?_) ok
    exact ⟨.refl m, _, rfl, fun t resolved holds c mem =>
      Material.isOn_textureBindings resolved holds mem⟩
  | unbindTextures =>
    obtain ⟨_, ok⟩ := result ok
    refine Material.withProgram_callsOn (fun program => ?_) ok
    exact ⟨.refl m, _, rfl, fun t _ _ c mem => Material.isOn_textureReleases mem⟩
  | bindAttributes v =>
    obtain ⟨_, ok⟩ := result ok
    refine Material.withProgram_callsOn (fun program => ?_) ok
    exact ⟨.refl m, _, rfl, fun t resolved holds c mem =>
      Material.isOn_attributeBindings resolved holds mem⟩

/-! ### Freshness -/

/-- The shader is a core shader of the material, or the fragment of one of its effects. -/
def Material.HasShader (m : Material) : Holder → Prop
  | .core _ => True
  | .effect id stage => ∃ e ∈ m.effects, e.id = id ∧ (e.fragment? stage).isSome = true

/-- The live program is alive, it was linked from the very sources that composing would give, and
every valid location that a shader holds is its location. -/
structure Material.Fresh (m : Material) (b : Backend) (links : List Link) (p : LinkedProgram) :
    Prop where
  live : m.program = .live p
  alive : b.isAlive p.handle = true
  sources : ∃ c, (m.compose b).result = .ok c ∧
    links.filter (·.handle == p.handle) =
      [⟨p.handle, c.vertex.source.text, c.fragment.source.text⟩]
  uniforms : ∀ h name, m.HasShader h → ((m.held h).uniformLocation name).isValid = true →
    (m.held h).uniformLocation name = b.uniformLocation p.handle name
  attributes : ∀ h name, m.HasShader h → ((m.held h).attributeLocation name).isValid = true →
    (m.held h).attributeLocation name = b.attributeLocation p.handle name

theorem filter_handle_eq {links : List Link} {l : Link} (unique : (links.map (·.handle)).Nodup)
    (mem : l ∈ links) : links.filter (·.handle == l.handle) = [l] := by
  induction links with
  | nil => exact absurd mem List.not_mem_nil
  | cons k rest ih =>
    obtain ⟨apart, unique⟩ := List.nodup_cons.mp unique
    rcases List.mem_cons.mp mem with rfl | mem
    · have others : rest.filter (·.handle == l.handle) = [] := by
        refine List.filter_eq_nil_iff.mpr fun k inside same => apart ?_
        exact List.mem_map.mpr ⟨k, inside, beq_iff_eq.mp same⟩
      rw [List.filter_cons, if_pos (beq_self_eq_true _), others]
    · have other : ¬ (k.handle == l.handle) = true := by
        intro same
        exact apart (List.mem_map.mpr ⟨l, mem, (beq_iff_eq.mp same).symm⟩)
      rw [List.filter_cons, if_neg other, ih unique mem]

theorem Material.held_eq_select {m : Material} {t : LocationTable} {h : Holder} (holds : m.HoldsOf t)
    (shader : m.HasShader h) : ∃ uniforms attributes, m.held h = t.select uniforms attributes := by
  cases h with
  | core stage =>
    have held := holds _ (m.coreLookup_mem stage)
    rw [holder_coreLookup] at held
    exact ⟨_, _, held⟩
  | effect id stage =>
    obtain ⟨e, attached, rfl, some⟩ := shader
    obtain ⟨f, made⟩ := Option.isSome_iff_exists.mp some
    exact ⟨_, _, holds _ (effectLookup_mem attached made)⟩

theorem World.Coherent.fresh {w : World} {links : List Link} (coherent : w.Coherent links)
    {i : Nat} {m : Material} (present : w.materials[i]? = some m) {p : LinkedProgram}
    (live : m.IsLive w.backend p) (bound : m.progress = .bound) :
    m.Fresh w.backend links p := by
  have built := coherent.built i m present
  obtain ⟨c, units, parts, linked⟩ := built.sources p live.live live.version
  obtain ⟨t, resolved, holds⟩ := built.locations p live bound
  have owns := (owns_self present).mpr (Material.ownedProgram_live live.live)
  refine ⟨live.live, coherent.custody.alive i p owns live.generation, ⟨c, ?_, ?_⟩, ?_, ?_⟩
  · rw [Material.result_compose, parts]
    rfl
  · exact filter_handle_eq coherent.unique linked
  · intro h name shader valid
    obtain ⟨uniforms, attributes, held⟩ := Material.held_eq_select holds shader
    rw [held] at valid ⊢
    exact resolved.uniformLocation_select valid
  · intro h name shader valid
    obtain ⟨uniforms, attributes, held⟩ := Material.held_eq_select holds shader
    rw [held] at valid ⊢
    exact resolved.attributeLocation_select valid

theorem isOn_recordAll {m : Material} {b : Backend} {program : Nat} {call : GraphicsCall}
    (calls : List GraphicsCall) :
    call.IsOn m (b.recordAll calls) program ↔ call.IsOn m b program := by
  cases call <;> exact Iff.rfl

theorem World.Coherent.fresh_frame {w : World} {links : List Link} (coherent : w.Coherent links)
    (short : links.length < UInt32.size) {i : Nat} {m : Material}
    (present : w.materials[i]? = some m) {call : FrameCall} {r : Reply}
    (ok : (call.perform m w.backend).result = .ok r) :
    ∃ p calls, (call.perform m w.backend).backend = w.backend.recordAll calls ∧
      (call.perform m w.backend).material.Fresh (call.perform m w.backend).backend links p ∧
      ∀ c ∈ calls, c.IsOn (call.perform m w.backend).material (call.perform m w.backend).backend
        p.handle := by
  obtain ⟨p, live, bound, same, calls, recorded, isOn⟩ := FrameCall.perform_ok ok
  obtain ⟨t, resolved, holds⟩ := (coherent.built i m present).locations p live bound
  have isOn := isOn t resolved (same.holdsOf holds)
  have quiet : ∀ h, .deleteProgram h ∉ calls := fun h mem => isOn _ mem
  have after := coherent.changed (by rwa [List.append_nil]) present
    (Change.adjusted (π := .any) calls same quiet)
  rw [List.append_nil] at after
  have liveAfter : (call.perform m w.backend).material.IsLive (w.backend.recordAll calls) p :=
    ⟨same.program.trans live.live, live.generation, live.version.trans same.version.symm⟩
  refine ⟨p, calls, recorded, ?_, ?_⟩
  · rw [recorded]
    exact after.fresh (getElem?_put_self present) liveAfter (same.progress.trans bound)
  · intro c mem
    rw [recorded]
    exact (isOn_recordAll calls).mpr (isOn c mem)

/-- A call of a frame that succeeds after any run works on a fresh program, and all that it records
is on that program, as long as neither versions nor handles have started over. -/
theorem World.fresh_of_frame_ok (materials : List (String × Settings)) (limit : Nat)
    (steps : List Step)
    (few : ∀ i, (fresh materials limit).mutations i steps < UInt64.size)
    (short : ((fresh materials limit).links steps).length < UInt32.size) {w : World}
    (reached : (fresh materials limit).run steps = w) {i : Nat} {m : Material}
    (present : w.materials[i]? = some m) {call : FrameCall} {o : Outcome Reply}
    (performed : call.perform m w.backend = o) {r : Reply} (ok : o.result = .ok r) :
    ∃ p calls, o.backend = w.backend.recordAll calls ∧
      o.material.Fresh o.backend ((fresh materials limit).links steps) p ∧
      ∀ c ∈ calls, c.IsOn o.material o.backend p.handle := by
  subst reached performed
  exact (coherent_run (grows_fresh materials limit steps few) short).fresh_frame short present ok

theorem World.fresh_of_useProgram_after_build :
    ∃ m o, ((fresh [("m", {})] 8).run [.material 0 .build]).materials[0]? = some m ∧
      FrameCall.useProgram.perform m ((fresh [("m", {})] 8).run [.material 0 .build]).backend = o ∧
      o.result = .ok .done ∧
      ∃ p calls, o.backend =
          ((fresh [("m", {})] 8).run [.material 0 .build]).backend.recordAll calls ∧
        o.material.Fresh o.backend ((fresh [("m", {})] 8).links [.material 0 .build]) p ∧
        ∀ c ∈ calls, c.IsOn o.material o.backend p.handle := by
  have few (i : Nat) : (fresh [("m", {})] 8).mutations i [.material 0 .build] < UInt64.size :=
    Nat.lt_of_le_of_lt (mutations_le_length i _ _) (by decide)
  have short : ((fresh [("m", {})] 8).links [.material 0 .build]).length < UInt32.size :=
    Nat.lt_of_le_of_lt (length_links_le _ _) (by decide)
  obtain ⟨m, present, ok⟩ :=
    useProgram_of_build (getElem?_fresh "m" 8) (Material.build_create "m" rfl)
  exact ⟨m, _, present, rfl, ok,
    fresh_of_frame_ok [("m", {})] 8 [.material 0 .build] few short rfl present rfl ok⟩

end ShaderComposer
