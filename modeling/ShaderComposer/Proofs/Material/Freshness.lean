import ShaderComposer.Proofs.Material.Custody
import ShaderComposer.Proofs.Material.Locations

/-!
# Fresh programs

A call of a frame that succeeds works on a program that is alive, that was linked from what
composing would give now, and whose locations the shaders hold. Nothing stores that a program is
fresh. It follows from what versions, generations and the state of the build say about each other
(`Material.Built`), which every mutation and every change keeps as long as no version wraps and the
handles of programs do not start over.
-/

namespace ShaderComposer

/-! ### What versions and states say -/

/-- What the state of a material says about its composition, its program and its locations. -/
structure Material.Built (m : Material) (b : Backend) (links : List Link) : Prop where
  distinct : m.Distinct
  composedVersion : m.composedVersion ≤ m.version
  programVersion : ∀ p, m.ownedProgram = some p → p.version ≤ m.version
  composition : m.isCurrent = true → ∀ c, m.composed = some c →
    ∃ units, m.composeParts = .ok (c, units)
  sources : ∀ p, m.program = .live p → p.version = m.version → ∃ c units,
    m.composeParts = .ok (c, units) ∧
      ⟨p.handle, c.vertex.source.text, c.fragment.source.text⟩ ∈ links
  locations : ∀ p, m.IsLive b p → m.progress = .bound →
    ∃ t : LocationTable, t.Resolved b p.handle ∧ m.HoldsOf t

namespace Material

variable {m n : Material} {b c : Backend} {links more : List Link} {p : LinkedProgram}

theorem built_create (name : String) (settings : Settings) (b : Backend) :
    (create name settings).Built b [] where
  distinct := List.nodup_nil
  composedVersion := UInt64.le_refl _
  programVersion p owned := by cases owned
  composition _ c composed := by cases composed
  sources p live := by cases live
  locations p live := by cases live.live

/-- A mutation leaves the composition behind. -/
theorem Built.composedVersion_lt (built : m.Built b links) (mutated : m.Mutated n)
    (grows : m.version < n.version) : n.composedVersion < n.version := by
  rw [mutated.composedVersion]
  exact UInt64.lt_of_le_of_lt built.composedVersion grows

/-- A mutation leaves the program behind. -/
theorem Built.version_ne (built : m.Built b links) (mutated : m.Mutated n)
    (grows : m.version < n.version) (live : n.program = .live p) : p.version ≠ n.version := by
  have owned : n.ownedProgram = m.ownedProgram := ownedProgram_congr mutated.program
  have before := built.programVersion p (owned ▸ ownedProgram_live live)
  exact UInt64.ne_of_lt (UInt64.lt_of_le_of_lt before grows)

theorem Built.mutated (built : m.Built b links) (mutated : m.Mutated n)
    (grows : m.version < n.version) : n.Built b links := by
  have owned : n.ownedProgram = m.ownedProgram := ownedProgram_congr mutated.program
  have older (p : LinkedProgram) (live : n.program = .live p) : p.version ≠ n.version :=
    built.version_ne mutated grows live
  have stale : n.composedVersion < n.version := built.composedVersion_lt mutated grows
  refine ⟨mutated.distinct built.distinct, UInt64.le_of_lt stale, fun p some => ?_,
    fun current => ?_, fun p live same => absurd same (older p live),
    fun p live => absurd live.version (older p live.live)⟩
  · exact UInt64.le_trans (built.programVersion p (owned ▸ some)) (UInt64.le_of_lt grows)
  · exact absurd (beq_iff_eq.mp current) (UInt64.ne_of_lt stale)

/-- A change of another material leaves the programs of this one as they are. -/
theorem Built.elsewhere (built : m.Built b links)
    (generation : c.contextGeneration = b.contextGeneration)
    (kept : ∀ p, m.ownedProgram = some p →
      c.programs.lookup p.handle = b.programs.lookup p.handle) : m.Built c (links ++ more) where
  distinct := built.distinct
  composedVersion := built.composedVersion
  programVersion := built.programVersion
  composition := built.composition
  sources p live version := by
    obtain ⟨composition, units, parts, linked⟩ := built.sources p live version
    exact ⟨composition, units, parts, List.mem_append_left _ linked⟩
  locations p live bound := by
    have before : m.IsLive b p := ⟨live.live, live.generation.trans generation, live.version⟩
    obtain ⟨t, resolved, holds⟩ := built.locations p before bound
    exact ⟨t, resolved.congr (kept p (ownedProgram_live live.live)), holds⟩

theorem Built.failing (built : m.Built b links) (stage : Option Stage) (log : String) :
    m.Built (b.failNextCompile stage log) links := by
  have kept : m.Built (b.failNextCompile stage log) (links ++ []) :=
    built.elsewhere rfl fun _ _ => rfl
  rwa [List.append_nil] at kept

theorem Built.sameBuild (built : m.Built b links) (same : m.SameBuild n) (calls : List GraphicsCall) :
    n.Built (b.recordAll calls) links where
  distinct := distinct_congr same.configuration built.distinct
  composedVersion := by rw [same.composedVersion, same.version]; exact built.composedVersion
  programVersion p owned := by
    rw [ownedProgram_congr same.program] at owned
    rw [same.version]
    exact built.programVersion p owned
  composition current c composed := by
    rw [isCurrent, same.composedVersion, same.version] at current
    rw [same.composed] at composed
    rw [composeParts_congr same.configuration]
    exact built.composition current c composed
  sources p live version := by
    rw [same.program] at live
    rw [same.version] at version
    rw [composeParts_congr same.configuration]
    exact built.sources p live version
  locations p live bound := by
    rw [same.progress] at bound
    have before : m.IsLive b p :=
      ⟨same.program ▸ live.live, live.generation, live.version.trans same.version⟩
    obtain ⟨t, resolved, holds⟩ := built.locations p before bound
    exact ⟨t, resolved.congr rfl, same.holdsOf holds⟩

/-- A material without a live program, and with a composition only if it had it before. -/
theorem Built.without (built : m.Built b links) (configuration : n.configuration = m.configuration)
    (version : n.version = m.version) (composedVersion : n.composedVersion = m.composedVersion)
    (composed : n.composed = m.composed ∨ n.composed = none)
    (fewer : ∀ p, n.ownedProgram = some p → m.ownedProgram = some p)
    (dead : ∀ p, n.program ≠ .live p) : n.Built c links where
  distinct := distinct_congr configuration built.distinct
  composedVersion := by rw [composedVersion, version]; exact built.composedVersion
  programVersion p owned := by rw [version]; exact built.programVersion p (fewer p owned)
  composition current c found := by
    rw [isCurrent, composedVersion, version] at current
    rw [composeParts_congr configuration]
    rcases composed with same | none
    · exact built.composition current c (same ▸ found)
    · rw [none] at found
      cases found
  sources p live := absurd live (dead p)
  locations p live := absurd live.live (dead p)

/-- A material after composing, with its program as it was and no locations yet. -/
theorem Built.recomposed (built : m.Built b links) (configuration : n.configuration = m.configuration)
    (version : n.version = m.version) (program : n.program = m.program)
    (composedVersion : n.composedVersion ≤ m.version)
    (composition : ∀ c, n.composed = some c → ∃ units, m.composeParts = .ok (c, units))
    (unbound : n.progress ≠ .bound) : n.Built b links where
  distinct := distinct_congr configuration built.distinct
  composedVersion := by rw [version]; exact composedVersion
  programVersion p owned := by
    rw [version]
    exact built.programVersion p (ownedProgram_congr program ▸ owned)
  composition _ c composed := by
    rw [composeParts_congr configuration]
    exact composition c composed
  sources p live same := by
    rw [composeParts_congr configuration]
    exact built.sources p (program ▸ live) (version ▸ same)
  locations _ _ bound := absurd bound unbound

theorem Built.linked (built : m.Built b links) {composition : Composition} {handle : Nat}
    (current : m.isCurrent = true) (composed : m.composed = some composition) :
    (m.withLinked handle c.contextGeneration).Built c (links ++
      [⟨handle, composition.vertex.source.text, composition.fragment.source.text⟩]) where
  distinct := built.distinct
  composedVersion := built.composedVersion
  programVersion p owned := by
    obtain rfl := Option.some.inj owned
    exact UInt64.le_refl _
  composition _ d found := built.composition current d found
  sources p live _ := by
    obtain ⟨units, parts⟩ := built.composition current composition composed
    obtain rfl := ProgramState.live.inj live
    exact ⟨composition, units, parts, List.mem_append_right _ (List.mem_singleton_self _)⟩
  locations _ _ bound := by cases bound

theorem Built.bound (built : m.Built b links) (live : m.program = .live p) :
    (m.withLocations (resolveAll b p.handle m.lookups .empty).1).Built b links where
  distinct := built.distinct
  composedVersion := built.composedVersion
  programVersion := built.programVersion
  composition := built.composition
  sources := built.sources
  locations q same _ := by
    obtain rfl := ProgramState.live.inj (live.symm.trans same.live)
    exact ⟨_, resolved_resolveAll (LocationTable.resolved_empty b p.handle) m.lookups,
      holdsOf_withLocations built.distinct _⟩

theorem Built.retired (built : m.Built b links) : m.retire.Built c links := by
  unfold retire
  split
  · next p live =>
    refine built.without rfl rfl rfl (Or.inl rfl) (fun q some => ?_) (fun q same => by cases same)
    rw [ownedProgram_live live]
    exact some
  · next dead => exact built.without rfl rfl rfl (Or.inl rfl) (fun _ some => some) dead

theorem not_live_contextLost (m : Material) (p : LinkedProgram) :
    m.contextLost.program ≠ .live p := by
  unfold contextLost
  dsimp only
  split <;> simp

theorem Built.lost (built : m.Built b links) : m.contextLost.Built c links := by
  refine built.without rfl rfl rfl (Or.inl rfl) (fun p some => ?_) m.not_live_contextLost
  rw [ownedProgram_contextLost] at some
  cases some

/-- Where no program is of the present context, nothing is said about live ones. -/
theorem Built.loseContext (built : m.Built b links)
    (past : ∀ p, m.ownedProgram = some p → p.generation ≠ c.contextGeneration) : m.Built c links where
  distinct := built.distinct
  composedVersion := built.composedVersion
  programVersion := built.programVersion
  composition := built.composition
  sources := built.sources
  locations p live := absurd live.generation (past p (ownedProgram_live live.live))

theorem Built.changed (built : m.Built b links) {π : Permit} (change : Change π m b more n c) :
    n.Built c (links ++ more) := by
  cases change with
  | adjusted calls same _ =>
    rw [List.append_nil]
    exact built.sameBuild same calls
  | composed parts =>
    rw [List.append_nil]
    refine built.recomposed rfl rfl rfl (UInt64.le_refl _) (fun d found => ?_)
      (by simp [withComposition])
    rw [← Option.some.inj found]
    exact ⟨_, parts⟩
  | notComposed reached early =>
    rw [List.append_nil]
    refine built.recomposed rfl rfl rfl built.composedVersion (fun d found => by cases found) ?_
    rcases early with rfl | rfl <;> simp
  | rejected failed =>
    rw [List.append_nil]
    exact built.retired
  | linked _ current composed done => exact built.linked current composed
  | bound live _ _ =>
    rw [List.append_nil]
    exact built.bound live
  | lost _ =>
    rw [List.append_nil]
    exact built.lost
  | dropped _ =>
    rw [List.append_nil]
    exact built.lost
  | released _ =>
    rw [List.append_nil]
    exact built.without rfl rfl rfl (Or.inr rfl) (fun p some => by cases some) (by simp [release])

end Material

/-! ### Worlds -/

namespace World

/-- All materials are what their states say, and no handle is linked twice. -/
structure Coherent (w : World) (links : List Link) : Prop where
  dated : w.Dated
  custody : w.Custody True links.length
  built : ∀ (i : Nat) (m : Material), w.materials[i]? = some m → m.Built w.backend links
  issued : ∀ l ∈ links, l.handle ≤ links.length
  unique : (links.map (·.handle)).Nodup

theorem coherent_fresh (materials : List (String × Settings)) (limit : Nat) :
    (fresh materials limit).Coherent [] where
  dated := dated_fresh materials limit
  custody := custody_fresh True materials limit
  built i m present := by
    obtain ⟨name, settings, rfl⟩ := exists_of_fresh present
    exact Material.built_create name settings _
  issued l mem := by simp at mem
  unique := List.nodup_nil

end World

/-- A change links the next handle or none. -/
theorem Change.issued {π : Permit} {m n : Material} {b c : Backend} {links : List Link}
    (change : Change π m b links n c) :
    links = [] ∨ ∃ l, links = [l] ∧ l.handle = b.nextProgram.toNat := by
  cases change with
  | linked _ _ _ done => exact Or.inr ⟨_, rfl, (Backend.compileAndLink_ok done).1⟩
  | _ => exact Or.inl rfl

namespace World

variable {w : World} {i : Nat} {m n : Material} {c : Backend} {links more : List Link}

theorem Dated.built_loseContext (dated : w.Dated) (present : w.materials[i]? = some m)
    (built : m.Built w.backend links) : m.Built w.backend.loseContext links :=
  built.loseContext fun _ owned =>
    Nat.ne_of_lt (dated.lt_loseContext ((owns_self present).mpr owned))

/-- A change of another material leaves a material as it was built. -/
theorem Custody.built_of_other {o : Material} {j : Nat} (custody : w.Custody True links.length)
    (short : (links ++ more).length < UInt32.size) (present : w.materials[i]? = some m) {π : Permit}
    (change : Change π m w.backend more n c) (other : j ≠ i) (found : w.materials[j]? = some o)
    (built : o.Built w.backend links) : o.Built c (links ++ more) :=
  built.elsewhere change.contextGeneration fun _ owned =>
    custody.lookup_eq short present change other ((owns_self found).mpr owned)

theorem Coherent.mutated (coherent : w.Coherent links) (present : w.materials[i]? = some m)
    (mutated : m.Mutated n) (grows : m.version < n.version) :
    (w.put i n w.backend).Coherent links where
  dated := coherent.dated.mutated present mutated
  custody := coherent.custody.mutated present mutated
  built j o found := by
    rw [getElem?_put present] at found
    split at found
    · obtain rfl := Option.some.inj found
      exact (coherent.built i m present).mutated mutated grows
    · exact coherent.built j o found
  issued := coherent.issued
  unique := coherent.unique

/-- While handles last, a change of one material keeps what is known of all. -/
theorem Coherent.changed (coherent : w.Coherent links) (short : (links ++ more).length < UInt32.size)
    (present : w.materials[i]? = some m) {π : Permit} (change : Change π m w.backend more n c) :
    (w.put i n c).Coherent (links ++ more) := by
  have fresh (l : Link) (new : more = [l]) (handle : l.handle = w.backend.nextProgram.toNat) :
      l.handle = links.length + 1 := by
    rw [new, List.length_append] at short
    exact handle.trans (coherent.custody.toNat_next short)
  constructor
  case dated => exact coherent.dated.changed present change
  case custody => exact coherent.custody.changed short present (fun _ => trivial) change
  case built =>
    intro j o found
    rw [getElem?_put present] at found
    split at found
    · obtain rfl := Option.some.inj found
      exact (coherent.built i m present).changed change
    · next other =>
      exact coherent.custody.built_of_other short present change other found
        (coherent.built j o found)
  case issued =>
    intro l mem
    rw [List.length_append]
    rcases List.mem_append.mp mem with old | new
    · exact Nat.le_trans (coherent.issued l old) (Nat.le_add_right _ _)
    · rcases change.issued with rfl | ⟨k, rfl, handle⟩
      · exact absurd new List.not_mem_nil
      · obtain rfl := List.mem_singleton.mp new
        exact Nat.le_of_eq (fresh l rfl handle)
  case unique =>
    rcases change.issued with rfl | ⟨k, rfl, handle⟩
    · rw [List.append_nil]
      exact coherent.unique
    · rw [List.map_append]
      refine coherent.unique.append (List.nodup_singleton _) ?_
      intro h old new
      obtain ⟨l, mem, rfl⟩ := List.mem_map.mp old
      have later : l.handle = k.handle := List.mem_singleton.mp new
      have before := coherent.issued l mem
      rw [later, fresh k rfl handle] at before
      omega

theorem Coherent.contextLost (coherent : w.Coherent links) :
    Coherent { w with backend := w.backend.loseContext } links where
  dated := coherent.dated.contextLost
  custody := coherent.custody.contextLost coherent.dated
  built j o found := coherent.dated.built_loseContext found (coherent.built j o found)
  issued := coherent.issued
  unique := coherent.unique

theorem Coherent.failing (coherent : w.Coherent links) (stage : Option Stage) (log : String) :
    Coherent { w with backend := w.backend.failNextCompile stage log } links where
  dated := coherent.dated.failing stage log
  custody := coherent.custody.failing stage log
  built j o found := (coherent.built j o found).failing stage log
  issued := coherent.issued
  unique := coherent.unique

/-- Everything is permitted, except that a version wraps. -/
def growingPermit : Permit := ⟨True, True, True, False⟩

theorem Coherent.preserved : Preserved (fun _ => growingPermit) fun w links =>
    links.length < UInt32.size → w.Coherent links where
  mutated holds present mutated grows short :=
    (holds short).mutated present mutated (grows.resolve_left not_false)
  changed holds present change short := (holds (short_of_append short)).changed short present change
  contextLost holds short := (holds short).contextLost
  failing stage log holds short := (holds short).failing stage log

theorem permits_of_grows {s : Step} (grows : w.Grows s) :
    w.Permits (fun _ => growingPermit) s := by
  cases s with
  | loseContext => trivial
  | failNextCompile stage log => trivial
  | material i op =>
    exact fun m present => ⟨⟨fun _ => trivial, fun _ => Or.inl trivial, fun _ => trivial⟩,
      Or.inr (grows m present)⟩

theorem grows_fresh (materials : List (String × Settings)) (limit : Nat) (steps : List Step)
    (few : ∀ i, (fresh materials limit).mutations i steps < UInt64.size) :
    (fresh materials limit).Along Grows steps := by
  refine along_grows fun i v version => ?_
  have zero : v = 0 := by
    simp only [version?, fresh, List.getElem?_map, Option.map_map, Option.map_eq_some_iff] at version
    obtain ⟨_, _, rfl⟩ := version
    rfl
  rw [zero, UInt64.toNat_zero, Nat.zero_add]
  exact few i

theorem coherent_run {materials : List (String × Settings)} {limit : Nat} {steps : List Step}
    (grows : (fresh materials limit).Along Grows steps)
    (short : ((fresh materials limit).links steps).length < UInt32.size) :
    ((fresh materials limit).run steps).Coherent ((fresh materials limit).links steps) := by
  have after := Coherent.preserved.run [] (fun _ => coherent_fresh materials limit)
    (grows.imp fun _ _ => permits_of_grows)
  rw [List.nil_append] at after
  exact after short

end World

end ShaderComposer
