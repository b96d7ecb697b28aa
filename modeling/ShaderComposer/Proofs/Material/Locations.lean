import Mathlib.Data.List.Nodup
import ShaderComposer.Proofs.Material.Change

/-!
# Locations that shaders hold

Looking up all locations leaves each shader with what it asked for: every name with the location
that the backend has for it (`Material.held_withLocations`). No two shaders ask under the same name
if no two effects have the same.
-/

namespace ShaderComposer

/-! ### Tables of one program -/

namespace LocationTable

/-- All locations of the table are those of a program. -/
structure Resolved (t : LocationTable) (b : Backend) (program : Nat) : Prop where
  uniforms {name : String} {l : Location} (found : t.uniforms.lookup name = some l) :
    l = b.uniformLocation program name
  attributes {name : String} {l : Location} (found : t.attributes.lookup name = some l) :
    l = b.attributeLocation program name

variable {t : LocationTable} {b c : Backend} {program : Nat}

theorem resolved_empty (b : Backend) (program : Nat) : empty.Resolved b program :=
  ⟨fun found => by simp [empty] at found, fun found => by simp [empty] at found⟩

theorem lookup_snoc {name key : String} {l k : Location} {entries : List (String × Location)}
    (found : (entries ++ [(key, k)]).lookup name = some l) :
    entries.lookup name = some l ∨ (name = key ∧ l = k) := by
  rw [List.lookup_append] at found
  cases earlier : entries.lookup name with
  | some first =>
    rw [earlier, Option.some_or] at found
    exact Or.inl found
  | none =>
    rw [earlier, Option.none_or, List.lookup_cons] at found
    split at found
    · next same => exact Or.inr ⟨eq_of_beq same, (Option.some.inj found).symm⟩
    · cases found

theorem Resolved.resolveUniform (resolved : t.Resolved b program) (name : String) :
    (t.resolveUniform b program name).1.Resolved b program := by
  unfold LocationTable.resolveUniform
  split
  · exact resolved
  · refine ⟨fun found => ?_, resolved.attributes⟩
    rcases lookup_snoc found with earlier | ⟨rfl, rfl⟩
    · exact resolved.uniforms earlier
    · rfl

theorem Resolved.resolveAttribute (resolved : t.Resolved b program) (name : String) :
    (t.resolveAttribute b program name).1.Resolved b program := by
  unfold LocationTable.resolveAttribute
  split
  · exact resolved
  · refine ⟨resolved.uniforms, fun found => ?_⟩
    rcases lookup_snoc found with earlier | ⟨rfl, rfl⟩
    · exact resolved.attributes earlier
    · rfl

theorem Resolved.resolveEach (look : LocationTable → String → LocationTable × List LogRecord)
    (each : ∀ t name, t.Resolved b program → (look t name).1.Resolved b program)
    (resolved : t.Resolved b program) (names : List String) :
    (LocationTable.resolveEach look names t).1.Resolved b program := by
  induction names generalizing t with
  | nil => exact resolved
  | cons name rest ih => exact ih (each t name resolved)

theorem Resolved.resolve (resolved : t.Resolved b program) (uniforms attributes : List String) :
    (t.resolve b program uniforms attributes).1.Resolved b program := by
  have first := resolved.resolveEach (fun t name => t.resolveUniform b program name)
    (fun _ name resolved => resolved.resolveUniform name) uniforms
  exact first.resolveEach (fun t name => t.resolveAttribute b program name)
    (fun _ name resolved => resolved.resolveAttribute name) attributes

theorem Resolved.congr (resolved : t.Resolved b program)
    (same : c.programs.lookup program = b.programs.lookup program) : t.Resolved c program :=
  ⟨fun found => by simp only [Backend.uniformLocation, same]; exact resolved.uniforms found,
    fun found => by simp only [Backend.attributeLocation, same]; exact resolved.attributes found⟩

theorem Resolved.uniformLocation (resolved : t.Resolved b program) {name : String}
    (valid : (t.uniformLocation name).isValid = true) :
    t.uniformLocation name = b.uniformLocation program name := by
  unfold LocationTable.uniformLocation at valid ⊢
  cases found : t.uniforms.lookup name with
  | none => simp [found, Location.isValid_notFound] at valid
  | some l => exact resolved.uniforms found

theorem Resolved.attributeLocation (resolved : t.Resolved b program) {name : String}
    (valid : (t.attributeLocation name).isValid = true) :
    t.attributeLocation name = b.attributeLocation program name := by
  unfold LocationTable.attributeLocation at valid ⊢
  cases found : t.attributes.lookup name with
  | none => simp [found, Location.isValid_notFound] at valid
  | some l => exact resolved.attributes found

def Knows (t : LocationTable) (name : String) : Prop := (t.uniforms.lookup name).isSome = true

theorem Resolved.uniformLocation_of_knows (resolved : t.Resolved b program) {name : String}
    (knows : t.Knows name) : t.uniformLocation name = b.uniformLocation program name := by
  obtain ⟨l, found⟩ := Option.isSome_iff_exists.mp knows
  rw [LocationTable.uniformLocation, found]
  exact resolved.uniforms found

theorem Knows.resolveUniform {name : String} (knows : t.Knows name) (other : String) :
    (t.resolveUniform b program other).1.Knows name := by
  unfold LocationTable.resolveUniform
  split
  · exact knows
  · unfold Knows at knows ⊢
    rw [List.lookup_append, Option.isSome_or, knows]
    rfl

theorem knows_resolveUniform (t : LocationTable) (name : String) :
    (t.resolveUniform b program name).1.Knows name := by
  unfold LocationTable.resolveUniform
  split
  · next known => exact known
  · unfold Knows
    rw [List.lookup_append, Option.isSome_or, List.lookup_cons_self, Option.isSome_some, Bool.or_true]

theorem knows_resolveUniforms {name : String} {names : List String}
    (asked : name ∈ names ∨ t.Knows name) :
    (LocationTable.resolveEach (fun t name => t.resolveUniform b program name) names t).1.Knows
      name := by
  induction names generalizing t with
  | nil => exact asked.resolve_left List.not_mem_nil
  | cons first rest ih =>
    refine ih ?_
    rcases asked with asked | knows
    · rcases List.mem_cons.mp asked with rfl | later
      · exact Or.inr (t.knows_resolveUniform name)
      · exact Or.inl later
    · exact Or.inr (knows.resolveUniform first)

theorem Knows.resolveAttribute {name : String} (knows : t.Knows name) (other : String) :
    (t.resolveAttribute b program other).1.Knows name := by
  unfold LocationTable.resolveAttribute
  split <;> exact knows

theorem Knows.resolveEach {look : LocationTable → String → LocationTable × List LogRecord}
    {name : String} (each : ∀ t other, t.Knows name → (look t other).1.Knows name)
    (knows : t.Knows name) (names : List String) :
    (LocationTable.resolveEach look names t).1.Knows name := by
  induction names generalizing t with
  | nil => exact knows
  | cons first rest ih => exact ih (each t first knows)

theorem knows_resolve {name : String} {uniforms : List String}
    (asked : name ∈ uniforms ∨ t.Knows name) (attributes : List String) :
    (t.resolve b program uniforms attributes).1.Knows name :=
  (knows_resolveUniforms asked).resolveEach (fun _ other knows => knows.resolveAttribute other)
    attributes

/-! ### Selections -/

theorem lookup_map_name (names : List String) (f : String → Location) (name : String) :
    (names.map fun n => (n, f n)).lookup name = if name ∈ names then some (f name) else none := by
  induction names with
  | nil => rfl
  | cons n rest ih =>
    rw [List.map_cons, List.lookup_cons]
    by_cases same : name = n
    · simp [same]
    · rw [beq_false_of_ne same, ih]
      simp [same]

variable {uniforms attributes : List String} {name : String}

theorem uniformLocation_select :
    (t.select uniforms attributes).uniformLocation name =
      if name ∈ uniforms then t.uniformLocation name else .notFound := by
  simp only [select, uniformLocation, lookup_map_name]
  split <;> rfl

theorem attributeLocation_select :
    (t.select uniforms attributes).attributeLocation name =
      if name ∈ attributes then t.attributeLocation name else .notFound := by
  simp only [select, attributeLocation, lookup_map_name]
  split <;> rfl

theorem Resolved.uniformLocation_select (resolved : t.Resolved b program)
    (valid : ((t.select uniforms attributes).uniformLocation name).isValid = true) :
    (t.select uniforms attributes).uniformLocation name = b.uniformLocation program name := by
  rw [LocationTable.uniformLocation_select] at valid ⊢
  split at valid
  · next asked =>
    rw [if_pos asked]
    exact resolved.uniformLocation valid
  · rw [Location.isValid_notFound] at valid
    cases valid

theorem Resolved.attributeLocation_select (resolved : t.Resolved b program)
    (valid : ((t.select uniforms attributes).attributeLocation name).isValid = true) :
    (t.select uniforms attributes).attributeLocation name = b.attributeLocation program name := by
  rw [LocationTable.attributeLocation_select] at valid ⊢
  split at valid
  · next asked =>
    rw [if_pos asked]
    exact resolved.attributeLocation valid
  · rw [Location.isValid_notFound] at valid
    cases valid

theorem locate_select :
    (t.select uniforms attributes).locate name =
      if name ∈ attributes then t.attributeLocation name
      else if name ∈ uniforms then t.uniformLocation name else .notFound := by
  have selected : (t.select uniforms attributes).uniformLocation name = _ := uniformLocation_select
  rw [← selected]
  simp only [locate, select, lookup_map_name]
  split
  · next found =>
    split at found
    · next asked => rw [if_pos asked]; exact (Option.some.inj found).symm
    · cases found
  · next found =>
    split at found
    · cases found
    · next asked => rw [if_neg asked]

end LocationTable

/-! ### What shaders ask for -/

namespace Material

variable {m n : Material}

theorem mem_lookups {l : Lookup} :
    l ∈ m.lookups ↔
      ∃ stage, l = m.coreLookup stage ∨ ∃ e ∈ m.effects, effectLookup e stage = some l := by
  have stages (stage : Stage) : l ∈ m.stageLookups stage ↔
      l = m.coreLookup stage ∨ ∃ e ∈ m.effects, effectLookup e stage = some l := by
    simp only [stageLookups, List.mem_cons, List.mem_filterMap]
  rw [lookups, List.mem_append, stages, stages]
  constructor
  · rintro (asked | asked)
    · exact ⟨.vertex, asked⟩
    · exact ⟨.fragment, asked⟩
  · rintro ⟨stage, asked⟩
    cases stage with
    | vertex => exact Or.inl asked
    | fragment => exact Or.inr asked

theorem coreLookup_mem (m : Material) (stage : Stage) : m.coreLookup stage ∈ m.lookups :=
  mem_lookups.mpr ⟨stage, Or.inl rfl⟩

theorem holder_coreLookup (m : Material) (stage : Stage) :
    (m.coreLookup stage).holder = .core stage := by
  cases stage <;> rfl

theorem effectLookup_eq_some {e : Effect} {stage : Stage} {l : Lookup} :
    effectLookup e stage = some l ↔
      ∃ f, e.fragment? stage = some f ∧ l = ⟨.effect e.id stage, f.uniforms, f.attributes⟩ := by
  rw [effectLookup, Option.map_eq_some_iff]
  simp only [eq_comm (b := l)]

/-- No two shaders ask under the same name. -/
theorem lookups_unique (distinct : m.Distinct) {l k : Lookup} (hl : l ∈ m.lookups)
    (hk : k ∈ m.lookups) (same : l.holder = k.holder) : l = k := by
  obtain ⟨s, rfl | ⟨e, he, asks⟩⟩ := mem_lookups.mp hl <;>
    obtain ⟨r, rfl | ⟨d, hd, asked⟩⟩ := mem_lookups.mp hk
  case inl.inl =>
    rw [holder_coreLookup, holder_coreLookup] at same
    rw [Holder.core.inj same]
  case inl.inr =>
    obtain ⟨f, _, rfl⟩ := effectLookup_eq_some.mp asked
    rw [holder_coreLookup] at same
    cases same
  case inr.inl =>
    obtain ⟨f, _, rfl⟩ := effectLookup_eq_some.mp asks
    rw [holder_coreLookup] at same
    cases same
  case inr.inr =>
    obtain ⟨f, made, rfl⟩ := effectLookup_eq_some.mp asks
    obtain ⟨g, also, rfl⟩ := effectLookup_eq_some.mp asked
    obtain ⟨ids, rfl⟩ := Holder.effect.inj same
    obtain rfl : e = d := List.inj_on_of_nodup_map distinct he hd ids
    rw [Option.some.inj (made.symm.trans also)]

theorem resolved_resolveAll {b : Backend} {program : Nat} {t : LocationTable}
    (resolved : t.Resolved b program) (lookups : List Lookup) :
    (resolveAll b program lookups t).1.Resolved b program := by
  induction lookups generalizing t with
  | nil => exact resolved
  | cons l rest ih => exact ih (resolved.resolve l.uniforms l.attributes)

theorem knows_resolveAll {b : Backend} {program : Nat} {t : LocationTable} {name : String}
    {lookups : List Lookup} (asked : (∃ l ∈ lookups, name ∈ l.uniforms) ∨ t.Knows name) :
    (resolveAll b program lookups t).1.Knows name := by
  induction lookups generalizing t with
  | nil =>
    rcases asked with ⟨l, mem, _⟩ | knows
    · exact absurd mem List.not_mem_nil
    · exact knows
  | cons first rest ih =>
    refine ih ?_
    rcases asked with ⟨l, mem, asks⟩ | knows
    · rcases List.mem_cons.mp mem with rfl | later
      · exact Or.inr (LocationTable.knows_resolve (Or.inl asks) l.attributes)
      · exact Or.inl ⟨l, later, asks⟩
    · exact Or.inr (LocationTable.knows_resolve (Or.inr knows) first.attributes)

theorem lookups_withLocations (m : Material) (t : LocationTable) :
    (m.withLocations t).lookups = m.lookups := by
  have core (stage : Stage) : (m.withLocations t).coreLookup stage = m.coreLookup stage := by
    cases stage <;> rfl
  simp only [lookups, stageLookups, core]
  rfl

/-- Each shader holds of the table what it asked for. -/
def HoldsOf (m : Material) (t : LocationTable) : Prop :=
  ∀ l ∈ m.lookups, m.held l.holder = t.select l.uniforms l.attributes

theorem holdsOf_withLocations (distinct : m.Distinct) (t : LocationTable) :
    (m.withLocations t).HoldsOf t := by
  intro l asks
  rw [lookups_withLocations] at asks
  show keep t m.lookups m.held l.holder = _
  unfold keep
  cases first : m.lookups.find? (·.holder == l.holder) with
  | none =>
    have missing := List.find?_eq_none.mp first l asks
    simp at missing
  | some k =>
    have same : k.holder = l.holder := by simpa using List.find?_some first
    rw [lookups_unique distinct (List.mem_of_find?_eq_some first) asks same]

theorem SameBuild.lookups (same : m.SameBuild n) : n.lookups = m.lookups := by
  have effects : n.effects.map Effect.parts = m.effects.map Effect.parts :=
    congrArg Configuration.effects same.configuration
  have asked (stage : Stage) (effects : List Effect) :
      (effects.filterMap fun e => effectLookup e stage) =
        (effects.map Effect.parts).filterMap fun p =>
          (p.fragment? stage).map fun f => ⟨.effect p.id stage, f.uniforms, f.attributes⟩ := by
    rw [List.filterMap_map]
    congr 1
    funext e
    simp only [effectLookup, Function.comp_apply, Effect.fragment?_parts]
    rfl
  have core (stage : Stage) : n.coreLookup stage = m.coreLookup stage := by
    cases stage <;> simp only [coreLookup, same.shaderFeatures, same.samplers]
  simp only [Material.lookups, stageLookups, core, asked, effects]

theorem SameBuild.holdsOf (same : m.SameBuild n) {t : LocationTable} (holds : m.HoldsOf t) :
    n.HoldsOf t := by
  intro l asks
  rw [same.lookups] at asks
  rw [same.held]
  exact holds l asks

end Material

end ShaderComposer
