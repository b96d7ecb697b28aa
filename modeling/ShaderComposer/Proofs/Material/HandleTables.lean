import ShaderComposer.Proofs.Material.Locations
import ShaderComposer.Proofs.Material.ReportedState

/-!
# The program that a table of locations is of

The table of a material is filled by looking up locations and stays as it is until it is cleared.
It is the table of the program that was live then. Everything that gives up the program clears the
table, but for one: compiling what is composed already links a new program and keeps the table of
the old one. Until locations are looked up again no call of a frame succeeds, so nothing is drawn
with such a table.
-/

namespace ShaderComposer

/-! ### Filling a table -/

section

variable {β : Type} [GraphicsBackend β] {m : Material} {b : β}

/-- The table of the material is the one of its live program. -/
def Material.Filled (m : Material) (b : β) : Prop :=
  ∃ p, m.program = .live p ∧ m.locations = (m.lookUpOn b p.handle).1

theorem Material.lookUpOn_withLocations (m : Material) (t : LocationTable) (b : β) (program : Nat) :
    (m.withLocations t).lookUpOn b program = m.lookUpOn b program := by
  rw [lookUpOn, lookups_withLocations, lookUpOn]

theorem Material.filled_linkLocationsOn (ok : ∃ a, (m.linkLocationsOn b).result = .ok a) :
    (m.linkLocationsOn b).material.Filled (m.linkLocationsOn b).backend := by
  rcases m.linkLocationsOn_cases b with ⟨p, live, _, _, given⟩ | ⟨failed, _⟩
  · rw [given]
    exact ⟨p, live, by rw [lookUpOn_withLocations]; rfl⟩
  · exact absurd ok failed

theorem Material.filled_buildOn (ok : ∃ a, (m.buildOn b).result = .ok a) :
    (m.buildOn b).material.Filled (m.buildOn b).backend := by
  obtain ⟨handle, ok⟩ := ok
  obtain ⟨c, _, finished, material, backend⟩ := OutcomeOn.of_result_andThen ok
  obtain ⟨linked, _, located, finishedMaterial, finishedBackend⟩ :=
    OutcomeOn.of_result_andThen finished
  obtain ⟨a, last, _, lastMaterial, lastBackend⟩ := OutcomeOn.of_result_andThen located
  have filled := filled_linkLocationsOn ⟨a, last⟩
  rw [buildOn, material, backend, finishOn, finishedMaterial, finishedBackend, lastMaterial,
    lastBackend]
  exact filled

theorem LocationTable.resolveEach_ne_nil {look : LocationTable → String → LocationTable × List LogRecord}
    (keeps : ∀ t name, t.uniforms ≠ [] → (look t name).1.uniforms ≠ []) {t : LocationTable}
    (some : t.uniforms ≠ []) (names : List String) :
    (resolveEach look names t).1.uniforms ≠ [] := by
  induction names generalizing t with
  | nil => exact some
  | cons name rest ih => exact ih (keeps t name some)

theorem LocationTable.learnUniform_ne_nil (t : LocationTable) (name : String) (l : Location) :
    (t.learnUniform name l).1.uniforms ≠ [] := by
  unfold learnUniform
  split
  · next known =>
    intro empty
    rw [empty] at known
    cases known
  · simp

theorem LocationTable.resolveOn_ne_nil {t : LocationTable} {uniforms : List String}
    (some : uniforms ≠ [] ∨ t.uniforms ≠ []) (program : Nat) (attributes : List String) :
    (t.resolveOn b program uniforms attributes).1.uniforms ≠ [] := by
  have bind (t : LocationTable) (name : String) (known : t.uniforms ≠ []) :
      (t.learnAttribute name (GraphicsBackend.attributeLocation b program name)).1.uniforms ≠ [] := by
    unfold learnAttribute
    split <;> exact known
  refine resolveEach_ne_nil bind ?_ attributes
  cases uniforms with
  | nil => exact some.resolve_left (· rfl)
  | cons name rest =>
    exact resolveEach_ne_nil (fun t name _ => t.learnUniform_ne_nil name _)
      (t.learnUniform_ne_nil name _) rest

/-- The core vertex shader asks for something, so a table that was filled is not empty. -/
theorem Material.lookUpOn_ne_empty (m : Material) (b : β) (program : Nat) :
    (m.lookUpOn b program).1 ≠ .empty := by
  have later (lookups : List Lookup) {t : LocationTable} (some : t.uniforms ≠ []) :
      (resolveAllOn b program lookups t).1.uniforms ≠ [] := by
    induction lookups generalizing t with
    | nil => exact some
    | cons l rest ih => exact ih (LocationTable.resolveOn_ne_nil (Or.inr some) program l.attributes)
  have first : (m.coreLookup .vertex).uniforms ≠ [] := by
    simp [coreLookup, CoreVertex.uniforms]
  intro empty
  have filled := later (m.effects.filterMap (fun e => effectLookup e .vertex) ++ m.stageLookups .fragment)
    (LocationTable.resolveOn_ne_nil (b := b) (t := .empty) (Or.inl first) program
      (m.coreLookup .vertex).attributes)
  exact filled (congrArg LocationTable.uniforms empty)

/-- Looking up all locations leaves the table of the live program. -/
theorem Operation.LocatesOn.filled {op : Operation} (locates : op.LocatesOn m b) :
    (op.performOn m b).material.Filled (op.performOn m b).backend := by
  obtain ⟨rfl | rfl, ok⟩ := locates
  · exact Material.filled_linkLocationsOn (OutcomeOn.map_ok_iff.mp ok)
  · exact Material.filled_buildOn (OutcomeOn.map_ok_iff.mp ok)

end

/-! ### Deeds that keep a table -/

namespace Deed

/-- A deed fills the table of locations, clears it, or keeps it. One that keeps it links no program
and gives none up, but for compiling what is composed already. -/
theorem fills_clears_or_keeps {d : Deed} {s : Standing} (fits : d.Fits s) :
    d.locates = true ∨ (d.effect s).locations = .empty ∨
      ((d.effect s).locations = s.locations ∧
        ((d.links = false ∧ (d.effect s).program.owned = s.program.owned ∧
            ((d.effect s).progress = .bound → s.progress = .bound)) ∨
          ∃ p, d = .linked false p)) := by
  cases d with
  | located _ | built _ _ => exact Or.inl rfl
  | mutated | composed | told | released | detected => exact Or.inr (Or.inl rfl)
  | kept | resettled | refused => exact Or.inr (Or.inr ⟨rfl, Or.inl ⟨rfl, rfl, id⟩⟩)
  | uncomposed reached =>
    refine Or.inr (Or.inr ⟨rfl, Or.inl ⟨rfl, rfl, fun (bound : reached = .bound) => ?_⟩⟩)
    rcases fits with rfl | rfl <;> cases bound
  | linked anew p =>
    cases anew with
    | true => exact Or.inr (Or.inl rfl)
    | false => exact Or.inr (Or.inr ⟨rfl, Or.inr ⟨p, rfl⟩⟩)
  | rejected anew =>
    cases anew with
    | true => exact Or.inr (Or.inl rfl)
    | false =>
      exact Or.inr (Or.inr ⟨rfl, Or.inl ⟨rfl, s.program.owned_retire, id⟩⟩)

end Deed

/-! ### Runs -/

namespace Session

variable {β : Type} [GraphicsBackend β]

/-- The turn compiles what is composed already. -/
def Reuses (s : Session β) (t : Turn β) : Prop := t.op = .compile ∧ s.material.Composed

/-- The material since it looked up its locations. The table is kept; so is the program, unless what
was composed was compiled again, and then locations were not looked up yet. -/
structure Keeps (s : Session β) (after : List (Turn β)) (p : LinkedProgram) : Prop where
  locations : (s.run after).material.locations = s.material.locations
  turns : Throughout (fun s t => ¬ s.Locates t ∧ (s.Links t → s.Reuses t)) s after
  same : Throughout (fun s t => ¬ s.Links t) s after → (s.run after).material.ownedProgram = some p
  replaced : ¬ Throughout (fun s t => ¬ s.Links t) s after →
    (s.run after).material.ownedProgram ≠ none ∧ (s.run after).material.progress ≠ .bound

theorem Locates.locations_ne_empty {s : Session β} {t : Turn β} (located : s.Locates t) :
    (s.step t).material.locations ≠ .empty := by
  obtain ⟨p, _, table⟩ := located.filled
  exact fun empty => Material.lookUpOn_ne_empty _ _ _ (table.symm.trans empty)

theorem keeps_nil {s : Session β} {p : LinkedProgram} (live : s.material.program = .live p) :
    s.Keeps [] p :=
  ⟨rfl, trivial, fun _ => Material.ownedProgram_live live, fun linked => absurd trivial linked⟩

theorem Keeps.snoc {s : Session β} {after : List (Turn β)} {p : LinkedProgram}
    (keeps : s.Keeps after p) {t : Turn β}
    (some : (s.run (after ++ [t])).material.locations ≠ .empty)
    (unlocated : ¬ (s.run after).Locates t) : s.Keeps (after ++ [t]) p := by
  obtain ⟨d, does⟩ := (s.run after).exists_deed t
  have last : (s.run (after ++ [t])).material.standing = d.effect (s.run after).material.standing := by
    rw [run_append]
    exact does.standing
  have owned : (s.run (after ++ [t])).material.ownedProgram =
      (d.effect (s.run after).material.standing).program.owned := by
    rw [← Material.owned_standing, last]
  have progress : (s.run (after ++ [t])).material.progress =
      (d.effect (s.run after).material.standing).progress := by
    rw [← last]
    rfl
  have table : (s.run (after ++ [t])).material.locations =
      (d.effect (s.run after).material.standing).locations := by
    rw [← last]
    rfl
  have links : (s.run after).Links t ↔ d.links = true := does.links
  -- the turn neither looks locations up nor clears the table, so it keeps it
  rcases Deed.fills_clears_or_keeps does.fits with fills | clears | ⟨kept, how⟩
  · exact absurd (does.locates.mpr fills) unlocated
  · exact absurd (table.trans clears) some
  · have locations : (s.run (after ++ [t])).material.locations = s.material.locations :=
      (table.trans kept).trans keeps.locations
    rcases how with ⟨unlinked, sameOwner, unbound⟩ | ⟨q, linked⟩
    · have none : ¬ (s.run after).Links t := by
        rw [links, unlinked]
        exact Bool.false_ne_true
      refine ⟨locations, throughout_snoc.mpr ⟨keeps.turns, unlocated, fun link => absurd link none⟩,
        fun unlinkedAll => ?_, fun some => ?_⟩
      · rw [owned, sameOwner, Material.owned_standing]
        exact keeps.same (throughout_snoc.mp unlinkedAll).1
      · have before := keeps.replaced fun all => some (throughout_snoc.mpr ⟨all, none⟩)
        rw [owned, sameOwner, Material.owned_standing, progress]
        exact ⟨before.1, fun bound => before.2 (unbound bound)⟩
    · have shows : (s.run after).Links t := by
        rw [links, linked]
        rfl
      refine ⟨locations, throughout_snoc.mpr ⟨keeps.turns, unlocated, fun _ => does.reuses q linked⟩,
        fun unlinked => absurd shows (throughout_snoc.mp unlinked).2, fun _ => ?_⟩
      rw [owned, progress, linked]
      exact ⟨by simp [Deed.effect, Standing.link, ProgramState.owned],
        by simp [Deed.effect, Standing.link]⟩

/-- A turn that looks up no locations does not fill the table. -/
theorem locations_of_snoc {s : Session β} {turns : List (Turn β)} {t : Turn β}
    (unlocated : ¬ (s.run turns).Locates t)
    (some : (s.run (turns ++ [t])).material.locations ≠ .empty) :
    (s.run turns).material.locations ≠ .empty := by
  obtain ⟨d, does⟩ := (s.run turns).exists_deed t
  have last : (s.run (turns ++ [t])).material.locations =
      (d.effect (s.run turns).material.standing).locations := by
    rw [run_append, ← does.standing]
    rfl
  rcases Deed.fills_clears_or_keeps does.fits with fills | clears | ⟨kept, _⟩
  · exact absurd (does.locates.mpr fills) unlocated
  · exact absurd (last.trans clears) some
  · intro empty
    exact some ((last.trans kept).trans empty)

/-- Locations were last looked up in a turn of the run, in the program that was live then. -/
structure LookedUp (s : Session β) (before : List (Turn β)) (t : Turn β) (after : List (Turn β))
    (p : LinkedProgram) : Prop where
  locates : (s.run before).Locates t
  live : ((s.run before).step t).material.program = .live p
  table : ((s.run before).step t).material.locations =
    (((s.run before).step t).material.lookUpOn ((s.run before).step t).backend p.handle).1
  keeps : ((s.run before).step t).Keeps after p

theorem run_split (s : Session β) (before after : List (Turn β)) (t : Turn β) :
    s.run (before ++ t :: after) = ((s.run before).step t).run after :=
  s.run_append before (t :: after)

theorem exists_lookedUp {s : Session β} (empty : s.material.locations = .empty)
    {turns : List (Turn β)} (some : (s.run turns).material.locations ≠ .empty) :
    ∃ before t after p, turns = before ++ t :: after ∧ s.LookedUp before t after p := by
  induction turns using List.reverseRecOn with
  | nil => exact absurd empty some
  | append_singleton turns t ih =>
    by_cases located : (s.run turns).Locates t
    · obtain ⟨p, live, table⟩ := located.filled
      exact ⟨turns, t, [], p, rfl, located, live, table, keeps_nil live⟩
    · obtain ⟨before, u, after, p, split, looked⟩ := ih (locations_of_snoc located some)
      subst split
      have whole : s.run ((before ++ u :: after) ++ [t]) =
          ((s.run before).step u).run (after ++ [t]) := by
        rw [List.append_assoc, List.cons_append, run_split]
      rw [whole] at some
      rw [run_split] at located
      exact ⟨before, u, after ++ [t], p, by simp, looked.locates, looked.live, looked.table,
        looked.keeps.snoc some located⟩

/-- A table that is not empty is the one of the program that was live when locations were last
looked up. The material still has that program, unless it compiled again what was composed; it then
has another, and no call of a frame succeeds. -/
theorem locations_of_last_lookup (name : String) (settings : Settings) (b : β)
    (turns : List (Turn β)) :
    ((start name settings b).run turns).material.locations = .empty ∨
      ∃ before t after p, turns = before ++ t :: after ∧
        (start name settings b).LookedUp before t after p ∧
        (¬ Throughout (fun s t => ¬ s.Links t) (((start name settings b).run before).step t) after →
          ∀ (call : FrameCall) (c : β), ¬ ∃ reply, (call.performOn
            ((start name settings b).run turns).material c).result = .ok reply) := by
  by_cases empty : ((start name settings b).run turns).material.locations = .empty
  · exact Or.inl empty
  · obtain ⟨before, t, after, p, split, looked⟩ := exists_lookedUp rfl empty
    refine Or.inr ⟨before, t, after, p, split, looked, fun linked call c ok => ?_⟩
    obtain ⟨_, _, _, _, bound⟩ := (FrameCall.performOn_ok_iff _ _ _).mp ok
    rw [split, run_split] at bound
    exact (looked.keeps.replaced linked).2 bound

/-- After a build, compiling again links a new program and keeps the table of the old one: locations
were not looked up since. -/
theorem table_of_replaced_program :
    ((start "m" {} (Backend.create 8 false)).run [{ op := .build }]).Links { op := .compile } ∧
      ¬ ((start "m" {} (Backend.create 8 false)).run [{ op := .build }]).Locates
        { op := .compile } ∧
      ((start "m" {} (Backend.create 8 false)).run
        [{ op := .build }, { op := .compile }]).material.locations ≠ .empty := by
  have some := (locates_of_build (s := start "m" {} (Backend.create 8 false))
    (Material.build_create "m" rfl)).locations_ne_empty
  obtain ⟨c, p, ready⟩ := ready_start "m" 8
  simp only [run, List.foldl_cons, List.foldl_nil]
  obtain ⟨s, built⟩ : ∃ s, s = (start "m" {} (Backend.create 8 false)).step { op := .build } :=
    ⟨_, rfl⟩
  rw [← built] at some ready ⊢
  obtain ⟨links, handle, generation, material⟩ := ready.step_compile
  refine ⟨links, fun locates => ?_, ?_⟩
  · rcases locates.1 with other | other <;> cases other
  · rw [material]
    exact some

end Session

end ShaderComposer
