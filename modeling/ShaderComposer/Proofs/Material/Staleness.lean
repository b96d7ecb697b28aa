import ShaderComposer.Proofs.Material.Accounting
import ShaderComposer.Proofs.Material.Freshness
import ShaderComposer.Proofs.Material.NewMaterial

/-!
# Stale programs

Once a program is invalidated it stays refused: whatever is composed, rejected or changed, until a
program is linked again or released, calls answer that it is stale and the backend is not asked for
anything (`World.refuses_of_invalidated`).
-/

namespace ShaderComposer

namespace Material

variable {m n : Material} {b c : Backend} {links : List Link}

/-! ### Refusals -/

/-- The material has a program that calls refuse. -/
def Stale (m : Material) (b : Backend) : Prop :=
  match m.program with
  | .none => False
  | .retired _ | .invalidated => True
  | .live p => p.generation < b.contextGeneration ∨ p.version < m.version

/-- All calls on the program answer that it is stale, an activation that it was skipped, and
nothing is recorded. -/
structure Refuses (m : Material) (b : Backend) : Prop where
  frame : ∀ call : FrameCall, (call.perform m b).result = .error (.staleProgram m.name) ∧
    (call.perform m b).backend = b
  linkLocations : (m.linkLocations b).result = .error (.staleProgram m.name) ∧
    (m.linkLocations b).backend = b
  activate : (m.activate b).result = .ok .skipped ∧ (m.activate b).backend = b

theorem Stale.liveProgram (stale : m.Stale b) (required : BuildState) :
    ∃ n log, m.liveProgram b required = (.error (.staleProgram m.name), n, log) := by
  unfold Stale at stale
  unfold Material.liveProgram
  cases program : m.program with
  | none => simp [program] at stale
  | invalidated => exact ⟨_, _, rfl⟩
  | retired p => exact ⟨_, _, rfl⟩
  | live p =>
    dsimp only
    split
    · exact ⟨_, _, rfl⟩
    · next generation =>
      simp only [program] at stale
      have older := stale.resolve_left fun lt => generation (Nat.ne_of_lt lt)
      rw [if_pos (UInt64.ne_of_lt older)]
      exact ⟨_, _, rfl⟩

theorem Stale.withProgram (stale : m.Stale b) {α : Type} {required : BuildState}
    {act : Nat → Material → Outcome α} :
    (m.withProgram b required act).result = .error (.staleProgram m.name) ∧
      (m.withProgram b required act).backend = b := by
  obtain ⟨n, log, given⟩ := stale.liveProgram required
  simp only [Material.withProgram, given, and_self]

theorem Stale.refuses (stale : m.Stale b) : m.Refuses b where
  frame call := by
    have mapped {α : Type} {f : α → Reply} {o : Outcome α}
        (refused : o.result = .error (.staleProgram m.name) ∧ o.backend = b) :
        (o.map f).result = .error (.staleProgram m.name) ∧ (o.map f).backend = b :=
      ⟨by simp only [Outcome.map, refused.1, Except.map], refused.2⟩
    cases call <;> exact mapped stale.withProgram
  linkLocations := stale.withProgram
  activate := by
    have used : (m.useProgram b).result = .error (.staleProgram m.name) ∧
        (m.useProgram b).backend = b := stale.withProgram
    unfold Material.activate
    simp only [used.1]
    exact ⟨trivial, used.2⟩

theorem notLinked_of_program_none (none : m.program = .none) :
    (FrameCall.useProgram.perform m b).result = .error (.notLinked m.name) := by
  simp only [FrameCall.perform, Outcome.map, useProgram, withProgram, liveProgram, none]
  rfl

/-! ### Staying stale -/

theorem stale_of_not_live (has : m.program ≠ .none) (dead : ∀ p, m.program ≠ .live p) :
    m.Stale b := by
  unfold Stale
  cases program : m.program with
  | none => exact absurd program has
  | live p => exact absurd program (dead p)
  | retired p => trivial
  | invalidated => trivial

theorem Stale.program_ne_none (stale : m.Stale b) : m.program ≠ .none := by
  intro none
  simp [Stale, none] at stale

/-- The same program is as stale as before if neither version nor generation went back. -/
theorem Stale.mono (stale : m.Stale b) (program : n.program = m.program)
    (version : m.version ≤ n.version) (generation : b.contextGeneration ≤ c.contextGeneration) :
    n.Stale c := by
  unfold Stale at stale ⊢
  rw [program]
  cases before : m.program with
  | none => simp [before] at stale
  | retired p => trivial
  | invalidated => trivial
  | live p =>
    simp only [before] at stale
    exact stale.imp (fun lt => Nat.lt_of_lt_of_le lt generation)
      (fun lt => UInt64.lt_of_lt_of_le lt version)

theorem contextLost_ne_none (has : m.program ≠ .none) : m.contextLost.program ≠ .none := by
  simp [contextLost, has]

theorem not_live_retire (m : Material) (p : LinkedProgram) : m.retire.program ≠ .live p := by
  unfold retire
  split
  · simp
  · next dead => exact dead p

theorem retire_ne_none (has : m.program ≠ .none) : m.retire.program ≠ .none := by
  unfold retire
  split
  · simp
  · exact has

theorem Stale.changed (stale : m.Stale b) {π : Permit} (noRelink : ¬ π.relink)
    (noRelease : ¬ π.release) (change : Change π m b links n c) : n.Stale c := by
  have has := stale.program_ne_none
  have kept := Nat.le_of_eq change.contextGeneration.symm
  cases change with
  | adjusted _ same _ => exact stale.mono same.program (same.version ▸ UInt64.le_refl _) kept
  | composed _ | notComposed _ _ | bound _ _ _ => exact stale.mono rfl (UInt64.le_refl _) kept
  | rejected _ => exact stale_of_not_live (retire_ne_none has) m.not_live_retire
  | linked may _ _ _ => exact absurd may noRelink
  | lost _ | dropped _ => exact stale_of_not_live (contextLost_ne_none has) m.not_live_contextLost
  | released may => exact absurd may noRelease

/-! ### Having a program -/

theorem Change.program_ne_none {π : Permit} (noRelease : ¬ π.release)
    (change : Change π m b links n c) (has : m.program ≠ .none) : n.program ≠ .none := by
  cases change with
  | adjusted _ same _ => exact same.program ▸ has
  | composed _ | notComposed _ _ | bound _ _ _ => exact has
  | rejected _ => exact retire_ne_none has
  | linked _ _ _ _ => simp [withLinked]
  | lost _ | dropped _ => exact contextLost_ne_none has
  | released may => exact absurd may noRelease

theorem Changes.program_ne_none {π : Permit} (noRelease : ¬ π.release)
    (changes : Changes π m b links n c) (has : m.program ≠ .none) : n.program ≠ .none := by
  induction changes with
  | none => exact has
  | next change _ ih => exact ih (Change.program_ne_none noRelease change has)

theorem build_program_ne_none {handle : Nat} (ok : (m.build b).result = .ok handle) :
    (m.build b).material.program ≠ .none := by
  rcases m.build_cases b with ⟨_, _, failed, _⟩ | ⟨_, o, _, rfl, ⟨_, _, failed, _⟩ |
    ⟨linked, compiled, _, material, _⟩⟩
  · rw [failed] at ok
    cases ok
  · rw [failed] at ok
    cases ok
  · obtain ⟨n, made⟩ := compile_ok compiled
    rw [material]
    refine Changes.program_ne_none (π := ⟨False, False, False, False⟩) not_false
      (linkLocations_changes _ _) ?_
    simp [made, withLinked]

end Material

theorem Operation.Relinks.program_ne_none {m : Material} {b : Backend} {op : Operation}
    (relinks : op.Relinks m b) : (op.perform m b).material.program ≠ .none := by
  obtain ⟨rfl | rfl, handle, ok⟩ := relinks
  · have compiled : (m.compile b).result = .ok handle := by
      cases given : (m.compile b).result with
      | error e => simp [perform, Outcome.map, given, Except.map] at ok
      | ok h => simpa [perform, Outcome.map, given, Except.map] using ok
    obtain ⟨n, made⟩ := Material.compile_ok compiled
    show (m.compile b).material.program ≠ .none
    simp [made, Material.withLinked]
  · have built : (m.build b).result = .ok handle := by
      cases given : (m.build b).result with
      | error e => simp [perform, Outcome.map, given, Except.map] at ok
      | ok h => simpa [perform, Outcome.map, given, Except.map] using ok
    exact Material.build_program_ne_none built

/-! ### Invalidation -/

namespace Material

variable {m n : Material} {b c : Backend}

theorem stale_of_mutated (has : m.program ≠ .none)
    (version : ∀ p, m.ownedProgram = some p → p.version ≤ m.version) (mutated : m.Mutated n)
    (grows : m.version < n.version) : n.Stale b := by
  unfold Stale
  rw [mutated.program]
  cases program : m.program with
  | none => exact absurd program has
  | retired p => trivial
  | invalidated => trivial
  | live p => exact Or.inr (UInt64.lt_of_le_of_lt (version p (ownedProgram_live program)) grows)

theorem compile_of_rejection (rejected : (m.rejection? b).isSome = true) :
    (∃ e, (m.compile b).result = .error e) ∧
      ∃ n : Material, n.program = m.program ∧ (m.compile b).material = n.retire := by
  unfold rejection? at rejected
  cases m.compile_ends b with
  | uncomposed _ submits | crowded _ submits => simp [submits] at rejected
  | rejected _ _ _ _ result material =>
    exact ⟨⟨_, result⟩, _, m.program_ensureComposed b, material⟩
  | linked _ _ _ submits linking => simp [submits, linking] at rejected

theorem stale_of_rejection (has : m.program ≠ .none) (rejected : (m.rejection? b).isSome = true) :
    (m.compile b).material.Stale c := by
  obtain ⟨_, n, program, made⟩ := compile_of_rejection rejected
  rw [made]
  exact stale_of_not_live (retire_ne_none (program ▸ has)) n.not_live_retire

theorem stale_build_of_rejection (has : m.program ≠ .none)
    (rejected : (Operation.build.rejection? m b).isSome = true) : (m.build b).material.Stale c := by
  unfold Operation.rejection? at rejected
  rcases m.build_cases b with ⟨_, composed, _⟩ | ⟨_, o, composed, rfl, rest⟩
  · simp [composed] at rejected
  · simp only [composed] at rejected
    obtain ⟨⟨e, failed⟩, _⟩ := compile_of_rejection rejected
    rcases rest with ⟨_, _, _, material, _⟩ | ⟨_, compiled, _⟩
    · rw [material]
      exact stale_of_rejection (m.program_compose b ▸ has) rejected
    · rw [failed] at compiled
      cases compiled

end Material

theorem Operation.Invalidates.stale {m : Material} {b : Backend} {op : Operation}
    (invalidates : op.Invalidates m b) (has : m.program ≠ .none)
    (version : ∀ p, m.ownedProgram = some p → p.version ≤ m.version)
    (grows : m.version ≤ (op.perform m b).material.version) :
    (op.perform m b).material.Stale (op.perform m b).backend := by
  have mutated (mutated : m.Mutated (op.perform m b).material) :
      (op.perform m b).material.Stale (op.perform m b).backend := by
    refine Material.stale_of_mutated has version mutated ?_
    rw [mutated.version] at grows ⊢
    exact UInt64.lt_of_le_of_ne grows (add_one_ne _).symm
  have taken {n : Material} {done : Prop} (same : n = (op.perform m b).material)
      (cases : (done ∧ m.Invalidated n) ∨ (¬ done ∧ n = m)) (yes : done) :
      (op.perform m b).material.Stale (op.perform m b).backend := by
    subst same
    exact mutated (cases.resolve_right fun both => both.1 yes).2.mutated
  cases op with
  | setFeatures features =>
    exact mutated (Material.mutated_updateSettings
      (f := fun s => { s with features := features }) invalidates)
  | updateSettings f => exact mutated (Material.mutated_updateSettings invalidates)
  | addTexture t => exact taken rfl (m.addTexture_cases t) invalidates
  | removeTexture name => exact taken rfl (m.removeTexture_cases name) invalidates
  | addEffect e => exact taken rfl (m.addEffect_cases e) invalidates
  | removeEffect id => exact taken rfl (m.removeEffect_cases id) invalidates
  | clearEffects => exact taken rfl m.clearEffects_cases invalidates
  | contextLost =>
    exact Material.stale_of_not_live (Material.contextLost_ne_none has) m.not_live_contextLost
  | compile => exact Material.stale_of_rejection has invalidates
  | build => exact Material.stale_build_of_rejection has invalidates
  | _ => simp [Operation.Invalidates, Operation.rejection?] at invalidates

/-! ### Runs -/

namespace World

variable {w : World} {i : Nat}

/-- What is permitted to one material, while others may do anything. -/
def permitAt (i : Nat) (π : Permit) (j : Nat) : Permit := if j = i then π else .any

/-- A property of one material that its own mutations and changes keep, and that depends on other
materials only through the context of the backend. -/
theorem preserved_at {π : Permit} {Q : Material → Backend → Prop}
    (mutated : ∀ {m n b}, Q m b → m.Mutated n → (π.wrap ∨ m.version < n.version) → Q n b)
    (changed : ∀ {m n b c links}, Q m b → Change π m b links n c → Q n c)
    (elsewhere : ∀ {m} {b c : Backend}, Q m b → c.contextGeneration = b.contextGeneration → Q m c)
    (contextLost : ∀ {m} {b : Backend}, Q m b → Q m b.loseContext) :
    Preserved (permitAt i π) fun w _ => ∃ m, w.materials[i]? = some m ∧ Q m w.backend where
  mutated {w _ j m n} holds present changes grows := by
    obtain ⟨o, found, holds⟩ := holds
    by_cases same : j = i
    · subst same
      obtain rfl := Option.some.inj (present.symm.trans found)
      rw [permitAt, if_pos rfl] at grows
      exact ⟨n, getElem?_put_self present, mutated holds changes grows⟩
    · exact ⟨o, (getElem?_put_ne (Ne.symm same)).trans found, holds⟩
  changed {w _ _ j m n c} holds present change := by
    obtain ⟨o, found, holds⟩ := holds
    by_cases same : j = i
    · subst same
      obtain rfl := Option.some.inj (present.symm.trans found)
      rw [permitAt, if_pos rfl] at change
      exact ⟨n, getElem?_put_self present, changed holds change⟩
    · exact ⟨o, (getElem?_put_ne (Ne.symm same)).trans found,
        elsewhere holds change.contextGeneration⟩
  contextLost holds := by
    obtain ⟨o, found, holds⟩ := holds
    exact ⟨o, found, contextLost holds⟩
  failing _ _ holds := by
    obtain ⟨o, found, holds⟩ := holds
    exact ⟨o, found, elsewhere holds rfl⟩

theorem generation_le_loseContext (b : Backend) :
    b.contextGeneration ≤ b.loseContext.contextGeneration := by
  cases plain : b.plain <;> simp [Backend.contextGeneration, Backend.loseContext, plain]

/-- Nothing but a release takes the program away. -/
theorem preserved_program_ne_none (i : Nat) :
    Preserved (permitAt i ⟨True, True, False, True⟩) fun w _ =>
      ∃ m, w.materials[i]? = some m ∧ m.program ≠ .none :=
  preserved_at (Q := fun m _ => m.program ≠ .none)
    (fun has mutated _ => mutated.program ▸ has)
    (fun has change => Material.Change.program_ne_none not_false change has)
    (fun has _ => has) (fun has => has)

/-- Nothing but a new program or a release ends staleness. -/
theorem preserved_stale (i : Nat) :
    Preserved (permitAt i ⟨False, True, False, False⟩) fun w _ =>
      ∃ m, w.materials[i]? = some m ∧ m.Stale w.backend :=
  preserved_at (Q := Material.Stale)
    (fun stale mutated grows =>
      stale.mono mutated.program (UInt64.le_of_lt (grows.resolve_left not_false)) (Nat.le_refl _))
    (fun stale change => stale.changed not_false not_false change)
    (fun stale same => stale.mono rfl (UInt64.le_refl _) (Nat.le_of_eq same.symm))
    (fun stale => stale.mono rfl (UInt64.le_refl _) (generation_le_loseContext _))

/-- What only one material must keep to is asked of its own steps only. -/
theorem permits_permitAt {π : Permit} {s : Step}
    (own : ∀ op m, s = .material i op → w.materials[i]? = some m →
      op.Permitted π m w.backend ∧
        (π.wrap ∨ m.version ≤ (op.perform m w.backend).material.version)) :
    w.Permits (permitAt i π) s := by
  cases s with
  | loseContext => trivial
  | failNextCompile stage log => trivial
  | material j op =>
    intro m present
    by_cases same : j = i
    · subst same
      rw [permitAt, if_pos rfl]
      exact own op m rfl present
    · rw [permitAt, if_neg same]
      exact ⟨op.permitted_any m w.backend, Or.inl trivial⟩

/-- The step neither links a program for the material nor releases it. -/
def Leaves (i : Nat) (w : World) (s : Step) : Prop := ¬ w.Relinks i s ∧ s ≠ .material i .release

theorem permits_of_leaves {s : Step} (leaves : w.Leaves i s) (grows : w.Grows s) :
    w.Permits (permitAt i ⟨False, True, False, False⟩) s := by
  refine permits_permitAt fun op m own present => ?_
  subst own
  exact ⟨⟨fun relinks => leaves.1 ⟨rfl, m, present, relinks⟩, fun _ => Or.inl trivial,
    fun release => leaves.2 (release ▸ rfl)⟩, Or.inr (grows m present)⟩

theorem permits_of_ne_release {s : Step} (unreleased : s ≠ .material i .release) :
    w.Permits (permitAt i ⟨True, True, False, True⟩) s := by
  refine permits_permitAt fun op m own _ => ?_
  subst own
  exact ⟨⟨fun _ => trivial, fun _ => Or.inl trivial, fun release => unreleased (release ▸ rfl)⟩,
    Or.inl trivial⟩

theorem Along.of_forall {P : World → Step → Prop} {steps : List Step}
    (each : ∀ s ∈ steps, ∀ w, P w s) : w.Along P steps := by
  induction steps generalizing w with
  | nil => trivial
  | cons s rest ih =>
    exact ⟨each s List.mem_cons_self w, ih fun r mem => each r (List.mem_cons_of_mem _ mem)⟩

theorem Along.and {P Q : World → Step → Prop} {steps : List Step} (first : w.Along P steps)
    (second : w.Along Q steps) : w.Along (fun w s => P w s ∧ Q w s) steps := by
  induction steps generalizing w with
  | nil => trivial
  | cons s rest ih => exact ⟨⟨first.1, second.1⟩, ih first.2 second.2⟩

theorem Relinks.program_ne_none {s : Step} (relinks : w.Relinks i s) :
    ∃ m, (w.step s).materials[i]? = some m ∧ m.program ≠ .none := by
  cases s with
  | material j op =>
    obtain ⟨rfl, m, present, relinks⟩ := relinks
    rw [step_material present]
    exact ⟨_, getElem?_put_self present, relinks.program_ne_none⟩
  | loseContext => exact relinks.elim
  | failNextCompile stage log => exact relinks.elim

/-- As long as no version wraps, programs are of versions that their materials had. -/
theorem version_le_run {materials : List (String × Settings)} {limit : Nat} {steps : List Step}
    (grows : (fresh materials limit).Along Grows steps) (i : Nat) (m : Material)
    (present : ((fresh materials limit).run steps).materials[i]? = some m) :
    ∀ p, m.ownedProgram = some p → p.version ≤ m.version := by
  have preserved := preserved_each (π := growingPermit)
    (Q := fun m => ∀ p, m.ownedProgram = some p → p.version ≤ m.version)
    (fun older mutated grows p owned =>
      have before := older p (Material.ownedProgram_congr mutated.program ▸ owned)
      UInt64.le_trans before (UInt64.le_of_lt (grows.resolve_left not_false)))
    (fun older change => change.version_le older)
  refine preserved.run [] (fun i m present p owned => ?_) (grows.imp fun _ _ => permits_of_grows) i m
    present
  obtain ⟨name, settings, rfl⟩ := exists_of_fresh present
  cases owned

theorem Dated.stale (dated : w.Dated) {m : Material} (present : w.materials[i]? = some m)
    (has : m.program ≠ .none) (older : ∀ p, m.ownedProgram = some p → p.version ≤ m.version)
    {s : Step} (invalidates : w.Invalidates i s) (grows : w.Grows s) :
    ∃ n, (w.step s).materials[i]? = some n ∧ n.Stale (w.step s).backend := by
  cases s with
  | failNextCompile stage log => exact invalidates.elim
  | loseContext =>
    refine ⟨m, present, ?_⟩
    unfold Material.Stale
    cases program : m.program with
    | none => exact absurd program has
    | retired p => trivial
    | invalidated => trivial
    | live p =>
      left
      exact dated.lt_loseContext ((owns_self present).mpr (Material.ownedProgram_live program))
  | material j op =>
    obtain ⟨rfl, m', again, invalidates⟩ := invalidates
    obtain rfl := Option.some.inj (present.symm.trans again)
    rw [step_material present]
    exact ⟨_, getElem?_put_self present, invalidates.stale has older (grows m present)⟩

/-- A program that was linked and not released is refused from its invalidation until a program is
linked again or released. -/
theorem refuses_of_invalidated {materials : List (String × Settings)} {limit : Nat}
    {earlier since later : List Step} {link event : Step}
    (few : ∀ i, (fresh materials limit).mutations i
      (earlier ++ (link :: since) ++ (event :: later)) < UInt64.size)
    {i : Nat} {w₁ w₂ w₃ : World}
    (reached₁ : (fresh materials limit).run earlier = w₁) (relinks : w₁.Relinks i link)
    (reached₂ : w₁.run (link :: since) = w₂) (unreleased : .material i .release ∉ since)
    (invalidates : w₂.Invalidates i event) (reached₃ : w₂.run (event :: later) = w₃)
    (left : (w₂.step event).Along (Leaves i) later) {m : Material}
    (present : w₃.materials[i]? = some m) : m.Refuses w₃.backend := by
  have grows := grows_fresh materials limit _ few
  obtain ⟨before, after⟩ := along_append.mp grows
  have dated := dated_run materials limit (earlier ++ (link :: since))
  have older := version_le_run before i
  rw [run_append, reached₁, reached₂] at after dated older
  obtain ⟨n, found, has⟩ : ∃ n, w₂.materials[i]? = some n ∧ n.program ≠ .none := by
    have kept := (preserved_program_ne_none i).run [] relinks.program_ne_none
      (Along.of_forall fun s (mem : s ∈ since) _ =>
        permits_of_ne_release fun release => unreleased (release ▸ mem))
    rw [← reached₂]
    exact kept
  have stale := dated.stale found has (older n found) invalidates after.1
  obtain ⟨o, last, stale⟩ := (preserved_stale i).run [] stale
    ((left.and after.2).imp fun _ _ both => permits_of_leaves both.1 both.2)
  have same : w₃ = (w₂.step event).run later := reached₃.symm
  rw [same] at present ⊢
  obtain rfl := Option.some.inj (last.symm.trans present)
  exact stale.refuses

theorem refuses_after_loss_and_compose :
    (fresh [("m", {})] 8).Relinks 0 (.material 0 .build) ∧
      ∃ m, ((fresh [("m", {})] 8).run
          [.material 0 .build, .loseContext, .material 0 .compose]).materials[0]? = some m ∧
        m.Refuses ((fresh [("m", {})] 8).run
          [.material 0 .build, .loseContext, .material 0 .compose]).backend := by
  have few (i : Nat) : (fresh [("m", {})] 8).mutations i
      ([] ++ [.material 0 .build] ++ [.loseContext, .material 0 .compose]) < UInt64.size :=
    Nat.lt_of_le_of_lt (mutations_le_length i _ _) (by decide)
  have relinks := relinks_of_build (getElem?_fresh "m" 8) (Material.build_create "m" rfl)
  have kept := relinks.program_ne_none
  obtain ⟨w, start⟩ : ∃ w, w = fresh [("m", {})] 8 := ⟨_, rfl⟩
  rw [← start] at relinks kept ⊢
  obtain ⟨m, present, has⟩ := kept
  have left : ((w.run [.material 0 .build]).step .loseContext).Along (Leaves 0)
      [.material 0 .compose] := by
    refine ⟨⟨?_, by simp⟩, trivial⟩
    rintro ⟨_, m, _, compiles | builds, _⟩
    · cases compiles
    · cases builds
  have last : (w.run [.material 0 .build, .loseContext, .material 0 .compose]).materials[0]? =
      some (m.compose (w.step (.material 0 .build)).backend.loseContext).material := by
    have lost : ((w.step (.material 0 .build)).step .loseContext).materials[0]? = some m := present
    show (((w.step (.material 0 .build)).step .loseContext).step
      (.material 0 .compose)).materials[0]? = _
    rw [step_material lost, getElem?_put_self lost]
    rfl
  exact ⟨relinks, _, last, refuses_of_invalidated few
    (show (fresh [("m", {})] 8).run [] = w from start.symm) relinks
    (show w.run [.material 0 .build] = _ from rfl) List.not_mem_nil trivial rfl left last⟩

/-- After a release there is no program, and an invalidation does not make one: calls answer that
nothing is linked. -/
theorem notLinked_of_invalidated_after_release :
    (fresh [("m", {})] 8).Relinks 0 (.material 0 .build) ∧
      ((fresh [("m", {})] 8).run [.material 0 .build, .material 0 .release]).Invalidates 0
        (.material 0 (.addEffect (.fog {}))) ∧
      ∃ m, ((fresh [("m", {})] 8).run [.material 0 .build, .material 0 .release,
          .material 0 (.addEffect (.fog {}))]).materials[0]? = some m ∧
        (FrameCall.useProgram.perform m ((fresh [("m", {})] 8).run [.material 0 .build,
          .material 0 .release, .material 0 (.addEffect (.fog {}))]).backend).result =
            .error (.notLinked m.name) := by
  have relinks := relinks_of_build (getElem?_fresh "m" 8) (Material.build_create "m" rfl)
  have present := getElem?_fresh "m" 8
  obtain ⟨w, start⟩ : ∃ w, w = fresh [("m", {})] 8 := ⟨_, rfl⟩
  rw [← start] at relinks present ⊢
  obtain ⟨m, created⟩ : ∃ m, m = Material.create "m" {} := ⟨_, rfl⟩
  rw [← created] at present
  have free : (m.build w.backend).material.effects = [] := by
    have changes := m.build_changes (π := .any) w.backend fun _ => trivial
    have same := Material.ids_congr changes.configuration
    rw [created] at same ⊢
    exact List.map_eq_nil_iff.mp same
  have built : (w.step (.material 0 .build)).materials[0]? = some (m.build w.backend).material := by
    rw [step_material present, getElem?_put_self present]
    rfl
  have released : ((w.step (.material 0 .build)).step (.material 0 .release)).materials[0]? =
      some ((m.build w.backend).material.release (w.step (.material 0 .build)).backend).1 := by
    rw [step_material built, getElem?_put_self built]
    rfl
  have new : (((m.build w.backend).material.release
      (w.step (.material 0 .build)).backend).1.addEffect (.fog {})).1 = true := by
    simp [Material.addEffect, Material.hasEffect, Material.release, free]
  have gone : (((m.build w.backend).material.release
      (w.step (.material 0 .build)).backend).1.addEffect (.fog {})).2.1.program = .none := by
    simp [Material.addEffect, Material.hasEffect, Material.release, free, Material.invalidate]
  refine ⟨relinks, ⟨rfl, _, released, new⟩, _, ?_, Material.notLinked_of_program_none gone⟩
  show (((w.step (.material 0 .build)).step (.material 0 .release)).step
    (.material 0 (.addEffect (.fog {})))).materials[0]? = _
  rw [step_material released, getElem?_put_self released]
  rfl

end World

end ShaderComposer
