import ShaderComposer.Proofs.Material.Custody

/-!
# Accounting for programs

If materials are only told of context losses that happened, and fewer programs were linked than there
are handles, the programs that are alive are exactly those that materials have of the present context
(`World.accounted_run`), and whatever is deleted was alive (`World.along_deletesAlive`).
-/

namespace ShaderComposer

/-! ### Deletions -/

theorem Change.calls {π : Permit} {m n : Material} {b c : Backend} {links : List Link}
    (noRelink : ¬ π.relink) (noRelease : ¬ π.release) (change : Change π m b links n c) :
    ∃ new, c.calls = b.calls ++ new ∧ ∀ h, .deleteProgram h ∉ new := by
  have none {c : Backend} (same : c.calls = b.calls) :
      ∃ new, c.calls = b.calls ++ new ∧ ∀ h, GraphicsCall.deleteProgram h ∉ new :=
    ⟨[], by rw [same, List.append_nil], by simp⟩
  cases change with
  | adjusted calls _ quiet => exact ⟨calls, rfl, quiet⟩
  | composed _ | notComposed _ _ | bound _ _ _ | lost _ | dropped _ => exact none rfl
  | rejected failed => exact none (Backend.samePrograms_of_compileAndLink_error failed).2
  | linked may _ _ _ => exact absurd may noRelink
  | released may => exact absurd may noRelease

theorem Changes.calls {π : Permit} {m n : Material} {b c : Backend} {links : List Link}
    (noRelink : ¬ π.relink) (noRelease : ¬ π.release) (changes : Changes π m b links n c) :
    ∃ new, c.calls = b.calls ++ new ∧ ∀ h, .deleteProgram h ∉ new := by
  induction changes with
  | none => exact ⟨[], (List.append_nil _).symm, by simp⟩
  | next change _ ih =>
    obtain ⟨first, calls, quiet⟩ := change.calls noRelink noRelease
    obtain ⟨rest, more, still⟩ := ih
    refine ⟨first ++ rest, by rw [more, calls, List.append_assoc], fun h mem => ?_⟩
    rcases List.mem_append.mp mem with mem | mem
    · exact quiet h mem
    · exact still h mem

namespace Material

variable {m : Material} {b : Backend}

def deletions (m : Material) (b : Backend) : List GraphicsCall :=
  match m.ownedProgram with
  | some p => if p.generation = b.contextGeneration then [.deleteProgram p.handle] else []
  | none => []

theorem calls_releaseProgram (m : Material) (b : Backend) :
    (m.releaseProgram b).calls = b.calls ++ m.deletions b := by
  unfold releaseProgram deletions
  cases m.ownedProgram with
  | none => exact (List.append_nil _).symm
  | some p =>
    dsimp only
    split
    · rfl
    · exact (List.append_nil _).symm

theorem program_ensureComposed (m : Material) (b : Backend) :
    (m.ensureComposed b).material.program = m.program := by
  rcases m.ensureComposed_cases b with ⟨_, _, _, found⟩ | anew
  · rw [found]
  · rw [anew, program_compose]

theorem deletions_congr {n : Material} {c : Backend} (program : n.program = m.program)
    (generation : c.contextGeneration = b.contextGeneration) : n.deletions c = m.deletions b := by
  simp only [deletions, ownedProgram_congr program, generation]

/-- Compiling deletes the program that it replaces, and nothing else. -/
theorem calls_compile (m : Material) (b : Backend) :
    (m.compile b).backend.calls = b.calls ∨
      (m.compile b).backend.calls = b.calls ++ m.deletions b := by
  cases m.compile_ends b with
  | uncomposed _ _ _ _ backend | crowded _ _ _ _ backend => exact Or.inl (congrArg _ backend)
  | rejected _ _ _ rejecting _ _ backend =>
    rw [backend]
    exact Or.inl (Backend.samePrograms_of_compileAndLink_error rejecting).2
  | linked _ _ _ _ linking _ _ backend =>
    obtain ⟨_, gains, calls⟩ := Backend.compileAndLink_ok linking
    right
    rw [backend, calls_releaseProgram, calls,
      deletions_congr (m.program_ensureComposed b) gains.contextGeneration]

theorem calls_build (m : Material) (b : Backend) :
    (m.build b).backend.calls = b.calls ∨
      (m.build b).backend.calls = b.calls ++ m.deletions b := by
  have compiled := (m.compose b).material.calls_compile b
  rw [deletions_congr (m.program_compose b) rfl] at compiled
  rcases m.build_cases b with ⟨_, _, _, _, backend⟩ | ⟨_, _, _, rfl, ⟨_, _, _, _, backend⟩ |
    ⟨_, _, _, _, backend⟩⟩
  · exact Or.inl (congrArg _ backend)
  · rw [backend]
    exact compiled
  · rw [backend]
    exact compiled

end Material

theorem Operation.calls_perform (m : Material) (b : Backend) (op : Operation) :
    ∃ new, (op.perform m b).backend.calls = b.calls ++ new ∧
      ((∀ h, .deleteProgram h ∉ new) ∨ new = m.deletions b) := by
  have either {c : Backend} (cases : c.calls = b.calls ∨ c.calls = b.calls ++ m.deletions b) :
      ∃ new, c.calls = b.calls ++ new ∧
        ((∀ h, GraphicsCall.deleteProgram h ∉ new) ∨ new = m.deletions b) := by
    rcases cases with same | deletions
    · exact ⟨[], by rw [same, List.append_nil], Or.inl (by simp)⟩
    · exact ⟨_, deletions, Or.inr rfl⟩
  have quiet (noRelink : ¬ op.Relinks m b) (noRelease : op ≠ .release) :
      ∃ new, (op.perform m b).backend.calls = b.calls ++ new ∧
        ((∀ h, GraphicsCall.deleteProgram h ∉ new) ∨ new = m.deletions b) := by
    have permitted : op.Permitted ⟨False, True, False, True⟩ m b :=
      ⟨noRelink, fun _ => Or.inl trivial, noRelease⟩
    rcases perform_cases permitted with ⟨_, backend, _⟩ | changes
    · rw [backend]
      exact either (Or.inl rfl)
    · obtain ⟨new, calls, quiet⟩ := changes.calls not_false not_false
      exact ⟨new, calls, Or.inl quiet⟩
  cases op with
  | compile => exact either (m.calls_compile b)
  | build => exact either (m.calls_build b)
  | release => exact ⟨_, m.calls_releaseProgram b, Or.inr rfl⟩
  | _ => exact quiet (by simp [Relinks]) (by simp)

/-! ### Accounts -/

namespace World

/-- The programs that are alive are those that materials have of the present context, and no two
materials have the same handle. -/
structure Accounted (w : World) : Prop where
  alive : ∀ h, w.backend.isAlive h = true ↔
    ∃ i p, w.Owns i p ∧ p.handle = h ∧ p.generation = w.backend.contextGeneration
  apart : ∀ i j p q, w.Owns i p → w.Owns j q → p.handle = q.handle → i = j

/-- Every program that the step deletes was alive before it, and is deleted once. -/
def DeletesAlive (w : World) (s : Step) : Prop :=
  ∃ new, (w.step s).backend.calls = w.backend.calls ++ new ∧
    ∀ before h after, new = before ++ .deleteProgram h :: after →
      w.backend.isAlive h = true ∧ .deleteProgram h ∉ before

/-- If the step tells a material that its context is gone, then it is. -/
def TellsLoss (w : World) : Step → Prop
  | .material i .contextLost => ∀ p, w.Owns i p → p.generation < w.backend.contextGeneration
  | _ => True

theorem Custody.deletesAlive {drops : Prop} {count : Nat} {w : World}
    (custody : w.Custody drops count) (s : Step) : w.DeletesAlive s := by
  have quiet (calls : (w.step s).backend.calls = w.backend.calls) : w.DeletesAlive s :=
    ⟨[], by rw [calls, List.append_nil], fun before h after split => by simp at split⟩
  cases s with
  | loseContext => exact quiet rfl
  | failNextCompile stage log => exact quiet rfl
  | material i op =>
    cases present : w.materials[i]? with
    | none => exact quiet (by simp only [step, present])
    | some m =>
      obtain ⟨new, calls, deleted⟩ := op.calls_perform m w.backend
      refine ⟨new, by rw [step_material present]; exact calls, fun before h after split => ?_⟩
      rcases deleted with none | deletions
      · exact absurd (by rw [split]; simp) (none h)
      · unfold Material.deletions at deletions
        rw [split] at deletions
        cases owned : m.ownedProgram with
        | none => simp [owned] at deletions
        | some p =>
          by_cases current : p.generation = w.backend.contextGeneration
          · simp only [owned, if_pos current] at deletions
            obtain ⟨rfl, same⟩ : before = [] ∧ h = p.handle := by
              cases before with
              | nil =>
                injection deletions with same _
                injection same with same
                exact ⟨rfl, same⟩
              | cons call rest => simp at deletions
            refine ⟨?_, List.not_mem_nil⟩
            rw [same]
            exact custody.alive i p ((owns_self present).mpr owned) current
          · simp [owned, current] at deletions

theorem Dated.tellsLoss {w : World} (dated : w.Dated) (i : Nat) :
    TellsLoss { w with backend := w.backend.loseContext } (.material i .contextLost) :=
  fun _ owns => dated.lt_loseContext owns

theorem Custody.accounts {count : Nat} {w : World} (custody : w.Custody False count) :
    w.Accounted where
  alive h := by
    refine ⟨custody.accounted not_false h, ?_⟩
    rintro ⟨i, p, owns, rfl, current⟩
    exact custody.alive i p owns current
  apart := custody.apart

/-- Nothing that is permitted drops a program that is alive. -/
def honestPermit : Permit := ⟨True, False, True, True⟩

theorem permits_of_tellsLoss {w : World} {s : Step} (tells : w.TellsLoss s) :
    w.Permits (fun _ => honestPermit) s := by
  cases s with
  | loseContext => trivial
  | failNextCompile stage log => trivial
  | material i op =>
    intro m present
    refine ⟨⟨fun _ => trivial, fun told => Or.inr fun p owned => ?_, fun _ => trivial⟩,
      Or.inl trivial⟩
    subst told
    exact Nat.ne_of_lt (tells p ((owns_self present).mpr owned))

theorem custody_step {w : World} {s : Step} {earlier : List Link}
    (short : (earlier ++ (w.link? s).toList).length < UInt32.size) (dated : w.Dated)
    (custody : w.Custody False earlier.length) (told : w.TellsLoss s) :
    (w.step s).Dated ∧ (w.step s).Custody False (earlier ++ (w.link? s).toList).length :=
  (Custody.preserved (π := fun _ => honestPermit) fun _ drop => drop).step
    (fun _ => ⟨dated, custody⟩) (permits_of_tellsLoss told) short

/-- Custody lasts along a run, so what a step deletes is alive before it. -/
theorem along_deletesAlive {w : World} {steps : List Step} {earlier : List Link}
    (short : (earlier ++ w.links steps).length < UInt32.size) (dated : w.Dated)
    (custody : w.Custody False earlier.length) (told : w.Along TellsLoss steps) :
    w.Along DeletesAlive steps ∧
      (w.run steps).Custody False (earlier ++ w.links steps).length := by
  induction steps generalizing w earlier with
  | nil =>
    rw [links, List.append_nil]
    exact ⟨trivial, custody⟩
  | cons s rest ih =>
    rw [links, ← List.append_assoc] at short ⊢
    obtain ⟨dated', custody'⟩ := custody_step (short_of_append short) dated custody told.1
    obtain ⟨later, last⟩ := ih short dated' custody' told.2
    exact ⟨⟨custody.deletesAlive s, later⟩, last⟩

/-- Nothing is leaked, deleted twice or deleted after its context has died. -/
theorem accounted_run (materials : List (String × Settings)) (limit : Nat) (steps : List Step)
    (short : ((fresh materials limit).links steps).length < UInt32.size)
    (told : (fresh materials limit).Along TellsLoss steps) :
    ((fresh materials limit).run steps).Accounted ∧
      (fresh materials limit).Along DeletesAlive steps := by
  have custody : (fresh materials limit).Custody False ([] : List Link).length :=
    custody_fresh False materials limit
  obtain ⟨deletes, custody⟩ := along_deletesAlive short (dated_fresh materials limit) custody told
  exact ⟨custody.accounts, deletes⟩

theorem accounted_run_after_loss :
    (fresh [("a", {}), ("b", {})] 8).Along TellsLoss
        [.material 0 .build, .loseContext, .material 0 .contextLost, .material 0 .build] ∧
      ((fresh [("a", {}), ("b", {})] 8).run
        [.material 0 .build, .loseContext, .material 0 .contextLost, .material 0 .build]).Accounted ∧
      (fresh [("a", {}), ("b", {})] 8).Along DeletesAlive
        [.material 0 .build, .loseContext, .material 0 .contextLost, .material 0 .build] := by
  have dated : ((fresh [("a", {}), ("b", {})] 8).run [.material 0 .build]).Dated := dated_run _ 8 _
  have told : (fresh [("a", {}), ("b", {})] 8).Along TellsLoss
      [.material 0 .build, .loseContext, .material 0 .contextLost, .material 0 .build] :=
    ⟨trivial, trivial, dated.tellsLoss 0, trivial, trivial⟩
  have short := Nat.lt_of_le_of_lt (length_links_le (fresh [("a", {}), ("b", {})] 8)
    [.material 0 .build, .loseContext, .material 0 .contextLost, .material 0 .build])
    (show 4 < UInt32.size by decide)
  exact ⟨told, accounted_run _ 8 _ short told⟩

end World

end ShaderComposer
