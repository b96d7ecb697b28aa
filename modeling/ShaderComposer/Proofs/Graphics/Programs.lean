import ShaderComposer.Graphics.Headless

/-!
# The programs of a backend

What compiling and deleting do to the table of programs. A program that was just linked is found
under its handle, and a program that had the handle before is not found any more.
-/

namespace ShaderComposer

structure Link where
  handle : Nat
  vertex : String
  fragment : String
deriving DecidableEq

theorem lookup_cons_ite {α : Type} (entries : List (Nat × α)) (key h : Nat) (a : α) :
    ((key, a) :: entries).lookup h = if h = key then some a else entries.lookup h := by
  by_cases same : h = key
  · rw [same, List.lookup_cons_self, if_pos rfl]
  · rw [List.lookup_cons, beq_false_of_ne same, if_neg same]

theorem lookup_filter_ne {α : Type} (entries : List (Nat × α)) (k h : Nat) :
    (entries.filter (·.1 != k)).lookup h = if h = k then none else entries.lookup h := by
  induction entries with
  | nil => simp
  | cons e rest ih =>
    obtain ⟨key, a⟩ := e
    by_cases gone : key = k
    · rw [List.filter_cons_of_neg (by simp [gone]), ih, lookup_cons_ite, gone]
      split <;> rfl
    · rw [List.filter_cons_of_pos (by simp [gone]), lookup_cons_ite, lookup_cons_ite, ih]
      by_cases found : h = key
      · rw [if_pos found, if_pos found, if_neg (found ▸ gone)]
      · rw [if_neg found, if_neg found]

namespace Backend

variable {b c : Backend} {h k : Nat} {vertex fragment : String}

theorem lookup_deleteProgram (b : Backend) (k h : Nat) :
    (b.deleteProgram k).programs.lookup h = if h = k then none else b.programs.lookup h :=
  lookup_filter_ne b.programs k h

/-- The same programs are alive in the same context. -/
structure SamePrograms (b c : Backend) : Prop where
  programs : c.programs = b.programs
  nextProgram : c.nextProgram = b.nextProgram
  generation : c.generation = b.generation
  plain : c.plain = b.plain

theorem SamePrograms.refl (b : Backend) : b.SamePrograms b := ⟨rfl, rfl, rfl, rfl⟩

theorem SamePrograms.contextGeneration (same : b.SamePrograms c) :
    c.contextGeneration = b.contextGeneration := by
  simp only [Backend.contextGeneration, same.generation, same.plain]

theorem SamePrograms.isAlive (same : b.SamePrograms c) : c.isAlive h = b.isAlive h := by
  simp only [Backend.isAlive, same.programs]

/-- One more program is alive, in the place of a program that had its handle. -/
structure Gains (b : Backend) (added : ProgramInterface) (c : Backend) : Prop where
  programs : c.programs =
    b.programs.filter (·.1 != b.nextProgram.toNat) ++ [(b.nextProgram.toNat, added)]
  nextProgram : c.nextProgram = b.nextProgram + 1
  generation : c.generation = b.generation
  plain : c.plain = b.plain

theorem Gains.contextGeneration {added : ProgramInterface} (gains : b.Gains added c) :
    c.contextGeneration = b.contextGeneration := by
  simp only [Backend.contextGeneration, gains.generation, gains.plain]

theorem Gains.lookup {added : ProgramInterface} (gains : b.Gains added c) :
    c.programs.lookup h = if h = b.nextProgram.toNat then some added else b.programs.lookup h := by
  rw [gains.programs, List.lookup_append, lookup_filter_ne, lookup_cons_ite, List.lookup_nil]
  split
  · rw [Option.none_or]
  · rw [Option.or_none]

theorem Gains.isAlive {added : ProgramInterface} (gains : b.Gains added c) :
    c.isAlive h = true ↔ b.isAlive h = true ∨ h = b.nextProgram.toNat := by
  unfold Backend.isAlive
  rw [gains.lookup]
  split <;> simp [*]

theorem Gains.lookup_ne {added : ProgramInterface} (gains : b.Gains added c)
    (other : h ≠ b.nextProgram.toNat) : c.programs.lookup h = b.programs.lookup h := by
  rw [gains.lookup, if_neg other]

theorem compileAndLink_ok (ok : b.compileAndLink vertex fragment = (.ok h, c)) :
    h = b.nextProgram.toNat ∧ b.Gains (.ofSources vertex.toList fragment.toList) c ∧
      c.calls = b.calls := by
  unfold compileAndLink at ok
  dsimp only at ok
  split at ok
  · cases ok
  · cases ok
    exact ⟨rfl, ⟨rfl, rfl, rfl, rfl⟩, rfl⟩

theorem exists_compileAndLink_iff (calm : b.pendingFailure = none) :
    (∃ program, (b.compileAndLink vertex fragment).1 = .ok program) ↔
      sourceFault vertex fragment = none := by
  unfold compileAndLink
  rw [calm, Option.none_or]
  cases sourceFault vertex fragment with
  | none => simp
  | some fault => simp

theorem samePrograms_of_compileAndLink_error {r : Rejection}
    (failed : b.compileAndLink vertex fragment = (.error r, c)) :
    b.SamePrograms c ∧ c.calls = b.calls := by
  rw [compileAndLink_error failed]
  exact ⟨⟨rfl, rfl, rfl, rfl⟩, rfl⟩

theorem isAlive_deleteProgram :
    (b.deleteProgram k).isAlive h = true ↔ b.isAlive h = true ∧ h ≠ k := by
  unfold isAlive
  rw [lookup_deleteProgram]
  by_cases same : h = k <;> simp [same]

/-- Deleting a program and linking another may change places. -/
theorem Gains.deleteProgram {added : ProgramInterface} (gains : b.Gains added c)
    (other : k ≠ b.nextProgram.toNat) : (b.deleteProgram k).Gains added (c.deleteProgram k) := by
  refine ⟨?_, gains.nextProgram, gains.generation, gains.plain⟩
  show c.programs.filter (·.1 != k) = (b.programs.filter (·.1 != k)).filter
    (·.1 != b.nextProgram.toNat) ++ [(b.nextProgram.toNat, added)]
  rw [gains.programs, List.filter_append, List.filter_filter, List.filter_filter]
  have kept : [(b.nextProgram.toNat, added)].filter (·.1 != k) = [(b.nextProgram.toNat, added)] := by
    simp [other.symm]
  rw [kept]
  simp only [Bool.and_comm]

end Backend

end ShaderComposer
