import ShaderComposer.Proofs.Graphics.Programs
import ShaderComposer.Proofs.Material.Invariant

/-!
# Custody of programs

Who has which program. Programs are of the present context or of one that was lost before
(`World.Dated`). While fewer programs were linked than there are handles, no two materials have the
same one, and a program that was linked in the present context is alive as long as a material has it.
If no material is told that its context is gone while it is not, nothing else is alive
(`World.Custody`).
-/

namespace ShaderComposer

/-! ### Giving up a program -/

namespace Material

variable {m : Material} {b c : Backend}

theorem releaseProgram_cases (m : Material) (b : Backend) :
    (∃ p, m.ownedProgram = some p ∧ p.generation = b.contextGeneration ∧
        m.releaseProgram b = b.deleteProgram p.handle) ∨
      (∀ p, m.ownedProgram = some p → p.generation ≠ b.contextGeneration) ∧
        m.releaseProgram b = b := by
  unfold releaseProgram
  cases owned : m.ownedProgram with
  | none =>
    refine Or.inr ⟨fun p some => ?_, rfl⟩
    cases some
  | some p =>
    by_cases current : p.generation = b.contextGeneration
    · exact Or.inl ⟨p, rfl, current, if_pos current⟩
    · refine Or.inr ⟨fun q same => ?_, if_neg current⟩
      rwa [← Option.some.inj same]

theorem gains_releaseProgram {added : ProgramInterface} (gains : b.Gains added c)
    (other : ∀ p, m.ownedProgram = some p → p.handle ≠ b.nextProgram.toNat) :
    (m.releaseProgram b).Gains added (m.releaseProgram c) := by
  unfold releaseProgram
  cases owned : m.ownedProgram with
  | none => exact gains
  | some p =>
    dsimp only
    rw [gains.contextGeneration]
    split
    · exact gains.deleteProgram (other p owned)
    · exact gains

theorem contextGeneration_releaseProgram (m : Material) (b : Backend) :
    (m.releaseProgram b).contextGeneration = b.contextGeneration := by
  rcases m.releaseProgram_cases b with ⟨p, _, _, deleted⟩ | ⟨_, kept⟩
  · rw [deleted]
    rfl
  · rw [kept]

theorem plain_releaseProgram (m : Material) (b : Backend) :
    (m.releaseProgram b).plain = b.plain := by
  rcases m.releaseProgram_cases b with ⟨p, _, _, deleted⟩ | ⟨_, kept⟩
  · rw [deleted]
    rfl
  · rw [kept]

theorem nextProgram_releaseProgram (m : Material) (b : Backend) :
    (m.releaseProgram b).nextProgram = b.nextProgram := by
  rcases m.releaseProgram_cases b with ⟨p, _, _, deleted⟩ | ⟨_, kept⟩
  · rw [deleted]
    rfl
  · rw [kept]

theorem ownedProgram_retire (m : Material) : m.retire.ownedProgram = m.ownedProgram := by
  unfold retire
  split
  · next live => simp only [ownedProgram, live]
  · rfl

theorem ownedProgram_contextLost (m : Material) : m.contextLost.ownedProgram = none := by
  unfold ownedProgram contextLost
  dsimp only
  by_cases none : m.program = .none <;> simp [none]

theorem ownedProgram_congr {n : Material} (same : n.program = m.program) :
    n.ownedProgram = m.ownedProgram := by
  simp only [ownedProgram, same]

end Material

section Change

variable {π : Permit} {m n : Material} {b c : Backend} {links : List Link}

theorem Change.contextGeneration (change : Change π m b links n c) :
    c.contextGeneration = b.contextGeneration := by
  cases change with
  | adjusted _ _ _ | composed _ | notComposed _ _ | bound _ _ _ | lost _ | dropped _ => rfl
  | rejected failed => exact (Backend.samePrograms_of_compileAndLink_error failed).1.contextGeneration
  | linked _ _ _ done =>
    rw [m.contextGeneration_releaseProgram]
    exact (Backend.compileAndLink_ok done).2.1.contextGeneration
  | released _ => exact m.contextGeneration_releaseProgram b

theorem Change.plain (change : Change π m b links n c) : c.plain = b.plain := by
  cases change with
  | adjusted _ _ _ | composed _ | notComposed _ _ | bound _ _ _ | lost _ | dropped _ => rfl
  | rejected failed => exact (Backend.samePrograms_of_compileAndLink_error failed).1.plain
  | linked _ _ _ done =>
    rw [m.plain_releaseProgram]
    exact (Backend.compileAndLink_ok done).2.1.plain
  | released _ => exact m.plain_releaseProgram b

/-- After a change a material has the program that it had, or none, or one that was just linked. -/
theorem Change.ownedProgram_cases (change : Change π m b links n c) :
    (∀ p, n.ownedProgram = some p → m.ownedProgram = some p) ∨
      ∃ handle, n = m.withLinked handle c.contextGeneration := by
  have none (gone : n.ownedProgram = none) (p : LinkedProgram) (some : n.ownedProgram = some p) :
      m.ownedProgram = .some p := by
    rw [gone] at some
    cases some
  cases change with
  | adjusted _ same _ => exact Or.inl fun p some => Material.ownedProgram_congr same.program ▸ some
  | composed _ | notComposed _ _ | bound _ _ _ => exact Or.inl fun _ some => some
  | rejected _ => exact Or.inl fun p some => m.ownedProgram_retire ▸ some
  | linked _ _ _ _ => exact Or.inr ⟨_, rfl⟩
  | lost _ | dropped _ => exact Or.inl (none m.ownedProgram_contextLost)
  | released _ => exact Or.inl (none rfl)

/-- A change keeps the version of the program, or links one of the present version. -/
theorem Change.version_le (change : Change π m b links n c)
    (older : ∀ p, m.ownedProgram = some p → p.version ≤ m.version) (p : LinkedProgram)
    (owned : n.ownedProgram = some p) : p.version ≤ n.version := by
  rcases change.ownedProgram_cases with fewer | ⟨handle, rfl⟩
  · rw [change.version]
    exact older p (fewer p owned)
  · obtain rfl := Option.some.inj owned
    exact UInt64.le_refl _

end Change

/-! ### Owners -/

namespace World

variable {w : World} {i j : Nat} {m n : Material} {c : Backend} {p q : LinkedProgram}

theorem owns_put (present : w.materials[i]? = some m) :
    (w.put i n c).Owns j p ↔ if j = i then n.ownedProgram = some p else w.Owns j p := by
  unfold Owns
  rw [getElem?_put present]
  split
  · exact ⟨fun ⟨_, same, owned⟩ => Option.some.inj same ▸ owned, fun owned => ⟨n, rfl, owned⟩⟩
  · rfl

theorem owns_self (present : w.materials[i]? = some m) :
    w.Owns i p ↔ m.ownedProgram = some p := by
  unfold Owns
  rw [present]
  exact ⟨fun ⟨_, same, owned⟩ => Option.some.inj same ▸ owned, fun owned => ⟨m, rfl, owned⟩⟩

theorem Owns.unique (first : w.Owns i p) (second : w.Owns i q) : p = q := by
  obtain ⟨m, present, owned⟩ := first
  obtain ⟨n, again, too⟩ := second
  rw [present] at again
  obtain rfl := Option.some.inj again
  exact Option.some.inj (owned.symm.trans too)

theorem not_owns_fresh (materials : List (String × Settings)) (limit : Nat) (i : Nat)
    (p : LinkedProgram) : ¬ (fresh materials limit).Owns i p := by
  rintro ⟨m, present, owned⟩
  obtain ⟨name, settings, rfl⟩ := exists_of_fresh present
  cases owned

/-! ### Contexts -/

/-- Programs are of the present context or of one before it, and the backend tells which it is. -/
structure Dated (w : World) : Prop where
  told : w.backend.plain = false
  past : ∀ i p, w.Owns i p → p.generation ≤ w.backend.contextGeneration

theorem Dated.contextGeneration_loseContext (dated : w.Dated) :
    w.backend.loseContext.contextGeneration = w.backend.contextGeneration + 1 := by
  simp [Backend.contextGeneration, dated.told, Backend.loseContext]

theorem Dated.lt_loseContext (dated : w.Dated) (owns : w.Owns i p) :
    p.generation < w.backend.loseContext.contextGeneration := by
  rw [dated.contextGeneration_loseContext]
  exact Nat.lt_succ_of_le (dated.past i p owns)

theorem Dated.mutated (dated : w.Dated) (present : w.materials[i]? = some m) (mutated : m.Mutated n) :
    (w.put i n w.backend).Dated where
  told := dated.told
  past j p owns := by
    rw [owns_put present] at owns
    split at owns
    · rw [Material.ownedProgram_congr mutated.program] at owns
      exact dated.past i p ((owns_self present).mpr owns)
    · exact dated.past j p owns

theorem Dated.changed (dated : w.Dated) (present : w.materials[i]? = some m) {π : Permit}
    {links : List Link} (change : Change π m w.backend links n c) : (w.put i n c).Dated where
  told := change.plain.trans dated.told
  past j p owns := by
    rw [show (w.put i n c).backend.contextGeneration = _ from change.contextGeneration]
    rw [owns_put present] at owns
    split at owns
    · rcases change.ownedProgram_cases with fewer | ⟨handle, rfl⟩
      · exact dated.past i p ((owns_self present).mpr (fewer p owns))
      · obtain rfl := Option.some.inj owns
        exact Nat.le_of_eq change.contextGeneration
    · exact dated.past j p owns

theorem Dated.contextLost (dated : w.Dated) : Dated { w with backend := w.backend.loseContext } :=
  ⟨dated.told, fun _ _ owns => Nat.le_of_lt (dated.lt_loseContext owns)⟩

theorem Dated.failing (dated : w.Dated) (stage : Option Stage) (log : String) :
    Dated { w with backend := w.backend.failNextCompile stage log } :=
  ⟨dated.told, dated.past⟩

theorem Dated.preserved (π : Nat → Permit) : Preserved π fun w _ => w.Dated where
  mutated dated present mutated _ := dated.mutated present mutated
  changed dated present change := dated.changed present change
  contextLost dated := dated.contextLost
  failing stage log dated := dated.failing stage log

theorem dated_fresh (materials : List (String × Settings)) (limit : Nat) :
    (fresh materials limit).Dated :=
  ⟨rfl, fun i p owns => absurd owns (not_owns_fresh materials limit i p)⟩

theorem dated_run (materials : List (String × Settings)) (limit : Nat) (steps : List Step) :
    ((fresh materials limit).run steps).Dated :=
  (Dated.preserved fun _ => .any).run [] (dated_fresh materials limit) (along_any _ steps)

/-! ### Custody -/

/-- Who has which program after so many were linked. If `drops` holds, materials may have been told
of a loss that did not happen; their programs stay alive with nobody to delete them. -/
structure Custody (drops : Prop) (count : Nat) (w : World) : Prop where
  next : w.backend.nextProgram = UInt32.ofNat (count + 1)
  below : ∀ i p, w.Owns i p → p.handle ≤ count
  apart : ∀ i j p q, w.Owns i p → w.Owns j q → p.handle = q.handle → i = j
  alive : ∀ i p, w.Owns i p → p.generation = w.backend.contextGeneration →
    w.backend.isAlive p.handle = true
  created : ∀ h, w.backend.isAlive h = true → h ≤ count
  accounted : ¬ drops → ∀ h, w.backend.isAlive h = true →
    ∃ i p, w.Owns i p ∧ p.handle = h ∧ p.generation = w.backend.contextGeneration

variable {drops : Prop} {count : Nat}

/-- The counter does not start over, so the next handle is above all that were given out. -/
theorem Custody.toNat_next (custody : w.Custody drops count) (short : count + 1 < UInt32.size) :
    w.backend.nextProgram.toNat = count + 1 := by
  rw [custody.next, UInt32.toNat_ofNat_of_lt' short]

theorem Custody.ne_next (custody : w.Custody drops count) (short : count + 1 < UInt32.size)
    (owns : w.Owns i p) : p.handle ≠ w.backend.nextProgram.toNat := by
  rw [custody.toNat_next short]
  exact Nat.ne_of_lt (Nat.lt_succ_of_le (custody.below i p owns))

/-- A material keeps its program, or loses one that went with its context. -/
theorem Custody.kept (custody : w.Custody drops count) (present : w.materials[i]? = some m)
    (fewer : ∀ p, n.ownedProgram = some p → m.ownedProgram = some p)
    (lost : ¬ drops → ∀ p, m.ownedProgram = some p →
      n.ownedProgram = some p ∨ p.generation ≠ w.backend.contextGeneration)
    (same : w.backend.SamePrograms c) : (w.put i n c).Custody drops count := by
  have back {j : Nat} {p : LinkedProgram} (owns : (w.put i n c).Owns j p) : w.Owns j p := by
    rw [owns_put present] at owns
    split at owns
    · next here => exact here ▸ (owns_self present).mpr (fewer p owns)
    · exact owns
  have generation : (w.put i n c).backend.contextGeneration = w.backend.contextGeneration :=
    same.contextGeneration
  have isAlive (h : Nat) : (w.put i n c).backend.isAlive h = w.backend.isAlive h := same.isAlive
  refine ⟨same.nextProgram.trans custody.next, ?_, ?_, ?_, ?_, ?_⟩
  · intro j q owns
    exact custody.below j q (back owns)
  · intro j k q r first second handles
    exact custody.apart j k q r (back first) (back second) handles
  · intro j q owns current
    rw [isAlive]
    exact custody.alive j q (back owns) (current.trans generation)
  · intro h alive
    rw [isAlive] at alive
    exact custody.created h alive
  · intro honest h alive
    rw [isAlive] at alive
    rw [generation]
    obtain ⟨j, q, owns, handle, current⟩ := custody.accounted honest h alive
    refine ⟨j, q, ?_, handle, current⟩
    rw [owns_put present]
    split
    · next here =>
      -- only a program of a lost context may go, and this one is of the present context
      rcases lost honest q ((owns_self present).mp (here ▸ owns)) with still | old
      · exact still
      · exact absurd current old
    · exact owns

theorem Custody.mutated (custody : w.Custody drops count) (present : w.materials[i]? = some m)
    (mutated : m.Mutated n) : (w.put i n w.backend).Custody drops count := by
  have owned := Material.ownedProgram_congr mutated.program
  exact custody.kept present (fun _ some => owned ▸ some) (fun _ _ some => Or.inl (owned ▸ some))
    (.refl _)

/-- A material gives up a program, which is deleted. -/
theorem Custody.deleted (custody : w.Custody drops count) (present : w.materials[i]? = some m)
    (owned : m.ownedProgram = some p) (gone : n.ownedProgram = none) :
    (w.put i n (w.backend.deleteProgram p.handle)).Custody drops count := by
  have mine : w.Owns i p := (owns_self present).mpr owned
  have back {j : Nat} {q : LinkedProgram}
      (owns : (w.put i n (w.backend.deleteProgram p.handle)).Owns j q) : j ≠ i ∧ w.Owns j q := by
    rw [owns_put present] at owns
    split at owns
    · rw [gone] at owns
      cases owns
    · next other => exact ⟨other, owns⟩
  refine ⟨custody.next, ?_, ?_, ?_, ?_, ?_⟩
  · exact fun j q owns => custody.below j q (back owns).2
  · exact fun j k q r first second handles =>
      custody.apart j k q r (back first).2 (back second).2 handles
  · intro j q owns current
    obtain ⟨other, owns⟩ := back owns
    refine Backend.isAlive_deleteProgram.mpr ⟨custody.alive j q owns current, ?_⟩
    exact fun same => other (custody.apart j i q p owns mine same)
  · intro h alive
    exact custody.created h (Backend.isAlive_deleteProgram.mp alive).1
  · intro honest h alive
    obtain ⟨alive, other⟩ := Backend.isAlive_deleteProgram.mp alive
    obtain ⟨j, q, owns, handle, current⟩ := custody.accounted honest h alive
    refine ⟨j, q, ?_, handle, current⟩
    rw [owns_put present]
    split
    · next here =>
      obtain rfl := mine.unique (here ▸ owns)
      exact absurd handle.symm other
    · exact owns

/-- A material without a program is given a new one. -/
theorem Custody.gained (custody : w.Custody drops count) (short : count + 1 < UInt32.size)
    (present : w.materials[i]? = some m)
    (free : m.ownedProgram = none) {added : ProgramInterface} (gains : w.backend.Gains added c)
    {v : UInt64}
    (owned : n.ownedProgram =
      some ⟨w.backend.nextProgram.toNat, w.backend.contextGeneration, v⟩) :
    (w.put i n c).Custody drops (count + 1) := by
  have handle : w.backend.nextProgram.toNat = count + 1 := custody.toNat_next short
  rw [handle] at owned
  have back {j : Nat} {q : LinkedProgram} (owns : (w.put i n c).Owns j q) :
      (j = i ∧ q = ⟨count + 1, w.backend.contextGeneration, v⟩) ∨ (j ≠ i ∧ w.Owns j q) := by
    rw [owns_put present, owned] at owns
    split at owns
    · next here => exact Or.inl ⟨here, (Option.some.inj owns).symm⟩
    · next other => exact Or.inr ⟨other, owns⟩
  have generation : (w.put i n c).backend.contextGeneration = w.backend.contextGeneration :=
    gains.contextGeneration
  have isAlive (h : Nat) : (w.put i n c).backend.isAlive h = true ↔
      w.backend.isAlive h = true ∨ h = count + 1 := by
    rw [← handle]
    exact gains.isAlive
  refine ⟨?_, ?_, ?_, ?_, ?_, ?_⟩
  · show c.nextProgram = UInt32.ofNat (count + 1 + 1)
    rw [gains.nextProgram, custody.next]
    exact (UInt32.ofNat_add _ 1).symm
  · intro j q owns
    rcases back owns with ⟨_, rfl⟩ | ⟨_, owns⟩
    · exact Nat.le_refl _
    · exact Nat.le_succ_of_le (custody.below j q owns)
  -- the new handle is above all that were owned, so no owned program has it
  · intro j k q r first second handles
    rcases back first with ⟨here, new⟩ | ⟨_, older⟩
    · rcases back second with ⟨too, _⟩ | ⟨_, owns⟩
      · exact here.trans too.symm
      · rw [new] at handles
        exact absurd handles (Nat.ne_of_gt (Nat.lt_succ_of_le (custody.below k r owns)))
    · rcases back second with ⟨_, new⟩ | ⟨_, owns⟩
      · rw [new] at handles
        exact absurd handles (Nat.ne_of_lt (Nat.lt_succ_of_le (custody.below j q older)))
      · exact custody.apart j k q r older owns handles
  · intro j q owns current
    refine (isAlive _).mpr ?_
    rcases back owns with ⟨_, rfl⟩ | ⟨_, owns⟩
    · exact Or.inr rfl
    · exact Or.inl (custody.alive j q owns (current.trans generation))
  · intro h alive
    rcases (isAlive h).mp alive with alive | rfl
    · exact Nat.le_succ_of_le (custody.created h alive)
    · exact Nat.le_refl _
  · intro honest h alive
    rw [generation]
    rcases (isAlive h).mp alive with alive | rfl
    · obtain ⟨j, q, owns, handle, current⟩ := custody.accounted honest h alive
      -- the material that got the program had none, so nobody lost one
      refine ⟨j, q, ?_, handle, current⟩
      rw [owns_put present]
      split
      · next here =>
        rw [here, owns_self present, free] at owns
        cases owns
      · exact owns
    · refine ⟨i, ⟨count + 1, w.backend.contextGeneration, v⟩, ?_, rfl, rfl⟩
      rw [owns_put present, if_pos rfl]
      exact owned

theorem Custody.released (custody : w.Custody drops count) (present : w.materials[i]? = some m) :
    (w.put i (m.release w.backend).1 (m.releaseProgram w.backend)).Custody drops count := by
  rcases m.releaseProgram_cases w.backend with ⟨p, owned, _, deleted⟩ | ⟨old, kept⟩
  · rw [deleted]
    exact custody.deleted present owned rfl
  · rw [kept]
    exact custody.kept present (fun p none => by cases none) (fun _ p owned => Or.inr (old p owned))
      (.refl _)

theorem Custody.linked (custody : w.Custody drops count) (short : count + 1 < UInt32.size)
    (present : w.materials[i]? = some m)
    {vertex fragment : String} {handle : Nat} {b : Backend}
    (done : w.backend.compileAndLink vertex fragment = (.ok handle, b)) :
    (w.put i (m.withLinked handle (m.releaseProgram b).contextGeneration)
      (m.releaseProgram b)).Custody drops (count + 1) := by
  obtain ⟨rfl, gains, _⟩ := Backend.compileAndLink_ok done
  have gains := m.gains_releaseProgram gains fun p owned =>
    custody.ne_next short ((owns_self present).mpr owned)
  have linked := (custody.released present).gained short (getElem?_put_self present) rfl gains
    (n := m.withLinked w.backend.nextProgram.toNat (m.releaseProgram b).contextGeneration)
    (v := m.version) (by
      rw [gains.contextGeneration, ← m.nextProgram_releaseProgram w.backend]
      rfl)
  rwa [put_put] at linked

variable {links more : List Link}

theorem Custody.changed (custody : w.Custody drops links.length)
    (short : (links ++ more).length < UInt32.size) (present : w.materials[i]? = some m) {π : Permit}
    (may : π.drop → drops) (change : Change π m w.backend more n c) :
    (w.put i n c).Custody drops (links ++ more).length := by
  rw [List.length_append] at short ⊢
  have still (owned : n.ownedProgram = m.ownedProgram) (same : w.backend.SamePrograms c) :
      (w.put i n c).Custody drops links.length :=
    custody.kept present (fun p some => owned ▸ some) (fun _ p some => Or.inl (owned ▸ some)) same
  cases change with
  | adjusted calls same _ =>
    exact still (Material.ownedProgram_congr same.program) ⟨rfl, rfl, rfl, rfl⟩
  | composed _ | notComposed _ _ | bound _ _ _ => exact still rfl (.refl _)
  | rejected failed =>
    exact still m.ownedProgram_retire (Backend.samePrograms_of_compileAndLink_error failed).1
  | linked _ _ _ done => exact custody.linked short present done
  | lost gone =>
    refine custody.kept present (fun p some => ?_) (fun _ p owned => Or.inr (gone p owned)) (.refl _)
    rw [m.ownedProgram_contextLost] at some
    cases some
  | dropped drop =>
    refine custody.kept present (fun p some => ?_) (fun honest => absurd (may drop) honest) (.refl _)
    rw [m.ownedProgram_contextLost] at some
    cases some
  | released _ => exact custody.released present

/-- The programs of other materials stay as they are. -/
theorem Custody.lookup_eq (custody : w.Custody drops links.length)
    (short : (links ++ more).length < UInt32.size) (present : w.materials[i]? = some m) {π : Permit}
    (change : Change π m w.backend more n c) (other : j ≠ i) (owns : w.Owns j q) :
    c.programs.lookup q.handle = w.backend.programs.lookup q.handle := by
  rw [List.length_append] at short
  have released (b : Backend) :
      (m.releaseProgram b).programs.lookup q.handle = b.programs.lookup q.handle := by
    rcases m.releaseProgram_cases b with ⟨p, owned, _, deleted⟩ | ⟨_, kept⟩
    · rw [deleted, Backend.lookup_deleteProgram, if_neg]
      exact fun same => other (custody.apart j i q p owns ((owns_self present).mpr owned) same)
    · rw [kept]
  cases change with
  | adjusted _ _ _ | composed _ | notComposed _ _ | bound _ _ _ | lost _ | dropped _ => rfl
  | rejected failed => rw [(Backend.samePrograms_of_compileAndLink_error failed).1.programs]
  | linked _ _ _ done =>
    rw [released]
    exact (Backend.compileAndLink_ok done).2.1.lookup_ne (custody.ne_next short owns)
  | released _ => exact released _

theorem Custody.contextLost (custody : w.Custody drops count) (dated : w.Dated) :
    Custody drops count { w with backend := w.backend.loseContext } := by
  refine ⟨custody.next, custody.below, custody.apart, ?_, ?_, ?_⟩
  · exact fun j p owns current => absurd current (Nat.ne_of_lt (dated.lt_loseContext owns))
  · exact fun h alive => absurd alive (by simp [Backend.isAlive_loseContext])
  · exact fun _ h alive => absurd alive (by simp [Backend.isAlive_loseContext])

theorem Custody.failing (custody : w.Custody drops count) (stage : Option Stage) (log : String) :
    Custody drops count { w with backend := w.backend.failNextCompile stage log } :=
  ⟨custody.next, custody.below, custody.apart, custody.alive, custody.created, custody.accounted⟩

theorem custody_fresh (drops : Prop) (materials : List (String × Settings)) (limit : Nat) :
    (fresh materials limit).Custody drops 0 := by
  have none := not_owns_fresh materials limit
  exact ⟨rfl, fun i p owns => absurd owns (none i p), fun i _ p _ owns => absurd owns (none i p),
    fun i p owns => absurd owns (none i p),
    fun h alive => by simp [fresh, Backend.create, Backend.isAlive] at alive,
    fun _ h alive => by simp [fresh, Backend.create, Backend.isAlive] at alive⟩

theorem short_of_append (short : (links ++ more).length < UInt32.size) :
    links.length < UInt32.size := by
  rw [List.length_append] at short
  omega

/-- Custody is kept while fewer programs were linked than there are handles. -/
theorem Custody.preserved {π : Nat → Permit} (may : ∀ i, (π i).drop → drops) :
    Preserved π fun w links =>
      links.length < UInt32.size → w.Dated ∧ w.Custody drops links.length where
  mutated holds present mutated _ short := by
    obtain ⟨dated, custody⟩ := holds short
    exact ⟨dated.mutated present mutated, custody.mutated present mutated⟩
  changed holds present change short := by
    obtain ⟨dated, custody⟩ := holds (short_of_append short)
    exact ⟨dated.changed present change, custody.changed short present (may _) change⟩
  contextLost holds short := by
    obtain ⟨dated, custody⟩ := holds short
    exact ⟨dated.contextLost, custody.contextLost dated⟩
  failing stage log holds short := by
    obtain ⟨dated, custody⟩ := holds short
    exact ⟨dated.failing stage log, custody.failing stage log⟩

end World

end ShaderComposer
