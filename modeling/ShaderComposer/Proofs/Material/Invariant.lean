import ShaderComposer.Proofs.Material.Change

/-!
# Invariants of runs

A property of a world and the programs that were linked so far holds after a run if it holds
before, if mutations and changes of a single material keep it, and if losing the context and
failing compilations keep it (`World.Preserved.run`). Versions grow as long as there are fewer
mutations than versions (`World.along_grows`).
-/

namespace ShaderComposer

theorem add_one_ne (v : UInt64) : v + 1 ≠ v := by
  intro same
  have zero : v + 1 = v + 0 := by rw [UInt64.add_zero]; exact same
  exact absurd ((UInt64.add_right_inj v).mp zero) (by decide)

/-! ### Replacing a material -/

namespace World

variable {w : World} {i j : Nat} {m n : Material} {b c : Backend}

theorem put_self (present : w.materials[i]? = some m) : w.put i m w.backend = w := by
  obtain ⟨materials, backend⟩ := w
  obtain ⟨inside, here⟩ := List.getElem?_eq_some_iff.mp present
  dsimp only at inside here
  simp only [put, ← here, List.set_getElem_self]

theorem put_put : (w.put i m b).put i n c = w.put i n c := by
  simp [put]

theorem getElem?_put (present : w.materials[i]? = some m) :
    (w.put i n c).materials[j]? = if j = i then some n else w.materials[j]? := by
  obtain ⟨inside, _⟩ := List.getElem?_eq_some_iff.mp present
  by_cases same : j = i
  · subst same
    simp [put, inside]
  · simp [put, same, List.getElem?_set_ne (Ne.symm same)]

theorem getElem?_put_self (present : w.materials[i]? = some m) :
    (w.put i n c).materials[i]? = some n := by
  rw [getElem?_put present, if_pos rfl]

theorem getElem?_put_ne (other : j ≠ i) : (w.put i n c).materials[j]? = w.materials[j]? := by
  simp [put, List.getElem?_set_ne (Ne.symm other)]

theorem exists_of_fresh {materials : List (String × Settings)} {limit : Nat}
    (present : (fresh materials limit).materials[i]? = some m) :
    ∃ name settings, m = .create name settings := by
  simp only [fresh, List.getElem?_map, Option.map_eq_some_iff] at present
  obtain ⟨⟨name, settings⟩, _, rfl⟩ := present
  exact ⟨name, settings, rfl⟩

theorem step_material {op : Operation} (present : w.materials[i]? = some m) :
    w.step (.material i op) =
      w.put i (op.perform m w.backend).material (op.perform m w.backend).backend := by
  simp only [step, present]

theorem link?_material {op : Operation} (present : w.materials[i]? = some m) :
    w.link? (.material i op) = op.link? m w.backend := by
  simp only [link?, present]

/-! ### Preserved properties -/

/-- The step does what is permitted to its material, and its version wraps only if it may. -/
def Permits (π : Nat → Permit) (w : World) : Step → Prop
  | .material i op => ∀ m, w.materials[i]? = some m →
    op.Permitted (π i) m w.backend ∧
      ((π i).wrap ∨ m.version ≤ (op.perform m w.backend).material.version)
  | _ => True

/-- A property that all permitted steps keep. -/
structure Preserved (π : Nat → Permit) (P : World → List Link → Prop) : Prop where
  mutated {w : World} {links : List Link} {i : Nat} {m n : Material} (holds : P w links)
    (present : w.materials[i]? = some m) (mutated : m.Mutated n)
    (grows : (π i).wrap ∨ m.version < n.version) : P (w.put i n w.backend) links
  changed {w : World} {links more : List Link} {i : Nat} {m n : Material} {c : Backend}
    (holds : P w links) (present : w.materials[i]? = some m)
    (change : Change (π i) m w.backend more n c) : P (w.put i n c) (links ++ more)
  contextLost {w : World} {links : List Link} (holds : P w links) :
    P { w with backend := w.backend.loseContext } links
  failing {w : World} {links : List Link} (stage : Option Stage) (log : String)
    (holds : P w links) : P { w with backend := w.backend.failNextCompile stage log } links

variable {π : Nat → Permit} {P : World → List Link → Prop}

theorem Preserved.changes (preserved : Preserved π P) {links more : List Link}
    (holds : P w links) (present : w.materials[i]? = some m)
    (changes : Changes (π i) m w.backend more n c) : P (w.put i n c) (links ++ more) := by
  generalize backend : w.backend = b at changes
  induction changes generalizing w links with
  | none =>
    rw [← backend, put_self present, List.append_nil]
    exact holds
  | @next m n o b c d first rest change _ ih =>
    subst backend
    have next := ih (preserved.changed holds present change) (getElem?_put_self present) rfl
    rwa [put_put, List.append_assoc] at next

theorem Preserved.step (preserved : Preserved π P) {links : List Link} {s : Step}
    (holds : P w links) (permits : w.Permits π s) :
    P (w.step s) (links ++ (w.link? s).toList) := by
  cases s with
  | material i op =>
    cases present : w.materials[i]? with
    | none => simpa [World.step, World.link?, present] using holds
    | some m =>
      obtain ⟨permitted, grows⟩ := permits m present
      rw [step_material present, link?_material present]
      rcases Operation.perform_cases permitted with ⟨mutated, backend, link⟩ | changes
      · rw [backend, link, Option.toList_none, List.append_nil]
        refine preserved.mutated holds present mutated (grows.imp_right fun le => ?_)
        rw [mutated.version] at le ⊢
        exact UInt64.lt_of_le_of_ne le (add_one_ne _).symm
      · exact preserved.changes holds present changes
  | loseContext => simpa [World.step, World.link?] using preserved.contextLost holds
  | failNextCompile stage log =>
    simpa [World.step, World.link?] using preserved.failing stage log holds

theorem Preserved.run (preserved : Preserved π P) (links : List Link) {steps : List Step}
    (holds : P w links) (along : Along (Permits π) w steps) :
    P (w.run steps) (links ++ w.links steps) := by
  induction steps generalizing w links with
  | nil => rwa [World.links, List.append_nil]
  | cons s rest ih =>
    obtain ⟨first, later⟩ := along
    have next := ih _ (preserved.step holds first) later
    rwa [List.append_assoc] at next

/-- A property of every material that its own mutations and changes keep. -/
theorem preserved_each {π : Permit} {Q : Material → Prop}
    (mutated : ∀ {m n : Material}, Q m → m.Mutated n → (π.wrap ∨ m.version < n.version) → Q n)
    (changed : ∀ {m n : Material} {b c : Backend} {links : List Link},
      Q m → Change π m b links n c → Q n) :
    Preserved (fun _ => π) fun w _ =>
      ∀ (i : Nat) (m : Material), w.materials[i]? = some m → Q m where
  mutated holds present changes grows j o found := by
    rw [getElem?_put present] at found
    split at found
    · obtain rfl := Option.some.inj found
      exact mutated (holds _ _ present) changes grows
    · exact holds j o found
  changed holds present change j o found := by
    rw [getElem?_put present] at found
    split at found
    · obtain rfl := Option.some.inj found
      exact changed (holds _ _ present) change
    · exact holds j o found
  contextLost holds := holds
  failing _ _ holds := holds

theorem Along.imp {P Q : World → Step → Prop} {steps : List Step} (along : Along P w steps)
    (imp : ∀ w s, P w s → Q w s) : Along Q w steps := by
  induction steps generalizing w with
  | nil => trivial
  | cons s rest ih => exact ⟨imp w s along.1, ih along.2⟩

theorem along_append {P : World → Step → Prop} {before after : List Step} :
    Along P w (before ++ after) ↔ Along P w before ∧ Along P (w.run before) after := by
  induction before generalizing w with
  | nil => simp [Along, run]
  | cons s rest ih => simp only [List.cons_append, Along, ih, run, List.foldl_cons, and_assoc]

theorem run_append (before after : List Step) :
    w.run (before ++ after) = (w.run before).run after :=
  List.foldl_append

/-! ### Versions -/

end World

theorem Change.version {π : Permit} {m n : Material} {b c : Backend} {links : List Link}
    (change : Change π m b links n c) : n.version = m.version := by
  cases change with
  | adjusted _ same _ => exact same.version
  | rejected _ =>
    unfold Material.retire
    split <;> rfl
  | composed _ | notComposed _ _ | linked _ _ _ _ | bound _ _ _ | lost _ | dropped _ | released _ =>
    rfl

theorem Changes.version {π : Permit} {m n : Material} {b c : Backend} {links : List Link}
    (changes : Changes π m b links n c) : n.version = m.version := by
  induction changes with
  | none => rfl
  | next change _ ih => rw [ih, change.version]

def Permit.any : Permit := ⟨True, True, True, True⟩

theorem Operation.permitted_any (m : Material) (b : Backend) (op : Operation) :
    op.Permitted .any m b :=
  ⟨fun _ => trivial, fun _ => Or.inl trivial, fun _ => trivial⟩

/-- An operation keeps the version or counts it up. -/
theorem Operation.version_perform (m : Material) (b : Backend) (op : Operation) :
    (op.perform m b).material.version = m.version ∨
      (op.perform m b).material.version = m.version + 1 := by
  rcases perform_cases (op.permitted_any m b) with ⟨mutated, _, _⟩ | changes
  · exact Or.inr mutated.version
  · exact Or.inl changes.version

namespace World

theorem along_any (w : World) (steps : List Step) : w.Along (Permits fun _ => .any) steps := by
  induction steps generalizing w with
  | nil => trivial
  | cons s rest ih =>
    refine ⟨?_, ih (w.step s)⟩
    cases s with
    | loseContext => trivial
    | failNextCompile stage log => trivial
    | material i op => exact fun m _ => ⟨op.permitted_any m w.backend, Or.inl trivial⟩

/-- The step wraps no version. -/
def Grows (w : World) : Step → Prop
  | .material i op => ∀ m, w.materials[i]? = some m →
    m.version ≤ (op.perform m w.backend).material.version
  | _ => True

theorem version?_put {w : World} {i j : Nat} {m n : Material} {c : Backend}
    (present : w.materials[i]? = some m) :
    (w.put i n c).version? j = if j = i then some n.version else w.version? j := by
  rw [version?, getElem?_put present]
  split <;> rfl

/-- A step keeps each version or counts it up. -/
theorem version?_step (w : World) (s : Step) (i : Nat) :
    (w.step s).version? i = w.version? i ∨
      ∃ v, w.version? i = some v ∧ (w.step s).version? i = some (v + 1) := by
  cases s with
  | loseContext => exact Or.inl rfl
  | failNextCompile stage log => exact Or.inl rfl
  | material j op =>
    cases present : w.materials[j]? with
    | none => exact Or.inl (by simp only [step, present])
    | some m =>
      rw [step_material present, version?_put present]
      by_cases same : i = j
      · subst same
        have before : w.version? i = some m.version := by simp only [version?, present, Option.map_some]
        rw [if_pos rfl, before]
        rcases op.version_perform m w.backend with kept | counted
        · exact Or.inl (by rw [kept])
        · exact Or.inr ⟨m.version, rfl, by rw [counted]⟩
      · exact Or.inl (if_neg same)

theorem toNat_add_one {v : UInt64} (h : v.toNat + 1 < UInt64.size) :
    (v + 1).toNat = v.toNat + 1 := by
  rw [UInt64.toNat_add]
  exact Nat.mod_eq_of_lt h

theorem few_step {w : World} {s : Step} {rest : List Step} {i : Nat} {v : UInt64}
    (few : ∀ v, w.version? i = some v → v.toNat + w.mutations i (s :: rest) < UInt64.size)
    (after : (w.step s).version? i = some v) :
    v.toNat + (w.step s).mutations i rest < UInt64.size := by
  rcases w.version?_step s i with kept | ⟨u, before, counted⟩
  · have now := few v (kept ▸ after)
    simpa [mutations, kept] using now
  · obtain rfl : u + 1 = v := Option.some.inj (counted.symm.trans after)
    have now := few u before
    have differs : (w.step s).version? i ≠ w.version? i := by
      rw [before, counted]
      exact fun same => add_one_ne u (Option.some.inj same)
    rw [mutations, if_neg differs] at now
    rw [toNat_add_one (by omega)]
    omega

theorem mutations_le_length (i : Nat) (w : World) (steps : List Step) :
    w.mutations i steps ≤ steps.length := by
  induction steps generalizing w with
  | nil => exact Nat.le_refl 0
  | cons s rest ih =>
    have later := ih (w.step s)
    rw [mutations, List.length_cons]
    split <;> omega

/-- A step links one program or none. -/
theorem length_links_le (w : World) (steps : List Step) : (w.links steps).length ≤ steps.length := by
  induction steps generalizing w with
  | nil => exact Nat.le_refl 0
  | cons s rest ih =>
    have first : (w.link? s).toList.length ≤ 1 := Option.length_toList_le
    have later := ih (w.step s)
    rw [links, List.length_append, List.length_cons]
    omega

/-- The step does not wrap the version of one material. -/
def GrowsAt (i : Nat) (w : World) : Step → Prop
  | .material j op => j = i → ∀ m, w.materials[j]? = some m →
    m.version ≤ (op.perform m w.backend).material.version
  | _ => True

theorem along_growsAt {w : World} {steps : List Step} {i : Nat}
    (few : ∀ v, w.version? i = some v → v.toNat + w.mutations i steps < UInt64.size) :
    w.Along (GrowsAt i) steps := by
  induction steps generalizing w with
  | nil => trivial
  | cons s rest ih =>
    refine ⟨?_, ih fun v after => few_step few after⟩
    cases s with
    | loseContext => trivial
    | failNextCompile stage log => trivial
    | material j op =>
      rintro rfl m present
      rcases op.version_perform m w.backend with kept | counted
      · exact UInt64.le_of_eq kept.symm
      · have after : (w.step (.material j op)).version? j = some (m.version + 1) := by
          rw [step_material present, version?_put present, if_pos rfl, counted]
        have before : w.version? j = some m.version := by
          simp only [version?, present, Option.map_some]
        have bound := few _ before
        have counts : (w.step (.material j op)).version? j ≠ w.version? j := by
          rw [before, after]
          exact fun same => add_one_ne _ (Option.some.inj same)
        rw [mutations, if_neg counts] at bound
        rw [counted, UInt64.le_iff_toNat_le, toNat_add_one (by omega)]
        omega

theorem along_forall {P : Nat → World → Step → Prop} {w : World} {steps : List Step}
    (each : ∀ i, w.Along (P i) steps) : w.Along (fun w s => ∀ i, P i w s) steps := by
  induction steps generalizing w with
  | nil => trivial
  | cons s rest ih => exact ⟨fun i => (each i).1, ih fun i => (each i).2⟩

/-- Versions grow along a run with fewer mutations of each material than there are versions. -/
theorem along_grows {w : World} {steps : List Step}
    (few : ∀ i v, w.version? i = some v → v.toNat + w.mutations i steps < UInt64.size) :
    w.Along Grows steps := by
  refine (along_forall fun i => along_growsAt (few i)).imp fun w s grows => ?_
  cases s with
  | loseContext => trivial
  | failNextCompile stage log => trivial
  | material i op => exact grows i rfl

end World

end ShaderComposer
