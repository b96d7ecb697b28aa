import ShaderComposer.Proofs.Material.TextureUnits

/-!
# Plans of texture units

The first owner of units is the material itself, and the effects follow in order. A plan gives each
owner as many units as it asks for, from where the owner before it ends on, so every unit below the
total has one owner and no other unit has any (`UnitPlan.Tiles`). A plan is refused if and only if
the owners together ask for more than the limit (`UnitPlan.assigns_tiles`).
-/

namespace ShaderComposer.UnitPlan

variable {start i : Nat} {counts : List Nat}

/-- The units of an owner: the material's own, then those of each effect. -/
def ownerRange (p : UnitPlan) : Nat → UnitRange
  | 0 => p.coreRange
  | i + 1 => p.effectRange i

/-- Every owner has its count of units, right after the owner before it. -/
structure Tiles (p : UnitPlan) (core : Nat) (counts : List Nat) : Prop where
  own : p.coreRange = ⟨0, core⟩
  follows (i : Nat) : i < counts.length → (p.ownerRange (i + 1)).start = (p.ownerRange i).stop
  sized (i count : Nat) : counts[i]? = some count →
    (p.effectRange i).stop = (p.effectRange i).start + count
  past (i : Nat) : counts.length ≤ i → (p.effectRange i).toList = []
  disjoint (i j : Nat) : i ≠ j → (p.ownerRange i).toList.Disjoint (p.ownerRange j).toList
  covers (u : Nat) : u < p.total ↔ ∃ i, u ∈ (p.ownerRange i).toList
  total : p.total = core + counts.sum

/-! ### Ranges in a row -/

theorem requested_eq (core : Nat) (counts : List Nat) :
    requested core counts = core + counts.sum := by
  unfold requested
  induction counts generalizing core with
  | nil => rfl
  | cons count rest ih => rw [List.foldl_cons, ih, List.sum_cons, Nat.add_assoc]

theorem getElem?_ranges (start : Nat) (counts : List Nat) (i : Nat) :
    (ranges start counts)[i]? = counts[i]?.map fun count =>
      ⟨start + (counts.take i).sum, start + (counts.take i).sum + count⟩ := by
  induction counts generalizing start i with
  | nil => rfl
  | cons count rest ih =>
    cases i with
    | zero => rfl
    | succ i =>
      have later := ih (start + count) i
      rw [Nat.add_assoc start count] at later
      exact later

/-- The range of an effect begins after all units of the owners before it. -/
theorem effectRange_ofCounts {core count : Nat} (found : counts[i]? = some count) :
    (ofCounts core counts).effectRange i =
      ⟨core + (counts.take i).sum, core + (counts.take i).sum + count⟩ := by
  unfold effectRange ofCounts
  rw [List.getD_eq_getElem?_getD, getElem?_ranges, found]
  rfl

theorem effectRange_ofCounts_past (core : Nat) (past : counts.length ≤ i) :
    (ofCounts core counts).effectRange i = ⟨0, 0⟩ := by
  unfold effectRange ofCounts
  rw [List.getD_eq_getElem?_getD, getElem?_ranges, List.getElem?_eq_none past]
  rfl

theorem stop_ownerRange (core : Nat) (inside : i ≤ counts.length) :
    ((ofCounts core counts).ownerRange i).stop = core + (counts.take i).sum := by
  cases i with
  | zero => rfl
  | succ i =>
    have found := List.getElem?_eq_getElem (show i < counts.length by omega)
    have sums : (counts.take (i + 1)).sum = (counts.take i).sum + counts[i] := by
      rw [List.take_add_one, found, Option.toList_some, List.sum_append, List.sum_singleton]
    show ((ofCounts core counts).effectRange i).stop = _
    rw [effectRange_ofCounts found, sums, Nat.add_assoc]

theorem sum_take_le (counts : List Nat) {i j : Nat} (le : i ≤ j) :
    (counts.take i).sum ≤ (counts.take j).sum := by
  have split : (counts.take j).take i ++ (counts.take j).drop i = counts.take j :=
    List.take_append_drop i _
  rw [List.take_take, Nat.min_eq_left le] at split
  rw [← split, List.sum_append]
  exact Nat.le_add_right _ _

/-- What an owner has lies between where the one before it ends and where it ends itself. -/
theorem mem_ownerRange {core u : Nat} :
    u ∈ ((ofCounts core counts).ownerRange i).toList ↔
      match i with
      | 0 => u < core
      | i + 1 => i < counts.length ∧ core + (counts.take i).sum ≤ u ∧
          u < core + (counts.take (i + 1)).sum := by
  rw [UnitRange.mem_toList]
  cases i with
  | zero =>
    show 0 ≤ u ∧ u < core ↔ u < core
    omega
  | succ i =>
    by_cases inside : i < counts.length
    · have ends := stop_ownerRange core (show i + 1 ≤ counts.length from inside)
      have found := List.getElem?_eq_getElem inside
      have starts : ((ofCounts core counts).ownerRange (i + 1)).start =
          core + (counts.take i).sum :=
        congrArg UnitRange.start (effectRange_ofCounts found)
      rw [starts, ends]
      dsimp only
      omega
    · have nothing := effectRange_ofCounts_past core (Nat.not_lt.mp inside)
      show ((ofCounts core counts).effectRange i).start ≤ u ∧
        u < ((ofCounts core counts).effectRange i).stop ↔ _
      rw [nothing]
      dsimp only
      omega

/-! ### Tilings -/

theorem disjoint_of_lt {core j : Nat} (lt : i < j) :
    ((ofCounts core counts).ownerRange i).toList.Disjoint
      ((ofCounts core counts).ownerRange j).toList := by
  intro u here there
  rw [mem_ownerRange] at here there
  obtain ⟨j, rfl⟩ := Nat.exists_eq_succ_of_ne_zero (show j ≠ 0 by omega)
  have order := sum_take_le counts (show i ≤ j by omega)
  cases i <;> dsimp only at here there <;> omega

/-- A unit that the first owners take up has one of them. -/
theorem exists_owner {core u : Nat} (k : Nat) (below : u < core + (counts.take k).sum) :
    ∃ i, u ∈ ((ofCounts core counts).ownerRange i).toList := by
  induction k with
  | zero => exact ⟨0, mem_ownerRange.mpr below⟩
  | succ k ih =>
    by_cases earlier : u < core + (counts.take k).sum
    · exact ih earlier
    · have inside : k < counts.length := by
        by_contra past
        rw [List.take_of_length_le (show counts.length ≤ k + 1 by omega)] at below
        rw [List.take_of_length_le (show counts.length ≤ k by omega)] at earlier
        exact earlier below
      exact ⟨k + 1, mem_ownerRange.mpr ⟨inside, Nat.not_lt.mp earlier, below⟩⟩

theorem below_of_owner {core u : Nat} (mem : u ∈ ((ofCounts core counts).ownerRange i).toList) :
    u < core + counts.sum := by
  rw [mem_ownerRange] at mem
  cases i with
  | zero => exact Nat.lt_of_lt_of_le mem (Nat.le_add_right _ _)
  | succ i =>
    have order := sum_take_le counts (show i + 1 ≤ counts.length from mem.1)
    rw [List.take_length] at order
    omega

theorem tiles_ofCounts (core : Nat) (counts : List Nat) :
    (ofCounts core counts).Tiles core counts := by
  constructor
  case own => rfl
  case follows =>
    intro i inside
    have found := List.getElem?_eq_getElem inside
    rw [stop_ownerRange core (Nat.le_of_lt inside)]
    exact congrArg UnitRange.start (effectRange_ofCounts found)
  case sized =>
    intro i count found
    rw [effectRange_ofCounts found]
  case past =>
    intro i past
    rw [effectRange_ofCounts_past core past]
    rfl
  case disjoint =>
    intro i j apart
    rcases Nat.lt_or_gt_of_ne apart with lt | gt
    · exact disjoint_of_lt lt
    · exact List.disjoint_symm (disjoint_of_lt gt)
  case covers =>
    intro u
    rw [total_ofCounts]
    constructor
    · intro below
      rw [← List.take_length (l := counts)] at below
      exact exists_owner _ below
    · rintro ⟨i, mem⟩
      exact below_of_owner mem
  case total => exact total_ofCounts core counts

/-- Units are refused if and only if more than the limit are asked for, and the refusal names how
many; otherwise the plan has no gaps and no overlaps. -/
theorem assigns_tiles (core : Nat) (counts : List Nat) (limit : Nat) :
    (∀ e, assign core counts limit = .error e ↔
      limit < core + counts.sum ∧ e = .tooManyTextures (core + counts.sum) limit) ∧
    (∀ p, assign core counts limit = .ok p ↔
      core + counts.sum ≤ limit ∧ p = ofCounts core counts) ∧
    (ofCounts core counts).Tiles core counts := by
  refine ⟨fun e => ?_, fun p => ?_, tiles_ofCounts core counts⟩
  · unfold assign
    rw [requested_eq]
    split
    · next exceeds => simp [exceeds, eq_comm]
    · next fits => simp [fits]
  · unfold assign
    rw [requested_eq]
    split
    · next exceeds =>
      have beyond : ¬ core + counts.sum ≤ limit := Nat.not_le.mpr exceeds
      simp [beyond]
    · next fits =>
      have within := Nat.not_lt.mp fits
      simp [within, ofCounts, eq_comm]

/-- An effect without textures is between two that have some. -/
example : assign 2 [1, 0, 3] 8 = .ok ⟨2, [⟨2, 3⟩, ⟨3, 3⟩, ⟨3, 6⟩]⟩ := rfl

end ShaderComposer.UnitPlan
