import ShaderComposer.Proofs.Numeric.Nearest

/-!
# Shortest decimals are shortest

The numbers that are rounded to one word lie next to each other. A decimal that reads back can
therefore be moved towards the exact number until it is a neighbour of it on its grid, so the search
from the coarsest grid down does not pass it; and it cannot have fewer digits than the neighbour
where the search stops. So no decimal of fewer digits reads back, and none that is as coarse is
nearer to the exact number.
-/

namespace ShaderComposer

theorem Decimal.units_eq (d : Decimal) : d.units = d.digits * 10 ^ d.power := rfl

theorem Decimal.digits_trim_lt {d : Decimal} {k : Nat} (bound : d.digits ≤ 10 ^ (k + 1)) :
    d.trim.digits < 10 ^ (k + 1) := by
  have power : 10 ^ (k + 1) = 10 * 10 ^ k := Nat.pow_succ'
  have positive : 0 < 10 ^ k := Nat.pow_pos (by decide)
  unfold trim
  split
  · show d.digits / 10 < _
    omega
  · show d.digits < _
    omega

theorem Decimal.power_le_trim (d : Decimal) : d.power ≤ d.trim.power := by
  unfold trim
  split
  · exact Nat.le_succ _
  · exact Nat.le_refl _

namespace Single

/-! ### Numbers with one nearest word -/

/-- The numbers that are nearer to `a` than to `b` are those on one side of the midpoint. -/
theorem abs_sub_le_abs_sub_iff {t a b : ℚ} :
    |t - a| ≤ |t - b| ↔ t * (2 * (b - a)) ≤ b ^ 2 - a ^ 2 := by
  have left : (t - a) ^ 2 = t ^ 2 - 2 * t * a + a ^ 2 := by ring
  have right : (t - b) ^ 2 = t ^ 2 - 2 * t * b + b ^ 2 := by ring
  rw [← sq_le_sq, left, right]
  constructor <;> intro nearer <;> linarith

theorem IsNearestAt.of_mem_between {t u v : ℚ} {m : Nat} (low : t ≤ u) (high : u ≤ v)
    (first : IsNearestAt t m) (last : IsNearestAt v m) : IsNearestAt u m := by
  constructor
  · intro other
    have before := abs_sub_le_abs_sub_iff.mp (first.nearest other)
    have after := abs_sub_le_abs_sub_iff.mp (last.nearest other)
    rw [abs_sub_le_abs_sub_iff]
    rcases le_total 0 (2 * ((unitsAt other : ℚ) - unitsAt m)) with side | side
    · exact (mul_le_mul_of_nonneg_right high side).trans after
    · exact (mul_le_mul_of_nonpos_right low side).trans before
  · intro other different tie
    have before := abs_sub_le_abs_sub_iff.mp (first.nearest other)
    have after := abs_sub_le_abs_sub_iff.mp (last.nearest other)
    have middle := abs_sub_le_abs_sub_iff.mp tie.le
    have apart : (unitsAt other : ℚ) ≠ unitsAt m := by
      exact_mod_cast fun same => different (unitsAt_strictMono.injective same)
    -- past the midpoint on the side of the other place no number is rounded to this one
    rcases apart.lt_or_gt with below | above
    · have same : t = u := by
        refine low.antisymm (le_of_not_gt fun lt => ?_)
        have beyond := mul_lt_mul_of_neg_right lt
          (show 2 * ((unitsAt other : ℚ) - unitsAt m) < 0 by linarith)
        linarith
      exact (same ▸ first).even other different tie
    · have same : v = u := by
        refine (le_of_not_gt fun lt => ?_).antisymm high
        have beyond := mul_lt_mul_of_pos_right lt
          (show 0 < 2 * ((unitsAt other : ℚ) - unitsAt m) by linarith)
        linarith
      exact (same ▸ last).even other different tie

/-! ### Decimals that read back -/

variable {x : Single}

theorem readsBack_iff (finite : x.isFinite = true) (d : Decimal) :
    x.readsBack d = true ↔ IsNearestAt ((d.units : ℚ) / Decimal.unitsPerUnit) x.place := by
  rw [readsBack, beq_iff_eq, Decimal.toSingle, round_eq_iff finite _ unitsPerUnit_pos]

theorem readsBack_of_mem_between (finite : x.isFinite = true) {d e f : Decimal}
    (low : d.units ≤ e.units) (high : e.units ≤ f.units) (first : x.readsBack d = true)
    (last : x.readsBack f = true) : x.readsBack e = true := by
  have scale : (0 : ℚ) < Decimal.unitsPerUnit := by exact_mod_cast unitsPerUnit_pos
  rw [readsBack_iff finite] at first last ⊢
  refine .of_mem_between ?_ ?_ first last
  · exact (div_le_div_iff_of_pos_right scale).mpr (by exact_mod_cast low)
  · exact (div_le_div_iff_of_pos_right scale).mpr (by exact_mod_cast high)

def exactDecimal (x : Single) : Decimal := ⟨x.decimalUnits, 0⟩

theorem units_exactDecimal (x : Single) : x.exactDecimal.units = x.decimalUnits := Nat.mul_one _

theorem readsBack_exactDecimal (finite : x.isFinite = true) : x.readsBack x.exactDecimal = true :=
  beq_iff_eq.mpr (toSingle_searchFrom finite 0)

/-! ### The neighbours on a grid -/

def lower (x : Single) (power : Nat) : Decimal := ⟨x.decimalUnits / 10 ^ power, power⟩

def upper (x : Single) (power : Nat) : Decimal := ⟨x.decimalUnits / 10 ^ power + 1, power⟩

theorem onGrid_eq (x : Single) (power : Nat) : x.onGrid power =
    if x.readsBack (x.lower power) && (decide (2 * x.decimalUnits <
        (x.lower power).units + (x.upper power).units) || !x.readsBack (x.upper power)) then
      some (x.lower power)
    else if x.readsBack (x.upper power) then some (x.upper power) else none := rfl

theorem lower_le (x : Single) (power : Nat) : (x.lower power).units ≤ x.decimalUnits :=
  Nat.div_mul_le_self _ _

theorem lt_upper (x : Single) (power : Nat) : x.decimalUnits < (x.upper power).units :=
  Nat.lt_mul_of_div_lt (Nat.lt_succ_self _) (Nat.pow_pos (by decide))

/-- A decimal that reads back lies beyond a neighbour of the exact number that reads back. -/
theorem beyond_neighbour (finite : x.isFinite = true) {d : Decimal} (reads : x.readsBack d = true) :
    d.units ≤ (x.lower d.power).units ∧ x.readsBack (x.lower d.power) = true ∨
      (x.upper d.power).units ≤ d.units ∧ x.readsBack (x.upper d.power) = true := by
  have positive : 0 < 10 ^ d.power := Nat.pow_pos (by decide)
  have exact := readsBack_exactDecimal finite
  rcases Nat.lt_or_ge x.decimalUnits d.units with above | below
  · have beyond : (x.upper d.power).units ≤ d.units :=
      Nat.mul_le_mul_right _ ((Nat.div_lt_iff_lt_mul positive).mpr above)
    refine Or.inr ⟨beyond, readsBack_of_mem_between finite ?_ beyond exact reads⟩
    rw [units_exactDecimal]
    exact (x.lt_upper d.power).le
  · have beyond : d.units ≤ (x.lower d.power).units :=
      Nat.mul_le_mul_right _ ((Nat.le_div_iff_mul_le positive).mpr below)
    refine Or.inl ⟨beyond, readsBack_of_mem_between finite beyond ?_ reads exact⟩
    rw [units_exactDecimal]
    exact x.lower_le d.power

theorem isSome_onGrid (finite : x.isFinite = true) {d : Decimal} (reads : x.readsBack d = true) :
    (x.onGrid d.power).isSome = true := by
  rw [onGrid_eq]
  split
  · rfl
  · next notLower =>
    split
    · rfl
    · next notUpper =>
      have alone := (Bool.not_eq_true' _).mpr (Bool.eq_false_of_not_eq_true notUpper)
      rcases beyond_neighbour finite reads with ⟨_, lower⟩ | ⟨_, upper⟩
      · exact absurd (Bool.and_eq_true_iff.mpr ⟨lower, Bool.or_eq_true_iff.mpr (Or.inr alone)⟩)
          notLower
      · exact absurd upper notUpper

/-- The hit is the nearer neighbour if both read back. -/
theorem neighbour_of_onGrid {power : Nat} {d : Decimal} (hit : x.onGrid power = some d) :
    d = x.lower power ∧ (x.readsBack (x.upper power) = true →
        2 * x.decimalUnits < (x.lower power).units + (x.upper power).units) ∨
      d = x.upper power ∧ (x.readsBack (x.lower power) = true →
        (x.lower power).units + (x.upper power).units ≤ 2 * x.decimalUnits) := by
  rw [onGrid_eq] at hit
  split at hit
  · next chosen =>
    cases hit
    refine Or.inl ⟨rfl, fun reads => ?_⟩
    simpa [reads] using (Bool.and_eq_true_iff.mp chosen).2
  · next refused =>
    split at hit
    · next reads =>
      cases hit
      refine Or.inr ⟨rfl, fun lower => ?_⟩
      simpa [reads, lower] using refused
    · cases hit

/-- Of the decimals on a grid that read back, the hit is nearest to the exact number. -/
theorem abs_sub_onGrid_le (finite : x.isFinite = true) {d e : Decimal}
    (hit : x.onGrid e.power = some d) (reads : x.readsBack e = true) :
    |(x.decimalUnits : ℤ) - d.units| ≤ |(x.decimalUnits : ℤ) - e.units| := by
  have below := x.lower_le e.power
  have above := x.lt_upper e.power
  rcases beyond_neighbour finite reads with ⟨beyond, lower⟩ | ⟨beyond, upper⟩
  · rw [abs_of_nonneg (show (0 : ℤ) ≤ x.decimalUnits - e.units by omega), abs_le]
    rcases neighbour_of_onGrid hit with ⟨rfl, _⟩ | ⟨rfl, nearer⟩
    · omega
    · have := nearer lower
      omega
  · rw [abs_of_nonpos (show (x.decimalUnits : ℤ) - e.units ≤ 0 by omega), abs_le]
    rcases neighbour_of_onGrid hit with ⟨rfl, nearer⟩ | ⟨rfl, _⟩
    · have := nearer upper
      omega
    · omega

/-! ### The search -/

/-- What the search from `power` down stops at. -/
structure IsCoarsest (x : Single) (power : Nat) (d : Decimal) : Prop where
  power_le : d.power ≤ power
  digits_le : d.digits ≤ x.decimalUnits / 10 ^ d.power + 1
  coarsest {p : Nat} : p ≤ power → (x.onGrid p).isSome = true → p ≤ d.power
  nearest {e : Decimal} : e.power = d.power → x.readsBack e = true →
    |(x.decimalUnits : ℤ) - d.units| ≤ |(x.decimalUnits : ℤ) - e.units|

/-- A decimal on a coarser grid is on the grid of the hit as well. -/
theorem IsCoarsest.abs_sub_le (finite : x.isFinite = true) {power : Nat} {d e : Decimal}
    (found : x.IsCoarsest power d) (reads : x.readsBack e = true) (coarse : d.power ≤ e.power) :
    |(x.decimalUnits : ℤ) - d.units| ≤ |(x.decimalUnits : ℤ) - e.units| := by
  obtain ⟨f, grid, same⟩ : ∃ f : Decimal, f.power = d.power ∧ f.units = e.units := by
    refine ⟨⟨e.digits * 10 ^ (e.power - d.power), d.power⟩, rfl, ?_⟩
    rw [Decimal.units_eq, Decimal.units_eq, Nat.mul_assoc, ← Nat.pow_add, Nat.sub_add_cancel coarse]
  have refined := readsBack_of_mem_between finite same.ge same.le reads reads
  rw [← same]
  exact found.nearest grid refined

theorem isCoarsest_searchFrom (finite : x.isFinite = true) (power : Nat) :
    x.IsCoarsest power (x.searchFrom power) := by
  induction power with
  | zero =>
    refine ⟨Nat.le_refl 0, Nat.le_succ_of_le (Nat.div_one _).ge, fun le _ => le, fun _ _ => ?_⟩
    have exact : (x.searchFrom 0).units = x.decimalUnits := x.units_exactDecimal
    rw [exact, Int.sub_self, abs_zero]
    exact abs_nonneg _
  | succ power ih =>
    rw [searchFrom]
    cases hit : x.onGrid (power + 1) with
    | some d =>
      obtain ⟨same, digits⟩ :
          d.power = power + 1 ∧ d.digits ≤ x.decimalUnits / 10 ^ (power + 1) + 1 := by
        rcases neighbour_of_onGrid hit with ⟨rfl, _⟩ | ⟨rfl, _⟩
        · exact ⟨rfl, Nat.le_succ _⟩
        · exact ⟨rfl, Nat.le_refl _⟩
      rw [← same] at digits hit ⊢
      exact ⟨Nat.le_refl _, digits, fun le _ => le,
        fun {e} grid reads => abs_sub_onGrid_le finite (grid ▸ hit) reads⟩
    | none =>
      refine ⟨Nat.le_succ_of_le ih.power_le, ih.digits_le, fun {p} le isSome => ?_, ih.nearest⟩
      have other : p ≠ power + 1 := by
        rintro rfl
        rw [hit] at isSome
        cases isSome
      exact ih.coarsest (by omega) isSome

/-! ### The number of digits -/

theorem digits_ne_zero_of_readsBack (finite : x.isFinite = true) (nonzero : x.units ≠ 0)
    {d : Decimal} (reads : x.readsBack d = true) : d.digits ≠ 0 := by
  intro zero
  have units : d.units = 0 := by
    show d.digits * _ = 0
    rw [zero, Nat.zero_mul]
  have origin := ((readsBack_iff finite d).mp reads).nearest 0
  rw [units, unitsAt_zero, Nat.cast_zero, zero_div, zero_sub, abs_neg, sub_zero, abs_zero,
    abs_nonpos_iff, Nat.cast_eq_zero, ← units_eq] at origin
  exact nonzero origin

theorem exists_length_toDigits {n : Nat} (positive : 0 < n) :
    ∃ top, (Nat.toDigits 10 n).length = top + 1 ∧ 10 ^ top ≤ n ∧ n < 10 ^ (top + 1) := by
  obtain ⟨top, length⟩ : ∃ top, (Nat.toDigits 10 n).length = top + 1 :=
    Nat.exists_eq_add_one.mpr Nat.length_toDigits_pos
  refine ⟨top, length, ?_, (Nat.length_toDigits_le_iff (by decide) (Nat.succ_pos top)).mp length.le⟩
  rcases Nat.eq_zero_or_pos top with rfl | more
  · exact positive
  · refine Nat.not_lt.mp fun lt => ?_
    have shorter := (Nat.length_toDigits_le_iff (by decide) more).mpr lt
    omega

/-- The grid of the first digit has a hit if some decimal that reads back lies on a coarser grid or
does not go past the power of ten there: that power, or the next one, is then between the decimal
and the exact number. -/
theorem isSome_onGrid_top (finite : x.isFinite = true) (nonzero : x.units ≠ 0) {top : Nat}
    (large : 10 ^ top ≤ x.decimalUnits) (small : x.decimalUnits < 10 ^ (top + 1)) {d : Decimal}
    (reads : x.readsBack d = true) (few : d.power ≤ top → d.units ≤ 10 ^ top) :
    (x.onGrid top).isSome = true := by
  rcases Nat.lt_or_ge top d.power with above | below
  · have some := Nat.pos_of_ne_zero (digits_ne_zero_of_readsBack finite nonzero reads)
    have low : x.exactDecimal.units ≤ (⟨10, top⟩ : Decimal).units := by
      rw [units_exactDecimal, Decimal.units_eq, ← Nat.pow_succ']
      exact small.le
    have high : (⟨10, top⟩ : Decimal).units ≤ d.units := by
      rw [Decimal.units_eq, Decimal.units_eq]
      calc 10 * 10 ^ top = 10 ^ (top + 1) := Nat.pow_succ'.symm
        _ ≤ 10 ^ d.power := Nat.pow_le_pow_right (by decide) above
        _ ≤ d.digits * 10 ^ d.power := Nat.le_mul_of_pos_left _ some
    exact isSome_onGrid (d := ⟨10, top⟩) finite
      (readsBack_of_mem_between finite low high (readsBack_exactDecimal finite) reads)
  · have low : d.units ≤ (⟨1, top⟩ : Decimal).units := by
      rw [Decimal.units_eq ⟨1, top⟩, Nat.one_mul]
      exact few below
    have high : (⟨1, top⟩ : Decimal).units ≤ x.exactDecimal.units := by
      rw [units_exactDecimal, Decimal.units_eq, Nat.one_mul]
      exact large
    exact isSome_onGrid (d := ⟨1, top⟩) finite
      (readsBack_of_mem_between finite low high reads (readsBack_exactDecimal finite))

/-- The decimal that is written has the fewest digits of all that read back. -/
theorem length_shortest_le (finite : x.isFinite = true) (nonzero : x.units ≠ 0) {d : Decimal}
    (reads : x.readsBack d = true) :
    (Nat.toDigits 10 x.shortest.digits).length ≤ (Nat.toDigits 10 d.digits).length := by
  have positive : 0 < x.decimalUnits :=
    Nat.mul_pos (Nat.pos_of_ne_zero nonzero) unitsPerUnit_pos
  obtain ⟨top, length, large, small⟩ := exists_length_toDigits positive
  have found := isCoarsest_searchFrom finite top
  have shortest : x.shortest = (x.searchFrom top).trim := by
    rw [Single.shortest, length, Nat.add_sub_cancel]
  generalize x.searchFrom top = r at found shortest
  obtain ⟨k, depth⟩ : ∃ k, top = r.power + k := Nat.exists_eq_add_of_le found.power_le
  have upper : (Nat.toDigits 10 x.shortest.digits).length ≤ k + 1 := by
    have quotient : x.decimalUnits / 10 ^ r.power < 10 ^ (k + 1) := by
      rw [Nat.div_lt_iff_lt_mul (Nat.pow_pos (by decide)), ← Nat.pow_add]
      rwa [show k + 1 + r.power = top + 1 by omega]
    have digits := found.digits_le
    rw [shortest, Nat.length_toDigits_le_iff (by decide) (Nat.succ_pos k)]
    exact Decimal.digits_trim_lt (by omega)
  refine upper.trans (Nat.not_lt.mp fun fewer => ?_)
  -- a decimal of at most `k` digits would have stopped the search at the first grid
  have some : 0 < k := Nat.lt_of_lt_of_le Nat.length_toDigits_pos (Nat.le_of_lt_succ fewer)
  have bound : d.digits < 10 ^ k :=
    (Nat.length_toDigits_le_iff (by decide) some).mp (Nat.le_of_lt_succ fewer)
  have few (below : d.power ≤ top) : d.units ≤ 10 ^ top := by
    have finer := found.coarsest below (isSome_onGrid finite reads)
    rw [Decimal.units_eq, depth, Nat.add_comm, Nat.pow_add]
    exact Nat.mul_le_mul bound.le (Nat.pow_le_pow_right (by decide) finer)
  have first := found.coarsest (Nat.le_refl top)
    (isSome_onGrid_top finite nonzero large small reads few)
  omega

/-- Of the decimals that read back and have no finer grid, the one that is written is nearest to the
exact number. -/
theorem abs_sub_shortest_le (finite : x.isFinite = true) {e : Decimal}
    (reads : x.readsBack e = true) (coarse : x.shortest.power ≤ e.power) :
    |(x.decimalUnits : ℤ) - x.shortest.units| ≤ |(x.decimalUnits : ℤ) - e.units| := by
  have found := isCoarsest_searchFrom finite ((Nat.toDigits 10 x.decimalUnits).length - 1)
  have grid := (Decimal.power_le_trim _).trans coarse
  rw [shortest, Decimal.units_trim]
  exact found.abs_sub_le finite reads grid

end Single

end ShaderComposer
