import Mathlib.Algebra.Order.Field.Basic
import Mathlib.Algebra.Order.Ring.Rat
import Mathlib.Order.Monotone.Basic
import Mathlib.Tactic.Linarith
import Mathlib.Tactic.Positivity
import Mathlib.Tactic.Ring
import ShaderComposer.Proofs.Numeric.Exactness

/-!
# Nearest words

The magnitudes of words are a scale of naturals that grows at every step, also where the exponent
goes up and the steps get twice as long. A rounded number is the place on this scale that is nearest
to it, of two places equally near the even one; there is no second such place. For words that is
rounding to nearest, ties to even: a word is what a number is rounded to if and only if no finite
word is nearer, its fraction is even when another one is as near, and the number lies below the
midpoint of the largest word and `2 ^ 128`.
-/

namespace ShaderComposer.Single

/-! ### The scale of magnitudes -/

/-- The units of the word with these 31 bits. The scale does not end at infinity. -/
def unitsAt (magnitude : Nat) : Nat :=
  if magnitude / 0x800000 = 0 then magnitude
  else (magnitude % 0x800000 + 0x800000) * 2 ^ (magnitude / 0x800000 - 1)

/-- The word without its sign. -/
def place (x : Single) : Nat := x.exponent * 0x800000 + x.fraction

theorem place_ofMagnitude (negative : Bool) {magnitude : Nat} (below : magnitude < 0x80000000) :
    (ofMagnitude negative magnitude).place = magnitude := by
  obtain ⟨_, exponent, fraction⟩ := fields_ofMagnitude negative below
  rw [place, exponent, fraction, Nat.div_add_mod']

theorem isFinite_iff_place_lt {x : Single} : x.isFinite = true ↔ x.place < 0x7f800000 := by
  have exponent := x.exponent_lt
  have fraction := x.fraction_lt
  unfold isFinite place
  rw [bne_iff_ne]
  omega

theorem units_eq (x : Single) : x.units = unitsAt x.place := by
  have below := x.fraction_lt
  have exponent : (x.exponent * 0x800000 + x.fraction) / 0x800000 = x.exponent := by omega
  have fraction : (x.exponent * 0x800000 + x.fraction) % 0x800000 = x.fraction := by omega
  unfold units unitsAt place
  rw [exponent, fraction, Nat.shiftLeft_eq]
  by_cases subnormal : x.exponent = 0
  · rw [if_pos subnormal, if_pos subnormal, subnormal, Nat.zero_mul, Nat.zero_add]
  · rw [if_neg subnormal, if_neg subnormal]

/-- Up to 24 bits, the first of them set unless the shift is none. -/
theorem unitsAt_shift {shift bits : Nat} (high : bits ≤ 0x1000000)
    (low : shift = 0 ∨ 0x800000 ≤ bits) :
    unitsAt (shift * 0x800000 + bits) = bits * 2 ^ shift := by
  unfold unitsAt
  by_cases subnormal : bits < 0x800000
  · obtain rfl : shift = 0 := by omega
    rw [if_pos (by omega), Nat.zero_mul, Nat.zero_add, Nat.pow_zero, Nat.mul_one]
  · rw [if_neg (by omega)]
    by_cases carry : bits = 0x1000000
    · have rest : (shift * 0x800000 + bits) % 0x800000 = 0 := by omega
      have exponent : (shift * 0x800000 + bits) / 0x800000 - 1 = shift + 1 := by omega
      rw [rest, exponent, carry, Nat.pow_succ']
      omega
    · have rest : (shift * 0x800000 + bits) % 0x800000 = bits - 0x800000 := by omega
      have exponent : (shift * 0x800000 + bits) / 0x800000 - 1 = shift := by omega
      rw [rest, exponent, Nat.sub_add_cancel (by omega)]

theorem exists_shift (magnitude : Nat) :
    ∃ shift bits, magnitude = shift * 0x800000 + bits ∧ bits < 0x1000000 ∧
      (shift = 0 ∨ 0x800000 ≤ bits) := by
  by_cases subnormal : magnitude < 0x800000
  · exact ⟨0, magnitude, by omega, by omega, Or.inl rfl⟩
  · exact ⟨magnitude / 0x800000 - 1, magnitude % 0x800000 + 0x800000, by omega, by omega,
      Or.inr (by omega)⟩

theorem unitsAt_strictMono : StrictMono unitsAt := by
  refine strictMono_nat_of_lt_succ fun magnitude => ?_
  obtain ⟨shift, bits, rfl, high, low⟩ := exists_shift magnitude
  have next : shift * 0x800000 + bits + 1 = shift * 0x800000 + (bits + 1) := Nat.add_assoc _ _ _
  rw [next, unitsAt_shift (Nat.le_of_lt high) low, unitsAt_shift high (by omega)]
  exact Nat.mul_lt_mul_of_pos_right (Nat.lt_succ_self bits) (Nat.two_pow_pos shift)

theorem unitsAt_zero : unitsAt 0 = 0 := rfl

/-! ### The nearest place -/

/-- No place on the scale is nearer to `t`, and one that is as near leaves the even one. -/
structure IsNearestAt (t : ℚ) (magnitude : Nat) : Prop where
  nearest (other : Nat) : |t - unitsAt magnitude| ≤ |t - unitsAt other|
  even (other : Nat) : other ≠ magnitude →
    |t - unitsAt other| = |t - unitsAt magnitude| → magnitude % 2 = 0

theorem IsNearestAt.not_lt {t : ℚ} {m n : Nat} (first : IsNearestAt t m)
    (second : IsNearestAt t n) : ¬ m < n := by
  intro below
  have tie : |t - unitsAt n| = |t - unitsAt m| := le_antisymm (second.nearest m) (first.nearest n)
  have evenFirst := first.even n (Nat.ne_of_gt below) tie
  have evenSecond := second.even m (Nat.ne_of_lt below) tie.symm
  -- two even places have one between them, and the midpoint of the two is nearer to that one
  have left : (unitsAt m : ℚ) < unitsAt (m + 1) := by
    exact_mod_cast unitsAt_strictMono (Nat.lt_succ_self m)
  have right : (unitsAt (m + 1) : ℚ) < unitsAt n := by
    exact_mod_cast unitsAt_strictMono (show m + 1 < n by omega)
  have middle : 2 * t = unitsAt m + unitsAt n := by
    rcases abs_eq_abs.mp tie with same | opposite
    · linarith
    · linarith
  have nearer : |t - unitsAt (m + 1)| < |t - unitsAt m| := by
    rw [abs_of_nonneg (show 0 ≤ t - unitsAt m by linarith), abs_lt]
    constructor <;> linarith
  exact absurd (first.nearest (m + 1)) (not_le.mpr nearer)

theorem IsNearestAt.unique {t : ℚ} {m n : Nat} (first : IsNearestAt t m)
    (second : IsNearestAt t n) : m = n :=
  Nat.le_antisymm (Nat.not_lt.mp (second.not_lt first)) (Nat.not_lt.mp (first.not_lt second))

/-- Between two neighbours on the scale only they are to be compared. -/
theorem IsNearestAt.of_between {t : ℚ} {a m : Nat} (low : (unitsAt a : ℚ) ≤ t)
    (high : t ≤ unitsAt (a + 1)) (side : m = a ∨ m = a + 1)
    (lower : |t - unitsAt m| ≤ |t - unitsAt a|) (upper : |t - unitsAt m| ≤ |t - unitsAt (a + 1)|)
    (even : |t - unitsAt a| = |t - unitsAt (a + 1)| → m % 2 = 0) : IsNearestAt t m := by
  have below {other : Nat} (lt : other < a) : |t - unitsAt a| < |t - unitsAt other| := by
    have ordered : (unitsAt other : ℚ) < unitsAt a := by exact_mod_cast unitsAt_strictMono lt
    rw [abs_of_nonneg (by linarith), abs_of_nonneg (by linarith)]
    linarith
  have above {other : Nat} (lt : a + 1 < other) :
      |t - unitsAt (a + 1)| < |t - unitsAt other| := by
    have ordered : (unitsAt (a + 1) : ℚ) < unitsAt other := by exact_mod_cast unitsAt_strictMono lt
    rw [abs_of_nonpos (by linarith), abs_of_nonpos (by linarith)]
    linarith
  have place (other : Nat) : other < a ∨ other = a ∨ other = a + 1 ∨ a + 1 < other := by omega
  constructor
  · intro other
    rcases place other with lt | rfl | rfl | lt
    · exact lower.trans (below lt).le
    · exact lower
    · exact upper
    · exact upper.trans (above lt).le
  · intro other different tie
    rcases place other with lt | rfl | rfl | lt
    · exact absurd tie (lower.trans_lt (below lt)).ne'
    · rw [side.resolve_left (Ne.symm different)] at tie even ⊢
      exact even tie
    · rw [side.resolve_right (Ne.symm different)] at tie even ⊢
      exact even tie.symm
    · exact absurd tie (upper.trans_lt (above lt)).ne'

/-! ### Rounding -/

/-- What lies within a step is rounded by the part of the step that it makes. -/
theorem IsNearestAt.of_step {shift bits rounded : Nat} {part : ℚ} (high : bits < 0x1000000)
    (low : shift = 0 ∨ 0x800000 ≤ bits) (nonneg : 0 ≤ part) (within : part < 2 ^ shift)
    (down : 2 * part < 2 ^ shift → rounded = bits)
    (up : 2 ^ shift < 2 * part → rounded = bits + 1)
    (half : 2 * part = 2 ^ shift → rounded = bits + bits % 2) :
    IsNearestAt (bits * 2 ^ shift + part) (shift * 0x800000 + rounded) := by
  have lower : (unitsAt (shift * 0x800000 + bits) : ℚ) = bits * 2 ^ shift := by
    rw [unitsAt_shift (Nat.le_of_lt high) low]
    push_cast
    rfl
  have upper : (unitsAt (shift * 0x800000 + bits + 1) : ℚ) = bits * 2 ^ shift + 2 ^ shift := by
    rw [Nat.add_assoc, unitsAt_shift high (low.imp_right Nat.le_succ_of_le)]
    push_cast
    ring
  have fromLower : |bits * 2 ^ shift + part - unitsAt (shift * 0x800000 + bits)| = part := by
    rw [lower, add_sub_cancel_left, abs_of_nonneg nonneg]
  have fromUpper :
      |bits * 2 ^ shift + part - unitsAt (shift * 0x800000 + bits + 1)| = 2 ^ shift - part := by
    rw [upper, add_sub_add_left_eq_sub, abs_of_nonpos (by linarith), neg_sub]
  have toLower := IsNearestAt.of_between (a := shift * 0x800000 + bits)
    (show _ ≤ bits * 2 ^ shift + part by linarith) (show _ ≤ _ by linarith) (Or.inl rfl)
  have toUpper := IsNearestAt.of_between (a := shift * 0x800000 + bits)
    (show _ ≤ bits * 2 ^ shift + part by linarith) (show _ ≤ _ by linarith) (Or.inr rfl)
  rw [fromLower, fromUpper] at toLower toUpper
  rcases lt_trichotomy (2 * part) (2 ^ shift) with below | middle | above
  · rw [down below]
    exact toLower le_rfl (by linarith) fun tie => by linarith
  · rw [half middle]
    rcases Nat.mod_two_eq_zero_or_one bits with even | odd
    · rw [even, Nat.add_zero]
      exact toLower le_rfl (by linarith) fun _ => by omega
    · rw [odd, ← Nat.add_assoc]
      exact toUpper (by linarith) le_rfl fun _ => by omega
  · rw [up above, ← Nat.add_assoc]
    exact toUpper (by linarith) le_rfl fun tie => by linarith

/-- The place that `round` takes on the scale. -/
def placeOf (num den : Nat) : Nat :=
  ((num / den).log2 - 23) * 0x800000 + roundDiv num (den <<< ((num / den).log2 - 23))

theorem round_eq (negative : Bool) (num den : Nat) :
    round negative num den =
      if placeOf num den < 0x7f800000 then ofMagnitude negative (placeOf num den)
      else infinity negative := rfl

theorem isNearestAt_placeOf (num : Nat) {den : Nat} (positive : 0 < den) :
    IsNearestAt ((num : ℚ) / den) (placeOf num den) := by
  have high := quotient_lt num den
  have low : (num / den).log2 - 23 = 0 ∨
      0x800000 ≤ num / (den <<< ((num / den).log2 - 23)) := by
    by_cases none : (num / den).log2 - 23 = 0
    · exact Or.inl none
    · exact Or.inr (le_quotient (by omega))
  unfold placeOf
  generalize (num / den).log2 - 23 = shift at *
  rw [Nat.shiftLeft_eq] at *
  have positive' : (0 : ℚ) < den := by exact_mod_cast positive
  have unit : (2 : ℚ) ^ shift = (den * 2 ^ shift : Nat) / den := by
    push_cast
    rw [mul_div_cancel_left₀ _ positive'.ne']
  have twice (n : Nat) : 2 * ((n : ℚ) / den) = (2 * n : Nat) / den := by
    push_cast
    rw [mul_div_assoc]
  -- whole steps, and the part of a step that is left over
  have value : (num : ℚ) / den =
      (num / (den * 2 ^ shift) : Nat) * 2 ^ shift + (num % (den * 2 ^ shift) : Nat) / den := by
    rw [unit, mul_div_assoc', ← add_div]
    have whole := (Nat.div_add_mod' num (den * 2 ^ shift)).symm
    exact_mod_cast congrArg (fun n : Nat => (n : ℚ) / den) whole
  have rest := Nat.mod_lt num (Nat.mul_pos positive (Nat.two_pow_pos shift))
  have compare {m n : Nat} : (m : ℚ) / den < n / den ↔ m < n := by
    rw [div_lt_div_iff_of_pos_right positive', Nat.cast_lt]
  rw [value]
  refine .of_step high low (by positivity) ?_ ?_ ?_ ?_
  · rw [unit, compare]
    exact rest
  · rw [unit, twice, compare]
    exact fun below => if_pos below
  · rw [unit, twice, compare]
    intro above
    exact (if_neg (by omega)).trans (if_pos above)
  · rw [unit, twice, div_left_inj' positive'.ne', Nat.cast_inj]
    intro half
    exact (if_neg (by omega)).trans (if_neg (by omega))

/-! ### The end of the scale -/

theorem unitsAt_largest : (unitsAt 0x7f7fffff : ℚ) = (2 ^ 24 - 1) * 2 ^ 253 := by
  have largest : 0x7f7fffff = 253 * 0x800000 + 0xffffff := by decide
  rw [largest, unitsAt_shift (by decide) (by decide)]
  norm_num

theorem unitsAt_infinity : (unitsAt 0x7f800000 : ℚ) = 2 ^ 24 * 2 ^ 253 := by
  have infinity : 0x7f800000 = 253 * 0x800000 + 0x1000000 := by decide
  rw [infinity, unitsAt_shift (by decide) (by decide)]
  norm_num

/-- Before the midpoint of the largest word and infinity the largest word is the nearer one. -/
theorem largest_nearer {t : ℚ} (inRange : t < (2 ^ 24 - 1 / 2) * 2 ^ 253) {other : Nat}
    (beyond : 0x7f800000 ≤ other) : |t - unitsAt 0x7f7fffff| < |t - unitsAt other| := by
  have far : (unitsAt 0x7f800000 : ℚ) ≤ unitsAt other := by
    exact_mod_cast unitsAt_strictMono.monotone beyond
  rw [unitsAt_infinity] at far
  rw [unitsAt_largest, abs_of_neg (show t - unitsAt other < 0 by linarith), abs_lt]
  constructor <;> linarith

/-- The places below infinity are those of the numbers before the midpoint. -/
theorem IsNearestAt.inRange {t : ℚ} {m : Nat} (place : IsNearestAt t m) (below : m < 0x7f800000) :
    t < (2 ^ 24 - 1 / 2) * 2 ^ 253 := by
  by_contra beyond
  have ordered : (unitsAt m : ℚ) ≤ unitsAt 0x7f7fffff := by
    exact_mod_cast unitsAt_strictMono.monotone (show m ≤ 0x7f7fffff by omega)
  have near := place.nearest 0x7f800000
  have far : |t - unitsAt 0x7f800000| ≤ t - unitsAt 0x7f7fffff := by
    rw [unitsAt_infinity, unitsAt_largest, abs_le]
    constructor <;> linarith
  have apart : 0 ≤ t - unitsAt m := by
    rw [unitsAt_largest] at ordered
    linarith
  rw [abs_of_nonneg apart] at near
  -- only the largest word is left, and it is odd
  have largest : m = 0x7f7fffff := by
    refine unitsAt_strictMono.injective ?_
    exact_mod_cast le_antisymm ordered (by linarith)
  have tie : |t - unitsAt 0x7f800000| = |t - unitsAt m| := by
    rw [abs_of_nonneg apart]
    refine le_antisymm ?_ near
    rwa [largest]
  have even := place.even 0x7f800000 (by omega) tie
  omega

/-! ### Nearest words -/

def signed (negative : Bool) (q : ℚ) : ℚ := if negative then -q else q

/-- The number that a finite word stands for. -/
def value (x : Single) : ℚ := x.signedUnits / 2 ^ 149

/-- A finite word with this sign is what `q` is rounded to: no finite word is nearer to `q`, and if
another number is as near then the last bit of the word is not set. What is not below the midpoint
of the largest word and `2 ^ 128` is rounded to no finite word. -/
structure IsNearest (x : Single) (negative : Bool) (q : ℚ) : Prop where
  sign : x.isNegative = negative
  isFinite : x.isFinite = true
  inRange : |q| < 2 ^ 128 - 2 ^ 103
  nearest (y : Single) : y.isFinite = true → |q - x.value| ≤ |q - y.value|
  even (y : Single) : y.isFinite = true → y.value ≠ x.value →
    |q - y.value| = |q - x.value| → x.fraction % 2 = 0

theorem value_eq (x : Single) : x.value = signed x.isNegative (unitsAt x.place / 2 ^ 149) := by
  unfold value signedUnits signed
  rw [units_eq]
  split
  · rw [Int.cast_neg, Int.cast_natCast, neg_div]
  · rw [Int.cast_natCast]

theorem place_eq_of_value_eq {x y : Single} (sign : x.isNegative = y.isNegative)
    (same : x.value = y.value) : x.place = y.place := by
  have scale : (2 : ℚ) ^ 149 ≠ 0 := by positivity
  rw [value_eq, value_eq, sign] at same
  have magnitude : (unitsAt x.place : ℚ) / 2 ^ 149 = unitsAt y.place / 2 ^ 149 := by
    cases sign : y.isNegative with
    | false => simpa only [signed, sign, Bool.false_eq_true, if_false] using same
    | true => simpa only [signed, sign, if_true, neg_inj] using same
  rw [div_left_inj' scale] at magnitude
  exact unitsAt_strictMono.injective (by exact_mod_cast magnitude)

/-- Words of the sign are as far as their places. -/
theorem distance_of_sign_eq {negative : Bool} {y : Single} (same : y.isNegative = negative)
    (t : ℚ) : |signed negative (t / 2 ^ 149) - y.value| = |t - unitsAt y.place| / 2 ^ 149 := by
  have scale : (0 : ℚ) < 2 ^ 149 := by positivity
  rw [value_eq, same]
  unfold signed
  split
  · rw [neg_sub_neg, ← sub_div, abs_div, abs_of_pos scale, abs_sub_comm]
  · rw [← sub_div, abs_div, abs_of_pos scale]

/-- Words of the other sign are past zero. -/
theorem distance_of_sign_ne {negative : Bool} {y : Single} (other : y.isNegative ≠ negative)
    {t : ℚ} (nonneg : 0 ≤ t) :
    |signed negative (t / 2 ^ 149) - y.value| = (t + unitsAt y.place) / 2 ^ 149 := by
  have sum : 0 ≤ (t + unitsAt y.place) / 2 ^ 149 := by positivity
  rw [value_eq, Bool.eq_not_of_ne other]
  cases negative
  · show |t / 2 ^ 149 - -(unitsAt y.place / 2 ^ 149)| = _
    rw [sub_neg_eq_add, ← add_div, abs_of_nonneg sum]
  · show |-(t / 2 ^ 149) - unitsAt y.place / 2 ^ 149| = _
    rw [← neg_add', ← add_div, abs_neg, abs_of_nonneg sum]

theorem inRange_iff {negative : Bool} {t : ℚ} (nonneg : 0 ≤ t) :
    |signed negative (t / 2 ^ 149)| < 2 ^ 128 - 2 ^ 103 ↔ t < (2 ^ 24 - 1 / 2) * 2 ^ 253 := by
  have magnitude : |signed negative (t / 2 ^ 149)| = t / 2 ^ 149 := by
    unfold signed
    split
    · rw [abs_neg, abs_of_nonneg (by positivity)]
    · rw [abs_of_nonneg (by positivity)]
  have limit : ((2 : ℚ) ^ 128 - 2 ^ 103) * 2 ^ 149 = (2 ^ 24 - 1 / 2) * 2 ^ 253 := by norm_num
  rw [magnitude, div_lt_iff₀ (by positivity), limit]

theorem fraction_mod_two (x : Single) : x.fraction % 2 = x.place % 2 := by
  unfold place
  omega

theorem IsNearestAt.isNearest {x : Single} {t : ℚ} (nearestAt : IsNearestAt t x.place)
    (nonneg : 0 ≤ t) (finite : x.isFinite = true) :
    x.IsNearest x.isNegative (signed x.isNegative (t / 2 ^ 149)) := by
  have scale : (0 : ℚ) < 2 ^ 149 := by positivity
  -- zero is one of the places, so words of the other sign are not nearer
  have origin : |t - unitsAt x.place| ≤ t := by
    have zero := nearestAt.nearest 0
    rwa [unitsAt_zero, Nat.cast_zero, sub_zero, abs_of_nonneg nonneg] at zero
  refine ⟨rfl, finite, ?_, fun y _ => ?_, fun y _ different tie => ?_⟩
  · exact (inRange_iff nonneg).mpr (nearestAt.inRange (isFinite_iff_place_lt.mp finite))
  · rw [distance_of_sign_eq rfl]
    by_cases same : y.isNegative = x.isNegative
    · rw [distance_of_sign_eq same, div_le_div_iff_of_pos_right scale]
      exact nearestAt.nearest y.place
    · rw [distance_of_sign_ne same nonneg, div_le_div_iff_of_pos_right scale]
      have : (0 : ℚ) ≤ unitsAt y.place := Nat.cast_nonneg _
      linarith
  · rw [distance_of_sign_eq rfl] at tie
    rw [fraction_mod_two]
    by_cases same : y.isNegative = x.isNegative
    · rw [distance_of_sign_eq same, div_left_inj' scale.ne'] at tie
      refine nearestAt.even y.place (fun place => different ?_) tie
      rw [value_eq, value_eq, same, place]
    · rw [distance_of_sign_ne same nonneg, div_left_inj' scale.ne'] at tie
      have : (0 : ℚ) ≤ unitsAt y.place := Nat.cast_nonneg _
      by_cases zero : x.place = 0
      · rw [zero]
      · refine nearestAt.even 0 (Ne.symm zero) ?_
        rw [unitsAt_zero, Nat.cast_zero, sub_zero, abs_of_nonneg nonneg]
        linarith

theorem IsNearest.isNearestAt {x : Single} {negative : Bool} {t : ℚ}
    (word : x.IsNearest negative (signed negative (t / 2 ^ 149))) (nonneg : 0 ≤ t) :
    IsNearestAt t x.place := by
  have scale : (0 : ℚ) < 2 ^ 149 := by positivity
  have inRange := (inRange_iff nonneg).mp word.inRange
  have below := isFinite_iff_place_lt.mp word.isFinite
  -- every place below infinity is the place of a word with the sign
  have each {m : Nat} (lt : m < 0x7f800000) : (ofMagnitude negative m).isFinite = true ∧
      (ofMagnitude negative m).isNegative = negative ∧ (ofMagnitude negative m).place = m := by
    have place := place_ofMagnitude negative (show m < 0x80000000 by omega)
    refine ⟨?_, (fields_ofMagnitude negative (by omega)).1, place⟩
    rwa [isFinite_iff_place_lt, place]
  have nearest {m : Nat} (lt : m < 0x7f800000) : |t - unitsAt x.place| ≤ |t - unitsAt m| := by
    obtain ⟨finite, sign, place⟩ := each lt
    have near := word.nearest _ finite
    rwa [distance_of_sign_eq word.sign, distance_of_sign_eq sign, place,
      div_le_div_iff_of_pos_right scale] at near
  have nearer {m : Nat} (beyond : 0x7f800000 ≤ m) : |t - unitsAt x.place| < |t - unitsAt m| :=
    (nearest (by decide)).trans_lt (largest_nearer inRange beyond)
  constructor
  · intro m
    rcases Nat.lt_or_ge m 0x7f800000 with lt | beyond
    · exact nearest lt
    · exact (nearer beyond).le
  · intro m different tie
    rcases Nat.lt_or_ge m 0x7f800000 with lt | beyond
    · obtain ⟨finite, sign, place⟩ := each lt
      rw [← fraction_mod_two]
      refine word.even _ finite (fun same => different ?_) ?_
      · rw [← place, place_eq_of_value_eq (sign.trans word.sign.symm) same]
      · rw [distance_of_sign_eq word.sign, distance_of_sign_eq sign, place, tie]
    · exact absurd tie (nearer beyond).ne'

/-- A quotient is rounded to a finite word just when the place of the word is nearest to it. -/
theorem round_eq_iff {x : Single} (finite : x.isFinite = true) (num : Nat) {den : Nat}
    (positive : 0 < den) :
    round x.isNegative num den = x ↔ IsNearestAt ((num : ℚ) / den) x.place := by
  have placed := isNearestAt_placeOf num positive
  constructor
  · intro word
    have below : placeOf num den < 0x7f800000 := by
      by_contra beyond
      have infinite (negative : Bool) : (infinity negative).isFinite = false := by
        cases negative <;> decide
      rw [← word, round_eq, if_neg beyond, infinite] at finite
      cases finite
    have place : x.place = placeOf num den := by
      calc x.place = (round x.isNegative num den).place := by rw [word]
        _ = placeOf num den := by
          rw [round_eq, if_pos below, place_ofMagnitude _ (by omega)]
    rwa [place]
  · intro nearest
    rw [round_eq, ← nearest.unique placed, if_pos (isFinite_iff_place_lt.mp finite)]
    exact x.eq_ofMagnitude

/-- Rounding to nearest, ties to even: the word that a quotient is rounded to. -/
theorem isNearest_iff {x : Single} {negative : Bool} (num : Nat) {den : Nat} (positive : 0 < den) :
    x.IsNearest negative (signed negative (num / den / 2 ^ 149)) ↔
      x.isFinite = true ∧ round negative num den = x := by
  have nonneg : (0 : ℚ) ≤ num / den := by positivity
  constructor
  · intro word
    have nearest := word.isNearestAt nonneg
    rw [← word.sign]
    exact ⟨word.isFinite, (round_eq_iff word.isFinite num positive).mpr nearest⟩
  · rintro ⟨finite, word⟩
    obtain rfl : x.isNegative = negative := by rw [← word, isNegative_round]
    exact ((round_eq_iff finite num positive).mp word).isNearest nonneg finite

end ShaderComposer.Single
