import ShaderComposer.Proofs.Glsl.Sameness

/-!
# Exact sums and products

The few sums, products and quotients that are exact whatever the operands round to: a number less
itself is zero unless it is no number, zero more than a number without a sign is that number, and
zero times a finite one is zero. A count has a finite reciprocal unless it is zero, and a count of at
most 24 bits is not rounded.
-/

namespace ShaderComposer.Single

/-! ### Words of rounded values -/

theorem fields_ofMagnitude (negative : Bool) {magnitude : Nat} (below : magnitude < 0x80000000) :
    (ofMagnitude negative magnitude).isNegative = negative ∧
      (ofMagnitude negative magnitude).exponent = magnitude / 0x800000 ∧
      (ofMagnitude negative magnitude).fraction = magnitude % 0x800000 := by
  have word : (ofMagnitude negative magnitude).bits.toNat =
      (if negative then 0x80000000 else 0) + magnitude := by
    apply UInt32.toNat_ofNat_of_lt'
    have size : UInt32.size = 0x100000000 := rfl
    rw [size]
    cases negative <;> simp only [Bool.false_eq_true, if_true, if_false] <;> omega
  unfold isNegative exponent fraction
  simp only [word, Nat.shiftRight_eq_div_pow]
  cases negative with
  | false =>
    simp only [Bool.false_eq_true, if_false]
    refine ⟨beq_eq_false_iff_ne.mpr ?_, ?_, ?_⟩ <;> omega
  | true =>
    simp only [if_true]
    refine ⟨beq_iff_eq.mpr ?_, ?_, ?_⟩ <;> omega

/-- A word up to infinity is a number. -/
theorem isNaN_ofMagnitude (negative : Bool) {magnitude : Nat} (bound : magnitude ≤ 0x7f800000) :
    (ofMagnitude negative magnitude).isNaN = false := by
  obtain ⟨_, exponent, fraction⟩ := fields_ofMagnitude negative (show magnitude < 0x80000000 by omega)
  unfold isNaN
  rw [exponent, fraction]
  by_cases last : magnitude / 0x800000 = 255
  · have : magnitude % 0x800000 = 0 := by omega
    simp [this]
  · simp [last]

theorem isFinite_iff {x : Single} : x.isFinite = true ↔ x.isNaN = false ∧ x.isInfinite = false := by
  unfold isFinite isNaN isInfinite
  by_cases last : x.exponent = 255 <;> by_cases none : x.fraction = 0 <;> simp [last, none]

theorem isFinite_of_isZero {x : Single} (zero : x.isZero = true) : x.isFinite = true := by
  simp only [isZero, Bool.and_eq_true] at zero
  exact zero.1

theorem exists_round (negative : Bool) (num den : Nat) :
    ∃ magnitude ≤ 0x7f800000, round negative num den = ofMagnitude negative magnitude := by
  unfold round
  dsimp only
  split
  · next below => exact ⟨_, Nat.le_of_lt below, rfl⟩
  · exact ⟨0x7f800000, Nat.le_refl _, rfl⟩

theorem isNegative_round (negative : Bool) (num den : Nat) :
    (round negative num den).isNegative = negative := by
  obtain ⟨magnitude, bound, rounded⟩ := exists_round negative num den
  rw [rounded]
  exact (fields_ofMagnitude negative (by omega)).1

theorem isNaN_round (negative : Bool) (num den : Nat) : (round negative num den).isNaN = false := by
  obtain ⟨magnitude, bound, rounded⟩ := exists_round negative num den
  rw [rounded]
  exact isNaN_ofMagnitude negative bound

theorem round_zero (negative : Bool) {den : Nat} (positive : 0 < den) :
    round negative 0 den = ofMagnitude negative 0 := by
  have nothing : roundDiv 0 (den <<< 0) = 0 := by
    unfold roundDiv
    rw [Nat.shiftLeft_zero, Nat.zero_div, Nat.zero_mod]
    exact if_pos (by omega)
  unfold round
  rw [Nat.zero_div]
  dsimp only
  rw [show Nat.log2 0 - 23 = 0 from rfl, nothing]
  rfl

/-! ### Sums -/

theorem neg_neg (x : Single) : x.neg.neg = x := by
  unfold neg
  rw [Single.mk.injEq]
  show x.bits ^^^ 0x80000000 ^^^ 0x80000000 = x.bits
  rw [UInt32.xor_assoc, UInt32.xor_self, UInt32.xor_zero]

theorem neg_eq (x : Single) :
    x.neg = ofMagnitude (!x.isNegative) (x.exponent * 0x800000 + x.fraction) := by
  have word := x.eq_ofMagnitude
  have bound := x.magnitude_lt
  cases sign : x.isNegative with
  | true =>
    rw [sign] at word
    exact (congrArg neg word.symm).trans (neg_ofMagnitude_true bound)
  | false =>
    rw [sign, ← neg_ofMagnitude_true bound] at word
    exact (congrArg neg word.symm).trans (neg_neg _)

theorem fields_neg (x : Single) :
    x.neg.isNegative = (!x.isNegative) ∧ x.neg.exponent = x.exponent ∧
      x.neg.fraction = x.fraction := by
  have bound := x.magnitude_lt
  have below := x.fraction_lt
  obtain ⟨sign, exponent, fraction⟩ := fields_ofMagnitude (!x.isNegative) bound
  rw [neg_eq]
  refine ⟨sign, exponent.trans ?_, fraction.trans ?_⟩ <;> omega

theorem sub_self (x : Single) : x - x = if x.isFinite then zero else nan := by
  obtain ⟨sign, exponent, fraction⟩ := x.fields_neg
  have number : x.neg.isNaN = x.isNaN := by rw [isNaN, isNaN, exponent, fraction]
  have infinite : x.neg.isInfinite = x.isInfinite := by
    rw [isInfinite, isInfinite, exponent, fraction]
  have units : x.neg.units = x.units := by rw [Single.units, Single.units, exponent, fraction]
  show x.sub x = _
  unfold sub add
  rw [number, infinite]
  by_cases finite : x.isFinite = true
  · have plain := isFinite_iff.mp finite
    have sum : x.signedUnits + x.neg.signedUnits = 0 := by
      unfold signedUnits
      rw [sign, units]
      cases x.isNegative <;>
        simp only [Bool.not_true, Bool.not_false, Bool.false_eq_true, if_true, if_false] <;> omega
    have unsigned : (x.isNegative && x.neg.isNegative && x.isZero && x.neg.isZero) = false := by
      rw [sign]
      cases x.isNegative <;> rfl
    simp only [plain, sum, unsigned, finite, Bool.or_self, Bool.false_eq_true, if_false, if_true]
    exact round_zero false Nat.one_pos
  · cases number : x.isNaN with
    | true => simp [finite]
    | false =>
      have infinite : x.isInfinite = true := by simpa [isFinite_iff, number] using finite
      simp [infinite, sign, finite]

/-- A number without a sign. -/
structure IsUnsigned (x : Single) : Prop where
  isNaN : x.isNaN = false
  isNegative : x.isNegative = false

theorem isUnsigned_zero : zero.IsUnsigned := ⟨by decide, by decide⟩

theorem isUnsigned_round (num den : Nat) : (round false num den).IsUnsigned :=
  ⟨isNaN_round false num den, isNegative_round false num den⟩

namespace IsUnsigned

variable {x y : Single}

/-- Adding what is not below zero gives no sign. -/
theorem add (time : x.IsUnsigned) (number : y.isNaN = false)
    (forward : y.isNegative = true → y.isZero = true) : (x + y).IsUnsigned := by
  -- with the sign it is zero, so it is not infinite
  have unsigned : y.isInfinite = true → y.isNegative = false := by
    intro infinite
    cases negative : y.isNegative with
    | false => rfl
    | true =>
      have bounded := (isFinite_iff.mp (isFinite_of_isZero (forward negative))).2
      rw [infinite] at bounded
      cases bounded
  show (x.add y).IsUnsigned
  unfold Single.add
  rw [time.isNaN, number, time.isNegative]
  cases infinite : x.isInfinite with
  | true =>
    have same : (y.isInfinite && false != y.isNegative) = false := by
      cases large : y.isInfinite with
      | true => simp [unsigned large]
      | false => rfl
    simp only [same, Bool.or_self, Bool.false_eq_true, if_false, if_true]
    exact time
  | false =>
    cases large : y.isInfinite with
    | true =>
      simp only [Bool.or_self, Bool.false_eq_true, if_false, if_true]
      exact ⟨number, unsigned large⟩
    | false =>
      have nonneg : 0 ≤ x.signedUnits + y.signedUnits := by
        unfold signedUnits
        rw [time.isNegative]
        cases negative : y.isNegative with
        | false => simp; omega
        | true =>
          have nothing : y.units = 0 := by
            have zero := forward negative
            simp only [isZero, Bool.and_eq_true, beq_iff_eq] at zero
            exact zero.2
          simp [nothing]
      have sign : (if x.signedUnits + y.signedUnits = 0 then
          (false && y.isNegative && x.isZero && y.isZero)
          else decide (x.signedUnits + y.signedUnits < 0)) = false := by
        split
        · rfl
        · exact decide_eq_false (by omega)
      simp only [Bool.or_self, Bool.false_eq_true, if_false]
      rw [sign]
      exact isUnsigned_round _ _

theorem add_zero (time : x.IsUnsigned) : x + zero = x := by
  show x.add zero = x
  unfold Single.add
  rw [time.isNaN, time.isNegative, isUnsigned_zero.isNaN, isUnsigned_zero.isNegative,
    show zero.isInfinite = false from by decide, show zero.signedUnits = 0 from by decide]
  cases infinite : x.isInfinite with
  | true => simp
  | false =>
    have exact : x.signedUnits = x.units := by simp [signedUnits, time.isNegative]
    have word := round_units (isFinite_iff.mpr ⟨time.isNaN, infinite⟩)
    rw [time.isNegative] at word
    have sign : (if x.signedUnits + 0 = 0 then (false && false && x.isZero && zero.isZero)
        else decide (x.signedUnits + 0 < 0)) = false := by
      split
      · rfl
      · exact decide_eq_false (by omega)
    simp only [Bool.or_self, Bool.false_eq_true, if_false]
    rw [sign, exact, Int.add_zero, Int.natAbs_natCast]
    exact word

end IsUnsigned

theorem max_zero (x : Single) :
    (x.max zero).isNaN = false ∧ ((x.max zero).isNegative = true → (x.max zero).isZero = true) := by
  unfold max
  rw [isUnsigned_zero.isNaN]
  cases number : x.isNaN with
  | true => exact ⟨isUnsigned_zero.isNaN, fun _ => (by decide : zero.isZero = true)⟩
  | false =>
    simp only [Bool.false_eq_true, if_false]
    split
    · exact ⟨isUnsigned_zero.isNaN, fun _ => by decide⟩
    · next above =>
      refine ⟨number, fun negative => ?_⟩
      have rank : 0 ≤ x.rank := by
        have zeros : zero.rank = 0 := by decide
        simpa [lt, number, isUnsigned_zero.isNaN, zeros] using above
      rw [rank_eq, if_pos negative] at rank
      exact isZero_iff.mpr ⟨by omega, by omega⟩

/-! ### Products -/

theorem floorCount_zero_mul (x : Single) : (zero * x).floorCount = 0 := by
  show (zero.mul x).floorCount = 0
  unfold mul
  rw [isUnsigned_zero.isNaN, show zero.isInfinite = false from by decide,
    show zero.isZero = true from by decide, show zero.units = 0 from by decide]
  have nothing : nan.floorCount = 0 := by decide
  dsimp only
  cases x.isNaN with
  | true => exact nothing
  | false =>
    cases x.isInfinite with
    | true => exact nothing
    | false =>
      simp only [Bool.or_self, Bool.false_eq_true, if_false]
      rw [Nat.zero_mul, round_zero _ (show 0 < 1 <<< 149 by decide)]
      cases zero.isNegative != x.isNegative <;> decide

theorem zero_mul {x : Single} (unsigned : x.IsUnsigned) (finite : x.isFinite = true) :
    zero * x = zero := by
  have bounded := (isFinite_iff.mp finite).2
  show zero.mul x = zero
  unfold mul
  rw [isUnsigned_zero.isNaN, isUnsigned_zero.isNegative, unsigned.isNaN, unsigned.isNegative,
    bounded, show zero.isInfinite = false from by decide, show zero.units = 0 from by decide,
    Nat.zero_mul]
  exact round_zero false (show 0 < 1 <<< 149 by decide)

/-! ### Reciprocals of counts -/

theorem roundDiv_le (num den : Nat) : roundDiv num den ≤ num / den + 1 := by
  unfold roundDiv
  dsimp only
  split
  · omega
  · split <;> omega

theorem le_roundDiv (num den : Nat) : num / den ≤ roundDiv num den := by
  unfold roundDiv
  dsimp only
  split
  · omega
  · split <;> omega

/-- The shift of a rounding leaves at most 24 bits. -/
theorem quotient_lt (num den : Nat) :
    num / (den <<< ((num / den).log2 - 23)) < 0x1000000 := by
  rw [Nat.shiftLeft_eq, ← Nat.div_div_eq_div_mul, Nat.div_lt_iff_lt_mul (Nat.two_pow_pos _)]
  calc num / den < 2 ^ ((num / den).log2 + 1) := Nat.lt_log2_self
    _ ≤ 2 ^ (24 + ((num / den).log2 - 23)) := Nat.pow_le_pow_right (by decide) (by omega)
    _ = 0x1000000 * 2 ^ ((num / den).log2 - 23) := Nat.pow_add 2 24 _

/-- The shift of a rounding keeps 24 bits if there are as many. -/
theorem le_quotient {num den : Nat} (long : 23 ≤ (num / den).log2) :
    0x800000 ≤ num / (den <<< ((num / den).log2 - 23)) := by
  have nonzero : num / den ≠ 0 := by
    intro zero
    rw [zero] at long
    exact absurd long (by decide)
  rw [Nat.shiftLeft_eq, ← Nat.div_div_eq_div_mul, Nat.le_div_iff_mul_le (Nat.two_pow_pos _)]
  calc 0x800000 * 2 ^ ((num / den).log2 - 23)
      = 2 ^ (23 + ((num / den).log2 - 23)) := (Nat.pow_add 2 23 _).symm
    _ = 2 ^ (num / den).log2 := by rw [Nat.add_sub_cancel' long]
    _ ≤ num / den := Nat.log2_self_le nonzero

/-- A quotient of at most one has a finite word. -/
theorem isFinite_round {num den : Nat} (bound : num / den ≤ one.units) :
    (round false num den).isFinite = true := by
  have unit : one.units = 2 ^ 149 := by decide
  rw [unit] at bound
  have logarithm : (num / den).log2 ≤ 149 := by
    by_cases zero : num / den = 0
    · rw [zero]
      decide
    · have := (Nat.log2_lt zero).mpr (show num / den < 2 ^ 150 by omega)
      omega
  have quotient := quotient_lt num den
  have rounded := roundDiv_le num (den <<< ((num / den).log2 - 23))
  have magnitude : ((num / den).log2 - 23) * 0x800000 +
      roundDiv num (den <<< ((num / den).log2 - 23)) < 0x7f800000 := by
    omega
  unfold round
  dsimp only
  rw [if_pos magnitude]
  obtain ⟨_, exponent, _⟩ := fields_ofMagnitude false (Nat.lt_trans magnitude (by decide))
  unfold isFinite
  rw [exponent]
  exact bne_iff_ne.mpr (by omega)

/-- A count has the magnitude of one at least. -/
theorem exists_ofNat {n : Nat} (positive : 0 < n) :
    ∃ magnitude, 127 * 0x800000 ≤ magnitude ∧ magnitude ≤ 0x7f800000 ∧
      ofNat n = ofMagnitude false magnitude := by
  have nonzero : n <<< 149 ≠ 0 := by
    rw [Nat.shiftLeft_eq]
    exact Nat.mul_ne_zero (by omega) (by decide)
  have least : 149 ≤ (n <<< 149).log2 := by
    refine (Nat.le_log2 nonzero).mpr ?_
    rw [Nat.shiftLeft_eq]
    exact Nat.le_mul_of_pos_left _ positive
  have quotient := le_quotient (show 23 ≤ (n <<< 149 / 1).log2 by rw [Nat.div_one]; omega)
  rw [Nat.div_one] at quotient
  have rounded := le_roundDiv (n <<< 149) (1 <<< ((n <<< 149).log2 - 23))
  unfold ofNat round
  rw [Nat.div_one]
  dsimp only
  split
  · next below => exact ⟨_, by omega, Nat.le_of_lt below, rfl⟩
  · exact ⟨0x7f800000, by decide, Nat.le_refl _, rfl⟩

theorem recip_ofNat {n : Nat} (positive : 0 < n) :
    (one / ofNat n).IsUnsigned ∧ (one / ofNat n).isFinite = true := by
  obtain ⟨magnitude, low, high, count⟩ := exists_ofNat positive
  obtain ⟨sign, exponent, fraction⟩ := fields_ofMagnitude false (show magnitude < 0x80000000 by omega)
  rw [← count] at sign exponent fraction
  have number : (ofNat n).isNaN = false := count ▸ isNaN_ofMagnitude false high
  have units : one.units ≤ (ofNat n).units := by
    have shifted : (ofNat n).units =
        ((ofNat n).fraction + 0x800000) * 2 ^ ((ofNat n).exponent - 1) := by
      rw [Single.units, if_neg (by omega), Nat.shiftLeft_eq]
    calc one.units = 0x800000 * 2 ^ 126 := by decide
      _ ≤ ((ofNat n).fraction + 0x800000) * 2 ^ ((ofNat n).exponent - 1) :=
        Nat.mul_le_mul (by omega) (Nat.pow_le_pow_right (by decide) (by omega))
      _ = (ofNat n).units := shifted.symm
  show (one.div (ofNat n)).IsUnsigned ∧ (one.div (ofNat n)).isFinite = true
  unfold div
  rw [number, sign, show one.isNaN = false from by decide, show one.isInfinite = false from by decide,
    show one.isNegative = false from by decide]
  dsimp only
  cases (ofNat n).isInfinite with
  | true =>
    have nothing : (ofMagnitude false 0).IsUnsigned ∧ (ofMagnitude false 0).isFinite = true :=
      ⟨⟨by decide, by decide⟩, by decide⟩
    exact nothing
  | false =>
    have nonzero : (ofNat n).isZero = false := by
      cases zero : (ofNat n).isZero with
      | false => rfl
      | true =>
        have := (isZero_iff.mp zero).1
        omega
    simp only [nonzero, Bool.or_self, Bool.false_eq_true, if_false]
    refine ⟨isUnsigned_round _ _, isFinite_round ?_⟩
    have whole : one.units <<< 149 = one.units * one.units := by decide
    rw [whole]
    exact Nat.div_le_of_le_mul (Nat.mul_le_mul_right _ units)

theorem ofNat_zero_mul_recip {n : Nat} (positive : 0 < n) :
    ofNat 0 * (1.0 / ofNat n) = 0.0 := by
  have origin : ofNat 0 = zero := by decide
  have unit : (1.0 : Single) = one := by decide
  calc ofNat 0 * (1.0 / ofNat n) = zero * (one / ofNat n) := by rw [origin, unit]
    _ = zero := zero_mul (recip_ofNat positive).1 (recip_ofNat positive).2
    _ = 0.0 := rfl

/-! ### Small counts -/

theorem one_mul {x : Single} (unsigned : x.IsUnsigned) (finite : x.isFinite = true) :
    one * x = x := by
  have bounded := (isFinite_iff.mp finite).2
  have unit : one.units = 1 <<< 149 := by decide
  have word := round_units finite
  have scaled := round_mul_right false x.units 1 (show 0 < 1 <<< 149 by decide)
  rw [unsigned.isNegative] at word
  rw [Nat.one_mul, word, Nat.mul_comm] at scaled
  show one.mul x = x
  unfold mul
  rw [show one.isNaN = false from by decide, show one.isNegative = false from by decide,
    show one.isInfinite = false from by decide, unsigned.isNaN, unsigned.isNegative, bounded, unit]
  simp only [Bool.or_self, Bool.false_eq_true, if_false, bne_self_eq_false]
  exact scaled

/-- A count of at most 24 bits has a word of its own. -/
theorem ofNat_of_lt {n : Nat} (positive : 0 < n) (below : n < 0x1000000) :
    (ofNat n).IsUnsigned ∧ (ofNat n).isFinite = true ∧ (ofNat n).floorCount = n := by
  obtain ⟨k, least, most, bound⟩ :
      ∃ k, 0x800000 ≤ n * 2 ^ k ∧ n * 2 ^ k < 0x1000000 ∧ k ≤ 23 := by
    have low := Nat.log2_self_le (show n ≠ 0 by omega)
    have high : n < 2 ^ (n.log2 + 1) := Nat.lt_log2_self
    have small : n.log2 < 24 := (Nat.log2_lt (by omega)).mpr below
    have up : n.log2 + (23 - n.log2) = 23 := by omega
    have beyond : n.log2 + 1 + (23 - n.log2) = 24 := by omega
    refine ⟨23 - n.log2, ?_, ?_, Nat.sub_le _ _⟩
    · calc 0x800000 = 2 ^ n.log2 * 2 ^ (23 - n.log2) := by rw [← Nat.pow_add, up]
        _ ≤ n * 2 ^ (23 - n.log2) := Nat.mul_le_mul_right _ low
    · calc n * 2 ^ (23 - n.log2) < 2 ^ (n.log2 + 1) * 2 ^ (23 - n.log2) :=
            Nat.mul_lt_mul_of_pos_right high (Nat.two_pow_pos _)
        _ = 0x1000000 := by rw [← Nat.pow_add, beyond]
  -- the word with these 24 bits and the exponent that moves them back
  obtain ⟨sign, exponent, fraction⟩ :=
    fields_ofMagnitude false (show (150 - k) * 0x800000 + (n * 2 ^ k - 0x800000) < 0x80000000 by omega)
  generalize ofMagnitude false ((150 - k) * 0x800000 + (n * 2 ^ k - 0x800000)) = x at *
  have exponent : x.exponent = 150 - k := exponent.trans (by omega)
  have fraction : x.fraction = n * 2 ^ k - 0x800000 := fraction.trans (by omega)
  have units : x.units = n <<< 149 := by
    have whole : k + (150 - k - 1) = 149 := by omega
    calc x.units = (x.fraction + 0x800000) <<< (x.exponent - 1) := if_neg (by omega)
      _ = n * 2 ^ k * 2 ^ (150 - k - 1) := by
        rw [exponent, fraction, Nat.sub_add_cancel least, Nat.shiftLeft_eq]
      _ = n * 2 ^ (k + (150 - k - 1)) := by rw [Nat.mul_assoc, Nat.pow_add]
      _ = n <<< 149 := by rw [whole, Nat.shiftLeft_eq]
  have finite : x.isFinite = true := by
    rw [isFinite, exponent]
    exact bne_iff_ne.mpr (by omega)
  have number := isFinite_iff.mp finite
  have word : ofNat n = x := by
    have nearest := round_units finite
    rw [sign, units] at nearest
    exact nearest
  rw [word]
  refine ⟨⟨number.1, sign⟩, finite, ?_⟩
  have back : n <<< 149 >>> 149 = n := Nat.shiftLeft_shiftRight n 149
  unfold floorCount
  rw [number.1, sign, number.2, units, back]
  simp only [Bool.or_self, Bool.false_eq_true, if_false]
  omega

end ShaderComposer.Single
