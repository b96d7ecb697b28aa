import ShaderComposer.Numeric.Shortest

/-!
# Rounding and reading back

The word nearest to a quotient depends on the quotient alone, and a finite word is the nearest to
its own magnitude. The decimal that is chosen for a finite word therefore reads back as the word,
whichever grid the search stops on.
-/

namespace ShaderComposer.Single

/-! ### Quotients -/

theorem roundDiv_mul_right (num den : Nat) {k : Nat} (positive : 0 < k) :
    roundDiv (num * k) (den * k) = roundDiv num den := by
  have rest : num * k % (den * k) = num % den * k := Nat.mul_mod_mul_right k num den
  have below : 2 * (num % den * k) < den * k ↔ 2 * (num % den) < den := by
    rw [← Nat.mul_assoc]
    exact Nat.mul_lt_mul_right positive
  have above : den * k < 2 * (num % den * k) ↔ den < 2 * (num % den) := by
    rw [← Nat.mul_assoc]
    exact Nat.mul_lt_mul_right positive
  unfold roundDiv
  simp only [Nat.mul_div_mul_right num den positive, rest, below, above]

theorem round_mul_right (negative : Bool) (num den : Nat) {k : Nat} (positive : 0 < k) :
    round negative (num * k) (den * k) = round negative num den := by
  have shifted (s : Nat) : (den * k) <<< s = den <<< s * k := by
    rw [Nat.shiftLeft_eq, Nat.shiftLeft_eq, Nat.mul_right_comm]
  unfold round
  simp only [Nat.mul_div_mul_right num den positive, shifted,
    roundDiv_mul_right num _ positive]

theorem round_congr (negative : Bool) {num den num' den' : Nat} (positive : 0 < den)
    (positive' : 0 < den') (equal : num * den' = num' * den) :
    round negative num den = round negative num' den' := by
  calc round negative num den = round negative (num * den') (den * den') :=
        (round_mul_right negative num den positive').symm
    _ = round negative (num' * den) (den' * den) := by rw [equal, Nat.mul_comm den den']
    _ = round negative num' den' := round_mul_right negative num' den' positive

/-! ### Fields -/

theorem bits_eq (x : Single) :
    x.bits.toNat =
      (if x.isNegative then 0x80000000 else 0) + (x.exponent * 0x800000 + x.fraction) := by
  have bound : x.bits.toNat < 2 ^ 32 := x.bits.toNat_lt
  have sign : x.isNegative = decide (x.bits.toNat / 0x80000000 = 1) := by
    simp only [isNegative, Nat.shiftRight_eq_div_pow]
    rfl
  have exponent : x.exponent = x.bits.toNat / 0x800000 % 256 := by
    simp [Single.exponent, Nat.shiftRight_eq_div_pow]
  rw [sign, exponent, fraction]
  by_cases set : x.bits.toNat / 0x80000000 = 1
  · rw [decide_eq_true set, if_pos rfl]
    omega
  · rw [decide_eq_false set, if_neg Bool.false_ne_true]
    omega

theorem eq_ofMagnitude (x : Single) :
    ofMagnitude x.isNegative (x.exponent * 0x800000 + x.fraction) = x := by
  unfold ofMagnitude
  rw [← bits_eq, UInt32.ofNat_toNat]

theorem exponent_of_isFinite {x : Single} (finite : x.isFinite = true) : x.exponent < 255 := by
  have bound := x.exponent_lt
  have different : x.exponent ≠ 255 := by simpa [isFinite] using finite
  omega

/-! ### Exact words -/

theorem log2_normal {f : Nat} (below : f < 0x800000) (e : Nat) :
    ((f + 0x800000) <<< e).log2 = 23 + e := by
  have positive : 0 < 2 ^ e := Nat.two_pow_pos e
  have lower : 2 ^ 23 * 2 ^ e ≤ (f + 0x800000) * 2 ^ e :=
    Nat.mul_le_mul_right _ (Nat.le_add_left _ f)
  have upper : (f + 0x800000) * 2 ^ e < 2 ^ 24 * 2 ^ e :=
    Nat.mul_lt_mul_of_pos_right (by omega) positive
  rw [Nat.shiftLeft_eq, Nat.log2_eq_iff (by omega), Nat.pow_add, Nat.add_right_comm 23 e 1,
    Nat.pow_add]
  exact ⟨lower, upper⟩

theorem roundDiv_shift (n e : Nat) : roundDiv (n <<< e) (1 <<< e) = n := by
  rw [Nat.shiftLeft_eq, Nat.shiftLeft_eq, roundDiv_mul_right n 1 (Nat.two_pow_pos e), roundDiv_one]

theorem round_units {x : Single} (finite : x.isFinite = true) :
    round x.isNegative x.units 1 = x := by
  have fraction := x.fraction_lt
  have exponent := exponent_of_isFinite finite
  have word := x.eq_ofMagnitude
  unfold round units
  by_cases subnormal : x.exponent = 0
  · have small : x.fraction.log2 - 23 = 0 := by
      by_cases zero : x.fraction = 0
      · rw [zero]
        rfl
      · have := (Nat.log2_lt zero).mpr (show x.fraction < 2 ^ 23 from fraction)
        omega
    rw [if_pos subnormal, Nat.div_one, small]
    dsimp only
    rw [Nat.shiftLeft_zero, roundDiv_one, Nat.zero_mul, Nat.zero_add, if_pos (by omega)]
    rwa [subnormal, Nat.zero_mul, Nat.zero_add] at word
  · have shift : 23 + (x.exponent - 1) - 23 = x.exponent - 1 := by omega
    have magnitude : (x.exponent - 1) * 0x800000 + (x.fraction + 0x800000) =
        x.exponent * 0x800000 + x.fraction := by omega
    rw [if_neg subnormal, Nat.div_one, log2_normal fraction, shift]
    dsimp only
    rw [roundDiv_shift, magnitude, if_pos (by omega), word]

/-! ### Signs -/

theorem neg_ofMagnitude_true {magnitude : Nat} (below : magnitude < 0x80000000) :
    (ofMagnitude true magnitude).neg = ofMagnitude false magnitude := by
  have flipped : (0x80000000 + magnitude) ^^^ 0x80000000 = magnitude := by
    have high : ((0x80000000 + magnitude) ^^^ 0x80000000) / 2 ^ 31 = 0 := by
      have one : (0x80000000 + magnitude) / 2 ^ 31 = 1 := by omega
      rw [Nat.xor_div_two_pow, one]
      rfl
    have low : ((0x80000000 + magnitude) ^^^ 0x80000000) % 2 ^ 31 = magnitude := by
      have rest : (0x80000000 + magnitude) % 2 ^ 31 = magnitude := by omega
      rw [Nat.xor_mod_two_pow, rest]
      exact Nat.xor_zero magnitude
    rw [← Nat.div_add_mod ((0x80000000 + magnitude) ^^^ 0x80000000) (2 ^ 31), high, low,
      Nat.mul_zero, Nat.zero_add]
  have word (n : Nat) (small : n < 2 ^ 32) : (UInt32.ofNat n).toNat = n :=
    UInt32.toNat_ofNat_of_lt' small
  unfold ofMagnitude neg
  rw [Single.mk.injEq, ← UInt32.toNat_inj, UInt32.toNat_xor, if_pos rfl, if_neg Bool.false_ne_true,
    Nat.zero_add, word _ (by omega), word _ (by omega)]
  exact flipped

theorem neg_round_true (num den : Nat) : (round true num den).neg = round false num den := by
  unfold round
  dsimp only
  split
  · exact neg_ofMagnitude_true (by omega)
  · exact neg_ofMagnitude_true (by decide)

/-! ### Decimals -/

theorem unitsPerUnit_pos : 0 < Decimal.unitsPerUnit := Nat.pow_pos (by decide)

theorem toSingle_trim (negative : Bool) (d : Decimal) :
    d.trim.toSingle negative = d.toSingle negative := by
  rw [Decimal.toSingle, Decimal.units_trim, Decimal.toSingle]

theorem toSingle_searchFrom {x : Single} (finite : x.isFinite = true) (power : Nat) :
    (x.searchFrom power).toSingle x.isNegative = x := by
  induction power with
  | zero =>
    have exact : (⟨x.decimalUnits, 0⟩ : Decimal).units = x.units * Decimal.unitsPerUnit :=
      Nat.mul_one _
    have scaled := round_mul_right x.isNegative x.units 1 unitsPerUnit_pos
    rw [Nat.one_mul] at scaled
    rw [searchFrom, Decimal.toSingle, exact, scaled, round_units finite]
  | succ power ih =>
    rw [searchFrom]
    cases hit : x.onGrid (power + 1) with
    | none => exact ih
    | some d => exact beq_iff_eq.mp (readsBack_of_onGrid hit)

theorem toSingle_shortest {x : Single} (finite : x.isFinite = true) :
    x.shortest.toSingle x.isNegative = x := by
  rw [shortest, toSingle_trim, toSingle_searchFrom finite]

end ShaderComposer.Single
