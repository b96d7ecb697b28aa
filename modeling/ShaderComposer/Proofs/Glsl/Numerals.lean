import ShaderComposer.Glsl.FloatLiteral
import ShaderComposer.Graphics.SourceScan
import ShaderComposer.Proofs.Glsl.Grammar
import ShaderComposer.Proofs.Numeric.Rounding

/-!
# Numerals

The constants of the shading language: whole numbers without leading zeros, and decimals that have
a point or an exponent. A decimal stands for the nearest word. What the library writes for a
number is such a constant, and it stands for the number.
-/

namespace ShaderComposer

open SourceScan (Text isIdentifier)

/-! ### Parts of a numeral -/

/-- A numeral as it is written. -/
structure Numeral where
  whole : Text
  /-- The digits after the point, if there is one. -/
  fraction : Option Text
  exponent : Option Int
deriving DecidableEq

namespace Numeral

def value (digits : Text) : Nat := Nat.ofDigitChars 10 digits 0

def fractionText : Option Text → Text
  | none => []
  | some digits => '.' :: digits

def exponentText : Option Int → Text
  | none => []
  | some n => 'e' :: (toString n).toList

def text (n : Numeral) : Text := n.whole ++ (fractionText n.fraction ++ exponentText n.exponent)

/-- There are digits on both sides of the point where it says so. -/
structure Digital (n : Numeral) : Prop where
  whole : ∀ c ∈ n.whole, c.isDigit = true
  fraction : ∀ digits ∈ n.fraction, ∀ c ∈ digits, c.isDigit = true

/-- The word nearest to `mantissa * 10 ^ (exponent - places)`. -/
def nearest (mantissa places : Nat) (exponent : Int) : Single :=
  if exponent < places then Single.ofDecimal mantissa (places - exponent).toNat
  else Single.ofNat (mantissa * Nat.pow 10 (exponent - places).toNat)

def token? (n : Numeral) : Option Token :=
  let digits := n.whole ++ n.fraction.getD []
  if digits.isEmpty then none
  else if n.fraction.isNone && n.exponent.isNone then
    if digits.length = 1 ∨ digits.head? ≠ some '0' then some (.int (value digits)) else none
  else some (.float (nearest (value digits) (n.fraction.getD []).length (n.exponent.getD 0)))

/-! ### Scanning -/

def scanDigits (text : Text) : Text × Text :=
  (text.takeWhile Char.isDigit, text.dropWhile Char.isDigit)

def scanFraction : Text → Option Text × Text
  | '.' :: rest => ((scanDigits rest).1, (scanDigits rest).2)
  | rest => (none, rest)

def scanInteger : Text → Option (Int × Text)
  | '-' :: rest =>
    if (scanDigits rest).1.isEmpty then none
    else some (-(value (scanDigits rest).1 : Int), (scanDigits rest).2)
  | '+' :: rest =>
    if (scanDigits rest).1.isEmpty then none
    else some (value (scanDigits rest).1, (scanDigits rest).2)
  | rest =>
    if (scanDigits rest).1.isEmpty then none
    else some (value (scanDigits rest).1, (scanDigits rest).2)

def scanExponent : Text → Option Int × Text
  | [] => (none, [])
  | c :: rest =>
    if c = 'e' ∨ c = 'E' then
      match scanInteger rest with
      | some (n, after) => (some n, after)
      | none => (none, c :: rest)
    else (none, c :: rest)

def scan (text : Text) : Numeral × Text :=
  let (whole, afterWhole) := scanDigits text
  let (fraction, afterFraction) := scanFraction afterWhole
  let (exponent, rest) := scanExponent afterFraction
  (⟨whole, fraction, exponent⟩, rest)

/-- The constant that a text starts with. A numeral that runs into a word is none. -/
def constant? (text : Text) : Option (Token × Text) :=
  let (numeral, rest) := scan text
  if rest.head?.any isIdentifier then none else numeral.token?.map fun t => (t, rest)

/-! ### Reading back -/

/-- A text goes on with what is no part of a word. -/
def EndsWord (rest : Text) : Prop := ∀ c ∈ rest.head?, isIdentifier c = false

theorem endsWord_cons {c : Char} (stop : isIdentifier c = false) (rest : Text) :
    EndsWord (c :: rest) := by
  rintro _ ⟨⟩
  exact stop

theorem isIdentifier_of_isDigit {c : Char} (digit : c.isDigit = true) : isIdentifier c = true := by
  simp [isIdentifier, Char.isAlphanum, digit]

theorem scanDigits_append {digits rest : Text} (all : ∀ c ∈ digits, c.isDigit = true)
    (stop : ∀ c ∈ rest.head?, c.isDigit = false) :
    scanDigits (digits ++ rest) = (digits, rest) := by
  have none : rest.takeWhile Char.isDigit = [] ∧ rest.dropWhile Char.isDigit = rest := by
    cases rest with
    | nil => exact ⟨rfl, rfl⟩
    | cons c rest =>
      have no := stop c rfl
      simp [no]
  rw [scanDigits, List.takeWhile_append_of_pos all, List.dropWhile_append_of_pos all, none.1,
    none.2, List.append_nil]

theorem EndsWord.stop {rest : Text} (ends : EndsWord rest) :
    ∀ c ∈ rest.head?, c.isDigit = false := by
  intro c first
  cases digit : c.isDigit with
  | false => rfl
  | true => exact (isIdentifier_of_isDigit digit).symm.trans (ends c first)

theorem isDigit_of_mem_toDigits {n : Nat} : ∀ c ∈ Nat.toDigits 10 n, c.isDigit = true :=
  fun _ mem => Nat.isDigit_of_mem_toDigits (by decide) (by decide) mem

theorem scanDigits_toDigits {n : Nat} {rest : Text} (ends : EndsWord rest) :
    scanDigits (Nat.toDigits 10 n ++ rest) = (Nat.toDigits 10 n, rest) :=
  scanDigits_append isDigit_of_mem_toDigits ends.stop

theorem value_toDigits (n : Nat) : value (Nat.toDigits 10 n) = n :=
  Nat.ofDigitChars_ten_toDigits

theorem toList_toString_of_nonneg {n : Int} (nonneg : 0 ≤ n) :
    (toString n).toList = Nat.toDigits 10 n.toNat := by
  rw [Int.toString_eq_repr, Int.repr_eq_if, if_pos nonneg, Nat.toList_repr]

theorem toList_toString_of_neg {n : Int} (negative : n < 0) :
    (toString n).toList = '-' :: Nat.toDigits 10 (-n).toNat := by
  rw [Int.toString_eq_repr, Int.repr_eq_if, if_neg (Int.not_le.mpr negative), String.toList_append,
    Nat.toList_repr]
  rfl

theorem isEmpty_toDigits (n : Nat) : ¬ (Nat.toDigits 10 n).isEmpty = true := by
  rw [List.isEmpty_iff]
  exact Nat.toDigits_ne_nil

theorem scanInteger_append {digits rest : Text} (all : ∀ c ∈ digits, c.isDigit = true)
    (nonempty : digits ≠ []) (stop : ∀ c ∈ rest.head?, c.isDigit = false) :
    scanInteger (digits ++ rest) = some ((value digits : Int), rest) := by
  have digit : ∀ c ∈ (digits ++ rest).head?, c.isDigit = true := by
    obtain ⟨d, ds, rfl⟩ := List.exists_cons_of_ne_nil nonempty
    rintro _ ⟨⟩
    exact all d List.mem_cons_self
  have some : ¬ digits.isEmpty = true := by rwa [List.isEmpty_iff]
  unfold scanInteger
  split
  · next after eq =>
    rw [eq] at digit
    cases digit _ rfl
  · next after eq =>
    rw [eq] at digit
    cases digit _ rfl
  · rw [scanDigits_append all stop, if_neg some]

theorem scanInteger_toString (n : Int) {rest : Text} (ends : EndsWord rest) :
    scanInteger ((toString n).toList ++ rest) = some (n, rest) := by
  by_cases nonneg : 0 ≤ n
  · rw [toList_toString_of_nonneg nonneg,
      scanInteger_append isDigit_of_mem_toDigits Nat.toDigits_ne_nil ends.stop, value_toDigits,
      Int.toNat_of_nonneg nonneg]
  · have negative := Int.not_le.mp nonneg
    have same : -((-n).toNat : Int) = n := by omega
    rw [toList_toString_of_neg negative, List.cons_append]
    show (if _ then _ else _) = _
    rw [scanDigits_toDigits ends, if_neg (isEmpty_toDigits _), value_toDigits, same]

/-- Where a numeral ends: no word goes on, and a whole number is not followed by a point. -/
def Ends (n : Numeral) (rest : Text) : Prop :=
  EndsWord rest ∧ (n.fraction = none → n.exponent = none → rest.head? ≠ some '.')

theorem scanExponent_exponentText (e : Option Int) {rest : Text} (ends : EndsWord rest) :
    scanExponent (exponentText e ++ rest) = (e, rest) := by
  cases e with
  | some n =>
    rw [exponentText, List.cons_append, scanExponent, if_pos (Or.inl rfl),
      scanInteger_toString n ends]
  | none =>
    cases rest with
    | nil => rfl
    | cons c rest =>
      have word := ends c rfl
      have other : ¬(c = 'e' ∨ c = 'E') := by
        rintro (rfl | rfl) <;> exact absurd word (by decide)
      exact if_neg other

theorem scanFraction_fractionText {f : Option Text} {rest : Text}
    (digital : ∀ digits ∈ f, ∀ c ∈ digits, c.isDigit = true)
    (stop : ∀ c ∈ rest.head?, c.isDigit = false) (point : f = none → rest.head? ≠ some '.') :
    scanFraction (fractionText f ++ rest) = (f, rest) := by
  cases f with
  | some digits =>
    rw [fractionText, List.cons_append, scanFraction, scanDigits_append (digital digits rfl) stop]
  | none =>
    unfold scanFraction
    split
    · next after eq =>
      rw [show rest = '.' :: after from eq] at point
      cases point rfl rfl
    · rfl

theorem scan_append {whole exponent : Text} {f : Option Text}
    (wholeDigits : ∀ c ∈ whole, c.isDigit = true)
    (fractionDigits : ∀ digits ∈ f, ∀ c ∈ digits, c.isDigit = true)
    (stop : ∀ c ∈ exponent.head?, c.isDigit = false)
    (point : f = none → exponent.head? ≠ some '.') :
    scan (whole ++ (fractionText f ++ exponent)) =
      (⟨whole, f, (scanExponent exponent).1⟩, (scanExponent exponent).2) := by
  have stopsWhole : ∀ c ∈ (fractionText f ++ exponent).head?, c.isDigit = false := by
    cases f with
    | some digits =>
      rintro _ ⟨⟩
      rfl
    | none => exact stop
  rw [scan]
  dsimp only
  rw [scanDigits_append wholeDigits stopsWhole]
  dsimp only
  rw [scanFraction_fractionText fractionDigits stop point]

theorem scan_text {n : Numeral} {rest : Text} (digital : n.Digital) (ends : n.Ends rest) :
    scan (n.text ++ rest) = (n, rest) := by
  have stop : ∀ c ∈ (exponentText n.exponent ++ rest).head?, c.isDigit = false := by
    cases n.exponent with
    | some e =>
      rintro _ ⟨⟩
      rfl
    | none => exact ends.1.stop
  have point : n.fraction = none → (exponentText n.exponent ++ rest).head? ≠ some '.' := by
    intro noFraction
    cases noExponent : n.exponent with
    | some e => exact fun same => absurd (Option.some.inj same) (by decide)
    | none => exact ends.2 noFraction noExponent
  rw [text, List.append_assoc, List.append_assoc,
    scan_append digital.whole digital.fraction stop point,
    scanExponent_exponentText n.exponent ends.1]

theorem constant?_text {n : Numeral} {rest : Text} (digital : n.Digital) (ends : n.Ends rest) :
    constant? (n.text ++ rest) = n.token?.map fun t => (t, rest) := by
  have stops : rest.head?.any isIdentifier = false := by
    cases first : rest.head? with
    | none => rfl
    | some c => exact ends.1 c first
  rw [constant?, scan_text digital ends]
  dsimp only
  rw [stops]
  rfl

/-! ### Values -/

theorem value_replicate_append (k : Nat) (digits : Text) :
    value (List.replicate k '0' ++ digits) = value digits := by
  rw [value, Nat.ofDigitChars_append, Nat.ofDigitChars_replicate_zero, Nat.mul_zero, value]

theorem value_append_replicate (digits : Text) (k : Nat) :
    value (digits ++ List.replicate k '0') = Nat.pow 10 k * value digits := by
  rw [value, Nat.ofDigitChars_append, Nat.ofDigitChars_replicate_zero, value]
  rfl

/-- A decimal is read as it is rounded, wherever the point stands. -/
theorem nearest_eq_toSingle (d : Decimal) {places : Nat} {exponent : Int}
    (scale : (places : Int) - exponent = 149 - d.power) :
    nearest d.digits places exponent = d.toSingle false := by
  have units : d.units = d.digits * 10 ^ d.power := rfl
  have tens : 2 ^ 149 * Decimal.unitsPerUnit = 10 ^ 149 := (Nat.mul_pow 2 5 149).symm
  unfold nearest
  split
  · have power : 149 = d.power + ((places : Int) - exponent).toNat := by omega
    refine Single.round_congr false (Nat.pow_pos (by decide)) Single.unitsPerUnit_pos ?_
    calc d.digits <<< 149 * Decimal.unitsPerUnit
        = d.digits * 10 ^ 149 := by
          rw [Nat.shiftLeft_eq, Nat.mul_assoc, tens]
      _ = d.units * 10 ^ ((places : Int) - exponent).toNat := by
          rw [units, Nat.mul_assoc, ← Nat.pow_add, ← power]
  · have power : d.power = (exponent - places).toNat + 149 := by omega
    refine Single.round_congr false Nat.one_pos Single.unitsPerUnit_pos ?_
    calc (d.digits * 10 ^ (exponent - places).toNat) <<< 149 * Decimal.unitsPerUnit
        = d.digits * 10 ^ (exponent - places).toNat * 10 ^ 149 := by
          rw [Nat.shiftLeft_eq, Nat.mul_assoc, tens]
      _ = d.units * 1 := by
          rw [units, power, Nat.pow_add, Nat.mul_one, Nat.mul_assoc]

/-- The numeral has a point or an exponent and is the same number as the decimal. -/
structure Stands (n : Numeral) (d : Decimal) : Prop where
  whole : n.whole ≠ []
  pointed : (n.fraction.isNone && n.exponent.isNone) = false
  /-- Zeros before the point are digits of another decimal of the same units. -/
  number : ∃ e : Decimal, e.units = d.units ∧ value (n.whole ++ n.fraction.getD []) = e.digits ∧
    ((n.fraction.getD []).length : Int) - n.exponent.getD 0 = 149 - e.power

theorem Stands.token? {n : Numeral} {d : Decimal} (stands : n.Stands d) :
    n.token? = some (.float (d.toSingle false)) := by
  obtain ⟨e, units, digits, scale⟩ := stands.number
  have some : n.whole ++ n.fraction.getD [] ≠ [] :=
    List.append_ne_nil_of_left_ne_nil stands.whole _
  have same : d.toSingle false = e.toSingle false := by
    rw [Decimal.toSingle, Decimal.toSingle, units]
  rw [Numeral.token?, if_neg (by simpa using some), if_neg (by simp [stands.pointed]), digits,
    nearest_eq_toSingle e scale, same]

theorem head_toDigits {n : Nat} (positive : 0 < n) : (Nat.toDigits 10 n).head? ≠ some '0' := by
  induction n using Nat.strongRecOn with
  | ind n ih =>
    by_cases single : n < 10
    · rw [Nat.toDigits_of_lt_base single]
      intro zero
      have : n.digitChar = '0' := Option.some.inj zero
      rw [Nat.digitChar_eq_zero] at this
      omega
    · have split := Nat.toDigits_of_base_le (by decide : 1 < 10) (Nat.not_lt.mp single)
      obtain ⟨d, ds, eq⟩ := List.exists_cons_of_ne_nil (Nat.toDigits_ne_nil (n := n / 10) (b := 10))
      have earlier := ih (n / 10) (by omega) (by omega)
      rw [eq] at earlier split
      rw [split]
      exact earlier

def ofNat (n : Nat) : Numeral := ⟨Nat.toDigits 10 n, none, none⟩

theorem text_ofNat (n : Nat) : (ofNat n).text = Nat.toDigits 10 n :=
  List.append_nil _

theorem digital_ofNat (n : Nat) : (ofNat n).Digital where
  whole := isDigit_of_mem_toDigits
  fraction _ none := by cases none

def zero : Numeral := ⟨['0'], some ['0'], none⟩

theorem digital_zero : zero.Digital where
  whole := List.forall_mem_singleton.mpr rfl
  fraction := by
    rintro _ ⟨⟩
    exact List.forall_mem_singleton.mpr rfl

theorem token?_zero : zero.token? = some (.float .zero) := by
  decide

theorem token?_ofNat (n : Nat) : (ofNat n).token? = some (.int n) := by
  have plain : (Nat.toDigits 10 n).length = 1 ∨ (Nat.toDigits 10 n).head? ≠ some '0' := by
    cases n with
    | zero => exact Or.inl rfl
    | succ n => exact Or.inr (head_toDigits (Nat.succ_pos n))
  have read : (ofNat n).token? = if (Nat.toDigits 10 n ++ []).isEmpty then none
      else if (Nat.toDigits 10 n ++ []).length = 1 ∨ (Nat.toDigits 10 n ++ []).head? ≠ some '0' then
        some (.int (value (Nat.toDigits 10 n ++ []))) else none := rfl
  rw [read, List.append_nil, if_neg (isEmpty_toDigits n), if_pos plain, value_toDigits]

end Numeral

/-! ### What is written for a float -/

namespace FloatLiteral

open Numeral (value nearest)

def positionalNumeral (digits : Text) (point : Int) : Numeral :=
  if point ≤ 0 then ⟨['0'], some (List.replicate point.natAbs '0' ++ digits), none⟩
  else if digits.length ≤ point.natAbs then
    ⟨digits ++ List.replicate (point.natAbs - digits.length) '0', some ['0'], none⟩
  else ⟨digits.take point.natAbs, some (digits.drop point.natAbs), none⟩

def scientificNumeral (digits : Text) (exponent : Int) : Numeral :=
  ⟨digits.take 1, if (digits.drop 1).isEmpty then none else some (digits.drop 1), some exponent⟩

def decimalNumeral (d : Decimal) : Numeral :=
  let digits := Nat.toDigits 10 d.digits
  let point : Int := digits.length + d.power - 149
  if layout.positionalFrom < point ∧ point ≤ layout.positionalBelow then
    positionalNumeral digits point
  else scientificNumeral digits (point - 1)

def numeral (x : Single) : Numeral :=
  if x.units = 0 then .zero else decimalNumeral x.shortest

theorem positional_eq_text (digits : Text) (point : Int) :
    positional digits point = (positionalNumeral digits point).text := by
  unfold positional positionalNumeral
  split
  · simp [Numeral.text, Numeral.fractionText, Numeral.exponentText]
  · split
    · simp [Numeral.text, Numeral.fractionText, Numeral.exponentText]
    · simp [Numeral.text, Numeral.fractionText, Numeral.exponentText]

theorem scientific_eq_text (digits : Text) (exponent : Int) :
    scientific digits exponent = (scientificNumeral digits exponent).text := by
  unfold scientific scientificNumeral Numeral.text
  dsimp only
  rw [List.append_assoc]
  split <;> rfl

theorem magnitude_eq_text (x : Single) : magnitude x = (numeral x).text := by
  unfold magnitude numeral
  split
  · rfl
  · unfold ofDecimal decimalNumeral
    dsimp only
    split
    · exact positional_eq_text _ _
    · exact scientific_eq_text _ _

theorem digital_positional {digits : Text} (all : ∀ c ∈ digits, c.isDigit = true) (point : Int) :
    (positionalNumeral digits point).Digital := by
  have zeros (k : Nat) : ∀ c ∈ List.replicate k '0', c.isDigit = true := by
    intro c mem
    rw [(List.mem_replicate.mp mem).2]
    rfl
  have zero : ∀ c ∈ ['0'], c.isDigit = true := zeros 1
  unfold positionalNumeral
  split
  · refine ⟨zero, ?_⟩
    rintro _ ⟨⟩ c mem
    exact (List.mem_append.mp mem).elim (zeros _ c) (all c)
  · split
    · refine ⟨fun c mem => (List.mem_append.mp mem).elim (all c) (zeros _ c), ?_⟩
      rintro _ ⟨⟩
      exact zero
    · refine ⟨fun c mem => all c (List.mem_of_mem_take mem), ?_⟩
      rintro _ ⟨⟩ c mem
      exact all c (List.mem_of_mem_drop mem)

theorem digital_scientific {digits : Text} (all : ∀ c ∈ digits, c.isDigit = true) (exponent : Int) :
    (scientificNumeral digits exponent).Digital := by
  refine ⟨fun c mem => all c (List.mem_of_mem_take mem), ?_⟩
  unfold scientificNumeral
  dsimp only
  split
  · rintro _ ⟨⟩
  · rintro _ ⟨⟩ c mem
    exact all c (List.mem_of_mem_drop mem)

theorem digital_numeral (x : Single) : (numeral x).Digital := by
  unfold numeral
  split
  · exact Numeral.digital_zero
  · unfold decimalNumeral
    dsimp only
    split
    · exact digital_positional Numeral.isDigit_of_mem_toDigits _
    · exact digital_scientific Numeral.isDigit_of_mem_toDigits _

theorem stands_positional {d : Decimal} {digits : Text} {point : Int}
    (digitsOf : Nat.toDigits 10 d.digits = digits)
    (scale : point = (digits.length : Int) + d.power - 149) :
    (positionalNumeral digits point).Stands d := by
  have same : value digits = d.digits := by rw [← digitsOf, Numeral.value_toDigits]
  have nonempty : digits ≠ [] := by
    rw [← digitsOf]
    exact Nat.toDigits_ne_nil
  unfold positionalNumeral
  split
  · refine ⟨List.cons_ne_nil _ _, rfl, d, rfl, ?_, ?_⟩
    · exact (Numeral.value_replicate_append (point.natAbs + 1) digits).trans same
    · simp only [Option.getD_some, Option.getD_none, List.length_append, List.length_replicate]
      omega
  · split
    · have power : d.power = point.natAbs - digits.length + 149 := by omega
      have zeros : digits ++ List.replicate (point.natAbs - digits.length) '0' ++ ['0'] =
          digits ++ List.replicate (point.natAbs - digits.length + 1) '0' := by
        rw [List.replicate_succ', List.append_assoc]
      refine ⟨List.append_ne_nil_of_left_ne_nil nonempty _, rfl,
        ⟨Nat.pow 10 (point.natAbs - digits.length + 1) * d.digits, 148⟩, ?_, ?_, rfl⟩
      · show 10 ^ (point.natAbs - digits.length + 1) * d.digits * 10 ^ 148 = d.digits * 10 ^ d.power
        rw [power, Nat.mul_comm _ d.digits, Nat.mul_assoc, ← Nat.pow_add]
      · show value (digits ++ List.replicate (point.natAbs - digits.length) '0' ++ ['0']) = _
        rw [zeros, Numeral.value_append_replicate, same]
    · refine ⟨?_, rfl, d, rfl, ?_, ?_⟩
      · rw [ne_eq, List.take_eq_nil_iff]
        rintro (zero | empty)
        · omega
        · exact nonempty empty
      · exact (congrArg value (List.take_append_drop point.natAbs digits)).trans same
      · simp only [Option.getD_some, Option.getD_none, List.length_drop]
        omega

theorem stands_scientific {d : Decimal} {digits : Text} {point : Int}
    (digitsOf : Nat.toDigits 10 d.digits = digits)
    (scale : point = (digits.length : Int) + d.power - 149) :
    (scientificNumeral digits (point - 1)).Stands d := by
  have same : value digits = d.digits := by rw [← digitsOf, Numeral.value_toDigits]
  have nonempty : digits ≠ [] := by
    rw [← digitsOf]
    exact Nat.toDigits_ne_nil
  have positive := List.length_pos_iff.mpr nonempty
  have fraction : (scientificNumeral digits (point - 1)).fraction.getD [] = digits.drop 1 := by
    unfold scientificNumeral
    dsimp only
    split
    · next empty => exact (List.isEmpty_iff.mp empty).symm
    · rfl
  refine ⟨?_, Bool.and_false _, d, rfl, ?_, ?_⟩
  · rw [scientificNumeral, ne_eq, List.take_eq_nil_iff]
    exact fun either => either.elim Nat.one_ne_zero nonempty
  · rw [fraction]
    exact (congrArg value (List.take_append_drop 1 digits)).trans same
  · rw [fraction, List.length_drop]
    show ((digits.length - 1 : Nat) : Int) - (point - 1) = _
    omega

/-- The decimal that is written for a number. -/
def decimalOf (x : Single) : Decimal := if x.units = 0 then ⟨0, 148⟩ else x.shortest

theorem toSingle_decimalOf {x : Single} (finite : x.isFinite = true) :
    (decimalOf x).toSingle x.isNegative = x := by
  unfold decimalOf
  split
  · next zero =>
    have word := Single.round_units finite
    rw [zero] at word
    refine (Single.round_congr _ Single.unitsPerUnit_pos Nat.one_pos ?_).trans word
    rw [Nat.zero_mul, Nat.mul_one]
    exact Nat.zero_mul _
  · exact Single.toSingle_shortest finite

theorem stands_numeral (x : Single) : (numeral x).Stands (decimalOf x) := by
  unfold numeral decimalOf
  split
  · exact ⟨List.cons_ne_nil _ _, rfl, ⟨0, 148⟩, rfl, rfl, rfl⟩
  · unfold decimalNumeral
    dsimp only
    split
    · exact stands_positional rfl rfl
    · exact stands_scientific rfl rfl

theorem token?_numeral {x : Single} (finite : x.isFinite = true) :
    (numeral x).token? = some (.float (if x.isNegative then x.neg else x)) := by
  have word := toSingle_decimalOf finite
  have magnitude : (decimalOf x).toSingle false = if x.isNegative then x.neg else x := by
    unfold Decimal.toSingle at word ⊢
    cases sign : x.isNegative with
    | true => rw [if_pos rfl, ← Single.neg_round_true, ← sign, word]
    | false => rw [if_neg Bool.false_ne_true, ← sign, word]
  rw [(stands_numeral x).token?, magnitude]

theorem whole_numeral_ne_nil (x : Single) : (numeral x).whole ≠ [] := (stands_numeral x).whole

end FloatLiteral

theorem Numeral.ends_of_float {n : Numeral} {v : Single} (float : n.token? = some (.float v))
    {rest : Text} (ends : EndsWord rest) : n.Ends rest := by
  refine ⟨ends, fun fraction exponent => ?_⟩
  rw [token?, fraction, exponent] at float
  split at float
  · cases float
  · split at float
    · split at float <;> cases float
    · next decimal => exact absurd rfl decimal

end ShaderComposer
