import Mathlib.Tactic.NormNum
import Mathlib.Tactic.Tauto
import ShaderComposer.Proofs.Glsl.Lexis
import ShaderComposer.Proofs.Numeric.Nearest

/-!
# Floating constants

The constants of the shading language by its grammar, a floating constant with the exact number that
its decimal notation stands for. A text is a floating constant of at most one number and never an
integer constant as well. What is written for a finite number is a floating constant under the sign
of the number, and the number is the only one that the constant is rounded to; so no two numbers are
written alike.
-/

namespace ShaderComposer

open SourceScan (Text)

/-! ### The grammar of constants -/

def IsDigits (text : Text) : Prop := ∀ c ∈ text, c.isDigit = true

/-- Digits with a sign or without one, and the number that they stand for. -/
inductive SignedDigits : Text → Int → Prop
  | plain {digits : Text} : IsDigits digits → digits ≠ [] →
    SignedDigits digits (Numeral.value digits)
  | plus {digits : Text} : IsDigits digits → digits ≠ [] →
    SignedDigits ('+' :: digits) (Numeral.value digits)
  | minus {digits : Text} : IsDigits digits → digits ≠ [] →
    SignedDigits ('-' :: digits) (-(Numeral.value digits : Int))

/-- An exponent part, and the exponent. -/
inductive ExponentPart : Text → Int → Prop
  | mark {c : Char} {text : Text} {n : Int} : c = 'e' ∨ c = 'E' → SignedDigits text n →
    ExponentPart (c :: text) n

/-- A floating constant and its number: digits with a point, on one side of it at least, that an
exponent part may follow, or digits with an exponent part. -/
inductive FloatingConstant : Text → ℚ → Prop
  | point {whole fraction exponent : Text} {n : Int} : IsDigits whole → IsDigits fraction →
    whole ++ fraction ≠ [] → exponent = [] ∧ n = 0 ∨ ExponentPart exponent n →
    FloatingConstant (whole ++ '.' :: (fraction ++ exponent))
      (Numeral.value (whole ++ fraction) * 10 ^ (n - fraction.length))
  | exponent {whole exponent : Text} {n : Int} : IsDigits whole → whole ≠ [] →
    ExponentPart exponent n → FloatingConstant (whole ++ exponent) (Numeral.value whole * 10 ^ n)

/-- A whole number of digits, of octal digits after a zero, or of hexadecimal digits. -/
inductive IntegerConstant : Text → Prop
  | decimal {digits : Text} : IsDigits digits → digits ≠ [] → digits.head? ≠ some '0' →
    IntegerConstant digits
  | octal {digits : Text} : (∀ c ∈ digits, c.isDigit = true ∧ c ≠ '8' ∧ c ≠ '9') →
    IntegerConstant ('0' :: digits)
  | hexadecimal {c : Char} {digits : Text} : c = 'x' ∨ c = 'X' →
    (∀ c ∈ digits, c.isDigit = true ∨ c.toLower ∈ ['a', 'b', 'c', 'd', 'e', 'f']) → digits ≠ [] →
    IntegerConstant ('0' :: c :: digits)

/-! ### One number -/

def Numeral.amount (n : Numeral) : ℚ :=
  value (n.whole ++ n.fraction.getD []) *
    10 ^ (n.exponent.getD 0 - (n.fraction.getD []).length)

theorem SignedDigits.scanInteger {text : Text} {n : Int} (signed : SignedDigits text n) :
    Numeral.scanInteger text = some (n, []) := by
  have stop : ∀ c ∈ ([] : Text).head?, c.isDigit = false := fun _ mem => by cases mem
  cases signed with
  | plain all nonempty =>
    have read := Numeral.scanInteger_append all nonempty stop
    rwa [List.append_nil] at read
  | plus all nonempty =>
    have read := Numeral.scanDigits_append all stop
    rw [List.append_nil] at read
    show (if _ then _ else _) = _
    rw [read, if_neg (by simpa using nonempty)]
  | minus all nonempty =>
    have read := Numeral.scanDigits_append all stop
    rw [List.append_nil] at read
    show (if _ then _ else _) = _
    rw [read, if_neg (by simpa using nonempty)]

theorem ExponentPart.scanExponent {text : Text} {n : Int} (part : ExponentPart text n) :
    Numeral.scanExponent text = (some n, []) := by
  cases part with
  | mark mark signed => rw [Numeral.scanExponent, if_pos mark, signed.scanInteger]

theorem ExponentPart.head? {text : Text} {n : Int} (part : ExponentPart text n) :
    text.head? = some 'e' ∨ text.head? = some 'E' := by
  cases part with
  | mark mark => exact mark.imp (congrArg some) (congrArg some)

theorem ExponentPart.stop {text : Text} {n : Int} (part : ExponentPart text n) :
    ∀ c ∈ text.head?, c.isDigit = false := by
  intro c first
  rcases part.head? with head | head <;> rw [head] at first <;> cases first <;> rfl

theorem FloatingConstant.amount_scan {text : Text} {q : ℚ} (constant : FloatingConstant text q) :
    (Numeral.scan text).1.amount = q := by
  cases constant with
  | @point whole fraction exponent n wholeDigits fractionDigits _ part =>
    have stop : ∀ c ∈ exponent.head?, c.isDigit = false := by
      rcases part with ⟨rfl, _⟩ | part
      · exact fun _ mem => by cases mem
      · exact part.stop
    have read : (Numeral.scanExponent exponent).1.getD 0 = n := by
      rcases part with ⟨rfl, rfl⟩ | part
      · rfl
      · rw [part.scanExponent]
        rfl
    have scanned := Numeral.scan_append (f := some fraction) wholeDigits
      (by rintro _ ⟨⟩; exact fractionDigits) stop (fun none => by cases none)
    rw [Numeral.fractionText, List.cons_append] at scanned
    rw [scanned, Numeral.amount, ← read]
    rfl
  | @exponent whole exponent n digits _ part =>
    have noPoint : exponent.head? ≠ some '.' := by
      rcases part.head? with head | head <;> rw [head] <;> decide
    have scanned := Numeral.scan_append (f := none) digits (fun _ none => by cases none)
      part.stop (fun _ => noPoint)
    rw [Numeral.fractionText, List.nil_append, part.scanExponent] at scanned
    rw [scanned, Numeral.amount]
    dsimp only [Option.getD_some, Option.getD_none]
    rw [List.append_nil, List.length_nil, Nat.cast_zero, sub_zero]

theorem FloatingConstant.unique {text : Text} {q r : ℚ} (first : FloatingConstant text q)
    (second : FloatingConstant text r) : q = r :=
  first.amount_scan.symm.trans second.amount_scan

/-! ### No whole number -/

theorem SignedDigits.alphabet {text : Text} {n : Int} (signed : SignedDigits text n) :
    ∀ c ∈ text, c.isDigit = true ∨ c ∈ ['+', '-'] := by
  intro c mem
  cases signed with
  | plain all => exact Or.inl (all c mem)
  | plus all =>
    rcases List.mem_cons.mp mem with rfl | mem
    · decide
    · exact Or.inl (all c mem)
  | minus all =>
    rcases List.mem_cons.mp mem with rfl | mem
    · decide
    · exact Or.inl (all c mem)

theorem ExponentPart.alphabet {text : Text} {n : Int} (part : ExponentPart text n) :
    ∀ c ∈ text, c.isDigit = true ∨ c ∈ ['.', 'e', 'E', '+', '-'] := by
  intro c mem
  cases part with
  | mark mark signed =>
    rcases List.mem_cons.mp mem with rfl | mem
    · rcases mark with rfl | rfl <;> decide
    · refine (signed.alphabet c mem).imp_right fun sign => ?_
      simp only [List.mem_cons, List.not_mem_nil, or_false] at sign ⊢
      tauto

theorem FloatingConstant.alphabet {text : Text} {q : ℚ} (constant : FloatingConstant text q) :
    ∀ c ∈ text, c.isDigit = true ∨ c ∈ ['.', 'e', 'E', '+', '-'] := by
  intro c mem
  cases constant with
  | point wholeDigits fractionDigits _ part =>
    rcases List.mem_append.mp mem with mem | mem
    · exact Or.inl (wholeDigits c mem)
    rcases List.mem_cons.mp mem with rfl | mem
    · decide
    rcases List.mem_append.mp mem with mem | mem
    · exact Or.inl (fractionDigits c mem)
    rcases part with ⟨rfl, _⟩ | part
    · cases mem
    · exact part.alphabet c mem
  | exponent digits _ part =>
    rcases List.mem_append.mp mem with mem | mem
    · exact Or.inl (digits c mem)
    · exact part.alphabet c mem

/-- A floating constant has a point or an exponent. -/
theorem FloatingConstant.marked {text : Text} {q : ℚ} (constant : FloatingConstant text q) :
    '.' ∈ text ∨ 'e' ∈ text ∨ 'E' ∈ text := by
  cases constant with
  | point => exact Or.inl (List.mem_append_right _ List.mem_cons_self)
  | exponent _ _ part =>
    exact Or.inr (part.head?.imp (fun head => List.mem_append_right _ (List.mem_of_mem_head? head))
      fun head => List.mem_append_right _ (List.mem_of_mem_head? head))

/-- No text is a constant of both kinds. -/
theorem FloatingConstant.not_integerConstant {text : Text} {q : ℚ}
    (constant : FloatingConstant text q) : ¬ IntegerConstant text := by
  -- digits alone have no mark, and a hexadecimal constant has a letter that is none
  have notDigits : ¬ IsDigits text := by
    intro all
    rcases constant.marked with mem | mem | mem <;> exact absurd (all _ mem) (by decide)
  rintro (⟨all, _, _⟩ | octal | ⟨letter, _, _⟩)
  · exact notDigits all
  · refine notDigits fun c mem => ?_
    rcases List.mem_cons.mp mem with rfl | mem
    · rfl
    · exact (octal c mem).1
  · have outside := constant.alphabet _ (List.mem_cons_of_mem _ List.mem_cons_self)
    rcases letter with rfl | rfl <;> exact absurd outside (by decide)

theorem FloatingConstant.head?_ne {text : Text} {q : ℚ} (constant : FloatingConstant text q) :
    text.head? ≠ some '-' := by
  have digits {whole rest : Text} (all : IsDigits whole) (nonempty : whole ≠ []) :
      (whole ++ rest).head? ≠ some '-' := by
    obtain ⟨c, whole, rfl⟩ := List.exists_cons_of_ne_nil nonempty
    rintro ⟨⟩
    exact absurd (all _ List.mem_cons_self) (by decide)
  cases constant with
  | @point whole fraction exponent n all =>
    by_cases nonempty : whole = []
    · rw [nonempty]
      exact fun minus => absurd (Option.some.inj minus) (by decide)
    · exact digits all nonempty
  | exponent all nonempty => exact digits all nonempty

/-! ### What is written -/

theorem signedDigits_toString (n : Int) : SignedDigits (toString n).toList n := by
  by_cases nonneg : 0 ≤ n
  · have plain := SignedDigits.plain (Numeral.isDigit_of_mem_toDigits (n := n.toNat))
      Nat.toDigits_ne_nil
    rwa [Numeral.value_toDigits, Int.toNat_of_nonneg nonneg,
      ← Numeral.toList_toString_of_nonneg nonneg] at plain
  · have negative := Int.not_le.mp nonneg
    have same : -((-n).toNat : Int) = n := by omega
    have minus := SignedDigits.minus (Numeral.isDigit_of_mem_toDigits (n := (-n).toNat))
      Nat.toDigits_ne_nil
    rwa [Numeral.value_toDigits, same, ← Numeral.toList_toString_of_neg negative] at minus

theorem exponentPart_exponentText (e : Int) :
    ExponentPart (Numeral.exponentText (some e)) e :=
  .mark (Or.inl rfl) (signedDigits_toString e)

theorem Numeral.floatingConstant_text {n : Numeral} (digital : n.Digital) (nonempty : n.whole ≠ [])
    (pointed : (n.fraction.isNone && n.exponent.isNone) = false) :
    FloatingConstant n.text n.amount := by
  obtain ⟨whole, fraction, exponent⟩ := n
  cases fraction with
  | some fraction =>
    refine .point digital.whole (digital.fraction fraction rfl)
      (List.append_ne_nil_of_left_ne_nil nonempty _) ?_
    cases exponent with
    | none => exact Or.inl ⟨rfl, rfl⟩
    | some e => exact Or.inr (exponentPart_exponentText e)
  | none =>
    cases exponent with
    | none => cases pointed
    | some e =>
      have constant :=
        FloatingConstant.exponent digital.whole nonempty (exponentPart_exponentText e)
      rw [Numeral.amount, Option.getD_none, List.append_nil]
      simpa [Numeral.text, Numeral.fractionText] using constant

theorem Numeral.Stands.amount {n : Numeral} {d : Decimal} (stands : n.Stands d) :
    n.amount = d.units / 10 ^ 149 := by
  obtain ⟨e, units, digits, scale⟩ := stands.number
  have power : n.exponent.getD 0 - ((n.fraction.getD []).length : Int) = e.power - 149 := by omega
  have scaled : (e.units : ℚ) = e.digits * 10 ^ e.power := by
    show ((e.digits * 10 ^ e.power : Nat) : ℚ) = _
    push_cast
    rfl
  rw [Numeral.amount, digits, power, ← units, scaled, zpow_sub₀ (by norm_num), zpow_natCast,
    mul_div_assoc]
  rfl

open Single (signed)

/-- The constant that is written for a finite number, under the sign of the number. -/
theorem FloatLiteral.exists_constant {x : Single} (finite : x.isFinite = true) :
    ∃ q, FloatingConstant (magnitude x) q ∧
      ∀ y : Single, y.IsNearest x.isNegative (signed x.isNegative q) ↔ y = x := by
  have stands := stands_numeral x
  have number : (numeral x).amount = (decimalOf x).units / Decimal.unitsPerUnit / 2 ^ 149 := by
    have tens : (Decimal.unitsPerUnit : ℚ) * 2 ^ 149 = 10 ^ 149 := by
      show ((5 ^ 149 : Nat) : ℚ) * 2 ^ 149 = 10 ^ 149
      push_cast
      norm_num
    rw [stands.amount, div_div, tens]
  refine ⟨(numeral x).amount, ?_, fun y => ?_⟩
  · rw [magnitude_eq_text]
    exact Numeral.floatingConstant_text (digital_numeral x) stands.whole stands.pointed
  · have word : Single.round x.isNegative (decimalOf x).units Decimal.unitsPerUnit = x :=
      toSingle_decimalOf finite
    rw [number, Single.isNearest_iff _ Single.unitsPerUnit_pos, word]
    exact ⟨fun same => same.2.symm, fun same => ⟨same ▸ finite, same.symm⟩⟩

theorem Single.literal_of_isFinite {x : Single} (finite : x.isFinite = true) :
    x.literal.toList =
      if x.isNegative then '-' :: FloatLiteral.magnitude x else FloatLiteral.magnitude x := by
  rw [literal_eq, if_pos finite, String.toList_ofList, decimalText]
  split <;> rfl

theorem FloatLiteral.munch_magnitude {x : Single} (finite : x.isFinite = true) {rest : Text}
    (ends : Numeral.EndsWord rest) :
    munch (magnitude x ++ rest) = some (.float (if x.isNegative then x.neg else x), rest) := by
  have read := token?_numeral finite
  rw [magnitude_eq_text]
  exact munch_numeral (digital_numeral x) (whole_numeral_ne_nil x)
    (Numeral.ends_of_float read ends) read

/-- Words with one text are one word: the sign and the number of the constant are in the text. -/
theorem Single.eq_of_literal_eq {x y : Single} (finite : x.isFinite = true)
    (finite' : y.isFinite = true) (same : y.literal = x.literal) : y = x := by
  obtain ⟨q, constant, nearest⟩ := FloatLiteral.exists_constant finite
  obtain ⟨r, constant', nearest'⟩ := FloatLiteral.exists_constant finite'
  have text := congrArg String.toList same
  rw [literal_of_isFinite finite, literal_of_isFinite finite'] at text
  have parts : y.isNegative = x.isNegative ∧
      FloatLiteral.magnitude y = FloatLiteral.magnitude x := by
    cases sign : x.isNegative <;> cases sign' : y.isNegative <;>
      simp only [sign, sign', Bool.false_eq_true, if_true, if_false, List.cons.injEq,
        true_and] at text ⊢
    · exact text
    · exact absurd (congrArg List.head? text).symm constant.head?_ne
    · exact absurd (congrArg List.head? text) constant'.head?_ne
    · exact text
  rw [parts.2] at constant'
  rw [parts.1, ← constant.unique constant'] at nearest'
  exact (nearest y).mp ((nearest' y).mpr rfl)

/-- The text of a finite number is a floating constant, after a minus just when the sign bit is set,
that is rounded to the number and to no other. The constant is one token wherever no word goes on
after it, and no other finite number has the text. What is not finite has the text of zero. -/
theorem Single.literal_identifies (x : Single) :
    if x.isFinite then
      (∃ (c : Text) (q : ℚ),
        x.literal.toList = (if x.isNegative then '-' :: c else c) ∧
        FloatingConstant c q ∧ ('.' ∈ c ∨ 'e' ∈ c ∨ 'E' ∈ c) ∧ ¬ IntegerConstant c ∧
        (∀ rest, Numeral.EndsWord rest →
          munch (c ++ rest) = some (.float (if x.isNegative then x.neg else x), rest)) ∧
        ∀ y : Single, y.IsNearest x.isNegative (signed x.isNegative q) ↔ y = x) ∧
      (x.literal.toList.head? = some '-' ↔ x.isNegative = true) ∧
      ∀ y : Single, y.isFinite = true → y.literal = x.literal → y = x
    else x.literal = "0.0" := by
  split
  · next finite =>
    obtain ⟨q, constant, nearest⟩ := FloatLiteral.exists_constant finite
    refine ⟨⟨FloatLiteral.magnitude x, q, literal_of_isFinite finite, constant, constant.marked,
      constant.not_integerConstant, fun rest ends => FloatLiteral.munch_magnitude finite ends,
      nearest⟩, ?_, fun y finite' same => eq_of_literal_eq finite finite' same⟩
    rw [literal_of_isFinite finite]
    cases x.isNegative with
    | true =>
      rw [if_pos rfl]
      exact iff_of_true rfl rfl
    | false =>
      rw [if_neg Bool.false_ne_true]
      exact iff_of_false constant.head?_ne Bool.false_ne_true
  · next infinite => rw [literal_eq, if_neg infinite]

/-- The least number, the one after a power of two, and zero with its sign. -/
example : (⟨1⟩ : Single).literal = "1e-45" ∧ (⟨0x4b800001⟩ : Single).literal = "16777218.0" ∧
    (⟨0x80000000⟩ : Single).literal = "-0.0" := by
  decide +kernel

end ShaderComposer
