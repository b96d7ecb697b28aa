import ShaderComposer.Numeric.Shortest

/-!
# Float literals

The text of a floating constant: the shortest digits that read back, with a point or an exponent
so that it is never an integer token. Numbers without a finite value are written as zero.
-/

namespace ShaderComposer

/-- The range of decimal exponents that is written without an exponent part. -/
structure FloatLayout where
  positionalFrom : Int
  positionalBelow : Int

namespace FloatLiteral

/-- Literals are positional from `0.0001` up to `10 ^ 16`. -/
def layout : FloatLayout := ⟨-4, 16⟩

/-- Digits with a decimal point after the first `point` of them, padded with zeros. -/
def positional (digits : List Char) (point : Int) : List Char :=
  if point ≤ 0 then '0' :: '.' :: (List.replicate point.natAbs '0' ++ digits)
  else if digits.length ≤ point.natAbs then
    digits ++ List.replicate (point.natAbs - digits.length) '0' ++ ['.', '0']
  else digits.take point.natAbs ++ '.' :: digits.drop point.natAbs

/-- Digits with the point after the first, and a power of ten. -/
def scientific (digits : List Char) (exponent : Int) : List Char :=
  let fraction := digits.drop 1
  digits.take 1 ++ (if fraction.isEmpty then [] else '.' :: fraction) ++
    'e' :: (toString exponent).toList

/-- A decimal laid out by `layout`. -/
def ofDecimal (d : Decimal) : List Char :=
  let digits := Nat.toDigits 10 d.digits
  let point : Int := digits.length + d.power - 149
  if layout.positionalFrom < point ∧ point ≤ layout.positionalBelow then positional digits point
  else scientific digits (point - 1)

def magnitude (x : Single) : List Char :=
  if x.units = 0 then ['0', '.', '0'] else ofDecimal x.shortest

/-- There is a point or an exponent in the text. -/
def isFloating (text : List Char) : Bool := text.any fun c => c == '.' || c == 'e' || c == 'E'

theorem isFloating_of_mem {text : List Char} {c : Char} (mem : c ∈ text)
    (mark : c = '.' ∨ c = 'e' ∨ c = 'E') : isFloating text = true := by
  refine List.any_eq_true.mpr ⟨c, mem, ?_⟩
  rcases mark with rfl | rfl | rfl <;> rfl

theorem isFloating_magnitude (x : Single) : isFloating (magnitude x) = true := by
  have point (digits rest : List Char) : isFloating (digits ++ '.' :: rest) = true :=
    isFloating_of_mem (List.mem_append_right _ List.mem_cons_self) (Or.inl rfl)
  have exponent (digits rest : List Char) : isFloating (digits ++ 'e' :: rest) = true :=
    isFloating_of_mem (List.mem_append_right _ List.mem_cons_self) (Or.inr (Or.inl rfl))
  unfold magnitude
  split
  · rfl
  · unfold ofDecimal
    dsimp only
    split
    · unfold positional
      split
      · exact point ['0'] _
      · split
        · exact point _ ['0']
        · exact point _ _
    · exact exponent _ _

end FloatLiteral

/-- The shortest decimal of a finite number under its sign. -/
def Single.decimalText (x : Single) : List Char :=
  (if x.isNegative then ['-'] else []) ++ FloatLiteral.magnitude x

/-- The decimal, with a fraction of zero in case nothing else tells it from an integer. -/
def Single.literal (x : Single) : String :=
  String.ofList
    (if x.isFinite then
      if FloatLiteral.isFloating x.decimalText then x.decimalText else x.decimalText ++ ['.', '0']
    else ['0', '.', '0'])

theorem Single.literal_eq (x : Single) :
    x.literal = String.ofList (if x.isFinite then x.decimalText else ['0', '.', '0']) := by
  have marked : FloatLiteral.isFloating x.decimalText = true := by
    have magnitude := FloatLiteral.isFloating_magnitude x
    unfold FloatLiteral.isFloating at magnitude
    unfold FloatLiteral.isFloating decimalText
    rw [List.any_append, magnitude, Bool.or_true]
  rw [literal, if_pos marked]

end ShaderComposer
