/-!
# Single-precision words

A `Single` is the 32-bit word of an IEEE number: a sign bit, eight exponent bits and 23 fraction
bits. Every finite word stands for a whole number of units of `2 ^ -149` (`Single.units`), so
arithmetic is exact arithmetic on naturals followed by one rounding (`Single.round`): to the
nearest word, a half going to the even one, and to infinity past the largest word.
-/

namespace ShaderComposer

/-- A single-precision number, given by its 32-bit word. -/
structure Single where
  bits : UInt32
deriving DecidableEq, Inhabited

namespace Single

/-! ### Fields of a word -/

def isNegative (x : Single) : Bool := x.bits.toNat >>> 31 == 1

/-- The exponent field, from 0 to 255. -/
def exponent (x : Single) : Nat := (x.bits.toNat >>> 23) % 256

def fraction (x : Single) : Nat := x.bits.toNat % 0x800000

def isFinite (x : Single) : Bool := x.exponent != 255

def isNaN (x : Single) : Bool := x.exponent == 255 && x.fraction != 0

def isInfinite (x : Single) : Bool := x.exponent == 255 && x.fraction == 0

/-- The magnitude of a finite word in units of `2 ^ -149`. -/
def units (x : Single) : Nat :=
  if x.exponent = 0 then x.fraction else (x.fraction + 0x800000) <<< (x.exponent - 1)

/-- A finite word of magnitude zero, of either sign. -/
def isZero (x : Single) : Bool := x.isFinite && x.units == 0

theorem exponent_lt (x : Single) : x.exponent < 256 := Nat.mod_lt _ (by decide)

theorem fraction_lt (x : Single) : x.fraction < 0x800000 := Nat.mod_lt _ (by decide)

/-! ### Words from fields -/

/-- The word of a sign and the 31 bits below it. -/
def ofMagnitude (negative : Bool) (magnitude : Nat) : Single :=
  ⟨UInt32.ofNat ((if negative then 0x80000000 else 0) + magnitude)⟩

def infinity (negative : Bool) : Single := ofMagnitude negative 0x7f800000

def nan : Single := ⟨0x7fc00000⟩

def zero : Single := ⟨0⟩

def one : Single := ⟨0x3f800000⟩

/-! ### Rounding -/

/-- The integer nearest to `num / den`, a half going to the even neighbour. -/
def roundDiv (num den : Nat) : Nat :=
  let quotient := num / den
  let rest := num % den
  if 2 * rest < den then quotient
  else if den < 2 * rest then quotient + 1
  else quotient + quotient % 2

theorem roundDiv_one (n : Nat) : roundDiv n 1 = n := by
  simp [roundDiv, Nat.mod_one]

/-- The word nearest to `num / den` units of `2 ^ -149`. The shift leaves a quotient below
`2 ^ 24`; counting each shift as one exponent step lets a carry flow into the exponent. -/
def round (negative : Bool) (num den : Nat) : Single :=
  let shift := (num / den).log2 - 23
  let magnitude := shift * 0x800000 + roundDiv num (den <<< shift)
  if magnitude < 0x7f800000 then ofMagnitude negative magnitude else infinity negative

def ofNat (n : Nat) : Single := round false (n <<< 149) 1

/-- The word nearest to `digits / 10 ^ places`. -/
def ofDecimal (digits places : Nat) : Single := round false (digits <<< 149) (Nat.pow 10 places)

instance : OfScientific Single where
  ofScientific digits fractional exponent :=
    if fractional then ofDecimal digits exponent else ofNat (digits * Nat.pow 10 exponent)

/-! ### Arithmetic -/

def neg (x : Single) : Single := ⟨x.bits ^^^ 0x80000000⟩

/-- The exact value in units, with its sign. -/
def signedUnits (x : Single) : Int := if x.isNegative then -(x.units : Int) else x.units

/-- Rounded sum. A sum of two zeros is negative only if both are; other zero sums are positive. -/
def add (x y : Single) : Single :=
  if x.isNaN || y.isNaN then nan
  else if x.isInfinite then
    if y.isInfinite && x.isNegative != y.isNegative then nan else x
  else if y.isInfinite then y
  else
    let sum := x.signedUnits + y.signedUnits
    round (if sum = 0 then x.isNegative && y.isNegative && x.isZero && y.isZero else sum < 0)
      sum.natAbs 1

def sub (x y : Single) : Single := if y.isNaN then nan else add x y.neg

def mul (x y : Single) : Single :=
  let negative := x.isNegative != y.isNegative
  if x.isNaN || y.isNaN then nan
  else if x.isInfinite || y.isInfinite then
    if x.isZero || y.isZero then nan else infinity negative
  else round negative (x.units * y.units) (1 <<< 149)

def div (x y : Single) : Single :=
  let negative := x.isNegative != y.isNegative
  if x.isNaN || y.isNaN then nan
  else if x.isInfinite then if y.isInfinite then nan else infinity negative
  else if y.isInfinite then ofMagnitude negative 0
  else if y.isZero then if x.isZero then nan else infinity negative
  else round negative (x.units <<< 149) y.units

instance : Neg Single := ⟨neg⟩
instance : Add Single := ⟨add⟩
instance : Sub Single := ⟨sub⟩
instance : Mul Single := ⟨mul⟩
instance : Div Single := ⟨div⟩

/-! ### Comparison and whole parts -/

/-- A number that orders all words but NaNs as the values they stand for. -/
def rank (x : Single) : Int :=
  if x.isNegative then -((x.bits.toNat % 0x80000000 : Nat) : Int) else x.bits.toNat

/-- IEEE order: no NaN is below anything or above it. -/
def lt (x y : Single) : Bool := !x.isNaN && !y.isNaN && x.rank < y.rank

/-- IEEE equality: a NaN differs from itself and the two zeros are equal. -/
def same (x y : Single) : Bool := !x.isNaN && !y.isNaN && x.rank == y.rank

/-- The larger number; a NaN gives way to the other operand. -/
def max (x y : Single) : Single :=
  if x.isNaN then y else if y.isNaN then x else if x.lt y then y else x

/-- The whole part as a 32-bit count: below one and NaN give zero, the largest count bounds it. -/
def floorCount (x : Single) : Nat :=
  if x.isNaN || x.isNegative then 0
  else if x.isInfinite then 0xffffffff
  else min (x.units >>> 149) 0xffffffff

end Single

end ShaderComposer
