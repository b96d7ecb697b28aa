import ShaderComposer.Numeric.Single

/-!
# Shortest decimals

`Single.shortest` gives the fewest decimal digits that read back as a finite word. A unit of
`2 ^ -149` is `5 ^ 149` units of `10 ^ -149`, so every finite word is a whole number of units of
`10 ^ -149` (`Single.decimalUnits`). Cutting digits off that number gives coarser and coarser
decimal grids; the coarsest grid with a neighbour of the value that reads back wins, and of two
such neighbours the nearer, the upper one when the value lies halfway.
-/

namespace ShaderComposer

/-- The number `digits * 10 ^ (power - 149)`. -/
structure Decimal where
  digits : Nat
  power : Nat
deriving DecidableEq

namespace Decimal

/-- The number in units of `10 ^ -149`. -/
def units (d : Decimal) : Nat := d.digits * Nat.pow 10 d.power

/-- How many units of `10 ^ -149` make a unit of `2 ^ -149`. -/
def unitsPerUnit : Nat := Nat.pow 5 149

def toSingle (negative : Bool) (d : Decimal) : Single := Single.round negative d.units unitsPerUnit

/-- The same number without one trailing zero, if there is one. -/
def trim (d : Decimal) : Decimal :=
  if d.digits % 10 = 0 then ⟨d.digits / 10, d.power + 1⟩ else d

theorem units_trim (d : Decimal) : d.trim.units = d.units := by
  unfold trim
  split
  · rename_i h
    have key : d.digits / 10 * 10 = d.digits := by omega
    show d.digits / 10 * (Nat.pow 10 d.power * 10) = d.digits * Nat.pow 10 d.power
    rw [Nat.mul_comm (Nat.pow 10 d.power) 10, ← Nat.mul_assoc, key]
  · rfl

end Decimal

namespace Single

/-- The magnitude of a finite word in units of `10 ^ -149`. -/
def decimalUnits (x : Single) : Nat := x.units * Decimal.unitsPerUnit

/-- The decimal is read as the magnitude of `x`. -/
def readsBack (x : Single) (d : Decimal) : Bool := d.toSingle x.isNegative == x

/-- The neighbour of `x` on the grid of `10 ^ (power - 149)` that reads back, if one does. -/
def onGrid (x : Single) (power : Nat) : Option Decimal :=
  let lower : Decimal := ⟨x.decimalUnits / Nat.pow 10 power, power⟩
  let upper : Decimal := ⟨lower.digits + 1, power⟩
  let nearLower := 2 * x.decimalUnits < lower.units + upper.units
  if x.readsBack lower && (nearLower || !x.readsBack upper) then some lower
  else if x.readsBack upper then some upper
  else none

theorem readsBack_of_onGrid {x : Single} {power : Nat} {d : Decimal}
    (h : x.onGrid power = some d) : x.readsBack d = true := by
  unfold onGrid at h
  dsimp only at h
  split at h
  · rename_i hl
    rw [← Option.some.inj h]
    exact (Bool.and_eq_true_iff.1 hl).1
  · split at h
    · rename_i hu
      rw [← Option.some.inj h]
      exact hu
    · cases h

/-- The coarsest hit on the grids from `power` down to the exact one. -/
def searchFrom (x : Single) : Nat → Decimal
  | 0 => ⟨x.decimalUnits, 0⟩
  | power + 1 => (x.onGrid (power + 1)).getD (searchFrom x power)

/-- The shortest decimal of a finite word other than zero. -/
def shortest (x : Single) : Decimal :=
  (x.searchFrom ((Nat.toDigits 10 x.decimalUnits).length - 1)).trim

end Single

end ShaderComposer
