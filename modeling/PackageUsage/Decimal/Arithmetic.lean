import PackageUsage.Decimal.Comparison
import PackageUsage.Decimal.Reading

namespace PackageUsage

class Arithmetic (α : Type) extends Add α, Sub α, Mul α, Div α where
  ofInt : Int → α
  /-- The quotient of two whole numbers. -/
  ratio : Int → Int → α
  lt : α → α → Bool
  le : α → α → Bool
  abs : α → α
  /-- The greatest whole number that a finite number reaches. -/
  floor : α → Int
  /-- The magnitude of the first number with the sign of the second. -/
  withSignOf : α → α → α
  isFinite : α → Bool

instance : Arithmetic Float where
  ofInt := Decimal.ofInt
  ratio := Decimal.ofQuotient
  lt x y := decide (x < y)
  le x y := decide (x ≤ y)
  abs := Float.abs
  floor := Decimal.floor
  withSignOf x y := if Decimal.isNegative y then -x.abs else x.abs
  isFinite := Float.isFinite

namespace Arithmetic

variable {α : Type} [Arithmetic α]

/-- `used` out of `total` in percent. -/
def percent (used total : Int) : α := ratio used total * ofInt 100

/-- Keeps a number between 0 and 100. What is no number counts as 100. -/
def clamp (x : α) : α :=
  let capped := if lt x (ofInt 100) then x else ofInt 100
  if lt (ofInt 0) capped then capped else ofInt 0

/-- A number has a whole number of tenths nearest to it if ten times the number is finite. -/
def hasTenths (x : α) : Bool := isFinite (abs x * ofInt 10 + ratio 1 2)

/-- One decimal place, a half going away from zero, for a number that `hasTenths`. -/
def roundTenth (x : α) : α :=
  withSignOf (ratio (floor (abs x * ofInt 10 + ratio 1 2)) 10) x

end Arithmetic

end PackageUsage
