import PackageUsage.Decimal.Layout

namespace PackageUsage.Decimal

/-- The double nearest to `digits * 10 ^ exponent`. Beyond the range of doubles the answer is
known without computing the power. -/
def nearest (negative : Bool) (digits : Nat) (exponent : Int) : Float :=
  let length : Int := (toString digits).length
  let magnitude : Float :=
    if digits = 0 ∨ length + exponent < -400 then 0.0
    else if 400 < length + exponent then 1.0 / 0.0
    else Float.ofScientific digits (decide (exponent < 0)) exponent.natAbs
  if negative then -magnitude else magnitude

def ofInt (n : Int) : Float := nearest (decide (n < 0)) n.natAbs 0

/-- The place of the first bit of `num / den`: the quotient is at least two to this power, and below
the next power. -/
def leadingPlace (num den : Nat) : Int :=
  let guess : Int := (Nat.log2 num : Int) - Nat.log2 den
  if num * Nat.pow 2 (-guess).toNat < den * Nat.pow 2 guess.toNat then guess - 1 else guess

/-- The double `mantissa * 2 ^ unit`, infinite if that is too large. The unit is the place of the
last bit that a double of this size has, so that the mantissa, less its first bit unless the unit is
the least one, follows the exponent among the bits. -/
def ofMantissa (mantissa : Nat) (unit : Int) : Float :=
  if mantissa = 0 then 0.0
  else
    let bits := mantissa + (unit + 1074).toNat * Nat.pow 2 52
    Float.ofBits (UInt64.ofNat (min bits 0x7FF0000000000000))

/-- The double nearest to `num / den`. The quotient is rounded once, at the place of the last bit
that a double of its size has. -/
def ofQuotient (num den : Int) : Float :=
  let a := num.natAbs
  let b := den.natAbs
  let unit := max (leadingPlace a b - 52) (-1074)
  let mantissa := roundToEven (a * Nat.pow 2 (-unit).toNat) (b * Nat.pow 2 unit.toNat)
  let magnitude := ofMantissa mantissa unit
  if (num < 0) != (den < 0) then -magnitude else magnitude

end PackageUsage.Decimal
