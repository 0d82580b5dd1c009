namespace PackageUsage.Decimal

/-- A nonnegative decimal, `digits * 10 ^ exponent`. -/
structure Digits where
  digits : Nat
  exponent : Int
deriving DecidableEq, Repr

/-- The magnitude of a finite double, `mantissa * 2 ^ exponent`. -/
structure Magnitude where
  mantissa : Nat
  exponent : Int
  /-- The number below is half as far away as the number above. -/
  atPower : Bool

/-- Reads the magnitude off the bits of a finite double. -/
def Magnitude.ofBits (bits : UInt64) : Magnitude :=
  let biased := ((bits >>> 52) &&& 0x7FF).toNat
  let fraction := (bits &&& 0xFFFFFFFFFFFFF).toNat
  if biased = 0 then ⟨fraction, -1074, false⟩
  else ⟨Nat.pow 2 52 + fraction, (biased : Int) - 1075, fraction == 0 && decide (1 < biased)⟩

def Magnitude.quotient (x : Magnitude) : Nat × Nat :=
  (x.mantissa * Nat.pow 2 x.exponent.toNat, Nat.pow 2 (-x.exponent).toNat)

/-- The reals that round to a number: its ends belong to it when `closed`. All three are
numerators over `denominator`. -/
structure Interval where
  low : Nat
  middle : Nat
  high : Nat
  denominator : Nat
  closed : Bool

/-- Rounding is to nearest with ties to the even mantissa, so the ends are halfway to the
neighbours and belong to the even ones. -/
def Magnitude.interval (x : Magnitude) : Interval :=
  let scale := Nat.pow 2 (x.exponent - 2).toNat
  { low := (4 * x.mantissa - if x.atPower then 1 else 2) * scale
    middle := 4 * x.mantissa * scale
    high := (4 * x.mantissa + 2) * scale
    denominator := Nat.pow 2 (2 - x.exponent).toNat
    closed := x.mantissa % 2 == 0 }

/-- `n * 10 ^ e` over the interval's denominator, with the factor that clears a negative `e`. -/
def Interval.scaled (i : Interval) (n : Nat) (e : Int) : Nat :=
  n * Nat.pow 10 e.toNat * i.denominator

/-- Whether the decimal `n * 10 ^ e` lies in the interval. -/
def Interval.contains (i : Interval) (n : Nat) (e : Int) : Bool :=
  let value := i.scaled n e
  let unit := Nat.pow 10 (-e).toNat
  if i.closed then decide (i.low * unit ≤ value) && decide (value ≤ i.high * unit)
  else decide (i.low * unit < value) && decide (value < i.high * unit)

/-- The neighbour of the middle on the grid of `10 ^ e` that lies in the interval, the nearer one
if both do and the even one in a tie. -/
def Interval.onGrid? (i : Interval) (e : Int) : Option Nat :=
  let below := i.middle * Nat.pow 10 (-e).toNat / (i.denominator * Nat.pow 10 e.toNat)
  let twice := 2 * i.middle * Nat.pow 10 (-e).toNat
  let sum := i.scaled (2 * below + 1) e
  match i.contains below e, i.contains (below + 1) e with
  | true, true =>
    if twice < sum then some below
    else if sum < twice then some (below + 1)
    else some (if below % 2 = 0 then below else below + 1)
  | true, false => some below
  | false, true => some (below + 1)
  | false, false => none

/-- The number of decimal digits before the point of `num / den`; for a quotient below one, minus
the number of zeros after the point. -/
def pointPosition (num den : Nat) : Int :=
  if den ≤ num then (Nat.toDigits 10 (num / den)).length
  else match (List.range 400).find? fun j => decide (den ≤ num * Nat.pow 10 (j + 1)) with
    | some j => -(j : Int)
    | none => 0

/-- Moves trailing zeros of the digits into the exponent, at most `fuel` of them. -/
def Digits.trim (d : Digits) : Nat → Digits
  | 0 => d
  | fuel + 1 =>
    if d.digits ≠ 0 ∧ d.digits % 10 = 0 then trim ⟨d.digits / 10, d.exponent + 1⟩ fuel else d

/-- The shortest digits of a finite magnitude. Seventeen always suffice; the exact value stands
behind the search so that no guess is ever returned. -/
def Magnitude.shortest (x : Magnitude) : Digits :=
  if x.mantissa = 0 then ⟨0, 0⟩
  else
    let (num, den) := x.quotient
    let k := pointPosition num den
    let i := x.interval
    let hit := (List.range 17).findSome? fun n =>
      let e := k - (n + 1 : Nat)
      (i.onGrid? e).map fun d => Digits.mk d e
    (hit.getD ⟨num * Nat.pow 5 (-x.exponent).toNat, min x.exponent 0⟩).trim 400

end PackageUsage.Decimal
