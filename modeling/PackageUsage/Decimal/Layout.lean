import PackageUsage.Decimal.Shortest

namespace PackageUsage.Decimal

/-- The decisions of a number format that are not arithmetic. -/
structure Layout where
  /-- The least decimal exponent written positionally. -/
  positionalFrom : Int
  /-- The decimal exponents below this bound are written positionally. -/
  positionalBelow : Int
  /-- The least number of exponent digits. -/
  exponentWidth : Nat
  nan : String
  infinity : String

/-- `n` as at least `width` digits. -/
def padded (width n : Nat) : String :=
  let text := toString n
  String.ofList (List.replicate (width - text.length) '0') ++ text

/-- Digits are written positionally near one, with a digit on both sides of the point; elsewhere
one digit stands before the point and a signed exponent follows. -/
def Layout.digits (l : Layout) (d : Digits) : String :=
  let text := (toString d.digits).toList
  let count : Int := text.length
  let point := if d.digits = 0 then 1 else count + d.exponent
  let zeros (n : Int) := List.replicate n.toNat '0'
  if l.positionalFrom ≤ point - 1 && point - 1 < l.positionalBelow then
    String.ofList <|
      if point ≤ 0 then '0' :: '.' :: zeros (-point) ++ text
      else if count ≤ point then text ++ zeros (point - count) ++ ['.', '0']
      else text.take point.toNat ++ '.' :: text.drop point.toNat
  else
    let exponent := point - 1
    let fraction := if count = 1 then [] else '.' :: text.drop 1
    String.ofList (text.take 1 ++ fraction) ++ "e" ++ (if exponent < 0 then "-" else "+") ++
      padded l.exponentWidth exponent.natAbs

def isNegative (x : Float) : Bool := x.toBits >>> 63 == 1

def Layout.render (l : Layout) (x : Float) : String :=
  if x.isNaN then l.nan
  else
    let sign := if isNegative x then "-" else ""
    if x.isInf then sign ++ l.infinity
    else sign ++ l.digits (Magnitude.ofBits x.abs.toBits).shortest

/-- Nearest integer to `num / den`; a tie goes to the even one. -/
def roundToEven (num den : Nat) : Nat :=
  let q := num / den
  let twice := 2 * (num % den)
  if twice < den || (twice == den && q % 2 == 0) then q else q + 1

/-- A double with one place after the point, rounded from its exact value. -/
def onePlace (x : Float) : String :=
  if x.isNaN then "nan"
  else
    let sign := if isNegative x then "-" else ""
    if x.isInf then sign ++ "inf"
    else
      let (num, den) := (Magnitude.ofBits x.abs.toBits).quotient
      let tenths := roundToEven (num * 10) den
      sign ++ toString (tenths / 10) ++ "." ++ toString (tenths % 10)

end PackageUsage.Decimal
