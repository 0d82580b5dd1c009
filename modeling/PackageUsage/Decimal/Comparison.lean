import PackageUsage.Decimal.Layout

namespace PackageUsage.Decimal

/-- How a double compares with a whole number, unless it is no number. -/
def compareWhole? (x : Float) (n : Int) : Option Ordering :=
  if x.isNaN then none
  else if x.isInf then some (if isNegative x then .lt else .gt)
  else
    let (num, den) := (Magnitude.ofBits x.abs.toBits).quotient
    let signed : Int := if isNegative x then -num else num
    some (compare signed (n * den))

/-- The greatest whole number that a finite double reaches. -/
def floor (x : Float) : Int :=
  let (num, den) := (Magnitude.ofBits x.abs.toBits).quotient
  (if isNegative x then -(num : Int) else num) / (den : Int)

def isBelowWhole (x : Float) (n : Int) : Bool := (compareWhole? x n).any (·.isLT)

def isAtMostWhole (x : Float) (n : Int) : Bool := (compareWhole? x n).any (·.isLE)

def isAtLeastWhole (x : Float) (n : Int) : Bool := (compareWhole? x n).any (·.isGE)

end PackageUsage.Decimal
