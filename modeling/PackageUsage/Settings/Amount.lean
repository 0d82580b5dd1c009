import PackageUsage.Decimal.Comparison
import PackageUsage.Decimal.Reading

namespace PackageUsage

inductive Amount where
  | flag (b : Bool)
  | whole (n : Int)
  | real (x : Float)

namespace Amount

/-- Amounts in messages have the fewest digits that identify them. -/
def layout : Decimal.Layout := ⟨-4, 16, 2, "nan", "inf"⟩

def text : Amount → String
  | flag b => if b then "True" else "False"
  | whole n => toString n
  | real x => layout.render x

/-- The whole number that an amount stands for; none for a real one. -/
def whole? : Amount → Option Int
  | flag b => some (if b then 1 else 0)
  | whole n => some n
  | real _ => none

def toFloat : Amount → Float
  | flag b => if b then 1.0 else 0.0
  | whole n => Decimal.ofInt n
  | real x => x

/-- Whether an amount is below a whole number. Nothing holds of an amount that is no number. -/
def below (a : Amount) (n : Int) : Bool :=
  match a with
  | real x => Decimal.isBelowWhole x n
  | _ => decide ((a.whole?.getD 0) < n)

def atMost (a : Amount) (n : Int) : Bool :=
  match a with
  | real x => Decimal.isAtMostWhole x n
  | _ => decide ((a.whole?.getD 0) ≤ n)

def atLeast (a : Amount) (n : Int) : Bool :=
  match a with
  | real x => Decimal.isAtLeastWhole x n
  | _ => decide (n ≤ (a.whole?.getD 0))

def isAbove (a : Amount) (x : Float) : Bool :=
  match a with
  | real y => decide (x < y)
  | _ => Decimal.isBelowWhole x (a.whole?.getD 0)

/-- The double nearest to an amount. A whole number can be too large to have one. -/
def double? (a : Amount) : Option Float :=
  match a with
  | real x => some x
  | _ => some a.toFloat |>.filter Float.isFinite

/-- The sum of two amounts, whole numbers being added exactly. -/
def add? (a b : Amount) : Option Amount :=
  match a.whole?, b.whole? with
  | some m, some n => some (.whole (m + n))
  | _, _ => do some (.real ((← a.double?) + (← b.double?)))

/-- The quotient of two amounts; that of whole numbers is rounded once. -/
def over? (a b : Amount) : Option Float :=
  match a.whole?, b.whole? with
  | some m, some n => some (Decimal.ofQuotient m n)
  | _, _ => do some ((← a.double?) / (← b.double?))

end Amount

end PackageUsage
