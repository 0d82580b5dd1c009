import PackageUsage.Decimal.Reading
import PackageUsage.Text.Basic
import PackageUsage.Text.DecimalDigit

namespace PackageUsage.Text.Number

def digitsValue (ds : List Char) : Nat :=
  ds.foldl (fun acc c => acc * 10 + (c.toNat - '0'.toNat)) 0

/-- Whole numbers with more digits than this are neither read nor written. -/
def maxDigits : Nat := 4300

def exponent? (cs : List Char) : Option (Int × List Char) :=
  let digits (negative : Bool) (cs : List Char) : Option (Int × List Char) :=
    let (ds, rest) := cs.span Char.isDigit
    if ds.isEmpty then none
    else
      let n : Int := digitsValue ds
      some (if negative then -n else n, rest)
  match cs with
  | e :: '+' :: rest => if e == 'e' || e == 'E' then digits false rest else none
  | e :: '-' :: rest => if e == 'e' || e == 'E' then digits true rest else none
  | e :: rest => if e == 'e' || e == 'E' then digits false rest else none
  | [] => none

/-- White space without the four separators among the ASCII controls. -/
def isSpace (c : Char) : Bool := isBlank c && !(0x1C ≤ c.toNat && c.toNat ≤ 0x1F)

def plainDigit (c : Char) : Char :=
  match digitValue? c with
  | some n => Char.ofNat ('0'.toNat + n)
  | none => c

/-- A number in ASCII digits without the space around it. -/
def plain (s : String) : List Char :=
  dropEnd isSpace (s.toList.dropWhile isSpace) |>.map plainDigit

def sign : List Char → Bool × List Char
  | '-' :: rest => (true, rest)
  | '+' :: rest => (false, rest)
  | cs => (false, cs)

/-- Why a text is no whole number. -/
inductive Problem where
  | malformed
  | tooLong (digits : Nat)
deriving DecidableEq, Repr

def whole (s : String) : Except Problem Int :=
  let (negative, cs) := sign (plain s)
  let (run, rest) := cs.span fun c => c.isDigit || c == '_'
  let pieces := run.splitOn '_'
  let digits := pieces.flatten
  if pieces.any List.isEmpty then .error .malformed
  else if maxDigits < digits.length then .error (.tooLong digits.length)
  else if !rest.isEmpty then .error .malformed
  else
    let n : Int := digitsValue digits
    .ok (if negative then -n else n)

/-- Takes out the underscores, each of which must have a digit on both sides. -/
def joinDigits (afterDigit : Bool) : List Char → Option (List Char)
  | [] => some []
  | ['_'] => none
  | '_' :: c :: cs =>
    if afterDigit && c.isDigit then (joinDigits true cs).map (c :: ·) else none
  | c :: cs => (joinDigits c.isDigit cs).map (c :: ·)

/-- A magnitude in digits, with a point or an exponent or both. -/
def magnitude? (negative : Bool) (cs : List Char) : Option Float :=
  let (int, rest) := cs.span Char.isDigit
  let (frac, rest) := match rest with
    | '.' :: rest => rest.span Char.isDigit
    | _ => ([], rest)
  if int.isEmpty && frac.isEmpty then none
  else
    let value (e : Int) := Decimal.nearest negative (digitsValue (int ++ frac)) (e - frac.length)
    if rest.isEmpty then some (value 0)
    else match exponent? rest with
      | some (e, []) => some (value e)
      | _ => none

/-- The real number in a text, or a word for an infinity or for no number. -/
def real? (s : String) : Option Float := do
  let (negative, cs) := sign (← joinDigits false (plain s))
  let word := lower (String.ofList cs)
  if word = "inf" ∨ word = "infinity" then some (if negative then -1.0 / 0.0 else 1.0 / 0.0)
  else if word = "nan" then some (0.0 / 0.0)
  else magnitude? negative cs

end PackageUsage.Text.Number
