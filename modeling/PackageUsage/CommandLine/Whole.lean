import PackageUsage.Text.Number

namespace PackageUsage.CommandLine

open Text.Number (digitsValue maxDigits sign)

/-- What remains once the zeros after a first zero are dropped, and the underscores among them.
`last` is the character before: it stays if the fraction or nothing comes next. -/
def dropZerosAfter? (last : Char) : List Char → Option (List Char)
  | [] => some [last]
  | '.' :: cs => some (last :: '.' :: cs)
  | c :: cs =>
    if c = '0' ∨ c = '_' then dropZerosAfter? c cs
    else if c.isDigit ∨ c = '-' then some (c :: cs)
    else none

/-- A number without needless zeros before it. It begins with a digit. -/
def dropZeros? : List Char → Option (List Char)
  | '0' :: cs => dropZerosAfter? '0' cs
  | c :: cs => if c.isDigit then some (c :: cs) else none
  | [] => none

/-- A number without its fraction, if the fraction is made of zeros. -/
def dropFraction (cs : List Char) : List Char :=
  match cs.span (· != '.') with
  | (whole, '.' :: zeros) => if !zeros.isEmpty && zeros.all (· == '0') then whole else cs
  | _ => cs

/-- A number without underscores. None of them stands at an end or beside another. -/
def dropUnderscores? (cs : List Char) : Option (List Char) :=
  let pieces := cs.splitOn '_'
  if pieces.any (·.isEmpty) then none else some pieces.flatten

/-- The value of plain digits. Zero is the only number that begins with a zero. -/
def natural? (ds : List Char) : Option Nat :=
  if ds.isEmpty || !ds.all Char.isDigit || maxDigits < ds.length then none
  else if ds.head? = some '0' ∧ ds ≠ ['0'] then none
  else some (digitsValue ds)

/-- The digits of a number after its sign, without what is passed over. -/
def digits? (cs : List Char) : Option (List Char) := do
  dropUnderscores? (dropFraction (← dropZeros? cs))

def negative? (ds : List Char) : Option Int := (natural? ds).map fun n => -(n : Int)

/-- The whole number in an argument. Where no minus sign comes first, one may follow the zeros. -/
def whole? (s : String) : Option Int := do
  let cs := Text.dropEnd Text.Number.isSpace (s.toList.dropWhile Text.Number.isSpace)
  let (minus, cs) := sign cs
  let ds ← digits? cs
  if minus then negative? ds
  else
    match ds with
    | '-' :: ds => negative? ds
    | ds => (natural? ds).map fun n => (n : Int)

end PackageUsage.CommandLine
