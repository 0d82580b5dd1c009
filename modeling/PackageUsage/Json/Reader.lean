import PackageUsage.Json.Basic
import PackageUsage.Text.Number
import PackageUsage.Text.CodePoint

namespace PackageUsage.Json.Reader

open Text
open Text.Number (digitsValue exponent? maxDigits)

def isSpace (c : Char) : Bool := c == ' ' || c == '\t' || c == '\n' || c == '\r'

def skipSpace (cs : List Char) : List Char := cs.dropWhile isSpace

def hexValue? (c : Char) : Option Nat :=
  if '0' ≤ c && c ≤ '9' then some (c.toNat - '0'.toNat)
  else if 'a' ≤ c && c ≤ 'f' then some (c.toNat - 'a'.toNat + 10)
  else if 'A' ≤ c && c ≤ 'F' then some (c.toNat - 'A'.toNat + 10)
  else none

def hex4 : List Char → Option (Nat × List Char)
  | a :: b :: c :: d :: rest => do
    let ds ← [a, b, c, d].mapM hexValue?
    some (ds.foldl (fun acc v => acc * 16 + v) 0, rest)
  | _ => none

/-- The code point of what follows `\u`. Two halves of a surrogate pair that belong together are one
code point; a half that stands alone is kept. -/
def unicodeEscape (cs : List Char) : Option (Nat × List Char) := do
  let (n, rest) ← hex4 cs
  match rest with
  | '\\' :: 'u' :: more =>
    if CodePoint.isHigh n then
      let (m, rest') ← hex4 more
      if CodePoint.isLow m then some (CodePoint.pair n m, rest') else some (n, rest)
    else some (n, rest)
  | _ => some (n, rest)

def simpleEscape? : Char → Option Char
  | '"' => some '"'
  | '\\' => some '\\'
  | '/' => some '/'
  | 'b' => some '\x08'
  | 'f' => some '\x0c'
  | 'n' => some '\n'
  | 'r' => some '\r'
  | 't' => some '\t'
  | _ => none

/-- The rest of a string after its opening quote; `acc` holds what was read, last first. -/
def string (acc : List Char) : Nat → List Char → Option (String × List Char)
  | 0, _ => none
  | _ + 1, [] => none
  | _ + 1, '"' :: rest => some (String.ofList acc.reverse, rest)
  | fuel + 1, '\\' :: 'u' :: rest => do
    let (n, rest) ← unicodeEscape rest
    string ((CodePoint.chars n).reverse ++ acc) fuel rest
  | fuel + 1, '\\' :: e :: rest => do
    let c ← simpleEscape? e
    string (c :: acc) fuel rest
  | fuel + 1, c :: rest => if c.toNat < 0x20 then none else string (c :: acc) fuel rest

/-- The digits of a fraction, if a point with a digit after it comes next. -/
def fraction (cs : List Char) : List Char × List Char :=
  match cs with
  | '.' :: d :: rest =>
    if d.isDigit then (d :: rest).span Char.isDigit else ([], cs)
  | _ => ([], cs)

/-- A number: an integer unless a fraction or an exponent follows. A first digit 0 stands alone. -/
def number (negative : Bool) (cs : List Char) : Option (Json × List Char) :=
  match cs with
  | '0' :: rest => finish ['0'] rest
  | _ =>
    let (ds, rest) := cs.span Char.isDigit
    if ds.isEmpty then none else finish ds rest
where
  finish (whole rest : List Char) : Option (Json × List Char) :=
    let (frac, rest) := fraction rest
    match frac, exponent? rest with
    | [], none =>
      let n : Int := digitsValue whole
      if maxDigits < whole.length then none
      else some (.int (if negative then -n else n), rest)
    | _, e =>
      let (e, rest) := e.getD (0, rest)
      some (.real (Decimal.nearest negative (digitsValue (whole ++ frac)) (e - frac.length)), rest)

/-- The rest of `cs` after the word `w`. -/
def afterWord? (w : String) (cs : List Char) : Option (List Char) :=
  if w.toList.isPrefixOf cs then some (cs.drop w.length) else none

def words : List (String × Json) :=
  [("null", .null), ("true", .bool true), ("false", .bool false), ("NaN", .real (0.0 / 0.0)),
   ("Infinity", .real (1.0 / 0.0)), ("-Infinity", .real (-1.0 / 0.0))]

def scalar (cs : List Char) : Option (Json × List Char) :=
  match words.findSome? fun (w, v) => (afterWord? w cs).map (v, ·) with
  | some hit => some hit
  | none =>
    match cs with
    | '-' :: rest => number true rest
    | _ => number false cs

mutual

def value : Nat → List Char → Option (Json × List Char)
  | 0, _ => none
  | fuel + 1, '"' :: rest => do
    let (s, rest) ← string [] fuel rest
    some (.text s, rest)
  | fuel + 1, '[' :: rest =>
    match skipSpace rest with
    | ']' :: rest => some (.list [], rest)
    | rest => do
      let (xs, rest) ← elements fuel rest
      some (.list xs, rest)
  | fuel + 1, '\x7b' :: rest =>
    match skipSpace rest with
    | '\x7d' :: rest => some (.object [], rest)
    | rest => do
      let (ms, rest) ← entries fuel rest
      some (ofMembers ms, rest)
  | _ + 1, cs => scalar cs

/-- The elements of a nonempty array and its closing bracket. -/
def elements : Nat → List Char → Option (List Json × List Char)
  | 0, _ => none
  | fuel + 1, cs => do
    let (x, rest) ← value fuel cs
    match skipSpace rest with
    | ']' :: rest => some ([x], rest)
    | ',' :: rest =>
      let (xs, rest) ← elements fuel (skipSpace rest)
      some (x :: xs, rest)
    | _ => none

/-- The members of a nonempty object and its closing brace. -/
def entries : Nat → List Char → Option (List (String × Json) × List Char)
  | 0, _ => none
  | fuel + 1, '"' :: rest => do
    let (key, rest) ← string [] fuel rest
    match skipSpace rest with
    | ':' :: rest =>
      let (v, rest) ← value fuel (skipSpace rest)
      match skipSpace rest with
      | '\x7d' :: rest => some ([(key, v)], rest)
      | ',' :: rest =>
        let (ms, rest) ← entries fuel (skipSpace rest)
        some ((key, v) :: ms, rest)
      | _ => none
    | _ => none
  | _ + 1, _ => none

end

end PackageUsage.Json.Reader

namespace PackageUsage.Json

/-- The value that a whole text denotes. Every step of the reader consumes a character or enters
a level, so twice the length bounds its steps. -/
def read? (s : String) : Option Json := do
  let cs := s.toList
  let (v, rest) ← Reader.value (2 * cs.length + 2) (Reader.skipSpace cs)
  if (Reader.skipSpace rest).isEmpty then some v else none

end PackageUsage.Json
