import PackageUsage.Json.Reader

namespace PackageUsage.Toml

open Json.Reader (hexValue?)

def isSpace (c : Char) : Bool := c == ' ' || c == '\t'

def isSpaceOrLine (c : Char) : Bool := isSpace c || c == '\n'

def isIllegal (c : Char) : Bool := (c.toNat < 0x20 && c != '\t') || c.toNat == 0x7F

/-- The rest of a literal string after its opening quote. -/
def literal (cs : List Char) : Option (String × List Char) :=
  let (body, rest) := cs.span (· != '\'')
  match rest with
  | [] => none
  | _ :: rest => if body.any isIllegal then none else some (String.ofList body, rest)

/-- The quotes, two at most, that stand before the three that end a string. What is read ends with
the first three of them. -/
def extraQuotes (quote : Char) : List Char → List Char × List Char
  | a :: b :: rest =>
    if a ≠ quote then ([], a :: b :: rest)
    else if b ≠ quote then ([a], b :: rest)
    else ([a, b], rest)
  | [a] => if a ≠ quote then ([], [a]) else ([a], [])
  | [] => ([], [])

def literalLines : List Char → Option (List Char × List Char)
  | [] => none
  | '\'' :: '\'' :: '\'' :: rest => some (extraQuotes '\'' rest)
  | c :: rest =>
    if isIllegal c && c != '\n' then none
    else (literalLines rest).map fun (cs, rest) => (c :: cs, rest)

/-- The character with a code in `width` hexadecimal digits, as text carries it. Halves of surrogate
pairs are no characters. -/
def codePoint (width : Nat) (cs : List Char) : Option (List Char × List Char) := do
  let ds := cs.take width
  if ds.length ≠ width then none
  let n := (← ds.mapM hexValue?).foldl (fun acc d => acc * 16 + d) 0
  if Text.CodePoint.isHalf n || Text.CodePoint.count ≤ n then none
  else some (Text.CodePoint.chars n, cs.drop width)

/-- A backslash at the end of a line takes away the line end and all space after it. -/
def lineJoin (cs : List Char) : Option (List Char) :=
  match cs.dropWhile isSpace with
  | [] => some []
  | '\n' :: rest => some (rest.dropWhile isSpaceOrLine)
  | _ => none

/-- What follows a backslash: a character, or nothing where two lines are joined. -/
def escape (lines : Bool) : List Char → Option (List Char × List Char)
  | 'b' :: rest => some (['\x08'], rest)
  | 't' :: rest => some (['\t'], rest)
  | 'n' :: rest => some (['\n'], rest)
  | 'f' :: rest => some (['\x0c'], rest)
  | 'r' :: rest => some (['\r'], rest)
  | '"' :: rest => some (['"'], rest)
  | '\\' :: rest => some (['\\'], rest)
  | 'u' :: rest => codePoint 4 rest
  | 'U' :: rest => codePoint 8 rest
  | c :: rest =>
    if lines && isSpaceOrLine c then (lineJoin (c :: rest)).map ([], ·) else none
  | [] => none

/-- The rest of a basic string; `acc` holds what was read, last first. -/
def basic (lines : Bool) (acc : List Char) : Nat → List Char → Option (List Char × List Char)
  | 0, _ => none
  | _ + 1, [] => none
  | fuel + 1, '\\' :: rest => do
    let (cs, rest) ← escape lines rest
    basic lines (cs.reverse ++ acc) fuel rest
  | fuel + 1, '"' :: rest =>
    if !lines then some (acc.reverse, rest)
    else match rest with
      | '"' :: '"' :: rest =>
        let (quotes, rest) := extraQuotes '"' rest
        some (acc.reverse ++ quotes, rest)
      | _ => basic lines ('"' :: acc) fuel rest
  | fuel + 1, c :: rest =>
    if isIllegal c && !(lines && c == '\n') then none else basic lines (c :: acc) fuel rest

/-- A line feed right after the opening quotes is not part of the text. -/
def dropFirstLine : List Char → List Char
  | '\n' :: rest => rest
  | cs => cs

def basicLine (cs : List Char) : Option (String × List Char) :=
  (basic false [] (cs.length + 1) cs).map fun (s, rest) => (String.ofList s, rest)

/-- A string, if one comes next: the outer option tells whether one begins. -/
def string? : List Char → Option (Option (String × List Char))
  | '"' :: '"' :: '"' :: rest =>
    let rest := dropFirstLine rest
    some ((basic true [] (rest.length + 1) rest).map fun (s, rest) => (String.ofList s, rest))
  | '"' :: rest => some (basicLine rest)
  | '\'' :: '\'' :: '\'' :: rest =>
    some ((literalLines (dropFirstLine rest)).map fun (s, rest) => (String.ofList s, rest))
  | '\'' :: rest => some (literal rest)
  | _ => none

end PackageUsage.Toml
