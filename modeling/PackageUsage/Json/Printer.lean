import PackageUsage.Decimal.Layout
import PackageUsage.Json.Basic
import PackageUsage.Text.CodePoint

namespace PackageUsage.Json

/-- Numbers have the fewest digits that identify them, positionally for decimal exponents from -4
to 15 and otherwise with an exponent of at least two digits. -/
def numberLayout : Decimal.Layout := ⟨-4, 16, 2, "NaN", "Infinity"⟩

def hexDigit (n : Nat) : Char := (Nat.toDigits 16 (n % 16)).headD '0'

def unitEscape (n : Nat) : List Char :=
  ['\\', 'u', hexDigit (n / 4096), hexDigit (n / 256), hexDigit (n / 16), hexDigit n]

/-- A code point inside a string: two-character escapes where there is one, otherwise the 16-bit
units of whatever is not printable ASCII. -/
def escapePoint (n : Nat) : List Char :=
  let c := Text.CodePoint.character n
  if c = '"' then ['\\', '"']
  else if c = '\\' then ['\\', '\\']
  else if c = '\n' then ['\\', 'n']
  else if c = '\r' then ['\\', 'r']
  else if c = '\t' then ['\\', 't']
  else if c = '\x08' then ['\\', 'b']
  else if c = '\x0c' then ['\\', 'f']
  else if ' ' ≤ c ∧ c ≤ '~' then [c]
  else if n < 0x10000 then unitEscape n
  else unitEscape (0xD800 + (n - 0x10000) / 0x400) ++ unitEscape (0xDC00 + (n - 0x10000) % 0x400)

def quote (s : String) : String :=
  String.ofList ('"' :: (Text.codePoints s).flatMap escapePoint ++ ['"'])

/-- How the parts of arrays and objects are set apart. -/
inductive Spacing where
  /-- Everything on one line without a space. -/
  | compact
  /-- Every part on a line of its own, indented by two more spaces than what holds it. -/
  | indented (depth : Nat)

def Spacing.deeper : Spacing → Spacing
  | compact => compact
  | indented d => indented (d + 1)

def Spacing.newline : Spacing → String
  | compact => ""
  | indented d => "\n" ++ String.ofList (List.replicate (2 * d) ' ')

def Spacing.colon : Spacing → String
  | compact => ":"
  | indented _ => ": "

/-- Parts between brackets; no parts leave nothing between them. -/
def Spacing.bracket (sp : Spacing) (l r : String) (parts : List String) : String :=
  if parts.isEmpty then l ++ r
  else l ++ sp.deeper.newline ++ ("," ++ sp.deeper.newline).intercalate parts ++ sp.newline ++ r

mutual

def render (sp : Spacing) : Json → String
  | null => "null"
  | bool true => "true"
  | bool false => "false"
  | int n => toString n
  | real x => numberLayout.render x
  | text s => quote s
  | list xs => sp.bracket "[" "]" (renderItems sp.deeper xs)
  | object ms => sp.bracket "\x7b" "\x7d" (renderMembers sp.deeper ms)

def renderItems (sp : Spacing) : List Json → List String
  | [] => []
  | x :: xs => render sp x :: renderItems sp xs

def renderMembers (sp : Spacing) : List (String × Json) → List String
  | [] => []
  | (k, v) :: ms => (quote k ++ sp.colon ++ render sp v) :: renderMembers sp ms

end

def compress (j : Json) : String := render .compact j

/-- One part a line, two spaces a level. -/
def pretty (j : Json) : String := render (.indented 0) j

end PackageUsage.Json
