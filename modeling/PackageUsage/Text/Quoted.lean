import PackageUsage.Text.Printable
import PackageUsage.Text.CodePoint

namespace PackageUsage.Text

/-- The last `width` hexadecimal digits of `n`. -/
def hex (width n : Nat) : List Char :=
  match width with
  | 0 => []
  | w + 1 => hex w (n / 16) ++ [(Nat.toDigits 16 (n % 16)).headD '0']

def escaped (n : Nat) : List Char :=
  if n < 0x100 then '\\' :: 'x' :: hex 2 n
  else if n < 0x10000 then '\\' :: 'u' :: hex 4 n
  else '\\' :: 'U' :: hex 8 n

/-- One character between quotes. The quote and the backslash get a backslash, line ends and tabs
their letters, and other unprintable characters their code point. -/
def quotedChar (quote c : Char) : List Char :=
  if c = quote ∨ c = '\\' then ['\\', c]
  else if c = '\n' then ['\\', 'n']
  else if c = '\r' then ['\\', 'r']
  else if c = '\t' then ['\\', 't']
  else if isPrintable c then [c]
  else escaped c.toNat

/-- One code point between quotes. Half a surrogate pair is no character to show. -/
def quotedPoint (quote : Char) (n : Nat) : List Char :=
  if CodePoint.isHalf n then escaped n else quotedChar quote (Char.ofNat n)

/-- Single quotes, unless the text has one and no double quote. -/
def quoteMark (s : String) : Char :=
  if s.toList.contains '\'' && !s.toList.contains '"' then '"' else '\''

def quoted (s : String) : String :=
  let q := quoteMark s
  String.ofList (q :: (codePoints s).flatMap (quotedPoint q) ++ [q])

end PackageUsage.Text
