import PackageUsage.Text.Order

namespace PackageUsage.Text

/-- White space is the ASCII controls that separate text and every Unicode space or separator;
the zero width space and the byte order mark are not among them. -/
def isBlank (c : Char) : Bool :=
  let n := c.toNat
  (0x09 ≤ n && n ≤ 0x0D) || (0x1C ≤ n && n ≤ 0x20) || n == 0x85 || n == 0xA0 || n == 0x1680 ||
  (0x2000 ≤ n && n ≤ 0x200A) || n == 0x2028 || n == 0x2029 || n == 0x202F || n == 0x205F ||
  n == 0x3000

/-- Drops the elements at the end that satisfy `p`. -/
def dropEnd (p : Char → Bool) (cs : List Char) : List Char :=
  (cs.reverse.dropWhile p).reverse

def strip (s : String) : String :=
  String.ofList (dropEnd isBlank (s.toList.dropWhile isBlank))

def isBlankText (s : String) : Bool := s.toList.all isBlank

/-- The lower case of the ASCII letters. Keywords are compared after this, and they are ASCII:
of the other letters only the Kelvin sign has an ASCII lower case. -/
def lower (s : String) : String :=
  s.map fun c => if c = '\u212A' then 'k' else c.toLower

/-- Whether `p` begins `s`. -/
def startsWith (s p : String) : Bool := p.toList.isPrefixOf s.toList

/-- Whether `p` ends `s`. -/
def endsWith (s p : String) : Bool := p.toList.isSuffixOf s.toList

/-- What follows `p`, if `p` begins `s`. -/
def dropStart? (s p : String) : Option String :=
  (go p.toList s.toList).map String.ofList
where
  go : List Char → List Char → Option (List Char)
    | [], cs => some cs
    | a :: as, c :: cs => if a = c then go as cs else none
    | _ :: _, [] => none

def hasChar (s : String) (c : Char) : Bool := s.toList.contains c

/-- The pieces between the occurrences of `sep`, at least one. -/
def split (sep : Char) (s : String) : List String :=
  (s.toList.splitOn sep).map String.ofList

def contains (s needle : String) : Bool :=
  go needle.toList s.toList
where
  go (needle : List Char) : List Char → Bool
    | [] => needle.isEmpty
    | c :: cs => needle.isPrefixOf (c :: cs) || go needle cs

/-- The text between the first and the last code point. -/
def inner (s : String) : String := ofCodePoints ((codePoints s).drop 1).dropLast

def join (sep : String) (pieces : List String) : String := sep.intercalate pieces

def sort (xs : List String) : List String := xs.mergeSort le

/-- Sorted by code point, each text once. -/
def sortUnique (xs : List String) : List String := go (sort xs)
where
  go : List String → List String
    | [] => []
    | x :: xs => match go xs with
      | [] => [x]
      | y :: ys => if x = y then y :: ys else x :: y :: ys

end PackageUsage.Text
