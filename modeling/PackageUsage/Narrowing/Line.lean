import PackageUsage.Text.Basic

namespace PackageUsage.Narrowing

/-- How a line binds a name. -/
inductive Form where
  | importFrom
  | require (keyword : List Char)
deriving DecidableEq, Repr

/-- A line that takes one export out of a module. What stands between its parts is not kept. -/
structure Line where
  form : Form
  indent : List Char
  name : List Char
  quote : Char
  module : List Char
  /-- What follows the closing quote or parenthesis. -/
  tail : List Char
deriving DecidableEq, Repr

def isNameStart (c : Char) : Bool := c.isAlpha || c == '_' || c == '$'

def isNameChar (c : Char) : Bool := c.isAlphanum || c == '_' || c == '$'

def isQuote (c : Char) : Bool := c == '"' || c == '\''

namespace Line

def word? : List Char → List Char → Option (List Char)
  | [], cs => some cs
  | a :: as, c :: cs => if a = c then word? as cs else none
  | _ :: _, [] => none

def optionalSpace (cs : List Char) : List Char := cs.dropWhile Text.isBlank

/-- What follows white space, of which there has to be some. -/
def space? : List Char → Option (List Char)
  | [] => none
  | c :: cs => if Text.isBlank c then some (optionalSpace cs) else none

def name? : List Char → Option (List Char × List Char)
  | [] => none
  | c :: cs =>
    if isNameStart c then some (c :: cs.takeWhile isNameChar, cs.dropWhile isNameChar) else none

def braced? (cs : List Char) : Option (List Char × List Char) := do
  let cs ← word? ['\x7b'] cs
  let (name, cs) ← name? (optionalSpace cs)
  let cs ← word? ['\x7d'] (optionalSpace cs)
  some (name, cs)

/-- A quoted text, its quote, and what follows. The text is not empty and holds no quotes. -/
def quoted? : List Char → Option (Char × List Char × List Char)
  | [] => none
  | q :: cs =>
    let text := cs.takeWhile (!isQuote ·)
    match cs.dropWhile (!isQuote ·) with
    | close :: rest =>
      if isQuote q && close == q && !text.isEmpty then some (q, text, rest) else none
    | [] => none

/-- White space with at most one semicolon in it. -/
def isTail (cs : List Char) : Bool :=
  match optionalSpace cs with
  | [] => true
  | c :: rest => (optionalSpace (if c = ';' then rest else c :: rest)).isEmpty

/-- The form that comes next, and what follows it up to the brace. -/
def form? (cs : List Char) : Option (Form × List Char) :=
  match word? "import".toList cs with
  | some rest => (space? rest).map (.importFrom, ·)
  | none => ["const", "let", "var"].findSome? fun keyword =>
      (word? keyword.toList cs).bind fun rest =>
        (space? rest).map (.require keyword.toList, ·)

/-- What leads from the closing brace to the module, and what leads on from there. -/
def source? (form : Form) (cs : List Char) : Option (Char × List Char × List Char) :=
  match form with
  | .importFrom => do
    let cs ← word? "from".toList (← space? cs)
    quoted? (← space? cs)
  | .require _ => do
    let cs ← word? ['='] (optionalSpace cs)
    let cs ← word? "require(".toList (optionalSpace cs)
    let (q, module, cs) ← quoted? cs
    let cs ← word? [')'] cs
    some (q, module, cs)

def parse? (cs : List Char) : Option Line := do
  let indent := cs.takeWhile Text.isBlank
  let (form, cs) ← form? (optionalSpace cs)
  let (name, cs) ← braced? cs
  let (quote, module, tail) ← source? form cs
  if isTail tail then some ⟨form, indent, name, quote, module, tail⟩ else none

/-- Writes the binding as one of the default export of `target`. -/
def renderFrom (l : Line) (target : List Char) : List Char :=
  let source := l.quote :: target ++ [l.quote]
  match l.form with
  | .importFrom =>
    l.indent ++ "import ".toList ++ l.name ++ " from ".toList ++ source ++ l.tail
  | .require keyword =>
    l.indent ++ keyword ++ [' '] ++ l.name ++ " = require(".toList ++ source ++ [')'] ++ l.tail

end Line

/-- The line that binds the same export of a package from a module of its own, if the line is one
that binds just this export. -/
def narrow? (line package exportName target : String) : Option String := do
  let l ← Line.parse? line.toList
  if l.name = exportName.toList ∧ l.module = package.toList then
    some (String.ofList (l.renderFrom target.toList))
  else none

end PackageUsage.Narrowing
