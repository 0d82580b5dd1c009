import PackageUsage.Toml.Scalar

namespace PackageUsage.Toml

open Settings (Value Table)

/-- The way to a value from the top of a document. -/
abbrev Key := List String

def isBareKey (c : Char) : Bool := c.isAlphanum || c == '-' || c == '_'

/-- One part of a key: bare, or a string on one line. -/
def keyPart : List Char → Option (String × List Char)
  | '"' :: rest => basicLine rest
  | '\'' :: rest => literal rest
  | cs =>
    let (name, rest) := cs.span isBareKey
    if name.isEmpty then none else some (String.ofList name, rest)

/-- Parts with dots between them, and the space after the last one. -/
def key : Nat → List Char → Option (Key × List Char)
  | 0, _ => none
  | fuel + 1, cs => do
    let (part, rest) ← keyPart cs
    match rest.dropWhile isSpace with
    | '.' :: rest =>
      let (parts, rest) ← key fuel (rest.dropWhile isSpace)
      some (part :: parts, rest)
    | rest => some ([part], rest)

/-- A comment up to the end of its line, if one comes next. -/
def skipComment : List Char → Option (List Char)
  | '#' :: rest =>
    let (body, rest) := rest.span (· != '\n')
    if body.any isIllegal then none else some rest
  | cs => some cs

/-- Space, line ends and comments between the parts of an array. -/
def skipBetween : Nat → List Char → Option (List Char)
  | 0, _ => none
  | fuel + 1, cs => do
    match cs.dropWhile isSpaceOrLine with
    | '#' :: rest => skipBetween fuel (← skipComment ('#' :: rest))
    | rest => some rest

/-- Changes the table at the end of a way, making the tables that are missing on it. Through an
array the way leads to its last table, if arrays may be entered at all. -/
def Table.changeAt (throughArrays : Bool) (change : Table → Option Table) :
    Key → Table → Option Table
  | [], t => change t
  | k :: rest, t =>
    match t.lookup k with
    | none => (Table.changeAt throughArrays change rest []).map fun u => Table.set k (.table u) t
    | some (.table u) =>
      (Table.changeAt throughArrays change rest u).map fun u => Table.set k (.table u) t
    | some (.list items) =>
      match throughArrays, items.getLast? with
      | true, some (.table u) =>
        (Table.changeAt throughArrays change rest u).map fun u =>
          Table.set k (.list (items.dropLast ++ [.table u])) t
      | _, _ => none
    | some _ => none

/-- Adds a key that must be new. -/
def Table.add (name : String) (value : Value) (t : Table) : Option Table :=
  if (t.lookup name).isSome then none else some (t ++ [(name, value)])

def Table.append (name : String) (t : Table) : Option Table :=
  match t.lookup name with
  | none => some (t ++ [(name, .list [.table []])])
  | some (.list items) => some (Table.set name (.list (items ++ [.table []])) t)
  | some _ => none

/-- Whether some way leads through one of the ways given or ends there. -/
def isWithin (ways : List Key) (k : Key) : Bool := ways.any (·.isPrefixOf k)

/-- Whether a value was written as a whole that holds others. -/
def holdsOthers : Value → Bool
  | .list _ | .table _ => true
  | _ => false

mutual

def value : Nat → List Char → Option (Value × List Char)
  | 0, _ => none
  | fuel + 1, '[' :: rest => do
    match ← skipBetween (rest.length + 1) rest with
    | ']' :: rest => some (.list [], rest)
    | rest =>
      let (items, rest) ← elements fuel rest
      some (.list items, rest)
  | fuel + 1, '\x7b' :: rest => do
    match rest.dropWhile isSpace with
    | '\x7d' :: rest => some (.table [], rest)
    | rest =>
      let (entries, rest) ← inlineEntries fuel [] [] rest
      some (.table entries, rest)
  | _ + 1, cs => scalar cs

/-- The elements of an array and its closing bracket. A comma may stand after the last one. -/
def elements : Nat → List Char → Option (List Value × List Char)
  | 0, _ => none
  | fuel + 1, cs => do
    let (v, rest) ← value fuel cs
    match ← skipBetween (rest.length + 1) rest with
    | ']' :: rest => some ([v], rest)
    | ',' :: rest =>
      match ← skipBetween (rest.length + 1) rest with
      | ']' :: rest => some ([v], rest)
      | rest =>
        let (vs, rest) ← elements fuel rest
        some (v :: vs, rest)
    | _ => none

def entry : Nat → List Char → Option (Key × Value × List Char)
  | 0, _ => none
  | fuel + 1, cs => do
    let (k, rest) ← key (cs.length + 1) cs
    match rest with
    | '=' :: rest =>
      let (v, rest) ← value fuel (rest.dropWhile isSpace)
      some (k, v, rest)
    | _ => none

/-- The entries of an inline table and its closing brace. -/
def inlineEntries : Nat → Table → List Key → List Char → Option (Table × List Char)
  | 0, _, _, _ => none
  | fuel + 1, t, closed, cs => do
    let (k, v, rest) ← entry fuel cs
    if isWithin closed k then none
    let t ← Table.changeAt false (Table.add (k.getLastD "") v) k.dropLast t
    match rest.dropWhile isSpace with
    | '\x7d' :: rest => some (t, rest)
    | ',' :: rest =>
      inlineEntries fuel t (if holdsOthers v then k :: closed else closed)
        (rest.dropWhile isSpace)
    | _ => none

end

/-- What is known of a document while it is read. -/
structure Draft where
  document : Table := []
  /-- The table that entries are added to. -/
  header : Key := []
  /-- The tables that no header may open again. -/
  opened : List Key := []
  /-- The tables that the keys of the present section lead through. They count as opened once the
  next section begins. -/
  passed : List Key := []
  /-- The values that nothing may be added to. -/
  closed : List Key := []

namespace Draft

def beginSection (d : Draft) : Draft := { d with opened := d.passed ++ d.opened, passed := [] }

def openTable (d : Draft) (k : Key) : Option Draft := do
  if d.opened.contains k ∨ isWithin d.closed k then none
  let document ← Table.changeAt true some k d.document
  some { d with document, header := k, opened := k :: d.opened }

/-- Adds a table to an array by its header. What was opened in the table before it may be opened
again in this one. -/
def openElement (d : Draft) (k : Key) : Option Draft := do
  if isWithin d.closed k then none
  let document ← Table.changeAt true (Table.append (k.getLastD "")) k.dropLast d.document
  some { d with
    document
    header := k
    opened := k :: d.opened.filter (!k.isPrefixOf ·)
    closed := d.closed.filter (!k.isPrefixOf ·) }

/-- The ways to the tables that a key leads through. -/
def between (d : Draft) (k : Key) : List Key :=
  (List.range (k.length - 1)).map fun n => d.header ++ k.take (n + 1)

def addEntry (d : Draft) (k : Key) (v : Value) : Option Draft := do
  let ways := d.between k
  let place := d.header ++ k.dropLast
  if ways.any d.opened.contains ∨ isWithin d.closed place then none
  let document ← Table.changeAt true (Table.add (k.getLastD "") v) place d.document
  some { d with
    document
    passed := ways ++ d.passed
    closed := if holdsOthers v then (d.header ++ k) :: d.closed else d.closed }

end Draft

/-- One statement: an entry or a header. A line may have none. -/
def statement (d : Draft) (cs : List Char) : Option (Draft × List Char) :=
  match cs with
  | '[' :: '[' :: rest => do
    let (k, rest) ← key (rest.length + 1) (rest.dropWhile isSpace)
    match rest with
    | ']' :: ']' :: rest => (d.beginSection.openElement k).map (·, rest)
    | _ => none
  | '[' :: rest => do
    let (k, rest) ← key (rest.length + 1) (rest.dropWhile isSpace)
    match rest with
    | ']' :: rest => (d.beginSection.openTable k).map (·, rest)
    | _ => none
  | c :: _ =>
    if isBareKey c || c == '"' || c == '\'' then do
      let (k, v, rest) ← entry (2 * cs.length + 2) cs
      (d.addEntry k v).map (·, rest)
    else some (d, cs)
  | [] => some (d, [])

def statements : Nat → Draft → List Char → Option Draft
  | 0, _, _ => none
  | fuel + 1, d, cs => do
    let (d, rest) ← statement d (cs.dropWhile isSpace)
    match ← skipComment (rest.dropWhile isSpace) with
    | [] => some d
    | '\n' :: rest => statements fuel d rest
    | _ => none

/-- Text with plain line feeds for the line ends of two characters. -/
def plainLines : List Char → List Char
  | '\r' :: '\n' :: cs => '\n' :: plainLines cs
  | c :: cs => c :: plainLines cs
  | [] => []

def read? (s : String) : Option Table :=
  let cs := plainLines s.toList
  (statements (cs.length + 1) {} cs).map (·.document)

end PackageUsage.Toml
