import PackageUsage.Text.Basic

namespace PackageUsage

/-- Where a path starts. Exactly two leading slashes are kept apart from one. -/
inductive Anchor where
  | relative
  | root
  | doubleRoot
deriving DecidableEq, Repr

structure Path where
  anchor : Anchor
  parts : List String
deriving DecidableEq, Repr

namespace Path

def Anchor.text : Anchor → String
  | .relative => ""
  | .root => "/"
  | .doubleRoot => "//"

/-- The anchor of a written path, by its leading slashes. -/
def anchorOf : List Char → Anchor
  | '/' :: '/' :: '/' :: _ => .root
  | '/' :: '/' :: _ => .doubleRoot
  | '/' :: _ => .root
  | _ => .relative

def ofString (s : String) : Path :=
  ⟨anchorOf s.toList, (Text.split '/' s).filter fun p => p != "" && p != "."⟩

/-- The written form; a relative path without names is `.`. -/
def toString (p : Path) : String :=
  if p.anchor = .relative ∧ p.parts = [] then "."
  else Anchor.text p.anchor ++ Text.join "/" p.parts

instance : ToString Path := ⟨toString⟩

def isAbsolute (p : Path) : Bool := p.anchor != .relative

/-- `q` seen from `p`; an absolute `q` stands for itself. -/
def join (p q : Path) : Path :=
  if q.isAbsolute then q else ⟨p.anchor, p.parts ++ q.parts⟩

instance : Append Path := ⟨join⟩

def child (p : Path) (s : String) : Path := p.join (ofString s)

def name (p : Path) : String := p.parts.getLastD ""

def parent (p : Path) : Path := ⟨p.anchor, p.parts.dropLast⟩

/-- A name cut at its last dot. A dot at either end of the name does not count. -/
def splitName (name : String) : String × String :=
  let (ext, stem) := name.toList.reverse.span (· != '.')
  match stem with
  | '.' :: stem =>
    if ext.isEmpty || stem.isEmpty then (name, "")
    else (String.ofList stem.reverse, String.ofList ('.' :: ext.reverse))
  | _ => (name, "")

/-- The last name from its last dot on. -/
def suffix (p : Path) : String := (splitName p.name).2

def stem (p : Path) : String := (splitName p.name).1

/-- The names of `p` below `q`, if `q` begins `p`. -/
def below? (p q : Path) : Option (List String) :=
  if p.anchor = q.anchor ∧ q.parts.isPrefixOf p.parts then some (p.parts.drop q.parts.length)
  else none

end Path

end PackageUsage
