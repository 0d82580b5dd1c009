import PackageUsage.FileTree.Basic
import PackageUsage.Path.Normal

namespace PackageUsage.FileTree

open FileError (Cause)

/-- No name is longer than this many bytes. -/
def nameLimit : Nat := 255

/-- A path that is followed is written in fewer bytes than this. -/
def pathLimit : Nat := 4096

/-- Following one path passes no more links than this. -/
def linkLimit : Nat := 40

/-- The names of a link's target, and whether they start from the top. -/
def targetNames (target : String) : Bool × List String :=
  (Text.startsWith target "/", Text.split '/' target)

/-- Walks `names` from the folder that `place` leads to. Where a link is met, `pass` goes on from a
folder with the names of the link's target before the names still to go. -/
def followNames (t : FileTree) (pass : List String → List String → Except Cause (List String))
    (place : List String) : List String → Except Cause (List String)
  | [] => .ok place
  | name :: rest =>
    match t.top.at? place with
    | some (.folder entries access) =>
      if name = "" then followNames t pass place rest
      else if !access.searches then .error .denied
      else if name = "." then followNames t pass place rest
      else if name = ".." then followNames t pass place.dropLast rest
      else if nameLimit < (Text.nameBytes? name).getD 0 then .error .nameTooLong
      else match entries.lookup name with
        | none => .error .missing
        | some (.link target) =>
          let (fromTop, path) := targetNames target
          pass (if fromTop then [] else place) (path ++ rest)
        | some _ => followNames t pass (place ++ [name]) rest
    | _ => .error .notFolder

/-- Walks names from a folder. The result is the place reached, which no link leads to. At most
`links` links are passed. -/
def followFrom (t : FileTree) : (links : Nat) → (place names : List String) →
    Except Cause (List String)
  | 0 => t.followNames fun _ _ => .error .tooManyLinks
  | links + 1 => t.followNames (t.followFrom links)

def absoluteNames (t : FileTree) (p : Path) : List String :=
  if p.isAbsolute then p.parts else t.workingFolder ++ p.parts

def refusal? (s : String) : Option Cause :=
  if (Text.nameBytes? s).isNone then some .unwritable
  else if Text.hasChar s '\x00' then some .nulCharacter
  else none

def follow (t : FileTree) (p : Path) : Except Cause (List String) :=
  let written := p.toString
  match refusal? written with
  | some cause => .error cause
  | none =>
    if pathLimit ≤ (Text.nameBytes? written).getD 0 then .error .nameTooLong
    else t.followFrom linkLimit [] (t.absoluteNames p)

def entryAt (t : FileTree) (p : Path) : Except Cause Entry := do
  let place ← t.follow p
  match t.top.at? place with
  | some e => .ok e
  | none => .error .missing

/-- A step on the way to a real form: a name, or the end of what a link stands for. -/
inductive Step where
  | name (n : String)
  | linkEnd (link : List String)

/-- Where links met before lead; nothing for a link still being looked into. -/
abbrev Links := List (List String × Option (List String))

/-- The names still to go: those of the innermost link being looked into first, those of the path
itself last. -/
def remaining : List Step → List (List String)
  | [] => [[]]
  | .linkEnd _ :: rest => [] :: remaining rest
  | .name n :: rest =>
    match remaining rest with
    | [] => [[n]]
    | names :: outer => (n :: names) :: outer

def placePath (place : List String) : Path := ⟨.root, place⟩

/-- A path to a place that goes on as written, link by link. Names that begin with a slash start
from the top again. -/
def writtenOn (place : List String) (steps : List Step) : Path :=
  let text := (remaining steps).foldl
    (fun text names => Path.Normal.joinText text (Text.join "/" names)) (placePath place).toString
  Path.ofString (Path.Normal.normalize text)

/-- Walks steps to a place without links. What cannot be looked up is taken for no link. A link met
while it is looked into ends the walk: the rest is kept as written. `fuel` bounds the number of
steps. -/
def realFrom (t : FileTree) (fuel : Nat) (known : Links) (place : List String)
    (steps : List Step) : Path :=
  match fuel, steps with
  | 0, _ => placePath place
  | _, [] => placePath place
  | fuel + 1, .linkEnd link :: rest =>
    t.realFrom fuel ((link, some place) :: known) place rest
  | fuel + 1, .name n :: rest =>
    if n = "" ∨ n = "." then t.realFrom fuel known place rest
    else if n = ".." then t.realFrom fuel known place.dropLast rest
    else
      let here := place ++ [n]
      match t.top.seen? here with
      | some (.link target) =>
        match known.lookup here with
        | some (some place) => t.realFrom fuel known place rest
        | some none => writtenOn here rest
        | none =>
          let (fromTop, path) := targetNames target
          t.realFrom fuel ((here, none) :: known) (if fromTop then [] else place)
            (path.map .name ++ .linkEnd here :: rest)
      | _ => t.realFrom fuel known here rest

/-- Every link is looked into once, so its target and the path bound the number of steps. -/
def realSteps (t : FileTree) (names : List String) : Nat :=
  names.length + t.top.linkLength + 1

/-- The absolute path without links that a path stands for. -/
def resolve (t : FileTree) (p : Path) : Except FileError Path :=
  match p.parts.findSome? refusal? with
  | some cause => .error ⟨cause, p.toString⟩
  | none =>
    let names := t.absoluteNames p
    let path := t.realFrom (t.realSteps names) [] [] (names.map .name)
    match t.follow path with
    | .error .tooManyLinks => .error ⟨.linkLoop, path.toString⟩
    | _ => .ok path

end PackageUsage.FileTree
