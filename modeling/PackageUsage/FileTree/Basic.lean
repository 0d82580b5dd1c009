import PackageUsage.Syntax.SourceFile

namespace PackageUsage

/-- What a folder allows: to list its names, and to look up a name in it. -/
structure Access where
  lists : Bool
  searches : Bool
deriving DecidableEq, Repr

abbrev Access.full : Access := ⟨true, true⟩

inductive Entry where
  | file (source : SourceFile) (readable : Bool)
  | folder (entries : List (String × Entry)) (access : Access)
  | link (target : String)
deriving Inhabited

namespace Entry

/-- The entry called `name` in a folder. -/
def get? (e : Entry) (name : String) : Option Entry :=
  match e with
  | folder entries _ => entries.lookup name
  | _ => none

/-- The entry reached by names alone. Links on the way are not followed. -/
def at? (e : Entry) : List String → Option Entry
  | [] => some e
  | name :: rest => (e.get? name).bind (at? · rest)

def allowsSearch : Entry → Bool
  | folder _ access => access.searches
  | _ => false

/-- The entry reached by names alone, if every folder on the way allows the next name to be looked
up. -/
def seen? (e : Entry) : List String → Option Entry
  | [] => some e
  | name :: rest => if e.allowsSearch then (e.get? name).bind (seen? · rest) else none

def isFolder : Entry → Bool
  | folder .. => true
  | _ => false

mutual

/-- The number of entries below and including this one. -/
def size : Entry → Nat
  | folder entries _ => 1 + sizes entries
  | _ => 1

def sizes : List (String × Entry) → Nat
  | [] => 0
  | (_, e) :: rest => size e + sizes rest

end

mutual

/-- The number of characters in all link targets below. -/
def linkLength : Entry → Nat
  | folder entries _ => linkLengths entries
  | link target => target.length + 2
  | file .. => 0

def linkLengths : List (String × Entry) → Nat
  | [] => 0
  | (_, e) :: rest => linkLength e + linkLengths rest

end

/-- A new entry in place of an old one. A folder put where one is keeps what that one holds. -/
def replace (old new : Entry) : Entry :=
  match old, new with
  | folder held _, folder [] access => folder held access
  | _, _ => new

/-- Puts an entry below this one. Folders that are missing on the way are made. -/
def insert (e : Entry) (names : List String) (new : Entry) : Entry :=
  match names with
  | [] => e.replace new
  | name :: rest =>
    let (entries, access) := match e with
      | folder entries access => (entries, access)
      | _ => ([], .full)
    let inner := ((entries.lookup name).getD (folder [] .full)).insert rest new
    let replaced := entries.map fun (n, old) => if n = name then (n, inner) else (n, old)
    folder (if (entries.lookup name).isSome then replaced else entries ++ [(name, inner)]) access

/-- Takes the entry below this one away. -/
def remove (e : Entry) : List String → Entry
  | [] => e
  | [name] => match e with
    | folder entries access => folder (entries.filter (·.1 != name)) access
    | _ => e
  | name :: rest => match e with
    | folder entries access =>
      folder (entries.map fun (n, old) => if n = name then (n, old.remove rest) else (n, old))
        access
    | _ => e

end Entry

structure FileTree where
  top : Entry
  /-- The names from the top to the folder that relative paths start from. Every path leads through
  the folders above it. -/
  workingFolder : List String := []

/-- Why a path cannot be used. -/
inductive FileError.Cause where
  | missing
  | denied
  | notFolder
  | isFolder
  | nameTooLong
  | tooManyLinks
  /-- A link that leads back to itself, met while a path is brought to its real form. -/
  | linkLoop
  | nulCharacter
  /-- A character that no file name can be written with. -/
  | unwritable
deriving DecidableEq, Repr

structure FileError where
  cause : FileError.Cause
  path : String
deriving DecidableEq, Repr

namespace FileError

/-- The number and the wording by which a system reports a cause. -/
def Cause.report? : Cause → Option (Nat × String)
  | missing => some (2, "No such file or directory")
  | denied => some (13, "Permission denied")
  | notFolder => some (20, "Not a directory")
  | isFolder => some (21, "Is a directory")
  | nameTooLong => some (36, "File name too long")
  | tooManyLinks => some (40, "Too many levels of symbolic links")
  | linkLoop | nulCharacter | unwritable => none

/-- Whether a path is refused for its characters, whatever the tree holds. -/
def Cause.isRefusal : Cause → Bool
  | nulCharacter | unwritable => true
  | _ => false

def text (e : FileError) : String :=
  match e.cause.report? with
  | some (number, wording) => s!"[Errno {number}] {wording}: " ++ Text.quoted e.path
  | none =>
    match e.cause with
    | .linkLoop => "Symlink loop from " ++ Text.quoted e.path
    | .nulCharacter => "embedded null byte"
    | _ => "surrogates not allowed"

end FileError

end PackageUsage
