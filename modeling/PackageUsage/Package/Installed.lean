import PackageUsage.FileTree.Access
import PackageUsage.Specifier

namespace PackageUsage.Package

def manifestName : String := "package.json"

/-- What stands before the first `sep` and what stands after it, the latter empty if there is
none. -/
def cut (sep : Char) (s : String) : String × String :=
  let (before, after) := s.toList.span (· != sep)
  (String.ofList before, String.ofList (after.drop 1))

/-- The pieces of path that a package name makes below `node_modules`: the name, or a scope and what
follows it. -/
def pathPieces (name : String) : Except Fault (List String) :=
  let name := Text.strip name
  if name = "" then .error (.invalidDependency name "dependency is empty")
  else if Text.startsWith name "@" then
    let (scope, rest) := cut '/' name
    if rest = "" ∨ scope.length ≤ 1 then
      .error (.invalidDependency name "invalid scoped dependency")
    else .ok [scope, rest]
  else .ok [name]

/-- The place of a package in the `node_modules` folder of a folder. -/
def place (folder : Path) (name : String) : Except Fault Path :=
  (pathPieces name).map fun pieces => pieces.foldl Path.child (folder.child "node_modules")

/-- The place of a package in a folder, if it is installed there. -/
def installedIn? (t : FileTree) (folder : Path) (name : String) : Except FileError (Option Path) :=
  match place folder name with
  | .error _ => .ok none
  | .ok root => do
    let installed ← t.isFile (root.child manifestName)
    pure (if installed then some root else none)

/-- Looks for a package in a folder and then in the folders above it, up to and including the folder
`top`. The names of the folder come last one first. -/
def climb (t : FileTree) (top : Path) (anchor : Anchor) (name : String) :
    List String → Except FileError (Option Path)
  | [] => installedIn? t ⟨anchor, []⟩ name
  | last :: above => do
    let folder : Path := ⟨anchor, (last :: above).reverse⟩
    match ← installedIn? t folder name with
    | some root => pure (some root)
    | none => if folder = top then pure none else climb t top anchor name above

/-- The installation of a package that a file of a repository sees: the nearest one on the way from
the file's folder up to the repository. A file outside sees none. -/
def seenFrom? (t : FileTree) (repository : Path) (importer : String) (name : String) :
    Except FileError (Option Path) := do
  let top ← t.resolve repository
  let file ← t.resolve (top.child importer)
  let folder := file.parent
  match folder.below? top with
  | none => pure none
  | some _ => climb t top folder.anchor name folder.parts.reverse

end PackageUsage.Package
