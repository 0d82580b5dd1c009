import PackageUsage.FileTree.Access
import PackageUsage.Surface.ExportsMap

namespace PackageUsage.Entrypoint

def probeSuffixes : List String := [".js", ".mjs", ".cjs", ".ts", ".tsx", ".d.ts"]

/-- Whether a path leads to a place inside a folder. A path that no system call accepts leads
nowhere. -/
def isWithin (t : FileTree) (path root : Path) : Except FileError Bool :=
  let real (p : Path) : Except FileError (Option Path) :=
    match t.resolve p with
    | .ok q => .ok (some q)
    | .error e => if e.cause.isRefusal then .ok none else .error e
  do
    match ← real path with
    | none => pure false
    | some p =>
      match ← real root with
      | none => pure false
      | some r => pure (p.below? r).isSome

/-- The first of the names made by adding a suffix that is a file. -/
def probe (t : FileTree) (path : Path) : List String → Except FileError (Option Path)
  | [] => .ok none
  | suffix :: rest => do
    let candidate : Path := ⟨path.anchor, path.parts.dropLast ++ [path.name ++ suffix]⟩
    if ← t.isFile candidate then pure (some candidate) else probe t path rest

/-- The file of an entrypoint, read against the root each time a folder leads on to its index. At
most `fuel` folders lead on. -/
def resolveFrom (t : FileTree) (root : Path) (fuel : Nat) (entry : Path) :
    Except FileError (Option Path) :=
  match fuel with
  | 0 => .ok none
  | fuel + 1 => do
    let path := root.join entry
    if !(← isWithin t path root) then pure none
    else if ← t.isFolder path then resolveFrom t root fuel (path.child "index")
    else if ← t.isFile path then pure (some path)
    else if path.name = "" || ExportsMap.isCode path.name then pure none
    else probe t path probeSuffixes

/-- The file of an entrypoint. A chain of `index` folders goes down one level of the tree with every
step that passes no link, and a path passes few links, which bounds its length. -/
def resolve (t : FileTree) (root : Path) (entry : String) : Except FileError (Option Path) :=
  resolveFrom t root ((FileTree.linkLimit + 1) * (t.top.size + 1)) (Path.ofString entry)

end PackageUsage.Entrypoint
