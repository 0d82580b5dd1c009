import PackageUsage.Package.Manifest

namespace PackageUsage.Risk

/-- Chains are followed to this length. -/
def chainLimit : Nat := 512

/-- Where a dependency of a package is installed: in the package itself, or in the repository. -/
def dependencyRoot? (t : FileTree) (repository package : Path) (name : String) :
    Except FileError (Option Path) := do
  match ← Package.installedIn? t package name with
  | some root => pure (some root)
  | none => Package.installedIn? t repository name

/-- The dependencies of a package that are installed with a readable manifest. -/
def dependencies (t : FileTree) (repository root : Path) (m : Manifest) :
    Except FileError (List (Path × Manifest)) := do
  let found ← m.dependencyNames.mapM fun name => do
    match ← dependencyRoot? t repository root name with
    | none => pure none
    | some child =>
      match ← Manifest.load t child with
      | .ok manifest => pure (some (child, manifest))
      | .error _ => pure none
  pure (found.filterMap id)

/-- Depths that are known. -/
abbrev Depths := List (Path × Nat)

/-- The depth of a package. One that is on the chain already counts as one, and so does the package
at which the budget is spent; what was computed before is taken from `known`. -/
def depthFrom (t : FileTree) (repository : Path) (budget : Nat) (known : Depths)
    (chain : List Path) (root : Path) (m : Manifest) : Except FileError (Nat × Depths) :=
  match known.lookup root with
  | some depth => .ok (depth, known)
  | none =>
    match budget with
    | 0 => .ok (1, known)
    | budget + 1 =>
      if chain.contains root then .ok (1, known)
      else do
        let children ← dependencies t repository root m
        let (deepest, known) ← children.foldlM (fun (deepest, known) (child, manifest) => do
          let (depth, known) ← depthFrom t repository budget known (root :: chain) child manifest
          pure (max deepest depth, known)) (0, known)
        pure (1 + deepest, (root, 1 + deepest) :: known)

def depth (t : FileTree) (repository root : Path) (m : Manifest) : Except FileError Nat :=
  return (← depthFrom t repository chainLimit [] [] root m).1

end PackageUsage.Risk
