import PackageUsage.Facts.Basic
import PackageUsage.Package.Manifest

namespace PackageUsage.Narrowing

/-- What is known about the modules of a package. -/
structure Subpaths where
  root : Option Path
  /-- The names listed in the exports map, without patterns. -/
  listed : List String := []

namespace Subpaths

def fileSuffixes : List String :=
  ["", ".js", ".mjs", ".cjs", ".ts", ".mts", ".cts", "/index.js", "/index.mjs", "/index.cjs"]

def listedIn (target : ExportTarget) : List String :=
  (target.keys.filterMap (Text.dropStart? · "./")).filter fun s => s != "" && !Text.hasChar s '*'

/-- Reads the modules of the package at a root; nothing is known without one. -/
def ofRoot (t : FileTree) (root : Option Path) : Except FileError Subpaths :=
  match root with
  | none => .ok ⟨none, []⟩
  | some r => do
    match ← Manifest.load t r with
    | .ok m => pure ⟨some r, listedIn m.exports⟩
    | .error _ => pure ⟨some r, []⟩

/-- Whether one of the files that a name may stand for is there. -/
def hasFile (t : FileTree) (root : Path) (name : String) : List String → Except FileError Bool
  | [] => .ok false
  | suffix :: rest => do
    if ← t.isFile (root.child (name ++ suffix)) then pure true else hasFile t root name rest

def resolve (s : Subpaths) (t : FileTree) (package exportName : String) :
    Except FileError (Option String) := do
  let name := Text.strip exportName
  if name = "" ∨ name = defaultName ∨ name = wildcard ∨ Text.hasChar name ' ' then pure none
  else
    let target := package ++ "/" ++ name
    if s.listed.contains name then pure (some target)
    else match s.root with
      | none => pure none
      | some root =>
        if ← hasFile t root name fileSuffixes then pure (some target) else pure none

end Subpaths

end PackageUsage.Narrowing
