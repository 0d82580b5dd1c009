import PackageUsage.Json.Reader
import PackageUsage.Package.ExportTarget
import PackageUsage.Package.Installed

namespace PackageUsage

structure Manifest where
  name : String := ""
  version : String := ""
  main : String := ""
  module : String := ""
  types : String := ""
  typings : String := ""
  exports : ExportTarget := .nothing
  /-- Whether `exports` is there and not null. -/
  hasExports : Bool := false
  gypfile : Bool := false
  scripts : List (String × String) := []
  dependencies : List (String × String) := []
  optionalDependencies : List (String × String) := []
deriving Inhabited

/-- Why a manifest cannot be used. -/
inductive ManifestProblem where
  | unreadable
  | invalidJson
deriving DecidableEq, Repr

def ManifestProblem.text : ManifestProblem → String
  | unreadable => "unreadable"
  | invalidJson => "invalid JSON"

namespace Manifest

def textOf (j : Json) (key : String) : String := ((j.get? key).bind (·.text?)).getD ""

def textsOf (j : Json) (key : String) : List (String × String) :=
  (((j.get? key).map (·.members)).getD []).filterMap fun (k, v) => v.text?.map (k, ·)

def isTrue : Json → Bool
  | .bool b => b
  | _ => false

def ofJson? (j : Json) : Option Manifest :=
  if j.isObject then some
    { name := textOf j "name"
      version := textOf j "version"
      main := textOf j "main"
      module := textOf j "module"
      types := textOf j "types"
      typings := textOf j "typings"
      exports := ((j.get? "exports").map ExportTarget.ofJson).getD .nothing
      hasExports := ((j.get? "exports").map (!·.isNull)).getD false
      gypfile := ((j.get? "gypfile").map isTrue).getD false
      scripts := textsOf j "scripts"
      dependencies := textsOf j "dependencies"
      optionalDependencies := textsOf j "optionalDependencies" }
  else none

def ofBytes (bytes : ByteArray) : Except ManifestProblem Manifest :=
  match Text.Utf8.decode? bytes with
  | none => .error .unreadable
  | some s =>
    match (Json.read? s).bind ofJson? with
    | some m => .ok m
    | none => .error .invalidJson

def pathIn (root : Path) : Path := root.child Package.manifestName

/-- Reads the manifest of a package. A path that no system call accepts is an error of its own. -/
def load (t : FileTree) (root : Path) : Except FileError (Except ManifestProblem Manifest) :=
  match t.read (pathIn root) with
  | .ok source => .ok (ofBytes source.bytes)
  | .error e => if e.cause.isRefusal then .error e else .ok (.error .unreadable)

/-- The entrypoints that are given outside `exports`, without blank ones. -/
def legacyEntrypoints (m : Manifest) : List String :=
  ([m.main, m.module, m.types, m.typings].map Text.strip).filter (· != "")

def dependencyNames (m : Manifest) : List String :=
  Text.sortUnique ((m.dependencies ++ m.optionalDependencies).map (·.1))

end Manifest

end PackageUsage
