import PackageUsage.Report.Basic
import PackageUsage.Risk.Depth
import PackageUsage.Risk.Native
import PackageUsage.Surface.Basic

namespace PackageUsage.Risk

/-- This many places are named. -/
def sampleLimit : Nat := 3

def mediumDepth : Nat := 4

def highDepth : Nat := 7

/-- Entrypoints that load modules by computed names. -/
def loaderCue (dynamic : List DynamicImport) : List RiskCue :=
  if dynamic.isEmpty then []
  else
    let samples := ((Location.sort (dynamic.map (·.location))).take sampleLimit).map fun l =>
      l.file ++ ":" ++ toString l.line
    [{ code := "dynamic-loader"
       severity := "medium"
       message := "dynamic require/import usage found in " ++ toString dynamic.length ++
        " dependency entrypoint location(s) (" ++ Text.join ", " samples ++ ")" }]

def nativeCue (signs : List String) : List RiskCue :=
  if signs.isEmpty then []
  else
    [{ code := "native-module"
       severity := "high"
       message := "dependency appears to include native module indicators (" ++
        Text.join ", " signs ++ ")" }]

def depthCue (depth : Nat) : List RiskCue :=
  if depth < mediumDepth then []
  else
    [{ code := "deep-transitive-graph"
       severity := if highDepth ≤ depth then "high" else "medium"
       message := s!"transitive dependency depth is {depth} levels" }]

/-- The manifest of a package, an empty one with a warning if it cannot be used. -/
def metadata (t : FileTree) (root : Path) : Except FileError (Manifest × List String) := do
  match ← Manifest.load t root with
  | .ok m => pure (m, [])
  | .error .invalidJson =>
    pure ({}, ["failed to parse dependency metadata: " ++ (Manifest.pathIn root).toString])
  | .error .unreadable =>
    pure ({}, ["unable to read dependency metadata: " ++ (Manifest.pathIn root).toString])

/-- The cues of the package at a root, sorted by code. -/
def cuesAt (t : FileTree) (repository : Path) (package : String) (dynamic : List DynamicImport)
    (root : Path) : Except FileError (List RiskCue × List String) := do
  let (m, warnings) ← metadata t root
  let (signCues, signWarnings) ← match nativeSigns t root m with
    | .ok signs => pure (nativeCue signs, [])
    | .error e =>
      if e.cause.report?.isSome then
        pure ([], ["native module scan failed for \"" ++ package ++ "\": " ++ e.text])
      else throw e
  let depth ← depth t repository root m
  let cues := loaderCue dynamic ++ signCues ++ depthCue depth
  pure (cues.mergeSort fun a b => Text.le a.code b.code, warnings ++ signWarnings)

/-- The risk cues of a package, at the root that is given or else in the repository. -/
def cues (t : FileTree) (repository : Path) (package : String) (dynamic : List DynamicImport)
    (root : Option Path) : Except FileError (List RiskCue × List String) :=
  match root with
  | some root => cuesAt t repository package dynamic root
  | none =>
    match Package.place repository package with
    | .ok root => cuesAt t repository package dynamic root
    | .error f => .ok ([], ["unable to assess risk cues for \"" ++ package ++ "\": " ++ f.text])

end PackageUsage.Risk
