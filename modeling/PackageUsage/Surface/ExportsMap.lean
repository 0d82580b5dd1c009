import PackageUsage.Package.ExportTarget
import PackageUsage.Surface.Profile

namespace PackageUsage.ExportsMap

def codeSuffixes : List String :=
  [".d.ts", ".js", ".mjs", ".cjs", ".ts", ".tsx", ".cts", ".mts"]

/-- Whether a path looks like code. -/
def isCode (path : String) : Bool :=
  codeSuffixes.any (Text.endsWith (Text.lower (Text.strip path)))

def conditionKeys : List String :=
  ["browser", "node", "default", "import", "require", "development", "production", "types"]

def isCondition (key : String) : Bool := conditionKeys.contains (Text.lower (Text.strip key))

def isSubpath (key : String) : Bool := Text.startsWith (Text.strip key) "."

/-- The paths that were found, and the warnings that came up on the way, in order. -/
structure Found where
  paths : List String
  warnings : List String
deriving DecidableEq, Repr

namespace Found

def nothing : Found := ⟨[], []⟩

/-- The first result with a path. The warnings of those tried before stay. -/
def first : List Found → Found
  | [] => nothing
  | f :: rest =>
    if f.paths.isEmpty then
      let r := first rest
      ⟨r.paths, f.warnings ++ r.warnings⟩
    else f

def union (fs : List Found) : Found :=
  ⟨Text.sortUnique (fs.flatMap (·.paths)), fs.flatMap (·.warnings)⟩

def under (entries : List (String × Found)) (key : String) : Found :=
  (entries.lookup key).getD nothing

end Found

def ambiguityWarning (p : Profile) (scope : String) (conditions : List String) : String :=
  "ambiguous export conditions at " ++ scope ++ " for profile \"" ++ p.name ++ "\": matched " ++
    Text.join ", " conditions ++ "; selected \"" ++ conditions.headD "" ++ "\""

/-- The conditions of the profile among the keys, in the profile's order. -/
def chooseConditions (p : Profile) (scope : String) (entries : List (String × Found)) : Found :=
  let held := p.conditions.filter fun c => (entries.map (·.1)).contains c
  let warnings := if 1 < held.length then [ambiguityWarning p scope held] else []
  let found := Found.first (held.map (Found.under entries))
  ⟨found.paths, warnings ++ found.warnings⟩

/-- What an object offers, from what its keys offer. -/
def choose (p : Profile) (scope : String) (entries : List (String × Found)) : Found :=
  let keys := entries.map (·.1)
  if keys.any isSubpath then
    .union (((Text.sort keys).filter isSubpath).map (Found.under entries))
  else if keys.any isCondition then chooseConditions p scope entries
  else .union ((Text.sort keys).map (Found.under entries))

mutual

/-- The paths of a target; `scope` names its place in warnings. -/
def resolve (p : Profile) (scope : String) : ExportTarget → Found
  | .nothing => .nothing
  | .path s =>
    if isCode s then ⟨[s], []⟩
    else ⟨[], ["skipping non-js export target at " ++ scope ++ ": " ++ s]⟩
  | .fallbacks items => .first (resolveItems p scope 0 items)
  | .keyed entries => choose p scope (resolveEntries p scope entries)

def resolveItems (p : Profile) (scope : String) (i : Nat) : List ExportTarget → List Found
  | [] => []
  | t :: rest =>
    resolve p (scope ++ "[" ++ toString i ++ "]") t :: resolveItems p scope (i + 1) rest

def resolveEntries (p : Profile) (scope : String) :
    List (String × ExportTarget) → List (String × Found)
  | [] => []
  | (k, t) :: rest => (k, resolve p (scope ++ "." ++ k) t) :: resolveEntries p scope rest

end

end PackageUsage.ExportsMap
