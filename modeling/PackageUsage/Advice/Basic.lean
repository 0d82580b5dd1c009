import PackageUsage.Decimal.Layout
import PackageUsage.Report.Basic
import PackageUsage.Settings.Amount
import PackageUsage.Specifier

namespace PackageUsage.Advice

/-- What is known to be a lighter choice than some packages. -/
def replacementHint? (package : String) : Option String :=
  match package with
  | "lodash" =>
    some "Prefer per-method imports (`lodash/<method>`) or native JS methods when possible."
  | "moment" => some "Consider `date-fns` or `dayjs` for a smaller date utility footprint."
  | "axios" => some "If browser/runtime support allows, consider native `fetch`."
  | _ => none

def removeUnused (package : String) : Recommendation :=
  { code := "remove-unused-dependency"
    priority := "high"
    message := "No used imports were detected for \"" ++ package ++ "\"; consider removing it."
    rationale := "Unused dependencies increase install size and maintenance surface." }

def preferSubpaths (package : String) (usedPercent : Float) : Recommendation :=
  { code := "prefer-subpath-imports"
    priority := "medium"
    message := "Only " ++ Decimal.onePlace usedPercent ++ "% of \"" ++ package ++
      "\" exports are used; prefer subpath imports for used APIs."
    rationale := "Subpath imports can reduce bundled/transpiled dependency surface." }

def avoidWhole : Recommendation :=
  { code := "avoid-wildcard-default-imports"
    priority := "medium"
    message := "Default/namespace imports were detected; switch to named imports for better " ++
      "precision."
    rationale := "Named imports improve static analysis and often improve tree-shaking outcomes." }

def considerReplacement (package hint : String) : Recommendation :=
  { code := "consider-replacement"
    priority := "low"
    message := hint
    rationale := "\"" ++ package ++ "\" currently has relatively low measured usage in this repo." }

/-- Up to this percentage of used exports a replacement is worth a thought. -/
def replacementPercent : Float := 35.0

def unusedAdvice (package : String) (r : DependencyReport) : List Recommendation :=
  if r.usedExports = 0 ∧ r.usedImports.isEmpty then [removeUnused package] else []

/-- Imports of the package itself and none below it, of which little is used. -/
def subpathAdvice (package : String) (r : DependencyReport) (least : Amount) :
    List Recommendation :=
  let modules := (r.usedImports ++ r.unusedImports).map (·.module)
  if 0 < r.totalExports && modules.contains package &&
      !modules.any (Text.startsWith · (package ++ "/")) &&
      decide (0.0 < r.usedPercent) && least.isAbove r.usedPercent then
    [preferSubpaths package r.usedPercent]
  else []

/-- Whether some import is of a default or of a whole module. -/
def importsWhole (r : DependencyReport) : Bool :=
  (r.usedImports ++ r.unusedImports).any fun u => u.name == wildcard || u.name == defaultName

def wholeAdvice (r : DependencyReport) : List Recommendation :=
  if importsWhole r then [avoidWhole] else []

def replacementAdvice (package : String) (r : DependencyReport) : List Recommendation :=
  match replacementHint? package with
  | some hint =>
    if (decide (0.0 < r.usedPercent) && decide (r.usedPercent ≤ replacementPercent)) ||
        importsWhole r then
      [considerReplacement package hint]
    else []
  | none => []

def priorityRank (priority : String) : Nat :=
  match priority with
  | "high" => 0
  | "medium" => 1
  | "low" => 2
  | _ => 3

/-- By priority, then code. -/
def recommendationLe (a b : Recommendation) : Bool :=
  let (m, n) := (priorityRank a.priority, priorityRank b.priority)
  if m = n then Text.le a.code b.code else decide (m ≤ n)

/-- All advice on a package. Imports from the package itself call for subpaths when less than
`least` percent of its exports are used. -/
def recommendations (package : String) (r : DependencyReport) (least : Amount) :
    List Recommendation :=
  (unusedAdvice package r ++ subpathAdvice package r least ++ wholeAdvice r ++
    replacementAdvice package r).mergeSort recommendationLe

end PackageUsage.Advice
