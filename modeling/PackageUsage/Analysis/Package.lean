import PackageUsage.Advice.Basic
import PackageUsage.Package.Inventory
import PackageUsage.Narrowing.Plan
import PackageUsage.Risk.Basic
import PackageUsage.Score.Basic
import PackageUsage.Settings.Basic
import PackageUsage.Surface.Basic
import PackageUsage.Usage.Basic

namespace PackageUsage.Analysis

/-- The repository under analysis. -/
structure Subject where
  files : FileTree
  repository : Path
  settings : Settings
  facts : RepositoryFacts

def wildcardSurfaceWarning : String :=
  "dependency export surface includes wildcard re-exports"

/-- The number of used exports, of all exports, and the used share in percent. Where the surface is
unknown, the used exports are those that the repository refers to. -/
def coverage (u : Usage) (s : Surface) : Int × Int × Float :=
  let total : Int := (s.total?.getD 0 : Nat)
  let used : Int := (s.names.filter u.exports.contains).length
  let percent := if total = 0 then 0.0 else Arithmetic.percent used total
  (if used = 0 ∧ total = 0 then u.exports.length else used, total, percent)

def narrowingPlan (a : Subject) (package : String) (root : Option Path) (wanted : Bool) :
    Attempt (Option NarrowingPlan × List String) :=
  if wanted then do
    let (plan, warnings) ←
      Attempt.file (Narrowing.plan a.files a.repository package root a.facts)
    pure (some plan, warnings)
  else .ok (none, [])

/-- The report on the package at a root, or else in the repository, and the warnings in the order in
which they came up. -/
def reportOn (a : Subject) (package : String) (root : Option Path) (planWanted : Bool) :
    Attempt (DependencyReport × List String) := do
  let surface ←
    Attempt.file (Surface.resolve a.files a.repository package root a.settings.profile)
  let usage := Usage.ofFacts package a.facts
  let (used, total, percent) := coverage usage surface
  let (riskCues, riskWarnings) ←
    Attempt.file (Risk.cues a.files a.repository package surface.dynamicImports root)
  let topSymbols ← firstOfAmount a.settings.topSymbols usage.ranked
  let report : DependencyReport :=
    { name := package
      usedExports := used
      totalExports := total
      usedPercent := percent
      topSymbols
      usedImports := usage.usedImports
      unusedImports := usage.unusedImports
      unusedExports := usage.unusedExports package surface.names
      riskCues }
  let recommendations := Advice.recommendations package report a.settings.leastUsage
  let (plan, planWarnings) ← narrowingPlan a package root planWanted
  pure ({ report with recommendations, narrowingPlan := plan },
    surface.warnings ++ (if surface.includesWildcard then [wildcardSurfaceWarning] else []) ++
      usage.warnings ++ riskWarnings ++ planWarnings)

end PackageUsage.Analysis
