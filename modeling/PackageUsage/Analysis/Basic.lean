import PackageUsage.Analysis.Package
import PackageUsage.Score.Share

namespace PackageUsage.Analysis

/-- What is asked of an analysis. -/
structure Request where
  /-- The package to report on; all of them if it is empty. -/
  package : String := ""
  /-- How many packages to report on if none is named. -/
  top : Int := 0
  /-- Where the package named is installed, if not in the repository. -/
  root : Option Path := none
  planWanted : Bool := false
  /-- How many names the scan may pass before it is told to stop. -/
  budget : Option Nat := none

def noTargetWarning : String := "no dependency or top-N target provided"

def noDataWarning : String := "no dependency data available for top-N ranking"

/-- This many computed loads are located in a report. -/
def sampleLimit : Nat := 5

/-- Attaches removal scores to reports. Where there are none, the weights do not matter. The scores
of figures that can be computed with are in range, since the shares of settings are at most one. -/
def scored (s : Settings) (rs : List DependencyReport) : Attempt (List DependencyReport) := do
  if rs.isEmpty then return []
  let w ← s.shares.mapError .setting
  if rs.all (Score.isComputable ·.figures) then return DependencyReport.score w rs
  else throw .figureTooLarge

def single (a : Subject) (q : Request) : Attempt (List DependencyReport × List String) := do
  let roots ← Attempt.file (Package.rootsSeen a.files a.repository q.package a.facts)
  let (report, warnings) ← reportOn a q.package (q.root.or roots.head?) q.planWanted
  pure (← scored a.settings [report],
    warnings ++ if 1 < roots.length then [Inventory.severalRootsWarning q.package] else [])

def mostWasteful (a : Subject) (q : Request) : Attempt (List DependencyReport × List String) := do
  let inventory ← Attempt.file (Inventory.ofFacts a.files a.repository a.facts)
  let found ← inventory.names.mapM fun name => reportOn a name (inventory.root? name) q.planWanted
  let ranked := firstOf q.top (DependencyReport.rank (← scored a.settings (found.map (·.1))))
  pure (ranked, inventory.warnings ++ found.flatMap (·.2) ++
    if ranked.isEmpty then [noDataWarning] else [])

def reports (a : Subject) (q : Request) : Attempt (List DependencyReport × List String) :=
  if q.package ≠ "" then single a q
  else if 0 < q.top then mostWasteful a q
  else .ok ([], [noTargetWarning])

/-- How many imports are of some packages, and how many loads are computed. -/
def uncertainty (facts : RepositoryFacts) (packages : List String) : Uncertainty :=
  let isOfPackage (i : Import) := packages.any (Specifier.belongsTo i.module ·)
  let locations := Location.sort (facts.dynamicImports.map (·.location))
  { confirmed := ((facts.files.flatMap (·.imports)).filter isOfPackage).length
    uncertain := locations.length
    samples := locations.take sampleLimit }

/-- The report of an analysis, made at some time. A warning is given once, where it first came
up. -/
def run (t : FileTree) (repository : Path) (s : Settings) (time : String) (q : Request) :
    Attempt Report := do
  let facts ← RepositoryFacts.scan t repository s.syntaxErrorSamples q.budget
  let (dependencies, warnings) ← reports ⟨t, repository, s, facts⟩ q
  pure
    { repository := repository.toString
      generatedAt := time
      dependencies
      summary := Summary.ofFigures (dependencies.map (·.figures))
      uncertainty := some (uncertainty facts (dependencies.map (·.name)))
      warnings := (facts.warnings ++ warnings).eraseDups }

/-- A report fails if more loads are computed than allowed. A limit of zero or less allows any
number. -/
def checkUncertainty (r : Report) (limit : Amount) : Except Fault Unit :=
  match r.uncertainty with
  | none => .ok ()
  | some u =>
    if limit.atMost 0 || !limit.below u.uncertain then .ok ()
    else .error (.tooUncertain u.uncertain limit.text)

end PackageUsage.Analysis
