import PackageUsage.Facts.Basic

namespace PackageUsage

/-- An export of a package as files import it. All imports of the same export are one entry. -/
structure ImportUse where
  name : String
  module : String
  locations : List Location := []
  /-- The chains of re-exports through which it was reached. -/
  provenance : List String := []
deriving DecidableEq, Repr

/-- How often an export is used. -/
structure SymbolUsage where
  name : String
  count : Int
deriving DecidableEq, Repr

structure SymbolRef where
  name : String
  module : String
deriving DecidableEq, Repr

structure RiskCue where
  code : String
  severity : String
  message : String
deriving DecidableEq, Repr

structure Recommendation where
  code : String
  priority : String
  message : String
  rationale : String := ""
deriving DecidableEq, Repr

/-- One line of a file with the line that could stand in its place. -/
structure Suggestion where
  file : String
  line : Int
  importName : String
  fromModule : String
  toModule : String
  current : String
  replacement : String
  patch : String
deriving DecidableEq, Repr

/-- An import that is left as it is, and why. -/
structure Skip where
  file : String
  line : Int
  importName : String
  module : String
  reasonCode : String
  message : String
deriving DecidableEq, Repr

structure NarrowingPlan where
  mode : String
  suggestions : List Suggestion := []
  skips : List Skip := []
deriving DecidableEq, Repr

/-- How much each signal counts in a removal score. -/
structure Weights (α : Type) where
  usage : α
  impact : α
  confidence : α

/-- A removal score and the signals behind it, all from 0 to 100. -/
structure RemovalCandidate (α : Type) where
  score : α
  usage : α
  impact : α
  confidence : α
  weights : Weights α
  rationale : List String := []

structure DependencyReport where
  name : String
  usedExports : Int := 0
  totalExports : Int := 0
  usedPercent : Float := 0.0
  topSymbols : List SymbolUsage := []
  usedImports : List ImportUse := []
  unusedImports : List ImportUse := []
  unusedExports : List SymbolRef := []
  riskCues : List RiskCue := []
  recommendations : List Recommendation := []
  narrowingPlan : Option NarrowingPlan := none
  removal : Option (RemovalCandidate Float) := none

/-- The figures of all packages together. -/
structure Summary (α : Type) where
  dependencies : Nat
  usedExports : Int
  totalExports : Int
  usedPercent : α

/-- How many imports are known, and how many modules are computed only when the program runs. -/
structure Uncertainty where
  confirmed : Int
  uncertain : Int
  samples : List Location := []

def schemaVersion : String := "1"

structure Report where
  repository : String
  generatedAt : String
  schema : String := schemaVersion
  dependencies : List DependencyReport := []
  summary : Option (Summary Float) := none
  uncertainty : Option Uncertainty := none
  warnings : List String := []

end PackageUsage
