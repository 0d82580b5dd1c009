import PackageUsage.Report.Basic
import PackageUsage.Settings.Problem

namespace PackageUsage

inductive Verbosity where
  | quiet
  | normal
  | verbose
deriving DecidableEq, Repr

namespace Verbosity

def text : Verbosity → String
  | quiet => "quiet"
  | normal => "normal"
  | verbose => "verbose"

def ofText? (s : String) : Option Verbosity := [quiet, normal, verbose].find? (·.text == s)

end Verbosity

structure Settings where
  /-- The name of the profile under which exports maps are read. -/
  profile : String := "node-import"
  /-- Below this percentage of used exports, modules of a package are recommended over the whole. -/
  leastUsage : Amount := .whole 40
  /-- More computed loads than this fail an analysis; zero allows any number. -/
  dynamicLimit : Amount := .whole 0
  topSymbols : Amount := .whole 5
  /-- So many files with syntax errors are named. -/
  syntaxErrorSamples : Amount := .whole 5
  weights : Weights Amount := ⟨.real 0.5, .real 0.3, .real 0.2⟩
  verbosity : Verbosity := .normal

namespace Settings

/-- The amount given for a setting, if one is given. -/
def amountOf (t : Table) (s : Setting) (default : Amount) : Except Problem Amount :=
  match t.lookup s.key with
  | none => .ok default
  | some v =>
    match v.amount? with
    | some a => .ok a
    | none => .error (.notNumber s)

def ensure (holds : Bool) (rule : Rule) : Except Problem Unit :=
  if holds then .ok () else .error (.broken rule)

/-- The profile given, which must not be blank. -/
def profileOf (t : Table) (default : String) : Except Problem String :=
  match t.lookup Setting.profile.key with
  | none => .ok default
  | some (.text s) => do
    ensure (!Text.isBlankText s) .profileGiven
    pure s
  | some _ => .error (.notText .profile)

/-- A weight given, which must be finite and not negative. -/
def weightOf (t : Table) (s : Setting) (default : Amount) : Except Problem Amount := do
  let a ← amountOf t s default
  ensure (!a.below 0) .weightsUsable
  match a.double? with
  | some x => ensure x.isFinite .weightsUsable
  | none => throw (.tooLarge s)
  pure a

def weightSum (w : Weights Amount) : Except Problem Amount :=
  match (w.usage.add? w.impact).bind (·.add? w.confidence) with
  | some total => .ok total
  | none => .error .sumTooLarge

def verbosityOf (t : Table) (default : Verbosity) : Except Problem Verbosity :=
  match t.lookup Setting.verbosity.key with
  | none => .ok default
  | some (.text s) =>
    match Verbosity.ofText? s with
    | some v => .ok v
    | none => .error (.broken .verbosityKnown)
  | some _ => .error (.broken .verbosityKnown)

/-- The settings that a table gives; those that it does not give have their defaults. -/
def ofTable (t : Table) : Except Problem Settings := do
  match (t.keys.filter (!Setting.isKnown ·)).head? with
  | some key => throw (.unknownKey key)
  | none => pure ()
  let d : Settings := {}
  let profile ← profileOf t d.profile
  let leastUsage ← amountOf t .leastUsage d.leastUsage
  ensure (leastUsage.atLeast 0 && leastUsage.atMost 100) .usageInRange
  let dynamicLimit ← amountOf t .dynamicLimit d.dynamicLimit
  ensure (!dynamicLimit.below 0) .dynamicLimitNotNegative
  let topSymbols ← amountOf t .topSymbols d.topSymbols
  ensure (!topSymbols.below 1) .symbolsShown
  let syntaxErrorSamples ← amountOf t .syntaxErrorSamples d.syntaxErrorSamples
  ensure (!syntaxErrorSamples.below 1) .samplesShown
  let usage ← weightOf t .usageWeight d.weights.usage
  let impact ← weightOf t .impactWeight d.weights.impact
  let confidence ← weightOf t .confidenceWeight d.weights.confidence
  let weights : Weights Amount := ⟨usage, impact, confidence⟩
  ensure (!(← weightSum weights).atMost 0) .someWeight
  let verbosity ← verbosityOf t d.verbosity
  pure { profile, leastUsage, dynamicLimit, topSymbols, syntaxErrorSamples, weights, verbosity }

end Settings

end PackageUsage
