import PackageUsage.Decimal.Arithmetic
import PackageUsage.Report.Basic
import PackageUsage.Sorting
import PackageUsage.Text.Basic

namespace PackageUsage

/-- What a removal score is computed from. -/
structure Figures (α : Type) where
  name : String
  usedExports : Int
  totalExports : Int
  usedPercent : α
  /-- Some import in use is of the whole module. -/
  usesWildcard : Bool
  severities : List String

def Figures.sum {α : Type} (figure : Figures α → Int) (fs : List (Figures α)) : Int :=
  fs.foldr (fun f sum => figure f + sum) 0

namespace Score

variable {α : Type} [Arithmetic α]

open Arithmetic

def defaultWeights : Weights α := ⟨ratio 1 2, ratio 3 10, ratio 1 5⟩

/-- Weights with the sum one. Weights that cannot be brought to it are replaced by the default. -/
def normalize (w : Option (Weights α)) : Weights α :=
  match w with
  | none => defaultWeights
  | some w =>
    let isFit (x : α) := isFinite x && !lt x (ofInt 0)
    let total := w.usage + w.impact + w.confidence
    if isFit w.usage && isFit w.impact && isFit w.confidence && isFinite total &&
        lt (ofInt 0) total then
      ⟨w.usage / total, w.impact / total, w.confidence / total⟩
    else defaultWeights

/-- The share of the surface that is not used, if the surface is known. -/
def usageSignal (f : Figures α) : Option α :=
  if f.totalExports ≤ 0 then none
  else
    let used :=
      if le f.usedPercent (ofInt 0) then percent f.usedExports f.totalExports else f.usedPercent
    some (clamp (ofInt 100 - used))

/-- The number of exports that are not used, as far as it is known. -/
def rawImpact (f : Figures α) : Int :=
  if f.totalExports ≤ 0 then 0 else max 0 (f.totalExports - f.usedExports)

def unknownUsage : String := "usage coverage unknown because total exports are unavailable"

def wildcardImport : String := "wildcard import usage reduces per-symbol confidence"

def riskPenalty (severity : String) : Int :=
  match Text.lower severity with
  | "high" => 20
  | "medium" => 12
  | "low" => 6
  | _ => 0

/-- What unknown exports, imports of the whole module and risks take off the confidence. -/
def penalty (f : Figures α) : Int :=
  (if f.totalExports ≤ 0 then 35 else 0) + (if f.usesWildcard then 15 else 0) +
    f.severities.foldr (fun s sum => riskPenalty s + sum) 0

def confidenceSignal (f : Figures α) : α := clamp (ofInt (100 - penalty f))

/-- The unused exports compared with those of the most wasteful package. -/
def impactSignal (f : Figures α) (most : Int) : α :=
  if 0 < most then clamp (ofInt (rawImpact f) / ofInt most * ofInt 100) else ofInt 0

/-- The score of a package before it is rounded. -/
def weighted (w : Weights α) (most : Int) (f : Figures α) : α :=
  (usageSignal f).getD (ofInt 0) * w.usage + impactSignal f most * w.impact +
    confidenceSignal f * w.confidence

/-- The score of one package among packages of which the most wasteful one leaves `most` exports
unused. The score is computed before its signals are rounded. -/
def candidate (w : Weights α) (most : Int) (f : Figures α) : RemovalCandidate α :=
  let usage := usageSignal f
  { score := roundTenth (weighted w most f)
    usage := roundTenth (usage.getD (ofInt 0))
    impact := roundTenth (impactSignal f most)
    confidence := roundTenth (confidenceSignal f)
    weights := w
    rationale := (if f.usesWildcard then [wildcardImport] else []) ++
      (if usage.isNone then [unknownUsage] else []) }

/-- Whether a score and its signals have tenths nearest to them. -/
def isRoundable (w : Weights α) (most : Int) (f : Figures α) : Bool :=
  hasTenths ((usageSignal f).getD (ofInt 0)) && hasTenths (impactSignal f most) &&
    hasTenths (confidenceSignal f) && hasTenths (weighted w most f)

/-- The number of exports that the most wasteful package leaves unused. -/
def mostImpact (fs : List (Figures α)) : Int := (fs.map rawImpact).foldl max 0

/-- The scores of packages that are compared with each other, by weights with the sum one. -/
def candidates (w : Weights α) (fs : List (Figures α)) : List (RemovalCandidate α) :=
  fs.map (candidate w (mostImpact fs))

/-- Whether figures can be computed with: neither the unused exports nor a share that has to be
computed is too large a number. -/
def isComputable (f : Figures α) : Bool :=
  f.totalExports ≤ 0 || (isFinite (ofInt (rawImpact f) : α) &&
    (!le f.usedPercent (ofInt 0) || isFinite (ratio f.usedExports f.totalExports : α)))

/-- Whether a package is ranked before another one: scored packages come first, higher scores before
lower ones, equal scores by name. A score that is no number is neither higher nor lower. -/
def wasteLt (a b : String × Option α) : Bool :=
  match a.2, b.2 with
  | some x, some y => if le x y && le y x then Text.lt a.1 b.1 else lt y x
  | some _, none => true
  | none, some _ => false
  | none, none => Text.lt a.1 b.1

def rank {β : Type} (key : β → String × Option α) (xs : List β) : List β :=
  Sorting.sort (fun a b => wasteLt (key a) (key b)) xs

end Score

namespace DependencyReport

def figures (r : DependencyReport) : Figures Float :=
  { name := r.name
    usedExports := r.usedExports
    totalExports := r.totalExports
    usedPercent := r.usedPercent
    usesWildcard := r.usedImports.any (·.name == wildcard)
    severities := r.riskCues.map (·.severity) }

/-- Attaches a removal score to every report, by weights with the sum one. -/
def score (w : Weights Float) (rs : List DependencyReport) : List DependencyReport :=
  List.zipWith (fun r c => { r with removal := some c }) rs
    (Score.candidates w (rs.map figures))

def rank (rs : List DependencyReport) : List DependencyReport :=
  Score.rank (fun r => (r.name, r.removal.map (·.score))) rs

/-- Scores reports by any weights and ranks them. There is no ranking if figures are too large to be
computed with, or if what is computed from them cannot be rounded. -/
def byWaste? (w : Option (Weights Float)) (rs : List DependencyReport) :
    Option (List DependencyReport) :=
  let shares := Score.normalize w
  let fs := rs.map figures
  if fs.all fun f => Score.isComputable f && Score.isRoundable shares (Score.mostImpact fs) f then
    some (rank (score shares rs))
  else none

end DependencyReport

/-- Whether the figures of packages can be computed together. -/
def Summary.isComputable {α : Type} [Arithmetic α] (fs : List (Figures α)) : Bool :=
  let total := Figures.sum (·.totalExports) fs
  total ≤ 0 || Arithmetic.isFinite (Arithmetic.ratio (Figures.sum (·.usedExports) fs) total : α)

/-- The figures of packages together, if there are any packages. -/
def Summary.ofFigures {α : Type} [Arithmetic α] (fs : List (Figures α)) : Option (Summary α) :=
  if fs.isEmpty then none
  else
    let used := Figures.sum (·.usedExports) fs
    let total := Figures.sum (·.totalExports) fs
    some ⟨fs.length, used, total,
      if 0 < total then Arithmetic.percent used total else Arithmetic.ofInt 0⟩

end PackageUsage
