import PackageUsage.Score.Basic
import PackageUsage.Settings.Basic

namespace PackageUsage.Settings

/-- A weight as a part of the sum of all. -/
def partOf (total a : Amount) : Except Problem Float :=
  match a.over? total with
  | some x => .ok x
  | none => .error .sumTooLarge

/-- The weights as parts of their sum. Where the sum is infinite the default weights stand in; a sum
of whole numbers that no double comes near is refused. -/
def shares (s : Settings) : Except Problem (Weights Float) := do
  let w := s.weights
  let total ← weightSum w
  match total.double? with
  | none => throw .sumTooLarge
  | some x =>
    if x.isFinite && decide (0.0 < x) then
      pure ⟨← partOf total w.usage, ← partOf total w.impact, ← partOf total w.confidence⟩
    else pure Score.defaultWeights

end PackageUsage.Settings
