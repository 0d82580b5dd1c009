import PackageUsage.Decimal.Layout
import PackageUsage.Report.Basic
import PackageUsage.Text.Markup

namespace PackageUsage

inductive Justify where
  | left
  | right
deriving DecidableEq, Repr

structure Column where
  header : String
  style : String := ""
  justify : Justify := .left
  width : Option Nat := none
  /-- The share of the width that is left over. -/
  ratio : Option Nat := none
deriving DecidableEq, Repr

/-- Something to show. -/
inductive Display where
  | blank
  | line (markup : String)
  | panel (markup title : String) (expand : Bool)
  | table (title : String) (expand : Bool) (columns : List Column) (rows : List (List String))
deriving DecidableEq, Repr

namespace Report.Table

open Text.Markup (escape styled)

def severityStyle (severity : String) : String :=
  match severity with
  | "high" => "red bold"
  | "medium" => "yellow"
  | "low" => "green"
  | _ => "dim"

/-- Where the used share of exports stops being low, and where it stops being medium. -/
def lowPercent : Float := 20.0

def mediumPercent : Float := 50.0

def percentText (x : Float) : String := Decimal.onePlace x ++ "%"

/-- The used share of exports, by colour. -/
def usageLabel (r : DependencyReport) : String :=
  if r.totalExports ≤ 0 then styled "dim" "unknown"
  else
    let style :=
      if r.usedPercent < lowPercent then "red"
      else if r.usedPercent < mediumPercent then "yellow"
      else "green"
    styled style (percentText r.usedPercent)

def summaryText : Option (Summary Float) → String
  | none => "No dependencies analysed"
  | some s =>
    "Analysed " ++ styled "bold" (toString s.dependencies) ++ " dependencies  |  " ++
      styled "cyan" (toString s.usedExports) ++ "/" ++ styled "cyan" (toString s.totalExports) ++
      " exports used (" ++ styled "yellow" (percentText s.usedPercent) ++ ")"

def columns : List Column :=
  [{ header := "#", style := "dim", width := some 4 },
   { header := "Dependency", style := "yellow", ratio := some 2 },
   { header := "Used / Total", justify := .right, width := some 14 },
   { header := "Used %", justify := .right, width := some 10 },
   { header := "Removal", justify := .right, width := some 9 },
   { header := "Top Symbols", ratio := some 3 }]

/-- The row of a package in the table, with its number from one on. -/
def row (number : Nat) (r : DependencyReport) : List String :=
  let total := if 0 < r.totalExports then toString r.totalExports else "?"
  let symbols := Text.join ", " (r.topSymbols.map fun s => s!"{s.name} ({s.count})")
  [toString number, escape r.name, toString r.usedExports ++ " / " ++ total, usageLabel r,
   ((r.removal.map fun c => Decimal.onePlace c.score)).getD "-",
   escape (if symbols = "" then "-" else symbols)]

def dim (s : String) : String := styled "dim" s

/-- A heading with lines below it, if there are any. -/
def titled (heading : String) (lines : List String) : List String :=
  if lines.isEmpty then [] else dim heading :: lines

def unusedLine (u : ImportUse) : String :=
  let places := Text.join ", " (u.locations.map toString)
  "  " ++ styled "red" "-" ++ " " ++ escape u.module ++ "#" ++ escape u.name ++ " " ++
    dim ("(" ++ escape places ++ ")")

def riskLine (c : RiskCue) : String :=
  "  " ++ styled "red" "!" ++ " " ++ styled (severityStyle c.severity) c.severity ++ " " ++
    c.code ++ ": " ++ escape c.message

def suggestionLines (s : Suggestion) : List String :=
  ["  " ++ styled "green" "+" ++ " " ++ escape s.file ++ s!":{s.line}",
   "      " ++ styled "red" (escape (Text.strip s.current)),
   "      " ++ styled "green" (escape (Text.strip s.replacement))]

def planLines (p : NarrowingPlan) : List String :=
  dim (s!"Codemod ({p.mode}): {p.suggestions.length} suggestion(s), " ++
    s!"{p.skips.length} skipped") :: p.suggestions.flatMap suggestionLines

def detailLines (r : DependencyReport) : List String :=
  titled "Unused imports:" (r.unusedImports.map unusedLine) ++
  titled "Re-export chains:" ((r.usedImports.flatMap (·.provenance)).map fun chain =>
    "  " ++ styled "cyan" "~" ++ " " ++ escape chain) ++
  titled "Risk cues:" (r.riskCues.map riskLine) ++
  titled "Recommendations:" (r.recommendations.map fun c =>
    "  " ++ styled "green" "->" ++ " " ++ escape c.message) ++
  (r.narrowingPlan.map planLines).getD [] ++
  titled "Score notes:" (((r.removal.map (·.rationale)).getD []).map fun note =>
    "  " ++ styled "dim" "-" ++ " " ++ escape note)

def details (r : DependencyReport) : List Display :=
  let lines := detailLines r
  if lines.isEmpty then []
  else [.panel (Text.join "\n" lines) (styled "bold yellow" (escape r.name)) true, .blank]

def overview (r : Report) : List Display :=
  [.panel (summaryText r.summary) (styled "bold cyan" "depshear") false, .blank] ++
    if r.dependencies.isEmpty then []
    else [.table "Dependency Usage" true columns
      (r.dependencies.mapIdx fun i d => row (i + 1) d), .blank]

def certainty : Option Uncertainty → List Display
  | none => []
  | some u =>
    .line ("Usage certainty: " ++ styled "green" (toString u.confirmed) ++ " static imports, " ++
      styled "yellow" (toString u.uncertain) ++ " dynamic") ::
    u.samples.map (fun l => .line ("  " ++ dim (escape (toString l)))) ++ [.blank]

def warnings (ws : List String) : List Display :=
  if ws.isEmpty then []
  else .line (styled "bold yellow" "Warnings:") ::
    ws.map fun w => .line ("  " ++ styled "yellow" "-" ++ " " ++ escape w)

end Report.Table

def Report.displays (r : Report) : List Display :=
  Table.overview r ++ r.dependencies.flatMap Table.details ++ Table.certainty r.uncertainty ++
    Table.warnings r.warnings

end PackageUsage
