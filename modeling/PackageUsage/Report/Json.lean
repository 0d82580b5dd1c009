import PackageUsage.Decimal.Reading
import PackageUsage.Json.Printer
import PackageUsage.Report.Basic

namespace PackageUsage

namespace Json

def toFloat : Json → Float
  | int n => Decimal.ofInt n
  | real x => x
  | _ => 0.0

def textAt (j : Json) (key : String) : String := ((j.get? key).bind (·.text?)).getD ""

def intAt (j : Json) (key : String) : Int := ((j.get? key).bind (·.int?)).getD 0

def floatAt (j : Json) (key : String) : Float := ((j.get? key).map toFloat).getD 0.0

def itemsAt (j : Json) (key : String) : List Json := ((j.get? key).map items).getD []

def textsAt (j : Json) (key : String) : List String := (j.itemsAt key).filterMap text?

def objectAt? (j : Json) (key : String) : Option Json := (j.get? key).filter (·.isObject)

end Json

namespace Location

def toJson (l : Location) : Json :=
  .object [("file", .text l.file), ("line", .int l.line), ("column", .int l.column)]

def ofJson (j : Json) : Location := ⟨j.textAt "file", j.intAt "line", j.intAt "column"⟩

end Location

namespace ImportUse

def toJson (u : ImportUse) : Json :=
  .object [("name", .text u.name), ("module", .text u.module),
    ("locations", .list (u.locations.map Location.toJson)), ("provenance", .texts u.provenance)]

def ofJson (j : Json) : ImportUse :=
  ⟨j.textAt "name", j.textAt "module", (j.itemsAt "locations").map Location.ofJson,
   j.textsAt "provenance"⟩

end ImportUse

namespace SymbolUsage

def toJson (s : SymbolUsage) : Json := .object [("name", .text s.name), ("count", .int s.count)]

def ofJson (j : Json) : SymbolUsage := ⟨j.textAt "name", j.intAt "count"⟩

end SymbolUsage

namespace SymbolRef

def toJson (s : SymbolRef) : Json := .object [("name", .text s.name), ("module", .text s.module)]

def ofJson (j : Json) : SymbolRef := ⟨j.textAt "name", j.textAt "module"⟩

end SymbolRef

namespace RiskCue

def toJson (c : RiskCue) : Json :=
  .object [("code", .text c.code), ("severity", .text c.severity), ("message", .text c.message)]

def ofJson (j : Json) : RiskCue := ⟨j.textAt "code", j.textAt "severity", j.textAt "message"⟩

end RiskCue

namespace Recommendation

def toJson (r : Recommendation) : Json :=
  .object [("code", .text r.code), ("priority", .text r.priority), ("message", .text r.message),
    ("rationale", .text r.rationale)]

def ofJson (j : Json) : Recommendation :=
  ⟨j.textAt "code", j.textAt "priority", j.textAt "message", j.textAt "rationale"⟩

end Recommendation

namespace Suggestion

def toJson (s : Suggestion) : Json :=
  .object [("file", .text s.file), ("line", .int s.line), ("import_name", .text s.importName),
    ("from_module", .text s.fromModule), ("to_module", .text s.toModule),
    ("original", .text s.current), ("replacement", .text s.replacement), ("patch", .text s.patch)]

def ofJson (j : Json) : Suggestion :=
  { file := j.textAt "file"
    line := j.intAt "line"
    importName := j.textAt "import_name"
    fromModule := j.textAt "from_module"
    toModule := j.textAt "to_module"
    current := j.textAt "original"
    replacement := j.textAt "replacement"
    patch := j.textAt "patch" }

end Suggestion

namespace Skip

def toJson (s : Skip) : Json :=
  .object [("file", .text s.file), ("line", .int s.line), ("import_name", .text s.importName),
    ("module", .text s.module), ("reason_code", .text s.reasonCode), ("message", .text s.message)]

def ofJson (j : Json) : Skip :=
  ⟨j.textAt "file", j.intAt "line", j.textAt "import_name", j.textAt "module",
   j.textAt "reason_code", j.textAt "message"⟩

end Skip

namespace NarrowingPlan

def toJson (p : NarrowingPlan) : Json :=
  .object [("mode", .text p.mode), ("suggestions", .list (p.suggestions.map Suggestion.toJson)),
    ("skips", .list (p.skips.map Skip.toJson))]

def ofJson (j : Json) : NarrowingPlan :=
  ⟨j.textAt "mode", (j.itemsAt "suggestions").map Suggestion.ofJson,
   (j.itemsAt "skips").map Skip.ofJson⟩

end NarrowingPlan

namespace Weights

def toJson (w : Weights Float) : Json :=
  .object [("usage", .real w.usage), ("impact", .real w.impact),
    ("confidence", .real w.confidence)]

def ofJson (j : Json) : Weights Float :=
  ⟨j.floatAt "usage", j.floatAt "impact", j.floatAt "confidence"⟩

end Weights

namespace RemovalCandidate

def toJson (c : RemovalCandidate Float) : Json :=
  .object [("score", .real c.score), ("usage", .real c.usage), ("impact", .real c.impact),
    ("confidence", .real c.confidence), ("weights", c.weights.toJson),
    ("rationale", .texts c.rationale)]

def ofJson (j : Json) : RemovalCandidate Float :=
  { score := j.floatAt "score"
    usage := j.floatAt "usage"
    impact := j.floatAt "impact"
    confidence := j.floatAt "confidence"
    weights := Weights.ofJson ((j.objectAt? "weights").getD (.object []))
    rationale := j.textsAt "rationale" }

end RemovalCandidate

namespace DependencyReport

def toJson (r : DependencyReport) : Json :=
  .object [("name", .text r.name), ("used_exports_count", .int r.usedExports),
    ("total_exports_count", .int r.totalExports), ("used_percent", .real r.usedPercent),
    ("top_used_symbols", .list (r.topSymbols.map SymbolUsage.toJson)),
    ("used_imports", .list (r.usedImports.map ImportUse.toJson)),
    ("unused_imports", .list (r.unusedImports.map ImportUse.toJson)),
    ("unused_exports", .list (r.unusedExports.map SymbolRef.toJson)),
    ("risk_cues", .list (r.riskCues.map RiskCue.toJson)),
    ("recommendations", .list (r.recommendations.map Recommendation.toJson)),
    ("codemod", .ofOption NarrowingPlan.toJson r.narrowingPlan),
    ("removal_candidate", .ofOption RemovalCandidate.toJson r.removal)]

def ofJson (j : Json) : DependencyReport :=
  { name := j.textAt "name"
    usedExports := j.intAt "used_exports_count"
    totalExports := j.intAt "total_exports_count"
    usedPercent := j.floatAt "used_percent"
    topSymbols := (j.itemsAt "top_used_symbols").map SymbolUsage.ofJson
    usedImports := (j.itemsAt "used_imports").map ImportUse.ofJson
    unusedImports := (j.itemsAt "unused_imports").map ImportUse.ofJson
    unusedExports := (j.itemsAt "unused_exports").map SymbolRef.ofJson
    riskCues := (j.itemsAt "risk_cues").map RiskCue.ofJson
    recommendations := (j.itemsAt "recommendations").map Recommendation.ofJson
    narrowingPlan := (j.objectAt? "codemod").map NarrowingPlan.ofJson
    removal := (j.objectAt? "removal_candidate").map RemovalCandidate.ofJson }

end DependencyReport

namespace Summary

def toJson (s : Summary Float) : Json :=
  .object [("dependency_count", .nat s.dependencies), ("used_exports_count", .int s.usedExports),
    ("total_exports_count", .int s.totalExports), ("used_percent", .real s.usedPercent)]

def ofJson (j : Json) : Summary Float :=
  ⟨(j.intAt "dependency_count").toNat, j.intAt "used_exports_count",
   j.intAt "total_exports_count", j.floatAt "used_percent"⟩

end Summary

namespace Uncertainty

def toJson (u : Uncertainty) : Json :=
  .object [("confirmed_import_uses", .int u.confirmed), ("uncertain_import_uses", .int u.uncertain),
    ("samples", .list (u.samples.map Location.toJson))]

def ofJson (j : Json) : Uncertainty :=
  ⟨j.intAt "confirmed_import_uses", j.intAt "uncertain_import_uses",
   (j.itemsAt "samples").map Location.ofJson⟩

end Uncertainty

namespace Report

def toJson (r : Report) : Json :=
  .object [("repo_path", .text r.repository), ("generated_at", .text r.generatedAt),
    ("schema_version", .text r.schema),
    ("dependencies", .list (r.dependencies.map DependencyReport.toJson)),
    ("summary", .ofOption Summary.toJson r.summary),
    ("usage_uncertainty", .ofOption Uncertainty.toJson r.uncertainty),
    ("warnings", .texts r.warnings)]

def ofJson (j : Json) : Report :=
  { repository := j.textAt "repo_path"
    generatedAt := j.textAt "generated_at"
    schema := ((j.get? "schema_version").bind (·.text?)).getD schemaVersion
    dependencies := (j.itemsAt "dependencies").map DependencyReport.ofJson
    summary := (j.objectAt? "summary").map Summary.ofJson
    uncertainty := (j.objectAt? "usage_uncertainty").map Uncertainty.ofJson
    warnings := j.textsAt "warnings" }

end Report

end PackageUsage
