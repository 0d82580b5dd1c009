import PackageUsage.Text.Quoted
import PackageUsage.Path.Basic

namespace PackageUsage

/-- The faults that an analysis reports in its own words. -/
inductive Fault where
  | general (message : String) (details : List (String × String))
  | analysis (message : String) (details : List (String × String))
  | configuration (message : String) (details : List (String × String))
  | fileAccess (path reason : String)
  | parsing (path language reason : String)
  | unsupportedLanguage (language : String) (supported : List String)
  | scanCancelled (filesScanned : Int)
  | manifest (path reason : String)
  | tooUncertain (uncertain : Int) (threshold : String)
  | invalidPath (path reason : String)
  | invalidSetting (key value reason : String)
  | invalidDependency (name reason : String)
deriving DecidableEq, Repr

namespace Fault

/-- The two families of faults. -/
inductive Family where
  | analysis
  | configuration
deriving DecidableEq, Repr

def family? : Fault → Option Family
  | general .. => none
  | analysis .. | fileAccess .. | parsing .. | unsupportedLanguage .. | scanCancelled ..
  | manifest .. | tooUncertain .. => some .analysis
  | configuration .. | invalidPath .. | invalidSetting .. | invalidDependency .. =>
    some .configuration

def message : Fault → String
  | general m _ | analysis m _ | configuration m _ => m
  | fileAccess path _ => "Cannot access file: " ++ path
  | parsing path language _ => "Failed to parse " ++ language ++ " file: " ++ path
  | unsupportedLanguage language _ => "Unsupported language: " ++ language
  | scanCancelled _ => "Scan cancelled"
  | manifest path _ => "Invalid package manifest: " ++ path
  | tooUncertain uncertain threshold =>
    s!"Uncertain import count {uncertain} exceeds threshold {threshold}"
  | invalidPath path _ => "Invalid path: " ++ path
  | invalidSetting key value _ => "Invalid configuration for " ++ key ++ ": " ++ value
  | invalidDependency name _ => "Invalid dependency name: " ++ Text.quoted name

def details : Fault → List (String × String)
  | general _ ds | analysis _ ds | configuration _ ds => ds
  | fileAccess path reason => [("filepath", path), ("reason", reason)]
  | parsing path language reason =>
    [("filepath", path), ("language", language), ("reason", reason)]
  | unsupportedLanguage language supported =>
    [("language", language), ("supported", Text.join ", " supported)]
  | scanCancelled n => [("files_scanned", toString n)]
  | manifest path reason => [("path", path), ("reason", reason)]
  | tooUncertain uncertain threshold =>
    [("uncertain", toString uncertain), ("threshold", threshold)]
  | invalidPath path reason => [("path", path), ("reason", reason)]
  | invalidSetting key value reason => [("key", key), ("value", value), ("reason", reason)]
  | invalidDependency name reason => [("dependency", name), ("reason", reason)]

def text (f : Fault) : String :=
  if f.details.isEmpty then f.message
  else f.message ++ " (" ++ Text.join ", " (f.details.map fun (k, v) => k ++ "=" ++ v) ++ ")"

end Fault

end PackageUsage
