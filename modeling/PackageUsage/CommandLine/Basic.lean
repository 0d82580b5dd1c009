import PackageUsage.Analysis.Basic
import PackageUsage.CommandLine.Options
import PackageUsage.Report.Json
import PackageUsage.Report.Table
import PackageUsage.Version

namespace PackageUsage.CommandLine

/-- What is shown on the way out. -/
inductive Output where
  | nothing
  | help
  | version
  | report (format : Format) (r : Report)

structure Result where
  exitCode : Nat
  errors : List String := []
  output : Output := .nothing

/-- The surroundings of a run. -/
structure Setup where
  files : FileTree
  home : Path
  environment : List (String × String) := []
  time : String
  /-- How the reader of TOML words what is wrong with a settings file. -/
  refusal : ByteArray → String

def errorCode : Nat := 1

def usageCode : Nat := 2

def uncertaintyCode : Nat := 3

def errorLine (f : Fault) : String := Text.Markup.styled "red" "Error:" ++ " " ++ f.text

def unexpectedLine : String := Text.Markup.styled "red" "Unexpected error:"

def progressLine : String := "[cyan]Analysing dependencies..."

/-- Where an unexpected error comes from. -/
def traceLine : String := "<traceback>"

/-- How an analysis that ended in failure ends the program. `said` was said before. -/
def failed (o : Options) (said : List String) : Failure → Result
  | .fault f => { exitCode := errorCode, errors := said ++ [errorLine f] }
  | _ =>
    { exitCode := errorCode
      errors := said ++ unexpectedLine :: if o.verbose then [traceLine] else [] }

/-- How an analysis with a report ends the program. -/
def reported (o : Options) (s : Settings) (said : List String) (r : Report) : Result :=
  let output := .report o.format r
  match Analysis.checkUncertainty r s.dynamicLimit with
  | .ok () => { exitCode := 0, errors := said, output }
  | .error f => { exitCode := uncertaintyCode, errors := said ++ [errorLine f], output }

def request (o : Options) : Analysis.Request :=
  { package := o.package
    top := o.top
    root := o.packageRoot.map Path.ofString
    planWanted := o.planWanted }

def analyse (u : Setup) (o : Options) : Result :=
  let prepared : Attempt (Settings × Path) := do
    let s ← Settings.load u.files
      ⟨u.home, o.settingsFile, u.environment, o.overrides, u.refusal⟩
    pure (s, ← Attempt.file (u.files.resolve (Path.ofString o.repository)))
  match prepared with
  | .error e => failed o [] e
  | .ok (s, repository) =>
    let said := if o.quiet || o.format != .table then [] else [progressLine]
    match Analysis.run u.files repository s u.time (request o) with
    | .error e => failed o said e
    | .ok r => reported o s said r

/-- The commands, which all do the same. -/
def commands : List String := ["analyse", "analyze"]

def wrongUsage : Result := { exitCode := usageCode }

def command (u : Setup) (args : List String) : Result :=
  match Given.ofArguments args with
  | none => wrongUsage
  | some g =>
    if g.has .help then { exitCode := 0, output := .help }
    else match Options.ofGiven? u.files g with
      | none => wrongUsage
      | some o => analyse u o

/-- What stands before the command: whether help or the version is asked for, and the rest. -/
def leading : List String → Option (Bool × Bool × List String)
  | [] => some (false, false, [])
  | arg :: rest =>
    if arg = "--" then some (false, false, rest)
    else if arg = "--help" then (leading rest).map fun (_, version, rest) => (true, version, rest)
    else if arg = "--version" then (leading rest).map fun (help, _, rest) => (help, true, rest)
    else if isSwitch arg then none
    else some (false, false, arg :: rest)

def run (u : Setup) (args : List String) : Result :=
  match leading args with
  | none => wrongUsage
  | some (true, _, _) => { exitCode := 0, output := .help }
  | some (false, version, []) => { exitCode := 0, output := if version then .version else .help }
  | some (false, version, name :: rest) =>
    if !commands.contains name then wrongUsage
    else if version then { exitCode := 0, output := .version }
    else command u rest

end PackageUsage.CommandLine
