import PackageUsage.CommandLine.Switch
import PackageUsage.CommandLine.Whole
import PackageUsage.FileTree.Access
import PackageUsage.Settings.Load

namespace PackageUsage.CommandLine

inductive Format where
  | table
  | json
deriving DecidableEq, Repr

namespace Format

def text : Format → String
  | table => "table"
  | json => "json"

def all : List Format := [json, table]

def ofName? (s : String) : Option Format := all.find? (·.text == s)

/-- Text without its case. The long s is an s. -/
def fold (s : String) : String := (Text.lower s).map fun c => if c = '\u017F' then 's' else c

def ofText? (s : String) : Option Format := ofName? (fold s)

def unknownMessage (name : String) : String :=
  "Unknown formatter: " ++ Text.quoted name ++ ". Choose from: " ++
    Text.join ", " (all.map (·.text))

end Format

structure Options where
  package : String := ""
  top : Int := 0
  repository : String := "."
  profile : Option String := none
  packageRoot : Option String := none
  planWanted : Bool := false
  format : Format := .table
  leastUsage : Option Int := none
  dynamicLimit : Option Int := none
  settingsFile : Option String := none
  verbose : Bool := false
  quiet : Bool := false

namespace Options

/-- A whole number within bounds, if one is given at all. -/
def wholeOf? (g : Given) (s : Switch) (low : Int) (high : Option Int) : Option (Option Int) :=
  match g.value? s with
  | none => some none
  | some text =>
    match whole? text with
    | some n => if low ≤ n && high.all (n ≤ ·) then some (some n) else none
    | none => none

/-- A folder may be missing, but it must not be a file. -/
def isFolderPath (t : FileTree) (written : String) : Bool :=
  match t.entryAt (Path.ofString written) with
  | .ok e => e.isFolder
  | .error cause => !cause.isRefusal

/-- A file must be there. -/
def isFilePath (t : FileTree) (written : String) : Bool :=
  match t.entryAt (Path.ofString written) with
  | .ok e => !e.isFolder
  | .error _ => false

def formatOf? (g : Given) : Option Format :=
  match g.value? .format with
  | none => some .table
  | some text => Format.ofText? text

def ofGiven? (t : FileTree) (g : Given) : Option Options := do
  let top ← wholeOf? g .top 0 none
  let leastUsage ← wholeOf? g .leastUsage 0 (some 100)
  let dynamicLimit ← wholeOf? g .dynamicLimit 0 none
  let format ← formatOf? g
  let repository := (g.value? .repository).getD "."
  let packageRoot := g.value? .packageRoot
  let settingsFile := g.value? .settingsFile
  if !isFolderPath t repository || !packageRoot.all (isFolderPath t) ||
      !settingsFile.all (isFilePath t) || 1 < g.words.length then none
  some
    { package := g.words.headD ""
      top := top.getD 0
      repository
      profile := g.value? .profile
      packageRoot
      planWanted := g.has .planWanted
      format
      leastUsage
      dynamicLimit
      settingsFile
      verbose := g.has .verbose
      quiet := g.has .quiet }

def overrides (o : Options) : Settings.Table :=
  let given (key : String) (v : Option Settings.Value) := v.toList.map (key, ·)
  given Setting.profile.key (o.profile.map .text) ++
    given Setting.leastUsage.key (o.leastUsage.map .whole) ++
    given Setting.dynamicLimit.key (o.dynamicLimit.map .whole) ++
    (if o.verbose then [("verbose", .flag true)] else []) ++
    (if o.quiet then [("quiet", .flag true)] else [])

end Options

end PackageUsage.CommandLine
