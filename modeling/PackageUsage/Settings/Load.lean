import PackageUsage.Failure
import PackageUsage.FileTree.Access
import PackageUsage.Settings.Basic
import PackageUsage.Toml.Document

namespace PackageUsage.Settings

structure Sources where
  /-- The user's home folder. -/
  home : Path
  /-- A settings file named by the user, as written. -/
  file : Option String := none
  environment : List (String × String) := []
  /-- What is given directly. Nothing counts as not given. -/
  overrides : Table := []
  /-- How the reader of TOML words what is wrong with content that it refuses. -/
  refusal : ByteArray → String

def userFileName : String := ".depshear.toml"

def folderFileName : String := "depshear.toml"

/-- In a settings file all settings may stand in a table of this name. -/
def sectionName : String := "depshear"

/-- The settings in a document: those in the section, if there is one, or else all of it. -/
def ofDocument (t : Table) : Table :=
  match t.lookup sectionName with
  | some (.table entries) => entries
  | _ => t

def ofFile (t : FileTree) (refusal : ByteArray → String) (path : Path) (label : String) :
    Attempt Table :=
  let refused (reason : String) : Attempt Table := .error (.fault (.configuration
    ("Invalid " ++ label ++ " config '" ++ path.toString ++ "': " ++ reason) []))
  match t.read path with
  | .error e => refused e.text
  | .ok source =>
    match (Text.Utf8.decode? source.bytes).bind Toml.read? with
    | some table => .ok (ofDocument table)
    | none => refused (refusal source.bytes)

/-- The settings in a file that may be missing. -/
def ofFileIfThere (t : FileTree) (refusal : ByteArray → String) (path : Path) (label : String) :
    Attempt Table := do
  if ← Attempt.file (t.doesExist path) then ofFile t refusal path label else pure []

/-- The settings in a file that the user has named. -/
def ofNamedFile (t : FileTree) (refusal : ByteArray → String) (written : String) :
    Attempt Table := do
  let path := Path.ofString written
  if ← Attempt.file (t.doesExist path) then ofFile t refusal path "explicit"
  else throw (.fault (.configuration ("Config file not found: " ++ path.toString) []))

/-- A setting in the environment, if its variable is there. -/
def ofVariable (environment : List (String × String)) (s : Setting) :
    Except Fault (Option (String × Value)) :=
  match environment.lookup s.variableName with
  | none => .ok none
  | some text =>
    match s.form.read text with
    | .ok v => .ok (v.map (s.key, ·))
    | .error reason => .error (.invalidSetting s.variableName text reason)

def ofEnvironment (environment : List (String × String)) : Except Fault Table :=
  (Setting.all.mapM (ofVariable environment)).map (·.filterMap id)

/-- Turns the switches for more and for less output into the verbosity that they stand for; the
switch for less wins. -/
def withSwitches (t : Table) : Table :=
  let isOn (name : String) := ((t.lookup name).map Value.isTrue).getD false
  let rest := t.filter fun (k, _) => k != "verbose" && k != "quiet"
  let level (v : Verbosity) (t : Table) := t.set Setting.verbosity.key (.text v.text)
  let rest := if isOn "verbose" then level .verbose rest else rest
  if isOn "quiet" then level .quiet rest else rest

/-- What is given directly, without what is nothing. -/
def ofOverrides (t : Table) : Table :=
  withSwitches (t.filter fun (_, v) => match v with | .nothing => false | _ => true)

def merge (t : FileTree) (s : Sources) : Attempt Table := do
  let user ← ofFileIfThere t s.refusal (s.home.child userFileName) "global"
  let folder ←
    ofFileIfThere t s.refusal (Path.child ⟨.root, t.workingFolder⟩ folderFileName) "project"
  let named ← match s.file with
    | some written => ofNamedFile t s.refusal written
    | none => pure []
  let environment ← Attempt.fault (ofEnvironment s.environment)
  pure ([user, folder, named, environment, ofOverrides s.overrides].foldl Table.update [])

/-- Refuses a value with a message that shows it. -/
def refuse (key : String) (v : Value) (reason : String) : Attempt Settings :=
  if v.isWritable then .error (.fault (.invalidSetting key v.shown reason))
  else .error (.setting .tooLong)

/-- The settings that values give. Of unknown keys the first in order is reported. -/
def check (values : Table) : Attempt Settings :=
  match (Text.sort (values.keys.filter (!Setting.isKnown ·))).head? with
  | some key =>
    refuse key ((values.lookup key).getD .nothing) "unknown configuration key"
  | none =>
    match ofTable values with
    | .ok s => .ok s
    | .error (.broken rule) => refuse "config" (.table values) rule.message
    | .error p => .error (.setting p)

def load (t : FileTree) (s : Sources) : Attempt Settings := do check (← merge t s)

end PackageUsage.Settings
