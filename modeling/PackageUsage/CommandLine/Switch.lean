import PackageUsage.Text.Basic

namespace PackageUsage.CommandLine

inductive Switch where
  | top
  | repository
  | profile
  | packageRoot
  | planWanted
  | format
  | leastUsage
  | dynamicLimit
  | settingsFile
  | verbose
  | quiet
  | help
deriving DecidableEq, Repr

namespace Switch

def all : List Switch :=
  [top, repository, profile, packageRoot, planWanted, format, leastUsage, dynamicLimit,
   settingsFile, verbose, quiet, help]

def long : Switch → String
  | top => "--top"
  | repository => "--repo"
  | profile => "--runtime-profile"
  | packageRoot => "--dependency-root"
  | planWanted => "--suggest-only"
  | format => "--format"
  | leastUsage => "--min-usage-percent"
  | dynamicLimit => "--max-uncertain-imports"
  | settingsFile => "--config"
  | verbose => "--verbose"
  | quiet => "--quiet"
  | help => "--help"

def short? : Switch → Option Char
  | repository => some 'C'
  | format => some 'f'
  | settingsFile => some 'c'
  | verbose => some 'v'
  | quiet => some 'q'
  | _ => none

def takesValue : Switch → Bool
  | planWanted | verbose | quiet | help => false
  | _ => true

def ofLong? (s : String) : Option Switch := all.find? (·.long == s)

def ofShort? (c : Char) : Option Switch := all.find? (·.short? == some c)

end Switch

/-- What one argument says: switches, and one that still takes a value, with the value if it is
attached. -/
structure Cluster where
  switches : List Switch := []
  pending : Option (Switch × Option String) := none

def shortCluster : List Char → Option Cluster
  | [] => some {}
  | c :: rest => do
    let s ← Switch.ofShort? c
    if s.takesValue then
      some ⟨[], some (s, if rest.isEmpty then none else some (String.ofList rest))⟩
    else
      let more ← shortCluster rest
      some { more with switches := s :: more.switches }

def cutValue (arg : String) : String × Option String :=
  let (name, rest) := arg.toList.span (· != '=')
  (String.ofList name,
    match rest with
    | _ :: value => some (String.ofList value)
    | [] => none)

def cluster (arg : String) : Option Cluster :=
  let (name, value) := cutValue arg
  match Switch.ofLong? name with
  | some s =>
    if s.takesValue then some ⟨[], some (s, value)⟩
    else if value.isSome then none
    else some ⟨[s], none⟩
  | none => if Text.startsWith arg "--" then none else shortCluster (arg.toList.drop 1)

def isSwitch (arg : String) : Bool := Text.startsWith arg "-" && arg != "-"

/-- Arguments divided into switches with their values and words. -/
structure Given where
  switches : List (Switch × String) := []
  words : List String := []

namespace Given

def add (g : Given) (s : Switch) (value : String) : Given :=
  { g with switches := (s, value) :: g.switches }

def addAll (g : Given) (ss : List Switch) : Given := ss.foldr (fun s g => g.add s "") g

/-- Divides arguments. After two dashes there are words only. -/
def ofArguments : List String → Option Given
  | [] => some {}
  | arg :: rest =>
    if arg = "--" then some { words := rest }
    else if !isSwitch arg then
      (ofArguments rest).map fun g => { g with words := arg :: g.words }
    else
      match cluster arg with
      | none => none
      | some ⟨ss, none⟩ => (ofArguments rest).map (·.addAll ss)
      | some ⟨ss, some (s, some value)⟩ => (ofArguments rest).map fun g => (g.add s value).addAll ss
      | some ⟨ss, some (s, none)⟩ =>
        match rest with
        | [] => none
        | value :: rest => (ofArguments rest).map fun g => (g.add s value).addAll ss

def value? (g : Given) (s : Switch) : Option String :=
  (g.switches.reverse.find? (·.1 == s)).map (·.2)

def has (g : Given) (s : Switch) : Bool := (g.value? s).isSome

end Given

end PackageUsage.CommandLine
