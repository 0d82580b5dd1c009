import PackageUsage.Facts.Tally
import PackageUsage.Syntax.Location

namespace PackageUsage

/-- The export name that stands for a whole module. -/
def wildcard : String := "*"

def defaultName : String := "default"

/-- The module name of a load whose module is computed when the program runs. -/
def dynamicModule : String := "<dynamic>"

inductive ImportKind where
  | named
  | defaultExport
  | wholeModule
deriving DecidableEq, Repr

namespace ImportKind

def text : ImportKind → String
  | named => "named"
  | defaultExport => "default"
  | wholeModule => "namespace"

def ofText? (s : String) : Option ImportKind :=
  [named, defaultExport, wholeModule].find? (·.text == s)

end ImportKind

/-- One name that a file brings in from a module. -/
structure Import where
  /-- The specifier as written. -/
  module : String
  /-- The name in the module. -/
  exportName : String
  /-- The name in this file. -/
  localName : String
  kind : ImportKind
  location : Location
deriving DecidableEq, Repr

/-- An import that loads a module and binds no name. -/
def Import.isSideEffect (i : Import) : Bool :=
  i.kind = .wholeModule && i.exportName = wildcard && i.localName = wildcard

/-- A name that a file passes on from another module. Both names are wildcards for everything; only
the source name is one for a whole module under a name. -/
structure Reexport where
  exportName : String
  sourceModule : String
  sourceName : String
deriving DecidableEq, Repr

/-- A load whose module is computed when the program runs. -/
structure DynamicImport where
  loader : String
  expression : String
  location : Location
deriving DecidableEq, Repr

structure FileFacts where
  path : String
  imports : List Import := []
  /-- How often each name is read. -/
  reads : Tally := []
  /-- For each name, how often each of its members is reached through it. -/
  members : List (String × Tally) := []
  reexports : List Reexport := []
  dynamicImports : List DynamicImport := []
  hasSyntaxError : Bool := false

/-- The members reached through a local name. -/
def FileFacts.membersOf (f : FileFacts) (localName : String) : Tally :=
  (f.members.lookup localName).getD []

/-- The reads of a local name that do not reach for a member. -/
def FileFacts.directReads (f : FileFacts) (localName : String) : Int :=
  max 0 (f.reads.count localName - (f.membersOf localName).total)

/-- All files of a repository, sorted by path, with what is to be said about the scan itself. -/
structure RepositoryFacts where
  files : List FileFacts := []
  warnings : List String := []

namespace RepositoryFacts

def dynamicImports (r : RepositoryFacts) : List DynamicImport :=
  r.files.flatMap (·.dynamicImports)

def file? (r : RepositoryFacts) (path : String) : Option FileFacts :=
  r.files.find? (·.path == path)

end RepositoryFacts

end PackageUsage
