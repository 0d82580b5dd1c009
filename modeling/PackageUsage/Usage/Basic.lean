import PackageUsage.Attribution.Basic
import PackageUsage.Facts.Repository
import PackageUsage.Report.Basic

namespace PackageUsage

namespace ImportUse

/-- Two entries are about the same export if they agree in this. -/
def key (u : ImportUse) : String × String := (u.module, u.name)

/-- By module, then name. -/
def keyLe (u v : ImportUse) : Bool :=
  if u.module = v.module then Text.le u.name v.name else Text.le u.module v.module

/-- One entry for two about the same export. A chain that both name is kept once. -/
def merge (u v : ImportUse) : ImportUse :=
  { u with
    locations := u.locations ++ v.locations
    provenance := v.provenance.foldl (fun known c => if c ∈ known then known else known ++ [c])
      u.provenance }

/-- Adds an entry to a list that has at most one for each export. -/
def insert (v : ImportUse) : List ImportUse → List ImportUse
  | [] => [v]
  | u :: rest => if u.key = v.key then u.merge v :: rest else u :: insert v rest

/-- Entries in order, each with its locations in order. -/
def sorted (us : List ImportUse) : List ImportUse :=
  (us.mergeSort keyLe).map fun u => { u with locations := Location.sort u.locations }

end ImportUse

/-- What is known about the usage of a package. -/
structure Usage where
  /-- The exports that are referred to, each once. -/
  exports : List String := []
  /-- How often each export is referred to. -/
  counts : Tally := []
  used : List ImportUse := []
  unused : List ImportUse := []
  /-- A default or a whole module is used as a value, so that it is not known what of it is used. -/
  ambiguous : Bool := false
  warnings : List String := []

namespace Usage

/-- The references that an import is responsible for, and whether it is used at all. A named import
counts for its export; any other for the members reached through it and for itself. -/
def references (f : FileFacts) (i : Import) : Tally × Bool :=
  if i.kind = .named then
    let n := f.reads.count i.localName
    if 0 < n then ([(i.exportName, n)], true) else ([], false)
  else
    let members := (f.membersOf i.localName).mergeSort fun a b => Text.le a.1 b.1
    let direct := f.directReads i.localName
    let whole := if i.kind = .defaultExport then defaultName else wildcard
    let all := if 0 < direct then members ++ [(whole, direct)] else members
    (all, !all.isEmpty)

/-- Whether an import of a default or a whole module is used as a value. -/
def isAmbiguous (f : FileFacts) (i : Import) : Bool :=
  (i.exportName = wildcard || i.exportName = defaultName) && decide (0 < f.directReads i.localName)

def tally (u : Usage) (name : String) (n : Int) : Usage :=
  { u with exports := u.exports.insert name, counts := u.counts.add name n }

def tallyAll (u : Usage) (refs : Tally) : Usage :=
  refs.foldl (fun u (name, n) => u.tally name n) u

def addImport (u : Usage) (f : FileFacts) (i : Import) (provenance : List String) : Usage :=
  let entry : ImportUse := ⟨i.exportName, i.module, [i.location], provenance⟩
  let (refs, isUsed) := references f i
  let u := u.tallyAll refs
  { u with
    used := if isUsed then entry.insert u.used else u.used
    unused := if isUsed then u.unused else entry.insert u.unused
    ambiguous := u.ambiguous || isAmbiguous f i }

/-- The import that an import of a file comes down to. -/
def attributed (i : Import) : Option Attribution → Import
  | some a => { i with module := a.module, exportName := a.exportName }
  | none => i

/-- Takes note of one import of a file, if it is one of the package. -/
def apply (package : String) (f : FileFacts) (state : Usage × Resolver) (i : Import) :
    Usage × Resolver :=
  let (u, r) := state
  let (attribution, r) := r.attributionOf f.path i package
  let i := attributed i attribution
  if Specifier.belongsTo i.module package then
    (u.addImport f i ((attribution.map (·.provenance)).toList.filter (· != "")), r)
  else (u, r)

def noUsedExportsWarning (package : String) : String :=
  "no used exports found for dependency \"" ++ package ++ "\""

def ambiguousWarning : String := "default or namespace imports reduce export precision"

/-- Adds the imports of a repository to what is known, with the warnings that then hold. -/
def collect (u : Usage) (package : String) (facts : RepositoryFacts) : Usage :=
  let (u, r) := facts.files.foldl
    (fun state f => f.imports.foldl (apply package f) state) (u, Resolver.ofFacts facts)
  { u with
    warnings := u.warnings ++ (if u.exports.isEmpty then [noUsedExportsWarning package] else []) ++
      (if u.ambiguous then [ambiguousWarning] else []) ++ r.warnings }

def ofFacts (package : String) (facts : RepositoryFacts) : Usage :=
  ({} : Usage).collect package facts

def usedExports (u : Usage) : List String := Text.sort u.exports

def usedImports (u : Usage) : List ImportUse := ImportUse.sorted u.used

def unusedImports (u : Usage) : List ImportUse :=
  (ImportUse.sorted u.unused).filter fun v => !u.used.any (·.key == v.key)

/-- Higher counts first, equal counts by name. -/
def countLe (a b : SymbolUsage) : Bool :=
  if a.count = b.count then Text.le a.name b.name else decide (b.count ≤ a.count)

def ranked (u : Usage) : List SymbolUsage :=
  (u.counts.map fun (name, n) => SymbolUsage.mk name n).mergeSort countLe

def unusedExports (u : Usage) (package : String) (surface : List String) : List SymbolRef :=
  (Text.sort (surface.filter fun n => !u.exports.contains n)).map (⟨·, package⟩)

end Usage

end PackageUsage
