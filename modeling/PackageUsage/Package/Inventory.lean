import PackageUsage.Facts.Basic
import PackageUsage.Failure
import PackageUsage.Package.Installed

namespace PackageUsage

/-- Paths in order: by anchor, then name by name. -/
def Path.le (p q : Path) : Bool :=
  go (Path.Anchor.text p.anchor :: p.parts) (Path.Anchor.text q.anchor :: q.parts)
where
  go : List String → List String → Bool
    | [], _ => true
    | _ :: _, [] => false
    | s :: ss, t :: ts => if s = t then go ss ts else Text.lt s t

structure Inventory where
  /-- The packages that were found, each with its installations in the order of discovery. -/
  installed : List (String × List Path) := []
  /-- The packages that no import has found so far. -/
  missing : List String := []

namespace Inventory

/-- Adds an installation of a package; one that is known already changes nothing. -/
def addRoot (name : String) (root : Path) :
    List (String × List Path) → List (String × List Path)
  | [] => [(name, [root])]
  | (n, roots) :: rest =>
    if n = name then (n, if roots.contains root then roots else roots ++ [root]) :: rest
    else (n, roots) :: addRoot name root rest

/-- Takes note of what a file sees when it imports from a package. -/
def note (i : Inventory) (name : String) : Option Path → Inventory
  | some root => ⟨addRoot name root i.installed, i.missing.erase name⟩
  | none =>
    if (i.installed.lookup name).isSome ∨ i.missing.contains name then i
    else { i with missing := i.missing ++ [name] }

/-- Looks up what a file imports. Specifiers that name no package are passed over. -/
def record (i : Inventory) (t : FileTree) (repository : Path) (importer module : String) :
    Except FileError Inventory :=
  match Specifier.package? module with
  | none => .ok i
  | some name => return i.note name (← Package.seenFrom? t repository importer name)

def names (i : Inventory) : List String := Text.sort (i.installed.map (·.1))

/-- The installation of a package that was found first. -/
def root? (i : Inventory) (name : String) : Option Path :=
  (i.installed.lookup name).bind (·.head?)

def missingWarning (name : String) : String := "dependency not found in node_modules: " ++ name

def severalRootsWarning (name : String) : String :=
  "dependency resolves to multiple node_modules roots: " ++ name

/-- Packages that were not found, and packages installed more than once. -/
def warnings (i : Inventory) : List String :=
  let several := (i.installed.filter fun (_, roots) => 1 < roots.length).map (·.1)
  Text.sort (i.missing.map missingWarning ++ several.map severalRootsWarning)

def ofFacts (t : FileTree) (repository : Path) (facts : RepositoryFacts) :
    Except FileError Inventory :=
  facts.files.foldlM (fun i file =>
    file.imports.foldlM (fun i imp => i.record t repository file.path imp.module) i) {}

end Inventory

/-- Every installation of a package that some importing file sees, sorted. -/
def Package.rootsSeen (t : FileTree) (repository : Path) (name : String)
    (facts : RepositoryFacts) : Except FileError (List Path) := do
  let importers := facts.files.filter fun f => f.imports.any (Specifier.belongsTo ·.module name)
  let seen ← importers.mapM fun f => seenFrom? t repository f.path name
  pure ((seen.filterMap id).eraseDups.mergeSort Path.le)

end PackageUsage
