import PackageUsage.Facts.Extraction
import PackageUsage.Package.Manifest
import PackageUsage.Surface.Entrypoint

namespace PackageUsage

structure Surface where
  /-- The exported names, each once. -/
  names : List String := []
  /-- Some entrypoint passes on everything of another module, so that more is exported than is
  known. -/
  includesWildcard : Bool := false
  entrypoints : List String := []
  warnings : List String := []
  dynamicImports : List DynamicImport := []

namespace Surface

def addName (s : Surface) (name : String) : Surface :=
  if name = wildcard then { s with includesWildcard := true }
  else if name = "" ∨ s.names.contains name then s
  else { s with names := s.names ++ [name] }

def addNames (s : Surface) (names : List String) : Surface := names.foldl addName s

def total? (s : Surface) : Option Nat := if s.includesWildcard then none else some s.names.length

def warn (s : Surface) (warning : String) : Surface :=
  { s with warnings := s.warnings ++ [warning] }

def defaultEntrypoint : String := "index.js"

/-- The entrypoints that a manifest names, and what is to be said about how they were found: those
of its exports map, else the others that it gives, else the usual one. -/
def candidates (m : Manifest) (p : Profile) : List String × List String :=
  let (mapped, warnings) :=
    if m.hasExports then
      let found := ExportsMap.resolve p "exports" m.exports
      let paths := (found.paths.map Text.strip).filter (· != "")
      let outcome :=
        if paths.isEmpty then "no exports resolved for runtime profile \"" ++ p.name ++
          "\"; falling back to legacy entrypoints"
        else "info: resolved exports using runtime profile \"" ++ p.name ++ "\""
      (paths, found.warnings ++ [outcome])
    else ([], [])
  let entries := if mapped.isEmpty then m.legacyEntrypoints else mapped
  ((if entries.isEmpty then [defaultEntrypoint] else entries).eraseDups, warnings)

def findFiles (t : FileTree) (root : Path) (s : Surface) (entries : List String) :
    Except FileError (Surface × List Path) :=
  entries.foldlM (fun (s, files) entry => do
    match ← Entrypoint.resolve t root entry with
    | none => pure (s.warn ("entrypoint not found: " ++ entry), files)
    | some path => pure (s, if files.contains path then files else files ++ [path])) (s, [])

/-- Adds what one entrypoint file exports and loads. -/
def addFile (t : FileTree) (s : Surface) (path : Path) : Surface :=
  let s := { s with entrypoints := s.entrypoints ++ [path.toString] }
  match t.read path with
  | .error _ => s.warn ("failed to read entrypoint: " ++ path.toString)
  | .ok source =>
    match source.parseAt path.name with
    | .error _ => s.warn ("failed to parse entrypoint: " ++ path.toString)
    | .ok parsed =>
      let s := s.addNames (Facts.exportNames parsed.bytes parsed.root)
      { s with dynamicImports := s.dynamicImports ++ (FileFacts.ofParsed parsed).dynamicImports }

def ofRoot (t : FileTree) (s : Surface) (p : Profile) (root : Path) : Except FileError Surface := do
  match ← Manifest.load t root with
  | .error .unreadable => pure (s.warn ("unable to read " ++ (Manifest.pathIn root).toString))
  | .error .invalidJson => pure (s.warn "failed to parse dependency package.json")
  | .ok m =>
    let (entries, warnings) := candidates m p
    let s := warnings.foldl warn s
    let (s, files) ← findFiles t root s entries
    if files.isEmpty then pure (s.warn "no entrypoints resolved for dependency")
    else
      let s := files.foldl (addFile t) s
      pure { s with entrypoints := Text.sort s.entrypoints }

/-- The surface of a package, at the root that is given or else in the repository. -/
def resolve (t : FileTree) (repository : Path) (name : String) (root : Option Path)
    (profile : String) : Except FileError Surface :=
  let (p, warning) := Profile.select profile
  let s : Surface := warning.toList.foldl warn {}
  match root with
  | some root => ofRoot t s p root
  | none =>
    match Package.place repository name with
    | .error f => .ok (s.warn f.text)
    | .ok root => ofRoot t s p root

end Surface

end PackageUsage
