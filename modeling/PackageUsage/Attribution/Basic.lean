import PackageUsage.Attribution.Modules
import PackageUsage.Specifier

namespace PackageUsage

/-- The re-exports of a file that may provide a name: those of just that name, or else those of
everything. -/
def Reexport.select (bindings : List Reexport) (requested : String) : List Reexport :=
  match bindings.filter (·.exportName == requested) with
  | [] => bindings.filter (·.exportName == wildcard)
  | exact => exact

/-- The name to ask the next module for. A re-export of everything keeps the name. -/
def Reexport.forwarded (sourceName requested : String) : String :=
  if sourceName = wildcard then requested else sourceName

/-- The export of a package that an import comes down to, and the chain to it as text. -/
structure Attribution where
  module : String
  exportName : String
  provenance : String
deriving DecidableEq, Repr

namespace Attribution

def arrow : String := " -> "

/-- Where a chain arrives, and the files it went through. -/
structure Origin where
  module : String
  exportName : String
  trail : List String
deriving DecidableEq, Repr

/-- The chain of files of a search that came back to where it was when it asked for a name. -/
structure Circle where
  importer : String
  requested : String
  files : List String
deriving DecidableEq, Repr

def Circle.text (c : Circle) : String :=
  "re-export attribution cycle while resolving \"" ++ c.requested ++ "\" from " ++ c.importer ++
    ": " ++ Text.join arrow c.files

def mark (file requested : String) : String := file ++ "|" ++ requested

/-- What a search leaves to others: finding the file that a specifier in a file refers to, and
taking note of a circle. -/
structure Services (m : Type → Type) where
  locate : String → String → m (Option String)
  report : Circle → m Unit

/-- What every step of a search knows. -/
structure Search where
  index : Modules.Index
  importer : String
  package : String

variable {m : Type → Type} [Monad m]

/-- Tries the re-exports of a file one after the other. `visit` searches another file for a name. -/
def Search.through (s : Search) (services : Services m) (trail : List String)
    (current requested : String) (visit : String → String → m (Option Origin)) :
    List Reexport → m (Option Origin)
  | [] => pure none
  | b :: rest =>
    let next := Reexport.forwarded b.sourceName requested
    if Specifier.belongsTo b.sourceModule s.package then
      pure (some ⟨b.sourceModule, next, trail ++ [current]⟩)
    else if !Specifier.isRelative b.sourceModule then
      s.through services trail current requested visit rest
    else do
      match ← services.locate current b.sourceModule with
      | none => s.through services trail current requested visit rest
      | some file =>
        match ← visit file next with
        | some origin => pure (some origin)
        | none => s.through services trail current requested visit rest

/-- Searches a file for the origin of a name. `visited` holds the marks and `trail` the files of the
chain so far; `fuel` bounds its length. -/
def Search.file (s : Search) (services : Services m) (fuel : Nat) (visited trail : List String)
    (current requested : String) : m (Option Origin) :=
  if visited.contains (mark current requested) then do
    services.report ⟨s.importer, requested, trail ++ [current]⟩
    pure none
  else match fuel with
    | 0 => pure none
    | fuel + 1 =>
      match s.index.file? current with
      | none => pure none
      | some facts =>
        s.through services trail current requested
          (s.file services fuel (mark current requested :: visited) (trail ++ [current]))
          (Reexport.select facts.reexports requested)

/-- The names that a search starting with `requested` may ask for. -/
def names (index : Modules.Index) (requested : String) : List String :=
  (requested :: index.files.flatMap fun (_, f) => f.reexports.map (·.sourceName)).eraseDups

/-- No chain without a repetition is longer than the number of files times that of names. -/
def fuelFor (index : Modules.Index) (requested : String) : Nat :=
  index.files.length * (names index requested).length + 1

/-- The name that an import asks its module for. -/
def requestedBy (i : Import) : String :=
  if i.kind = .defaultExport then defaultName else i.exportName

/-- The attribution of an import of a file to where its chain arrives. -/
def ofOrigin (importer : String) (o : Origin) : Attribution :=
  ⟨o.module, o.exportName,
    Text.join arrow (importer :: o.trail ++ [o.module ++ "#" ++ o.exportName])⟩

/-- Attributes an import of a file to a package. Only relative imports of a name or of a default
are attributed. -/
def ofImport (services : Services m) (index : Modules.Index) (importer : String) (i : Import)
    (package : String) : m (Option Attribution) :=
  if !Specifier.isRelative i.module || i.kind = .wholeModule then pure none
  else do
    match ← services.locate importer i.module with
    | none => pure none
    | some start =>
      let s : Search := ⟨index, Modules.normalize importer, package⟩
      let requested := requestedBy i
      let origin ← s.file services (fuelFor index requested) [] [] start requested
      pure (origin.map (ofOrigin s.importer))

end Attribution

/-- A resolver answers questions about one repository and remembers what it came across. -/
structure Resolver where
  index : Modules.Index
  /-- What each specifier looked up in a file came to, also if that was nothing. -/
  remembered : List ((String × String) × Option String) := []
  /-- The warnings of the circles met, each once. -/
  circles : List String := []
  /-- The number of lookups of which nothing was remembered. -/
  lookups : Nat := 0

namespace Resolver

def ofFacts (facts : RepositoryFacts) : Resolver := { index := Modules.Index.ofFacts facts }

/-- The file that a specifier refers to, looked up once for each specifier and file. -/
def resolveModule (r : Resolver) (importer module : String) : Option String × Resolver :=
  let key := (Modules.normalize importer, module)
  match r.remembered.lookup key with
  | some known => (known, r)
  | none =>
    let found := r.index.find? key.1 module
    (found, { r with remembered := (key, found) :: r.remembered, lookups := r.lookups + 1 })

def addCircle (r : Resolver) (c : Attribution.Circle) : Resolver :=
  { r with circles := r.circles.insert c.text }

/-- A search that is served by a resolver uses what it remembers and adds to it. -/
def services : Attribution.Services (StateM Resolver) where
  locate importer module r := r.resolveModule importer module
  report c r := ((), r.addCircle c)

def attributionOf (r : Resolver) (importer : String) (i : Import) (package : String) :
    Option Attribution × Resolver :=
  (Attribution.ofImport services r.index importer i package).run r

/-- The warnings of the circles met so far, sorted. -/
def warnings (r : Resolver) : List String := Text.sort r.circles

end Resolver

end PackageUsage
