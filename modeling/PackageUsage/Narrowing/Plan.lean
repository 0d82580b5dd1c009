import PackageUsage.Facts.Basic
import PackageUsage.Report.Basic
import PackageUsage.Narrowing.Line
import PackageUsage.Narrowing.Subpath

namespace PackageUsage.Narrowing

/-- Why an import is left as it is. -/
inductive Reason where
  | sideEffect
  | wholeModule
  | defaultExport
  | renamed
  | unused
  | noTarget
  | noLine
  | notSingle
deriving DecidableEq, Repr

def Reason.code : Reason → String
  | sideEffect => "side-effect-import"
  | wholeModule => "namespace-import"
  | defaultExport => "default-import"
  | renamed => "alias-conflict"
  | unused => "unused-import"
  | noTarget => "no-subpath-target"
  | noLine | notSingle => "unsupported-import-syntax"

def Reason.message : Reason → String
  | sideEffect => "side-effect imports are not safe to rewrite automatically"
  | wholeModule => "namespace imports are not safe to rewrite automatically"
  | defaultExport => "default imports are not rewritten in this codemod mode"
  | renamed => "aliased imports are skipped to avoid local-name conflicts"
  | unused => "unused imports are skipped"
  | noTarget => "no deterministic subpath target was found for this export"
  | noLine => "unable to map import location to source line"
  | notSingle => "import statement is not in a supported single-binding form"

/-- Why an import is not narrowed whatever its package offers. -/
def reason? (f : FileFacts) (i : Import) : Option Reason :=
  match i.kind with
  | .wholeModule => some (if i.isSideEffect then .sideEffect else .wholeModule)
  | .defaultExport => some .defaultExport
  | .named =>
    if i.localName ≠ i.exportName then some .renamed
    else if f.reads.count i.localName ≤ 0 then some .unused
    else none

/-- Text with every line end as a line feed. -/
def unixLines : List Char → List Char
  | '\r' :: '\n' :: cs => '\n' :: unixLines cs
  | '\r' :: cs => '\n' :: unixLines cs
  | c :: cs => c :: unixLines cs
  | [] => []

/-- The lines of a source file. A carriage return ends a line, with or without a line feed. -/
def lines (bytes : ByteArray) : List String :=
  Text.split '\n' (String.ofList (unixLines (Text.Utf8.decodeLossy bytes).toList))

def patch (file : String) (line : Int) (old new : String) : String :=
  Text.join "\n" ["--- a/" ++ file, "+++ b/" ++ file, s!"@@ -{line} +{line} @@", "-" ++ old,
    "+" ++ new]

/-- What becomes of an import: a suggestion, or a reason to leave it. An import whose line stays the
same is neither. -/
inductive Outcome where
  | suggested (s : Suggestion)
  | skipped (s : Skip)
  | unchanged
deriving DecidableEq, Repr

def skip (f : FileFacts) (i : Import) (r : Reason) : Outcome :=
  .skipped ⟨f.path, i.location.line, i.exportName, i.module, r.code, r.message⟩

/-- The line of an import, if its location is in the file. -/
def lineAt? (ls : List String) (n : Int) : Option String :=
  if n ≤ 0 then none else ls[n.toNat - 1]?

/-- What becomes of an import of which the module for its export is known. -/
def narrowImport (f : FileFacts) (i : Import) (package target : String) (ls : List String) :
    Outcome :=
  match lineAt? ls i.location.line with
  | none => skip f i .noLine
  | some current =>
    match narrow? current package i.exportName target with
    | none => skip f i .notSingle
    | some replacement =>
      if replacement = current then .unchanged
      else .suggested
        { file := f.path
          line := i.location.line
          importName := i.exportName
          fromModule := package
          toModule := target
          current
          replacement
          patch := patch f.path i.location.line current replacement }

def outcome (t : FileTree) (repository : Path) (s : Subpaths) (package : String) (f : FileFacts)
    (i : Import) : Except FileError Outcome :=
  match reason? f i with
  | some r => .ok (skip f i r)
  | none => do
    match ← s.resolve t package i.exportName with
    | none => pure (skip f i .noTarget)
    | some target =>
      let source ← t.read (repository.child f.path)
      pure (narrowImport f i package target (lines source.bytes))

/-- What becomes of the imports of a file, up to the first one for which a file cannot be used; that
is an error besides. -/
def outcomes (t : FileTree) (repository : Path) (s : Subpaths) (package : String)
    (f : FileFacts) : List Import → List Outcome × Option FileError
  | [] => ([], none)
  | i :: rest =>
    match outcome t repository s package f i with
    | .ok o =>
      let (os, e) := outcomes t repository s package f rest
      (o :: os, e)
    | .error e => ([], some e)

def suggestion? : Outcome → Option Suggestion
  | .suggested s => some s
  | _ => none

def skip? : Outcome → Option Skip
  | .skipped s => some s
  | _ => none

/-- By file, line, import and module. -/
def suggestionLe (a b : Suggestion) : Bool :=
  if a.file ≠ b.file then Text.le a.file b.file
  else if a.line ≠ b.line then decide (a.line ≤ b.line)
  else if a.importName ≠ b.importName then Text.le a.importName b.importName
  else Text.le a.toModule b.toModule

/-- By file, line, reason and import. -/
def skipLe (a b : Skip) : Bool :=
  if a.file ≠ b.file then Text.le a.file b.file
  else if a.line ≠ b.line then decide (a.line ≤ b.line)
  else if a.reasonCode ≠ b.reasonCode then Text.le a.reasonCode b.reasonCode
  else Text.le a.importName b.importName

def packageImports (f : FileFacts) (package : String) : List Import :=
  f.imports.filter (·.module == package)

def unreadableWarning (file : String) (e : FileError) : String :=
  "codemod preview skipped for " ++ file ++ ": " ++ e.text

/-- The plan for a package at a root, and a warning for every file that cannot be used. -/
def plan (t : FileTree) (repository : Path) (package : String) (root : Option Path)
    (facts : RepositoryFacts) : Except FileError (NarrowingPlan × List String) := do
  let subpaths ← Subpaths.ofRoot t root
  let results := facts.files.map fun f =>
    (f, outcomes t repository subpaths package f (packageImports f package))
  let errors := results.filterMap fun (f, _, e) => e.map (f, ·)
  match errors.find? fun (_, e) => e.cause.report?.isNone with
  | some (_, e) => throw e
  | none => pure ()
  let os := results.flatMap fun (_, os, _) => os
  pure ({ mode := "suggest-only"
          suggestions := (os.filterMap suggestion?).mergeSort suggestionLe
          skips := (os.filterMap skip?).mergeSort skipLe },
    Text.sortUnique (errors.map fun (f, e) => unreadableWarning f.path e))

end PackageUsage.Narrowing
