import PackageUsage.Facts.Extraction
import PackageUsage.Failure
import PackageUsage.FileTree.Access
import PackageUsage.Settings.Amount

namespace PackageUsage

/-- The first `n` elements; a negative `n` leaves out as many at the end. -/
def firstOf {α : Type} (n : Int) (xs : List α) : List α :=
  if n < 0 then xs.take (xs.length - n.natAbs) else xs.take n.toNat

/-- The first elements up to a limit from the settings. -/
def firstOfAmount {α : Type} (limit : Amount) (xs : List α) : Attempt (List α) :=
  match limit.whole? with
  | some n => .ok (firstOf n xs)
  | none => .error .limitNotWhole

namespace RepositoryFacts

/-- Folders that a scan does not enter. -/
def skippedFolders : List String :=
  [".git", "node_modules", "dist", "build", "out", "coverage", "vendor", ".next", ".turbo"]

def noSourcesWarning : String := "no JS/TS files found for analysis"

/-- Reads and extracts one file, named by its path below the root. -/
def scanFile (t : FileTree) (root : Path) (folder : List String) (name : String) :
    Attempt FileFacts := do
  let path : Path := ⟨root.anchor, root.parts ++ folder ++ [name]⟩
  let source ← match t.read path with
    | .ok source => pure source
    | .error e => .error (.fault (.fileAccess path.toString e.text))
  let parsed ← Attempt.fault (source.parseAt (Text.join "/" (folder ++ [name])))
  pure (FileFacts.ofParsed parsed)

/-- Takes the steps of a walk one by one. Before each name the scan may be told to stop, which
happens once `budget` names were let through. -/
def scanSteps (t : FileTree) (root : Path) (budget : Option Nat) (files : List FileFacts) :
    List FileTree.WalkStep → Attempt (List FileFacts)
  | [] => .ok files.reverse
  | .failure folder cause :: _ =>
    let e : FileError := ⟨cause, FileTree.walkText root folder⟩
    .error (.fault (.fileAccess (Path.ofString e.path).toString e.text))
  | .name folder name :: rest =>
    match budget with
    | some 0 => .error (.fault (.scanCancelled files.length))
    | _ =>
      let budget := budget.map (· - 1)
      if (Language.ofPath? (Path.ofString name)).isNone then scanSteps t root budget files rest
      else do
        let facts ← scanFile t root folder name
        scanSteps t root budget (facts :: files) rest

/-- Names the first files with syntax errors, if there are any. -/
def syntaxWarning (limit : Amount) (paths : List String) : Attempt (List String) :=
  if paths.isEmpty then .ok []
  else do
    let samples ← firstOfAmount limit (Text.sort paths)
    pure [s!"parse errors in {paths.length} file(s): " ++ Text.join ", " samples]

def scan (t : FileTree) (root : Path) (sampleLimit : Amount) (budget : Option Nat) :
    Attempt RepositoryFacts := do
  if !(← Attempt.file (t.doesExist root)) then
    throw (.fault (.invalidPath root.toString "Path does not exist"))
  if !(← Attempt.file (t.isFolder root)) then
    throw (.fault (.invalidPath root.toString "Not a directory"))
  let files ← scanSteps t root budget [] (t.walk skippedFolders.contains root)
  let files := files.mergeSort fun a b => Text.le a.path b.path
  let syntaxErrors ← syntaxWarning sampleLimit ((files.filter (·.hasSyntaxError)).map (·.path))
  pure ⟨files, (if files.isEmpty then [noSourcesWarning] else []) ++ syntaxErrors⟩

end RepositoryFacts

end PackageUsage
