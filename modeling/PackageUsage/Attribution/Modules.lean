import PackageUsage.Facts.Basic
import PackageUsage.Path.Normal

namespace PackageUsage.Modules

open Path.Normal

/-- The normal form of a path in a repository. Backslashes count as slashes. -/
def normalize (path : String) : String :=
  Path.Normal.normalize (path.map fun c => if c = '\\' then '/' else c)

def extensions : List String := [".ts", ".tsx", ".mts", ".cts", ".js", ".jsx", ".mjs", ".cjs"]

/-- The files that a path may stand for, in the order in which they are tried: the path as it is,
without its extension, and that with each extension, as a file and as the index of a folder. -/
def candidates (path : String) : List String :=
  let whole := normalize path
  let (base, extension) := splitExtension whole
  let stripped := if extension = "" then [] else [base]
  let extended := extensions.flatMap fun e => [base ++ e, joinText base ("index" ++ e)]
  ((whole :: stripped ++ extended).map normalize).eraseDups

/-- The scanned files under their normal paths. -/
structure Index where
  files : List (String × FileFacts)

def Index.ofFacts (facts : RepositoryFacts) : Index :=
  ⟨facts.files.map fun f => (normalize f.path, f)⟩

/-- The file at a normal path, the last one if there are several. -/
def Index.file? (i : Index) (path : String) : Option FileFacts := i.files.reverse.lookup path

/-- The file that a specifier refers to from another file at a normal path. -/
def Index.find? (i : Index) (importer module : String) : Option String :=
  (candidates (joinText (directory importer) module)).find? fun c => (i.file? c).isSome

end PackageUsage.Modules
