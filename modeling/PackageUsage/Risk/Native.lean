import PackageUsage.Package.Manifest

namespace PackageUsage.Risk

def installScripts : List String := ["preinstall", "install", "postinstall"]

def buildTools : List String := ["node-gyp", "prebuild", "node-pre-gyp", "cmake-js"]

/-- A walk looks at no more file names than this. -/
def fileLimit : Nat := 600

/-- Whether a file name is that of a compiled module. -/
def isBinaryName (name : String) : Bool := Text.endsWith (Text.lower name) ".node"

/-- The first compiled module among the names of a walk. A folder that cannot be listed ends the
walk, unless the search is over before it is met. -/
def firstBinary (top : Path) (budget : Nat) :
    List FileTree.WalkStep → Except FileError (Option String)
  | [] => .ok none
  | .failure folder cause :: _ => .error ⟨cause, FileTree.walkText top folder⟩
  | .name _ name :: rest =>
    match budget with
    | 0 => .ok none
    | budget + 1 =>
      if isBinaryName name then .ok (some name) else firstBinary top budget rest

def findBinary (t : FileTree) (root : Path) : Except FileError (Option String) := do
  if ← t.isFolder root then firstBinary root fileLimit (t.walk (· == "node_modules") root)
  else pure none

/-- The signs in a manifest: its build flag, and install scripts that call a build tool. -/
def manifestSigns (m : Manifest) : List String :=
  let builds (script : String) : Bool :=
    let body := Text.lower (Text.strip ((m.scripts.lookup script).getD ""))
    buildTools.any (Text.contains body)
  (if m.gypfile then ["package.json:gypfile"] else []) ++
    (installScripts.filter builds).map ("scripts." ++ ·)

def nativeSigns (t : FileTree) (root : Path) (m : Manifest) : Except FileError (List String) := do
  let buildFile ← t.doesExist (root.child "binding.gyp")
  let binary ← findBinary t root
  pure (Text.sortUnique (manifestSigns m ++ (if buildFile then ["binding.gyp"] else []) ++
    (binary.filter (· != "")).toList))

end PackageUsage.Risk
