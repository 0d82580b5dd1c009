import PackageUsage.FileTree.Resolve
import PackageUsage.Path.Normal

namespace PackageUsage.FileTree

open FileError (Cause)

/-- Whether a path leads to an entry with a property. A path that leads nowhere has none; that a
name is too long, or that a folder on the way may not be searched, is no answer but an error. -/
def probe (t : FileTree) (p : Path) (property : Entry → Bool) : Except FileError Bool :=
  match t.entryAt p with
  | .ok e => .ok (property e)
  | .error .nameTooLong => .error ⟨.nameTooLong, p.toString⟩
  | .error .denied => .error ⟨.denied, p.toString⟩
  | .error _ => .ok false

def doesExist (t : FileTree) (p : Path) : Except FileError Bool := t.probe p fun _ => true

def isFolder (t : FileTree) (p : Path) : Except FileError Bool := t.probe p (·.isFolder)

def isFile (t : FileTree) (p : Path) : Except FileError Bool := t.probe p (!·.isFolder)

def read (t : FileTree) (p : Path) : Except FileError SourceFile :=
  match t.entryAt p with
  | .ok (.file source true) => .ok source
  | .ok (.file _ false) => .error ⟨.denied, p.toString⟩
  | .ok (.folder ..) => .error ⟨.isFolder, p.toString⟩
  | .ok (.link _) => .error ⟨.missing, p.toString⟩
  | .error cause => .error ⟨cause, p.toString⟩

/-- One step of a walk: a name in a folder, or a folder that cannot be listed. Folders are given by
the names that lead to them. -/
inductive WalkStep where
  | name (folder : List String) (name : String)
  | failure (folder : List String) (cause : Cause)
deriving Inhabited

/-- The written form of a folder met in a walk from `top`. -/
def walkText (top : Path) (folder : List String) : String :=
  folder.foldl Path.Normal.joinText top.toString

/-- Whether a path is written too long to be followed. -/
def isTooLong (written : String) : Bool := decide (pathLimit ≤ (Text.nameBytes? written).getD 0)

/-- Whether an entry of a folder met in a walk from `top` is a folder, seen through links. -/
def leadsToFolder (t : FileTree) (top : Path) (folder : List String) (name : String)
    (e : Entry) : Bool :=
  match e with
  | .folder .. => true
  | .file .. => false
  | .link _ =>
    !isTooLong (walkText top (folder ++ [name])) &&
    match t.followFrom linkLimit [] (t.absoluteNames top ++ folder ++ [name]) with
    | .ok q => ((t.top.at? q).map (·.isFolder)).getD false
    | .error _ => false

mutual

/-- The walk below an entry: first the sorted names in it that are no folders, then its folders in
sorted order. Links to folders are left alone, and so are the folders that `skip` names. `reached`
tells whether the folder that the entry is in may be searched. -/
def walkEntry (t : FileTree) (skip : String → Bool) (top : Path) (reached : Bool)
    (folder : List String) : Entry → List WalkStep
  | .folder entries access =>
    if isTooLong (walkText top folder) then [.failure folder .nameTooLong]
    else if reached && access.lists then
      let names := (entries.filter fun (n, e) => !t.leadsToFolder top folder n e).map (·.1)
      let below := t.walkFolders skip top access.searches folder entries
      (Text.sort names).map (.name folder) ++
        (below.mergeSort fun a b => Text.le a.1 b.1).flatMap (·.2)
    else [.failure folder .denied]
  | .file .. => [.failure folder .notFolder]
  | .link _ => []

/-- The walks below the folders among some entries, each with its name. -/
def walkFolders (t : FileTree) (skip : String → Bool) (top : Path) (reached : Bool)
    (folder : List String) : List (String × Entry) → List (String × List WalkStep)
  | [] => []
  | (n, e) :: rest =>
    let others := t.walkFolders skip top reached folder rest
    if e.isFolder && !skip n then (n, t.walkEntry skip top reached (folder ++ [n]) e) :: others
    else others

end

/-- The walk below the folder that a path leads to. -/
def walk (t : FileTree) (skip : String → Bool) (p : Path) : List WalkStep :=
  match t.follow p with
  | .error cause => [.failure [] cause]
  | .ok place =>
    match t.top.at? place with
    | some e => t.walkEntry skip p true [] e
    | none => [.failure [] .missing]

end PackageUsage.FileTree
