import PackageUsage.FileTree.Basic
import PackageUsage.Json.Reader

namespace PackageUsage.Snapshot

def textAt? (j : Json) (key : String) : Option String := (j.get? key).bind (·.text?)

def isOn (j : Json) (key : String) : Bool :=
  match j.get? key with
  | some (.bool b) => b
  | _ => false

def natOf : Json → Nat
  | .int n => n.toNat
  | _ => 0

/-- A node as depth, whether it is named, kind, start, end and role. -/
def outline (j : Json) : Syntax.Outline :=
  let item (i : Nat) : Json := j.items.getD i .null
  { depth := natOf (item 0)
    node :=
      { kind := ((item 2).text?).getD ""
        named := natOf (item 1) == 1
        field := (item 5).text?
        start := natOf (item 3)
        stop := natOf (item 4)
        children := [] } }

def hexBytes : List Char → List UInt8
  | a :: b :: rest =>
    let value (c : Char) := (Json.Reader.hexValue? c).getD 0
    UInt8.ofNat (16 * value a + value b) :: hexBytes rest
  | _ => []

def bytes (j : Json) : ByteArray :=
  match textAt? j "hex" with
  | some digits => ⟨(hexBytes digits.toList).toArray⟩
  | none => Text.Utf8.encode ((textAt? j "text").getD "")

/-- A source file: text, or an object with the content and what its grammar makes of it. -/
def source : Json → SourceFile
  | .text s => .ofBytes (Text.Utf8.encode s)
  | j =>
    let content := bytes j
    match textAt? j "parse_fail", j.get? "tree" with
    | some reason, _ => ⟨content, .rejected reason⟩
    | none, tree =>
      let nodes := (tree.map (·.items)).getD []
      let plain := SourceFile.ofBytes content
      match Syntax.Outline.tree? (nodes.map outline), plain.parse with
      | some root, _ => ⟨content, .tree root (isOn j "error")⟩
      | none, .tree root _ => ⟨content, .tree root (isOn j "error")⟩
      | none, .rejected _ => plain

def entry (j : Json) : Entry :=
  match textAt? j "link" with
  | some target => .link target
  | none =>
    if isOn j "dir" then .folder [] ⟨!isOn j "unreadable", true⟩
    else .file (source j) (!isOn j "unreadable")

/-- The names that lead to a written path below a place. -/
def names (place : List String) (path : String) : List String :=
  place ++ (Path.ofString path).parts

/-- Changes what is below a place. Null takes an entry away. -/
def write (place : List String) (top : Entry) (files : Json) : Entry :=
  let ordered := files.members.mergeSort fun a b => Text.le a.1 b.1
  ordered.foldl (fun e (path, j) =>
    if j.isNull then e.remove (names place path) else e.insert (names place path) (entry j)) top

/-- The tree with some files below a place, seen from a folder below it. -/
def tree (place : List String) (files : Json) (workingFolder : String) : FileTree :=
  let top := (Entry.folder [] .full).insert place (.folder [] .full)
  ⟨write place top files, names place workingFolder⟩

end PackageUsage.Snapshot
