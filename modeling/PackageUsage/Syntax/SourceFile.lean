import PackageUsage.Fault
import PackageUsage.Syntax.Language
import PackageUsage.Syntax.Node

namespace PackageUsage

open Syntax

/-- What a grammar makes of some bytes: a tree, which may hold errors, or nothing at all. -/
inductive Parse where
  | tree (root : Node) (hasError : Bool)
  | rejected (reason : String)
deriving Inhabited

structure SourceFile where
  bytes : ByteArray
  parse : Parse
deriving Inhabited

/-- A source file in which its grammar sees a program and no parts of one. -/
def SourceFile.ofBytes (bytes : ByteArray) : SourceFile :=
  ⟨bytes, .tree ⟨"program", true, none, 0, bytes.size, []⟩ false⟩

/-- A syntax tree, and the file it belongs to. -/
structure ParsedSource where
  path : String
  language : Language
  bytes : ByteArray
  root : Node
  hasError : Bool

/-- The syntax of a file at a path. The path decides on the grammar before the content is read. -/
def SourceFile.parseAt (f : SourceFile) (path : String) : Except Fault ParsedSource :=
  let p := Path.ofString path
  match Language.ofPath? p with
  | none =>
    let shown := if p.suffix = "" then path else p.suffix
    .error (.unsupportedLanguage shown Language.names)
  | some language =>
    match f.parse with
    | .tree root hasError => .ok ⟨path, language, f.bytes, root, hasError⟩
    | .rejected reason => .error (.parsing p.toString language.name reason)

end PackageUsage
