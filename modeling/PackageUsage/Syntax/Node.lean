import PackageUsage.Text.Utf8
import PackageUsage.Syntax.Location

namespace PackageUsage.Syntax

structure Node where
  kind : String
  /-- Named nodes carry meaning; the others are punctuation and keywords. -/
  named : Bool
  /-- The role of the node in its parent. -/
  field : Option String
  start : Nat
  stop : Nat
  children : List Node
deriving Inhabited

namespace Node

/-- The number of nodes in a tree. -/
def size : Node → Nat
  | ⟨_, _, _, _, _, children⟩ => 1 + sizes children
where
  sizes : List Node → Nat
    | [] => 0
    | n :: ns => size n + sizes ns

def text (source : ByteArray) (n : Node) : String :=
  Text.Utf8.decodeLossy (source.extract n.start n.stop)

def textOf (source : ByteArray) (n : Option Node) : String := (n.map (text source)).getD ""

def namedChildren (n : Node) : List Node := n.children.filter (·.named)

/-- The position of the first child in a role. -/
def fieldIndex? (n : Node) (role : String) : Option Nat :=
  n.children.findIdx? (·.field == some role)

def field? (n : Node) (role : String) : Option Node :=
  n.children.find? (·.field == some role)

def namedChild? (n : Node) (kind : String) : Option Node :=
  n.namedChildren.find? (·.kind == kind)

def hasChild (n : Node) (kind : String) : Bool := n.children.any (·.kind == kind)

/-- The line and column after one more byte. Lines end with a line feed and columns count bytes. -/
def advance (position : Nat × Nat) (b : UInt8) : Nat × Nat :=
  if b = 10 then (position.1 + 1, 1) else (position.1, position.2 + 1)

def location (source : ByteArray) (file : String) (n : Node) : Location :=
  let (line, column) := (source.toList.take n.start).foldl advance (1, 1)
  ⟨file, line, column⟩

end Node

/-- One line of the outline of a tree: a node without its children, at a depth. -/
structure Outline where
  depth : Nat
  node : Node

/-- Prepends a node to the trees that follow it in an outline: the deeper ones are its children. -/
def adopt (o : Outline) (pending : List Outline) : List Outline :=
  let (deeper, rest) := pending.span (o.depth < ·.depth)
  ⟨o.depth, { o.node with children := deeper.map (·.node) }⟩ :: rest

/-- The trees of an outline that lists parents before children. -/
def Outline.trees (os : List Outline) : List Node := (os.foldr adopt []).map (·.node)

/-- The one tree of a parse: what follows the first tree of the outline is dropped. -/
def Outline.tree? (os : List Outline) : Option Node := (Outline.trees os).head?

end PackageUsage.Syntax
