import PackageUsage.Facts.Basic
import PackageUsage.Facts.Literal

namespace PackageUsage.Facts

open Syntax

/-- A source file while it is read. -/
structure Source where
  path : String
  bytes : ByteArray

namespace Source

def text (s : Source) (n : Node) : String := n.text s.bytes

def locate (s : Source) (n : Node) : Location := n.location s.bytes s.path

def whole (s : Source) (module localName : String) (place : Node) : Import :=
  ⟨module, wildcard, localName, .wholeModule, s.locate place⟩

def named (s : Source) (module exportName localName : String) (place : Node) : Import :=
  ⟨module, exportName, localName, .named, s.locate place⟩

/-- A specifier between the braces of an import. One without a name brings in nothing. -/
def specifierImport? (s : Source) (module : String) (spec : Node) : Option Import :=
  let name := Node.nameOf s.bytes (spec.field? "name")
  if name = "" then none
  else some (s.named module name (((spec.field? "alias").map s.text).getD name) spec)

/-- What one part of an import clause brings in: a default, a whole module, or named exports. -/
def clauseImports (s : Source) (module : String) (part : Node) : List Import :=
  if part.kind = "identifier" then
    [⟨module, defaultName, s.text part, .defaultExport, s.locate part⟩]
  else if part.kind = "namespace_import" then
    ((part.namedChild? "identifier").map fun name => s.whole module (s.text name) part).toList
  else if part.kind = "named_imports" then
    (part.namedChildren.filter (·.kind == "import_specifier")).filterMap (s.specifierImport? module)
  else []

/-- An import bound by an assignment: `import x = require("m")`. -/
def assignedImports (s : Source) (clause : Node) : List Import :=
  match (clause.field? "source").bind (·.staticText? s.bytes), clause.namedChild? "identifier" with
  | some module, some name => [s.whole module (s.text name) name]
  | _, _ => []

/-- What an import statement brings in. One without a clause only loads its module. -/
def statementImports (s : Source) (statement : Node) : List Import :=
  match (statement.field? "source").bind (·.staticText? s.bytes) with
  | none => ((statement.namedChild? "import_require_clause").map s.assignedImports).getD []
  | some module =>
    match statement.namedChild? "import_clause" with
    | none => [s.whole module wildcard statement]
    | some clause => clause.namedChildren.flatMap (s.clauseImports module)

/-- The loader that a call uses, if its function is one. -/
def loader? (s : Source) (call : Node) : Option String :=
  (call.field? "function").bind fun function =>
    if function.kind = "import" then some "import"
    else if function.kind = "identifier" ∧ s.text function = "require" then some "require"
    else none

def argument? (call : Node) : Option Node :=
  (call.field? "arguments").bind fun arguments =>
    arguments.namedChildren.find? (·.kind != "comment")

/-- The loader and the argument of a call that loads a module. -/
def load? (s : Source) (call : Node) : Option (String × Node) :=
  if call.kind = "call_expression" then
    match s.loader? call, argument? call with
    | some loader, some argument => some (loader, argument)
    | _, _ => none
  else none

/-- Expressions that have the value of what they wrap. -/
def wrappers : List String :=
  ["parenthesized_expression", "await_expression", "as_expression", "satisfies_expression",
   "non_null_expression"]

/-- The declarator whose value a node is, by the nodes around it. Wrappers may stand between. -/
def declarator? : List (Node × Nat) → Option Node
  | [] => none
  | (parent, i) :: rest =>
    if wrappers.contains parent.kind then declarator? rest
    else if parent.kind = "variable_declarator" ∧ parent.fieldIndex? "value" = some i then
      some parent
    else none

/-- What one part of an object pattern takes out of a module. A part that binds no plain name, such
as a nested pattern, takes nothing. -/
def patternImport? (s : Source) (module : String) (part : Node) : Option Import :=
  if part.kind = "shorthand_property_identifier_pattern" then
    some (s.named module (s.text part) (s.text part) part)
  else if part.kind = "object_assignment_pattern" then
    match part.field? "left" with
    | some left =>
      if left.kind = "shorthand_property_identifier_pattern" then
        some (s.named module (s.text left) (s.text left) part)
      else none
    | none => none
  else if part.kind = "pair_pattern" then
    let key := Node.nameOf s.bytes (part.field? "key")
    let target := (part.field? "value").bind fun value =>
      if value.kind = "assignment_pattern" then value.field? "left" else some value
    match target with
    | some target =>
      if key ≠ "" ∧ target.kind = "identifier" then
        some (s.named module key (s.text target) part)
      else none
    | none => none
  else none

/-- What a call that loads a module brings in: the whole module under the declared name, the
properties that a declared pattern takes out of it, or else the module without a name. -/
def callImports (s : Source) (module : String) (call : Visit) : List Import :=
  let unbound := [s.whole module wildcard call.node]
  match (declarator? call.around).bind (·.field? "name") with
  | none => unbound
  | some name =>
    if name.kind = "identifier" then [s.whole module (s.text name) name]
    else if name.kind = "object_pattern" then
      match name.namedChildren.filterMap (s.patternImport? module) with
      | [] => unbound
      | imports => imports
    else unbound

def importsAt (s : Source) (v : Visit) : List Import :=
  if v.node.kind = "import_statement" then s.statementImports v.node
  else match s.load? v.node with
    | some (_, argument) =>
      match argument.staticText? s.bytes with
      | some module => s.callImports module v
      | none => []
    | none => []

/-- The dynamic import that the node of a visit is. -/
def dynamicImportAt? (s : Source) (v : Visit) : Option DynamicImport :=
  if v.node.kind = "import_statement" then none
  else (s.load? v.node).bind fun (loader, argument) =>
    match argument.staticText? s.bytes with
    | some _ => none
    | none => some ⟨loader, s.text argument, s.locate v.node⟩

end Source

end PackageUsage.Facts
