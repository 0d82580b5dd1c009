import PackageUsage.Facts.Reexports

namespace PackageUsage.Facts

open Syntax

/-- Declarations that introduce the one name they carry. -/
def namedDeclarations : List String :=
  ["function_declaration", "generator_function_declaration", "class_declaration",
   "abstract_class_declaration", "function_signature", "interface_declaration",
   "type_alias_declaration", "enum_declaration"]

namespace Source

mutual

def boundNames (s : Source) : Node → List String
  | ⟨kind, named, field, start, stop, children⟩ =>
    if kind = "identifier" ∨ kind = "shorthand_property_identifier_pattern" then
      [s.text ⟨kind, named, field, start, stop, children⟩]
    else if kind = "pair_pattern" then s.boundNamesInRole "value" children
    else if kind = "assignment_pattern" ∨ kind = "object_assignment_pattern" then
      s.boundNamesInRole "left" children
    else if kind = "object_pattern" ∨ kind = "array_pattern" ∨ kind = "rest_pattern" then
      s.boundNamesOfAll children
    else []

/-- The names introduced by the first child in a role. -/
def boundNamesInRole (s : Source) (role : String) : List Node → List String
  | [] => []
  | n :: rest => if n.field == some role then s.boundNames n else s.boundNamesInRole role rest

def boundNamesOfAll (s : Source) : List Node → List String
  | [] => []
  | n :: rest => if n.named then s.boundNames n ++ s.boundNamesOfAll rest
    else s.boundNamesOfAll rest

end

mutual

def declaredNames (s : Source) : Node → List String
  | ⟨kind, named, field, start, stop, children⟩ =>
    let node : Node := ⟨kind, named, field, start, stop, children⟩
    if kind = "ambient_declaration" then s.declaredNamesOfAll children
    else if namedDeclarations.contains kind then
      ((node.field? "name").map s.text).toList
    else if kind = "lexical_declaration" ∨ kind = "variable_declaration" then
      (node.namedChildren.filter (·.kind == "variable_declarator")).flatMap fun declarator =>
        ((declarator.field? "name").map s.boundNames).getD []
    else []

def declaredNamesOfAll (s : Source) : List Node → List String
  | [] => []
  | n :: rest => if n.named then s.declaredNames n ++ s.declaredNamesOfAll rest
    else s.declaredNamesOfAll rest

end

/-- The name that an export specifier exports: its alias, or else its name. -/
def exportedName? (s : Source) (spec : Node) : Option String :=
  let name := Node.nameOf s.bytes ((spec.field? "alias").or (spec.field? "name"))
  if name = "" then none else some name

/-- The names of an export statement. A source alone exports everything the source does. -/
def statementExports (s : Source) (statement : Node) : List String :=
  match statement.namedChild? "namespace_export", statement.namedChild? "export_clause" with
  | some whole, _ =>
    let name := s.moduleExportName whole
    if name = "" then [] else [name]
  | none, some clause =>
    (clause.namedChildren.filter (·.kind == "export_specifier")).filterMap s.exportedName?
  | none, none =>
    if statement.hasChild "default" then [defaultName]
    else match statement.field? "declaration" with
      | some declaration => s.declaredNames declaration
      | none =>
        if (statement.field? "value").isSome then [defaultName]
        else if (statement.field? "source").isSome then [wildcard]
        else []

/-- The key of a member of an object literal, if it is written down. -/
def literalKey? (s : Source) (part : Node) : Option String :=
  let key? (role : String) := (part.field? role).bind fun key =>
    if key.kind = "property_identifier" ∨ key.kind = "string" then some (key.nameText s.bytes)
    else none
  if part.kind = "shorthand_property_identifier" then some (s.text part)
  else if part.kind = "pair" then key? "key"
  else if part.kind = "method_definition" then key? "name"
  else none

/-- The names exported by an assignment. The marker of transpiled modules is not one of them. -/
def assignmentExports (s : Source) (assignment : Node) : List String :=
  match assignment.field? "left" with
  | none => []
  | some left =>
    if left.kind ≠ "member_expression" then []
    else
      let target := Node.textOf s.bytes (left.field? "object")
      let property := Node.textOf s.bytes (left.field? "property")
      if (target = "exports" ∨ target = "module.exports") ∧ property ≠ "" then
        if property = "__esModule" then [] else [property]
      else if target = "module" ∧ property = "exports" then
        match assignment.field? "right" with
        | some right =>
          if right.kind = "object" then right.namedChildren.filterMap s.literalKey? else []
        | none => []
      else []

def exportsAt (s : Source) (v : Visit) : List String :=
  if v.node.kind = "export_statement" then s.statementExports v.node
  else if v.node.kind = "assignment_expression" then s.assignmentExports v.node
  else []

end Source

/-- The names that a source file exports, in order; a name exported twice is listed twice. -/
def exportNames (bytes : ByteArray) (root : Node) : List String :=
  root.visits.flatMap (Source.exportsAt ⟨"", bytes⟩)

end PackageUsage.Facts
