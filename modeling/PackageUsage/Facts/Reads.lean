import PackageUsage.Facts.Imports

namespace PackageUsage.Facts

open Syntax

/-- Nodes directly inside which an identifier is imported or bound. -/
def bindingParents : List String :=
  ["import_specifier", "import_clause", "namespace_import", "named_imports", "import_statement",
   "formal_parameters", "rest_parameter", "object_pattern", "array_pattern", "rest_pattern",
   "pair_pattern", "shorthand_property_identifier_pattern", "property_identifier"]

/-- The role in which a node binds an identifier, all others being reads. -/
def bindingRole? (kind : String) : Option String :=
  if ["variable_declarator", "function_declaration", "generator_function_declaration",
      "function_expression", "class_declaration", "class"].contains kind then some "name"
  else if kind = "required_parameter" ∨ kind = "optional_parameter" then some "pattern"
  else if kind = "assignment_pattern" then some "left"
  else if kind = "arrow_function" ∨ kind = "catch_clause" then some "parameter"
  else none

/-- Whether a visited name in an export specifier is read: the exported name of a clause without a
source is, an alias and a name of another module are not. -/
def isLocalExportName (v : Visit) : Bool :=
  v.isField "name" &&
    match v.around with
    | _ :: _ :: (statement, _) :: _ => (statement.field? "source").isNone
    | _ => true

def isRead (v : Visit) : Bool :=
  match v.around with
  | [] => false
  | (parent, _) :: _ =>
    if bindingParents.contains parent.kind then false
    else match bindingRole? parent.kind with
      | some role => !v.isField role
      | none => if parent.kind = "export_specifier" then isLocalExportName v else true

namespace Source

def readAt? (s : Source) (v : Visit) : Option String :=
  let counts := (v.node.kind == "identifier" && isRead v) ||
    v.node.kind == "shorthand_property_identifier"
  if counts then
    let name := s.text v.node
    if name = "" then none else some name
  else none

/-- The member name in a member expression. Private members are out of reach. -/
def memberName? (s : Source) (n : Node) : Option String :=
  (n.field? "property").bind fun property =>
    if property.kind = "private_property_identifier" then none else some (s.text property)

/-- The member name in a subscript: a string, or an identifier taken by its own name. -/
def subscriptName? (s : Source) (n : Node) : Option String :=
  (n.field? "index").bind fun index =>
    if index.kind = "identifier" then some (s.text index)
    else if index.kind = "string" then some (Text.inner (s.text index))
    else none

/-- The local name and the member that a visit reaches through it. -/
def memberAt? (s : Source) (v : Visit) : Option (String × String) :=
  let name := if v.node.kind = "member_expression" then s.memberName? v.node
    else if v.node.kind = "subscript_expression" then s.subscriptName? v.node
    else none
  match v.node.field? "object", name with
  | some object, some name =>
    if object.kind = "identifier" ∧ name ≠ "" then some (s.text object, name) else none
  | _, _ => none

end Source

/-- Counts a member reached through a local name. -/
def countMember (counts : List (String × Tally)) (localName member : String) :
    List (String × Tally) :=
  match counts with
  | [] => [(localName, Tally.add [] member 1)]
  | (k, t) :: rest =>
    if k = localName then (k, t.add member 1) :: rest
    else (k, t) :: countMember rest localName member

end PackageUsage.Facts
