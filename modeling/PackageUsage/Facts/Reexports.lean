import PackageUsage.Facts.Imports

namespace PackageUsage.Facts

open Syntax

/-- The import that binds a local name, the first one if there are several. -/
def importOf? (imports : List Import) (localName : String) : Option Import :=
  imports.find? fun i => !i.isSideEffect && i.localName == localName

namespace Source

/-- The name under which a whole module is exported. -/
def moduleExportName (s : Source) (n : Node) : String :=
  Node.nameOf s.bytes
    (n.namedChildren.find? fun c => c.kind == "identifier" || c.kind == "string")

/-- What an export specifier passes on: from the statement's source if it has one, otherwise from
the module its name was imported from. -/
def specifierReexport? (s : Source) (imports : List Import) (source : Option String)
    (spec : Node) : Option Reexport :=
  let name := Node.nameOf s.bytes (spec.field? "name")
  let exported := ((spec.field? "alias").map (·.nameText s.bytes)).getD name
  if name = "" then none
  else match source with
    | some module => some ⟨exported, module, name⟩
    | none => (importOf? imports name).map fun i => ⟨exported, i.module, i.exportName⟩

def statementReexports (s : Source) (imports : List Import) (statement : Node) : List Reexport :=
  let source := (statement.field? "source").bind (·.staticText? s.bytes)
  match statement.namedChild? "namespace_export", statement.namedChild? "export_clause" with
  | some whole, _ =>
    let name := s.moduleExportName whole
    match source with
    | some module => if name = "" then [] else [⟨name, module, wildcard⟩]
    | none => []
  | none, some clause =>
    (clause.namedChildren.filter (·.kind == "export_specifier")).filterMap
      (s.specifierReexport? imports source)
  | none, none =>
    match source with
    | some module => [⟨wildcard, module, wildcard⟩]
    | none =>
      match statement.field? "value" with
      | some value =>
        if statement.hasChild "default" ∧ value.kind = "identifier" then
          ((importOf? imports (s.text value)).map fun i =>
            Reexport.mk defaultName i.module i.exportName).toList
        else []
      | none => []

def reexportsAt (s : Source) (imports : List Import) (v : Visit) : List Reexport :=
  if v.node.kind = "export_statement" then s.statementReexports imports v.node else []

end Source

end PackageUsage.Facts
