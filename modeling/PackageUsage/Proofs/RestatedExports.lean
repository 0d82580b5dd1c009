import PackageUsage.Proofs.LoaderCalls

namespace PackageUsage
set_option autoImplicit true
open Syntax

namespace Facts

/-- The import that a name stands for in a file: the first one of that name that does not only load
its module. -/
def StandsFor (imports : List Import) (localName : String) (i : Import) : Prop :=
  ∃ before after, imports = before ++ i :: after ∧ i.isSideEffect = false ∧
    i.localName = localName ∧ ∀ j ∈ before, j.isSideEffect = true ∨ j.localName ≠ localName

/-- The name that a specifier exports, and the name under which it does. -/
inductive Exports (s : Source) (spec : Node) : String → String → Prop
  | plain : spec.field? "name" = some n → spec.field? "alias" = none →
      Exports s spec (n.nameText s.bytes) (n.nameText s.bytes)
  | renamed : spec.field? "name" = some n → spec.field? "alias" = some a →
      Exports s spec (n.nameText s.bytes) (a.nameText s.bytes)

/-- A statement with names to export and no module: `export {l as y};` -/
structure LocalClause (statement clause : Node) : Prop where
  kind_eq : statement.kind = "export_statement"
  sourceless : statement.field? "source" = none
  notWhole : statement.namedChild? "namespace_export" = none
  names : statement.namedChild? "export_clause" = some clause

/-- A statement with one name to export as the default: `export default l;` -/
structure LocalDefault (statement value : Node) : Prop where
  kind_eq : statement.kind = "export_statement"
  sourceless : statement.field? "source" = none
  notWhole : statement.namedChild? "namespace_export" = none
  notNames : statement.namedChild? "export_clause" = none
  keyword : statement.hasChild "default" = true
  value_eq : statement.field? "value" = some value
  identifier : value.kind = "identifier"

/-- A statement that exports a name from a module: `export {e as y} from "m";` -/
structure NamedExport (s : Source) (statement : Node) (name exported module : String) : Prop where
  source : ∃ b, statement.field? "source" = some b ∧ Literal s b module
  notWhole : statement.namedChild? "namespace_export" = none
  names : ∃ clause spec, statement.namedChild? "export_clause" = some clause ∧
    clause.namedChildren.filter (·.kind == "export_specifier") = [spec] ∧
    Exports s spec name exported

/-- Nodes that say under which name a module is exported as a whole. -/
def moduleNames : List String := ["identifier", "string", "default"]

/-- A statement that exports a module as a whole: `export * as y from "m";` The keyword `default` is
no node with a meaning of its own, other names are. -/
structure WholeExport (s : Source) (statement word : Node) (module : String) : Prop where
  source : ∃ b, statement.field? "source" = some b ∧ Literal s b module
  whole : ∃ part, statement.namedChild? "namespace_export" = some part ∧
    part.children.filter (fun c => moduleNames.contains c.kind) = [word]
  named_iff : word.named = true ↔ word.kind ≠ "default"

/-- What statements contribute that export from the module itself. For a module as a whole that is
nothing, if the name is a keyword or empty. -/
structure Restated (r : Reexport) : Prop where
  named : ∀ s statement imports,
    NamedExport s statement r.sourceName r.exportName r.sourceModule →
    s.statementReexports imports statement = [r]
  whole : r.sourceName = wildcard → ∀ s statement word imports,
    WholeExport s statement word r.sourceModule → word.nameText s.bytes = r.exportName →
    s.statementReexports imports statement =
      if word.kind = "default" ∨ r.exportName = "" then [] else [r]

section
variable {s : Source} {statement clause spec value word part : Node} {imports : List Import}

theorem importOf?_eq_some : importOf? imports l = some i ↔ StandsFor imports l i := by
  rw [importOf?, List.find?_eq_some_iff_append]
  simp only [Bool.and_eq_true, Bool.not_eq_true', beq_iff_eq, Bool.not_and, Bool.not_not,
    Bool.or_eq_true, beq_eq_false_iff_ne, StandsFor]
  constructor
  · rintro ⟨⟨loads, same⟩, before, after, split, others⟩
    exact ⟨before, after, split, loads, same, others⟩
  · rintro ⟨before, after, split, loads, same, others⟩
    exact ⟨⟨loads, same⟩, before, after, split, others⟩

theorem importOf?_eq_none (own : ∀ i, ¬ StandsFor imports l i) : importOf? imports l = none := by
  rw [Option.eq_none_iff_forall_ne_some]
  exact fun i h => own i (importOf?_eq_some.1 h)

theorem exportName_ne_empty (h : i ∈ s.importsAt v) (loads : i.isSideEffect = false)
    (given : i.localName ≠ "") : i.exportName ≠ "" := by
  have whole : wildcard ≠ "" := by decide
  have default : defaultName ≠ "" := by decide
  rcases exists_binds h with only | ⟨b, binds⟩
  · cases only.symm.trans loads
  cases binds with
  | clause _ _ _ _ brings =>
    cases brings with
    | default => exact default
    | whole => exact whole
    | named _ _ _ _ _ _ name => exact name
    | renamed _ _ _ _ _ name => exact name
  | assigned => exact whole
  | declared => exact whole
  | pattern _ _ _ _ _ _ takes =>
    cases takes with
    | shorthand => exact given
    | shorthandDefault => exact given
    | property _ _ key => exact key
    | propertyDefault _ _ key => exact key

theorem Exports.specifierReexport? (h : Exports s spec name exported) :
    s.specifierReexport? imports source spec = if name = "" then none else match source with
      | some module => some ⟨exported, module, name⟩
      | none => (importOf? imports name).map fun i => ⟨exported, i.module, i.exportName⟩ := by
  unfold Source.specifierReexport?
  cases h with
  | plain hn ha =>
    rw [hn, ha]
    rfl
  | renamed hn ha =>
    rw [hn, ha]
    rfl

theorem static_of_source (h : ∃ b, statement.field? "source" = some b ∧ Literal s b module) :
    (statement.field? "source").bind (·.staticText? s.bytes) = some module := by
  obtain ⟨b, hb, literal⟩ := h
  rw [hb]
  exact staticText?_eq_some.2 literal

theorem NamedExport.statementReexports (h : NamedExport s statement name exported module)
    (given : name ≠ "") : s.statementReexports imports statement = [⟨exported, module, name⟩] := by
  obtain ⟨clause, spec, hc, only, exports⟩ := h.names
  rw [Source.statementReexports, static_of_source h.source, h.notWhole, hc]
  dsimp only
  rw [only, List.filterMap_cons, exports.specifierReexport?, if_neg given]
  rfl

/-- The keyword `default` is not found as the name of a module. -/
theorem moduleExportName_eq
    (only : part.children.filter (fun c => moduleNames.contains c.kind) = [word])
    (named : word.named = true ↔ word.kind ≠ "default") :
    s.moduleExportName part = if word.kind = "default" then "" else word.nameText s.bytes := by
  have kind : word.kind ∈ moduleNames := by
    have inside : word ∈ [word] := List.mem_singleton_self word
    rw [← only] at inside
    exact List.contains_iff_mem.1 (List.mem_filter.1 inside).2
  have found : part.namedChildren.find? (fun c => c.kind == "identifier" || c.kind == "string") =
      [word].find? fun c => c.named && (c.kind == "identifier" || c.kind == "string") := by
    rw [Node.namedChildren, List.find?_filter, ← only, List.find?_filter]
    refine congrArg (part.children.find? ·) (funext fun c => ?_)
    rw [decide_eq_decide, Bool.and_eq_true, Bool.or_eq_true, beq_iff_eq, beq_iff_eq,
      iff_and_self]
    rintro ⟨_, kind | kind⟩ <;> rw [kind] <;> decide
  rw [Source.moduleExportName, found, List.find?_singleton]
  by_cases keyword : word.kind = "default"
  · have unnamed : word.named = false := Bool.eq_false_iff.2 fun h => named.1 h keyword
    rw [if_pos keyword, unnamed]
    rfl
  · have kinds : (word.kind == "identifier" || word.kind == "string") = true := by
      rw [Bool.or_eq_true, beq_iff_eq, beq_iff_eq]
      simpa [moduleNames, keyword] using kind
    rw [if_neg keyword, named.2 keyword, kinds]
    rfl

theorem WholeExport.statementReexports (h : WholeExport s statement word module) :
    s.statementReexports imports statement =
      if word.kind = "default" ∨ word.nameText s.bytes = "" then []
      else [⟨word.nameText s.bytes, module, wildcard⟩] := by
  obtain ⟨part, hp, only⟩ := h.whole
  rw [Source.statementReexports, static_of_source h.source, hp]
  dsimp only
  rw [moduleExportName_eq only h.named_iff]
  by_cases keyword : word.kind = "default"
  · rw [if_pos keyword, if_pos rfl, if_pos (.inl keyword)]
  · rw [if_neg keyword]
    exact if_congr (or_iff_right keyword).symm rfl rfl

theorem restated (given : r.sourceName ≠ "") : Restated r where
  named s statement imports h := h.statementReexports given
  whole hr s statement word imports h name := by
    rw [h.statementReexports, name, ← hr]

theorem StandsFor.restated {p : ParsedSource}
    (h : StandsFor (FileFacts.ofParsed p).imports l i) (given : l ≠ "") (exported : String) :
    Restated ⟨exported, i.module, i.exportName⟩ := by
  obtain ⟨before, after, split, loads, same, _⟩ := h
  have imported : i ∈ (FileFacts.ofParsed p).imports := by
    rw [split]
    exact List.mem_append_right before List.mem_cons_self
  obtain ⟨v, _, hi⟩ := List.mem_flatMap.1 imported
  exact Facts.restated (exportName_ne_empty hi loads (same ▸ given))

theorem LocalClause.statementReexports (h : LocalClause statement clause) :
    s.statementReexports imports statement =
      (clause.namedChildren.filter (·.kind == "export_specifier")).filterMap
        (s.specifierReexport? imports none) := by
  rw [Source.statementReexports, h.notWhole, h.names, h.sourceless]
  rfl

theorem LocalDefault.statementReexports (h : LocalDefault statement value) :
    s.statementReexports imports statement =
      ((importOf? imports (s.text value)).map fun i =>
        Reexport.mk defaultName i.module i.exportName).toList := by
  rw [Source.statementReexports, h.notWhole, h.notNames, h.sourceless, h.value_eq]
  exact if_pos ⟨h.keyword, h.identifier⟩

theorem reexportsAt_of_statement {v : Visit} (hk : v.node.kind = "export_statement") :
    s.reexportsAt imports v = s.statementReexports imports v.node := if_pos hk

end

end Facts

namespace FileFacts
open Facts

/-- A file passes on what its export statements contribute, each from all imports of the file. A
name that stands for an import contributes what the same export from the module of the import does,
and any other name nothing. Only for a module as a whole the two differ: exported from the module, it is
lost under the keyword `default` and under an empty name. -/
theorem reexports_of_imported (p : ParsedSource) :
    let s : Source := ⟨p.path, p.bytes⟩
    let f := ofParsed p
    f.reexports = p.root.visits.flatMap (s.reexportsAt f.imports) ∧
    (∀ (v : Visit) clause, LocalClause v.node clause →
      s.reexportsAt f.imports v =
        (clause.namedChildren.filter (·.kind == "export_specifier")).filterMap
          (s.specifierReexport? f.imports none) ∧
      ∀ spec l y, Exports s spec l y →
        (∀ i, StandsFor f.imports l i → l ≠ "" →
          s.specifierReexport? f.imports none spec = some ⟨y, i.module, i.exportName⟩ ∧
            Restated ⟨y, i.module, i.exportName⟩) ∧
        ((∀ i, ¬ StandsFor f.imports l i) → s.specifierReexport? f.imports none spec = none)) ∧
    ∀ (v : Visit) value, LocalDefault v.node value →
      (∀ i, StandsFor f.imports (s.text value) i → s.text value ≠ "" →
        s.reexportsAt f.imports v = [⟨defaultName, i.module, i.exportName⟩] ∧
          Restated ⟨defaultName, i.module, i.exportName⟩) ∧
      ((∀ i, ¬ StandsFor f.imports (s.text value) i) → s.reexportsAt f.imports v = []) := by
  intro s f
  refine ⟨rfl, fun v clause h => ⟨?_, fun spec l y exports => ⟨?_, ?_⟩⟩, fun v value h => ⟨?_, ?_⟩⟩
  · rw [reexportsAt_of_statement h.kind_eq, h.statementReexports]
  · intro i stands given
    rw [exports.specifierReexport?, if_neg given]
    dsimp only
    rw [importOf?_eq_some.2 stands]
    exact ⟨rfl, stands.restated given y⟩
  · intro own
    rw [exports.specifierReexport?]
    dsimp only
    rw [importOf?_eq_none own]
    exact ite_self _
  · intro i stands given
    rw [reexportsAt_of_statement h.kind_eq, h.statementReexports, importOf?_eq_some.2 stands]
    exact ⟨rfl, stands.restated given defaultName⟩
  · intro own
    rw [reexportsAt_of_statement h.kind_eq, h.statementReexports, importOf?_eq_none own]
    rfl

/-- `export {l as y}`, the specifier. -/
def renamingSpecifier : Node :=
  ⟨"export_specifier", true, none, 8, 14, [
    ⟨"identifier", true, some "name", 8, 9, []⟩,
    ⟨"as", false, none, 10, 12, []⟩,
    ⟨"identifier", true, some "alias", 13, 14, []⟩]⟩

def renamingClause : Node :=
  ⟨"export_clause", true, none, 7, 15, [
    ⟨"\x7b", false, none, 7, 8, []⟩,
    renamingSpecifier,
    ⟨"\x7d", false, none, 14, 15, []⟩]⟩

/-- `export {l as y}; import {e as l} from "p";` -/
def exportedFirst : ParsedSource where
  path := "a.js"
  language := .javascript
  bytes := "export \x7bl as y\x7d; import \x7be as l\x7d from \"p\";\n".toUTF8
  hasError := false
  root := ⟨"program", true, none, 0, 43, [
    ⟨"export_statement", true, none, 0, 16, [
      ⟨"export", false, none, 0, 6, []⟩,
      renamingClause,
      ⟨";", false, none, 15, 16, []⟩]⟩,
    ⟨"import_statement", true, none, 17, 42, [
      ⟨"import", false, none, 17, 23, []⟩,
      ⟨"import_clause", true, none, 24, 32, [
        ⟨"named_imports", true, none, 24, 32, [
          ⟨"\x7b", false, none, 24, 25, []⟩,
          ⟨"import_specifier", true, none, 25, 31, [
            ⟨"identifier", true, some "name", 25, 26, []⟩,
            ⟨"as", false, none, 27, 29, []⟩,
            ⟨"identifier", true, some "alias", 30, 31, []⟩]⟩,
          ⟨"\x7d", false, none, 31, 32, []⟩]⟩]⟩,
      ⟨"from", false, none, 33, 37, []⟩,
      ⟨"string", true, some "source", 38, 41, []⟩,
      ⟨";", false, none, 41, 42, []⟩]⟩]⟩

/-- `export {e as y} from "p";` -/
def exportedFrom : ParsedSource where
  path := "b.js"
  language := .javascript
  bytes := "export \x7be as y\x7d from \"p\";\n".toUTF8
  hasError := false
  root := ⟨"program", true, none, 0, 26, [
    ⟨"export_statement", true, none, 0, 25, [
      ⟨"export", false, none, 0, 6, []⟩,
      renamingClause,
      ⟨"from", false, none, 16, 20, []⟩,
      ⟨"string", true, some "source", 21, 24, []⟩,
      ⟨";", false, none, 24, 25, []⟩]⟩]⟩

/-- A name that is exported before it is imported is passed on as from its module. -/
theorem reexports_of_imported_later :
    let s : Source := ⟨exportedFirst.path, exportedFirst.bytes⟩
    let t : Source := ⟨exportedFrom.path, exportedFrom.bytes⟩
    ∃ v ∈ exportedFirst.root.visits, ∃ w ∈ exportedFrom.root.visits,
      LocalClause v.node renamingClause ∧ Exports s renamingSpecifier "l" "y" ∧
      NamedExport t w.node "e" "y" "p" ∧
      s.reexportsAt (ofParsed exportedFirst).imports v = [⟨"y", "p", "e"⟩] ∧
      t.reexportsAt (ofParsed exportedFrom).imports w = [⟨"y", "p", "e"⟩] := by
  intro s t
  let statement := (Visit.root exportedFirst.root).child 0
    (exportedFirst.root.children.get ⟨0, by decide⟩)
  let forwarding := (Visit.root exportedFrom.root).child 0
    (exportedFrom.root.children.get ⟨0, by decide⟩)
  let name := renamingSpecifier.children.get ⟨0, by decide⟩
  let exported := renamingSpecifier.children.get ⟨2, by decide⟩
  let source := forwarding.node.children.get ⟨3, by decide⟩
  have visited : statement ∈ exportedFirst.root.visits :=
    Visit.cons_below_subset (.head _) List.mem_cons_self
  have forwards : forwarding ∈ exportedFrom.root.visits :=
    Visit.cons_below_subset (.head _) List.mem_cons_self
  have here : LocalClause statement.node renamingClause := ⟨rfl, rfl, rfl, rfl⟩
  have exports : Exports s renamingSpecifier "l" "y" := by
    have l : name.nameText s.bytes = "l" := by decide +kernel
    have y : exported.nameText s.bytes = "y" := by decide +kernel
    exact l ▸ y ▸ .renamed rfl rfl
  have named : NamedExport t forwarding.node "e" "y" "p" := by
    have e : name.nameText t.bytes = "e" := by decide +kernel
    have y : exported.nameText t.bytes = "y" := by decide +kernel
    have literal : Literal t source "p" := staticText?_eq_some.1 (by decide +kernel)
    exact ⟨⟨source, rfl, literal⟩, rfl, renamingClause, renamingSpecifier, rfl, rfl,
      e ▸ y ▸ .renamed rfl rfl⟩
  have imports : (ofParsed exportedFirst).imports =
      [⟨"p", "e", "l", .named, ⟨"a.js", 1, 26⟩⟩] := by decide +kernel
  have stands : StandsFor (ofParsed exportedFirst).imports "l"
      ⟨"p", "e", "l", .named, ⟨"a.js", 1, 26⟩⟩ := ⟨[], [], imports, rfl, rfl, nofun⟩
  obtain ⟨all, each⟩ :=
    (reexports_of_imported exportedFirst).2.1 statement renamingClause here
  obtain ⟨one, restated⟩ := (each renamingSpecifier "l" "y" exports).1 _ stands (by decide)
  refine ⟨statement, visited, forwarding, forwards, here, exports, named, ?_, ?_⟩
  · have only : renamingClause.namedChildren.filter (·.kind == "export_specifier") =
        [renamingSpecifier] := rfl
    rw [all, only, List.filterMap_cons, one]
    rfl
  · rw [reexportsAt_of_statement rfl]
    exact restated.named t forwarding.node _ named

/-- `import * as n from "p"; export default n;` -/
def wholeAsLocal : ParsedSource where
  path := "a.js"
  language := .javascript
  bytes := "import * as n from \"p\"; export default n;\n".toUTF8
  hasError := false
  root := ⟨"program", true, none, 0, 42, [
    ⟨"import_statement", true, none, 0, 23, [
      ⟨"import", false, none, 0, 6, []⟩,
      ⟨"import_clause", true, none, 7, 13, [
        ⟨"namespace_import", true, none, 7, 13, [
          ⟨"*", false, none, 7, 8, []⟩,
          ⟨"as", false, none, 9, 11, []⟩,
          ⟨"identifier", true, none, 12, 13, []⟩]⟩]⟩,
      ⟨"from", false, none, 14, 18, []⟩,
      ⟨"string", true, some "source", 19, 22, []⟩,
      ⟨";", false, none, 22, 23, []⟩]⟩,
    ⟨"export_statement", true, none, 24, 41, [
      ⟨"export", false, none, 24, 30, []⟩,
      ⟨"default", false, none, 31, 38, []⟩,
      ⟨"identifier", true, some "value", 39, 40, []⟩,
      ⟨";", false, none, 40, 41, []⟩]⟩]⟩

/-- `export * as default from "p";` -/
def wholeAsDefault : ParsedSource where
  path := "b.js"
  language := .javascript
  bytes := "export * as default from \"p\";\n".toUTF8
  hasError := false
  root := ⟨"program", true, none, 0, 30, [
    ⟨"export_statement", true, none, 0, 29, [
      ⟨"export", false, none, 0, 6, []⟩,
      ⟨"namespace_export", true, none, 7, 19, [
        ⟨"*", false, none, 7, 8, []⟩,
        ⟨"as", false, none, 9, 11, []⟩,
        ⟨"default", false, none, 12, 19, []⟩]⟩,
      ⟨"from", false, none, 20, 24, []⟩,
      ⟨"string", true, some "source", 25, 28, []⟩,
      ⟨";", false, none, 28, 29, []⟩]⟩]⟩

/-- A module that is imported as a whole is passed on as the default, and one that is exported as
the default is not. -/
theorem reexports_of_whole_as_default :
    let s : Source := ⟨wholeAsLocal.path, wholeAsLocal.bytes⟩
    let t : Source := ⟨wholeAsDefault.path, wholeAsDefault.bytes⟩
    (∃ v ∈ wholeAsLocal.root.visits, ∃ value i, LocalDefault v.node value ∧
      StandsFor (ofParsed wholeAsLocal).imports (s.text value) i ∧ s.text value ≠ "" ∧
      i.module = "p" ∧ i.exportName = wildcard) ∧
    (∃ w ∈ wholeAsDefault.root.visits, ∃ word, WholeExport t w.node word "p" ∧
      word.nameText t.bytes = defaultName) ∧
    (ofParsed wholeAsLocal).reexports = [⟨defaultName, "p", wildcard⟩] ∧
    (ofParsed wholeAsDefault).reexports = [] := by
  intro s t
  let statement := (Visit.root wholeAsLocal.root).child 1
    (wholeAsLocal.root.children.get ⟨1, by decide⟩)
  let value := statement.node.children.get ⟨2, by decide⟩
  let forwarding := (Visit.root wholeAsDefault.root).child 0
    (wholeAsDefault.root.children.get ⟨0, by decide⟩)
  let part := forwarding.node.children.get ⟨1, by decide⟩
  let word := part.children.get ⟨2, by decide⟩
  let source := forwarding.node.children.get ⟨3, by decide⟩
  have visited : statement ∈ wholeAsLocal.root.visits :=
    Visit.cons_below_subset (.tail _ (.head _)) List.mem_cons_self
  have forwards : forwarding ∈ wholeAsDefault.root.visits :=
    Visit.cons_below_subset (.head _) List.mem_cons_self
  have exporting : LocalDefault statement.node value := ⟨rfl, rfl, rfl, rfl, rfl, rfl, rfl⟩
  have imports : (ofParsed wholeAsLocal).imports =
      [⟨"p", "*", "n", .wholeModule, ⟨"a.js", 1, 8⟩⟩] := by decide +kernel
  have n : s.text value = "n" := by decide +kernel
  have literal : Literal t source "p" := staticText?_eq_some.1 (by decide +kernel)
  have whole : WholeExport t forwarding.node word "p" :=
    ⟨⟨source, rfl, literal⟩, ⟨part, rfl, rfl⟩, by decide⟩
  refine ⟨⟨statement, visited, value, _, exporting, ⟨[], [], imports, rfl, n.symm, nofun⟩, ?_,
    rfl, rfl⟩, ⟨forwarding, forwards, word, whole, by decide +kernel⟩, by decide +kernel,
    by decide +kernel⟩
  rw [n]
  decide

end FileFacts

end PackageUsage
