import PackageUsage.Proofs.DiscoveredRoots
import PackageUsage.Proofs.LoaderCalls

namespace PackageUsage
set_option autoImplicit true
open Syntax

namespace Facts

/-- The module that an import statement names, in its source or in what it assigns. -/
inductive NamesModule (s : Source) (v : Visit) : String → Prop
  | source : v.inRole? "source" = some b → Literal s b.node module → NamesModule s v module
  | assigned : v.inRole? "source" = none → v.namedChild? "import_require_clause" = some clause →
      clause.inRole? "source" = some b → Literal s b.node module → NamesModule s v module

/-- A part of an import clause that names something: a default, a module as a whole, or an export by
a name of at least one character. -/
inductive NamesSomething (s : Source) (part : Visit) : Prop
  | default : part.node.kind = "identifier" → NamesSomething s part
  | whole : part.node.kind = "namespace_import" → NamesSomething s part
  | named : part.node.kind = "named_imports" → spec ∈ part.namedChildren →
      spec.node.kind = "import_specifier" →
      Node.nameOf s.bytes (spec.node.field? "name") ≠ "" → NamesSomething s part

end Facts

/-- A module that is imported as a whole or assigned has a name in the file. -/
def ParsedSource.NamesModules (p : ParsedSource) : Prop :=
  ∀ v ∈ p.root.visits, v.node.kind ∈ ["namespace_import", "import_require_clause"] →
    (v.node.namedChild? "identifier").isSome = true

instance (p : ParsedSource) : Decidable p.NamesModules :=
  inferInstanceAs (Decidable (∀ v ∈ p.root.visits,
    v.node.kind ∈ ["namespace_import", "import_require_clause"] →
      (v.node.namedChild? "identifier").isSome = true))

namespace Facts
section
variable {s : Source} {v part clause : Visit}

theorem Brings.module_eq (h : Brings s module part i b) : i.module = module := by
  cases h <;> rfl

theorem exists_brings_iff (named : part.node.kind = "namespace_import" →
    (part.node.namedChild? "identifier").isSome = true) :
    (∃ i b, Brings s module part i b) ↔ NamesSomething s part := by
  constructor
  · rintro ⟨i, b, h⟩
    cases h with
    | default hk => exact .default hk
    | whole hk => exact .whole hk
    | named hk hs kind _ hb hn given =>
      refine .named hk hs kind ?_
      rw [Visit.node_of_inRole? hb]
      exact fun empty => given (hn.symm.trans empty)
    | renamed hk hs kind _ hn given => exact .named hk hs kind fun empty => given (hn ▸ empty)
  · intro h
    cases h with
    | default hk => exact ⟨_, part, .default hk⟩
    | whole hk =>
      obtain ⟨n, hn⟩ := Option.isSome_iff_exists.1 (named hk)
      obtain ⟨b, hb, _⟩ := Visit.exists_namedChild? hn
      exact ⟨_, b, .whole hk hb⟩
    | named hk hs kind given =>
      exact ⟨_, Brings.of_specifier hk hs kind (specifierImport?_eq_some.2 ⟨_, rfl, given, rfl⟩)⟩

theorem statementImports_of_clause (hm : v.inRole? "source" = some b)
    (literal : Literal s b.node module) (hc : v.namedChild? "import_clause" = some clause) :
    s.statementImports v.node = clause.node.namedChildren.flatMap (s.clauseImports module) := by
  rw [Source.statementImports, Visit.node_of_inRole? hm, Option.bind_some,
    staticText?_eq_some.2 literal]
  dsimp only
  rw [Visit.node_of_namedChild? hc]

theorem statementImports_of_source (hm : v.inRole? "source" = some b)
    (literal : Literal s b.node module) (hc : v.namedChild? "import_clause" = none) :
    s.statementImports v.node = [s.whole module wildcard v.node] := by
  rw [Source.statementImports, Visit.node_of_inRole? hm, Option.bind_some,
    staticText?_eq_some.2 literal]
  dsimp only
  rw [← Visit.map_node_namedChild?, hc]
  rfl

theorem statementImports_of_assigned (hs : v.inRole? "source" = none)
    (hc : v.namedChild? "import_require_clause" = some clause)
    (hm : clause.inRole? "source" = some b) (literal : Literal s b.node module)
    (hn : clause.node.namedChild? "identifier" = some name) :
    s.statementImports v.node = [s.whole module (s.text name) name] := by
  rw [Source.statementImports, Visit.inRole?_eq_none.1 hs, Visit.node_of_namedChild? hc]
  change s.assignedImports clause.node = _
  rw [Source.assignedImports, Visit.node_of_inRole? hm, Option.bind_some,
    staticText?_eq_some.2 literal, hn]

theorem mem_importsOf_clause : i ∈ clause.node.namedChildren.flatMap (s.clauseImports module) ↔
    ∃ part ∈ clause.namedChildren, ∃ b, Brings s module part i b := by
  rw [List.mem_flatMap]
  constructor
  · rintro ⟨n, hn, hi⟩
    obtain ⟨part, hp, rfl⟩ := Visit.exists_mem_namedChildren hn
    exact ⟨part, hp, mem_clauseImports.1 hi⟩
  · rintro ⟨part, hp, brings⟩
    exact ⟨part.node, Visit.map_node_namedChildren clause ▸ List.mem_map_of_mem hp,
      mem_clauseImports.2 brings⟩

theorem importsOf_clause_eq_nil_iff (named : ∀ part ∈ clause.namedChildren,
    part.node.kind = "namespace_import" → (part.node.namedChild? "identifier").isSome = true) :
    clause.node.namedChildren.flatMap (s.clauseImports module) = [] ↔
      ∀ part ∈ clause.namedChildren, ¬ NamesSomething s part := by
  rw [List.eq_nil_iff_forall_not_mem]
  constructor
  · intro none part hp something
    have brings : ∃ i b, Brings s module part i b :=
      (exists_brings_iff (named part hp)).2 something
    obtain ⟨i, brings⟩ := brings
    exact none i (mem_importsOf_clause.2 ⟨part, hp, brings⟩)
  · intro nothing i hi
    obtain ⟨part, hp, brings⟩ := mem_importsOf_clause.1 hi
    exact nothing part hp ((exists_brings_iff (named part hp)).1 ⟨i, brings⟩)

theorem importsAt_of_statement (hk : v.node.kind = "import_statement") :
    s.importsAt v = s.statementImports v.node := if_pos hk

end
end Facts

theorem Inventory.listed_or_missing (hi : ofFacts t repository facts = .ok i)
    (hf : f ∈ facts.files) (imports : imp ∈ f.imports)
    (named : Specifier.package? imp.module = some name) :
    name ∈ i.names ∨ missingWarning name ∈ i.warnings := by
  rcases ofFacts_cases t repository facts with ⟨j, sightings, he, h, answers⟩ | ⟨e, he, _⟩
  · cases hi.symm.trans he
    have request := mem_requests.2 ⟨f, hf, rfl, imp, imports, named⟩
    obtain ⟨⟨n, seen⟩, sighted, sees⟩ := exists_right_of_forall₂ answers request
    obtain ⟨rfl, _⟩ := sight_eq_ok_iff.1 sees
    by_cases found : i.rootsOf n = []
    · refine .inr (h.missingWarning_mem.2 ⟨?_, found⟩)
      cases seen with
      | none => exact sighted
      | some root =>
        have known := h.rootsOf_ne_nil.2 (List.ne_nil_of_mem (mem_rootsIn.2 sighted))
        exact (known found).elim
    · exact .inl (h.mem_names.2 found)
  · cases hi.symm.trans he

namespace ParsedSource
open Facts

/-- An import statement that names a module brings in something of it, and nothing of any other, so
that its package is listed or reported as missing. It brings in nothing exactly if its source comes
after a clause that names nothing. -/
theorem importsAt_eq_nil_iff {p : ParsedSource} (names : p.NamesModules) (hv : v ∈ p.root.visits)
    (hk : v.node.kind = "import_statement") (hm : NamesModule ⟨p.path, p.bytes⟩ v module) :
    let s : Source := ⟨p.path, p.bytes⟩
    (∀ i ∈ s.importsAt v, i.module = module) ∧
      (s.importsAt v = [] ↔ (v.inRole? "source").isSome = true ∧
        ∃ clause, v.namedChild? "import_clause" = some clause ∧
          ∀ part ∈ clause.namedChildren, ¬ NamesSomething s part) ∧
      (s.importsAt v ≠ [] → ∀ t repository facts i name,
        FileFacts.ofParsed p ∈ facts.files → Inventory.ofFacts t repository facts = .ok i →
        Specifier.package? module = some name →
        name ∈ i.names ∨ Inventory.missingWarning name ∈ i.warnings) := by
  intro s
  have inside {c d : Visit} (hc : c ∈ p.root.visits) (hd : d ∈ c.namedChildren) :
      d ∈ p.root.visits := Visit.namedChildren_subset_below hc hd
  have ofModule : (∀ i ∈ s.importsAt v, i.module = module) ∧
      (s.importsAt v = [] ↔ (v.inRole? "source").isSome = true ∧
        ∃ clause, v.namedChild? "import_clause" = some clause ∧
          ∀ part ∈ clause.namedChildren, ¬ NamesSomething s part) := by
    rw [importsAt_of_statement hk]
    cases hm with
    | source hb literal =>
      cases hc : v.namedChild? "import_clause" with
      | none =>
        rw [statementImports_of_source hb literal hc]
        refine ⟨fun i hi => ?_, iff_of_false nofun nofun⟩
        rw [List.mem_singleton.1 hi]
        rfl
      | some clause =>
        have child := inside hv (Visit.mem_of_namedChild? hc).1
        rw [statementImports_of_clause hb literal hc, importsOf_clause_eq_nil_iff
          fun part hp kind => names part (inside child hp) (by rw [kind]; decide)]
        refine ⟨fun i hi => ?_, fun nothing => ⟨hb ▸ rfl, clause, rfl, nothing⟩, ?_⟩
        · obtain ⟨part, _, b, brings⟩ := mem_importsOf_clause.1 hi
          exact brings.module_eq
        · rintro ⟨_, _, ⟨⟩, nothing⟩
          exact nothing
    | assigned hs hc hb literal =>
      obtain ⟨child, kind⟩ := Visit.mem_of_namedChild? hc
      obtain ⟨name, hn⟩ := Option.isSome_iff_exists.1
        (names _ (inside hv child) (by rw [kind]; decide))
      rw [statementImports_of_assigned hs hc hb literal hn]
      refine ⟨fun i hi => ?_, iff_of_false nofun fun h => ?_⟩
      · rw [List.mem_singleton.1 hi]
        rfl
      · rw [hs] at h
        exact Bool.false_ne_true h.1
  refine ⟨ofModule.1, ofModule.2, fun given t repository facts i name hf hi named => ?_⟩
  obtain ⟨imp, brought⟩ := List.exists_mem_of_ne_nil _ given
  refine Inventory.listed_or_missing hi hf (List.mem_flatMap.2 ⟨v, hv, brought⟩) ?_
  rw [ofModule.1 imp brought]
  exact named

/-- A module that is imported as a whole is known to be imported. -/
theorem importsAt_of_whole_module :
    let p := Usage.wholeReader
    let s : Source := ⟨p.path, p.bytes⟩
    p.NamesModules ∧ ∃ v ∈ p.root.visits, v.node.kind = "import_statement" ∧
      NamesModule s v "p" ∧ s.importsAt v ≠ [] ∧ ∀ i ∈ s.importsAt v, i.module = "p" := by
  intro p s
  let statement := (Visit.root p.root).child 0 (p.root.children.get ⟨0, by decide⟩)
  let source := statement.child 3 (statement.node.children.get ⟨3, by decide⟩)
  let clause := statement.child 1 (statement.node.children.get ⟨1, by decide⟩)
  have names : p.NamesModules := by decide +kernel
  have visited : statement ∈ p.root.visits :=
    Visit.cons_below_subset (.head _) List.mem_cons_self
  have literal : Literal s source.node "p" :=
    staticText?_eq_some.1 (by decide +kernel)
  have named : NamesModule s statement "p" := .source rfl literal
  have brings := importsAt_eq_nil_iff names visited rfl named
  refine ⟨names, statement, visited, rfl, named, fun none => ?_, brings.1⟩
  obtain ⟨_, other, hc, nothing⟩ := brings.2.1.1 none
  cases (show statement.namedChild? "import_clause" = some clause from rfl).symm.trans hc
  exact nothing (clause.child 0 (clause.node.children.get ⟨0, by decide⟩)) (.head _) (.whole rfl)

/-- `import {} from "p";` -/
def emptyImport : ParsedSource where
  path := "a.js"
  language := .javascript
  bytes := "import \x7b\x7d from \"p\";\n".toUTF8
  hasError := false
  root := ⟨"program", true, none, 0, 20, [
    ⟨"import_statement", true, none, 0, 19, [
      ⟨"import", false, none, 0, 6, []⟩,
      ⟨"import_clause", true, none, 7, 9, [
        ⟨"named_imports", true, none, 7, 9, [
          ⟨"\x7b", false, none, 7, 8, []⟩,
          ⟨"\x7d", false, none, 8, 9, []⟩]⟩]⟩,
      ⟨"from", false, none, 10, 14, []⟩,
      ⟨"string", true, some "source", 15, 18, []⟩,
      ⟨";", false, none, 18, 19, []⟩]⟩]⟩

/-- A module that is imported without any of its names is loaded, and no inventory knows of it. -/
theorem importsAt_of_empty_clause :
    let p := emptyImport
    let s : Source := ⟨p.path, p.bytes⟩
    p.NamesModules ∧ (∃ v ∈ p.root.visits, v.node.kind = "import_statement" ∧
      NamesModule s v "p" ∧ s.importsAt v = []) ∧
      Specifier.package? "p" = some "p" ∧
      ∀ t repository, Inventory.ofFacts t repository ⟨[FileFacts.ofParsed p], []⟩ = .ok {} := by
  intro p s
  let statement := (Visit.root p.root).child 0 (p.root.children.get ⟨0, by decide⟩)
  let source := statement.child 3 (statement.node.children.get ⟨3, by decide⟩)
  have visited : statement ∈ p.root.visits :=
    Visit.cons_below_subset (.head _) List.mem_cons_self
  have literal : Literal s source.node "p" :=
    staticText?_eq_some.1 (by decide +kernel)
  refine ⟨by decide +kernel, ⟨statement, visited, rfl, .source rfl literal, by decide +kernel⟩,
    by decide +kernel, fun t repository => ?_⟩
  have none : (FileFacts.ofParsed p).imports = [] := by decide +kernel
  rw [Inventory.ofFacts_eq_foldlM, Inventory.requests, List.flatMap_singleton, none]
  rfl

end ParsedSource

end PackageUsage
