import PackageUsage.Facts.Extraction
import PackageUsage.Proofs.TalliedReferences

namespace PackageUsage
set_option autoImplicit true
open Syntax

/-- An import of a whole module or of a default has the name that stands for it. -/
structure Import.Titled (i : Import) : Prop where
  whole : i.kind = .wholeModule → i.exportName = wildcard
  byDefault : i.kind = .defaultExport → i.exportName = defaultName

namespace Facts.Source

theorem titled_whole (s : Source) (module localName : String) (place : Node) :
    (s.whole module localName place).Titled :=
  ⟨fun _ => rfl, nofun⟩

theorem titled_named (s : Source) (module exportName localName : String) (place : Node) :
    (s.named module exportName localName place).Titled :=
  ⟨nofun, nofun⟩

theorem titled_specifierImport? (s : Source) (h : s.specifierImport? module spec = some i) :
    i.Titled := by
  unfold specifierImport? at h
  dsimp only at h
  split at h
  · cases h
  · cases h
    exact s.titled_named _ _ _ _

theorem titled_clauseImports (s : Source) (hi : i ∈ s.clauseImports module part) : i.Titled := by
  unfold clauseImports at hi
  split at hi
  · cases List.mem_singleton.1 hi
    exact ⟨nofun, fun _ => rfl⟩
  split at hi
  · obtain ⟨_, _, rfl⟩ := Option.map_eq_some_iff.1 (Option.mem_toList.1 hi)
    exact s.titled_whole _ _ _
  split at hi
  · obtain ⟨_, _, h⟩ := List.mem_filterMap.1 hi
    exact s.titled_specifierImport? h
  · cases hi

theorem titled_assignedImports (s : Source) (hi : i ∈ s.assignedImports clause) : i.Titled := by
  unfold assignedImports at hi
  split at hi
  · cases List.mem_singleton.1 hi
    exact s.titled_whole _ _ _
  · cases hi

theorem titled_statementImports (s : Source) (hi : i ∈ s.statementImports statement) :
    i.Titled := by
  unfold statementImports at hi
  split at hi
  · cases hc : statement.namedChild? "import_require_clause" with
    | none =>
      rw [hc] at hi
      cases hi
    | some clause =>
      rw [hc] at hi
      exact s.titled_assignedImports hi
  split at hi
  · cases List.mem_singleton.1 hi
    exact s.titled_whole _ _ _
  · obtain ⟨_, _, hi⟩ := List.mem_flatMap.1 hi
    exact s.titled_clauseImports hi

theorem titled_patternImport? (s : Source) (h : s.patternImport? module part = some i) :
    i.Titled := by
  have named {exportName localName : String}
      (h : some (s.named module exportName localName part) = some i) : i.Titled := by
    cases h
    exact s.titled_named _ _ _ _
  unfold patternImport? at h
  split at h
  · exact named h
  split at h
  · split at h
    · split at h
      · exact named h
      · cases h
    · cases h
  split at h
  · dsimp only at h
    split at h
    · split at h
      · exact named h
      · cases h
    · cases h
  · cases h

theorem titled_callImports (s : Source) (hi : i ∈ s.callImports module call) : i.Titled := by
  have unbound (hi : i ∈ [s.whole module wildcard call.node]) : i.Titled := by
    cases List.mem_singleton.1 hi
    exact s.titled_whole _ _ _
  unfold callImports at hi
  dsimp only at hi
  split at hi
  · exact unbound hi
  split at hi
  · cases List.mem_singleton.1 hi
    exact s.titled_whole _ _ _
  split at hi
  · split at hi
    · exact unbound hi
    · obtain ⟨_, _, h⟩ := List.mem_filterMap.1 hi
      exact s.titled_patternImport? h
  · exact unbound hi

theorem titled_importsAt (s : Source) (hi : i ∈ s.importsAt v) : i.Titled := by
  unfold importsAt at hi
  split at hi
  · exact s.titled_statementImports hi
  split at hi
  · split at hi
    · exact s.titled_callImports hi
    · cases hi
  · cases hi

end Facts.Source

theorem FileFacts.titled_ofParsed (p : ParsedSource) (hi : i ∈ (ofParsed p).imports) :
    i.Titled := by
  obtain ⟨_, _, hi⟩ := List.mem_flatMap.1 hi
  exact Facts.Source.titled_importsAt _ hi

/-- The facts of every file are extracted from a source file. -/
def RepositoryFacts.Extracted (facts : RepositoryFacts) : Prop :=
  ∀ f ∈ facts.files, ∃ p, f = FileFacts.ofParsed p

theorem Resolver.attributionOf_wholeModule (r : Resolver) (importer package : String) {i : Import}
    (h : i.kind = .wholeModule) : (r.attributionOf importer i package).1 = none := by
  have none (m : Type → Type) [Monad m] (services : Attribution.Services m) :
      Attribution.ofImport services r.index importer i package = pure none := by
    rw [Attribution.ofImport, if_pos]
    rw [h, decide_eq_true rfl, Bool.or_true]
  rw [attributionOf, none]
  rfl

namespace Usage

@[simp] theorem kind_attributed (i : Import) (a : Option Attribution) :
    (attributed i a).kind = i.kind := by
  cases a <;> rfl

theorem exportName_of_wholeModule (h : facts.Extracted) (ho : o ∈ occurrences facts package)
    (hk : o.imported.kind = .wholeModule) : o.imported.exportName = wildcard := by
  obtain ⟨f, hf, ho⟩ := List.mem_flatMap.1 ho
  obtain ⟨i, hi, ho⟩ := List.mem_filterMap.1 ho
  obtain ⟨p, rfl⟩ := h f hf
  rw [occurrence?] at ho
  split at ho
  · cases ho
    rw [kind_attributed] at hk
    rw [Resolver.attributionOf_wholeModule _ _ _ hk]
    exact (FileFacts.titled_ofParsed p hi).whole hk
  · cases ho

end Usage

/-- Whether an import of the package names an export, by importing it or as a member that is
reached. -/
def Occurrence.Names (o : Occurrence) (name : String) : Prop :=
  if o.imported.kind = .named then o.isUsed = true ∧ o.imported.exportName = name
  else name ∈ (o.file.membersOf o.imported.localName).names

namespace Usage

theorem mem_usedExports_iff_names (package : String) (facts : RepositoryFacts)
    (hd : name ≠ defaultName) (hw : name ≠ wildcard) :
    name ∈ (ofFacts package facts).usedExports ↔
      ∃ o ∈ occurrences facts package, o.Names name := by
  rw [mem_usedExports_ofFacts]
  refine exists_congr fun o => and_congr_right fun _ => ?_
  rw [Occurrence.mem_names_references, Occurrence.Names]
  split
  · rw [eq_comm (a := name)]
  · refine or_iff_left ?_
    rintro ⟨_, rfl⟩
    split at hd
    · exact hd rfl
    · rename_i hk
      rw [if_neg hk] at hw
      exact hw rfl

theorem mem_unusedExports (u : Usage) (package : String) (surface : List String) :
    name ∈ (u.unusedExports package surface).map (·.name) ↔
      name ∈ surface ∧ name ∉ u.usedExports := by
  rw [unusedExports, List.map_map, usedExports, Text.mem_sort]
  simp only [Function.comp_def, List.map_id', Text.mem_sort, List.mem_filter, List.contains_eq_mem,
    Bool.not_eq_true', decide_eq_false_iff_not]

theorem exists_used_of_mem_usedImports (hv : v ∈ (ofFacts package facts).usedImports) :
    ∃ o ∈ occurrences facts package, o.isUsed = true ∧ o.key = v.key := by
  obtain ⟨u, warnings, listed, he⟩ := listed_ofFacts package facts
  rw [he] at hv
  obtain ⟨o, ho, hk⟩ := List.mem_map.1
    ((listed.used.sorted.keys v.key).1 (List.mem_map_of_mem hv))
  obtain ⟨ho, hu⟩ := List.mem_filter.1 ho
  exact ⟨o, ho, hu, hk⟩

/-- The name of an import in use is not that of an export out of use, unless all that use it import
a default. It then is one if and only if nothing else names the export. -/
theorem usedImports_apart_from_unusedExports (package : String) (h : facts.Extracted)
    (surface : List String) (hv : v ∈ (ofFacts package facts).usedImports)
    (hd : v.name ≠ defaultName) (hw : v.name ≠ wildcard) :
    let u := ofFacts package facts
    let os := occurrences facts package
    ((∀ o ∈ os, o.isUsed = true → o.key = v.key → o.imported.kind ≠ .defaultExport) →
      v.name ∈ u.usedExports ∧ v.name ∉ (u.unusedExports package surface).map (·.name)) ∧
    (v.name ∈ (u.unusedExports package surface).map (·.name) ↔
      v.name ∈ surface ∧ ∀ o ∈ os, ¬ o.Names v.name) := by
  have named := mem_usedExports_iff_names package facts hd hw
  constructor
  · intro hk
    obtain ⟨o, ho, hu, he⟩ := exists_used_of_mem_usedImports hv
    have name : o.imported.exportName = v.name := congrArg Prod.snd he
    have kind : o.imported.kind = .named := by
      cases hc : o.imported.kind with
      | named => rfl
      | defaultExport => exact (hk o ho hu he hc).elim
      | wholeModule => exact (hw (name.symm.trans (exportName_of_wholeModule h ho hc))).elim
    have inUse : v.name ∈ (ofFacts package facts).usedExports :=
      named.2 ⟨o, ho, by rw [Occurrence.Names, if_pos kind]; exact ⟨hu, name⟩⟩
    refine ⟨inUse, ?_⟩
    rw [mem_unusedExports]
    exact fun hm => hm.2 inUse
  · rw [mem_unusedExports, named]
    simp only [not_exists, not_and]

/-- `export { g as default } from "p";` -/
def defaultProvider : ParsedSource where
  path := "b.js"
  language := .javascript
  bytes := "export { g as default } from \"p\";\n".toUTF8
  hasError := false
  root := ⟨"program", true, none, 0, 34, [
    ⟨"export_statement", true, none, 0, 33, [
      ⟨"export", false, none, 0, 6, []⟩,
      ⟨"export_clause", true, none, 7, 23, [
        ⟨"\x7b", false, none, 7, 8, []⟩,
        ⟨"export_specifier", true, none, 9, 21, [
          ⟨"identifier", true, some "name", 9, 10, []⟩,
          ⟨"as", false, none, 11, 13, []⟩,
          ⟨"default", false, some "alias", 14, 21, []⟩]⟩,
        ⟨"\x7d", false, none, 22, 23, []⟩]⟩,
      ⟨"from", false, none, 24, 28, []⟩,
      ⟨"string", true, some "source", 29, 32, []⟩,
      ⟨";", false, none, 32, 33, []⟩]⟩]⟩

/-- `import { default as f } from "./b"; f();` -/
def namedImporter : ParsedSource where
  path := "a.js"
  language := .javascript
  bytes := "import { default as f } from \"./b\"; f();\n".toUTF8
  hasError := false
  root := ⟨"program", true, none, 0, 41, [
    ⟨"import_statement", true, none, 0, 35, [
      ⟨"import", false, none, 0, 6, []⟩,
      ⟨"import_clause", true, none, 7, 23, [
        ⟨"named_imports", true, none, 7, 23, [
          ⟨"\x7b", false, none, 7, 8, []⟩,
          ⟨"import_specifier", true, none, 9, 21, [
            ⟨"default", false, some "name", 9, 16, []⟩,
            ⟨"as", false, none, 17, 19, []⟩,
            ⟨"identifier", true, some "alias", 20, 21, []⟩]⟩,
          ⟨"\x7d", false, none, 22, 23, []⟩]⟩]⟩,
      ⟨"from", false, none, 24, 28, []⟩,
      ⟨"string", true, some "source", 29, 34, []⟩,
      ⟨";", false, none, 34, 35, []⟩]⟩,
    ⟨"expression_statement", true, none, 36, 40, [
      ⟨"call_expression", true, none, 36, 39, [
        ⟨"identifier", true, some "function", 36, 37, []⟩,
        ⟨"arguments", true, some "arguments", 37, 39, [
          ⟨"(", false, none, 37, 38, []⟩,
          ⟨")", false, none, 38, 39, []⟩]⟩]⟩,
      ⟨";", false, none, 39, 40, []⟩]⟩]⟩

/-- `import f from "./b"; f();` -/
def defaultImporter : ParsedSource where
  path := "a.js"
  language := .javascript
  bytes := "import f from \"./b\"; f();\n".toUTF8
  hasError := false
  root := ⟨"program", true, none, 0, 26, [
    ⟨"import_statement", true, none, 0, 20, [
      ⟨"import", false, none, 0, 6, []⟩,
      ⟨"import_clause", true, none, 7, 8, [
        ⟨"identifier", true, none, 7, 8, []⟩]⟩,
      ⟨"from", false, none, 9, 13, []⟩,
      ⟨"string", true, some "source", 14, 19, []⟩,
      ⟨";", false, none, 19, 20, []⟩]⟩,
    ⟨"expression_statement", true, none, 21, 25, [
      ⟨"call_expression", true, none, 21, 24, [
        ⟨"identifier", true, some "function", 21, 22, []⟩,
        ⟨"arguments", true, some "arguments", 22, 24, [
          ⟨"(", false, none, 22, 23, []⟩,
          ⟨")", false, none, 23, 24, []⟩]⟩]⟩,
      ⟨";", false, none, 24, 25, []⟩]⟩]⟩

/-- A default that is imported by its name is counted for the export that it comes down to. -/
theorem usedImports_apart_of_named_default :
    let facts : RepositoryFacts := { files := [.ofParsed namedImporter, .ofParsed defaultProvider] }
    let u := ofFacts "p" facts
    facts.Extracted ∧ ∃ v ∈ u.usedImports, v.name = "g" ∧ "g" ∈ u.usedExports ∧
      "g" ∉ (u.unusedExports "p" ["g"]).map (·.name) := by
  intro facts u
  have extracted : facts.Extracted :=
    List.forall_mem_cons.2 ⟨⟨_, rfl⟩, List.forall_mem_singleton.2 ⟨_, rfl⟩⟩
  have named : ∃ v ∈ u.usedImports, v.name = "g" ∧ ∀ o ∈ occurrences facts "p",
      o.isUsed = true → o.key = v.key → o.imported.kind ≠ .defaultExport := by
    decide +kernel
  obtain ⟨v, hv, hg, hk⟩ := named
  have apart := (usedImports_apart_from_unusedExports "p" extracted ["g"] hv
    (hg ▸ by decide) (hg ▸ by decide)).1 hk
  rw [hg] at apart
  exact ⟨extracted, v, hv, hg, apart⟩

/-- A default that is imported as such is counted for the default of the package, and the export
that it comes down to is out of use. -/
theorem usedImports_renamed_default_among_unusedExports :
    let facts : RepositoryFacts :=
      { files := [.ofParsed defaultImporter, .ofParsed defaultProvider] }
    let u := ofFacts "p" facts
    facts.Extracted ∧ (∃ v ∈ u.usedImports, v.name = "g") ∧ "g" ∉ u.usedExports ∧
      "g" ∈ (u.unusedExports "p" ["g"]).map (·.name) := by
  intro facts u
  constructor
  · exact List.forall_mem_cons.2 ⟨⟨_, rfl⟩, List.forall_mem_singleton.2 ⟨_, rfl⟩⟩
  · decide +kernel

end Usage

end PackageUsage
