import PackageUsage.Analysis.Basic
import PackageUsage.Proofs.ImportedNames
import PackageUsage.Proofs.PlacedVisits

namespace PackageUsage
set_option autoImplicit true
open Syntax

namespace Facts

/-- The text of a string, or of a template that computes no part of it. -/
inductive Literal (s : Source) (n : Node) : String → Prop
  | string : n.kind = "string" → Literal s n (Text.inner (s.text n))
  | template : n.kind = "template_string" →
      (∀ part ∈ n.namedChildren, part.kind ≠ "template_substitution") →
      Literal s n (Text.inner (s.text n))

/-- The loader that a call uses. -/
inductive Calls (s : Source) (v : Visit) : String → Prop
  | importing : v.node.kind = "call_expression" → v.inRole? "function" = some f →
      f.node.kind = "import" → Calls s v "import"
  | requiring : v.node.kind = "call_expression" → v.inRole? "function" = some f →
      f.node.kind = "identifier" → s.text f.node = "require" → Calls s v "require"

/-- The first argument of a call. Comments are none. -/
inductive Argument (v : Visit) : Visit → Prop
  | first : v.inRole? "arguments" = some arguments →
      arguments.namedChildren = comments ++ a :: others →
      (∀ c ∈ comments, c.node.kind = "comment") → a.node.kind ≠ "comment" → Argument v a

/-- A load whose module is computed, as it is listed. -/
inductive Computed (s : Source) (v : Visit) : DynamicImport → Prop
  | load : Calls s v loader → Argument v a → (∀ m, ¬ Literal s a.node m) →
      Computed s v ⟨loader, s.text a.node, s.locate v.node⟩

section
variable {s : Source} {v a : Visit} {n : Node}

theorem staticText?_eq_some : n.staticText? s.bytes = some m ↔ Literal s n m := by
  constructor
  · intro h
    rw [Node.staticText?] at h
    split at h
    · rename_i hk
      exact Option.some.inj h ▸ .string hk
    split at h
    · rename_i hk
      split at h
      · cases h
      · rename_i whole
        refine Option.some.inj h ▸ .template hk fun part hp kind => whole ?_
        exact List.any_eq_true.2 ⟨part, hp, beq_iff_eq.2 kind⟩
    · cases h
  · intro h
    rw [Node.staticText?]
    cases h with
    | string hk => exact if_pos hk
    | template hk whole =>
      have whole : n.namedChildren.any (·.kind == "template_substitution") = false :=
        List.any_eq_false.2 fun part hp kind => whole part hp (beq_iff_eq.1 kind)
      rw [if_neg (by rw [hk]; decide), if_pos hk, whole]
      rfl

theorem staticText?_eq_none : n.staticText? s.bytes = none ↔ ∀ m, ¬ Literal s n m := by
  rw [Option.eq_none_iff_forall_ne_some]
  exact forall_congr' fun m => not_congr staticText?_eq_some

theorem Calls.kind_eq (h : Calls s v loader) : v.node.kind = "call_expression" := by
  cases h with
  | importing hk => exact hk
  | requiring hk => exact hk

theorem loader?_eq_some (hk : v.node.kind = "call_expression") :
    s.loader? v.node = some loader ↔ Calls s v loader := by
  constructor
  · intro h
    obtain ⟨n, role, h⟩ := Option.bind_eq_some_iff.1 h
    obtain ⟨f, hf, rfl⟩ := Visit.exists_inRole? role
    split at h
    · rename_i kind
      cases h
      exact .importing hk hf kind
    split at h
    · rename_i required
      cases h
      exact .requiring hk hf required.1 required.2
    · cases h
  · intro h
    rw [Source.loader?]
    cases h with
    | importing _ hf kind =>
      rw [Visit.node_of_inRole? hf]
      exact if_pos kind
    | requiring _ hf kind name =>
      rw [Visit.node_of_inRole? hf, Option.bind_some, if_neg (by rw [kind]; decide)]
      exact if_pos ⟨kind, name⟩

theorem argument?_eq_some :
    Source.argument? v.node = some n ↔ ∃ a, Argument v a ∧ a.node = n := by
  have chosen (arguments : Visit) :
      arguments.node.namedChildren.find? (·.kind != "comment") =
        (arguments.namedChildren.find? (·.node.kind != "comment")).map (·.node) := by
    rw [← Visit.map_node_namedChildren, List.find?_map]
    rfl
  constructor
  · intro h
    obtain ⟨_, role, h⟩ := Option.bind_eq_some_iff.1 h
    obtain ⟨arguments, ha, rfl⟩ := Visit.exists_inRole? role
    rw [chosen] at h
    obtain ⟨a, found, rfl⟩ := Option.map_eq_some_iff.1 h
    obtain ⟨kind, comments, others, split, passed⟩ := List.find?_eq_some_iff_append.1 found
    refine ⟨a, .first ha split (fun c hc => ?_) (bne_iff_ne.1 kind), rfl⟩
    simpa using passed c hc
  · rintro ⟨a, ⟨ha, split, passed, kind⟩, rfl⟩
    rw [Source.argument?, Visit.node_of_inRole? ha, Option.bind_some, chosen]
    refine Option.map_eq_some_iff.2 ⟨a, List.find?_eq_some_iff_append.2 ?_, rfl⟩
    refine ⟨bne_iff_ne.2 kind, _, _, split, fun c hc => ?_⟩
    simpa using passed c hc

theorem load?_eq_some :
    s.load? v.node = some (loader, n) ↔ Calls s v loader ∧ ∃ a, Argument v a ∧ a.node = n := by
  rw [← argument?_eq_some, Source.load?]
  constructor
  · intro h
    split at h
    · rename_i hk
      split at h
      · rename_i hl ha
        cases h
        exact ⟨(loader?_eq_some hk).1 hl, ha⟩
      · cases h
    · cases h
  · rintro ⟨calls, ha⟩
    rw [if_pos calls.kind_eq, (loader?_eq_some calls.kind_eq).2 calls, ha]

theorem load?_eq_none (bare : ∀ a, ¬ Argument v a) : s.load? v.node = none := by
  rw [Option.eq_none_iff_forall_ne_some]
  rintro ⟨loader, n⟩ h
  obtain ⟨_, a, ha, _⟩ := load?_eq_some.1 h
  exact bare a ha

theorem Calls.not_statement (h : Calls s v loader) : v.node.kind ≠ "import_statement" := by
  rw [h.kind_eq]
  decide

theorem dynamicImportAt?_eq_some : s.dynamicImportAt? v = some d ↔ Computed s v d := by
  constructor
  · intro h
    rw [Source.dynamicImportAt?] at h
    split at h
    · cases h
    obtain ⟨⟨loader, n⟩, load, h⟩ := Option.bind_eq_some_iff.1 h
    obtain ⟨calls, a, ha, rfl⟩ := load?_eq_some.1 load
    dsimp only at h
    split at h
    · cases h
    · rename_i computed
      cases h
      exact .load calls ha (staticText?_eq_none.1 computed)
  · rintro ⟨calls, ha, computed⟩
    rw [Source.dynamicImportAt?, if_neg calls.not_statement,
      load?_eq_some.2 ⟨calls, _, ha, rfl⟩, Option.bind_some]
    dsimp only
    rw [staticText?_eq_none.2 computed]

theorem Takes.module_eq (h : Takes s module part i b) : i.module = module := by
  cases h <;> rfl

theorem callImports_ne_nil (s : Source) (module : String) (v : Visit) :
    s.callImports module v ≠ [] := by
  rw [Source.callImports]
  split
  · exact List.cons_ne_nil _ _
  split
  · exact List.cons_ne_nil _ _
  split
  · split
    · exact List.cons_ne_nil _ _
    · assumption
  · exact List.cons_ne_nil _ _

theorem module_of_mem_callImports (h : i ∈ s.callImports module v) : i.module = module := by
  have whole {localName : String} {place : Node} (h : i ∈ [s.whole module localName place]) :
      i.module = module := by
    rw [List.mem_singleton.1 h]
    rfl
  rw [Source.callImports] at h
  split at h
  · exact whole h
  rename_i name _
  split at h
  · exact whole h
  split at h
  · split at h
    · exact whole h
    · obtain ⟨n, hn, taken⟩ := List.mem_filterMap.1 h
      obtain ⟨part, rfl⟩ : ∃ part : Visit, part.node = n := ⟨.root n, rfl⟩
      obtain ⟨b, takes⟩ := patternImport?_eq_some.1 taken
      exact takes.module_eq
  · exact whole h

/-- What a call that uses a loader contributes: something of its module if that is written down, one
entry in the list if it is computed, and nothing if there is no argument. -/
structure Accounted (s : Source) (v : Visit) (loader : String) : Prop where
  written : ∀ a m, Argument v a → Literal s a.node m →
    s.importsAt v ≠ [] ∧ (∀ i ∈ s.importsAt v, i.module = m) ∧ s.dynamicImportAt? v = none
  computed : ∀ a, Argument v a → (∀ m, ¬ Literal s a.node m) →
    s.importsAt v = [] ∧ s.dynamicImportAt? v = some ⟨loader, s.text a.node, s.locate v.node⟩
  idle : (∀ a, ¬ Argument v a) → s.importsAt v = [] ∧ s.dynamicImportAt? v = none

theorem Calls.accounted (h : Calls s v loader) : Accounted s v loader where
  written a m ha hm := by
    have load : s.load? v.node = some (loader, a.node) := load?_eq_some.2 ⟨h, a, ha, rfl⟩
    have static := staticText?_eq_some.2 hm
    rw [importsAt_of_load load static]
    refine ⟨callImports_ne_nil s m v, fun i => module_of_mem_callImports, ?_⟩
    rw [Source.dynamicImportAt?, if_neg h.not_statement, load, Option.bind_some]
    dsimp only
    rw [static]
  computed a ha hm := by
    have load : s.load? v.node = some (loader, a.node) := load?_eq_some.2 ⟨h, a, ha, rfl⟩
    refine ⟨?_, dynamicImportAt?_eq_some.2 (.load h ha hm)⟩
    rw [Source.importsAt, if_neg h.not_statement, load]
    dsimp only
    rw [staticText?_eq_none.2 hm]
  idle bare := by
    rw [Source.importsAt, Source.dynamicImportAt?, if_neg h.not_statement,
      if_neg h.not_statement, load?_eq_none bare]
    exact ⟨rfl, rfl⟩

end

end Facts

/-- The computed loads of a file in the order of the walk, each with its entry in the list. -/
structure ParsedSource.ComputedLoads (p : ParsedSource) (calls : List Visit) : Prop where
  ascending : calls.Pairwise fun v w => v.place < w.place
  complete : ∀ v, v ∈ calls ↔
    v ∈ p.root.visits ∧ ∃ d, Facts.Computed ⟨p.path, p.bytes⟩ v d
  listed : List.Forall₂ (Facts.Computed ⟨p.path, p.bytes⟩) calls
    (FileFacts.ofParsed p).dynamicImports

theorem forall₂_filterMap {f : α → Option β} {r : α → β → Prop}
    (h : ∀ a b, f a = some b → r a b) (as : List α) :
    List.Forall₂ r (as.filter fun a => (f a).isSome) (as.filterMap f) := by
  induction as with
  | nil => exact .nil
  | cons a as ih =>
    cases ha : f a with
    | none =>
      rw [List.filterMap_cons_none ha, List.filter_cons_of_neg (by rw [ha]; exact nofun)]
      exact ih
    | some b =>
      rw [List.filterMap_cons_some ha, List.filter_cons_of_pos (by rw [ha]; rfl)]
      exact .cons (h a b ha) ih

theorem ParsedSource.computedLoads_filter (p : ParsedSource) :
    p.ComputedLoads (p.root.visits.filter fun v =>
      (Facts.Source.dynamicImportAt? ⟨p.path, p.bytes⟩ v).isSome) where
  ascending := (Visit.root p.root).pairwise_below.filter _
  complete v := by
    rw [List.mem_filter, Option.isSome_iff_exists]
    exact and_congr_right fun _ => exists_congr fun d => Facts.dynamicImportAt?_eq_some
  listed := forall₂_filterMap
    (fun v d (h : Facts.Source.dynamicImportAt? _ v = some d) => Facts.dynamicImportAt?_eq_some.1 h)
    p.root.visits

namespace Analysis

theorem length_dynamicImports {calls : ParsedSource → List Visit} (sources : List ParsedSource)
    (warnings : List String) (h : ∀ p : ParsedSource, p.ComputedLoads (calls p)) :
    (RepositoryFacts.dynamicImports ⟨sources.map .ofParsed, warnings⟩).length =
      (sources.map fun p => (calls p).length).sum := by
  rw [RepositoryFacts.dynamicImports, List.flatMap_map, List.length_flatMap]
  exact congrArg List.sum (List.map_congr_left fun p _ => (h p).listed.length_eq.symm)

/-- Every call that uses a loader is accounted for: it brings in something of a module that is
written down, or it is listed once as a computed load, or it has no argument. The list has the
computed loads in the order of the walk, and their number is held against the limit. -/
theorem loads_accounted (sources : List ParsedSource) (warnings : List String) :
    let facts : RepositoryFacts := ⟨sources.map .ofParsed, warnings⟩
    (∀ p : ParsedSource, let s : Facts.Source := ⟨p.path, p.bytes⟩
      (FileFacts.ofParsed p).imports = p.root.visits.flatMap s.importsAt ∧
        (FileFacts.ofParsed p).dynamicImports = p.root.visits.filterMap s.dynamicImportAt? ∧
        ∀ v loader, Facts.Calls s v loader → Facts.Accounted s v loader) ∧
    ∃ calls : ParsedSource → List Visit, (∀ p : ParsedSource, p.ComputedLoads (calls p)) ∧
      ∀ (packages : List String) (r : Report) (limit : Amount),
        r.uncertainty = some (uncertainty facts packages) →
        let n := (sources.map fun p => (calls p).length).sum
        checkUncertainty r limit =
          if limit.atMost 0 || !limit.below n then .ok ()
          else .error (.tooUncertain n limit.text) := by
  intro facts
  refine ⟨fun p => ⟨rfl, rfl, fun v loader h => h.accounted⟩, ?_⟩
  refine ⟨_, ParsedSource.computedLoads_filter, fun packages r limit hr => ?_⟩
  dsimp only
  rw [← length_dynamicImports sources warnings ParsedSource.computedLoads_filter]
  have count : (uncertainty facts packages).uncertain = facts.dynamicImports.length := by
    refine congrArg Int.ofNat ?_
    rw [Location.sort, List.length_mergeSort, List.length_map]
  rw [checkUncertainty, hr]
  dsimp only
  rw [count]

/-- `import(x); require(y); require("p");` -/
def loaders : ParsedSource where
  path := "a.js"
  language := .javascript
  bytes := "import(x); require(y); require(\"p\");\n".toUTF8
  hasError := false
  root := ⟨"program", true, none, 0, 37, [
    ⟨"expression_statement", true, none, 0, 10, [
      ⟨"call_expression", true, none, 0, 9, [
        ⟨"import", true, some "function", 0, 6, []⟩,
        ⟨"arguments", true, some "arguments", 6, 9, [
          ⟨"(", false, none, 6, 7, []⟩,
          ⟨"identifier", true, none, 7, 8, []⟩,
          ⟨")", false, none, 8, 9, []⟩]⟩]⟩,
      ⟨";", false, none, 9, 10, []⟩]⟩,
    ⟨"expression_statement", true, none, 11, 22, [
      ⟨"call_expression", true, none, 11, 21, [
        ⟨"identifier", true, some "function", 11, 18, []⟩,
        ⟨"arguments", true, some "arguments", 18, 21, [
          ⟨"(", false, none, 18, 19, []⟩,
          ⟨"identifier", true, none, 19, 20, []⟩,
          ⟨")", false, none, 20, 21, []⟩]⟩]⟩,
      ⟨";", false, none, 21, 22, []⟩]⟩,
    ⟨"expression_statement", true, none, 23, 36, [
      ⟨"call_expression", true, none, 23, 35, [
        ⟨"identifier", true, some "function", 23, 30, []⟩,
        ⟨"arguments", true, some "arguments", 30, 35, [
          ⟨"(", false, none, 30, 31, []⟩,
          ⟨"string", true, none, 31, 34, []⟩,
          ⟨")", false, none, 34, 35, []⟩]⟩]⟩,
      ⟨";", false, none, 35, 36, []⟩]⟩]⟩

/-- Of three calls that load modules two are computed, which is more than one. -/
theorem loads_accounted_of_three :
    ((FileFacts.ofParsed loaders).imports.map (·.module) = ["p"] ∧
      (FileFacts.ofParsed loaders).dynamicImports.map (·.expression) = ["x", "y"]) ∧
    ∀ r : Report, r.uncertainty = some (uncertainty ⟨[loaders].map .ofParsed, []⟩ []) →
      checkUncertainty r (.whole 1) = .error (.tooUncertain 2 "1") ∧
        checkUncertainty r (.whole 2) = .ok () := by
  refine ⟨by decide +kernel, fun r hr => ?_⟩
  obtain ⟨-, calls, loads, gate⟩ := loads_accounted [loaders] []
  have two : (FileFacts.ofParsed loaders).dynamicImports.length = 2 := by decide +kernel
  rw [← (loads loaders).listed.length_eq] at two
  have one := gate [] r (.whole 1) hr
  have both := gate [] r (.whole 2) hr
  simp only [List.map_cons, List.map_nil, List.sum_cons, List.sum_nil, two] at one both
  exact ⟨one, both⟩

end Analysis

end PackageUsage
