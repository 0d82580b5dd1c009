import PackageUsage.Facts.Extraction
import PackageUsage.Proofs.NodeRoles
import PackageUsage.Proofs.TalliedReferences

namespace PackageUsage
set_option autoImplicit true
open Syntax

namespace Tally

theorem count_ofNames (names : List String) (name : String) :
    (ofNames names).count name = names.count name := by
  have from_ (t : Tally) :
      (names.foldl (fun t n => t.add n 1) t).count name = t.count name + names.count name := by
    induction names generalizing t with
    | nil => exact (Int.add_zero _).symm
    | cons k names ih =>
      rw [List.foldl_cons, ih, count_add, List.count_cons]
      split
      · rename_i he
        rw [he, beq_self_eq_true, if_pos rfl]
        omega
      · rename_i he
        rw [beq_eq_false_iff_ne.2 (Ne.symm he)]
        simp
  exact (from_ []).trans (Int.zero_add _)

theorem total_append (t t' : Tally) : total (t ++ t') = t.total + t'.total := by
  rw [total_eq_sum, List.map_append, List.sum_append, ← total_eq_sum, ← total_eq_sum]

end Tally

namespace Facts

theorem lookup_countMember (counts : List (String × Tally)) (k member l : String) :
    ((countMember counts k member).lookup l).getD [] =
      if l = k then ((counts.lookup l).getD []).add member 1 else (counts.lookup l).getD [] := by
  induction counts with
  | nil =>
    rw [countMember, List.lookup_cons]
    cases hl : l == k with
    | true => rw [if_pos (beq_iff_eq.1 hl)]; rfl
    | false => rw [if_neg (beq_eq_false_iff_ne.1 hl)]
  | cons e rest ih =>
    obtain ⟨k', t⟩ := e
    rw [countMember]
    split
    · rename_i hk
      subst hk
      rw [List.lookup_cons, List.lookup_cons]
      cases hl : l == k' with
      | true => rw [if_pos (beq_iff_eq.1 hl)]; rfl
      | false => rw [if_neg (beq_eq_false_iff_ne.1 hl)]
    · rename_i hk
      rw [List.lookup_cons, List.lookup_cons]
      cases hl : l == k' with
      | true => rw [if_neg fun h => hk ((beq_iff_eq.1 hl).symm.trans h)]
      | false => exact ih

/-- Of some members that are reached, those through a name make up its tally. -/
theorem total_foldl_countMember (refs : List (String × String)) (counts : List (String × Tally))
    (l : String) :
    (((refs.foldl (fun t (l, m) => countMember t l m) counts).lookup l).getD []).total =
      ((counts.lookup l).getD []).total + refs.countP (·.1 == l) := by
  induction refs generalizing counts with
  | nil => exact (Int.add_zero _).symm
  | cons r refs ih =>
    rw [List.foldl_cons, ih, lookup_countMember, List.countP_cons]
    split
    · rename_i hl
      rw [Tally.total_add, hl, beq_self_eq_true, if_pos rfl]
      omega
    · rename_i hl
      rw [beq_eq_false_iff_ne.2 (Ne.symm hl)]
      rfl

/-- Nodes that reach for a member of their object. -/
def memberKinds : List String := ["member_expression", "subscript_expression"]

theorem kind_of_memberAt? {s : Source} (h : s.memberAt? v = some r) :
    v.node.kind ∈ memberKinds ∧
      ∃ object, v.node.field? "object" = some object ∧ object.kind = "identifier" ∧
        s.text object = r.1 := by
  unfold Source.memberAt? at h
  dsimp only at h
  split at h
  · rename_i object name ho hn
    split at h
    · rename_i hi
      cases h
      refine ⟨?_, object, ho, hi.1, rfl⟩
      split at hn
      · rename_i hk
        exact hk ▸ List.mem_cons_self
      split at hn
      · rename_i hk
        exact hk ▸ List.mem_cons_of_mem _ List.mem_cons_self
      · cases hn
    · cases h
  · cases h

end Facts

/-- The object of a member that is reached, if it is a name, is a node of its own with a text. -/
def ParsedSource.Grammatical (p : ParsedSource) : Prop :=
  ∀ v ∈ p.root.visits, v.node.kind ∈ Facts.memberKinds →
    ∀ object ∈ v.node.field? "object", object.kind = "identifier" →
      object.named = true ∧ object.text p.bytes ≠ ""

instance (p : ParsedSource) : Decidable p.Grammatical :=
  inferInstanceAs (Decidable (∀ v ∈ p.root.visits, v.node.kind ∈ Facts.memberKinds →
    ∀ object ∈ v.node.field? "object", object.kind = "identifier" →
      object.named = true ∧ object.text p.bytes ≠ ""))

/-- The names that a file reads, once for each read. -/
def ParsedSource.readNames (p : ParsedSource) : List String :=
  p.root.visits.filterMap (Facts.Source.readAt? ⟨p.path, p.bytes⟩)

namespace Facts

theorem readAt?_child {s : Source} {v c : Visit} (hk : v.node.kind ∈ memberKinds)
    (hc : c ∈ v.children) (hi : c.node.kind = "identifier") :
    s.readAt? c = if s.text c.node = "" then none else some (s.text c.node) := by
  have binds : ∀ kind ∈ memberKinds, bindingParents.contains kind = false ∧
      bindingRole? kind = none ∧ kind ≠ "export_specifier" := by
    decide
  rw [readAt?_identifier hi, isRead_of_other (Visit.parent?_child hc) (binds _ hk)]
  by_cases given : s.text c.node = ""
  · simp [given]
  · simp [given]

/-- Whether a name is the object of a visited node that reaches for a member of it. The root of a
tree is not visited. -/
def Source.isObject (s : Source) (v : Visit) : Bool :=
  match v.parent? with
  | some parent => v.isField "object" && (s.memberAt? parent).isSome && parent.parent?.isSome
  | none => false

theorem isObject_child {s : Source} {v c : Visit} (hc : c ∈ v.children) :
    s.isObject c = (c.isField "object" && (s.memberAt? v).isSome && v.parent?.isSome) := by
  rw [Source.isObject, Visit.parent?_child hc]

/-- Of the names directly inside a node, one is read as the object of a member if a member is
reached through it, and none otherwise. -/
theorem countP_namedChildren_object {s : Source} {v : Visit} (inner : v.parent?.isSome = true)
    (given : l ≠ "") (named : (s.memberAt? v).isSome = true →
      ∀ object ∈ v.node.field? "object", object.named = true) :
    (v.namedChildren.countP fun c => s.readAt? c == some l && s.isObject c) =
      if (s.memberAt? v).any (·.1 == l) then 1 else 0 := by
  have apart : (v.namedChildren.countP fun c => s.readAt? c == some l && s.isObject c) =
      (v.inRole? "object").toList.countP fun c =>
        s.readAt? c == some l && (s.memberAt? v).isSome && c.node.named := by
    rw [← Visit.filter_isField, List.countP_filter, Visit.namedChildren, List.countP_filter]
    refine List.countP_congr fun c hc => ?_
    rw [isObject_child hc, inner]
    simp only [Bool.and_eq_true]
    tauto
  rw [apart]
  cases hm : s.memberAt? v with
  | none => exact List.countP_eq_zero.2 fun c _ => by simp
  | some r =>
    obtain ⟨hk, object, ho, hi, ht⟩ := kind_of_memberAt? hm
    have node := named (by rw [hm]; rfl) object ho
    obtain ⟨c, hc, rfl⟩ := Visit.exists_inRole? ho
    have read := readAt?_child (s := s) hk (Visit.isField_of_inRole? hc).2 hi
    rw [hc, Option.toList_some, List.countP_singleton, read, node, ht]
    by_cases same : r.1 = l
    · simp [same, given]
    · by_cases empty : r.1 = "" <;> simp [same, empty, Ne.symm given]

end Facts

namespace FileFacts

theorem count_reads_ofParsed (p : ParsedSource) (name : String) :
    (ofParsed p).reads.count name = p.readNames.count name :=
  Tally.count_ofNames _ name

theorem total_membersOf_ofParsed (p : ParsedSource) (l : String) :
    ((ofParsed p).membersOf l).total =
      p.root.visits.countP fun v =>
        (Facts.Source.memberAt? ⟨p.path, p.bytes⟩ v).any (·.1 == l) := by
  have total : ((ofParsed p).membersOf l).total =
      (p.root.visits.filterMap (Facts.Source.memberAt? ⟨p.path, p.bytes⟩)).countP (·.1 == l) :=
    (Facts.total_foldl_countMember _ [] l).trans (Int.zero_add _)
  rw [total, List.countP_filterMap]
  refine congrArg Int.ofNat (List.countP_congr fun v _ => ?_)
  cases Facts.Source.memberAt? ⟨p.path, p.bytes⟩ v with
  | none => exact Iff.rfl
  | some r => exact Iff.rfl

theorem total_membersOf_eq_countP {p : ParsedSource} (given : l ≠ "")
    (named : ∀ v ∈ p.root.visits, v.node.kind ∈ Facts.memberKinds →
      ∀ object ∈ v.node.field? "object", object.kind = "identifier" → object.named = true) :
    ((ofParsed p).membersOf l).total = p.root.visits.countP fun v =>
      Facts.Source.readAt? ⟨p.path, p.bytes⟩ v == some l &&
        Facts.Source.isObject ⟨p.path, p.bytes⟩ v := by
  have objects := (Visit.root p.root).countP_below_eq
    (q := fun v => Facts.Source.readAt? ⟨p.path, p.bytes⟩ v == some l &&
      Facts.Source.isObject ⟨p.path, p.bytes⟩ v) fun v hv => by
    refine Facts.countP_namedChildren_object (Visit.isSome_parent? hv) given fun reached => ?_
    obtain ⟨r, hr⟩ := Option.isSome_iff_exists.1 reached
    obtain ⟨hk, object, ho, hi, _⟩ := Facts.kind_of_memberAt? hr
    intro other hother
    cases ho.symm.trans hother
    exact named v hv hk object ho hi
  -- The root is not visited, so that no child of it is the object of what is.
  have top : (Visit.root p.root).namedChildren.countP (fun v =>
      Facts.Source.readAt? ⟨p.path, p.bytes⟩ v == some l &&
        Facts.Source.isObject ⟨p.path, p.bytes⟩ v) = 0 := by
    refine List.countP_eq_zero.2 fun c hc => ?_
    rw [Facts.isObject_child (Visit.mem_children_of_named hc)]
    simp [Visit.root, Visit.parent?]
  rw [top, Nat.zero_add] at objects
  rw [total_membersOf_ofParsed]
  exact congrArg Int.ofNat objects.symm

theorem total_membersOf_ofParsed_le {p : ParsedSource} (hg : p.Grammatical) (l : String) :
    0 ≤ ((ofParsed p).membersOf l).total ∧
      ((ofParsed p).membersOf l).total ≤ (ofParsed p).reads.count l := by
  have positive : 0 ≤ ((ofParsed p).membersOf l).total := by
    rw [total_membersOf_ofParsed]
    exact Int.natCast_nonneg _
  refine ⟨positive, ?_⟩
  rw [count_reads_ofParsed, ParsedSource.readNames, List.count, List.countP_filterMap]
  by_cases given : l = ""
  · have none : ((ofParsed p).membersOf l).total = 0 := by
      rw [total_membersOf_ofParsed]
      refine congrArg Int.ofNat (List.countP_eq_zero.2 fun v hv reached => ?_)
      obtain ⟨r, hr, same⟩ := (Option.any_eq_true ..).1 reached
      obtain ⟨hk, object, ho, hi, ht⟩ := Facts.kind_of_memberAt? hr
      exact (hg v hv hk object ho hi).2 (ht.trans ((beq_iff_eq.1 same).trans given))
    rw [none]
    exact Int.natCast_nonneg _
  · rw [total_membersOf_eq_countP given fun v hv hk object ho hi => (hg v hv hk object ho hi).1]
    refine Int.ofNat_le.2 (List.countP_mono_left fun v _ h => ?_)
    rw [beq_iff_eq.1 (Bool.and_eq_true_iff.1 h).1]
    exact beq_self_eq_true l

end FileFacts

/-- An import counts for every read of its name, as a member that the read reaches or as itself. -/
theorem Occurrence.total_references (o : Occurrence)
    (h : 0 ≤ (o.file.membersOf o.imported.localName).total ∧
      (o.file.membersOf o.imported.localName).total ≤ o.file.reads.count o.imported.localName) :
    o.references.total = o.file.reads.count o.imported.localName := by
  rw [references, Usage.references]
  split
  · dsimp only
    split
    · exact Int.add_zero _
    · exact (Int.le_antisymm (Int.not_lt.1 ‹_›) (h.1.trans h.2)).symm
  · have members : Tally.total
        ((o.file.membersOf o.imported.localName).mergeSort fun a b => Text.le a.1 b.1) =
          (o.file.membersOf o.imported.localName).total := by
      rw [Tally.total_eq_sum, Tally.total_eq_sum]
      exact ((List.mergeSort_perm _ _).map _).sum_eq
    have direct : o.file.directReads o.imported.localName =
        o.file.reads.count o.imported.localName -
          (o.file.membersOf o.imported.localName).total :=
      max_eq_right (Int.sub_nonneg.2 h.2)
    dsimp only
    split
    · rw [Tally.total_append, members, direct, Tally.total_eq_sum [_], List.map_singleton,
        List.sum_singleton]
      omega
    · rw [members]
      omega

theorem occurrence?_file (h : occurrence? facts package f i = some o) : o.file = f := by
  rw [occurrence?] at h
  split at h
  · cases h
    rfl
  · cases h

namespace Usage

/-- The names that the imports of the package bring into a file, once for each import. -/
def boundNames (facts : RepositoryFacts) (package : String) (f : FileFacts) : List String :=
  (f.imports.filterMap (occurrence? facts package f)).map (·.imported.localName)

/-- For every read of a name in some files, how many imports of the package bring the name into the
file. -/
def readBindings (facts : RepositoryFacts) (package : String) (sources : List ParsedSource) :
    List Nat :=
  sources.flatMap fun p => p.readNames.map (boundNames facts package (.ofParsed p)).count

theorem sum_map_count_cons (x : String) (xs ys : List String) :
    (ys.map (x :: xs).count).sum = ys.count x + (ys.map xs.count).sum := by
  induction ys with
  | nil => rfl
  | cons y ys ih =>
    rw [List.map_cons, List.sum_cons, ih, List.map_cons, List.sum_cons, List.count_cons,
      List.count_cons, BEq.comm (a := x)]
    omega

theorem sum_map_count_comm (xs ys : List String) :
    (xs.map ys.count).sum = (ys.map xs.count).sum := by
  induction xs with
  | nil =>
    simp only [List.count_nil, List.map_nil, List.map_const', List.sum_replicate_nat,
      Nat.mul_zero, List.sum_nil]
  | cons x xs ih => rw [sum_map_count_cons, List.map_cons, List.sum_cons, ih]

theorem total_references_of_file {p : ParsedSource} (hg : p.Grammatical) {os : List Occurrence}
    (hf : ∀ o ∈ os, o.file = .ofParsed p) :
    Tally.total (os.flatMap (·.references)) =
      ((os.map (·.imported.localName)).map p.readNames.count).sum := by
  induction os with
  | nil => rfl
  | cons o os ih =>
    obtain ⟨ho, hos⟩ := List.forall_mem_cons.1 hf
    have members := FileFacts.total_membersOf_ofParsed_le hg o.imported.localName
    rw [← ho] at members
    rw [List.flatMap_cons, Tally.total_append, ih hos, o.total_references members, ho,
      FileFacts.count_reads_ofParsed]
    simp only [List.map_cons, List.sum_cons, Int.natCast_add]

theorem total_references_of_sources (facts : RepositoryFacts) (package : String)
    {sources : List ParsedSource} (hg : ∀ p ∈ sources, p.Grammatical) :
    Tally.total (((sources.map FileFacts.ofParsed).flatMap fun f =>
      f.imports.filterMap (occurrence? facts package f)).flatMap (·.references)) =
        (readBindings facts package sources).sum := by
  induction sources with
  | nil => rfl
  | cons p sources ih =>
    obtain ⟨hp, hsources⟩ := List.forall_mem_cons.1 hg
    have file : ∀ o ∈ (FileFacts.ofParsed p).imports.filterMap
        (occurrence? facts package (.ofParsed p)), o.file = .ofParsed p := by
      intro o ho
      obtain ⟨_, _, ho⟩ := List.mem_filterMap.1 ho
      exact occurrence?_file ho
    rw [List.map_cons, List.flatMap_cons, List.flatMap_append, Tally.total_append, ih hsources,
      total_references_of_file hp file, ← boundNames, sum_map_count_comm, ← Int.natCast_add,
      ← List.sum_append]
    rfl

theorem sum_eq_countP_pos (ns : List Nat) :
    ns.countP (0 < ·) ≤ ns.sum ∧ (ns.sum = ns.countP (0 < ·) ↔ ∀ n ∈ ns, n ≤ 1) := by
  induction ns with
  | nil => exact ⟨Nat.le_refl _, fun _ => nofun, fun _ => rfl⟩
  | cons n ns ih =>
    rw [List.countP_cons, List.sum_cons, List.forall_mem_cons, ← ih.2]
    simp only [decide_eq_true_eq]
    split <;> omega

/-- Every read of a name is counted once for each import of the package that brings in the name. No
read that an import brings in is lost, and none is counted twice if and only if no name that is read
is brought into the same file by two imports. -/
theorem total_counts_eq_sum_readBindings (package : String) {sources : List ParsedSource}
    (hf : facts.files = sources.map .ofParsed) (hg : ∀ p ∈ sources, p.Grammatical) :
    let total := (ofFacts package facts).counts.total
    let bindings := readBindings facts package sources
    total = bindings.sum ∧ bindings.countP (0 < ·) ≤ total ∧
      (total = bindings.countP (0 < ·) ↔ ∀ n ∈ bindings, n ≤ 1) := by
  have total : (ofFacts package facts).counts.total =
      (readBindings facts package sources).sum := by
    rw [(tallied_ofFacts package facts).counts, Tally.total_addAll, occurrences, hf,
      total_references_of_sources facts package hg]
    exact Int.zero_add _
  obtain ⟨lower, once⟩ := sum_eq_countP_pos (readBindings facts package sources)
  refine ⟨total, ?_, ?_⟩
  · rw [total]
    exact Int.ofNat_le.2 lower
  · rw [total]
    exact Int.ofNat_inj.trans once

/-- `import * as n from "p"; n.a(n);` -/
def wholeReader : ParsedSource where
  path := "a.js"
  language := .javascript
  bytes := "import * as n from \"p\"; n.a(n);\n".toUTF8
  hasError := false
  root := ⟨"program", true, none, 0, 32, [
    ⟨"import_statement", true, none, 0, 23, [
      ⟨"import", false, none, 0, 6, []⟩,
      ⟨"import_clause", true, none, 7, 13, [
        ⟨"namespace_import", true, none, 7, 13, [
          ⟨"*", false, none, 7, 8, []⟩,
          ⟨"as", false, none, 9, 11, []⟩,
          ⟨"identifier", true, none, 12, 13, []⟩]⟩]⟩,
      ⟨"from", false, none, 14, 18, []⟩,
      ⟨"string", true, some "source", 19, 22, []⟩,
      ⟨";", false, none, 22, 23, []⟩]⟩,
    ⟨"expression_statement", true, none, 24, 31, [
      ⟨"call_expression", true, none, 24, 30, [
        ⟨"member_expression", true, some "function", 24, 27, [
          ⟨"identifier", true, some "object", 24, 25, []⟩,
          ⟨".", false, none, 25, 26, []⟩,
          ⟨"property_identifier", true, some "property", 26, 27, []⟩]⟩,
        ⟨"arguments", true, some "arguments", 27, 30, [
          ⟨"(", false, none, 27, 28, []⟩,
          ⟨"identifier", true, none, 28, 29, []⟩,
          ⟨")", false, none, 29, 30, []⟩]⟩]⟩,
      ⟨";", false, none, 30, 31, []⟩]⟩]⟩

/-- `var f = require("p"); f();` at an offset in a file. -/
def requiredAt (offset : Nat) : List Node := [
  ⟨"variable_declaration", true, none, offset, offset + 21, [
    ⟨"var", false, none, offset, offset + 3, []⟩,
    ⟨"variable_declarator", true, none, offset + 4, offset + 20, [
      ⟨"identifier", true, some "name", offset + 4, offset + 5, []⟩,
      ⟨"=", false, none, offset + 6, offset + 7, []⟩,
      ⟨"call_expression", true, some "value", offset + 8, offset + 20, [
        ⟨"identifier", true, some "function", offset + 8, offset + 15, []⟩,
        ⟨"arguments", true, some "arguments", offset + 15, offset + 20, [
          ⟨"(", false, none, offset + 15, offset + 16, []⟩,
          ⟨"string", true, none, offset + 16, offset + 19, []⟩,
          ⟨")", false, none, offset + 19, offset + 20, []⟩]⟩]⟩]⟩,
    ⟨";", false, none, offset + 20, offset + 21, []⟩]⟩,
  ⟨"expression_statement", true, none, offset + 22, offset + 26, [
    ⟨"call_expression", true, none, offset + 22, offset + 25, [
      ⟨"identifier", true, some "function", offset + 22, offset + 23, []⟩,
      ⟨"arguments", true, some "arguments", offset + 23, offset + 25, [
        ⟨"(", false, none, offset + 23, offset + 24, []⟩,
        ⟨")", false, none, offset + 24, offset + 25, []⟩]⟩]⟩,
    ⟨";", false, none, offset + 25, offset + 26, []⟩]⟩]

def requiredTwice : ParsedSource where
  path := "a.js"
  language := .javascript
  bytes := "var f = require(\"p\"); f();\nvar f = require(\"p\"); f();\n".toUTF8
  hasError := false
  root := ⟨"program", true, none, 0, 54, requiredAt 0 ++ requiredAt 27⟩

/-- One read reaches for a member and the other takes the module as a whole. -/
theorem total_counts_of_member_and_whole :
    let facts : RepositoryFacts := { files := [wholeReader].map .ofParsed }
    (∀ p ∈ [wholeReader], p.Grammatical) ∧
      (ofFacts "p" facts).counts = [("a", 1), ("*", 1)] ∧
      (ofFacts "p" facts).counts.total = 2 := by
  intro facts
  have grammatical : ∀ p ∈ [wholeReader], p.Grammatical := by decide +kernel
  have bindings : readBindings facts "p" [wholeReader] = [1, 1] := by decide +kernel
  have files : facts.files = [wholeReader].map .ofParsed := rfl
  have total := (total_counts_eq_sum_readBindings "p" files grammatical).1
  rw [bindings] at total
  exact ⟨grammatical, by decide +kernel, total⟩

/-- Two imports of a file that share a name both count for all reads of the name. -/
theorem total_counts_of_shared_name :
    let facts : RepositoryFacts := { files := [requiredTwice].map .ofParsed }
    (∀ p ∈ [requiredTwice], p.Grammatical) ∧
      (∀ o ∈ occurrences facts "p", o.provenance = []) ∧
      (readBindings facts "p" [requiredTwice]).countP (0 < ·) = 2 ∧
      (ofFacts "p" facts).counts.total = 4 := by
  decide +kernel

end Usage

end PackageUsage
