import PackageUsage.Proofs.GroupedImports
import PackageUsage.Proofs.ResolverHistory

namespace PackageUsage
set_option autoImplicit true

namespace Tally

def Positive (t : Tally) : Prop := ∀ e ∈ t, 0 < e.2

instance (t : Tally) : Decidable t.Positive := inferInstanceAs (Decidable (∀ e ∈ t, 0 < e.2))

theorem mem_names_add (t : Tally) (k : String) (n : Int) :
    name ∈ (t.add k n).names ↔ name = k ∨ name ∈ t.names := by
  induction t with
  | nil => exact List.mem_cons
  | cons e rest ih =>
    obtain ⟨k', m⟩ := e
    rw [add]
    split
    · rename_i hk
      simp only [names, List.map_cons, List.mem_cons, hk, or_self_left]
    · simp only [names, List.map_cons, List.mem_cons] at ih ⊢
      rw [ih, or_left_comm]

theorem Positive.add {t : Tally} (h : t.Positive) (hn : 0 < n) (k : String) :
    (t.add k n).Positive := by
  induction t with
  | nil => exact List.forall_mem_singleton.2 hn
  | cons e rest ih =>
    obtain ⟨k', m⟩ := e
    obtain ⟨hm, hrest⟩ := List.forall_mem_cons.1 h
    rw [Tally.add]
    split
    · exact List.forall_mem_cons.2 ⟨Int.add_pos hm hn, hrest⟩
    · exact List.forall_mem_cons.2 ⟨hm, ih hrest⟩

end Tally

namespace Usage

/-- The exports that are referred to are those that are counted. -/
structure Counted (u : Usage) : Prop where
  exports : ∀ name, name ∈ u.exports ↔ name ∈ u.counts.names
  distinct : u.exports.Nodup
  positive : u.counts.Positive

theorem counted_nil : Counted {} :=
  ⟨fun _ => .rfl, .nil, fun _ h => (List.not_mem_nil h).elim⟩

theorem Counted.tally (h : Counted u) (hn : 0 < n) (name : String) : Counted (u.tally name n) where
  exports name' := by
    rw [Usage.tally, List.mem_insert_iff, Tally.mem_names_add, h.exports]
  distinct := h.distinct.insert
  positive := h.positive.add hn name

theorem Counted.tallyAll (h : Counted u) {refs : Tally} (hp : refs.Positive) :
    Counted (u.tallyAll refs) := by
  induction refs generalizing u with
  | nil => exact h
  | cons e rest ih =>
    obtain ⟨he, hrest⟩ := List.forall_mem_cons.1 hp
    exact ih (h.tally he e.1) hrest

theorem tallyAll_frame (u : Usage) (refs : Tally) : (u.tallyAll refs).used = u.used ∧
    (u.tallyAll refs).unused = u.unused ∧ (u.tallyAll refs).warnings = u.warnings := by
  induction refs generalizing u with
  | nil => exact ⟨rfl, rfl, rfl⟩
  | cons e rest ih => exact ih (u.tally e.1 e.2)

theorem tallyAll_exports_eq_nil (u : Usage) (refs : Tally) :
    (u.tallyAll refs).exports = [] ↔ u.exports = [] ∧ refs = [] := by
  induction refs generalizing u with
  | nil => exact (and_iff_left rfl).symm
  | cons e rest ih =>
    have hne : (u.tally e.1 e.2).exports ≠ [] :=
      List.ne_nil_of_mem (List.mem_insert_self)
    exact (ih _).trans ⟨fun h => (hne h.1).elim, nofun⟩

theorem membersOf_positive {f : FileFacts} (hp : ∀ m ∈ f.members, Tally.Positive m.2)
    (localName : String) : (f.membersOf localName).Positive := by
  rw [FileFacts.membersOf]
  cases hl : f.members.lookup localName with
  | none => exact fun _ he => (List.not_mem_nil he).elim
  | some t => exact hp (localName, t) (mem_of_lookup hl)

theorem references_positive {f : FileFacts} (hp : ∀ m ∈ f.members, Tally.Positive m.2)
    (i : Import) : (references f i).1.Positive := by
  have nothing : Tally.Positive [] := fun _ he => (List.not_mem_nil he).elim
  rw [references]
  split
  · dsimp only
    split
    · exact List.forall_mem_singleton.2 ‹_›
    · exact nothing
  · have members :
        Tally.Positive ((f.membersOf i.localName).mergeSort fun a b => Text.le a.1 b.1) :=
      fun e he => membersOf_positive hp i.localName e (List.mem_mergeSort.1 he)
    dsimp only
    split
    · exact List.forall_mem_append.2 ⟨members, List.forall_mem_singleton.2 ‹_›⟩
    · exact members

theorem references_snd (o : Occurrence) : (references o.file o.imported).2 = o.isUsed := by
  rw [references, Occurrence.isUsed]
  split
  · dsimp only
    split
    · exact (decide_eq_true ‹_›).symm
    · exact (decide_eq_false ‹_›).symm
  · dsimp only
    split
    · rename_i hd
      rw [decide_eq_true hd, Bool.or_true, Bool.not_eq_true', List.isEmpty_eq_false_iff]
      exact List.append_ne_nil_of_right_ne_nil _ (List.cons_ne_nil _ _)
    · rename_i hd
      rw [decide_eq_false hd, Bool.or_false, (List.mergeSort_perm _ _).isEmpty_eq]

theorem references_fst_eq_nil (o : Occurrence) :
    (references o.file o.imported).1 = [] ↔ o.isUsed = false := by
  rw [← references_snd, references]
  split
  · dsimp only
    split
    · exact ⟨nofun, nofun⟩
    · exact ⟨fun _ => rfl, fun _ => rfl⟩
  · dsimp only
    rw [Bool.not_eq_false', List.isEmpty_iff]

def addOccurrence (u : Usage) (o : Occurrence) : Usage :=
  u.addImport o.file o.imported o.provenance

theorem addOccurrence_frame (u : Usage) (o : Occurrence) :
    (u.addOccurrence o).used = (if o.isUsed then o.entry.insert u.used else u.used) ∧
      (u.addOccurrence o).unused = (if o.isUsed then u.unused else o.entry.insert u.unused) ∧
      (u.addOccurrence o).warnings = u.warnings := by
  obtain ⟨used, unused, warnings⟩ := tallyAll_frame u (references o.file o.imported).1
  rw [← references_snd, ← used, ← unused, ← warnings]
  exact ⟨rfl, rfl, rfl⟩

/-- The lists after some imports of the package. -/
structure Listed (os : List Occurrence) (u : Usage) : Prop where
  used : ImportUse.Grouped (os.filter (·.isUsed)) u.used
  unused : ImportUse.Grouped (os.filter (!·.isUsed)) u.unused
  noneUsed : u.exports = [] ↔ u.used = []
  warnings : u.warnings = []

theorem listed_nil : Listed [] {} where
  used := ImportUse.grouped_nil
  unused := ImportUse.grouped_nil
  noneUsed := ⟨fun _ => rfl, fun _ => rfl⟩
  warnings := rfl

theorem Listed.addOccurrence (h : Listed os u) (o : Occurrence) :
    Listed (os ++ [o]) (u.addOccurrence o) := by
  have exports : (u.addOccurrence o).exports = [] ↔ u.exports = [] ∧ o.isUsed = false := by
    rw [← references_fst_eq_nil]
    exact tallyAll_exports_eq_nil u _
  obtain ⟨used, unused, warnings⟩ := addOccurrence_frame u o
  rw [h.warnings] at warnings
  cases hu : o.isUsed with
  | true =>
    rw [hu, if_pos rfl] at used unused
    refine ⟨?_, ?_, ?_, warnings⟩
    · rw [used, List.filter_append, List.filter_cons_of_pos hu]
      exact h.used.insert o
    · rw [unused, List.filter_append, List.filter_cons_of_neg (by rw [hu]; exact nofun)]
      exact (List.append_nil _).symm ▸ h.unused
    · rw [exports, used, hu]
      exact ⟨fun hh => (Bool.noConfusion hh.2), fun hh => (ImportUse.insert_ne_nil _ _ hh).elim⟩
  | false =>
    rw [hu, if_neg Bool.false_ne_true] at used unused
    refine ⟨?_, ?_, ?_, warnings⟩
    · rw [used, List.filter_append, List.filter_cons_of_neg (by rw [hu]; exact nofun)]
      exact (List.append_nil _).symm ▸ h.used
    · rw [unused, List.filter_append, List.filter_cons_of_pos (by rw [hu]; rfl)]
      exact h.unused.insert o
    · rw [exports, used, hu]
      exact (and_iff_left rfl).trans h.noneUsed

theorem Listed.addAll (h : Listed os u) (more : List Occurrence) :
    Listed (os ++ more) (more.foldl Usage.addOccurrence u) := by
  induction more generalizing os u with
  | nil =>
    rw [List.append_nil]
    exact h
  | cons o more ih =>
    rw [List.append_cons]
    exact ih (h.addOccurrence o)

theorem listed_run (os : List Occurrence) : Listed os (os.foldl addOccurrence {}) :=
  listed_nil.addAll os

theorem Counted.addAll (h : Counted u) {os : List Occurrence}
    (hp : ∀ o ∈ os, ∀ m ∈ o.file.members, Tally.Positive m.2) :
    Counted (os.foldl addOccurrence u) := by
  induction os generalizing u with
  | nil => exact h
  | cons o os ih =>
    obtain ⟨ho, hos⟩ := List.forall_mem_cons.1 hp
    have after := h.tallyAll (references_positive ho o.imported)
    exact ih ⟨after.exports, after.distinct, after.positive⟩ hos

/-- What is known after some imports of the package. -/
structure Accounts (os : List Occurrence) (u : Usage) : Prop extends Listed os u where
  counted : u.Counted

end Usage

/-- The occurrence that an import of a file is, if it comes down to the package. -/
def occurrence? (facts : RepositoryFacts) (package : String) (f : FileFacts) (i : Import) :
    Option Occurrence :=
  let attribution := ((Resolver.ofFacts facts).attributionOf f.path i package).1
  let imported := Usage.attributed i attribution
  if Specifier.belongsTo imported.module package then
    some ⟨f, imported, (attribution.map (·.provenance)).toList.filter (· != "")⟩
  else none

/-- The imports of a package in a repository, file by file. -/
def occurrences (facts : RepositoryFacts) (package : String) : List Occurrence :=
  facts.files.flatMap fun f => f.imports.filterMap (occurrence? facts package f)

theorem file_mem_of_mem_occurrences (h : o ∈ occurrences facts package) : o.file ∈ facts.files := by
  obtain ⟨f, hf, ho⟩ := List.mem_flatMap.1 h
  obtain ⟨i, _, hi⟩ := List.mem_filterMap.1 ho
  rw [occurrence?] at hi
  split at hi
  · cases hi
    exact hf
  · cases hi

namespace Usage

/-- What is asked of the index on the way to the attribution of an import of a file. -/
def asked (facts : RepositoryFacts) (package : String) (f : FileFacts) (i : Import) :
    List Attribution.Event :=
  (Attribution.ofImport (.logging (.ofFacts facts)) (.ofFacts facts) f.path i package).events

theorem apply_eq (h : r.Coherent (.ofFacts facts)) (package : String) (f : FileFacts) (i : Import)
    (u : Usage) :
    apply package f (u, r) i = ((occurrence? facts package f i).toList.foldl addOccurrence u,
      (asked facts package f i).foldl Resolver.note r) := by
  have same : (r.attributionOf f.path i package).1 =
      ((Resolver.ofFacts facts).attributionOf f.path i package).1 := by
    rw [h.attributionOf, (Resolver.coherent_ofFacts facts).attributionOf]
  have left : (r.attributionOf f.path i package).2 =
      (asked facts package f i).foldl Resolver.note r := by
    rw [h.attributionOf, asked]
  rw [apply, occurrence?]
  dsimp only
  rw [same, left]
  split
  · rfl
  · rfl

theorem foldl_apply_eq (h : r.Coherent (.ofFacts facts)) (package : String) (f : FileFacts)
    (is : List Import) (u : Usage) :
    is.foldl (apply package f) (u, r) =
      ((is.filterMap (occurrence? facts package f)).foldl addOccurrence u,
        (is.flatMap (asked facts package f)).foldl Resolver.note r) := by
  induction is generalizing u r with
  | nil => rfl
  | cons i is ih =>
    rw [List.foldl_cons, apply_eq h, ih (h.replay _), List.filterMap_cons, List.flatMap_cons,
      List.foldl_append]
    cases occurrence? facts package f i <;> rfl

theorem foldl_files_eq (h : r.Coherent (.ofFacts facts)) (package : String)
    (fs : List FileFacts) (u : Usage) :
    fs.foldl (fun state f => f.imports.foldl (apply package f) state) (u, r) =
      ((fs.flatMap fun f => f.imports.filterMap (occurrence? facts package f)).foldl
          addOccurrence u,
        (fs.flatMap fun f => f.imports.flatMap (asked facts package f)).foldl Resolver.note r) := by
  induction fs generalizing u r with
  | nil => rfl
  | cons f fs ih =>
    rw [List.foldl_cons, foldl_apply_eq h, ih (h.replay _), List.flatMap_cons, List.flatMap_cons,
      List.foldl_append, List.foldl_append]

/-- The resolver after all imports of a repository. -/
def resolverAfter (package : String) (facts : RepositoryFacts) : Resolver :=
  (facts.files.flatMap fun f => f.imports.flatMap (asked facts package f)).foldl Resolver.note
    (.ofFacts facts)

theorem coherent_resolverAfter (package : String) (facts : RepositoryFacts) :
    (resolverAfter package facts).Coherent (.ofFacts facts) :=
  (Resolver.coherent_ofFacts facts).replay _

theorem ofFacts_eq_run (package : String) (facts : RepositoryFacts) :
    let u := (occurrences facts package).foldl addOccurrence {}
    ofFacts package facts = { u with
      warnings := u.warnings ++
        (if u.exports.isEmpty then [noUsedExportsWarning package] else []) ++
        (if u.ambiguous then [ambiguousWarning] else []) ++
        (resolverAfter package facts).warnings } := by
  rw [ofFacts, collect, foldl_files_eq (Resolver.coherent_ofFacts facts)]
  rfl

/-- What is known of a repository is what its imports of the package tell, with the warnings that
then hold. -/
theorem ofFacts_eq (package : String) (facts : RepositoryFacts) :
    ∃ r : Resolver, r.Coherent (.ofFacts facts) ∧
      let u := (occurrences facts package).foldl addOccurrence {}
      ofFacts package facts = { u with
        warnings := u.warnings ++
          (if u.exports.isEmpty then [noUsedExportsWarning package] else []) ++
          (if u.ambiguous then [ambiguousWarning] else []) ++ r.warnings } :=
  ⟨_, coherent_resolverAfter package facts, ofFacts_eq_run package facts⟩

theorem head?_toList_append (h : s.toList.head? = some c) (t : String) :
    (s ++ t).toList.head? = some c := by
  rw [String.toList_append, List.head?_append, h, Option.some_or]

theorem head?_noUsedExportsWarning (package : String) :
    (noUsedExportsWarning package).toList.head? = some 'n' :=
  head?_toList_append (head?_toList_append (by decide) _) _

theorem head?_text (c : Attribution.Circle) : c.text.toList.head? = some 'r' := by
  unfold Attribution.Circle.text
  iterate 5 apply head?_toList_append
  decide

theorem head?_ambiguousWarning : ambiguousWarning.toList.head? = some 'd' := by decide

theorem noUsedExportsWarning_ne (package : String) (h : s.toList.head? = some c) (hc : c ≠ 'n') :
    noUsedExportsWarning package ≠ s := by
  rintro rfl
  exact hc (Option.some.inj (h.symm.trans (head?_noUsedExportsWarning package)))

theorem noUsedExportsWarning_mem_iff (hr : Resolver.Coherent index r) (package : String)
    (isEmpty ambiguous : Bool) :
    noUsedExportsWarning package ∈ (if isEmpty then [noUsedExportsWarning package] else []) ++
      (if ambiguous then [ambiguousWarning] else []) ++ r.warnings ↔ isEmpty = true := by
  have noCircle : noUsedExportsWarning package ∉ r.warnings := by
    intro hm
    obtain ⟨c, hc⟩ := hr.texts _ (Text.mem_sort.1 hm)
    exact noUsedExportsWarning_ne package (head?_text c) (by decide) hc
  have notAmbiguous := noUsedExportsWarning_ne package head?_ambiguousWarning (by decide)
  cases isEmpty <;> cases ambiguous <;>
    simp only [noCircle, notAmbiguous, List.mem_append, List.mem_singleton, List.not_mem_nil,
      ↓reduceIte, Bool.false_eq_true, or_false]

/-- The occurrences whose export has no use at all. -/
def unusedThroughout (os : List Occurrence) : List Occurrence :=
  os.filter fun o => !os.any fun x => x.isUsed && x.key == o.key

theorem Listed.unusedImports (h : Listed os u) :
    ImportUse.Lists (unusedThroughout os) u.unusedImports := by
  have same : unusedThroughout os =
      (os.filter (!·.isUsed)).filter fun o => !u.used.any (·.key == o.key) := by
    rw [unusedThroughout, List.filter_filter]
    apply List.filter_congr
    intro o ho
    rw [h.used.any_key, List.any_filter]
    cases hu : o.isUsed with
    | false => rw [Bool.not_false, Bool.and_true]
    | true =>
      have found : (os.any fun x => x.isUsed && x.key == o.key) = true :=
        List.any_eq_true.2 ⟨o, ho, by rw [hu, beq_self_eq_true, Bool.and_self]⟩
      rw [found, Bool.not_true, Bool.false_and]
  rw [same]
  exact h.unused.sorted.restrict fun k => !u.used.any (·.key == k)

theorem accounts_occurrences (package : String)
    (hp : ∀ f ∈ facts.files, ∀ m ∈ f.members, Tally.Positive m.2) :
    Accounts (occurrences facts package) ((occurrences facts package).foldl addOccurrence {}) where
  toListed := listed_run _
  counted := counted_nil.addAll fun o ho => hp o.file (file_mem_of_mem_occurrences ho)

/-- The used imports are those with a use and the unused ones those whose export has none, each with
all its places. What is counted is in use, and only a package without a used import gets the warning
of missing uses. -/
theorem ofFacts_accounts_for_imports (package : String) (facts : RepositoryFacts)
    (hp : ∀ f ∈ facts.files, ∀ m ∈ f.members, Tally.Positive m.2) :
    let os := occurrences facts package
    let u := ofFacts package facts
    ImportUse.Lists (os.filter (·.isUsed)) u.usedImports ∧
      ImportUse.Lists (unusedThroughout os) u.unusedImports ∧
      (∀ v ∈ u.usedImports, ∀ w ∈ u.unusedImports, v.key ≠ w.key) ∧
      u.usedExports = Text.sortUnique u.counts.names ∧
      (∀ e ∈ u.counts, 1 ≤ e.2) ∧
      (noUsedExportsWarning package ∈ u.warnings ↔ u.usedImports = []) := by
  have accounts := accounts_occurrences package hp
  obtain ⟨r, hr, he⟩ := ofFacts_eq package facts
  rw [he]
  refine ⟨accounts.used.sorted, accounts.unusedImports, ?_, ?_, ?_, ?_⟩
  · intro v hv w hw hk
    obtain ⟨x, hx, he⟩ := List.mem_map.1
      ((ImportUse.mem_map_key_sorted _).1 (List.mem_map_of_mem hv))
    have notUsed := (List.mem_filter.1 hw).2
    rw [Bool.not_eq_true', List.any_eq_false] at notUsed
    exact notUsed x hx (beq_iff_eq.2 (he.trans hk))
  · exact Text.sort_eq_sortUnique accounts.counted.distinct accounts.counted.exports
  · exact accounts.counted.positive
  · dsimp only
    rw [accounts.warnings, List.nil_append, noUsedExportsWarning_mem_iff hr]
    exact (List.isEmpty_iff.trans accounts.noneUsed).trans ImportUse.sorted_eq_nil.symm

/-- A member is reached through the whole module, and the named import is never read. -/
theorem ofFacts_accounts_for_whole_module :
    let facts : RepositoryFacts := { files := [{
      path := "a.ts"
      imports := [⟨"p", "*", "all", .wholeModule, ⟨"a.ts", 1, 1⟩⟩,
        ⟨"p", "f", "f", .named, ⟨"a.ts", 2, 1⟩⟩]
      reads := [("all", 1)]
      members := [("all", [("g", 1)])] }] }
    let u := ofFacts "p" facts
    (∀ f ∈ facts.files, ∀ m ∈ f.members, Tally.Positive m.2) ∧
      ("p", "*") ∈ u.usedImports.map (·.key) ∧ ("p", "f") ∈ u.unusedImports.map (·.key) := by
  intro facts u
  have positive : ∀ f ∈ facts.files, ∀ m ∈ f.members, Tally.Positive m.2 := by decide
  have account := ofFacts_accounts_for_imports "p" facts positive
  exact ⟨positive, (account.1.keys _).2 (by decide +kernel),
    (account.2.1.keys _).2 (by decide +kernel)⟩

end Usage

end PackageUsage
