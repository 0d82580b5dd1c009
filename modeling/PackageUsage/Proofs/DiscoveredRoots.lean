import PackageUsage.Package.Inventory
import PackageUsage.Proofs.OverlongNames
import PackageUsage.Proofs.SortedText

namespace PackageUsage
set_option autoImplicit true
open Package (seenFrom? rootsSeen)

namespace Inventory

/-- The name of a package that a file imports, with the installation that the file sees. -/
abbrev Sighting := String × Option Path

def rootsIn (sightings : List Sighting) (name : String) : List Path :=
  sightings.filterMap fun s => if s.1 = name then s.2 else none

theorem rootOf_eq_some_iff {s : Sighting} :
    (if s.1 = name then s.2 else none) = some root ↔ s = (name, some root) := by
  constructor
  · intro he
    split at he
    · rename_i hn
      rw [← hn, ← he]
    · cases he
  · intro he
    subst he
    exact if_pos rfl

theorem mem_rootsIn : root ∈ rootsIn sightings name ↔ (name, some root) ∈ sightings := by
  unfold rootsIn
  rw [List.mem_filterMap]
  simp only [rootOf_eq_some_iff, exists_eq_right]

theorem rootsIn_concat (sightings : List Sighting) (n : String) (seen : Option Path)
    (name : String) : rootsIn (sightings ++ [(n, seen)]) name =
      rootsIn sightings name ++ if n = name then seen.toList else [] := by
  unfold rootsIn
  rw [List.filterMap_append]
  congr 1
  by_cases hn : n = name
  · cases seen with
    | none => simp only [List.filterMap_cons, hn, if_true, List.filterMap_nil, Option.toList_none]
    | some root =>
      simp only [List.filterMap_cons, hn, if_true, List.filterMap_nil, Option.toList_some]
  · simp only [List.filterMap_cons, hn, if_false, List.filterMap_nil]

/-- The installations of a package that an inventory knows, in the order of discovery. -/
def rootsOf (i : Inventory) (name : String) : List Path := (i.installed.lookup name).getD []

/-- What is known of every package is what has been seen of it. -/
structure Tells (i : Inventory) (sightings : List Sighting) : Prop where
  distinct : (i.installed.map (·.1)).Nodup
  roots : ∀ name, i.rootsOf name = (rootsIn sightings name).eraseDups
  filled : ∀ name, i.installed.lookup name ≠ some []
  missingOnce : i.missing.Nodup
  missing : ∀ name, name ∈ i.missing ↔ (name, none) ∈ sightings ∧ rootsIn sightings name = []

theorem lookup_addRoot (name : String) (root : Path) (entries : List (String × List Path))
    (n : String) :
    (addRoot name root entries).lookup n =
      if n = name then
        let roots := (entries.lookup name).getD []
        some (if roots.contains root then roots else roots ++ [root])
      else entries.lookup n := by
  induction entries with
  | nil =>
    by_cases hn : n = name
    · simp [addRoot, hn]
    · simp [addRoot, hn]
  | cons e entries ih =>
    obtain ⟨m, roots⟩ := e
    unfold addRoot
    by_cases hm : m = name
    · subst hm
      by_cases hn : n = m
      · simp [hn]
      · simp [List.lookup_cons, hn, beq_false_of_ne hn]
    · rw [if_neg hm, List.lookup_cons, List.lookup_cons, List.lookup_cons, ih,
        beq_false_of_ne (Ne.symm hm)]
      by_cases hn : n = m
      · simp [hn, hm]
      · rw [beq_false_of_ne hn]

theorem mem_keys_addRoot (name : String) (root : Path) (entries : List (String × List Path)) :
    n ∈ (addRoot name root entries).map (·.1) ↔ n = name ∨ n ∈ entries.map (·.1) := by
  induction entries with
  | nil => exact List.mem_cons
  | cons e entries ih =>
    unfold addRoot
    split
    · rename_i he
      rw [List.map_cons, List.map_cons, List.mem_cons, he, or_self_left]
    · rw [List.map_cons, List.map_cons, List.mem_cons, List.mem_cons, ih, or_left_comm]

theorem nodup_keys_addRoot {entries : List (String × List Path)}
    (distinct : (entries.map (·.1)).Nodup) (name : String) (root : Path) :
    ((addRoot name root entries).map (·.1)).Nodup := by
  induction entries with
  | nil => exact List.nodup_singleton name
  | cons e entries ih =>
    unfold addRoot
    obtain ⟨new, rest⟩ := List.nodup_cons.1 distinct
    split
    · exact distinct
    · rename_i he
      apply List.nodup_cons.2 ⟨?_, ih rest⟩
      rw [mem_keys_addRoot]
      exact not_or_intro he new

theorem tells_nothing : Tells {} [] where
  distinct := .nil
  roots _ := rfl
  filled _ := nofun
  missingOnce := .nil
  missing _ := by simp

theorem Tells.isSome_lookup (h : Tells i sightings) :
    (i.installed.lookup name).isSome = true ↔ rootsIn sightings name ≠ [] := by
  have roots := h.roots name
  have filled := h.filled name
  unfold rootsOf at roots
  rw [← eraseDups_ne_nil, ← roots]
  cases hl : i.installed.lookup name with
  | none => simp
  | some found => simpa [hl] using filled

theorem rootsIn_concat_none (sightings : List Sighting) (name n : String) :
    rootsIn (sightings ++ [(name, none)]) n = rootsIn sightings n := by
  rw [rootsIn_concat, Option.toList_none, ite_self, List.append_nil]

theorem mem_concat_none (sightings : List Sighting) (name n : String) :
    (n, none) ∈ sightings ++ [(name, none)] ↔ (n, none) ∈ sightings ∨ n = name := by
  rw [List.mem_append, List.mem_singleton, Prod.mk.injEq, and_iff_left rfl]

theorem Tells.note_none (h : Tells i sightings) (name : String) :
    Tells (i.note name none) (sightings ++ [(name, none)]) := by
  have roots (n : String) : i.rootsOf n =
      (rootsIn (sightings ++ [(name, none)]) n).eraseDups := by
    rw [rootsIn_concat_none, h.roots]
  unfold Inventory.note
  dsimp only
  split
  · rename_i known
    rw [h.isSome_lookup, List.contains_iff_mem, h.missing] at known
    have missing (n : String) : n ∈ i.missing ↔ (n, none) ∈ sightings ++ [(name, none)] ∧
        rootsIn (sightings ++ [(name, none)]) n = [] := by
      rw [h.missing, mem_concat_none, rootsIn_concat_none]
      constructor
      · intro ⟨hn, empty⟩
        exact ⟨.inl hn, empty⟩
      · rintro ⟨hn | rfl, empty⟩
        · exact ⟨hn, empty⟩
        · exact known.resolve_left (not_not_intro empty)
    exact { h with roots, missing }
  · rename_i unknown
    rw [not_or, h.isSome_lookup, not_not, List.contains_iff_mem] at unknown
    obtain ⟨unseen, new⟩ := unknown
    have missing (n : String) : n ∈ i.missing ++ [name] ↔
        (n, none) ∈ sightings ++ [(name, none)] ∧
          rootsIn (sightings ++ [(name, none)]) n = [] := by
      rw [List.mem_append, List.mem_singleton, h.missing, mem_concat_none, rootsIn_concat_none,
        or_and_right]
      apply or_congr_right
      rw [iff_self_and]
      rintro rfl
      exact unseen
    exact { h with roots, missingOnce := nodup_concat h.missingOnce new, missing }

theorem Tells.note_some (h : Tells i sightings) (name : String) (root : Path) :
    Tells (i.note name (some root)) (sightings ++ [(name, some root)]) where
  distinct := nodup_keys_addRoot h.distinct name root
  roots n := by
    have known := h.roots n
    unfold rootsOf Inventory.note at *
    dsimp only
    rw [lookup_addRoot, rootsIn_concat, Option.toList_some]
    by_cases hn : n = name
    · subst hn
      rw [if_pos rfl, if_pos rfl, eraseDups_concat, known]
      rfl
    · rw [if_neg hn, if_neg (Ne.symm hn), List.append_nil]
      exact known
  filled n := by
    unfold Inventory.note
    dsimp only
    rw [lookup_addRoot]
    split
    · intro he
      have empty := Option.some.inj he
      split at empty
      · rename_i hr
        rw [empty] at hr
        cases hr
      · exact List.append_ne_nil_of_right_ne_nil _ (List.cons_ne_nil _ _) empty
    · exact h.filled n
  missingOnce := h.missingOnce.erase name
  missing n := by
    unfold Inventory.note
    dsimp only
    rw [h.missingOnce.mem_erase_iff, h.missing, rootsIn_concat, Option.toList_some,
      List.append_eq_nil_iff, List.mem_append]
    by_cases hn : name = n
    · simp [hn]
    · simp [hn, Ne.symm hn]

theorem Tells.note (h : Tells i sightings) (name : String) (seen : Option Path) :
    Tells (i.note name seen) (sightings ++ [(name, seen)]) := by
  cases seen with
  | none => exact h.note_none name
  | some root => exact h.note_some name root

theorem tells_foldl (h : Tells i before) (sightings : List Sighting) :
    Tells (sightings.foldl (fun i s => i.note s.1 s.2) i) (before ++ sightings) := by
  induction sightings generalizing i before with
  | nil =>
    rw [List.append_nil]
    exact h
  | cons s sightings ih =>
    have next := ih (h.note s.1 s.2)
    rw [List.append_assoc] at next
    exact next

/-- The packages that the imports of a repository name, each with the file that imports it. -/
def requests (facts : RepositoryFacts) : List (String × String) :=
  facts.files.flatMap fun f =>
    f.imports.filterMap fun i => (Specifier.package? i.module).map (f.path, ·)

theorem mem_requests : (importer, name) ∈ requests facts ↔ ∃ f ∈ facts.files,
    f.path = importer ∧ ∃ i ∈ f.imports, Specifier.package? i.module = some name := by
  unfold requests
  simp only [List.mem_flatMap, List.mem_filterMap, Option.map_eq_some_iff, Prod.mk.injEq]
  constructor
  · rintro ⟨f, hf, i, hi, n, hn, rfl, rfl⟩
    exact ⟨f, hf, rfl, i, hi, hn⟩
  · rintro ⟨f, hf, rfl, i, hi, hn⟩
    exact ⟨f, hf, i, hi, name, hn, rfl, rfl⟩

def sight (t : FileTree) (repository : Path) (request : String × String) :
    Except FileError Sighting :=
  return (request.2, ← seenFrom? t repository request.1 request.2)

section
variable (t : FileTree) (repository : Path)

/-- Follows a request and notes what is seen. -/
def follow (i : Inventory) (request : String × String) : Except FileError Inventory :=
  return i.note request.2 (← seenFrom? t repository request.1 request.2)

theorem foldlM_record (i : Inventory) (path : String) (imports : List Import) :
    imports.foldlM (fun i imp => i.record t repository path imp.module) i =
      (imports.filterMap fun imp => (Specifier.package? imp.module).map (path, ·)).foldlM
        (follow t repository) i := by
  induction imports generalizing i with
  | nil => rfl
  | cons imp imports ih =>
    rw [List.foldlM_cons, List.filterMap_cons]
    cases hp : Specifier.package? imp.module with
    | none =>
      have passed : i.record t repository path imp.module = .ok i := by
        unfold record
        rw [hp]
      rw [passed]
      exact ih i
    | some name =>
      have followed : i.record t repository path imp.module =
          follow t repository i (path, name) := by
        unfold record
        rw [hp]
        rfl
      rw [followed]
      exact bind_congr ih

theorem ofFacts_eq_foldlM (facts : RepositoryFacts) :
    ofFacts t repository facts = (requests facts).foldlM (follow t repository) {} := by
  unfold ofFacts requests
  generalize ({} : Inventory) = i
  induction facts.files generalizing i with
  | nil => rfl
  | cons f files ih =>
    rw [List.foldlM_cons, List.flatMap_cons, List.foldlM_append, foldlM_record]
    simp only [ih]

theorem foldlM_follow (i : Inventory) (requests : List (String × String)) :
    requests.foldlM (follow t repository) i =
      return (← requests.mapM (sight t repository)).foldl (fun i s => i.note s.1 s.2) i := by
  induction requests generalizing i with
  | nil => rfl
  | cons r requests ih =>
    rw [List.foldlM_cons, List.mapM_cons]
    cases hr : seenFrom? t repository r.1 r.2 with
    | error e =>
      have stops : sight t repository r = .error e := congrArg (· >>= _) hr
      rw [stops, follow, hr]
      rfl
    | ok seen =>
      have sees : sight t repository r = .ok (r.2, seen) := congrArg (· >>= _) hr
      rw [sees, follow, hr]
      refine (ih _).trans ?_
      cases requests.mapM (sight t repository) with
      | error e => rfl
      | ok sightings => rfl

/-- An inventory is made by following all requests, and fails where one of them does. -/
theorem ofFacts_cases (facts : RepositoryFacts) :
    (∃ i sightings, ofFacts t repository facts = .ok i ∧ Tells i sightings ∧
      List.Forall₂ (fun r s => sight t repository r = .ok s) (requests facts) sightings) ∨
    ∃ e, ofFacts t repository facts = .error e ∧
      ∃ r ∈ requests facts, sight t repository r = .error e := by
  rw [ofFacts_eq_foldlM, foldlM_follow]
  rcases mapM_cases (sight t repository) (requests facts) with ⟨sightings, he, answers⟩ | failed
  · rw [he]
    exact .inl ⟨_, sightings, rfl, tells_foldl tells_nothing sightings, answers⟩
  · obtain ⟨e, he, r, hr, stopped⟩ := failed
    rw [he]
    exact .inr ⟨e, rfl, r, hr, stopped⟩

end

theorem sight_eq_ok_iff : sight t repository (importer, name) = .ok s ↔
    s.1 = name ∧ seenFrom? t repository importer name = .ok s.2 := by
  unfold sight
  cases seenFrom? t repository importer name with
  | error e =>
    constructor
    · nofun
    · exact fun h => nomatch h.2
  | ok seen =>
    constructor
    · rintro ⟨⟩
      exact ⟨rfl, rfl⟩
    · obtain ⟨n, found⟩ := s
      rintro ⟨rfl, ⟨⟩⟩
      rfl

theorem sight_eq_error (h : sight t repository (importer, name) = .error e) :
    seenFrom? t repository importer name = .error e := by
  rcases bind_error h with failed | ⟨_, _, returned⟩
  · exact failed
  · cases returned

/-- A file that imports something of a package. -/
def Imports (f : FileFacts) (name : String) : Prop :=
  ∃ i ∈ f.imports, Specifier.belongsTo i.module name = true

def importers (facts : RepositoryFacts) (name : String) : List FileFacts :=
  facts.files.filter fun f => f.imports.any (Specifier.belongsTo ·.module name)

theorem mem_importers : f ∈ importers facts name ↔ f ∈ facts.files ∧ Imports f name := by
  unfold importers Imports
  rw [List.mem_filter, List.any_eq_true]

theorem rootsSeen_eq (h : (importers facts name).mapM (fun f =>
      seenFrom? t repository f.path name) = .ok seen) :
    rootsSeen t repository name facts =
      .ok ((seen.filterMap id).eraseDups.mergeSort Path.le) :=
  congrArg (· >>= _) h

/-- No specifier has white space around it. -/
def Trimmed (facts : RepositoryFacts) : Prop :=
  ∀ f ∈ facts.files, ∀ i ∈ f.imports, Text.strip i.module = i.module

theorem mem_requests_iff_imports (trimmed : Trimmed facts)
    (named : Specifier.Leads (Text.split '/' name) name) :
    (importer, name) ∈ requests facts ↔ ∃ f ∈ facts.files, f.path = importer ∧ Imports f name := by
  rw [mem_requests]
  have same (f : FileFacts) (hf : f ∈ facts.files) (i : Import) (hi : i ∈ f.imports) :=
    Specifier.package?_eq_some_iff_belongsTo (trimmed f hf i hi) named
  constructor
  · rintro ⟨f, hf, hp, i, hi, hn⟩
    exact ⟨f, hf, hp, i, hi, (same f hf i hi).1 hn⟩
  · rintro ⟨f, hf, hp, i, hi, hn⟩
    exact ⟨f, hf, hp, i, hi, (same f hf i hi).2 hn⟩

theorem mem_sightings (trimmed : Trimmed facts)
    (named : Specifier.Leads (Text.split '/' name) name)
    (answers : List.Forall₂ (fun r s => sight t repository r = .ok s) (requests facts) sightings) :
    (name, seen) ∈ sightings ↔ ∃ f ∈ facts.files, Imports f name ∧
      seenFrom? t repository f.path name = .ok seen := by
  constructor
  · intro hs
    obtain ⟨⟨importer, n⟩, hr, he⟩ := exists_left_of_forall₂ answers hs
    obtain ⟨rfl, hseen⟩ := sight_eq_ok_iff.1 he
    obtain ⟨f, hf, rfl, imports⟩ := (mem_requests_iff_imports trimmed named).1 hr
    exact ⟨f, hf, imports, hseen⟩
  · rintro ⟨f, hf, imports, hseen⟩
    have hr := (mem_requests_iff_imports trimmed named).2 ⟨f, hf, rfl, imports⟩
    obtain ⟨s, hs, he⟩ := exists_right_of_forall₂ answers hr
    obtain ⟨hn, found⟩ := sight_eq_ok_iff.1 he
    rw [hseen] at found
    obtain ⟨n, root⟩ := s
    cases hn
    cases found
    exact hs

theorem mem_seen_iff (trimmed : Trimmed facts)
    (named : Specifier.Leads (Text.split '/' name) name)
    (answers : List.Forall₂ (fun r s => sight t repository r = .ok s) (requests facts) sightings)
    (found : List.Forall₂ (fun f s => seenFrom? t repository f.path name = .ok s)
      (importers facts name) seen) :
    root ∈ seen.filterMap id ↔ root ∈ rootsIn sightings name := by
  rw [mem_rootsIn, mem_sightings trimmed named answers, List.mem_filterMap]
  constructor
  · rintro ⟨_, hs, rfl⟩
    obtain ⟨f, hf, hseen⟩ := exists_left_of_forall₂ found hs
    obtain ⟨hf, imports⟩ := mem_importers.1 hf
    exact ⟨f, hf, imports, hseen⟩
  · rintro ⟨f, hf, imports, hseen⟩
    obtain ⟨s, hs, hfound⟩ := exists_right_of_forall₂ found (mem_importers.2 ⟨hf, imports⟩)
    rw [hseen] at hfound
    cases hfound
    exact ⟨_, hs, rfl⟩

/-- If all requests are answered, the roots seen of a package are those that are known of it, in
their own order. -/
theorem rootsSeen_perm (trimmed : Trimmed facts)
    (named : Specifier.Leads (Text.split '/' name) name)
    (answers : List.Forall₂ (fun r s => sight t repository r = .ok s) (requests facts) sightings)
    (h : Tells i sightings) :
    ∃ roots, rootsSeen t repository name facts = .ok roots ∧ roots.Perm (i.rootsOf name) := by
  rcases mapM_cases (fun f : FileFacts => seenFrom? t repository f.path name)
    (importers facts name) with ⟨seen, he, found⟩ | ⟨e, _, f, hf, failed⟩
  · have same : (seen.filterMap id).eraseDups.Perm (i.rootsOf name) := by
      rw [h.roots]
      apply (List.perm_ext_iff_of_nodup (nodup_eraseDups _) (nodup_eraseDups _)).2
      intro root
      rw [List.mem_eraseDups, List.mem_eraseDups, mem_seen_iff trimmed named answers found]
    exact ⟨_, rootsSeen_eq he, (List.mergeSort_perm _ _).trans same⟩
  · obtain ⟨hf, imports⟩ := mem_importers.1 hf
    have hr := (mem_requests_iff_imports trimmed named).2 ⟨f, hf, rfl, imports⟩
    obtain ⟨s, _, hs⟩ := exists_right_of_forall₂ answers hr
    cases failed.symm.trans (sight_eq_ok_iff.1 hs).2

theorem root?_eq_head? (i : Inventory) (name : String) :
    i.root? name = (i.rootsOf name).head? := by
  unfold root? rootsOf
  cases i.installed.lookup name with
  | none => rfl
  | some roots => rfl

theorem mem_keys_iff {entries : List (String × List Path)} :
    name ∈ entries.map (·.1) ↔ (entries.lookup name).isSome = true := by
  induction entries with
  | nil => simp
  | cons e entries ih =>
    obtain ⟨n, roots⟩ := e
    rw [List.map_cons, List.mem_cons, ih, List.lookup_cons]
    by_cases hn : name = n
    · simp [hn]
    · simp [hn, beq_false_of_ne hn]

theorem Tells.rootsOf_ne_nil (h : Tells i sightings) :
    i.rootsOf name ≠ [] ↔ rootsIn sightings name ≠ [] := by rw [h.roots, eraseDups_ne_nil]

theorem Tells.mem_names (h : Tells i sightings) : name ∈ i.names ↔ i.rootsOf name ≠ [] := by
  unfold names
  rw [Text.mem_sort, mem_keys_iff, h.isSome_lookup, h.rootsOf_ne_nil]

theorem Tells.named_of_mem_names (h : Tells i sightings)
    (answers : List.Forall₂ (fun r s => sight t repository r = .ok s) (requests facts) sightings)
    (listed : name ∈ i.names) : Specifier.Leads (Text.split '/' name) name := by
  have found := h.rootsOf_ne_nil.1 (h.mem_names.1 listed)
  obtain ⟨root, hr⟩ := List.exists_mem_of_ne_nil _ found
  obtain ⟨⟨importer, n⟩, hreq, he⟩ := exists_left_of_forall₂ answers (mem_rootsIn.1 hr)
  obtain ⟨rfl, _⟩ := sight_eq_ok_iff.1 he
  obtain ⟨_, _, _, i, _, hn⟩ := mem_requests.1 hreq
  exact Specifier.leads_of_package? hn

theorem missingWarning_inj : missingWarning m = missingWarning n ↔ m = n := by
  unfold missingWarning
  exact String.append_right_inj _

theorem severalRootsWarning_inj : severalRootsWarning m = severalRootsWarning n ↔ m = n := by
  unfold severalRootsWarning
  exact String.append_right_inj _

theorem missingWarning_ne (m n : String) : missingWarning m ≠ severalRootsWarning n := by
  intro he
  have letters := congrArg (·.toList.take 12) he
  unfold missingWarning severalRootsWarning at letters
  simp only [String.toList_append] at letters
  rw [List.take_append_of_le_length (by decide),
    List.take_append_of_le_length (by decide)] at letters
  revert letters
  decide

theorem mem_warnings {i : Inventory} : w ∈ i.warnings ↔
    (∃ name ∈ i.missing, missingWarning name = w) ∨
      ∃ name roots, (name, roots) ∈ i.installed ∧ 1 < roots.length ∧
        severalRootsWarning name = w := by
  unfold warnings
  simp only [Text.mem_sort, List.mem_append, List.map_map, List.mem_map, List.mem_filter,
    decide_eq_true_eq, Prod.exists, and_assoc, Function.comp_apply]

theorem Tells.missingWarning_mem (h : Tells i sightings) :
    missingWarning name ∈ i.warnings ↔ (name, none) ∈ sightings ∧ i.rootsOf name = [] := by
  rw [mem_warnings, h.roots, ← not_ne_iff, eraseDups_ne_nil, not_ne_iff, ← h.missing]
  constructor
  · rintro (⟨n, hn, same⟩ | ⟨n, _, _, _, same⟩)
    · exact missingWarning_inj.1 same ▸ hn
    · exact (missingWarning_ne _ _ same.symm).elim
  · intro hn
    exact .inl ⟨name, hn, rfl⟩

theorem Tells.severalRootsWarning_mem (h : Tells i sightings) :
    severalRootsWarning name ∈ i.warnings ↔ 1 < (i.rootsOf name).length := by
  rw [mem_warnings, rootsOf]
  constructor
  · rintro (⟨n, _, same⟩ | ⟨n, roots, hn, several, same⟩)
    · exact (missingWarning_ne _ _ same).elim
    · rw [severalRootsWarning_inj.1 same] at hn
      rw [(lookup_eq_some_iff_mem h.distinct).2 hn]
      exact several
  · intro several
    cases hl : i.installed.lookup name with
    | none =>
      rw [hl] at several
      cases several
    | some roots =>
      rw [hl] at several
      exact .inr ⟨name, roots, mem_of_lookup hl, several, rfl⟩

/-- An inventory and the roots seen of a package tell the same about it. -/
structure Agrees (facts : RepositoryFacts) (i : Inventory) (name : String) (roots : List Path) :
    Prop where
  listed : name ∈ i.names ↔ roots ≠ []
  several : severalRootsWarning name ∈ i.warnings ↔ 2 ≤ roots.length
  chosen : roots ≠ [] → ∃ root ∈ roots, i.root? name = some root
  missing : missingWarning name ∈ i.warnings ↔ (∃ f ∈ facts.files, Imports f name) ∧ roots = []

theorem agrees_of_perm (trimmed : Trimmed facts)
    (named : Specifier.Leads (Text.split '/' name) name)
    (answers : List.Forall₂ (fun r s => sight t repository r = .ok s) (requests facts) sightings)
    (h : Tells i sightings) (same : roots.Perm (i.rootsOf name)) : Agrees facts i name roots := by
  have empty : roots = [] ↔ i.rootsOf name = [] := by
    rw [← List.length_eq_zero_iff, same.length_eq, List.length_eq_zero_iff]
  have listed : name ∈ i.names ↔ roots ≠ [] := by
    rw [h.mem_names, ne_eq, ne_eq, empty]
  have several : severalRootsWarning name ∈ i.warnings ↔ 2 ≤ roots.length := by
    rw [h.severalRootsWarning_mem, same.length_eq]
    rfl
  have chosen (found : roots ≠ []) : ∃ root ∈ roots, i.root? name = some root := by
    obtain ⟨root, rest, hroots⟩ := List.exists_cons_of_ne_nil (mt empty.2 found)
    have first : i.root? name = some root := by
      rw [root?_eq_head?, hroots, List.head?_cons]
    have known : root ∈ i.rootsOf name := by
      rw [hroots]
      exact List.mem_cons_self
    exact ⟨root, same.mem_iff.2 known, first⟩
  have missing : missingWarning name ∈ i.warnings ↔
      (∃ f ∈ facts.files, Imports f name) ∧ roots = [] := by
    rw [h.missingWarning_mem, empty]
    apply and_congr_left
    intro none
    rw [h.roots, ← not_ne_iff, eraseDups_ne_nil, not_ne_iff] at none
    constructor
    · intro unseen
      obtain ⟨f, hf, imports, _⟩ := (mem_sightings trimmed named answers).1 unseen
      exact ⟨f, hf, imports⟩
    · rintro ⟨f, hf, imports⟩
      have hr := (mem_requests_iff_imports trimmed named).2 ⟨f, hf, rfl, imports⟩
      obtain ⟨⟨n, seen⟩, hs, he⟩ := exists_right_of_forall₂ answers hr
      obtain ⟨rfl, _⟩ := sight_eq_ok_iff.1 he
      cases seen with
      | none => exact hs
      | some root =>
        have found := mem_rootsIn.2 hs
        rw [none] at found
        cases found
  exact { listed, several, chosen, missing }

/-- Following all imports and looking for one package tell the same about it: whether it is
installed, whether more than once, a root of it, and whether it is imported and nowhere to be found.
The one fails only where a package that some file imports cannot be looked up, and the other returns
whenever the one does. -/
theorem ofFacts_agrees_with_rootsSeen (t : FileTree) (repository : Path) (facts : RepositoryFacts)
    (trimmed : Trimmed facts) (name : String) (canonical : Specifier.package? name = some name) :
    match ofFacts t repository facts with
    | .ok i => ∃ roots, rootsSeen t repository name facts = .ok roots ∧ Agrees facts i name roots
    | .error e => ∃ f ∈ facts.files, ∃ i ∈ f.imports, ∃ other,
        Specifier.package? i.module = some other ∧
        seenFrom? t repository f.path other = .error e := by
  have named := Specifier.leads_of_package? canonical
  rcases ofFacts_cases t repository facts with ⟨i, sightings, he, h, answers⟩ | failed
  · rw [he]
    obtain ⟨roots, hr, same⟩ := rootsSeen_perm trimmed named answers h
    exact ⟨roots, hr, agrees_of_perm trimmed named answers h same⟩
  · obtain ⟨e, he, ⟨importer, other⟩, hr, stopped⟩ := failed
    rw [he]
    obtain ⟨f, hf, rfl, i, hi, hn⟩ := mem_requests.1 hr
    exact ⟨f, hf, i, hi, other, hn, sight_eq_error stopped⟩

/-- A repository with a package installed twice, at the top and in a folder. -/
def nested : FileTree :=
  let manifest : Entry := .file (.ofBytes (Text.Utf8.encode "\x7b\x7d")) true
  let installed : Entry := .folder [("pkg", .folder [("package.json", manifest)] .full)] .full
  ⟨.folder [("b", .folder [("node_modules", installed)] .full), ("node_modules", installed)] .full,
    []⟩

/-- A file that loads a module and binds no name. -/
def loading (file specifier : String) : FileFacts :=
  { path := file, imports := [⟨specifier, wildcard, wildcard, .wholeModule, ⟨file, 1, 1⟩⟩] }

def nestedFacts : RepositoryFacts :=
  { files := [loading "a.js" "pkg", loading "b/c.js" "pkg"] }

theorem trimmed_nestedFacts : Trimmed nestedFacts := by
  unfold Trimmed
  decide +kernel

/-- The package is listed, and both ways find that it is installed twice. -/
theorem ofFacts_of_nested : ∃ i roots, ofFacts nested ⟨.root, []⟩ nestedFacts = .ok i ∧
    rootsSeen nested ⟨.root, []⟩ "pkg" nestedFacts = .ok roots ∧
    Agrees nestedFacts i "pkg" roots ∧ "pkg" ∈ i.names ∧
    severalRootsWarning "pkg" ∈ i.warnings ∧ 2 ≤ roots.length := by
  have agrees := ofFacts_agrees_with_rootsSeen nested ⟨.root, []⟩ nestedFacts trimmed_nestedFacts
    "pkg" (by decide +kernel)
  have known : (ofFacts nested ⟨.root, []⟩ nestedFacts).toOption.map (·.installed) =
      some [("pkg", [⟨.root, ["node_modules", "pkg"]⟩,
        ⟨.root, ["b", "node_modules", "pkg"]⟩])] := by
    decide +kernel
  obtain ⟨i, hi, installed⟩ := Option.map_eq_some_iff.1 known
  have made := eq_ok_of_toOption hi
  rw [made] at agrees
  obtain ⟨roots, seen, told⟩ := agrees
  have several : severalRootsWarning "pkg" ∈ i.warnings := by
    rw [mem_warnings, installed]
    exact .inr ⟨"pkg", _, List.mem_cons_self, Nat.one_lt_two, rfl⟩
  have twice : 2 ≤ roots.length := told.several.1 several
  have found : roots ≠ [] := by
    rintro rfl
    cases twice
  exact ⟨i, roots, made, seen, told, told.listed.2 found, several, twice⟩

/-- One file imports the package at the top, and another one a package that may not exist. -/
def loadingBeside (name : String) : RepositoryFacts :=
  { files := [loading "a.js" "pkg", loading "b.js" name] }

theorem trimmed_loadingBeside (h : Text.strip name = name) : Trimmed (loadingBeside name) := by
  unfold Trimmed loadingBeside loading
  simp only [List.forall_mem_cons]
  exact ⟨⟨by decide +kernel, List.forall_mem_nil _⟩, ⟨h, List.forall_mem_nil _⟩,
    List.forall_mem_nil _⟩

theorem seenFrom?_of_top {t : FileTree}
    (ht : t.resolve ⟨.root, []⟩ = .ok ⟨.root, []⟩)
    (hf : t.resolve (Path.child ⟨.root, []⟩ importer) = .ok ⟨.root, [file]⟩) (name : String) :
    seenFrom? t ⟨.root, []⟩ importer name = Package.installedIn? t ⟨.root, []⟩ name := by
  unfold seenFrom?
  rw [ht]
  change (t.resolve (Path.child ⟨.root, []⟩ importer) >>= _) = _
  rw [hf]
  rfl

theorem importers_loadingBeside (h : Package.Overlong name) :
    importers (loadingBeside name) "pkg" = [loading "a.js" "pkg"] := by
  have below : Text.startsWith name ("pkg" ++ "/") = false := h.startsWith_eq (by decide)
  have other : Specifier.belongsTo name "pkg" = false := by
    unfold Specifier.belongsTo
    rw [below, beq_false_of_ne (h.ne "pkg" (by decide))]
    rfl
  have one : Specifier.belongsTo "pkg" "pkg" = true := by decide +kernel
  unfold importers loadingBeside loading
  simp [one, other]

theorem rootsSeen_loadingBeside (h : Package.Overlong name) :
    rootsSeen nested ⟨.root, []⟩ "pkg" (loadingBeside name) =
      .ok [⟨.root, ["node_modules", "pkg"]⟩] := by
  have visited : seenFrom? nested ⟨.root, []⟩ "a.js" "pkg" =
      .ok (some ⟨.root, ["node_modules", "pkg"]⟩) := eq_ok_of_toOption (by decide +kernel)
  have seen : (importers (loadingBeside name) "pkg").mapM (fun f =>
      seenFrom? nested ⟨.root, []⟩ f.path "pkg") =
        .ok [some ⟨.root, ["node_modules", "pkg"]⟩] := by
    rw [importers_loadingBeside h, List.mapM_cons, List.mapM_nil]
    dsimp only [loading]
    rw [visited]
    rfl
  rw [rootsSeen_eq seen]
  exact congrArg Except.ok (List.mergeSort_singleton _)

theorem ofFacts_loadingBeside (h : Package.Overlong name) :
    ∃ e, ofFacts nested ⟨.root, []⟩ (loadingBeside name) = .error e := by
  have top : nested.resolve ⟨.root, []⟩ = .ok ⟨.root, []⟩ := eq_ok_of_toOption (by decide +kernel)
  have file : nested.resolve (Path.child ⟨.root, []⟩ "b.js") = .ok ⟨.root, ["b.js"]⟩ :=
    eq_ok_of_toOption (by decide +kernel)
  rcases ofFacts_cases nested ⟨.root, []⟩ (loadingBeside name) with
    ⟨i, sightings, _, _, answers⟩ | ⟨e, he, _⟩
  · have requested : ("b.js", name) ∈ requests (loadingBeside name) :=
      mem_requests.2 ⟨_, List.mem_cons_of_mem _ List.mem_cons_self, rfl, _, List.mem_cons_self,
        h.package?_eq⟩
    obtain ⟨s, _, hs⟩ := exists_right_of_forall₂ answers requested
    have seen := (sight_eq_ok_iff.1 hs).2
    rw [seenFrom?_of_top top file, h.installedIn?_eq rfl rfl] at seen
    cases seen
  · exact ⟨e, he⟩

/-- There is no inventory of a repository that imports a package with so long a name, though the
roots of the other package are seen. -/
theorem ofFacts_of_overlong :
    let facts := loadingBeside (String.ofList (List.replicate 256 'a'))
    Trimmed facts ∧ Specifier.package? "pkg" = some "pkg" ∧
      (∃ e, ofFacts nested ⟨.root, []⟩ facts = .error e) ∧
      rootsSeen nested ⟨.root, []⟩ "pkg" facts = .ok [⟨.root, ["node_modules", "pkg"]⟩] := by
  have long : Package.Overlong (String.ofList (List.replicate 256 'a')) :=
    .of_replicate (by decide) (by decide)
  exact ⟨trimmed_loadingBeside long.strip_eq, by decide +kernel, ofFacts_loadingBeside long,
    rootsSeen_loadingBeside long⟩

end Inventory

end PackageUsage
