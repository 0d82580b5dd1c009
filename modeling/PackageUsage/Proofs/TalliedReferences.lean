import Mathlib.Algebra.Ring.Int.Defs
import PackageUsage.Proofs.ImportAccounting

namespace PackageUsage
set_option autoImplicit true

namespace Tally

/-- Counts all names of another tally. -/
def addAll (t refs : Tally) : Tally := refs.foldl (fun t e => t.add e.1 e.2) t

theorem addAll_append (t refs more : Tally) :
    t.addAll (refs ++ more) = (t.addAll refs).addAll more :=
  List.foldl_append

@[simp] theorem names_cons (e : String × Int) (t : Tally) : names (e :: t) = e.1 :: t.names := rfl

theorem count_cons (k name : String) (n : Int) (t : Tally) :
    count ((k, n) :: t) name = if name = k then n else t.count name := by
  rw [count, List.lookup_cons]
  split
  · rename_i he
    rw [if_pos (beq_iff_eq.1 he), Option.getD_some]
  · rename_i he
    rw [if_neg (beq_eq_false_iff_ne.1 he), count]

theorem count_add (t : Tally) (k name : String) (n : Int) :
    (t.add k n).count name = t.count name + if name = k then n else 0 := by
  induction t with
  | nil =>
    rw [add, count_cons]
    exact (Int.zero_add _).symm
  | cons e rest ih =>
    obtain ⟨k', m⟩ := e
    rw [add]
    split
    · rename_i hk
      rw [count_cons, count_cons, hk]
      split
      · rfl
      · exact (Int.add_zero _).symm
    · rename_i hk
      rw [count_cons, count_cons, ih]
      split
      · rename_i he
        rw [if_neg fun h => hk (he.symm.trans h), Int.add_zero]
      · rfl

theorem total_eq_sum (t : Tally) : t.total = (t.map (·.2)).sum := by
  induction t with
  | nil => rfl
  | cons e rest ih => rw [List.map_cons, List.sum_cons, ← ih, total, List.foldr_cons, ← total]

theorem total_add (t : Tally) (k : String) (n : Int) : (t.add k n).total = t.total + n := by
  induction t with
  | nil => exact Int.add_comm n 0
  | cons e rest ih =>
    obtain ⟨k', m⟩ := e
    simp only [total_eq_sum] at ih ⊢
    rw [add]
    split
    · simp only [List.map_cons, List.sum_cons]
      omega
    · simp only [List.map_cons, List.sum_cons, ih]
      omega

theorem nodup_names_add {t : Tally} (h : t.names.Nodup) (k : String) (n : Int) :
    (t.add k n).names.Nodup := by
  induction t with
  | nil => exact List.nodup_singleton k
  | cons e rest ih =>
    obtain ⟨k', m⟩ := e
    obtain ⟨hk', hrest⟩ := List.nodup_cons.1 h
    rw [add]
    split
    · exact h
    · rename_i hk
      refine List.nodup_cons.2 ⟨?_, ih hrest⟩
      rw [← names, mem_names_add, not_or]
      exact ⟨hk, hk'⟩

theorem mem_names_addAll (t refs : Tally) :
    name ∈ (t.addAll refs).names ↔ name ∈ t.names ∨ name ∈ refs.names := by
  induction refs generalizing t with
  | nil => exact (or_iff_left List.not_mem_nil).symm
  | cons e rest ih =>
    refine (ih (t.add e.1 e.2)).trans ?_
    rw [mem_names_add, names_cons, List.mem_cons, or_assoc, or_left_comm]

theorem nodup_names_addAll {t : Tally} (h : t.names.Nodup) (refs : Tally) :
    (t.addAll refs).names.Nodup := by
  induction refs generalizing t with
  | nil => exact h
  | cons e rest ih => exact ih (nodup_names_add h e.1 e.2)

theorem count_addAll (t refs : Tally) (name : String) :
    (t.addAll refs).count name = t.count name + total (refs.filter (·.1 = name)) := by
  induction refs generalizing t with
  | nil => exact (Int.add_zero _).symm
  | cons e rest ih =>
    refine (ih (t.add e.1 e.2)).trans ?_
    rw [count_add, List.filter_cons, Int.add_assoc, total_eq_sum, total_eq_sum]
    split
    · rename_i he
      rw [he, decide_eq_true rfl, if_pos rfl, List.map_cons, List.sum_cons]
    · rename_i he
      rw [decide_eq_false (Ne.symm he), Int.zero_add]
      rfl

theorem total_addAll (t refs : Tally) : (t.addAll refs).total = t.total + refs.total := by
  induction refs generalizing t with
  | nil => exact (Int.add_zero _).symm
  | cons e rest ih =>
    refine (ih (t.add e.1 e.2)).trans ?_
    rw [total_add, Int.add_assoc, total_eq_sum (e :: rest), List.map_cons, List.sum_cons,
      total_eq_sum rest]

end Tally

namespace Occurrence

/-- What an import of the package is counted for. -/
def references (o : Occurrence) : Tally := (Usage.references o.file o.imported).1

theorem mem_names_references (o : Occurrence) : name ∈ o.references.names ↔
    if o.imported.kind = .named then o.isUsed = true ∧ name = o.imported.exportName
    else name ∈ (o.file.membersOf o.imported.localName).names ∨
      0 < o.file.directReads o.imported.localName ∧
        name = if o.imported.kind = .defaultExport then defaultName else wildcard := by
  rw [references, Usage.references, isUsed]
  split
  · dsimp only
    split
    · rename_i hn
      rw [decide_eq_true hn]
      exact List.mem_singleton.trans (and_iff_right rfl).symm
    · rename_i hn
      rw [decide_eq_false hn]
      exact ⟨fun h => (List.not_mem_nil h).elim, fun h => (Bool.false_ne_true h.1).elim⟩
  · have sorted : name ∈ Tally.names
        ((o.file.membersOf o.imported.localName).mergeSort fun a b => Text.le a.1 b.1) ↔
          name ∈ (o.file.membersOf o.imported.localName).names :=
      ((List.mergeSort_perm _ _).map _).mem_iff
    dsimp only
    split
    · rename_i hd
      rw [Tally.names, List.map_append, List.mem_append, List.map_singleton, List.mem_singleton,
        ← Tally.names, sorted]
      simp only [hd, true_and]
    · rename_i hd
      rw [sorted]
      simp only [hd, false_and, or_false]

end Occurrence

namespace Usage

theorem tallyAll_counts (u : Usage) (refs : Tally) :
    (u.tallyAll refs).counts = u.counts.addAll refs := by
  induction refs generalizing u with
  | nil => rfl
  | cons e rest ih => exact ih (u.tally e.1 e.2)

theorem mem_tallyAll_exports (u : Usage) (refs : Tally) :
    name ∈ (u.tallyAll refs).exports ↔ name ∈ u.exports ∨ name ∈ refs.names := by
  induction refs generalizing u with
  | nil => exact (or_iff_left List.not_mem_nil).symm
  | cons e rest ih =>
    refine (ih (u.tally e.1 e.2)).trans ?_
    rw [Usage.tally, List.mem_insert_iff, Tally.names_cons, List.mem_cons, or_assoc, or_left_comm]

theorem nodup_tallyAll_exports {u : Usage} (h : u.exports.Nodup) (refs : Tally) :
    (u.tallyAll refs).exports.Nodup := by
  induction refs generalizing u with
  | nil => exact h
  | cons e rest ih => exact ih (u := u.tally e.1 e.2) h.insert

/-- What a run over some imports of the package adds to a tally. -/
structure Tallied (u : Usage) (os : List Occurrence) (u' : Usage) : Prop where
  counts : u'.counts = u.counts.addAll (os.flatMap (·.references))
  exports : ∀ name, name ∈ u'.exports ↔
    name ∈ u.exports ∨ ∃ o ∈ os, name ∈ o.references.names
  distinct : u.exports.Nodup → u'.exports.Nodup

theorem tallied_addOccurrence (u : Usage) (o : Occurrence) : Tallied u [o] (u.addOccurrence o) where
  counts := by
    rw [List.flatMap_singleton]
    exact tallyAll_counts u _
  exports name := by
    simp only [List.mem_singleton, exists_eq_left]
    exact mem_tallyAll_exports u _
  distinct h := nodup_tallyAll_exports h _

theorem Tallied.trans (h : Tallied u os u') (h' : Tallied u' os' u'') :
    Tallied u (os ++ os') u'' where
  counts := by rw [h'.counts, h.counts, List.flatMap_append, Tally.addAll_append]
  exports name := by
    rw [h'.exports, h.exports, or_assoc]
    simp only [List.mem_append, or_and_right, exists_or]
  distinct hd := h'.distinct (h.distinct hd)

theorem tallied_run (u : Usage) (os : List Occurrence) :
    Tallied u os (os.foldl addOccurrence u) := by
  induction os generalizing u with
  | nil =>
    refine ⟨rfl, fun name => (or_iff_left ?_).symm, id⟩
    rintro ⟨o, ho, _⟩
    cases ho
  | cons o os ih => exact (tallied_addOccurrence u o).trans (ih (u.addOccurrence o))

/-- Apart from the warnings, what is known of a repository comes from the run over its imports of
the package. -/
theorem ofFacts_frame (package : String) (facts : RepositoryFacts) : ∃ warnings,
    ofFacts package facts =
      { (occurrences facts package).foldl addOccurrence {} with warnings } := by
  obtain ⟨_, _, he⟩ := ofFacts_eq package facts
  exact ⟨_, he⟩

theorem listed_ofFacts (package : String) (facts : RepositoryFacts) : ∃ u warnings,
    Listed (occurrences facts package) u ∧ ofFacts package facts = { u with warnings } := by
  obtain ⟨warnings, he⟩ := ofFacts_frame package facts
  exact ⟨_, warnings, listed_run _, he⟩

theorem tallied_ofFacts (package : String) (facts : RepositoryFacts) :
    Tallied {} (occurrences facts package) (ofFacts package facts) := by
  obtain ⟨warnings, he⟩ := ofFacts_frame package facts
  have h := tallied_run {} (occurrences facts package)
  rw [he]
  exact ⟨h.counts, h.exports, h.distinct⟩

theorem mem_usedExports_ofFacts (package : String) (facts : RepositoryFacts) :
    name ∈ (ofFacts package facts).usedExports ↔
      ∃ o ∈ occurrences facts package, name ∈ o.references.names := by
  rw [usedExports, Text.mem_sort, (tallied_ofFacts package facts).exports]
  exact or_iff_right List.not_mem_nil

end Usage

end PackageUsage
