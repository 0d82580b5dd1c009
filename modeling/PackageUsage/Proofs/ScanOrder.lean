import Mathlib.Algebra.BigOperators.Group.List.Basic
import Mathlib.Data.List.Forall2
import Mathlib.Data.List.Induction
import PackageUsage.Proofs.ReorderedFiles
import PackageUsage.Proofs.TalliedReferences

namespace PackageUsage
set_option autoImplicit true

namespace Tally

theorem mem_iff_count {t : Tally} (hn : t.names.Nodup) :
    (name, n) ∈ t ↔ name ∈ t.names ∧ t.count name = n := by
  have counted {m : Int} (hm : (name, m) ∈ t) : t.count name = m := by
    rw [count, (lookup_eq_some_iff_mem hn).2 hm, Option.getD_some]
  constructor
  · exact fun hm => ⟨List.mem_map_of_mem hm, counted hm⟩
  · rintro ⟨hm, rfl⟩
    obtain ⟨⟨k, m⟩, he, rfl⟩ := List.mem_map.1 hm
    rw [counted he]
    exact he

theorem perm_of_count {t t' : Tally} (hn : t.names.Nodup) (hn' : t'.names.Nodup)
    (names : ∀ name, name ∈ t.names ↔ name ∈ t'.names)
    (counts : ∀ name, t.count name = t'.count name) : t.Perm t' := by
  refine (List.perm_ext_iff_of_nodup (.of_map _ hn) (.of_map _ hn')).2 ?_
  rintro ⟨name, n⟩
  rw [mem_iff_count hn, mem_iff_count hn', names, counts]

theorem addAll_perm {t refs refs' : Tally} (hn : t.names.Nodup) (h : refs.Perm refs') :
    (t.addAll refs).Perm (t.addAll refs') := by
  refine perm_of_count (nodup_names_addAll hn refs) (nodup_names_addAll hn refs') ?_ ?_
  · intro name
    have same : name ∈ Tally.names refs ↔ name ∈ Tally.names refs' := (h.map _).mem_iff
    rw [mem_names_addAll, mem_names_addAll, same]
  · intro name
    rw [count_addAll, count_addAll, total_eq_sum, total_eq_sum, ((h.filter _).map _).sum_eq]

end Tally

theorem Text.By.both (h : By f r a b) (k : By f r b a) : f a = f b ∧ r a b ∧ r b a := by
  have apart {a b : String} (h : lt a b) (k : lt b a) : False := ne_of_lt (lt_trans h k) rfl
  rcases h with h | ⟨hf, h⟩
  · rcases k with k | ⟨kf, _⟩
    · exact (apart h k).elim
    · exact (ne_of_lt h kf.symm).elim
  · rcases k with k | ⟨_, k⟩
    · exact (ne_of_lt k hf.symm).elim
    · exact ⟨hf, h, k⟩

theorem Location.le_antisymm (h : le a b) (k : le b a) : a = b := by
  rw [le_iff] at h k
  obtain ⟨hf, h, k⟩ := h.both k
  obtain ⟨file, line, column⟩ := a
  obtain ⟨file', line', column'⟩ := b
  dsimp only at hf h k
  rw [Location.mk.injEq]
  refine ⟨hf, ?_, ?_⟩ <;> omega

theorem forall₂_of_map_eq {f : α → γ} {g : β → γ} {R : α → β → Prop} {xs : List α} {ys : List β}
    (h : xs.map f = ys.map g) (hR : ∀ x ∈ xs, ∀ y ∈ ys, f x = g y → R x y) :
    List.Forall₂ R xs ys := by
  induction xs generalizing ys with
  | nil =>
    cases List.map_eq_nil_iff.1 h.symm
    exact .nil
  | cons x xs ih =>
    cases ys with
    | nil => cases h
    | cons y ys =>
      rw [List.map_cons, List.map_cons, List.cons.injEq] at h
      refine .cons (hR x List.mem_cons_self y List.mem_cons_self h.1) (ih h.2 ?_)
      exact fun x' hx y' hy => hR x' (List.mem_cons_of_mem _ hx) y' (List.mem_cons_of_mem _ hy)

namespace ImportUse

/-- Entries about the same export with the same locations and the same chains. -/
structure Alike (v w : ImportUse) : Prop where
  name : v.name = w.name
  module : v.module = w.module
  locations : v.locations = w.locations
  provenance : ∀ c, c ∈ v.provenance ↔ c ∈ w.provenance

theorem mem_provenance_merge (u v : ImportUse) :
    c ∈ (u.merge v).provenance ↔ c ∈ u.provenance ∨ c ∈ v.provenance := by
  rw [merge]
  dsimp only
  generalize u.provenance = known
  induction v.provenance generalizing known with
  | nil => exact (or_iff_left List.not_mem_nil).symm
  | cons d rest ih =>
    rw [List.foldl_cons, ih, List.mem_cons]
    split
    · rename_i hd
      refine ⟨Or.imp_right .inr, ?_⟩
      rintro (hc | rfl | hc)
      · exact .inl hc
      · exact .inl hd
      · exact .inr hc
    · rw [List.mem_append, List.mem_singleton, or_assoc]

/-- The entries have the chains of the occurrences that they are about. -/
def Traced (os : List Occurrence) (us : List ImportUse) : Prop :=
  ∀ v ∈ us, ∀ c, c ∈ v.provenance ↔ ∃ o ∈ os, o.key = v.key ∧ c ∈ o.provenance

theorem traced_nil : Traced [] [] := fun _ hv => (List.not_mem_nil hv).elim

theorem Traced.insert (h : Traced os us) (hg : Grouped os us) (o : Occurrence) :
    Traced (os ++ [o]) (o.entry.insert us) := by
  intro w hw c
  simp only [List.mem_append, List.mem_singleton, or_and_right, exists_or, exists_eq_left]
  rcases mem_insert hg.distinct hw with ⟨hm, hk⟩ | ⟨u, hu, hk, rfl⟩ | ⟨hk, rfl⟩
  · rw [h w hm]
    exact (or_iff_left fun hh => hk hh.1.symm).symm
  · rw [mem_provenance_merge, h u hu]
    exact or_congr_right (and_iff_right hk.symm).symm
  · have none : ¬ ∃ x ∈ os, x.key = o.entry.key ∧ c ∈ x.provenance := by
      rintro ⟨x, hx, he, _⟩
      exact hk ((hg.keys _).2 (he ▸ List.mem_map_of_mem hx))
    exact ((or_iff_right none).trans (and_iff_right rfl)).symm

theorem Traced.sorted (h : Traced os us) : Traced os (sorted us) := by
  intro v hv c
  obtain ⟨u, hu, rfl⟩ := List.mem_map.1 hv
  exact h u (List.mem_mergeSort.1 hu) c

theorem Lists.keys_eq (h : Lists os us) (h' : Lists os' us') (perm : os.Perm os') :
    us.map key = us'.map key := by
  let before := Text.By Prod.fst fun k l : String × String => Text.lt k.2 l.2
  have strict {us : List ImportUse} (hs : us.Pairwise Before) : (us.map key).Pairwise before :=
    List.pairwise_map.2 hs
  have irrefl {k : String × String} (hk : before k k) : False :=
    Text.ne_of_lt (hk.both hk).2.1 rfl
  have nodup {us : List ImportUse} (hs : us.Pairwise Before) : (us.map key).Nodup :=
    (strict hs).imp fun {k l} (hk : before k l) (he : k = l) => irrefl (he ▸ hk)
  refine List.Perm.eq_of_pairwise ?_ (strict h.strict) (strict h'.strict)
    ((List.perm_ext_iff_of_nodup (nodup h.strict) (nodup h'.strict)).2 fun k => ?_)
  · intro k l _ _ hk hl
    exact (irrefl (Text.By.trans Text.lt_trans hk hl)).elim
  · rw [h.keys, h'.keys, (perm.map _).mem_iff]

/-- The lists of the same occurrences are alike, in whatever order these come. -/
theorem Lists.alike (h : Lists os us) (h' : Lists os' us') (perm : os.Perm os')
    (ht : Traced all us) (ht' : Traced all' us') (permAll : all.Perm all') :
    List.Forall₂ Alike us us' := by
  refine forall₂_of_map_eq (h.keys_eq h' perm) fun v hv w hw hk => ?_
  have locations : v.locations.Perm w.locations := by
    refine (h.locations v hv).trans (.trans ?_ (h'.locations w hw).symm)
    rw [hk]
    exact (perm.filter _).map _
  refine ⟨congrArg Prod.snd hk, congrArg Prod.fst hk, ?_, fun c => ?_⟩
  · exact locations.eq_of_pairwise (fun _ _ _ _ => Location.le_antisymm) (h.ordered v hv)
      (h'.ordered w hw)
  · rw [ht v hv, ht' w hw, hk]
    simp only [permAll.mem_iff]

end ImportUse

namespace Usage

/-- Two accounts of the usage of a package that tell the same. -/
structure Alike (u u' : Usage) : Prop where
  exports : u.usedExports = u'.usedExports
  counts : u.counts.Perm u'.counts
  once : u.counts.names.Nodup
  used : List.Forall₂ ImportUse.Alike u.usedImports u'.usedImports
  unused : List.Forall₂ ImportUse.Alike u.unusedImports u'.unusedImports
  ambiguous : u.ambiguous = u'.ambiguous
  warnings : u.warnings = u'.warnings
  ranked : ∀ limit, firstOf limit u.ranked = firstOf limit u'.ranked

theorem ambiguous_tallyAll (u : Usage) (refs : Tally) :
    (u.tallyAll refs).ambiguous = u.ambiguous := by
  induction refs generalizing u with
  | nil => rfl
  | cons e rest ih => exact ih (u.tally e.1 e.2)

theorem ambiguous_run (u : Usage) (os : List Occurrence) :
    (os.foldl addOccurrence u).ambiguous =
      (u.ambiguous || os.any fun o => isAmbiguous o.file o.imported) := by
  induction os generalizing u with
  | nil => exact (Bool.or_false _).symm
  | cons o os ih =>
    have step : (u.addOccurrence o).ambiguous =
        (u.ambiguous || isAmbiguous o.file o.imported) :=
      congrArg (· || _) (ambiguous_tallyAll u _)
    rw [List.foldl_cons, ih, step, List.any_cons, Bool.or_assoc]

/-- The entries of both lists after some imports have the chains of these. -/
structure Traces (os : List Occurrence) (u : Usage) : Prop where
  used : ImportUse.Traced (os.filter (·.isUsed)) u.used
  unused : ImportUse.Traced (os.filter (!·.isUsed)) u.unused

theorem Traces.addOccurrence (h : Traces os u) (hl : Listed os u) (o : Occurrence) :
    Traces (os ++ [o]) (u.addOccurrence o) := by
  obtain ⟨used, unused, _⟩ := addOccurrence_frame u o
  cases hu : o.isUsed with
  | true =>
    rw [hu, if_pos rfl] at used unused
    constructor
    · rw [used, List.filter_append, List.filter_cons_of_pos hu]
      exact h.used.insert hl.used o
    · rw [unused, List.filter_append, List.filter_cons_of_neg (by rw [hu]; exact nofun)]
      exact (List.append_nil _).symm ▸ h.unused
  | false =>
    rw [hu, if_neg Bool.false_ne_true] at used unused
    constructor
    · rw [used, List.filter_append, List.filter_cons_of_neg (by rw [hu]; exact nofun)]
      exact (List.append_nil _).symm ▸ h.used
    · rw [unused, List.filter_append, List.filter_cons_of_pos (by rw [hu]; rfl)]
      exact h.unused.insert hl.unused o

theorem traces_run (os : List Occurrence) : Traces os (os.foldl addOccurrence {}) := by
  -- from the back, so that the last occurrence is added to what the others came to
  induction os using List.reverseRecOn with
  | nil => exact ⟨ImportUse.traced_nil, ImportUse.traced_nil⟩
  | append_singleton os o ih =>
    rw [List.foldl_append]
    exact ih.addOccurrence (listed_run os) o

theorem countLe_iff (a b : SymbolUsage) :
    countLe a b ↔ b.count < a.count ∨ a.count = b.count ∧ Text.le a.name b.name := by
  rw [countLe]
  split
  · rename_i hc
    simp only [hc, Int.lt_irrefl, true_and, false_or]
  · rename_i hc
    simp only [hc, decide_eq_true_eq, false_and, or_false]
    omega

theorem countLe_total (a b : SymbolUsage) : (countLe a b || countLe b a) = true := by
  have names := Text.le_total a.name b.name
  rw [Bool.or_eq_true] at names ⊢
  rw [countLe_iff, countLe_iff]
  rcases Int.lt_trichotomy a.count b.count with h | h | h
  · exact .inr (.inl h)
  · exact names.imp (fun hn => .inr ⟨h, hn⟩) (fun hn => .inr ⟨h.symm, hn⟩)
  · exact .inl (.inl h)

theorem countLe_trans {a b c : SymbolUsage} (h : countLe a b) (k : countLe b c) :
    countLe a c := by
  rw [countLe_iff] at *
  rcases h with h | ⟨h, hn⟩
  · rcases k with k | ⟨k, _⟩
    · exact .inl (Int.lt_trans k h)
    · exact .inl (k ▸ h)
  · rcases k with k | ⟨k, kn⟩
    · exact .inl (h ▸ k)
    · exact .inr ⟨h.trans k, Text.le_trans hn kn⟩

theorem countLe_antisymm {a b : SymbolUsage} (h : countLe a b) (k : countLe b a) : a = b := by
  rw [countLe_iff] at h k
  rcases h with h | ⟨h, hn⟩
  · rcases k with k | ⟨k, _⟩
    · omega
    · omega
  · rcases k with k | ⟨_, kn⟩
    · omega
    · obtain ⟨_, _⟩ := a
      obtain ⟨_, _⟩ := b
      rw [SymbolUsage.mk.injEq]
      exact ⟨Text.le_antisymm hn kn, h⟩

theorem ranked_eq {u u' : Usage} (h : u.counts.Perm u'.counts) : u.ranked = u'.ranked := by
  have sorted (us : List SymbolUsage) : (us.mergeSort countLe).Pairwise fun a b => countLe a b :=
    @List.pairwise_mergeSort _ countLe (fun _ _ _ => countLe_trans) countLe_total us
  exact (((List.mergeSort_perm _ _).trans (h.map _)).trans
    (List.mergeSort_perm _ _).symm).eq_of_pairwise (fun _ _ _ _ => countLe_antisymm) (sorted _)
      (sorted _)

theorem run_bare (u : Usage) (os : List Occurrence) :
    (os.map (·.bare)).foldl addOccurrence u = os.foldl addOccurrence u :=
  List.foldl_map

theorem unusedThroughout_perm (h : os.Perm os') :
    (unusedThroughout os).Perm (unusedThroughout os') := by
  have same : (fun o : Occurrence => !os.any fun x => x.isUsed && x.key == o.key) =
      fun o => !os'.any fun x => x.isUsed && x.key == o.key :=
    funext fun o => congrArg (!·) h.any_eq
  rw [unusedThroughout, unusedThroughout, same]
  exact h.filter _

section
variable {os os' : List Occurrence}

theorem exports_run_perm (h : os.Perm os') :
    (os.foldl addOccurrence {}).exports.Perm (os'.foldl addOccurrence {}).exports := by
  have tallied := tallied_run {} os
  have tallied' := tallied_run {} os'
  refine (List.perm_ext_iff_of_nodup (tallied.distinct .nil) (tallied'.distinct .nil)).2 ?_
  intro name
  rw [tallied.exports, tallied'.exports]
  simp only [h.mem_iff]

theorem counts_run_perm (h : os.Perm os') :
    (os.foldl addOccurrence {}).counts.Perm (os'.foldl addOccurrence {}).counts := by
  rw [(tallied_run {} os).counts, (tallied_run {} os').counts]
  exact Tally.addAll_perm .nil (h.flatMap_right _)

theorem ambiguous_run_eq (h : os.Perm os') :
    (os.foldl addOccurrence {}).ambiguous = (os'.foldl addOccurrence {}).ambiguous := by
  rw [ambiguous_run, ambiguous_run, h.any_eq]

theorem usedImports_run_alike (h : os.Perm os') :
    List.Forall₂ ImportUse.Alike (os.foldl addOccurrence {}).usedImports
      (os'.foldl addOccurrence {}).usedImports :=
  (listed_run os).used.sorted.alike (listed_run os').used.sorted (h.filter _)
    (traces_run os).used.sorted (traces_run os').used.sorted (h.filter _)

theorem unusedImports_run_alike (h : os.Perm os') :
    List.Forall₂ ImportUse.Alike (os.foldl addOccurrence {}).unusedImports
      (os'.foldl addOccurrence {}).unusedImports := by
  have kept {os : List Occurrence} : ImportUse.Traced (os.filter (!·.isUsed))
      (os.foldl addOccurrence {}).unusedImports :=
    fun v hv => (traces_run os).unused.sorted v (List.mem_filter.1 hv).1
  exact (listed_run os).unusedImports.alike (listed_run os').unusedImports
    (unusedThroughout_perm h) kept kept (h.filter _)

end

/-- What is known of the usage of a package depends neither on the order of the files nor on that of
the imports in a file. -/
theorem ofFacts_reordered (package : String) (h : facts.Reordered facts') (hd : facts.Distinct) :
    (ofFacts package facts).Alike (ofFacts package facts') := by
  have perm := occurrences_reordered h hd package
  have exports := exports_run_perm perm
  have counts := counts_run_perm perm
  have ambiguous := ambiguous_run_eq perm
  have used := usedImports_run_alike perm
  have unused := unusedImports_run_alike perm
  rw [run_bare, run_bare] at exports counts ambiguous used unused
  have once : ((occurrences facts package).foldl addOccurrence {}).counts.names.Nodup := by
    rw [(tallied_run {} _).counts]
    exact Tally.nodup_names_addAll (t := []) .nil _
  rw [ofFacts_eq_run, ofFacts_eq_run]
  constructor
  · exact Text.sort_perm exports
  · exact counts
  · exact once
  · exact used
  · exact unused
  · exact ambiguous
  · dsimp only
    rw [(listed_run _).warnings, (listed_run _).warnings, exports.isEmpty_eq, ambiguous,
      warnings_resolverAfter_reordered h hd]
  · exact fun limit => congrArg (firstOf limit) (ranked_eq counts)

/-- One import is attributed past a circle, and two are of the same export. -/
theorem ofFacts_reordered_past_circle :
    let ask : Import := ⟨"./b", "f", "f", .named, ⟨"a.js", 1, 10⟩⟩
    let direct : Import := ⟨"p", "h", "h", .named, ⟨"a.js", 2, 10⟩⟩
    let importer (is : List Import) : FileFacts :=
      { path := "a.js", imports := is, reads := [("f", 2), ("h", 1)] }
    let between : FileFacts := { path := "b.js", reexports := [⟨"f", "./c", "f"⟩] }
    let provider : FileFacts :=
      { path := "c.js", reexports := [⟨"f", "./b", "f"⟩, ⟨"f", "p", "h"⟩] }
    let facts : RepositoryFacts := { files := [importer [ask, direct], between, provider] }
    let facts' : RepositoryFacts := { files := [provider, between, importer [direct, ask]] }
    facts.Reordered facts' ∧ facts.Distinct ∧
      (ofFacts "p" facts).Alike (ofFacts "p" facts') ∧
      (ofFacts "p" facts).counts = [("h", 3)] ∧ (ofFacts "p" facts).warnings.length = 1 := by
  intro ask direct importer between provider facts facts'
  have reordered : facts.Reordered facts' := by
    refine ⟨[provider, between, importer [ask, direct]], ?_, ?_⟩
    · exact (List.reverse_perm facts.files).symm
    · exact .cons ⟨rfl, .refl _⟩ (.cons ⟨rfl, .refl _⟩ (.cons ⟨rfl, .swap _ _ _⟩ .nil))
  have distinct : facts.Distinct := by decide +kernel
  have ran : (ofFacts "p" facts).counts = [("h", 3)] ∧ (ofFacts "p" facts).warnings.length = 1 := by
    decide +kernel
  exact ⟨reordered, distinct, ofFacts_reordered "p" reordered distinct, ran⟩

end Usage

end PackageUsage
