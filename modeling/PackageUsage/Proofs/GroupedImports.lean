import Mathlib.Data.List.Nodup
import PackageUsage.Proofs.SortedText
import PackageUsage.Usage.Basic

namespace PackageUsage
set_option autoImplicit true

namespace Text

@[simp] theorem lt_self (s : String) : lt s s = false :=
  Bool.eq_false_iff.2 fun h => ne_of_lt h rfl

theorem lt_trans (h : lt s t) (k : lt t u) : lt s u := lt_of_le_of_lt (le_of_lt h) k

theorem lt_or_gt_of_ne (h : s ≠ t) : lt s t ∨ lt t s := by
  have total := le_total s t
  rw [Bool.or_eq_true] at total
  exact total.imp (lt_of_le_of_ne · h) (lt_of_le_of_ne · h.symm)

/-- An order by a text, and by something else where the texts are the same. -/
def By (f : α → String) (r : α → α → Prop) (a b : α) : Prop :=
  lt (f a) (f b) ∨ f a = f b ∧ r a b

theorem By.total {r : α → α → Prop} (hr : ∀ a b, r a b ∨ r b a) (a b : α) :
    By f r a b ∨ By f r b a := by
  by_cases hf : f a = f b
  · exact (hr a b).imp (fun h => .inr ⟨hf, h⟩) (fun h => .inr ⟨hf.symm, h⟩)
  · exact (lt_or_gt_of_ne hf).imp .inl .inl

theorem By.trans (hr : r a b → r b c → r a c) (h : By f r a b) (k : By f r b c) :
    By f r a c := by
  rcases h with h | ⟨hf, h⟩
  · rcases k with k | ⟨kf, _⟩
    · exact .inl (lt_trans h k)
    · exact .inl (kf ▸ h)
  · rcases k with k | ⟨kf, k⟩
    · exact .inl (hf ▸ k)
    · exact .inr ⟨hf.trans kf, hr h k⟩

end Text

namespace Location

theorem le_iff (a b : Location) : le a b ↔ Text.By file
    (fun a b => a.line < b.line ∨ a.line = b.line ∧ a.column ≤ b.column) a b := by
  rw [le, Text.By]
  split
  · rename_i hf
    split
    · rename_i hl
      simp only [hf, hl, Text.lt_self, Int.lt_irrefl, decide_eq_true_eq, true_and, false_or,
        Bool.false_eq_true]
    · rename_i hl
      simp only [hf, hl, Text.lt_self, decide_eq_true_eq, true_and, false_and, or_false, false_or,
        Bool.false_eq_true]
  · rename_i hf
    simp only [hf, false_and, or_false]

theorem le_total (a b : Location) : (le a b || le b a) = true := by
  rw [Bool.or_eq_true, le_iff, le_iff]
  exact Text.By.total (fun a b => by omega) a b

theorem le_trans {a b c : Location} (h : le a b) (k : le b c) : le a c := by
  rw [le_iff] at *
  exact Text.By.trans (fun h k => by omega) h k

theorem pairwise_sort (ls : List Location) : (sort ls).Pairwise fun a b => le a b :=
  @List.pairwise_mergeSort _ le (fun _ _ _ => le_trans) le_total ls

end Location

namespace ImportUse

/-- Before another entry, by module, then name. -/
def Before : ImportUse → ImportUse → Prop :=
  Text.By module fun u v => Text.lt u.name v.name

theorem keyLe_iff (u v : ImportUse) :
    keyLe u v ↔ Text.By module (fun u v => Text.le u.name v.name) u v := by
  rw [keyLe, Text.By]
  split
  · rename_i hm
    simp only [hm, Text.lt_self, true_and, false_or, Bool.false_eq_true]
  · rename_i hm
    simp only [hm, false_and, or_false]
    exact ⟨(Text.lt_of_le_of_ne · hm), Text.le_of_lt⟩

theorem keyLe_total (u v : ImportUse) : (keyLe u v || keyLe v u) = true := by
  rw [Bool.or_eq_true, keyLe_iff, keyLe_iff]
  refine Text.By.total (fun u v => ?_) u v
  rw [← Bool.or_eq_true]
  exact Text.le_total u.name v.name

theorem keyLe_trans {u v w : ImportUse} (h : keyLe u v) (k : keyLe v w) : keyLe u w := by
  rw [keyLe_iff] at *
  exact Text.By.trans (fun h k => Text.le_trans h k) h k

theorem before_of_keyLe {u v : ImportUse} (h : keyLe u v) (hne : u.key ≠ v.key) : Before u v := by
  refine ((keyLe_iff u v).1 h).imp_right fun ⟨hm, hn⟩ => ⟨hm, Text.lt_of_le_of_ne hn ?_⟩
  intro he
  exact hne (Prod.ext hm he)

end ImportUse

/-- An import of the package, as the export that it comes down to. -/
structure Occurrence where
  file : FileFacts
  imported : Import
  provenance : List String

namespace Occurrence

def key (o : Occurrence) : String × String := (o.imported.module, o.imported.exportName)

def location (o : Occurrence) : Location := o.imported.location

/-- A named import is used if its name is read. Any other is used if a member is reached through
it, or if it is read without reaching for one. -/
def isUsed (o : Occurrence) : Bool :=
  if o.imported.kind = .named then 0 < o.file.reads.count o.imported.localName
  else !(o.file.membersOf o.imported.localName).isEmpty ||
    decide (0 < o.file.directReads o.imported.localName)

def entry (o : Occurrence) : ImportUse :=
  ⟨o.imported.exportName, o.imported.module, [o.location], o.provenance⟩

end Occurrence

namespace ImportUse

/-- The one entry for each key of some occurrences has their locations. -/
structure Grouped (os : List Occurrence) (us : List ImportUse) : Prop where
  distinct : (us.map key).Nodup
  keys : ∀ k, k ∈ us.map key ↔ k ∈ os.map (·.key)
  locations : ∀ v ∈ us, v.locations = (os.filter (·.key = v.key)).map (·.location)

theorem grouped_nil : Grouped [] [] where
  distinct := .nil
  keys _ := .rfl
  locations _ hv := (List.not_mem_nil hv).elim

@[simp] theorem key_merge (u v : ImportUse) : (u.merge v).key = u.key := rfl

@[simp] theorem key_entry (o : Occurrence) : o.entry.key = o.key := rfl

theorem Grouped.any_key (h : Grouped os us) (k : String × String) :
    us.any (·.key == k) = os.any (·.key == k) := by
  have both := h.keys k
  simp only [List.mem_map] at both
  rw [Bool.eq_iff_iff]
  simp only [List.any_eq_true, beq_iff_eq, both]

theorem insert_ne_nil (v : ImportUse) (us : List ImportUse) : insert v us ≠ [] := by
  cases us with
  | nil => exact List.cons_ne_nil _ _
  | cons u rest =>
    rw [insert]
    split <;> exact List.cons_ne_nil _ _

theorem map_key_insert (v : ImportUse) (us : List ImportUse) :
    (insert v us).map key = if v.key ∈ us.map key then us.map key else us.map key ++ [v.key] := by
  induction us with
  | nil => rfl
  | cons u rest ih =>
    rw [insert]
    by_cases h : u.key = v.key
    · simp only [h, ↓reduceIte, List.map_cons, List.mem_cons, true_or, key_merge]
    · simp only [h, Ne.symm h, ↓reduceIte, List.map_cons, ih, List.mem_cons, false_or]
      split <;> rfl

theorem mem_insert (hn : (us.map key).Nodup) (hw : w ∈ insert v us) :
    (w ∈ us ∧ w.key ≠ v.key) ∨ (∃ u ∈ us, u.key = v.key ∧ w = u.merge v) ∨
      (v.key ∉ us.map key ∧ w = v) := by
  induction us with
  | nil => exact .inr (.inr ⟨List.not_mem_nil, List.mem_singleton.1 hw⟩)
  | cons u rest ih =>
    obtain ⟨hu, hn⟩ := List.nodup_cons.1 hn
    rw [insert] at hw
    split at hw
    · rename_i he
      rcases List.mem_cons.1 hw with rfl | hw
      · exact .inr (.inl ⟨u, List.mem_cons_self, he, rfl⟩)
      · refine .inl ⟨List.mem_cons_of_mem _ hw, fun hk => hu ?_⟩
        rw [he, ← hk]
        exact List.mem_map_of_mem hw
    · rename_i he
      rcases List.mem_cons.1 hw with rfl | hw
      · exact .inl ⟨List.mem_cons_self, he⟩
      rcases ih hn hw with ⟨hm, hk⟩ | ⟨x, hx, hk, rfl⟩ | ⟨hk, rfl⟩
      · exact .inl ⟨List.mem_cons_of_mem _ hm, hk⟩
      · exact .inr (.inl ⟨x, List.mem_cons_of_mem _ hx, hk, rfl⟩)
      · refine .inr (.inr ⟨?_, rfl⟩)
        rw [List.map_cons, List.mem_cons, not_or]
        exact ⟨Ne.symm he, hk⟩

theorem Grouped.insert (h : Grouped os us) (o : Occurrence) :
    Grouped (os ++ [o]) (o.entry.insert us) where
  distinct := by
    rw [map_key_insert]
    split
    · exact h.distinct
    · rename_i hk
      rw [← List.concat_eq_append]
      exact h.distinct.concat hk
  keys k := by
    rw [map_key_insert, List.map_append, List.mem_append, ← h.keys, List.map_singleton,
      List.mem_singleton, key_entry]
    split
    · rename_i hk
      exact (or_iff_left_of_imp fun he => he ▸ hk).symm
    · rw [List.mem_append, List.mem_singleton]
  locations w hw := by
    rw [List.filter_append, List.map_append]
    rcases mem_insert h.distinct hw with ⟨hm, hk⟩ | ⟨u, hu, hk, rfl⟩ | ⟨hk, rfl⟩
    · have none : [o].filter (·.key = w.key) = [] :=
        List.filter_cons_of_neg (mt of_decide_eq_true (Ne.symm hk))
      rw [h.locations w hm, none, List.map_nil, List.append_nil]
    · have one : [o].filter (·.key = u.key) = [o] :=
        List.filter_cons_of_pos (decide_eq_true hk.symm)
      rw [key_merge, one, ← h.locations u hu]
      rfl
    · have none : os.filter (·.key = o.key) = [] := by
        rw [List.filter_eq_nil_iff]
        intro x hx he
        refine hk ((h.keys _).2 (List.mem_map.2 ⟨x, hx, ?_⟩))
        exact of_decide_eq_true he
      have one : [o].filter (·.key = o.key) = [o] :=
        List.filter_cons_of_pos (decide_eq_true rfl)
      rw [key_entry, none, one]
      rfl

theorem sorted_eq_nil : sorted us = [] ↔ us = [] := by
  rw [sorted, List.map_eq_nil_iff, ← List.length_eq_zero_iff, List.length_mergeSort,
    List.length_eq_zero_iff]

theorem mem_map_key_sorted (us : List ImportUse) : k ∈ (sorted us).map key ↔ k ∈ us.map key := by
  rw [sorted, List.map_map]
  exact ((List.mergeSort_perm us keyLe).map key).mem_iff

theorem before_sorted (h : (us.map key).Nodup) : (sorted us).Pairwise Before := by
  have distinct : ((us.mergeSort keyLe).map key).Nodup :=
    ((List.mergeSort_perm us keyLe).map key).nodup_iff.2 h
  have ordered : (us.mergeSort keyLe).Pairwise fun u v => keyLe u v :=
    @List.pairwise_mergeSort _ keyLe (fun _ _ _ => keyLe_trans) keyLe_total us
  rw [sorted, List.pairwise_map]
  exact (ordered.and (List.pairwise_map.1 distinct)).imp fun hh => before_of_keyLe hh.1 hh.2

/-- Entries in strict order, one for each key of some occurrences, with their locations in order. -/
structure Lists (os : List Occurrence) (us : List ImportUse) : Prop where
  keys : ∀ k, k ∈ us.map key ↔ k ∈ os.map (·.key)
  locations : ∀ v ∈ us, v.locations.Perm ((os.filter (·.key = v.key)).map (·.location))
  ordered : ∀ v ∈ us, v.locations.Pairwise fun a b => Location.le a b
  strict : us.Pairwise Before

theorem Grouped.sorted (h : Grouped os us) : Lists os (sorted us) where
  keys k := (mem_map_key_sorted us).trans (h.keys k)
  locations := by
    intro v hv
    obtain ⟨u, hu, rfl⟩ := List.mem_map.1 hv
    have same := h.locations u (List.mem_mergeSort.1 hu)
    exact (List.mergeSort_perm _ _).trans (.of_eq same)
  ordered := by
    intro v hv
    obtain ⟨u, _, rfl⟩ := List.mem_map.1 hv
    exact Location.pairwise_sort _
  strict := before_sorted h.distinct

theorem Lists.restrict (h : Lists os us) (p : String × String → Bool) :
    Lists (os.filter fun o => p o.key) (us.filter fun v => p v.key) where
  keys k := by
    have both := h.keys k
    simp only [List.mem_map, List.mem_filter] at both ⊢
    constructor
    · rintro ⟨v, ⟨hv, hp⟩, rfl⟩
      obtain ⟨o, ho, hk⟩ := both.1 ⟨v, hv, rfl⟩
      exact ⟨o, ⟨ho, hk ▸ hp⟩, hk⟩
    · rintro ⟨o, ⟨ho, hp⟩, rfl⟩
      obtain ⟨v, hv, hk⟩ := both.2 ⟨o, ho, rfl⟩
      exact ⟨v, ⟨hv, hk ▸ hp⟩, hk⟩
  locations := by
    intro v hv
    obtain ⟨hv, hp⟩ := List.mem_filter.1 hv
    have same : (os.filter fun o => p o.key).filter (·.key = v.key) =
        os.filter (·.key = v.key) := by
      rw [List.filter_filter]
      apply List.filter_congr
      intro o _
      by_cases hk : o.key = v.key
      · rw [hk, hp, Bool.and_true]
      · rw [decide_eq_false hk, Bool.false_and]
    rw [same]
    exact h.locations v hv
  ordered v hv := h.ordered v (List.mem_filter.1 hv).1
  strict := h.strict.filter _

end ImportUse

end PackageUsage
