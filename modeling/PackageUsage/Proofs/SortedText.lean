import PackageUsage.Text.Basic

namespace PackageUsage.Text
set_option autoImplicit true

theorem le_of_lt (h : lt s t) : le s t := by
  have total := le_total s t
  simp only [lt, Bool.not_eq_true'] at h
  simpa only [h, Bool.or_false] using total

theorem le_refl (s : String) : le s s := by
  have self := le_total s s
  rw [Bool.or_self] at self
  exact self

theorem ne_of_lt (h : lt s t) : s ≠ t := by
  intro e
  subst e
  simp only [lt, le_refl] at h
  cases h

theorem lt_of_le_of_ne (h : le s t) (hne : s ≠ t) : lt s t := by
  rw [lt, Bool.not_eq_true', Bool.eq_false_iff]
  exact fun k => hne (le_antisymm h k)

theorem lt_of_le_of_lt (h : le s t) (k : lt t u) : lt s u := by
  apply lt_of_le_of_ne (le_trans h (le_of_lt k))
  intro e
  subst e
  exact ne_of_lt k (le_antisymm (le_of_lt k) h)

theorem lt_asymm (h : lt s t) (k : lt t s) : False :=
  ne_of_lt h (le_antisymm (le_of_lt h) (le_of_lt k))

/-- Every text comes before the ones behind it. -/
def Ascending (xs : List String) : Prop := xs.Pairwise fun s t => lt s t

theorem Ascending.nodup (h : Ascending xs) : xs.Nodup := h.imp ne_of_lt

theorem Ascending.ext (h : Ascending xs) (k : Ascending ys) (same : ∀ s, s ∈ xs ↔ s ∈ ys) :
    xs = ys := by
  have perm : xs.Perm ys := (List.perm_ext_iff_of_nodup h.nodup k.nodup).2 same
  exact perm.eq_of_pairwise (fun _ _ _ _ => le_antisymm) (h.imp le_of_lt) (k.imp le_of_lt)

@[simp] theorem mem_sort : s ∈ sort xs ↔ s ∈ xs := List.mem_mergeSort

theorem pairwise_sort (xs : List String) : (sort xs).Pairwise fun s t => le s t :=
  @List.pairwise_mergeSort _ le (fun _ _ _ => le_trans) le_total xs

theorem sort_perm (h : xs.Perm ys) : sort xs = sort ys :=
  (((List.mergeSort_perm xs le).trans h).trans (List.mergeSort_perm ys le).symm).eq_of_pairwise
    (fun _ _ _ _ => le_antisymm) (pairwise_sort xs) (pairwise_sort ys)

theorem ascending_sort (h : xs.Nodup) : Ascending (sort xs) := by
  have distinct : (sort xs).Nodup := (List.mergeSort_perm xs le).nodup_iff.2 h
  exact ((pairwise_sort xs).and distinct).imp fun hh => lt_of_le_of_ne hh.1 hh.2

theorem mem_sortUnique_go (xs : List String) : s ∈ sortUnique.go xs ↔ s ∈ xs := by
  induction xs with
  | nil => rfl
  | cons x xs ih =>
    rw [List.mem_cons, ← ih, sortUnique.go]
    split
    · rename_i he
      simp only [he, List.mem_singleton, List.not_mem_nil, or_false]
    · rename_i y ys he
      split
      · rename_i hxy
        simp only [he, hxy, List.mem_cons, or_self_left]
      · rw [he, List.mem_cons]

@[simp] theorem mem_sortUnique : s ∈ sortUnique xs ↔ s ∈ xs :=
  (mem_sortUnique_go _).trans mem_sort

theorem ascending_sortUnique_go (h : xs.Pairwise fun s t => le s t) :
    Ascending (sortUnique.go xs) := by
  induction xs with
  | nil => exact .nil
  | cons x xs ih =>
    obtain ⟨hx, hxs⟩ := List.pairwise_cons.1 h
    have rest := ih hxs
    rw [sortUnique.go]
    split
    · exact List.pairwise_singleton _ _
    · rename_i y ys he
      rw [he] at rest
      split
      · exact rest
      · rename_i hxy
        have hy : y ∈ xs := (mem_sortUnique_go xs).1 (by rw [he]; exact List.mem_cons_self)
        have first := lt_of_le_of_ne (hx y hy) hxy
        refine List.pairwise_cons.2 ⟨?_, rest⟩
        intro z hz
        rcases List.mem_cons.1 hz with rfl | hz
        · exact first
        · exact lt_of_le_of_lt (hx y hy) ((List.pairwise_cons.1 rest).1 z hz)

theorem ascending_sortUnique (xs : List String) : Ascending (sortUnique xs) :=
  ascending_sortUnique_go (pairwise_sort xs)

theorem sort_eq_sortUnique (h : xs.Nodup) (same : ∀ s, s ∈ xs ↔ s ∈ ys) :
    sort xs = sortUnique ys :=
  (ascending_sort h).ext (ascending_sortUnique ys) fun s => by
    rw [mem_sort, mem_sortUnique, same]

end PackageUsage.Text
