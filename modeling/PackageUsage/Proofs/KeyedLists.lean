import Mathlib.Data.List.Dedup
import Mathlib.Data.List.Forall2

namespace PackageUsage
set_option autoImplicit true

theorem mem_of_lookup [BEq α] [LawfulBEq α] {entries : List (α × β)}
    (h : entries.lookup key = some value) : (key, value) ∈ entries := by
  obtain ⟨before, behind, he, _⟩ := List.lookup_eq_some_iff.1 h
  rw [he]
  exact List.mem_append_right _ List.mem_cons_self

theorem lookup_eq_some_iff_mem [BEq α] [LawfulBEq α] {entries : List (α × β)}
    (hn : (entries.map (·.1)).Nodup) :
    entries.lookup key = some value ↔ (key, value) ∈ entries := by
  refine ⟨mem_of_lookup, fun hm => ?_⟩
  obtain ⟨before, behind, rfl⟩ := List.mem_iff_append.1 hm
  rw [List.lookup_eq_some_iff]
  refine ⟨before, behind, rfl, fun e he => bne_iff_ne.2 ?_⟩
  rintro rfl
  rw [List.map_append, List.nodup_append] at hn
  exact hn.2.2 _ (List.mem_map_of_mem he) _ List.mem_cons_self rfl

theorem exists_left_of_forall₂ {R : α → β → Prop} (h : List.Forall₂ R as bs) (hb : b ∈ bs) :
    ∃ a ∈ as, R a b := by
  induction h with
  | nil => cases hb
  | cons hr _ ih =>
    rcases List.mem_cons.1 hb with rfl | hb
    · exact ⟨_, List.mem_cons_self, hr⟩
    · obtain ⟨a, ha, hab⟩ := ih hb
      exact ⟨a, List.mem_cons_of_mem _ ha, hab⟩

theorem exists_right_of_forall₂ {R : α → β → Prop} (h : List.Forall₂ R as bs) (ha : a ∈ as) :
    ∃ b ∈ bs, R a b := exists_left_of_forall₂ h.flip ha

theorem nodup_concat {xs : List α} (h : xs.Nodup) (new : x ∉ xs) : (xs ++ [x]).Nodup :=
  (List.nodup_append_comm.1 (List.nodup_cons.2 ⟨new, h⟩ : ([x] ++ xs).Nodup))

theorem nodup_eraseDups [BEq α] [LawfulBEq α] (xs : List α) : xs.eraseDups.Nodup := by
  match xs with
  | [] => exact .nil
  | x :: xs =>
    rw [List.eraseDups_cons, List.nodup_cons, List.mem_eraseDups]
    refine ⟨fun hm => ?_, nodup_eraseDups _⟩
    have he := (List.mem_filter.1 hm).2
    rw [beq_self_eq_true] at he
    cases he
termination_by xs.length
decreasing_by exact Nat.lt_succ_of_le (List.length_filter_le _ _)

theorem eraseDups_ne_nil [BEq α] [LawfulBEq α] {xs : List α} : xs.eraseDups ≠ [] ↔ xs ≠ [] := by
  cases xs with
  | nil => rw [List.eraseDups_nil]
  | cons x xs => simp [List.eraseDups_cons]

theorem head?_eraseDups [BEq α] [LawfulBEq α] (xs : List α) : xs.eraseDups.head? = xs.head? := by
  cases xs with
  | nil => rw [List.eraseDups_nil]
  | cons x xs => rw [List.eraseDups_cons, List.head?_cons, List.head?_cons]

theorem length_eraseDups_of_perm [BEq α] [LawfulBEq α] {xs ys : List α} (h : xs.Perm ys) :
    xs.eraseDups.length = ys.eraseDups.length := by
  refine ((List.perm_ext_iff_of_nodup (nodup_eraseDups _) (nodup_eraseDups _)).2 ?_).length_eq
  intro x
  rw [List.mem_eraseDups, List.mem_eraseDups, h.mem_iff]

theorem eraseDups_concat [BEq α] [LawfulBEq α] (xs : List α) (x : α) :
    (xs ++ [x]).eraseDups =
      if xs.eraseDups.contains x then xs.eraseDups else xs.eraseDups ++ [x] := by
  rw [List.eraseDups_append]
  by_cases hx : x ∈ xs
  · have again : [x].removeAll xs = [] := by
      simp only [List.removeAll, List.filter_eq_nil_iff, List.mem_singleton]
      rintro _ rfl
      simpa using hx
    rw [again, if_pos (List.contains_iff_mem.2 (List.mem_eraseDups.2 hx))]
    exact List.append_nil _
  · have new : [x].removeAll xs = [x] := by
      simp only [List.removeAll, List.filter_eq_self, List.mem_singleton]
      rintro _ rfl
      simpa using hx
    rw [new, if_neg (mt List.contains_iff_mem.1 (mt List.mem_eraseDups.1 hx))]
    rfl

end PackageUsage
