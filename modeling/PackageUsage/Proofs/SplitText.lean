import Mathlib.Data.List.TakeDrop
import PackageUsage.Text.Basic

namespace PackageUsage
set_option autoImplicit true

theorem span_append {p : α → Bool} {xs ys : List α} (hx : ∀ x ∈ xs, p x = true)
    (hy : ∀ y ∈ ys.head?, p y = false) : (xs ++ ys).span p = (xs, ys) := by
  rw [List.span_eq_takeWhile_dropWhile, List.takeWhile_append_of_pos hx,
    List.dropWhile_append_of_pos hx]
  cases ys with
  | nil => rw [List.takeWhile_nil, List.dropWhile_nil, List.append_nil]
  | cons y ys =>
    have stops : ¬ p y = true := Bool.eq_false_iff.1 (hy y rfl)
    rw [List.takeWhile_cons_of_neg stops, List.dropWhile_cons_of_neg stops, List.append_nil]

namespace Text

theorem split_ne_nil (sep : Char) (s : String) : split sep s ≠ [] := by
  intro h
  exact List.splitOn_ne_nil _ _ (List.map_eq_nil_iff.1 h)

theorem split_eq_singleton (h : sep ∉ s.toList) : split sep s = [s] := by
  rw [split, List.splitOn_eq_singleton h, List.map_singleton, String.ofList_toList]

theorem split_append (sep : Char) (s t : String) :
    split sep (s ++ String.singleton sep ++ t) = split sep s ++ split sep t := by
  rw [split, String.toList_append, String.toList_append, String.toList_singleton,
    List.append_assoc, List.singleton_append, List.splitOn_append_cons_self, List.map_append,
    split, split]

theorem split_join_cons (sep : Char) (s t : String) (rest : List String) :
    split sep (join (String.singleton sep) (s :: t :: rest)) =
      split sep s ++ split sep (join (String.singleton sep) (t :: rest)) := by
  rw [join, String.intercalate_cons_cons, split_append, join]

theorem split_join (given : names ≠ []) (h : ∀ name ∈ names, '/' ∉ name.toList) :
    split '/' (join "/" names) = names := by
  induction names with
  | nil => exact (given rfl).elim
  | cons name rest ih =>
    obtain ⟨here, behind⟩ := List.forall_mem_cons.1 h
    cases rest with
    | nil => exact split_eq_singleton here
    | cons next rest =>
      have pieces := split_join_cons '/' name next rest
      rw [split_eq_singleton here] at pieces
      exact pieces.trans (congrArg (name :: ·) (ih (List.cons_ne_nil _ _) behind))

theorem split_eq_cons (h : split sep s = first :: rest) : sep ∉ first.toList ∧
    (s = first ∧ rest = [] ∨
      ∃ t, s = first ++ String.singleton sep ++ t ∧ split sep t = rest) := by
  by_cases hs : sep ∈ s.toList
  · obtain ⟨before, behind, he, hn⟩ := List.eq_append_cons_of_mem hs
    have whole : s = String.ofList before ++ String.singleton sep ++ String.ofList behind := by
      apply String.toList_inj.1
      rw [he, String.toList_append, String.toList_append, String.toList_singleton,
        String.toList_ofList, String.toList_ofList, List.append_assoc, List.singleton_append]
    have clear : sep ∉ (String.ofList before).toList := by rwa [String.toList_ofList]
    rw [whole, split_append, split_eq_singleton clear] at h
    obtain ⟨rfl, hrest⟩ := List.cons.inj h
    exact ⟨clear, .inr ⟨_, whole, hrest⟩⟩
  · rw [split_eq_singleton hs] at h
    obtain ⟨rfl, rfl⟩ := List.cons.inj h
    exact ⟨hs, .inl ⟨rfl, rfl⟩⟩

theorem of_mem_split (h : piece ∈ split sep s) : sep ∉ piece.toList ∧ piece.toList ⊆ s.toList := by
  cases hs : split sep s with
  | nil => exact (split_ne_nil sep s hs).elim
  | cons first rest =>
    rw [hs] at h
    obtain ⟨clear, ⟨rfl, rfl⟩ | ⟨t, rfl, ht⟩⟩ := split_eq_cons hs
    · cases List.mem_singleton.1 h
      exact ⟨clear, List.Subset.refl _⟩
    · have shorter : t.length < (first ++ String.singleton sep ++ t).length := by
        rw [String.length_append, String.length_append, String.length_singleton]
        omega
      simp only [String.toList_append]
      rcases List.mem_cons.1 h with rfl | h
      · exact ⟨clear, fun c hc => List.mem_append_left _ (List.mem_append_left _ hc)⟩
      · obtain ⟨clear, inside⟩ := of_mem_split (ht ▸ h)
        exact ⟨clear, fun c hc => List.mem_append_right _ (inside hc)⟩
termination_by s.length

theorem length_split_le (sep : Char) (s : String) : (split sep s).length ≤ s.length + 1 := by
  cases hs : split sep s with
  | nil => exact Nat.zero_le _
  | cons first rest =>
    obtain ⟨_, ⟨_, rfl⟩ | ⟨t, he, ht⟩⟩ := split_eq_cons hs
    · exact Nat.succ_le_succ (Nat.zero_le _)
    · have length : s.length = first.length + 1 + t.length := by
        rw [he, String.length_append, String.length_append, String.length_singleton]
      have shorter : t.length < s.length := by omega
      have more := length_split_le sep t
      rw [ht] at more
      rw [List.length_cons]
      omega
termination_by s.length

theorem not_mem_of_mem_split (h : piece ∈ split sep s) : sep ∉ piece.toList :=
  (of_mem_split h).1

theorem join_append {front rest : List String} (given : front ≠ []) (more : rest ≠ []) :
    join "/" (front ++ rest) = join "/" front ++ "/" ++ join "/" rest := by
  induction front with
  | nil => exact (given rfl).elim
  | cons first front ih =>
    obtain ⟨next, behind, rfl⟩ := List.exists_cons_of_ne_nil more
    cases front with
    | nil => exact String.intercalate_cons_cons
    | cons second front =>
      have after := ih (List.cons_ne_nil _ _)
      unfold join at after ⊢
      rw [List.cons_append, List.cons_append, String.intercalate_cons_cons,
        String.intercalate_cons_cons, ← List.cons_append, after]
      simp only [String.append_assoc]

end Text

end PackageUsage
