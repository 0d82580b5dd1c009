import Mathlib
import PackageUsage.Sorting

namespace PackageUsage.Sorting
set_option autoImplicit true

/-- A comparison that is an order among some elements, of which some may be equal. -/
structure IsOrder (lt : α → α → Bool) (among : α → Prop) : Prop where
  asymm {a b} (ha : among a) (hb : among b) (h : lt a b = true) : lt b a = false
  trans {a b c} (ha : among a) (hb : among b) (hc : among c) (h : lt b a = false)
    (k : lt c b = false) : lt c a = false

def Sorted (lt : α → α → Bool) (xs : List α) : Prop := xs.Pairwise fun a b => lt b a = false

variable {α : Type} {lt : α → α → Bool} {among : α → Prop}

theorem pairwise_chain {related : α → α → Bool} {R : α → α → Prop}
    (step : ∀ {a b}, among a → among b → related a b = true → R a b)
    (trans : ∀ {a b c}, among a → among b → among c → R a b → R b c → R a c) {x : α} {xs : List α}
    (h : ∀ y ∈ x :: xs, among y) :
    (chain related x xs).1.Pairwise R ∧ ∀ y ∈ (chain related x xs).1, y = x ∨ R x y := by
  induction xs generalizing x with
  | nil => exact ⟨List.pairwise_singleton R x, fun y hy => .inl (List.mem_singleton.1 hy)⟩
  | cons z xs ih =>
    obtain ⟨hx, behind⟩ := List.forall_mem_cons.1 h
    obtain ⟨hz, _⟩ := List.forall_mem_cons.1 behind
    rw [chain]
    split
    · rename_i next
      obtain ⟨sorted, first⟩ := ih behind
      have below : ∀ y ∈ (chain related z xs).1, R x y := by
        intro y hy
        rcases first y hy with rfl | above
        · exact step hx hz next
        · have inside : y ∈ z :: xs := chain_append related z xs ▸ List.mem_append_left _ hy
          exact trans hx hz (behind y inside) (step hx hz next) above
      refine ⟨List.pairwise_cons.2 ⟨below, sorted⟩, ?_⟩
      intro y hy
      rcases List.mem_cons.1 hy with rfl | hy
      · exact .inl rfl
      · exact .inr (below y hy)
    · exact ⟨List.pairwise_singleton R x, fun y hy => .inl (List.mem_singleton.1 hy)⟩

theorem sorted_run (order : IsOrder lt among) {xs : List α} (h : ∀ x ∈ xs, among x) :
    Sorted lt (run lt xs).1 := by
  cases xs with
  | nil => exact .nil
  | cons x xs =>
    rw [run]
    split
    · rename_i y z falling rest chained
      have fall := pairwise_chain (R := fun a b => lt a b = false)
        (fun ha hb below => order.asymm hb ha below)
        (fun ha hb hc above below => order.trans hc hb ha below above) h
      rw [chained] at fall
      exact List.pairwise_reverse.2 fall.1
    · exact (pairwise_chain (R := fun a b => lt b a = false)
        (fun _ _ rising => (Bool.not_eq_true' _).mp rising) order.trans h).1

theorem sorted_insert (order : IsOrder lt among) {x : α} {xs : List α} (hx : among x)
    (h : ∀ y ∈ xs, among y) (sorted : Sorted lt xs) : Sorted lt (insert lt x xs) := by
  unfold insert
  split
  · exact List.pairwise_singleton _ x
  · rename_i middle above halves
    have shorter := length_halves_lt halves
    have whole := List.take_append_drop (xs.length / 2) xs
    rw [halves] at whole
    obtain ⟨lower, upper, across⟩ := List.pairwise_append.1 (whole ▸ sorted)
    obtain ⟨hm, higher⟩ := List.pairwise_cons.1 upper
    obtain ⟨below, behind⟩ := List.forall_mem_append.1 (whole ▸ h)
    obtain ⟨among_middle, ha⟩ := List.forall_mem_cons.1 behind
    have placed {y : α} {ys : List α} : y ∈ insert lt x ys ↔ y = x ∨ y ∈ ys :=
      (perm_insert lt x ys).mem_iff.trans List.mem_cons
    dsimp only
    split
    · rename_i before
      have start : lt middle x = false := order.asymm hx among_middle before
      refine List.pairwise_append.2 ⟨sorted_insert order hx below lower, upper, ?_⟩
      intro a inserted b hb
      rcases placed.1 inserted with rfl | old
      · rcases List.mem_cons.1 hb with rfl | hb
        · exact start
        · exact order.trans hx among_middle (ha b hb) start (hm b hb)
      · exact across a old b hb
    · rename_i notBefore
      have start : lt x middle = false := Bool.eq_false_iff.2 notBefore
      refine List.pairwise_append.2 ⟨lower, List.pairwise_cons.2 ⟨?_, sorted_insert order hx ha
        higher⟩, ?_⟩
      · intro b inserted
        rcases placed.1 inserted with rfl | old
        · exact start
        · exact hm b old
      · intro a old b hb
        have first := across a old middle List.mem_cons_self
        rcases List.mem_cons.1 hb with rfl | inserted
        · exact first
        · rcases placed.1 inserted with rfl | later
          · exact order.trans (below a old) among_middle hx first start
          · exact across a old b (List.mem_cons_of_mem middle later)
termination_by xs.length
decreasing_by
  · exact shorter.2
  · exact shorter.1

theorem sorted_sort (order : IsOrder lt among) {xs : List α} (h : ∀ x ∈ xs, among x) :
    Sorted lt (sort lt xs) := by
  have step (rest start : List α) (hr : ∀ x ∈ rest, among x) (hs : ∀ x ∈ start, among x)
      (sorted : Sorted lt start) :
      Sorted lt (rest.foldl (fun sorted x => insert lt x sorted) start) := by
    induction rest generalizing start with
    | nil => exact sorted
    | cons x rest ih =>
      obtain ⟨hx, behind⟩ := List.forall_mem_cons.1 hr
      refine ih _ behind ?_ (sorted_insert order hx hs sorted)
      intro y hy
      rcases List.mem_cons.1 ((perm_insert lt x start).mem_iff.1 hy) with rfl | hy
      · exact hx
      · exact hs y hy
  have all (x : α) (hx : x ∈ (run lt xs).1 ++ (run lt xs).2) : among x :=
    h x ((perm_run lt xs).mem_iff.1 hx)
  exact step _ _ (fun x hx => all x (List.mem_append_right _ hx))
    (fun x hx => all x (List.mem_append_left _ hx)) (sorted_run order h)

/-- What sorting gives depends on the elements only, if no two of them are equal in the order. -/
theorem sort_congr (order : IsOrder lt among) {xs ys : List α} (h : ∀ x ∈ xs, among x)
    (perm : xs.Perm ys)
    (strict : ∀ x ∈ xs, ∀ y ∈ xs, lt x y = false → lt y x = false → x = y) :
    sort lt xs = sort lt ys := by
  have same := (perm_sort lt xs).trans (perm.trans (perm_sort lt ys).symm)
  have single (a b : α) (ha : a ∈ sort lt xs) (hb : b ∈ sort lt ys) (k : lt b a = false)
      (l : lt a b = false) : a = b :=
    strict a ((perm_sort lt xs).mem_iff.1 ha) b
      (perm.mem_iff.2 ((perm_sort lt ys).mem_iff.1 hb)) l k
  exact same.eq_of_pairwise single (sorted_sort order h)
    (sorted_sort order fun y hy => h y (perm.mem_iff.2 hy))

end PackageUsage.Sorting
