namespace PackageUsage.Sorting

variable {α : Type}

/-- The longest start, from an element on, in which neighbours are related, and the rest. -/
def chain (related : α → α → Bool) (x : α) : List α → List α × List α
  | [] => ([x], [])
  | y :: ys =>
    if related x y then
      let (run, rest) := chain related y ys
      (x :: run, rest)
    else ([x], y :: ys)

/-- The run that begins a list, and the rest. A run has no element below the one before it; one in
which every element is below the one before it is turned around. -/
def run (lt : α → α → Bool) : List α → List α × List α
  | [] => ([], [])
  | x :: xs =>
    match chain (fun a b => lt b a) x xs with
    | (y :: z :: falling, rest) => ((y :: z :: falling).reverse, rest)
    | _ => chain (fun a b => !lt b a) x xs

theorem length_halves_lt {xs above : List α} {middle : α}
    (h : xs.drop (xs.length / 2) = middle :: above) :
    (xs.take (xs.length / 2)).length < xs.length ∧ above.length < xs.length := by
  have sizes := congrArg List.length h
  rw [List.length_drop, List.length_cons] at sizes
  rw [List.length_take]
  omega

/-- Puts an element into a list behind all that are not above it, if the list is sorted. -/
def insert (lt : α → α → Bool) (x : α) (xs : List α) : List α :=
  match _h : xs.drop (xs.length / 2) with
  | [] => [x]
  | middle :: above =>
    let below := xs.take (xs.length / 2)
    if lt x middle then insert lt x below ++ middle :: above
    else below ++ middle :: insert lt x above
termination_by xs.length
decreasing_by
  · exact (length_halves_lt _h).1
  · exact (length_halves_lt _h).2

def sort (lt : α → α → Bool) (xs : List α) : List α :=
  (run lt xs).2.foldl (fun sorted x => insert lt x sorted) (run lt xs).1

theorem chain_append (related : α → α → Bool) (x : α) (xs : List α) :
    (chain related x xs).1 ++ (chain related x xs).2 = x :: xs := by
  induction xs generalizing x with
  | nil => rfl
  | cons y ys ih =>
    simp only [chain]
    split
    · simpa using ih y
    · rfl

theorem perm_run (lt : α → α → Bool) (xs : List α) :
    ((run lt xs).1 ++ (run lt xs).2).Perm xs := by
  cases xs with
  | nil => exact .refl _
  | cons x xs =>
    simp only [run]
    split
    · rename_i y z falling rest h
      have := chain_append (fun a b => lt b a) x xs
      rw [h] at this
      rw [← this]
      exact (List.reverse_perm _).append_right _
    · rw [chain_append]

theorem perm_insert (lt : α → α → Bool) (x : α) (xs : List α) :
    (insert lt x xs).Perm (x :: xs) := by
  unfold insert
  split
  · rename_i h
    have := congrArg List.length h
    simp only [List.length_drop, List.length_nil] at this
    have : xs = [] := List.length_eq_zero_iff.mp (by omega)
    simp [this]
  · rename_i middle above h
    have halves := List.take_append_drop (xs.length / 2) xs
    rw [h] at halves
    dsimp only
    split
    · refine ((perm_insert lt x _).append_right _).trans ?_
      rw [List.cons_append, halves]
    · have moved := (((perm_insert lt x above).cons middle).trans (.swap ..)).append_left
        (xs.take (xs.length / 2))
      refine moved.trans (List.perm_middle.trans ?_)
      rw [halves]
termination_by xs.length
decreasing_by
  · exact (length_halves_lt ‹_›).2
  · exact (length_halves_lt ‹_›).1

/-- Sorting rearranges. -/
theorem perm_sort (lt : α → α → Bool) (xs : List α) : (sort lt xs).Perm xs := by
  have step (rest start : List α) :
      (rest.foldl (fun sorted x => insert lt x sorted) start).Perm (start ++ rest) := by
    induction rest generalizing start with
    | nil => simp
    | cons x rest ih =>
      refine (ih _).trans (((perm_insert lt x start).append_right _).trans ?_)
      exact List.perm_middle.symm
  exact (step _ _).trans (perm_run lt xs)

end PackageUsage.Sorting
