import PackageUsage.Proofs.ContainedEntrypoints

namespace PackageUsage
set_option autoImplicit true
open FileError (Cause)

namespace Path.Normal

theorem collapse_concat (absolute : Bool) (names : List String) (plain : Plain n) :
    collapse absolute (names ++ [n]) = collapse absolute names ++ [n] := by
  rw [collapse, List.foldl_append, List.foldl_cons, List.foldl_nil, push_plain plain,
    List.reverse_cons, ← collapse]

end Path.Normal

namespace Entry

theorem length_lt_size_of_at? {e : Entry} (h : e.at? place = some x) : place.length < e.size := by
  induction place generalizing e with
  | nil =>
    cases e with
    | file source readable => exact Nat.one_pos
    | link target => exact Nat.one_pos
    | folder entries readable =>
      rw [size]
      exact Nat.add_pos_left Nat.one_pos _
  | cons n rest ih =>
    obtain ⟨inner, there, below⟩ := Option.bind_eq_some_iff.1 h
    have deep := ih below
    clear h below
    cases e with
    | file source readable => cases there
    | link target => cases there
    | folder entries readable =>
      have le : inner.size ≤ sizes entries := by
        change entries.lookup n = some inner at there
        induction entries with
        | nil => cases there
        | cons first others ih =>
          rw [List.lookup_cons] at there
          rw [sizes]
          split at there
          · cases there
            exact Nat.le_add_right _ _
          · exact Nat.le_add_left_of_le (ih there)
      rw [size, List.length_cons]
      omega

end Entry

namespace FileTree
open Path.Normal
variable {t : FileTree}

/-- Nothing in a tree is a link. -/
def LinkFree (t : FileTree) : Prop := ∀ place target, t.top.at? place ≠ some (.link target)

theorem linkFree_of_linkLength (h : t.top.linkLength = 0) : t.LinkFree := by
  intro place target there
  have less : t.top.unmet (· == place) [] + (target.length + 2) ≤ t.top.unmet (fun _ => false) [] :=
    Entry.unmet_add_le there rfl (beq_self_eq_true place) nofun
  rw [Entry.unmet_none, h] at less
  omega

theorem LinkFree.realFrom_names {names : List String} (h : t.LinkFree) (below : ".." ∉ place)
    (enough : names.length < fuel) : t.realFrom fuel known place (names.map .name) =
      placePath (names.foldl (push true) place.reverse).reverse := by
  induction names generalizing fuel place with
  | nil =>
    rw [List.foldl_nil, List.reverse_reverse]
    cases fuel with
    | zero => cases enough
    | succ fuel => rfl
  | cons n rest ih =>
    cases fuel with
    | zero => cases enough
    | succ fuel =>
      have enough : rest.length < fuel := Nat.lt_of_succ_lt_succ enough
      rw [List.map_cons, List.foldl_cons]
      by_cases named : n = "" ∨ n = "."
      · rw [realFrom, if_pos named, push.eq_def, if_pos named]
        exact ih below enough
      by_cases parent : n = ".."
      · rw [realFrom, if_neg named, if_pos parent, push.eq_def, if_neg named,
          if_neg (not_not.2 parent),
          ih (fun inside => below (List.dropLast_subset place inside)) enough]
        -- Only plain names are ever passed, so that the one given up is not a way up itself.
        rcases List.eq_nil_or_concat' place with rfl | ⟨front, last, rfl⟩
        · rfl
        · have last : last ≠ ".." := by
            rintro rfl
            exact below (List.mem_append_right _ List.mem_cons_self)
          rw [List.dropLast_concat, List.reverse_append, List.reverse_singleton,
            List.singleton_append]
          dsimp only
          rw [if_neg last]
      · have plain : Path.Plain n := ⟨(not_or.1 named).1, (not_or.1 named).2, parent⟩
        have apart : ".." ∉ place ++ [n] := by
          rw [List.mem_append, List.mem_singleton, not_or]
          exact ⟨below, fun same => parent same.symm⟩
        rw [realFrom_name named parent (h _), push_plain plain, ih apart enough,
          List.reverse_append]
        rfl

theorem LinkFree.follow_error (h : t.LinkFree) (failed : t.follow p = .error cause) :
    cause ≠ .tooManyLinks := by
  rw [follow] at failed
  split at failed
  · rename_i refused
    cases failed
    rintro rfl
    cases isRefusal_of_refusal? refused
  split at failed
  · cases failed
    decide
  · rcases followNames_error failed with here | ⟨_, _, _, _, _, _, _, there, link, _⟩
    · rintro rfl
      exact absurd here (by decide)
    · exact (h _ _ (Entry.at?_concat_eq_some.2 ⟨_, _, there, link⟩)).elim

/-- In a tree without links the real form of a path is the normal form of its names. -/
theorem LinkFree.resolve_eq (h : t.LinkFree) (accepted : ∀ n ∈ p.parts, refusal? n = none) :
    t.resolve p = .ok (placePath (collapse true (t.absoluteNames p))) := by
  have real : t.realFrom (t.realSteps (t.absoluteNames p)) [] [] ((t.absoluteNames p).map .name) =
      placePath (collapse true (t.absoluteNames p)) :=
    h.realFrom_names List.not_mem_nil (Nat.lt_succ_of_le (Nat.le_add_right _ _))
  rw [resolve, List.findSome?_eq_none_iff.2 accepted]
  dsimp only
  rw [real]
  split
  · rename_i failed
    exact (h.follow_error failed rfl).elim
  · rfl

end FileTree

end PackageUsage
