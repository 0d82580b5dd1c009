import PackageUsage.FileTree.Resolve

namespace PackageUsage
set_option autoImplicit true
open FileError (Cause)

namespace Entry

def isLink : Entry → Bool
  | link _ => true
  | _ => false

theorem at?_append (e : Entry) (front rest : List String) :
    e.at? (front ++ rest) = (e.at? front).bind (·.at? rest) := by
  induction front generalizing e with
  | nil => rfl
  | cons n front ih =>
    rw [List.cons_append, at?, at?]
    cases e.get? n with
    | none => rfl
    | some inner => exact ih inner

theorem at?_concat_eq_some {e x : Entry} : e.at? (place ++ [n]) = some x ↔
    ∃ entries access, e.at? place = some (.folder entries access) ∧ entries.lookup n = some x := by
  rw [at?_append]
  cases e.at? place with
  | none => exact ⟨nofun, nofun⟩
  | some inner =>
    change (inner.get? n).bind some = some x ↔ _
    rw [Option.bind_fun_some]
    cases inner with
    | folder entries access =>
      constructor
      · intro h
        exact ⟨entries, access, rfl, h⟩
      · rintro ⟨_, _, ⟨⟩, h⟩
        exact h
    | file source readable => exact ⟨nofun, nofun⟩
    | link target => exact ⟨nofun, nofun⟩

theorem seen?_append (e : Entry) (front rest : List String) :
    e.seen? (front ++ rest) = (e.seen? front).bind (·.seen? rest) := by
  induction front generalizing e with
  | nil => rfl
  | cons n front ih =>
    rw [List.cons_append, seen?, seen?]
    split
    · cases e.get? n with
      | none => rfl
      | some inner => exact ih inner
    · rfl

theorem at?_of_seen? {e : Entry} (h : e.seen? place = some x) : e.at? place = some x := by
  induction place generalizing e with
  | nil => exact h
  | cons n rest ih =>
    rw [seen?] at h
    split at h
    · obtain ⟨inner, hn, hr⟩ := Option.bind_eq_some_iff.1 h
      rw [at?, hn]
      exact ih hr
    · cases h

end Entry

namespace FileTree

/-- A name that stands for itself and is not too long. -/
def Ordinary (s : String) : Prop :=
  ¬ (s = "" ∨ s = ".") ∧ s ≠ ".." ∧ ¬ nameLimit < (Text.nameBytes? s).getD 0

def IsFolder (t : FileTree) (place : List String) : Prop :=
  ∃ entries access, t.top.at? place = some (.folder entries access)

/-- A folder in which names can be looked up. -/
def Searches (t : FileTree) (place : List String) : Prop :=
  ∃ entries access, t.top.at? place = some (.folder entries access) ∧ access.searches = true

/-- Where a walk goes on that meets a link in the folder at `place`. -/
def linkStart (place : List String) (target : String) : List String :=
  if (targetNames target).1 then [] else place

/-- The move that a name makes in the folder at a place: the links passed, the folder reached, and
the names that a link puts before those still to go. -/
inductive Moves (t : FileTree) (place : List String) :
    String → Nat → List String → List String → Prop
  | stay : t.IsFolder place → n = "" ∨ n = "." → (n ≠ "" → t.Searches place) →
      Moves t place n 0 place []
  | up : t.Searches place → Moves t place ".." 0 place.dropLast []
  | down : t.Searches place → Ordinary n → t.top.at? (place ++ [n]) = some e → e.isLink = false →
      Moves t place n 0 (place ++ [n]) []
  | link : t.Searches place → Ordinary n → t.top.at? (place ++ [n]) = some (.link target) →
      Moves t place n 1 (linkStart place target) (targetNames target).2

/-- Walking names from a place leads to another one, through a number of links. -/
inductive Leads (t : FileTree) : List String → List String → Nat → List String → Prop
  | here : Leads t place [] 0 place
  | move : Moves t place n i next target → Leads t next (target ++ rest) k q →
      Leads t place (n :: rest) (k + i) q

variable {t : FileTree}

theorem Moves.searches (h : Moves t place n i next target) (named : n ≠ "") : t.Searches place := by
  cases h with
  | stay _ _ searched => exact searched named
  | up searched => exact searched
  | down searched _ _ _ => exact searched
  | link searched _ _ => exact searched

theorem Moves.unique (h : Moves t place n i next target) (h' : Moves t place n i' next' target') :
    i' = i ∧ next' = next ∧ target' = target := by
  cases h with
  | stay _ hn _ =>
    cases h' with
    | stay _ _ _ => exact ⟨rfl, rfl, rfl⟩
    | up _ => exact absurd hn (by decide)
    | down _ ordinary _ _ => exact (ordinary.1 hn).elim
    | link _ ordinary _ => exact (ordinary.1 hn).elim
  | up _ =>
    cases h' with
    | stay _ hn _ => exact absurd hn (by decide)
    | up _ => exact ⟨rfl, rfl, rfl⟩
    | down _ ordinary _ _ => exact (ordinary.2.1 rfl).elim
    | link _ ordinary _ => exact (ordinary.2.1 rfl).elim
  | down _ ordinary there plain =>
    cases h' with
    | stay _ hn _ => exact (ordinary.1 hn).elim
    | up _ => exact (ordinary.2.1 rfl).elim
    | down _ _ _ _ => exact ⟨rfl, rfl, rfl⟩
    | link _ _ other =>
      cases there.symm.trans other
      cases plain
  | link _ ordinary there =>
    cases h' with
    | stay _ hn _ => exact (ordinary.1 hn).elim
    | up _ => exact (ordinary.2.1 rfl).elim
    | down _ _ other plain =>
      cases there.symm.trans other
      cases plain
    | link _ _ other =>
      cases there.symm.trans other
      exact ⟨rfl, rfl, rfl⟩

theorem Leads.first (h : Leads t place (n :: rest) k q) : ∃ i next target j,
    Moves t place n i next target ∧ Leads t next (target ++ rest) j q ∧ k = j + i := by
  cases h with
  | move first more => exact ⟨_, _, _, _, first, more, rfl⟩

theorem Leads.append (h : Leads t place front i mid) (h' : Leads t mid rest j q) :
    Leads t place (front ++ rest) (i + j) q := by
  induction h with
  | here =>
    rw [Nat.zero_add]
    exact h'
  | move first _ ih =>
    have more := ih h'
    rw [List.append_assoc] at more
    rw [Nat.add_right_comm]
    exact .move first more

theorem Leads.split (h : Leads t place (front ++ rest) k q) :
    ∃ mid i j, i + j = k ∧ Leads t place front i mid ∧ Leads t mid rest j q := by
  generalize he : front ++ rest = names at h
  induction h generalizing front with
  | here =>
    obtain ⟨rfl, rfl⟩ := List.append_eq_nil_iff.1 he
    exact ⟨_, 0, 0, rfl, .here, .here⟩
  | @move place n a next target names k q first more ih =>
    cases front with
    | nil =>
      cases he
      exact ⟨place, 0, k + a, Nat.zero_add _, .here, .move first more⟩
    | cons _ front =>
      obtain ⟨rfl, rfl⟩ := List.cons.inj he
      obtain ⟨mid, i, j, sum, before, behind⟩ := ih (List.append_assoc target front rest)
      refine ⟨mid, i + a, j, ?_, .move first before, behind⟩
      rw [← sum, Nat.add_right_comm]

theorem Leads.cons_split (h : Leads t place (n :: rest) k q) :
    ∃ mid i j, i + j = k ∧ Leads t place [n] i mid ∧ Leads t mid rest j q := by
  have whole : Leads t place ([n] ++ rest) k q := h
  exact whole.split

theorem Leads.unique (h : Leads t place names k q) (h' : Leads t place names k' q') :
    k' = k ∧ q' = q := by
  induction h generalizing k' with
  | here =>
    cases h'
    exact ⟨rfl, rfl⟩
  | move first _ ih =>
    cases h' with
    | move first' more =>
      obtain ⟨rfl, rfl, rfl⟩ := first.unique first'
      obtain ⟨rfl, rfl⟩ := ih more
      exact ⟨rfl, rfl⟩

theorem Moves.leads (h : Moves t place n i next target) (more : Leads t next target k q) :
    Leads t place [n] (k + i) q := by
  rw [← List.append_nil target] at more
  exact .move h more

section
variable {pass : List String → List String → Except Cause (List String)}

theorem followNames_ordinary (searched : t.Searches place) (ordinary : Ordinary n)
    (rest : List String) : t.followNames pass place (n :: rest) =
      match t.top.at? (place ++ [n]) with
      | none => .error .missing
      | some (.link target) => pass (linkStart place target) ((targetNames target).2 ++ rest)
      | some _ => t.followNames pass (place ++ [n]) rest := by
  obtain ⟨entries, access, there, allowed⟩ := searched
  obtain ⟨named, parent, short⟩ := ordinary
  rw [not_or] at named
  have found : t.top.at? (place ++ [n]) = entries.lookup n := by
    rw [Entry.at?_append, there]
    exact Option.bind_fun_some _
  rw [followNames, there, found]
  dsimp only
  rw [if_neg named.1, allowed, if_neg (by decide), if_neg named.2, if_neg parent, if_neg short]
  rfl

theorem followNames_of_moves (h : Moves t place n i next target) (rest : List String) :
    t.followNames pass place (n :: rest) =
      if i = 0 then t.followNames pass next (target ++ rest) else pass next (target ++ rest) := by
  cases h with
  | stay folder hn searched =>
    obtain ⟨entries, access, there⟩ := folder
    rw [followNames, there]
    by_cases named : n = ""
    · exact if_pos named
    · obtain ⟨_, _, same, allowed⟩ := searched named
      cases there.symm.trans same
      obtain rfl := hn.resolve_left named
      dsimp only
      rw [allowed]
      rfl
  | up searched =>
    obtain ⟨entries, access, there, allowed⟩ := searched
    rw [followNames, there]
    dsimp only
    rw [allowed]
    rfl
  | @down _ e searched ordinary he plain =>
    rw [followNames_ordinary searched ordinary, he]
    cases e with
    | folder held access => rfl
    | file source readable => rfl
    | link target => cases plain
  | link searched ordinary he =>
    rw [followNames_ordinary searched ordinary, he]
    rfl

theorem exists_moves_of_followNames (h : t.followNames pass place (n :: rest) = .ok q) :
    ∃ i next target, Moves t place n i next target := by
  rw [followNames] at h
  split at h
  · rename_i entries access there
    have folder : t.IsFolder place := ⟨entries, access, there⟩
    split at h
    · rename_i hn
      exact ⟨_, _, _, .stay folder (.inl hn) fun named => (named hn).elim⟩
    rename_i named
    split at h
    · cases h
    rename_i allowed
    rw [Bool.not_eq_true', Bool.not_eq_false] at allowed
    have searched : t.Searches place := ⟨entries, access, there, allowed⟩
    split at h
    · rename_i hn
      exact ⟨_, _, _, .stay folder (.inr hn) fun _ => searched⟩
    rename_i here
    split at h
    · rename_i hn
      subst hn
      exact ⟨_, _, _, .up searched⟩
    rename_i parent
    split at h
    · cases h
    rename_i short
    have ordinary : Ordinary n := ⟨not_or.2 ⟨named, here⟩, parent, short⟩
    have found {e : Entry} (he : entries.lookup n = some e) : t.top.at? (place ++ [n]) = some e :=
      Entry.at?_concat_eq_some.2 ⟨entries, access, there, he⟩
    split at h
    · cases h
    · rename_i target he
      exact ⟨_, _, _, .link searched ordinary (found he)⟩
    · rename_i e other he
      refine ⟨_, _, _, .down searched ordinary (found he) ?_⟩
      cases e with
      | folder held access => rfl
      | file source readable => rfl
      | link target => exact (other target rfl).elim
  · cases h

theorem Moves.cost (h : Moves t place n i next target) : i = 0 ∧ target = [] ∨ i = 1 := by
  cases h with
  | stay _ _ _ => exact .inl ⟨rfl, rfl⟩
  | up _ => exact .inl ⟨rfl, rfl⟩
  | down _ _ _ _ => exact .inl ⟨rfl, rfl⟩
  | link _ _ _ => exact .inr rfl

theorem leads_of_followNames {links : Nat}
    (hpass : ∀ start names q, pass start names = .ok q → ∃ k, k < links ∧ Leads t start names k q)
    (h : t.followNames pass place names = .ok q) : ∃ k, k ≤ links ∧ Leads t place names k q := by
  induction names generalizing place with
  | nil =>
    cases h
    exact ⟨0, Nat.zero_le links, .here⟩
  | cons n rest ih =>
    obtain ⟨i, next, target, first⟩ := exists_moves_of_followNames h
    rw [followNames_of_moves first] at h
    rcases first.cost with ⟨rfl, rfl⟩ | rfl
    · obtain ⟨k, fits, more⟩ := ih h
      exact ⟨k, fits, .move first more⟩
    · obtain ⟨k, fits, more⟩ := hpass _ _ _ h
      exact ⟨k + 1, fits, .move first more⟩

end

theorem followFrom_of_moves (h : Moves t place n i next target) (fits : i ≤ links)
    (rest : List String) : t.followFrom links place (n :: rest) =
      t.followFrom (links - i) next (target ++ rest) := by
  have first (pass : List String → List String → Except Cause (List String)) :
      t.followNames pass place (n :: rest) =
        if i = 0 then t.followNames pass next (target ++ rest) else pass next (target ++ rest) :=
    followNames_of_moves h rest
  cases links with
  | zero =>
    cases Nat.le_zero.1 fits
    exact first _
  | succ links =>
    rcases h.cost with ⟨rfl, _⟩ | rfl
    · exact first _
    · exact first _

/-- Following names ends where they lead, if no more links are passed than allowed. -/
theorem followFrom_eq_ok : t.followFrom links place names = .ok q ↔
    ∃ k, k ≤ links ∧ Leads t place names k q := by
  constructor
  · intro h
    -- Names are followed by recursion on them, up to the first link. What comes after it is
    -- followed with one link less.
    induction links generalizing place names q with
    | zero =>
      refine leads_of_followNames (fun start names q stopped => ?_) h
      cases stopped
    | succ links ih =>
      refine leads_of_followNames (fun start names q h => ?_) h
      obtain ⟨k, fits, more⟩ := ih h
      exact ⟨k, Nat.lt_succ_of_le fits, more⟩
  · intro ⟨k, fits, h⟩
    induction h generalizing links with
    | here =>
      cases links with
      | zero => rfl
      | succ links => rfl
    | move first _ ih =>
      rw [followFrom_of_moves first (Nat.le_trans (Nat.le_add_left _ _) fits)]
      exact ih (Nat.le_sub_of_add_le fits)

end FileTree

end PackageUsage
