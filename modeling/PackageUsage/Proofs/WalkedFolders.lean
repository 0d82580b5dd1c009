import PackageUsage.FileTree.Access
import PackageUsage.Proofs.KeyedLists

namespace PackageUsage
set_option autoImplicit true

/-- A name that an entry of a folder can have in a path. -/
def isProperName (name : String) : Bool := name != "" && name != "." && !Text.hasChar name '/'

namespace Entry

mutual

/-- In every folder, names can stand in a path and are different from each other. -/
def isProper : Entry → Bool
  | folder entries _ => decide (entries.map Prod.fst).Nodup && areProper entries
  | _ => true

def areProper : List (String × Entry) → Bool
  | [] => true
  | (name, e) :: rest => isProperName name && isProper e && areProper rest

end

theorem proper_of_areProper (h : areProper entries = true) (hm : (name, e) ∈ entries) :
    isProperName name = true ∧ e.isProper = true := by
  induction entries with
  | nil => cases hm
  | cons first rest ih =>
    obtain ⟨n, x⟩ := first
    simp only [areProper, Bool.and_eq_true] at h
    rcases List.mem_cons.1 hm with he | hm
    · cases he
      exact h.1
    · exact ih h.2 hm

theorem isProper_folder (h : (folder entries access).isProper = true) :
    (entries.map Prod.fst).Nodup ∧
      ∀ name e, (name, e) ∈ entries → isProperName name = true ∧ e.isProper = true := by
  simp only [isProper, Bool.and_eq_true, decide_eq_true_eq] at h
  exact ⟨h.1, fun name e hm => proper_of_areProper h.2 hm⟩

theorem size_le_sizes {entries : List (String × Entry)} (h : (name, e) ∈ entries) :
    e.size ≤ sizes entries := by
  induction entries with
  | nil => cases h
  | cons first rest ih =>
    obtain ⟨n, x⟩ := first
    rw [sizes]
    rcases List.mem_cons.1 h with he | hm
    · cases he
      exact Nat.le_add_right _ _
    · exact Nat.le_trans (ih hm) (Nat.le_add_left _ _)

/-- Entries by the folders that they are in. -/
@[elab_as_elim]
theorem folderInduction {motive : Entry → Prop} (other : ∀ e, e.isFolder = false → motive e)
    (folder : ∀ entries access, (∀ name e, (name, e) ∈ entries → motive e) →
      motive (.folder entries access)) (e : Entry) : motive e := by
  match e with
  | .file source readable => exact other _ rfl
  | .link target => exact other _ rfl
  | .folder entries access =>
    apply folder
    intro name e hm
    have smaller : e.size < (Entry.folder entries access).size := by
      rw [size, Nat.add_comm]
      exact Nat.lt_succ_of_le (size_le_sizes hm)
    exact folderInduction other folder e
termination_by e.size
decreasing_by exact smaller

end Entry

namespace FileTree

/-- A folder below an entry to which neither a link nor a skipped folder leads. -/
structure Enters (skip : String → Bool) (e : Entry) (folder : List String)
    (entries : List (String × Entry)) (access : Access) : Prop where
  kept : ∀ name ∈ folder, skip name = false
  leads : e.at? folder = some (.folder entries access)

/-- A folder that a walk enters can be listed: it allows so, those on the way allow it to be looked
up, and its path is not too long. -/
structure Listed (top : Path) (before : List String) (e : Entry) (folder : List String)
    (access : Access) : Prop where
  lists : access.lists = true
  seen : (e.seen? folder).isSome = true
  written : isTooLong (walkText top (before ++ folder)) = false

/-- Every folder that a walk enters can be listed. -/
def Lists (skip : String → Bool) (top : Path) (before : List String) (e : Entry) : Prop :=
  ∀ folder entries access, Enters skip e folder entries access → Listed top before e folder access

/-- A name that a walk meets, with its folder: it is not that of a folder, seen through links. -/
inductive Meets (t : FileTree) (skip : String → Bool) (top : Path) (before : List String)
    (e : Entry) : List String → String → Prop
  | of : Enters skip e folder entries readable → entries.lookup name = some x →
      t.leadsToFolder top (before ++ folder) name x = false →
      Meets t skip top before e (before ++ folder) name

def WalkStep.folder : WalkStep → List String
  | name folder _ => folder
  | failure folder _ => folder

section
variable {t : FileTree} {skip : String → Bool} {top : Path} {reached : Bool}

theorem Enters.here : Enters skip (.folder entries access) [] entries access := ⟨nofun, rfl⟩

theorem Enters.below (h : Enters skip x folder entries access) (hl : held.lookup name = some x)
    (kept : skip name = false) :
    Enters skip (.folder held own) (name :: folder) entries access := by
  refine ⟨List.forall_mem_cons.2 ⟨kept, h.kept⟩, ?_⟩
  rw [Entry.at?, Entry.get?, hl]
  exact h.leads

theorem Enters.cases (h : Enters skip (.folder held own) folder entries access) :
    (folder = [] ∧ entries = held ∧ access = own) ∨
      ∃ name rest x, folder = name :: rest ∧ skip name = false ∧ held.lookup name = some x ∧
        Enters skip x rest entries access := by
  obtain ⟨kept, leads⟩ := h
  cases folder with
  | nil =>
    cases leads
    exact .inl ⟨rfl, rfl, rfl⟩
  | cons name rest =>
    obtain ⟨first, others⟩ := List.forall_mem_cons.1 kept
    obtain ⟨x, hx, leads⟩ := Option.bind_eq_some_iff.1 leads
    exact .inr ⟨name, rest, x, rfl, first, hx, others, leads⟩

theorem Enters.isFolder (h : Enters skip e folder entries access) : e.isFolder = true := by
  obtain ⟨_, leads⟩ := h
  cases e with
  | folder held own => rfl
  | file source readable => cases folder <;> cases leads
  | link target => cases folder <;> cases leads

/-- What is below a folder can be listed from it exactly if the folder may be searched. -/
theorem listed_cons_iff (hl : held.lookup name = some x) :
    Listed top before (.folder held own) (name :: folder) access ↔
      own.searches = true ∧ Listed top (before ++ [name]) x folder access := by
  have seen : (Entry.folder held own).seen? (name :: folder) =
      if own.searches then x.seen? folder else none := by
    rw [Entry.seen?, Entry.get?, hl]
    rfl
  constructor
  · rintro ⟨lists, way, written⟩
    rw [seen] at way
    rw [List.append_cons] at written
    split at way
    · rename_i searched
      exact ⟨searched, lists, way, written⟩
    · cases way
  · rintro ⟨searched, lists, way, written⟩
    rw [← List.append_cons] at written
    refine ⟨lists, ?_, written⟩
    rw [seen, if_pos searched]
    exact way

theorem Lists.below (h : Lists skip top before (.folder held own))
    (hl : held.lookup name = some x) (kept : skip name = false) :
    Lists skip top (before ++ [name]) x := by
  intro folder entries access enters
  exact ((listed_cons_iff hl).1 (h _ _ _ (enters.below hl kept))).2

theorem Lists.searches (h : Lists skip top before (.folder held own))
    (hl : held.lookup name = some x) (kept : skip name = false) (inner : x.isFolder = true) :
    own.searches = true := by
  cases x with
  | folder entries access =>
    have enters : Enters skip (.folder entries access) [] entries access := .here
    exact ((listed_cons_iff hl).1 (h _ _ _ (enters.below hl kept))).1
  | file source readable => cases inner
  | link target => cases inner

theorem Meets.below (h : Meets t skip top (before ++ [name]) x folder found)
    (hl : held.lookup name = some x) (kept : skip name = false) :
    Meets t skip top before (.folder held own) folder found := by
  obtain @⟨rest, _, _, _, _, enters, here, other⟩ := h
  have place := List.append_cons before name rest
  rw [← place] at other ⊢
  exact .of (enters.below hl kept) here other

theorem walkFolders_eq (entries : List (String × Entry)) :
    t.walkFolders skip top reached before entries =
      (entries.filter fun (n, e) => e.isFolder && !skip n).map fun (n, e) =>
        (n, t.walkEntry skip top reached (before ++ [n]) e) := by
  induction entries with
  | nil => rfl
  | cons first rest ih =>
    obtain ⟨n, e⟩ := first
    rw [walkFolders, List.filter_cons]
    split
    · rw [ih]
      rfl
    · exact ih

theorem walkEntry_perm (lists : access.lists = true)
    (written : isTooLong (walkText top before) = false) (entries : List (String × Entry)) :
    (t.walkEntry skip top true before (.folder entries access)).Perm
      ((entries.filter fun (n, e) => !t.leadsToFolder top before n e).map
          (fun p => .name before p.1) ++
        (entries.filter fun (n, e) => e.isFolder && !skip n).flatMap fun (n, e) =>
          t.walkEntry skip top access.searches (before ++ [n]) e) := by
  rw [walkEntry, if_neg (Bool.eq_false_iff.1 written), Bool.true_and, if_pos lists]
  apply List.Perm.append
  · rw [← Function.comp_def (WalkStep.name before) Prod.fst, ← List.map_map]
    exact (List.mergeSort_perm _ _).map _
  · rw [walkFolders_eq]
    apply ((List.mergeSort_perm _ _).flatMap_right _).trans
    rw [List.flatMap_map]

theorem mem_enterable {entries : List (String × Entry)} :
    (name, x) ∈ entries.filter (fun (n, e) => e.isFolder && !skip n) ↔
      (name, x) ∈ entries ∧ x.isFolder = true ∧ skip name = false := by
  rw [List.mem_filter, Bool.and_eq_true, Bool.not_eq_true']

theorem mem_walkEntry (lists : access.lists = true)
    (written : isTooLong (walkText top before) = false) :
    step ∈ t.walkEntry skip top true before (.folder entries access) ↔
      (∃ name x, (name, x) ∈ entries ∧ t.leadsToFolder top before name x = false ∧
        step = .name before name) ∨
      ∃ name x, (name, x) ∈ entries ∧ x.isFolder = true ∧ skip name = false ∧
        step ∈ t.walkEntry skip top access.searches (before ++ [name]) x := by
  rw [(walkEntry_perm lists written entries).mem_iff, List.mem_append]
  apply or_congr
  · rw [List.mem_map]
    constructor
    · rintro ⟨⟨name, x⟩, hm, rfl⟩
      obtain ⟨hm, other⟩ := List.mem_filter.1 hm
      exact ⟨name, x, hm, Bool.not_eq_true' _ ▸ other, rfl⟩
    · rintro ⟨name, x, hm, other, rfl⟩
      exact ⟨(name, x), List.mem_filter.2 ⟨hm, Bool.not_eq_true' _ ▸ other⟩, rfl⟩
  · rw [List.mem_flatMap]
    constructor
    · rintro ⟨⟨name, x⟩, hm, hs⟩
      obtain ⟨hm, isFolder, kept⟩ := mem_enterable.1 hm
      exact ⟨name, x, hm, isFolder, kept, hs⟩
    · rintro ⟨name, x, hm, isFolder, kept, hs⟩
      exact ⟨(name, x), mem_enterable.2 ⟨hm, isFolder, kept⟩, hs⟩

/-- A folder that a walk comes to is listed, or the walk there is one failure. -/
theorem walkEntry_cases (t : FileTree) (skip : String → Bool) (top : Path) (reached : Bool)
    (before : List String) (entries : List (String × Entry)) (access : Access) :
    (reached = true ∧ access.lists = true ∧ isTooLong (walkText top before) = false) ∨
      ∃ cause, t.walkEntry skip top reached before (.folder entries access) =
        [.failure before cause] := by
  rw [walkEntry]
  split
  · exact .inr ⟨_, rfl⟩
  · rename_i written
    split
    · rename_i allowed
      rw [Bool.and_eq_true] at allowed
      exact .inl ⟨allowed.1, allowed.2, Bool.eq_false_iff.2 written⟩
    · exact .inr ⟨_, rfl⟩

theorem prefix_of_mem_walkEntry (h : step ∈ t.walkEntry skip top reached before e) :
    before <+: step.folder := by
  induction e using Entry.folderInduction generalizing before reached with
  | other e he =>
    cases e with
    | file source readable =>
      cases List.mem_singleton.1 h
      exact List.prefix_refl before
    | link target => cases h
    | folder entries access => cases he
  | folder entries access ih =>
    rcases t.walkEntry_cases skip top reached before entries access with
      ⟨rfl, lists, written⟩ | ⟨cause, alone⟩
    · rcases (mem_walkEntry lists written).1 h with ⟨_, _, _, _, rfl⟩ | ⟨name, x, hm, _, _, hs⟩
      · exact List.prefix_refl before
      · exact (List.prefix_append before [name]).trans (ih name x hm hs)
    · rw [alone] at h
      cases List.mem_singleton.1 h
      exact List.prefix_refl before

theorem proper_of_mem_walkEntry {before : List String} (h : e.isProper = true)
    (hs : .name folder name ∈ t.walkEntry skip top reached before e) :
    ∃ rest, folder = before ++ rest ∧ ∀ n ∈ rest ++ [name], isProperName n = true := by
  induction e using Entry.folderInduction generalizing before reached with
  | other e he =>
    cases e with
    | file source readable => cases List.mem_singleton.1 hs
    | link target => cases hs
    | folder entries access => cases he
  | folder entries access ih =>
    rcases t.walkEntry_cases skip top reached before entries access with
      ⟨rfl, lists, written⟩ | ⟨cause, alone⟩
    · obtain ⟨_, inside⟩ := Entry.isProper_folder h
      rcases (mem_walkEntry lists written).1 hs with
        ⟨_, x, hm, _, he⟩ | ⟨below, x, hm, _, _, hs⟩
      · cases he
        refine ⟨[], (List.append_nil _).symm, ?_⟩
        exact List.forall_mem_singleton.2 (inside name x hm).1
      · obtain ⟨named, proper⟩ := inside below x hm
        obtain ⟨rest, rfl, names⟩ := ih below x hm proper hs
        refine ⟨below :: rest, (List.append_cons before below rest).symm, ?_⟩
        exact List.forall_mem_cons.2 ⟨named, names⟩
    · rw [alone] at hs
      cases List.mem_singleton.1 hs

/-- A walk whose folders can all be listed meets each name, and does not fail. -/
theorem mem_walkEntry_iff (proper : e.isProper = true) (given : e.isFolder = true)
    (lists : Lists skip top before e) : step ∈ t.walkEntry skip top true before e ↔
      ∃ folder name, step = .name folder name ∧ Meets t skip top before e folder name := by
  induction e using Entry.folderInduction generalizing before with
  | other e he => cases he.symm.trans given
  | folder entries access ih =>
    obtain ⟨allowed, _, written⟩ := lists [] entries access .here
    rw [List.append_nil] at written
    obtain ⟨distinct, inside⟩ := Entry.isProper_folder proper
    rw [mem_walkEntry allowed written]
    constructor
    · rintro (⟨name, x, hm, other, rfl⟩ | ⟨name, x, hm, isFolder, kept, hs⟩)
      · have here := (lookup_eq_some_iff_mem distinct).2 hm
        refine ⟨before, name, rfl, ?_⟩
        have place := List.append_nil before
        have meets : Meets t skip top before (.folder entries access) (before ++ []) name :=
          .of .here here (place.symm ▸ other)
        rwa [place] at meets
      · have here := (lookup_eq_some_iff_mem distinct).2 hm
        rw [lists.searches here kept isFolder] at hs
        have below := lists.below here kept
        have met := (ih name x hm (inside name x hm).2 isFolder below).1 hs
        obtain ⟨folder, found, rfl, meets⟩ := met
        exact ⟨folder, found, rfl, meets.below here kept⟩
    · rintro ⟨_, found, rfl, meets⟩
      obtain @⟨folder, _, _, _, x, enters, here, other⟩ := meets
      rcases enters.cases with ⟨rfl, rfl, rfl⟩ | ⟨name, rest, y, rfl, kept, hl, enters⟩
      · left
        rw [List.append_nil] at other
        exact ⟨found, x, mem_of_lookup here, other, by rw [List.append_nil]⟩
      · right
        have hm := mem_of_lookup hl
        refine ⟨name, y, hm, enters.isFolder, kept, ?_⟩
        rw [lists.searches hl kept enters.isFolder,
          ih name y hm (inside name y hm).2 enters.isFolder (lists.below hl kept)]
        rw [List.append_cons] at other ⊢
        exact ⟨_, found, rfl, .of enters here other⟩

theorem exists_failure (enters : Enters skip e folder entries access)
    (unlisted : ¬ (reached = true ∧ Listed top before e folder access)) :
    ∃ place cause, .failure place cause ∈ t.walkEntry skip top reached before e := by
  induction e using Entry.folderInduction generalizing before folder reached with
  | other e he => cases he.symm.trans enters.isFolder
  | folder held own ih =>
    rcases t.walkEntry_cases skip top reached before held own with
      ⟨rfl, lists, written⟩ | ⟨cause, alone⟩
    · rcases enters.cases with ⟨rfl, rfl, rfl⟩ | ⟨name, rest, x, rfl, kept, hl, enters⟩
      · rw [← List.append_nil before] at written
        exact (unlisted ⟨rfl, lists, rfl, written⟩).elim
      · rw [listed_cons_iff hl] at unlisted
        have hm := mem_of_lookup hl
        have failed := ih name x hm enters fun listed => unlisted ⟨rfl, listed⟩
        obtain ⟨place, cause, failed⟩ := failed
        refine ⟨place, cause, (mem_walkEntry lists written).2 (.inr ?_)⟩
        exact ⟨name, x, hm, enters.isFolder, kept, failed⟩
    · rw [alone]
      exact ⟨before, cause, List.mem_singleton_self _⟩

theorem lists_of_no_failure
    (h : ∀ place cause, .failure place cause ∉ t.walkEntry skip top true before e) :
    Lists skip top before e := by
  intro folder entries access enters
  by_contra unlisted
  have refused : ¬ (true = true ∧ Listed top before e folder access) :=
    fun listed => unlisted listed.2
  obtain ⟨place, cause, failed⟩ := exists_failure (t := t) enters refused
  exact h place cause failed

theorem entryAt_ok (h : t.entryAt p = .ok e) :
    ∃ place, t.follow p = .ok place ∧ t.top.at? place = some e := by
  unfold entryAt at h
  cases hf : t.follow p with
  | error cause =>
    rw [hf] at h
    cases h
  | ok place =>
    refine ⟨place, rfl, ?_⟩
    rw [hf] at h
    cases leads : t.top.at? place with
    | none =>
      simp only [bind, Except.bind, leads] at h
      cases h
    | some x =>
      simp only [bind, Except.bind, leads] at h
      cases h
      rfl

theorem walk_eq (h : t.entryAt top = .ok e) (skip : String → Bool) :
    t.walk skip top = t.walkEntry skip top true [] e := by
  obtain ⟨place, hf, leads⟩ := entryAt_ok h
  unfold walk
  rw [hf]
  dsimp only
  rw [leads]

end

end FileTree

end PackageUsage
