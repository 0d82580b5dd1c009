import Mathlib.Data.List.Lex
import Mathlib.Data.Set.List
import PackageUsage.Proofs.SortedText
import PackageUsage.Proofs.WalkedFolders

namespace PackageUsage.FileTree
set_option autoImplicit true

/-- Whether one list of names comes before another one: by the first names that differ, or because
it ends first. -/
abbrev FolderLt : List String → List String → Prop := List.Lex fun s t => Text.lt s t

/-- Whether a walk comes to a name in a folder before it comes to another one. -/
def Precedes : List String × String → List String × String → Prop :=
  Prod.Lex FolderLt fun s t => Text.lt s t

/-- All names that a walk from `top` meets, with their folders, in the order of the walk. -/
structure Visits (t : FileTree) (skip : String → Bool) (top : Path) (e : Entry)
    (names : List (List String × String)) : Prop where
  all : ∀ folder name, (folder, name) ∈ names ↔ Meets t skip top [] e folder name
  ordered : names.Pairwise Precedes

/-- The order of the steps of a walk. -/
inductive WalkStep.Precedes : WalkStep → WalkStep → Prop
  | name {place : List String} : Text.lt m n → Precedes (.name place m) (.name place n)
  | folder : FolderLt s.folder s'.folder → Precedes s s'

/-- The step of a walk that meets a name. -/
def meet (s : List String × String) : WalkStep := .name s.1 s.2

instance : Std.Asymm fun s t : String => (Text.lt s t : Prop) where
  asymm _ _ h k := Text.lt_asymm h k

theorem Precedes.asymm (h : Precedes s s') (k : Precedes s' s) : False := by
  cases h with
  | left _ _ lt =>
    cases k with
    | left _ _ gt => exact Std.Asymm.asymm _ _ lt gt
    | right => exact Std.Asymm.asymm _ _ lt lt
  | right _ lt =>
    cases k with
    | left _ _ gt => exact Std.Asymm.asymm _ _ gt gt
    | right _ gt => exact Text.lt_asymm lt gt

theorem WalkStep.Precedes.ne {s s' : WalkStep} (h : s.Precedes s') : s ≠ s' := by
  intro same
  subst same
  cases h with
  | name lt => exact Text.lt_asymm lt lt
  | folder lt => exact Std.Asymm.asymm _ _ lt lt

section
variable {t : FileTree} {skip : String → Bool} {top : Path} {reached : Bool}
  {before : List String}

theorem folderLt_of_below (h : before ++ [n] <+: folder) : FolderLt before folder := by
  obtain ⟨rest, rfl⟩ := h
  have shorter : FolderLt [] (n :: rest) := .nil
  have longer := shorter.append_left _ before
  rwa [List.append_nil, List.append_cons] at longer

theorem folderLt_of_branches (h : before ++ [m] <+: folder) (h' : before ++ [n] <+: folder')
    (lt : Text.lt m n) : FolderLt folder folder' := by
  obtain ⟨rest, rfl⟩ := h
  obtain ⟨rest', rfl⟩ := h'
  have first : FolderLt (m :: rest) (n :: rest') := .rel lt
  rw [← List.append_cons, ← List.append_cons]
  exact first.append_left _ before

theorem pairwise_enterable {entries : List (String × Entry)}
    (distinct : (entries.map Prod.fst).Nodup) :
    ((t.walkFolders skip top reached before entries).mergeSort fun a b => Text.le a.1 b.1).Pairwise
      fun a b => Text.lt a.1 b.1 := by
  have named : (t.walkFolders skip top reached before entries).map Prod.fst =
      (entries.filter fun p => p.2.isFolder && !skip p.1).map Prod.fst := by
    rw [walkFolders_eq, List.map_map]
    rfl
  have apart : ((t.walkFolders skip top reached before entries).map Prod.fst).Nodup := by
    rw [named]
    exact distinct.sublist (List.filter_sublist.map _)
  have sorted : ((t.walkFolders skip top reached before entries).mergeSort
      fun a b => Text.le a.1 b.1).Pairwise fun a b => Text.le a.1 b.1 := by
    apply List.pairwise_mergeSort
    · intro a b c
      exact Text.le_trans
    · intro a b
      exact Text.le_total a.1 b.1
  have perm := List.mergeSort_perm (t.walkFolders skip top reached before entries)
    fun a b => Text.le a.1 b.1
  have differ := List.pairwise_map.1 ((perm.map Prod.fst).nodup_iff.2 apart)
  exact (sorted.and differ).imp fun h => Text.lt_of_le_of_ne h.1 h.2

theorem mem_walkFolders {below : String × List WalkStep}
    (h : below ∈ t.walkFolders skip top reached before entries) :
    ∃ x, (below.1, x) ∈ entries ∧
      below.2 = t.walkEntry skip top reached (before ++ [below.1]) x := by
  rw [walkFolders_eq] at h
  obtain ⟨⟨n, x⟩, hm, rfl⟩ := List.mem_map.1 h
  exact ⟨x, (mem_enterable.1 hm).1, rfl⟩

theorem pairwise_walkEntry (h : e.isProper = true) :
    (t.walkEntry skip top reached before e).Pairwise WalkStep.Precedes := by
  induction e using Entry.folderInduction generalizing before reached with
  | other e he =>
    cases e with
    | file source readable => exact List.pairwise_singleton _ _
    | link target => exact .nil
    | folder entries access => cases he
  | folder entries access ih =>
    rcases t.walkEntry_cases skip top reached before entries access with
      ⟨rfl, lists, written⟩ | ⟨cause, alone⟩
    · obtain ⟨distinct, inside⟩ := Entry.isProper_folder h
      -- every step below a folder of the folder is in it, and comes with its name
      have placed {below : String × List WalkStep} {step : WalkStep}
          (hb : below ∈ (t.walkFolders skip top access.searches before entries).mergeSort
            fun a b => Text.le a.1 b.1) (hs : step ∈ below.2) :
          before ++ [below.1] <+: step.folder := by
        obtain ⟨x, _, he⟩ := mem_walkFolders (List.mem_mergeSort.1 hb)
        rw [he] at hs
        exact prefix_of_mem_walkEntry hs
      rw [walkEntry, if_neg (Bool.eq_false_iff.1 written), Bool.true_and, if_pos lists,
        List.pairwise_append]
      refine ⟨?_, ?_, ?_⟩
      · rw [List.pairwise_map]
        apply (Text.ascending_sort (distinct.sublist (List.filter_sublist.map _))).imp
        intro m n lt
        exact .name lt
      · rw [List.pairwise_flatMap]
        constructor
        · intro below hb
          obtain ⟨x, hm, he⟩ := mem_walkFolders (List.mem_mergeSort.1 hb)
          rw [he]
          exact ih below.1 x hm (inside below.1 x hm).2
        · apply (pairwise_enterable distinct).imp_of_mem
          intro a b ha hb lt s hs s' hs'
          exact .folder (folderLt_of_branches (placed ha hs) (placed hb hs') lt)
      · intro s hs s' hs'
        obtain ⟨n, _, rfl⟩ := List.mem_map.1 hs
        obtain ⟨below, hb, hs'⟩ := List.mem_flatMap.1 hs'
        exact .folder (folderLt_of_below (placed hb hs'))
    · rw [alone]
      exact List.pairwise_singleton _ _

theorem precedes_of_meet (h : (meet s).Precedes (meet s')) : Precedes s s' := by
  obtain ⟨folder, m⟩ := s
  obtain ⟨folder', n⟩ := s'
  cases h with
  | name lt => exact .right _ lt
  | folder lt => exact .left _ _ lt

theorem meet_injective : Function.Injective meet := by
  rintro ⟨folder, m⟩ ⟨folder', n⟩ same
  cases same
  rfl

/-- The steps of a walk whose folders can all be listed are those that meet the names, in order. -/
theorem exists_visits (proper : e.isProper = true) (given : e.isFolder = true)
    (lists : Lists skip top [] e) :
    ∃ names, Visits t skip top e names ∧ t.walkEntry skip top true [] e = names.map meet := by
  have met : ∀ step ∈ t.walkEntry skip top true [] e, step ∈ Set.range meet := by
    intro step hs
    obtain ⟨folder, name, rfl, _⟩ := (mem_walkEntry_iff proper given lists).1 hs
    exact ⟨(folder, name), rfl⟩
  have all : t.walkEntry skip top true [] e ∈ Set.range (List.map meet) := by
    rw [Set.range_list_map]
    exact met
  obtain ⟨names, steps⟩ := all
  refine ⟨names, ⟨?_, ?_⟩, steps.symm⟩
  · intro folder name
    rw [← List.mem_map_of_injective meet_injective, steps, mem_walkEntry_iff proper given lists]
    constructor
    · rintro ⟨_, _, same, meets⟩
      cases same
      exact meets
    · intro meets
      exact ⟨folder, name, rfl, meets⟩
  · have ordered : (names.map meet).Pairwise WalkStep.Precedes := by
      rw [steps]
      exact pairwise_walkEntry proper
    exact (List.pairwise_map.1 ordered).imp precedes_of_meet

/-- The order of a walk is told by the names that it meets. -/
theorem Visits.unique (h : Visits t skip top e names) (k : Visits t skip top e others) :
    names = others := by
  have once {names : List (List String × String)} (h : Visits t skip top e names) :
      names.Nodup := by
    apply h.ordered.imp
    intro s s' before same
    exact before.asymm (same ▸ before)
  have perm : names.Perm others := by
    rw [List.perm_ext_iff_of_nodup (once h) (once k)]
    intro s
    rw [h.all, k.all]
  apply perm.eq_of_pairwise _ h.ordered k.ordered
  intro s s' _ _ before behind
  exact (before.asymm behind).elim

end

end PackageUsage.FileTree
