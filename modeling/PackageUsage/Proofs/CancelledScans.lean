import PackageUsage.Proofs.ScannedSources
import PackageUsage.Proofs.WalkOrder

namespace PackageUsage.RepositoryFacts
set_option autoImplicit true
open FileTree (Visits meet)

section
variable {t : FileTree} {root : Path} {top : Entry} {names : List (List String × String)}

/-- The number of sources among the first names of a walk. -/
def sourcesAmong (n : Nat) (names : List (List String × String)) : Nat :=
  (names.take n).countP fun s => isSourceName s.2

theorem sourcesAmong_source (h : isSourceName s.2 = true) (n : Nat) :
    sourcesAmong (n + 1) (s :: names) = sourcesAmong n names + 1 := by
  rw [sourcesAmong, List.take_succ_cons, List.countP_cons, if_pos h]
  rfl

theorem sourcesAmong_other (h : ¬ isSourceName s.2 = true) (n : Nat) :
    sourcesAmong (n + 1) (s :: names) = sourcesAmong n names := by
  rw [sourcesAmong, List.take_succ_cons, List.countP_cons, if_neg h]
  rfl

/-- Either all names that are left are let through, or the scan stops at the first one that is
not. -/
theorem scanSteps_some (passes : ∀ step ∈ names.map meet, Passes t root step)
    (scans : ScansAll t root (names.map meet)) (n : Nat) (before : List FileFacts) :
    scanSteps t root (some n) before (names.map meet) =
      if names.length ≤ n then scanSteps t root none before (names.map meet)
      else .error (.fault (.scanCancelled (before.length + sourcesAmong n names : ℕ))) := by
  induction names generalizing n before with
  | nil => rfl
  | cons s names ih =>
    obtain ⟨first, others⟩ := List.forall_mem_cons.1 passes
    cases n with
    | zero => rfl
    | succ n =>
      simp only [List.map_cons, List.length_cons, Nat.add_le_add_iff_right]
      by_cases named : isSourceName s.2 = true
      · obtain ⟨source, reads⟩ := first named
        obtain ⟨file, scanned, _⟩ := scans s.1 s.2 List.mem_cons_self named source reads
        have behind := ih others scans.behind n (file :: before)
        rw [List.length_cons, Nat.add_right_comm] at behind
        rw [meet, scanSteps_source (some (n + 1)) nofun named, scanSteps_source none nofun named,
          scanned, sourcesAmong_source named]
        exact behind
      · rw [meet, scanSteps_other (some (n + 1)) nofun named, scanSteps_other none nofun named,
          sourcesAmong_other named]
        exact ih others scans.behind n before

theorem ending_ok (hl : limit.whole? = some n) (files : List FileFacts) :
    ∃ facts, ending limit files = .ok facts := by
  have warned : ∃ warnings, syntaxWarning limit (failedPaths files) = .ok warnings := by
    unfold syntaxWarning
    split
    · exact ⟨_, rfl⟩
    · rw [firstOfAmount, hl]
      exact ⟨_, rfl⟩
  obtain ⟨warnings, he⟩ := warned
  rw [ending, he]
  exact ⟨_, rfl⟩

end

/-- In a folder that can be read, a scan that is told to stop after `n` names does what a scan does
that is never told to, if its walk meets at most `n` names. If the walk meets more, the scan is
cancelled, with the number of sources among the first `n` names in the order of the walk. -/
theorem scan_cancelled_after (t : FileTree) (root : Path) (top : Entry) (limit : Amount)
    (leads : t.entryAt root = .ok top) (given : top.isFolder = true) (proper : top.isProper = true)
    (readable : Readable t root top)
    (parses : ∀ folder name, IsSource t root top folder name → ∀ source,
      t.read (sourcePath root folder name) = .ok source →
        ∃ tree hasError, source.parse = .tree tree hasError) :
    (∃! names, Visits t skippedFolders.contains root top names) ∧
      (∀ k, limit.whole? = some k → ∃ facts, scan t root limit none = .ok facts) ∧
      ∀ names n, Visits t skippedFolders.contains root top names →
        scan t root limit (some n) =
          if names.length ≤ n then scan t root limit none
          else .error (.fault (.scanCancelled (sourcesAmong n names))) := by
  have scans : ScansAll t root (steps t root top) := by
    apply scansAll_steps proper
    intro folder name hm named
    obtain ⟨_, _, same, meets⟩ := (FileTree.mem_walkEntry_iff proper given readable.lists).1 hm
    cases same
    exact parses folder name ⟨meets, named⟩
  have passes := (passes_iff_readable proper given).2 readable
  obtain ⟨names, visits, walk⟩ := FileTree.exists_visits proper given readable.lists
  refine ⟨⟨names, visits, fun others h => h.unique visits⟩, ?_, ?_⟩
  · intro k hl
    obtain ⟨files, scanned, _⟩ := scanSteps_ok passes scans []
    rw [scan_eq leads given, scanned]
    exact ending_ok hl (sortFiles files)
  · intro others n h
    rw [steps, walk] at passes scans
    rw [h.unique visits, scan_eq leads given, scan_eq leads given, steps, walk,
      scanSteps_some passes scans]
    split
    · rfl
    · rw [List.length_nil, Nat.zero_add]
      rfl

/-- Two sources, one of them in a folder, a file that is no source, and a folder that cannot be
listed but is not entered. -/
def layeredFolder : Entry :=
  .folder [("src", .folder [("a.js", .file (.ofBytes .empty) true)] .full),
    ("notes.txt", .file (.ofBytes .empty) true), ("dist", .folder [] ⟨false, true⟩),
    ("z.ts", .file (.ofBytes .empty) true)] .full

def layered : FileTree := ⟨layeredFolder, []⟩

def layeredNames : List (List String × String) :=
  [([], "notes.txt"), ([], "z.ts"), (["src"], "a.js")]

theorem mem_steps_layered :
    step ∈ steps layered ⟨.root, []⟩ layeredFolder ↔ step ∈ layeredNames.map meet := by
  have kept : "src" ∉ skippedFolders := by decide
  have skipped : "dist" ∈ skippedFolders := by decide
  have inside : step ∈ layered.walkEntry skippedFolders.contains ⟨.root, []⟩ true ["src"]
      (.folder [("a.js", .file (.ofBytes .empty) true)] .full) ↔ step = .name ["src"] "a.js" := by
    rw [FileTree.mem_walkEntry rfl rfl]
    simp [FileTree.leadsToFolder, Entry.isFolder]
  unfold steps layeredFolder layeredNames
  rw [FileTree.mem_walkEntry rfl rfl]
  simp [FileTree.leadsToFolder, Entry.isFolder, kept, skipped, inside, meet, or_and_right,
    exists_or, or_assoc]

theorem readable_layered : Readable layered ⟨.root, []⟩ layeredFolder := by
  rw [← passes_iff_readable rfl rfl]
  intro step hs
  have met := mem_steps_layered.1 hs
  simp only [layeredNames, List.map_cons, List.map_nil, List.mem_cons, List.not_mem_nil,
    or_false] at met
  rcases met with rfl | rfl | rfl <;> exact fun _ => ⟨_, rfl⟩

theorem visits_layered :
    Visits layered skippedFolders.contains ⟨.root, []⟩ layeredFolder layeredNames := by
  constructor
  · intro folder name
    rw [← List.mem_map_of_injective FileTree.meet_injective, ← mem_steps_layered, steps,
      FileTree.mem_walkEntry_iff rfl rfl readable_layered.lists]
    simp [meet]
  · have byName : Text.lt "notes.txt" "z.ts" := by decide +kernel
    simp [layeredNames, FileTree.Precedes, Prod.lex_def, byName]

theorem scan_cancelled_after_two :
    ∃ facts, scan layered ⟨.root, []⟩ (.whole 1) (some 3) = .ok facts ∧
      scan layered ⟨.root, []⟩ (.whole 1) none = .ok facts ∧
      scan layered ⟨.root, []⟩ (.whole 1) (some 2) = .error (.fault (.scanCancelled 1)) := by
  have parses : ∀ folder name, IsSource layered ⟨.root, []⟩ layeredFolder folder name →
      ∀ source, layered.read (sourcePath ⟨.root, []⟩ folder name) = .ok source →
        ∃ tree hasError, source.parse = .tree tree hasError := by
    rintro folder name ⟨meets, _⟩ source reads
    have met := (visits_layered.all folder name).2 meets
    simp only [layeredNames, List.mem_cons, List.not_mem_nil, or_false, Prod.mk.injEq] at met
    rcases met with ⟨rfl, rfl⟩ | ⟨rfl, rfl⟩ | ⟨rfl, rfl⟩
    all_goals
      cases reads
      exact ⟨_, _, rfl⟩
  obtain ⟨_, returns, stops⟩ := scan_cancelled_after layered ⟨.root, []⟩ layeredFolder (.whole 1)
    rfl rfl rfl readable_layered parses
  obtain ⟨facts, scanned⟩ := returns 1 rfl
  have through := stops layeredNames 3 visits_layered
  have cancelled := stops layeredNames 2 visits_layered
  have one : sourcesAmong 2 layeredNames = 1 := by decide +kernel
  rw [if_pos (by decide), scanned] at through
  rw [if_neg (by decide), one] at cancelled
  exact ⟨facts, through, scanned, cancelled⟩

end PackageUsage.RepositoryFacts
