import Mathlib.Data.List.Perm.Basic
import PackageUsage.Facts.Repository
import PackageUsage.Proofs.SortedText
import PackageUsage.Proofs.SpecifierNames
import PackageUsage.Proofs.WalkOrder

namespace PackageUsage
set_option autoImplicit true

theorem slash_not_mem (h : isProperName name = true) : '/' ∉ name.toList := by
  simp only [isProperName, Bool.and_eq_true, Bool.not_eq_true', Text.hasChar] at h
  exact fun inside => absurd (List.contains_iff_mem.2 inside) (Bool.eq_false_iff.1 h.2)

theorem Path.parts_ofString_join {names : List String} (given : names ≠ [])
    (h : ∀ name ∈ names, isProperName name = true) :
    (ofString (Text.join "/" names)).parts = names := by
  unfold ofString
  dsimp only
  rw [Text.split_join given fun name hn => slash_not_mem (h name hn), List.filter_eq_self]
  intro name hn
  have proper := h name hn
  unfold isProperName at proper
  rw [Bool.and_eq_true] at proper
  exact proper.1

theorem Path.name_ofString_join {folder : List String} {last : String}
    (proper : ∀ n ∈ folder ++ [last], isProperName n = true) :
    (ofString (Text.join "/" (folder ++ [last]))).name = last := by
  have given : folder ++ [last] ≠ [] :=
    List.append_ne_nil_of_right_ne_nil folder (List.cons_ne_nil last [])
  rw [Path.name, parts_ofString_join given proper, List.getLastD_concat]

theorem Language.ofPath?_join {folder : List String} {last : String}
    (proper : ∀ n ∈ folder ++ [last], isProperName n = true) :
    ofPath? (Path.ofString (Text.join "/" (folder ++ [last]))) = ofPath? (Path.ofString last) := by
  have alone : (Path.ofString (Text.join "/" [last])).name = last := by
    apply @Path.name_ofString_join []
    exact List.forall_mem_singleton.2 (proper last (List.mem_append_right _ List.mem_cons_self))
  have same : Text.join "/" [last] = last := String.intercalate_singleton
  rw [same] at alone
  unfold ofPath? Path.suffix
  rw [Path.name_ofString_join proper, alone]

namespace RepositoryFacts

/-- The path of a source. -/
def sourcePath (root : Path) (folder : List String) (name : String) : Path :=
  ⟨root.anchor, root.parts ++ folder ++ [name]⟩

def isSourceName (name : String) : Bool := (Language.ofPath? (Path.ofString name)).isSome

/-- The facts of a source. -/
inductive Scans (t : FileTree) (root : Path) (folder : List String) (name : String) :
    FileFacts → Prop
  | of : t.read (sourcePath root folder name) = .ok source →
      source.parse = .tree tree hasError → Language.ofPath? (Path.ofString name) = some language →
      Scans t root folder name (.ofParsed
        ⟨Text.join "/" (folder ++ [name]), language, source.bytes, tree, hasError⟩)

/-- The source that a step of a walk meets. -/
def source? : FileTree.WalkStep → Option (List String × String)
  | .name folder name => if isSourceName name then some (folder, name) else none
  | .failure .. => none

/-- A step of a walk does not end a scan. -/
def Passes (t : FileTree) (root : Path) : FileTree.WalkStep → Prop
  | .name folder name =>
    isSourceName name = true → ∃ source, t.read (sourcePath root folder name) = .ok source
  | .failure .. => False

section
variable {t : FileTree} {root : Path}

theorem scanFile_ok (parsed : source.parse = .tree tree hasError)
    (proper : ∀ n ∈ folder ++ [name], isProperName n = true) (named : isSourceName name = true)
    (reads : t.read (sourcePath root folder name) = .ok source) :
    ∃ file, scanFile t root folder name = .ok file ∧ Scans t root folder name file := by
  obtain ⟨language, known⟩ := Option.isSome_iff_exists.1 named
  refine ⟨_, ?_, .of reads parsed known⟩
  unfold scanFile
  have parses : source.parseAt (Text.join "/" (folder ++ [name])) =
      .ok ⟨Text.join "/" (folder ++ [name]), language, source.bytes, tree, hasError⟩ := by
    unfold SourceFile.parseAt
    dsimp only
    rw [Language.ofPath?_join proper, known]
    dsimp only
    rw [parsed]
  unfold sourcePath at reads
  simp only [reads]
  change (Attempt.fault (source.parseAt _) >>= _) = _
  rw [parses]
  rfl

/-- Every source that steps meet is scanned if it can be read. -/
def ScansAll (t : FileTree) (root : Path) (steps : List FileTree.WalkStep) : Prop :=
  ∀ folder name, .name folder name ∈ steps → isSourceName name = true →
    ∀ source, t.read (sourcePath root folder name) = .ok source →
      ∃ file, scanFile t root folder name = .ok file ∧ Scans t root folder name file

theorem ScansAll.behind (h : ScansAll t root (step :: steps)) : ScansAll t root steps :=
  fun folder name hm => h folder name (List.mem_cons_of_mem _ hm)

theorem scanSteps_other (budget : Option Nat) (left : budget ≠ some 0)
    (h : ¬ isSourceName name = true) (steps : List FileTree.WalkStep) :
    scanSteps t root budget before (.name folder name :: steps) =
      scanSteps t root (budget.map (· - 1)) before steps := by
  rw [isSourceName, Option.not_isSome_iff_eq_none] at h
  rw [scanSteps, h, Option.isNone_none, if_pos rfl]
  exact left

theorem scanSteps_source (budget : Option Nat) (left : budget ≠ some 0)
    (h : isSourceName name = true) (steps : List FileTree.WalkStep) :
    scanSteps t root budget before (.name folder name :: steps) =
      scanFile t root folder name >>= fun file =>
        scanSteps t root (budget.map (· - 1)) (file :: before) steps := by
  obtain ⟨language, known⟩ := Option.isSome_iff_exists.1 h
  rw [scanSteps, known, Option.isNone_some, if_neg Bool.false_ne_true]
  exact left

theorem scanSteps_ok (h : ∀ step ∈ steps, Passes t root step) (scans : ScansAll t root steps)
    (before : List FileFacts) : ∃ files,
      scanSteps t root none before steps = .ok (before.reverse ++ files) ∧
        List.Forall₂ (fun s file => Scans t root s.1 s.2 file) (steps.filterMap source?) files := by
  induction steps generalizing before with
  | nil => exact ⟨[], by rw [scanSteps, List.append_nil], .nil⟩
  | cons step steps ih =>
    obtain ⟨passes, others⟩ := List.forall_mem_cons.1 h
    cases step with
    | failure folder cause => exact passes.elim
    | name folder name =>
      rw [List.filterMap_cons, source?]
      by_cases named : isSourceName name = true
      · obtain ⟨source, reads⟩ := passes named
        obtain ⟨file, scanned, is⟩ := scans folder name List.mem_cons_self named source reads
        obtain ⟨files, rest, are⟩ := ih others scans.behind (file :: before)
        refine ⟨file :: files, ?_, ?_⟩
        · rw [scanSteps_source none nofun named, scanned]
          change scanSteps t root none (file :: before) steps = _
          rw [rest, List.reverse_cons, List.append_assoc]
          rfl
        · rw [if_pos named]
          exact .cons is are
      · rw [scanSteps_other none nofun named, if_neg named]
        exact ih others scans.behind before

end

/-- An entry below a folder with the name of a source, which is no folder and in no skipped one. -/
def IsSource (t : FileTree) (root : Path) (top : Entry) (folder : List String) (name : String) :
    Prop :=
  FileTree.Meets t skippedFolders.contains root [] top folder name ∧ isSourceName name = true

/-- Every folder that a scan enters can be listed, and every source that it meets can be read. -/
structure Readable (t : FileTree) (root : Path) (top : Entry) : Prop where
  lists : FileTree.Lists skippedFolders.contains root [] top
  reads : ∀ folder name, IsSource t root top folder name →
    ∃ source, t.read (sourcePath root folder name) = .ok source

/-- The paths of the files with syntax errors. -/
def failedPaths (files : List FileFacts) : List String :=
  (files.filter (·.hasSyntaxError)).map (·.path)

/-- What is to be said about scanned files, with the first failed paths up to a limit. -/
def warningsFor (limit : Nat) (files : List FileFacts) : List String :=
  (if files = [] then [noSourcesWarning] else []) ++
    if failedPaths files = [] then []
    else [s!"parse errors in {(failedPaths files).length} file(s): " ++
      Text.join ", " ((failedPaths files).take limit)]

/-- The facts of all sources, each of them once, in strictly ascending order of their paths, and
what is to be said about them. -/
structure Exact (t : FileTree) (root : Path) (top : Entry) (limit : Nat)
    (facts : RepositoryFacts) : Prop where
  sources : ∃ sources : List (List String × String), sources.Nodup ∧
    (∀ folder name, (folder, name) ∈ sources ↔ IsSource t root top folder name) ∧
    List.Forall₂ (fun s file => Scans t root s.1 s.2 file) sources facts.files
  ascending : Text.Ascending (facts.files.map (·.path))
  warnings : facts.warnings = warningsFor limit facts.files

section
variable {t : FileTree} {root : Path} {top : Entry} {files : List FileFacts}

/-- The steps of a walk that a scan takes. -/
def steps (t : FileTree) (root : Path) (top : Entry) : List FileTree.WalkStep :=
  t.walkEntry skippedFolders.contains root true [] top

theorem scansAll_steps (proper : top.isProper = true)
    (accepts : ∀ folder name, .name folder name ∈ steps t root top → isSourceName name = true →
      ∀ source, t.read (sourcePath root folder name) = .ok source →
        ∃ tree hasError, source.parse = .tree tree hasError) :
    ScansAll t root (steps t root top) := by
  intro folder name hm named source reads
  obtain ⟨tree, hasError, parsed⟩ := accepts folder name hm named source reads
  obtain ⟨rest, rfl, names⟩ := FileTree.proper_of_mem_walkEntry proper hm
  exact scanFile_ok parsed names named reads

theorem passes_iff_readable (proper : top.isProper = true) (given : top.isFolder = true) :
    (∀ step ∈ steps t root top, Passes t root step) ↔ Readable t root top := by
  constructor
  · intro passes
    have lists : FileTree.Lists skippedFolders.contains root [] top :=
      FileTree.lists_of_no_failure (t := t) fun _ _ failed => passes _ failed
    refine ⟨lists, ?_⟩
    rintro folder name ⟨meets, named⟩
    have met := (FileTree.mem_walkEntry_iff proper given lists).2 ⟨folder, name, rfl, meets⟩
    exact passes _ met named
  · intro readable step hm
    obtain ⟨folder, name, rfl, meets⟩ :=
      (FileTree.mem_walkEntry_iff proper given readable.lists).1 hm
    exact fun named => readable.reads folder name ⟨meets, named⟩

def pathLe (a b : FileFacts) : Bool := Text.le a.path b.path

/-- The files of a scan, in the order in which it returns them. -/
def sortFiles (files : List FileFacts) : List FileFacts := files.mergeSort pathLe

/-- How a scan ends if it has no files left to read. -/
def ending (limit : Amount) (files : List FileFacts) : Attempt RepositoryFacts := do
  let syntaxErrors ← syntaxWarning limit (failedPaths files)
  pure ⟨files, (if files.isEmpty then [noSourcesWarning] else []) ++ syntaxErrors⟩

theorem scan_eq (leads : t.entryAt root = .ok top) (given : top.isFolder = true) (limit : Amount)
    (budget : Option Nat) :
    scan t root limit budget = scanSteps t root budget [] (steps t root top) >>= fun files =>
      ending limit (sortFiles files) := by
  have there : t.doesExist root = .ok true := by rw [FileTree.doesExist, FileTree.probe, leads]
  have isFolder : t.isFolder root = .ok true := by
    rw [FileTree.isFolder, FileTree.probe, leads]
    exact congrArg Except.ok given
  unfold scan
  rw [there, isFolder, FileTree.walk_eq leads]
  rfl

end

/-- Two sources, one with a syntax error, and a folder that cannot be listed but is not entered. -/
def builtFolder : Entry :=
  .folder [("b.ts", .file ⟨.empty, .tree ⟨"program", true, none, 0, 0, []⟩ true⟩ true),
    ("a.js", .file (.ofBytes .empty) true), ("dist", .folder [] ⟨false, true⟩)] .full

def built : FileTree := ⟨builtFolder, []⟩

end RepositoryFacts

end PackageUsage
