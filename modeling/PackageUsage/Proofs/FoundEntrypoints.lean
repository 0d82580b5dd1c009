import Mathlib.Data.Nat.Find
import PackageUsage.Proofs.LinkFreeTrees
import PackageUsage.Proofs.WrittenRoots

namespace PackageUsage
set_option autoImplicit true

theorem Path.isAbsolute_join {p : Path} (h : p.isAbsolute = true) (q : Path) :
    (p.join q).isAbsolute = true := by
  rw [join]
  split
  · assumption
  · exact h

namespace Entrypoint
open FileTree Path.Normal
variable {t : FileTree} {root path : Path}

/-- A path that lies in a folder as they are written, each name one that a system takes. -/
structure LiesIn (path root : Path) : Prop where
  accepted : ∀ n ∈ path.parts, refusal? n = none
  rootAccepted : ∀ n ∈ root.parts, refusal? n = none
  below : collapse true root.parts <+: collapse true path.parts

/-- The path that folders lead on to, one index for each. -/
def indexed (path : Path) : Nat → Path
  | 0 => path
  | n + 1 => (indexed path n).child "index"

/-- The paths at which a file is looked for under a name, in order. -/
def candidates (path : Path) : List Path := path :: probeSuffixes.map (suffixed path)

/-- A path leads on to its index a number of times, and then to no folder. -/
structure EndsAfter (t : FileTree) (path : Path) (n : Nat) : Prop where
  folders : ∀ k < n, t.isFolder (indexed path k) = .ok true
  last : t.isFolder (indexed path n) ≠ .ok true

/-- The first of some paths that is a file. Those before it are none. -/
inductive First (t : FileTree) : List Path → Path → Prop
  | here : t.isFile c = .ok true → First t (c :: cs) c
  | later : t.isFile c = .ok false → First t cs file → First t (c :: cs) file

theorem exists_first {cs : List Path} (h : c ∈ cs) (file : t.isFile c = .ok true)
    (answers : ∀ c ∈ cs, t.Answers c) : ∃ file, First t cs file := by
  induction cs with
  | nil => cases h
  | cons first rest ih =>
    obtain ⟨answer, answers⟩ := List.forall_mem_cons.1 answers
    obtain ⟨found, asked, _⟩ := FileTree.probe_returns answer (!·.isFolder)
    cases found with
    | true => exact ⟨first, .here asked⟩
    | false =>
      rcases List.mem_cons.1 h with rfl | h
      · cases asked.symm.trans file
      · obtain ⟨next, found⟩ := ih h answers
        exact ⟨next, .later asked found⟩

theorem probe_eq_some_iff {suffixes : List String} :
    probe t path suffixes = .ok (some file) ↔ First t (suffixes.map (suffixed path)) file := by
  induction suffixes with
  | nil => exact ⟨nofun, nofun⟩
  | cons suffix rest ih =>
    rw [List.map_cons]
    constructor
    · intro h
      obtain ⟨found, asked, h⟩ := bind_ok h
      cases found with
      | true =>
        cases h
        exact .here asked
      | false => exact .later asked (ih.1 h)
    · intro h
      have unfolded : probe t path (suffix :: rest) =
          t.isFile (suffixed path suffix) >>= fun found =>
            if found then pure (some (suffixed path suffix)) else probe t path rest := rfl
      cases h with
      | here asked =>
        rw [unfolded, asked]
        rfl
      | later asked first =>
        rw [unfolded, asked]
        exact ih.2 first

theorem indexed_succ (path : Path) (n : Nat) :
    indexed path (n + 1) = ⟨(indexed path n).anchor, (indexed path n).parts ++ ["index"]⟩ :=
  child_index _

theorem isAbsolute_indexed (absolute : path.isAbsolute = true) (n : Nat) :
    (indexed path n).isAbsolute = true := by
  induction n with
  | zero => exact absolute
  | succ n ih =>
    rw [indexed_succ]
    exact ih

theorem collapse_indexed (path : Path) (n : Nat) :
    collapse true (indexed path (n + 1)).parts =
      collapse true (indexed path n).parts ++ ["index"] := by
  rw [indexed_succ]
  exact collapse_concat true _ ⟨by decide, by decide, by decide⟩

theorem LiesIn.indexed (h : LiesIn path root) (n : Nat) : LiesIn (indexed path n) root := by
  induction n with
  | zero => exact h
  | succ n ih =>
    refine ⟨?_, h.rootAccepted, ?_⟩
    · rw [indexed_succ]
      exact List.forall_mem_append.2 ⟨ih.accepted, List.forall_mem_singleton.2 (by decide +kernel)⟩
    · rw [collapse_indexed]
      exact ih.below.trans (List.prefix_append _ _)

theorem absoluteNames_of_isAbsolute (absolute : path.isAbsolute = true) :
    t.absoluteNames path = path.parts := if_pos absolute

theorem LiesIn.isWithin (h : LiesIn path root) (linkFree : t.LinkFree)
    (absolute : path.isAbsolute = true) (rooted : root.isAbsolute = true) :
    isWithin t path root = .ok true := by
  have hp := linkFree.resolve_eq h.accepted
  have hr := linkFree.resolve_eq h.rootAccepted
  rw [absoluteNames_of_isAbsolute absolute] at hp
  rw [absoluteNames_of_isAbsolute rooted] at hr
  simp only [Entrypoint.isWithin, hp, hr]
  exact congrArg Except.ok (Path.below?_isSome.2 ⟨rfl, h.below⟩)

theorem length_collapse_indexed (path : Path) (n : Nat) :
    n ≤ (collapse true (indexed path n).parts).length := by
  induction n with
  | zero => exact Nat.zero_le _
  | succ n ih =>
    rw [collapse_indexed, List.length_append]
    exact Nat.succ_le_succ ih

/-- Folders lead on no further than the tree is deep. -/
theorem LiesIn.lt_size (h : LiesIn path root) (linkFree : t.LinkFree)
    (absolute : path.isAbsolute = true)
    (folder : t.isFolder (Entrypoint.indexed path n) = .ok true) : n < t.top.size := by
  obtain ⟨place, e, hf, there⟩ := exists_of_probe folder
  have real := linkFree.resolve_eq (h.indexed n).accepted
  rw [resolve_of_follow hf, absoluteNames_of_isAbsolute (isAbsolute_indexed absolute n)] at real
  obtain rfl : place = collapse true (Entrypoint.indexed path n).parts :=
    (Path.mk.inj (Except.ok.inj real)).2
  exact Nat.lt_of_le_of_lt (length_collapse_indexed path n) (Entry.length_lt_size_of_at? there)

theorem EndsAfter.le_size (h : EndsAfter t path n) (linkFree : t.LinkFree)
    (absolute : path.isAbsolute = true) (lies : LiesIn path root) : n ≤ t.top.size := by
  cases n with
  | zero => exact Nat.zero_le _
  | succ n => exact lies.lt_size linkFree absolute (h.folders n (Nat.lt_succ_self n))

theorem LiesIn.exists_endsAfter (h : LiesIn path root) (linkFree : t.LinkFree)
    (absolute : path.isAbsolute = true) : ∃ n, EndsAfter t path n := by
  classical
  have ends : ∃ n, t.isFolder (Entrypoint.indexed path n) ≠ .ok true :=
    ⟨t.top.size, fun folder => Nat.lt_irrefl _ (h.lt_size linkFree absolute folder)⟩
  exact ⟨Nat.find ends, fun k less => Classical.not_not.1 (Nat.find_min ends less),
    Nat.find_spec ends⟩

theorem isFolder_of_isFile (h : t.isFile path = .ok b) (last : t.isFolder path ≠ .ok true) :
    t.isFolder path = .ok false := by
  obtain ⟨found, asked, _⟩ := FileTree.probe_returns (answers_of_probe h) (·.isFolder)
  cases found with
  | true => exact (last asked).elim
  | false => exact asked

/-- The file of a path that is no folder is the first one among its candidates. -/
theorem resolveFrom_eq_some_iff (hp : root.join entry = path)
    (within : Entrypoint.isWithin t path root = .ok true) (last : t.isFolder path ≠ .ok true)
    (named : path.name ≠ "") (uncoded : ExportsMap.isCode path.name = false) :
    resolveFrom t root (fuel + 1) entry = .ok (some file) ↔ First t (candidates path) file := by
  have probed : (path.name = "" || ExportsMap.isCode path.name) = false := by
    rw [uncoded, Bool.or_false, decide_eq_false named]
  rw [resolveFrom, hp, within]
  change (t.isFolder path >>= _) = _ ↔ _
  constructor
  · intro h
    obtain ⟨folder, hfolder, h⟩ := bind_ok h
    cases folder with
    | true => exact (last hfolder).elim
    | false =>
      obtain ⟨found, asked, h⟩ := bind_ok h
      cases found with
      | true =>
        cases h
        exact .here asked
      | false =>
        rw [if_neg Bool.false_ne_true, probed] at h
        exact .later asked (probe_eq_some_iff.1 h)
  · intro h
    cases h with
    | here asked =>
      rw [isFolder_of_isFile asked last]
      change (t.isFile path >>= _) = _
      rw [asked]
      rfl
    | later asked first =>
      rw [isFolder_of_isFile asked last]
      change (t.isFile path >>= _) = _
      rw [asked]
      change (if (path.name = "" || ExportsMap.isCode path.name) = true then _ else _) = _
      rw [probed]
      exact probe_eq_some_iff.2 first

theorem resolveFrom_indexed {entry : Path} (absolute : (root.join entry).isAbsolute = true)
    (leads : ∀ k < n, LeadsOn t root (indexed (root.join entry) k)) (fuel : Nat) :
    ∃ last, root.join last = indexed (root.join entry) n ∧
      resolveFrom t root (fuel + n) entry = resolveFrom t root fuel last := by
  induction n generalizing fuel with
  | zero => exact ⟨entry, rfl, rfl⟩
  | succ n ih =>
    obtain ⟨last, joined, same⟩ := ih (fun k less => leads k (Nat.lt_succ_of_lt less)) (fuel + 1)
    have next := leads n (Nat.lt_succ_self n)
    rw [← joined] at next
    refine ⟨indexed (root.join entry) (n + 1), ?_, ?_⟩
    · exact Path.join_of_isAbsolute (isAbsolute_indexed absolute (n + 1)) root
    · rw [← Nat.add_assoc, Nat.add_right_comm, same, resolveFrom_of_leadsOn next, joined]
      rfl

theorem searched_indexed (named : path.name ≠ "") (uncoded : ExportsMap.isCode path.name = false)
    (n : Nat) : (indexed path n).name ≠ "" ∧ ExportsMap.isCode (indexed path n).name = false := by
  cases n with
  | zero => exact ⟨named, uncoded⟩
  | succ n =>
    have last : (indexed path (n + 1)).name = "index" := by
      rw [indexed_succ]
      exact List.getLastD_concat
    rw [last]
    exact ⟨by decide, by decide +kernel⟩

/-- Without links an entrypoint leads on from folder to index until something is no folder. Its file
is the first one there among the path and the paths that add a suffix to it, so that one of them is
found if any is a file and none of them is too long. -/
theorem resolve_eq_some_iff (t : FileTree) (root : Path) (entry : String)
    (linkFree : t.LinkFree) (rooted : root.isAbsolute = true)
    (lies : LiesIn (root.join (.ofString entry)) root)
    (named : (root.join (.ofString entry)).name ≠ "")
    (uncoded : ExportsMap.isCode (root.join (.ofString entry)).name = false) :
    let path := root.join (.ofString entry)
    (∃ n, EndsAfter t path n) ∧ ∀ n, EndsAfter t path n →
      (∀ file, resolve t root entry = .ok (some file) ↔
        First t (candidates (indexed path n)) file) ∧
      ((∃ c ∈ candidates (indexed path n), t.isFile c = .ok true) →
        (∀ c ∈ candidates (indexed path n), t.Answers c) →
        ∃ file, resolve t root entry = .ok (some file)) := by
  intro path
  have absolute : path.isAbsolute = true := Path.isAbsolute_join rooted _
  have within (k : Nat) : isWithin t (indexed path k) root = .ok true :=
    (lies.indexed k).isWithin linkFree (isAbsolute_indexed absolute k) rooted
  refine ⟨lies.exists_endsAfter linkFree absolute, fun n ends => ?_⟩
  have found : ∀ file, resolve t root entry = .ok (some file) ↔
      First t (candidates (indexed path n)) file := by
    intro file
    -- Each folder on the way is one level deeper, so that the fuel outlasts them.
    have enough : n + 1 ≤ (FileTree.linkLimit + 1) * (t.top.size + 1) :=
      Nat.le_trans (Nat.succ_le_succ (ends.le_size linkFree absolute lies))
        (Nat.le_mul_of_pos_left _ (Nat.succ_pos _))
    obtain ⟨fuel, hfuel⟩ := Nat.exists_eq_add_of_le enough
    obtain ⟨last, joined, same⟩ := resolveFrom_indexed (t := t) (n := n) absolute
      (fun k less => ⟨within k, ends.folders k less⟩) (fuel + 1)
    have fuels : (FileTree.linkLimit + 1) * (t.top.size + 1) = fuel + 1 + n := by omega
    rw [resolve, fuels, same]
    obtain ⟨named, uncoded⟩ := searched_indexed named uncoded n
    exact resolveFrom_eq_some_iff joined (within n) ends.last named uncoded
  refine ⟨found, ?_⟩
  rintro ⟨c, hc, file⟩ answers
  obtain ⟨file, first⟩ := exists_first hc file answers
  exact ⟨file, (found file).2 first⟩

/-- A file that shares its name with a folder stays aside when the folder has an index. -/
theorem resolve_index_of_folder :
    let file : Entry := .file (.ofBytes .empty) true
    let t : FileTree := ⟨.folder [("pkg", .folder [("lib.js", file),
      ("lib", .folder [("index.ts", file)] .full)] .full)] .full, []⟩
    let root : Path := ⟨.root, ["pkg"]⟩
    let path : Path := ⟨.root, ["pkg", "lib"]⟩
    t.LinkFree ∧ LiesIn path root ∧ EndsAfter t path 1 ∧
      resolve t root "lib" = .ok (some ⟨.root, ["pkg", "lib", "index.ts"]⟩) := by
  intro file t root path
  have linkFree : t.LinkFree := linkFree_of_linkLength (by decide)
  have joined : root.join (.ofString "lib") = path := by decide +kernel
  have lies : LiesIn path root :=
    ⟨by decide +kernel, by decide +kernel, ⟨["lib"], by decide +kernel⟩⟩
  have folders : ∀ k < 1, (t.isFolder (indexed path k)).toOption = some true := by decide +kernel
  have last : (t.isFolder (indexed path 1)).toOption = some false := by decide +kernel
  have ends : EndsAfter t path 1 := by
    refine ⟨fun k less => eq_ok_of_toOption (folders k less), fun folder => ?_⟩
    rw [folder] at last
    cases last
  have first : First t (candidates (indexed path 1)) ⟨.root, ["pkg", "lib", "index.ts"]⟩ := by
    have later {c file : Path} {cs : List Path} (asked : (t.isFile c).toOption = some false)
        (h : First t cs file) : First t (c :: cs) file := .later (eq_ok_of_toOption asked) h
    refine later ?_ (later ?_ (later ?_ (later ?_ (.here (eq_ok_of_toOption ?_))))) <;>
      decide +kernel
  have found := (resolve_eq_some_iff t root "lib" linkFree rfl (joined ▸ lies)
    (by rw [joined]; decide) (by rw [joined]; decide +kernel)).2 1 (joined ▸ ends)
  rw [joined] at found
  exact ⟨linkFree, lies, ends, (found.1 _).2 first⟩

/-- A folder without an index hides the file that shares its name. -/
theorem resolve_hidden_by_folder :
    let file : Entry := .file (.ofBytes .empty) true
    let t : FileTree := ⟨.folder [("pkg", .folder [("lib.js", file),
      ("lib", .folder [("other.js", file)] .full)] .full)] .full, []⟩
    let root : Path := ⟨.root, ["pkg"]⟩
    let path : Path := ⟨.root, ["pkg", "lib"]⟩
    t.LinkFree ∧ root.isAbsolute = true ∧ root.join (.ofString "lib") = path ∧
      LiesIn path root ∧ ExportsMap.isCode path.name = false ∧
      t.isFile (suffixed path ".js") = .ok true ∧ resolve t root "lib" = .ok none := by
  intro file t root path
  have isFile : (t.isFile (suffixed path ".js")).toOption = some true := by decide +kernel
  have missed : (resolve t root "lib").toOption = some none := by decide +kernel
  exact ⟨linkFree_of_linkLength (by decide), rfl, by decide +kernel,
    ⟨by decide +kernel, by decide +kernel, ⟨["lib"], by decide +kernel⟩⟩, by decide +kernel,
    eq_ok_of_toOption isFile, eq_ok_of_toOption missed⟩

end Entrypoint

end PackageUsage
