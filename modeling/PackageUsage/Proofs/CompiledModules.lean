import PackageUsage.Proofs.ReturningProbes
import PackageUsage.Proofs.WalkOrder

namespace PackageUsage.Risk
set_option autoImplicit true
open FileTree (Visits meet Lists)

/-- A name that ends in ".node", whatever the case of its letters. -/
def EndsInNode (name : String) : Prop :=
  ∃ stem n o d e, name.toList = stem ++ ['.', n, o, d, e] ∧
    (n = 'n' ∨ n = 'N') ∧ (o = 'o' ∨ o = 'O') ∧ (d = 'd' ∨ d = 'D') ∧ (e = 'e' ∨ e = 'E')

/-- The first of some names that is that of a compiled module. -/
def FirstBinary (names : List String) (name : String) : Prop :=
  ∃ before behind, names = before ++ name :: behind ∧ EndsInNode name ∧
    ∀ n ∈ before, ¬ EndsInNode n

/-- Every folder of a package that the search for compiled modules enters can be listed, and it can
be told whether its build file is there. -/
structure Readable (t : FileTree) (root : Path) (top : Entry) : Prop where
  lists : Lists (· == "node_modules") root [] top
  answers : t.Answers (root.child "binding.gyp")

theorem toNat_toLower (c : Char) :
    c.toLower.toNat = if 65 ≤ c.toNat ∧ c.toNat ≤ 90 then c.toNat + 32 else c.toNat := by
  unfold Char.toLower
  split
  · rename_i h
    have capital : 65 ≤ c.toNat ∧ c.toNat ≤ 90 := h
    have small : c.toNat + 32 < 2 ^ 32 := by omega
    rw [if_pos capital]
    change (c.val + 32).toNat = _
    rw [UInt32.toNat_add]
    exact Nat.mod_eq_of_lt small
  · rename_i h
    have other : ¬ (65 ≤ c.toNat ∧ c.toNat ≤ 90) := h
    rw [if_neg other]

/-- What becomes of one character in lower case. -/
def lowerChar (c : Char) : Char := if c = '\u212A' then 'k' else c.toLower

theorem toList_lower (s : String) : (Text.lower s).toList = s.toList.map lowerChar :=
  String.toList_map

/-- Only a letter and its capital become the letter, unless it is a "k". -/
theorem lowerChar_eq_iff {c letter capital : Char} (h : capital.toNat + 32 = letter.toNat)
    (isCapital : 65 ≤ capital.toNat ∧ capital.toNat ≤ 90) (other : letter ≠ 'k') :
    lowerChar c = letter ↔ c = letter ∨ c = capital := by
  rw [lowerChar]
  split
  · rename_i kelvin
    have sign : c.toNat = 0x212A := congrArg Char.toNat kelvin
    constructor
    · intro same
      exact (other same.symm).elim
    · rintro (rfl | rfl)
      · omega
      · omega
  · rw [← Char.toNat_inj, toNat_toLower, ← Char.toNat_inj, ← Char.toNat_inj]
    split <;> omega

theorem lowerChar_eq_dot {c : Char} : lowerChar c = '.' ↔ c = '.' := by
  rw [lowerChar]
  split
  · rename_i kelvin
    rw [kelvin]
    decide
  · have dot : '.'.toNat = 46 := rfl
    rw [← Char.toNat_inj, toNat_toLower, ← Char.toNat_inj, dot]
    split <;> omega

theorem isBinaryName_iff (name : String) : isBinaryName name = true ↔ EndsInNode name := by
  have ending : ".node".toList = ['.', 'n', 'o', 'd', 'e'] := rfl
  have isN {c : Char} : lowerChar c = 'n' ↔ c = 'n' ∨ c = 'N' :=
    lowerChar_eq_iff rfl (by decide) (by decide)
  have isO {c : Char} : lowerChar c = 'o' ↔ c = 'o' ∨ c = 'O' :=
    lowerChar_eq_iff rfl (by decide) (by decide)
  have isD {c : Char} : lowerChar c = 'd' ↔ c = 'd' ∨ c = 'D' :=
    lowerChar_eq_iff rfl (by decide) (by decide)
  have isE {c : Char} : lowerChar c = 'e' ↔ c = 'e' ∨ c = 'E' :=
    lowerChar_eq_iff rfl (by decide) (by decide)
  rw [isBinaryName, Text.endsWith, toList_lower, List.isSuffixOf_iff_suffix, ending]
  constructor
  · rintro ⟨front, he⟩
    obtain ⟨stem, last, parts, _, lowered⟩ := List.map_eq_append_iff.1 he.symm
    simp only [List.map_eq_cons_iff, List.map_eq_nil_iff, lowerChar_eq_dot, isN, isO, isD, isE]
      at lowered
    obtain ⟨_, _, rfl, rfl, n, _, rfl, hn, o, _, rfl, ho, d, _, rfl, hd, e, _, rfl, he, rfl⟩ :=
      lowered
    exact ⟨stem, n, o, d, e, parts, hn, ho, hd, he⟩
  · rintro ⟨stem, n, o, d, e, parts, hn, ho, hd, he⟩
    refine ⟨stem.map lowerChar, ?_⟩
    rw [parts, List.map_append, List.map_cons, List.map_cons, List.map_cons, List.map_cons,
      List.map_singleton, lowerChar_eq_dot.2 rfl, isN.2 hn, isO.2 ho, isD.2 hd, isE.2 he]

theorem firstBinary_eq (top : Path) (budget : Nat) (names : List (List String × String)) :
    firstBinary top budget (names.map meet) =
      .ok (((names.take budget).map Prod.snd).find? isBinaryName) := by
  induction names generalizing budget with
  | nil =>
    rw [List.map_nil, firstBinary, List.take_nil]
    rfl
  | cons s names ih =>
    cases budget with
    | zero => rfl
    | succ budget =>
      rw [List.map_cons, meet, firstBinary, List.take_succ_cons, List.map_cons, List.find?_cons]
      cases isBinaryName s.2 with
      | true => rfl
      | false => exact ih budget

theorem firstBinary_iff {names : List String} :
    names.find? isBinaryName = some name ↔ FirstBinary names name := by
  rw [List.find?_eq_some_iff_append, isBinaryName_iff]
  constructor
  · rintro ⟨ends, before, behind, he, none⟩
    refine ⟨before, behind, he, ends, fun n hn ending => ?_⟩
    have other := none n hn
    rw [(isBinaryName_iff n).2 ending] at other
    cases other
  · rintro ⟨before, behind, he, ends, none⟩
    refine ⟨ends, before, behind, he, fun n hn => ?_⟩
    rw [Bool.not_eq_true', Bool.eq_false_iff]
    exact fun ending => none n hn ((isBinaryName_iff n).1 ending)

theorem not_isBinaryName_sign (m : Manifest) (h : sign ∈ manifestSigns m ∨ sign = "binding.gyp") :
    isBinaryName sign = false := by
  rcases h with h | rfl
  · rw [manifestSigns] at h
    rcases List.mem_append.1 h with h | h
    · split at h
      · cases List.mem_singleton.1 h
        decide +kernel
      · cases h
    · obtain ⟨script, hs, rfl⟩ := List.mem_map.1 h
      have each : ∀ script ∈ installScripts, isBinaryName ("scripts." ++ script) = false := by
        decide +kernel
      exact each script (List.mem_of_mem_filter hs)
  · decide +kernel

section
variable {t : FileTree} {root : Path} {top : Entry} {names : List (List String × String)}

theorem findBinary_eq (leads : t.entryAt root = .ok top) (given : top.isFolder = true)
    (walk : t.walkEntry (· == "node_modules") root true [] top = names.map meet) :
    findBinary t root = .ok (((names.take 600).map Prod.snd).find? isBinaryName) := by
  have isFolder : t.isFolder root = .ok true := by
    rw [FileTree.isFolder, FileTree.probe, leads]
    exact congrArg Except.ok given
  rw [findBinary, isFolder, FileTree.walk_eq leads, walk, firstBinary_eq]
  rfl

/-- The signs of native code are those in the manifest, a build file and the first binary. -/
theorem nativeSigns_returns (leads : t.entryAt root = .ok top) (given : top.isFolder = true)
    (walk : t.walkEntry (· == "node_modules") root true [] top = names.map meet)
    (answers : t.Answers (root.child "binding.gyp")) (m : Manifest) :
    ∃ signs, nativeSigns t root m = .ok signs ∧ Text.Ascending signs ∧
      ∀ sign, (sign ∈ signs ∧ isBinaryName sign = true) ↔
        ((names.take 600).map Prod.snd).find? isBinaryName = some sign := by
  obtain ⟨built, asked, _⟩ := FileTree.probe_returns answers fun _ => true
  have listed : nativeSigns t root m = .ok (Text.sortUnique (manifestSigns m ++
      (if built then ["binding.gyp"] else []) ++
      ((((names.take 600).map Prod.snd).find? isBinaryName).filter (· != "")).toList)) := by
    rw [nativeSigns, FileTree.doesExist, asked, findBinary_eq leads given walk]
    rfl
  refine ⟨_, listed, Text.ascending_sortUnique _, fun sign => ?_⟩
  rw [Text.mem_sortUnique, List.mem_append, List.mem_append, Option.mem_toList,
    Option.filter_eq_some_iff]
  constructor
  · rintro ⟨(h | h) | h, binary⟩
    · rw [not_isBinaryName_sign m (.inl h)] at binary
      cases binary
    · split at h
      · rw [not_isBinaryName_sign m (.inr (List.mem_singleton.1 h))] at binary
        cases binary
      · cases h
    · exact h.1
  · intro found
    have binary := List.find?_some found
    refine ⟨.inr ⟨found, ?_⟩, binary⟩
    have unnamed : isBinaryName "" = false := by decide +kernel
    rw [bne_iff_ne]
    rintro rfl
    rw [unnamed] at binary
    cases binary

end

/-- In a package that can be read, the signs of native code are in strictly ascending order. One of
them is that of a compiled module if and only if such a name is among the first 600 that a walk
meets, which enters no folder called node_modules; and it is the first such name. -/
theorem nativeSigns_names_first_binary (t : FileTree) (root : Path) (top : Entry) (m : Manifest)
    (leads : t.entryAt root = .ok top) (given : top.isFolder = true) (proper : top.isProper = true)
    (readable : Readable t root top) :
    (∃! names, Visits t (· == "node_modules") root top names) ∧
      ∃ signs, nativeSigns t root m = .ok signs ∧ Text.Ascending signs ∧
        ∀ names, Visits t (· == "node_modules") root top names →
          ((∃ sign ∈ signs, EndsInNode sign) ↔ ∃ s ∈ names.take 600, EndsInNode s.2) ∧
          ∀ sign, (sign ∈ signs ∧ EndsInNode sign) ↔
            FirstBinary ((names.take 600).map Prod.snd) sign := by
  obtain ⟨names, visits, walk⟩ := FileTree.exists_visits proper given readable.lists
  obtain ⟨signs, listed, ascending, binaries⟩ :=
    nativeSigns_returns leads given walk readable.answers m
  simp only [isBinaryName_iff, firstBinary_iff] at binaries
  refine ⟨⟨names, visits, fun others h => h.unique visits⟩, signs, listed, ascending, ?_⟩
  intro others h
  rw [h.unique visits]
  refine ⟨?_, binaries⟩
  constructor
  · rintro ⟨sign, hs, ends⟩
    obtain ⟨before, behind, he, _, _⟩ := (binaries sign).1 ⟨hs, ends⟩
    have inside : sign ∈ (names.take 600).map Prod.snd := by
      rw [he]
      exact List.mem_append_right _ List.mem_cons_self
    obtain ⟨s, met, rfl⟩ := List.mem_map.1 inside
    exact ⟨s, met, ends⟩
  · rintro ⟨s, hs, ends⟩
    have some : (((names.take 600).map Prod.snd).find? isBinaryName).isSome := by
      rw [List.find?_isSome]
      exact ⟨s.2, List.mem_map_of_mem hs, (isBinaryName_iff s.2).2 ends⟩
    obtain ⟨sign, found⟩ := Option.isSome_iff_exists.1 some
    obtain ⟨hs, ends⟩ := (binaries sign).2 (firstBinary_iff.1 found)
    exact ⟨sign, hs, ends⟩

/-- A compiled module in a folder, after a file that is none, and one in a folder that is not
entered. -/
def compiledFolder : Entry :=
  .folder [("node_modules", .folder [("a.node", .file (.ofBytes .empty) true)] .full),
    ("lib", .folder [("Addon.NODE", .file (.ofBytes .empty) true)] .full),
    ("index.js", .file (.ofBytes .empty) true)] .full

def compiled : FileTree := ⟨compiledFolder, []⟩

def compiledNames : List (List String × String) := [([], "index.js"), (["lib"], "Addon.NODE")]

theorem mem_walk_compiled :
    step ∈ compiled.walkEntry (· == "node_modules") ⟨.root, []⟩ true [] compiledFolder ↔
      step ∈ compiledNames.map meet := by
  have inside : step ∈ compiled.walkEntry (· == "node_modules") ⟨.root, []⟩ true ["lib"]
      (.folder [("Addon.NODE", .file (.ofBytes .empty) true)] .full) ↔
        step = .name ["lib"] "Addon.NODE" := by
    rw [FileTree.mem_walkEntry rfl rfl]
    simp [FileTree.leadsToFolder, Entry.isFolder]
  unfold compiledFolder compiledNames
  rw [FileTree.mem_walkEntry rfl rfl]
  simp [FileTree.leadsToFolder, Entry.isFolder, inside, meet, or_and_right, exists_or]

theorem readable_compiled : Readable compiled ⟨.root, []⟩ compiledFolder := by
  refine ⟨FileTree.lists_of_no_failure (t := compiled) ?_, ?_⟩
  · intro place cause failed
    have met := mem_walk_compiled.1 failed
    simp [compiledNames, meet] at met
  · have missing : compiled.follow ⟨.root, ["binding.gyp"]⟩ = .error .missing := rfl
    exact FileTree.answers_of_error missing (by decide)

theorem visits_compiled :
    Visits compiled (· == "node_modules") ⟨.root, []⟩ compiledFolder compiledNames := by
  constructor
  · intro folder name
    rw [← List.mem_map_of_injective FileTree.meet_injective, ← mem_walk_compiled,
      FileTree.mem_walkEntry_iff rfl rfl readable_compiled.lists]
    simp [meet]
  · simp [compiledNames, FileTree.Precedes, Prod.lex_def]

theorem nativeSigns_names_compiled :
    ∃ signs, nativeSigns compiled ⟨.root, []⟩ {} = .ok signs ∧ Text.Ascending signs ∧
      ∀ sign, (sign ∈ signs ∧ EndsInNode sign) ↔ sign = "Addon.NODE" := by
  obtain ⟨_, signs, listed, ascending, named⟩ := nativeSigns_names_first_binary compiled
    ⟨.root, []⟩ compiledFolder {} rfl rfl (by decide +kernel) readable_compiled
  have found : ((compiledNames.take 600).map Prod.snd).find? isBinaryName =
      some "Addon.NODE" := by decide +kernel
  refine ⟨signs, listed, ascending, fun sign => ?_⟩
  rw [(named compiledNames visits_compiled).2 sign, ← firstBinary_iff, found, Option.some_inj,
    eq_comm]

end PackageUsage.Risk
