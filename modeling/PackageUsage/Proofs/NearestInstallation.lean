import PackageUsage.Proofs.ContainedEntrypoints
import PackageUsage.Proofs.DiscoveredRoots
import PackageUsage.Proofs.LongestChain

namespace PackageUsage
set_option autoImplicit true

namespace Package
open Risk (Seen)

/-- A folder on the way from a folder up to another one, both included. -/
def OnTheWay (top start folder : Path) : Prop :=
  (folder.below? top).isSome = true ∧ (start.below? folder).isSome = true

/-- A package has its manifest in a folder of packages. -/
def Installed (t : FileTree) (folder : Path) (name : String) (root : Path) : Prop :=
  place folder name = .ok root ∧ t.isFile (root.child manifestName) = .ok true

/-- There is an answer to whether a package is in a folder, and it is not. -/
def Absent (t : FileTree) (folder : Path) (name : String) : Prop :=
  ∀ root, place folder name = .ok root → t.isFile (root.child manifestName) = .ok false

/-- A folder on the way with nothing of the package in any folder before it. -/
structure Reached (t : FileTree) (top start : Path) (name : String) (folder : Path) : Prop where
  onTheWay : OnTheWay top start folder
  before : ∀ nearer, OnTheWay top start nearer → folder.parts.length < nearer.parts.length →
    Absent t nearer name

/-- The nearest folder on the way in which a package is installed, and its place there. -/
structure Nearest (t : FileTree) (top start : Path) (name : String) (folder root : Path) :
    Prop where
  onTheWay : OnTheWay top start folder
  installed : Installed t folder name root
  before : ∀ nearer, OnTheWay top start nearer → folder.parts.length < nearer.parts.length →
    ∀ other, ¬ Installed t nearer name other

section
variable {t : FileTree}

theorem installedIn?_eq_some_iff :
    installedIn? t folder name = .ok (some root) ↔ Installed t folder name root := by
  unfold installedIn? Installed
  cases place folder name with
  | error fault =>
    constructor
    · nofun
    · exact fun h => nomatch h.1
  | ok place =>
    constructor
    · intro h
      obtain ⟨found, hf, h⟩ := bind_ok h
      cases found with
      | false => cases h
      | true =>
        cases h
        exact ⟨rfl, hf⟩
    · rintro ⟨⟨⟩, hf⟩
      dsimp only
      rw [hf]
      rfl

theorem installedIn?_eq_none_iff :
    installedIn? t folder name = .ok none ↔ Absent t folder name := by
  unfold installedIn? Absent
  cases place folder name with
  | error fault => exact iff_of_true rfl nofun
  | ok place =>
    constructor
    · rintro h _ ⟨⟩
      obtain ⟨found, hf, h⟩ := bind_ok h
      cases found with
      | false => exact hf
      | true => cases h
    · intro h
      dsimp only
      rw [h place rfl]
      rfl

theorem installedIn?_answers_iff :
    (∃ found, installedIn? t folder name = .ok found) ↔ Seen t folder name := by
  constructor
  · rintro ⟨found, h⟩
    exact Risk.seen_of_installedIn? h
  · intro h
    obtain ⟨found, hf, _⟩ := Risk.installedIn?_returns h
    exact ⟨found, hf⟩

theorem onTheWay_concat : OnTheWay top ⟨a, names ++ [n]⟩ folder ↔
    (folder.below? top).isSome = true ∧ folder = ⟨a, names ++ [n]⟩ ∨
      OnTheWay top ⟨a, names⟩ folder := by
  unfold OnTheWay
  rw [← and_or_left]
  apply and_congr_right
  intro _
  rw [Path.below?_isSome, Path.below?_isSome]
  dsimp only
  rw [List.prefix_concat_iff, and_or_left]
  apply or_congr_left
  obtain ⟨b, parts⟩ := folder
  rw [Path.mk.injEq, eq_comm]

theorem OnTheWay.length_le (h : OnTheWay top start folder) :
    folder.parts.length ≤ start.parts.length :=
  (Path.below?_isSome.1 h.2).2.length_le

theorem OnTheWay.eq_of_not_deeper (h : OnTheWay top start folder) (k : OnTheWay top start other)
    (above : ¬ folder.parts.length < other.parts.length)
    (below : ¬ other.parts.length < folder.parts.length) : folder = other := by
  obtain ⟨anchor, starts⟩ := Path.below?_isSome.1 h.2
  obtain ⟨anchor', starts'⟩ := Path.below?_isSome.1 k.2
  have same := Nat.le_antisymm (Nat.not_lt.1 below) (Nat.not_lt.1 above)
  obtain ⟨a, names⟩ := folder
  obtain ⟨b, others⟩ := other
  cases anchor.symm.trans anchor'
  have parts : names = others :=
    (List.prefix_of_prefix_length_le starts starts' same.le).eq_of_length same
  rw [parts]

theorem OnTheWay.eq_start (h : OnTheWay top start folder)
    (deep : start.parts.length ≤ folder.parts.length) : folder = start := by
  obtain ⟨anchor, starts⟩ := Path.below?_isSome.1 h.2
  obtain ⟨a, names⟩ := folder
  obtain ⟨b, others⟩ := start
  cases anchor
  have parts : names = others := starts.eq_of_length_le deep
  rw [parts]

theorem Reached.unique (h : Reached t top start name folder) (k : Reached t top start name other)
    (present : ¬ Absent t folder name) (present' : ¬ Absent t other name) : folder = other := by
  apply h.onTheWay.eq_of_not_deeper k.onTheWay
  · exact fun deeper => present' (h.before other k.onTheWay deeper)
  · exact fun deeper => present (k.before folder h.onTheWay deeper)

theorem onTheWay_start (inside : (start.below? top).isSome = true) : OnTheWay top start start :=
  ⟨inside, Path.below?_isSome.2 ⟨rfl, List.prefix_refl _⟩⟩

theorem reached_start (inside : (start.below? top).isSome = true) :
    Reached t top start name start where
  onTheWay := onTheWay_start inside
  before _ way deeper := (Nat.not_lt.2 way.length_le deeper).elim

theorem Reached.concat (h : Reached t top ⟨a, names⟩ name folder)
    (absent : Absent t ⟨a, names ++ [n]⟩ name) :
    Reached t top ⟨a, names ++ [n]⟩ name folder where
  onTheWay := onTheWay_concat.2 (.inr h.onTheWay)
  before nearer way deeper := by
    rcases onTheWay_concat.1 way with ⟨_, rfl⟩ | way
    · exact absent
    · exact h.before nearer way deeper

theorem isSome_below?_above (inside : (Path.below? ⟨a, names ++ [n]⟩ top).isSome = true)
    (short : (⟨a, names ++ [n]⟩ : Path) ≠ top) : (Path.below? ⟨a, names⟩ top).isSome = true := by
  obtain ⟨anchor, starts⟩ := Path.below?_isSome.1 inside
  refine Path.below?_isSome.2 ⟨anchor, ?_⟩
  rcases List.prefix_concat_iff.1 starts with same | before
  · obtain ⟨b, parts⟩ := top
    cases anchor
    cases same
    exact (short rfl).elim
  · exact before

theorem climb_of_absent (absent : Absent t ⟨a, above.reverse ++ [last]⟩ name) :
    climb t top a name (last :: above) =
      if ⟨a, above.reverse ++ [last]⟩ = top then .ok none else climb t top a name above := by
  rw [climb, List.reverse_cons, installedIn?_eq_none_iff.2 absent]
  rfl

theorem climb_of_present (present : ¬ Absent t ⟨a, names.reverse⟩ name) :
    climb t top a name names = installedIn? t ⟨a, names.reverse⟩ name := by
  cases names with
  | nil => rfl
  | cons last above =>
    rw [climb]
    cases hi : installedIn? t ⟨a, (last :: above).reverse⟩ name with
    | error e => rfl
    | ok found =>
      cases found with
      | some root => rfl
      | none => exact (present (installedIn?_eq_none_iff.1 hi)).elim

/-- A climb ends, with a place or an error, in the first folder that does not answer that nothing is
there. If all of them do, it ends with nothing. -/
theorem climb_cases (t : FileTree) (name : String) (names : List String)
    (inside : (Path.below? ⟨a, names.reverse⟩ top).isSome = true) :
    (∃ folder, Reached t top ⟨a, names.reverse⟩ name folder ∧ ¬ Absent t folder name ∧
      climb t top a name names = installedIn? t folder name) ∨
    (∀ folder, OnTheWay top ⟨a, names.reverse⟩ folder → Absent t folder name) ∧
      climb t top a name names = .ok none := by
  induction names with
  | nil =>
    by_cases absent : Absent t ⟨a, []⟩ name
    · refine .inr ⟨fun folder way => ?_, installedIn?_eq_none_iff.2 absent⟩
      rwa [way.eq_start (Nat.zero_le _)]
    · exact .inl ⟨_, reached_start inside, absent, climb_of_present absent⟩
  | cons last above ih =>
    by_cases absent : Absent t ⟨a, (last :: above).reverse⟩ name
    · rw [List.reverse_cons] at absent inside ⊢
      rw [climb_of_absent absent]
      by_cases arrived : ⟨a, above.reverse ++ [last]⟩ = top
      · rw [if_pos arrived]
        refine .inr ⟨fun folder way => ?_, rfl⟩
        have deep := (Path.below?_isSome.1 way.1).2.length_le
        rw [← arrived] at deep
        rwa [way.eq_start deep]
      · -- Nothing is here and there is a folder above, from which the way goes on to the same end.
        rw [if_neg arrived]
        rcases ih (isSome_below?_above inside arrived) with
          ⟨folder, reached, present, he⟩ | ⟨nowhere, he⟩
        · exact .inl ⟨folder, reached.concat absent, present, he⟩
        · refine .inr ⟨fun folder way => ?_, he⟩
          rcases onTheWay_concat.1 way with ⟨_, rfl⟩ | way
          · exact absent
          · exact nowhere folder way
    · exact .inl ⟨_, reached_start inside, absent, climb_of_present absent⟩

theorem OnTheWay.inside (h : OnTheWay top start folder) : (start.below? top).isSome = true := by
  obtain ⟨anchor, starts⟩ := Path.below?_isSome.1 h.1
  obtain ⟨anchor', starts'⟩ := Path.below?_isSome.1 h.2
  exact Path.below?_isSome.2 ⟨anchor'.trans anchor, starts.trans starts'⟩

/-- A lookup ends as the climb from the file's folder does, and with nothing if there is no way. -/
theorem seenFrom?_cases (ht : t.resolve repository = .ok top)
    (hf : t.resolve (top.child importer) = .ok file) (name : String) :
    (∃ folder, Reached t top file.parent name folder ∧ ¬ Absent t folder name ∧
      seenFrom? t repository importer name = installedIn? t folder name) ∨
    (∀ folder, OnTheWay top file.parent folder → Absent t folder name) ∧
      seenFrom? t repository importer name = .ok none := by
  unfold seenFrom?
  simp only [ht, hf, bind, Except.bind]
  cases hb : file.parent.below? top with
  | none =>
    refine .inr ⟨fun folder way => ?_, rfl⟩
    have inside := way.inside
    rw [hb] at inside
    cases inside
  | some below =>
    have inside : (Path.below? ⟨file.parent.anchor, file.parent.parts.reverse.reverse⟩ top).isSome =
        true := by
      rw [List.reverse_reverse]
      exact Option.isSome_iff_exists.2 ⟨below, hb⟩
    have cases := climb_cases t name file.parent.parts.reverse inside
    rwa [List.reverse_reverse] at cases

theorem Absent.not_installed (h : Absent t folder name) (root : Path) :
    ¬ Installed t folder name root := by
  rintro ⟨hp, hi⟩
  cases (h root hp).symm.trans hi

theorem Reached.nearest (h : Reached t top start name folder)
    (installed : Installed t folder name root) : Nearest t top start name folder root where
  onTheWay := h.onTheWay
  installed := installed
  before nearer way deeper := (h.before nearer way deeper).not_installed

theorem Nearest.unique (h : Nearest t top start name folder root)
    (k : Nearest t top start name other there) : root = there := by
  have same : folder = other := by
    apply h.onTheWay.eq_of_not_deeper k.onTheWay
    · exact fun deeper => h.before other k.onTheWay deeper there k.installed
    · exact fun deeper => k.before folder h.onTheWay deeper root h.installed
  subst same
  exact Except.ok.inj (h.installed.1.symm.trans k.installed.1)

theorem seenFrom?_congr {other : FileTree} (ht : t.resolve repository = .ok top)
    (hf : t.resolve (top.child importer) = .ok file) (ht' : other.resolve repository = .ok top)
    (hf' : other.resolve (top.child importer) = .ok file)
    (same : ∀ folder, OnTheWay top file.parent folder →
      installedIn? other folder name = installedIn? t folder name) :
    seenFrom? other repository importer name = seenFrom? t repository importer name := by
  have alike (folder : Path) (way : OnTheWay top file.parent folder) :
      Absent other folder name ↔ Absent t folder name := by
    rw [← installedIn?_eq_none_iff, ← installedIn?_eq_none_iff, same folder way]
  rcases seenFrom?_cases ht hf name with ⟨folder, reached, present, he⟩ | ⟨nowhere, he⟩
  · rcases seenFrom?_cases ht' hf' name with ⟨folder', reached', present', he'⟩ | ⟨nowhere', _⟩
    · have before (nearer : Path) (way : OnTheWay top file.parent nearer)
          (deeper : folder'.parts.length < nearer.parts.length) : Absent t nearer name :=
        (alike nearer way).1 (reached'.before nearer way deeper)
      have way := reached'.onTheWay
      have place : folder = folder' :=
        reached.unique ⟨way, before⟩ present (mt (alike folder' way).2 present')
      rw [he, he', place, same folder' way]
    · exact (present ((alike folder reached.onTheWay).1 (nowhere' folder reached.onTheWay))).elim
  · rcases seenFrom?_cases ht' hf' name with ⟨folder', reached', present', _⟩ | ⟨_, he'⟩
    · have way := reached'.onTheWay
      exact (present' ((alike folder' way).2 (nowhere folder' way))).elim
    · rw [he, he']

theorem seenFrom?_spec (ht : t.resolve repository = .ok top)
    (hf : t.resolve (top.child importer) = .ok file)
    (h : seenFrom? t repository importer name = .ok found) :
    (∀ root, found = some root ↔ ∃ folder, Nearest t top file.parent name folder root) ∧
    (found = none ↔
      ∀ folder, OnTheWay top file.parent folder → ∀ root, ¬ Installed t folder name root) := by
  rcases seenFrom?_cases ht hf name with ⟨folder, reached, present, he⟩ | ⟨nowhere, he⟩
  · rw [he] at h
    cases found with
    | none => exact (present (installedIn?_eq_none_iff.1 h)).elim
    | some place =>
      have installed := installedIn?_eq_some_iff.1 h
      have nearest := reached.nearest installed
      refine ⟨fun root => ⟨?_, ?_⟩, iff_of_false nofun fun none => ?_⟩
      · rintro ⟨⟩
        exact ⟨folder, nearest⟩
      · rintro ⟨_, also⟩
        rw [nearest.unique also]
      · exact none folder reached.onTheWay place installed
  · cases he.symm.trans h
    refine ⟨fun root => iff_of_false nofun ?_, iff_of_true rfl fun folder way => ?_⟩
    · rintro ⟨folder, way, installed, _⟩
      exact (nowhere folder way).not_installed root installed
    · exact (nowhere folder way).not_installed

theorem seenFrom?_returns_iff (ht : t.resolve repository = .ok top)
    (hf : t.resolve (top.child importer) = .ok file) :
    (∃ found, seenFrom? t repository importer name = .ok found) ↔
      ∀ folder, Reached t top file.parent name folder → Seen t folder name := by
  have seen_of_absent {folder : Path} (absent : Absent t folder name) : Seen t folder name :=
    installedIn?_answers_iff.1 ⟨none, installedIn?_eq_none_iff.2 absent⟩
  rcases seenFrom?_cases ht hf name with ⟨folder, reached, present, he⟩ | ⟨nowhere, he⟩
  · rw [he, installedIn?_answers_iff]
    constructor
    · intro seen other reached'
      by_cases absent : Absent t other name
      · exact seen_of_absent absent
      · rwa [← reached.unique reached' present absent]
    · exact fun answers => answers folder reached
  · exact iff_of_true ⟨none, he⟩ fun folder reached =>
      seen_of_absent (nowhere folder reached.onTheWay)

end

/-- A file of a repository sees a package at the place of its nearest installation on the way up to
the repository. If there is none it sees nothing, and neither does a file outside. The lookup ends
with an answer if and only if the folders that it asks answer, and no other folder matters to it. -/
theorem seenFrom?_nearest (t : FileTree) (repository : Path) (importer name : String)
    (ht : t.resolve repository = .ok top) (hf : t.resolve (top.child importer) = .ok file) :
    (file.parent.below? top = none → seenFrom? t repository importer name = .ok none) ∧
    ((∃ found, seenFrom? t repository importer name = .ok found) ↔
      ∀ folder, Reached t top file.parent name folder → Seen t folder name) ∧
    (∀ found, seenFrom? t repository importer name = .ok found →
      (∀ root, found = some root ↔ ∃ folder, Nearest t top file.parent name folder root) ∧
      (found = none ↔
        ∀ folder, OnTheWay top file.parent folder → ∀ root, ¬ Installed t folder name root)) ∧
    ∀ other : FileTree, other.resolve repository = .ok top →
      other.resolve (top.child importer) = .ok file →
      (∀ folder, OnTheWay top file.parent folder →
        installedIn? other folder name = installedIn? t folder name) →
      seenFrom? other repository importer name = seenFrom? t repository importer name := by
  refine ⟨fun outside => ?_, seenFrom?_returns_iff ht hf, fun found => seenFrom?_spec ht hf,
    fun other => seenFrom?_congr ht hf⟩
  rcases seenFrom?_cases ht hf name with ⟨folder, reached, _⟩ | ⟨_, he⟩
  · have inside := reached.onTheWay.inside
    rw [outside] at inside
    cases inside
  · exact he

/-- Of a package that is installed in a folder and at the top, the files of the folder see the one
in the folder. -/
theorem seenFrom?_of_nested :
    let top : Path := ⟨.root, []⟩
    let b : Path := ⟨.root, ["b"]⟩
    Installed Inventory.nested top "pkg" ⟨.root, ["node_modules", "pkg"]⟩ ∧
    Nearest Inventory.nested top b "pkg" b ⟨.root, ["b", "node_modules", "pkg"]⟩ ∧
    seenFrom? Inventory.nested top "b/c.js" "pkg" =
      .ok (some ⟨.root, ["b", "node_modules", "pkg"]⟩) := by
  intro top b
  have above : installedIn? Inventory.nested top "pkg" =
      .ok (some ⟨.root, ["node_modules", "pkg"]⟩) := eq_ok_of_toOption (by decide +kernel)
  have inside : installedIn? Inventory.nested b "pkg" =
      .ok (some ⟨.root, ["b", "node_modules", "pkg"]⟩) := eq_ok_of_toOption (by decide +kernel)
  have start : Reached Inventory.nested top b "pkg" b := reached_start (by decide)
  have nearest := start.nearest (installedIn?_eq_some_iff.1 inside)
  have ht : Inventory.nested.resolve top = .ok top := eq_ok_of_toOption (by decide +kernel)
  have hf : Inventory.nested.resolve (top.child "b/c.js") = .ok ⟨.root, ["b", "c.js"]⟩ :=
    eq_ok_of_toOption (by decide +kernel)
  obtain ⟨_, returns, found, _⟩ := seenFrom?_nearest Inventory.nested top "b/c.js" "pkg" ht hf
  obtain ⟨seen, hs⟩ := returns.2 fun folder reached => by
    by_cases absent : Absent Inventory.nested folder "pkg"
    · exact installedIn?_answers_iff.1 ⟨none, installedIn?_eq_none_iff.2 absent⟩
    · have present : ¬ Absent Inventory.nested b "pkg" :=
        fun absent => absent.not_installed _ nearest.installed
      rw [reached.unique start absent present]
      exact installedIn?_answers_iff.1 ⟨_, inside⟩
  rw [((found seen hs).1 _).2 ⟨b, nearest⟩] at hs
  exact ⟨installedIn?_eq_some_iff.1 above, nearest, hs⟩

theorem seenFrom?_of_overlong_name (h : Overlong name) :
    let top : Path := ⟨.root, []⟩
    (∀ folder, OnTheWay top top folder → ∀ root, ¬ Installed Risk.lonely folder name root) ∧
      ¬ ∃ found, seenFrom? Risk.lonely top "a.js" name = .ok found := by
  intro top
  have unseen : ¬ Seen Risk.lonely top name := by
    intro seen
    obtain ⟨found, he⟩ := installedIn?_answers_iff.2 seen
    rw [h.installedIn?_eq rfl rfl] at he
    cases he
  have ht : Risk.lonely.resolve top = .ok top := eq_ok_of_toOption (by decide +kernel)
  have hf : Risk.lonely.resolve (top.child "a.js") = .ok ⟨.root, ["a.js"]⟩ :=
    eq_ok_of_toOption (by decide +kernel)
  constructor
  · intro folder way root installed
    rw [way.eq_start (Nat.zero_le _)] at installed
    exact unseen (installedIn?_answers_iff.1 ⟨_, installedIn?_eq_some_iff.2 installed⟩)
  · intro answers
    exact unseen ((seenFrom?_returns_iff ht hf).1 answers top (reached_start (by decide)))

/-- A package of so long a name is installed nowhere on the way, but the lookup does not say so. -/
theorem seenFrom?_of_overlong :
    let top : Path := ⟨.root, []⟩
    let name := String.ofList (List.replicate 256 'a')
    (∀ folder, OnTheWay top top folder → ∀ root, ¬ Installed Risk.lonely folder name root) ∧
      ¬ ∃ found, seenFrom? Risk.lonely top "a.js" name = .ok found :=
  seenFrom?_of_overlong_name (.of_replicate (by decide) (by decide))

end Package

end PackageUsage
