import PackageUsage.Proofs.LinkFreeTrees
import PackageUsage.Proofs.NearestInstallation
import PackageUsage.Proofs.ShortenedPaths
import PackageUsage.Proofs.WrittenRoots

namespace PackageUsage
set_option autoImplicit true

namespace Path

/-- The normal form of a path. -/
def normal (p : Path) : Path := ⟨p.anchor, Normal.collapse (p.anchor != .relative) p.parts⟩

theorem below?_eq_some_iff {p q : Path} :
    p.below? q = some names ↔ p = ⟨q.anchor, q.parts ++ names⟩ := by
  obtain ⟨a, parts⟩ := p
  unfold below?
  dsimp only
  constructor
  · intro h
    split at h
    · rename_i inside
      obtain ⟨rfl, start⟩ := inside
      obtain ⟨rest, rfl⟩ := List.isPrefixOf_iff_prefix.1 start
      rw [List.drop_left] at h
      cases h
      rfl
    · cases h
  · rintro ⟨⟩
    rw [if_pos ⟨rfl, List.isPrefixOf_iff_prefix.2 (List.prefix_append _ _)⟩, List.drop_left]

theorem join_assoc (p q r : Path) : (p.join q).join r = p.join (q.join r) := by
  by_cases absolute : r.isAbsolute = true
  · rw [join_of_isAbsolute absolute, join_of_isAbsolute absolute, join_of_isAbsolute absolute]
  · have relative (front : Path) : front.join r = ⟨front.anchor, front.parts ++ r.parts⟩ :=
      if_neg absolute
    rw [relative, relative]
    unfold join isAbsolute
    split
    · rfl
    · rw [List.append_assoc]

namespace Normal

/-- Once settled names lead down they do not lead upwards again. -/
theorem Settled.plain (h : Settled absolute (later ++ n :: earlier)) (down : n ≠ "..") :
    ∀ m ∈ later ++ [n], Plain m := by
  induction later with
  | nil =>
    cases h with
    | name plain _ => exact List.forall_mem_singleton.2 plain
    | up _ _ => exact (down rfl).elim
  | cons m later ih =>
    refine List.forall_mem_cons.2 ⟨?_, ih h.tail⟩
    cases h with
    | name plain _ => exact plain
    | up _ all => exact (down (all n (List.mem_append_right _ List.mem_cons_self))).elim

theorem Settled.append_left (h : Settled absolute (later ++ earlier)) : Settled absolute later := by
  induction later with
  | nil => exact .nil
  | cons m later ih =>
    cases h with
    | name plain h => exact .name plain (ih h)
    | up relative all =>
      exact .up relative fun name hn => all name (List.mem_append_left _ hn)

theorem foldl_push_of_plain {names : List String} (h : ∀ n ∈ names, Plain n) (absolute : Bool)
    (stack : List String) : names.foldl (push absolute) stack = names.reverse ++ stack := by
  induction names generalizing stack with
  | nil => rfl
  | cons n names ih =>
    obtain ⟨plain, rest⟩ := List.forall_mem_cons.1 h
    rw [List.foldl_cons, push_plain plain, ih rest, List.reverse_cons, List.append_assoc]
    rfl

end Normal

end Path

namespace Package
open Path.Normal

/-- The path that the pieces of a package name make. -/
def piecesPath (pieces : List String) : Path := pieces.foldl Path.child ⟨.relative, []⟩

/-- A path that is strictly below the `node_modules` folder of a folder. -/
def InPackages (folder root : Path) : Prop :=
  ∃ names ≠ [], root.normal.below? (folder.child "node_modules").normal = some names

/-- A path that leads from a folder of packages to something below it: down from the start, or out
once and in again. -/
inductive Stays (p : Path) : Prop
  | down : p.normal = ⟨.relative, name :: rest⟩ → name ≠ ".." → Stays p
  | back : p.normal = ⟨.relative, ".." :: "node_modules" :: name :: rest⟩ → Stays p

theorem foldl_child (pieces : List String) (folder : Path) :
    pieces.foldl Path.child folder = folder.join (piecesPath pieces) := by
  induction pieces using List.reverseRecOn with
  | nil => exact (congrArg (Path.mk folder.anchor) (List.append_nil _)).symm
  | append_singleton pieces piece ih =>
    unfold piecesPath at ih ⊢
    rw [List.foldl_concat, List.foldl_concat, ih]
    exact Path.join_assoc folder _ (.ofString piece)

theorem place_of_pieces (accepted : pathPieces name = .ok pieces) (folder : Path) :
    place folder name = .ok ((folder.child "node_modules").join (piecesPath pieces)) := by
  unfold place
  rw [accepted, ← foldl_child]
  rfl

theorem plain_nodeModules : Path.Plain "node_modules" := ⟨by decide, by decide, by decide⟩

theorem child_nodeModules (folder : Path) :
    folder.child "node_modules" = ⟨folder.anchor, folder.parts ++ ["node_modules"]⟩ :=
  Path.child_of_name (by decide) (by decide) (by decide) folder

theorem inPackages_iff : InPackages folder root ↔ ∃ name rest,
    root.normal = ⟨folder.anchor, folder.normal.parts ++ "node_modules" :: name :: rest⟩ := by
  have packages : (folder.child "node_modules").normal =
      ⟨folder.anchor, folder.normal.parts ++ ["node_modules"]⟩ := by
    rw [child_nodeModules]
    exact congrArg (Path.mk folder.anchor) (Path.Normal.collapse_concat _ _ plain_nodeModules)
  unfold InPackages
  rw [packages]
  constructor
  · rintro ⟨names, given, below⟩
    obtain ⟨name, rest, rfl⟩ := List.exists_cons_of_ne_nil given
    exact ⟨name, rest, by simpa using Path.below?_eq_some_iff.1 below⟩
  · rintro ⟨name, rest, he⟩
    exact ⟨name :: rest, List.cons_ne_nil _ _, Path.below?_eq_some_iff.2 (by simpa using he)⟩

theorem normal_join (folder : Path) (names : List String) :
    ((folder.child "node_modules").join ⟨.relative, names⟩).normal = ⟨folder.anchor,
      ((collapse false names).foldl (push (folder.anchor != .relative))
        ("node_modules" :: folder.normal.parts.reverse)).reverse⟩ := by
  rw [child_nodeModules, Path.join_relative, Path.normal]
  dsimp only
  rw [foldl_push_collapse, collapse, List.append_assoc, List.foldl_append, List.singleton_append,
    List.foldl_cons, push_plain plain_nodeModules, Path.normal, collapse, List.reverse_reverse]

theorem settled_collapse (absolute : Bool) (names : List String) :
    Settled absolute (collapse absolute names).reverse := by
  rw [collapse, List.reverse_reverse]
  exact settled_foldl_push names .nil

theorem plain_of_collapse (h : collapse absolute names = front ++ name :: rest)
    (down : name ≠ "..") : ∀ n ∈ name :: rest, Path.Plain n := by
  have settled := settled_collapse absolute names
  rw [h, List.reverse_append, List.reverse_cons, List.append_assoc,
    List.singleton_append] at settled
  have plain := settled.plain down
  rw [← List.reverse_cons] at plain
  exact fun n hn => plain n (List.mem_reverse.2 hn)

theorem inPackages_of_plain (plain : ∀ n ∈ name :: rest, Path.Plain n)
    (h : (collapse false names).foldl (push (folder.anchor != .relative))
      ("node_modules" :: folder.normal.parts.reverse) =
      (name :: rest).foldl (push (folder.anchor != .relative))
        ("node_modules" :: folder.normal.parts.reverse)) :
    InPackages folder ((folder.child "node_modules").join ⟨.relative, names⟩) := by
  rw [inPackages_iff]
  refine ⟨name, rest, ?_⟩
  rw [normal_join, h, foldl_push_of_plain plain, List.reverse_append, List.reverse_reverse,
    List.reverse_cons, List.reverse_reverse, List.append_assoc]
  rfl

theorem Stays.inPackages (h : Stays p) (folder : Path) :
    InPackages folder ((folder.child "node_modules").join p) := by
  obtain ⟨a, names⟩ := p
  cases h with
  | @down name rest he down =>
    obtain ⟨rfl, parts⟩ := Path.mk.inj he
    have collapsed : collapse false names = [] ++ name :: rest := parts
    exact inPackages_of_plain (plain_of_collapse collapsed down) (by rw [collapsed]; rfl)
  | @back name rest he =>
    obtain ⟨rfl, parts⟩ := Path.mk.inj he
    have collapsed : collapse false names = [".."] ++ "node_modules" :: name :: rest := parts
    obtain ⟨_, plain⟩ := List.forall_mem_cons.1 (plain_of_collapse collapsed (by decide))
    exact inPackages_of_plain plain (by rw [collapsed]; rfl)

/-- A path that stays below the `node_modules` folder of the working folder stays below all. -/
theorem stays_of_inPackages
    (h : InPackages ⟨.relative, []⟩ (Path.join ⟨.relative, ["node_modules"]⟩ p)) : Stays p := by
  obtain ⟨name, rest, he⟩ := inPackages_iff.1 h
  obtain ⟨a, names⟩ := p
  cases a with
  | root => cases he
  | doubleRoot => cases he
  | relative =>
    have place := normal_join ⟨.relative, []⟩ names
    have settled := settled_collapse false names
    have normal : Path.normal ⟨.relative, names⟩ = ⟨.relative, collapse false names⟩ := rfl
    cases hc : collapse false names with
    | nil =>
      rw [hc] at place
      cases he.symm.trans place
    | cons first more =>
      rw [hc] at normal
      by_cases up : first = ".."
      · -- What follows the way out is left, and it is what has to begin with the way in.
        subst up
        rw [hc, List.reverse_cons] at settled
        have left := foldl_push_reverse settled.append_left
        rw [List.reverse_reverse] at left
        have after : Path.normal ((Path.child ⟨.relative, []⟩ "node_modules").join
            ⟨.relative, names⟩) = ⟨.relative, more⟩ := by
          rw [place, hc]
          change Path.mk .relative (more.foldl (push false) []).reverse = _
          rw [left, List.reverse_reverse]
        cases he.symm.trans after
        exact .back normal
      · exact .down normal up

/-- A package stays below every folder of packages exactly if the path that its name makes does, and
then so does every place where it is found to be installed. -/
theorem inPackages_iff_stays (t : FileTree) (name : String)
    (accepted : pathPieces name = .ok pieces) :
    ((∀ folder, ∃ root, place folder name = .ok root ∧ InPackages folder root) ↔
      Stays (piecesPath pieces)) ∧
    (Stays (piecesPath pieces) →
      (∀ folder root, installedIn? t folder name = .ok (some root) → InPackages folder root) ∧
      ∀ repository package root,
        Risk.dependencyRoot? t repository package name = .ok (some root) →
        installedIn? t package name = .ok (some root) ∧ InPackages package root ∨
        installedIn? t package name = .ok none ∧
          installedIn? t repository name = .ok (some root) ∧ InPackages repository root) := by
  constructor
  · constructor
    · intro inside
      obtain ⟨root, he, inPackages⟩ := inside ⟨.relative, []⟩
      rw [place_of_pieces accepted] at he
      cases he
      exact stays_of_inPackages inPackages
    · exact fun stays folder => ⟨_, place_of_pieces accepted folder, stays.inPackages folder⟩
  · intro stays
    have installed (folder root : Path) (h : installedIn? t folder name = .ok (some root)) :
        InPackages folder root := by
      obtain ⟨he, _⟩ := installedIn?_eq_some_iff.1 h
      rw [place_of_pieces accepted] at he
      cases he
      exact stays.inPackages folder
    refine ⟨installed, fun repository package root h => ?_⟩
    obtain ⟨inside, hi, h⟩ := bind_ok h
    cases inside with
    | some found =>
      cases h
      exact .inl ⟨hi, installed package root hi⟩
    | none => exact .inr ⟨hi, h, installed repository root h⟩

/-- A name that gives up its scope again still makes a path downwards. -/
theorem stays_of_scope_given_up : pathPieces "@a/../x" = .ok ["@a", "../x"] ∧
    Stays (piecesPath ["@a", "../x"]) ∧
    ∀ folder, ∃ root, place folder "@a/../x" = .ok root ∧ InPackages folder root := by
  have accepted : pathPieces "@a/../x" = .ok ["@a", "../x"] := eq_ok_of_toOption (by decide +kernel)
  have normal : (piecesPath ["@a", "../x"]).normal = ⟨.relative, ["x"]⟩ := by decide +kernel
  have stays : Stays (piecesPath ["@a", "../x"]) := .down normal (by decide)
  obtain ⟨everywhere, _⟩ := inPackages_iff_stays Risk.lonely "@a/../x" accepted
  exact ⟨accepted, stays, everywhere.2 stays⟩

/-- A repository that has a manifest and a folder for packages. -/
def published : FileTree :=
  let manifest : Entry := .file (.ofBytes (Text.Utf8.encode "\x7b\x7d")) true
  ⟨.folder [("node_modules", .folder [] .full), ("package.json", manifest)] .full, []⟩

/-- Under the name that leads upwards this repository is taken for a package installed in itself. -/
theorem installedIn?_of_parent :
    let top : Path := ⟨.root, []⟩
    let root : Path := ⟨.root, ["node_modules", ".."]⟩
    pathPieces ".." = .ok [".."] ∧ installedIn? published top ".." = .ok (some root) ∧
      ¬ InPackages top root := by
  intro top root
  refine ⟨eq_ok_of_toOption (by decide +kernel), eq_ok_of_toOption (by decide +kernel), ?_⟩
  rw [inPackages_iff]
  rintro ⟨name, rest, he⟩
  have normal : root.normal = ⟨.root, []⟩ := by decide +kernel
  cases he.symm.trans normal

end Package

end PackageUsage
