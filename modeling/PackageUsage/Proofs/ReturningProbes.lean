import PackageUsage.Proofs.KeyedLists
import PackageUsage.Risk.Depth
import PackageUsage.Risk.Native
import PackageUsage.Surface.Entrypoint

namespace PackageUsage
set_option autoImplicit true
open FileError (Cause)

/-- A computation that returns, and what it returns has a property. -/
def Returns (x : Except ε α) (P : α → Prop) : Prop := ∃ a, x = .ok a ∧ P a

theorem returns_ok {P : α → Prop} (h : P a) : Returns (.ok a : Except ε α) P := ⟨a, rfl, h⟩

theorem returns_pure {P : α → Prop} (h : P a) : Returns (pure a : Except ε α) P := returns_ok h

theorem Returns.bind {x : Except ε α} {P : α → Prop} {Q : β → Prop} {f : α → Except ε β}
    (h : Returns x P) (k : ∀ a, x = .ok a → P a → Returns (f a) Q) : Returns (x >>= f) Q := by
  obtain ⟨a, hx, ha⟩ := h
  subst hx
  exact k a rfl ha

theorem Returns.imp {x : Except ε α} {P Q : α → Prop} (h : Returns x P) (hpq : ∀ a, P a → Q a) :
    Returns x Q := by
  obtain ⟨a, hx, ha⟩ := h
  exact ⟨a, hx, hpq a ha⟩

theorem returns_mapM {f : α → Except ε β} {P : β → Prop} {as : List α}
    (h : ∀ a ∈ as, Returns (f a) P) : Returns (as.mapM f) fun bs => ∀ b ∈ bs, P b := by
  induction as with
  | nil => exact returns_ok nofun
  | cons a as ih =>
    rw [List.mapM_cons]
    obtain ⟨ha, has⟩ := List.forall_mem_cons.1 h
    refine ha.bind fun b _ hb => (ih has).bind fun bs _ hbs => ?_
    exact returns_pure (List.forall_mem_cons.2 ⟨hb, hbs⟩)

theorem returns_foldlM {f : β → α → Except ε β} {I : β → Prop} {as : List α}
    (step : ∀ b, ∀ a ∈ as, I b → Returns (f b a) I) (h : I b) : Returns (as.foldlM f b) I := by
  induction as generalizing b with
  | nil => exact returns_ok h
  | cons a as ih =>
    rw [List.foldlM_cons]
    refine (step b a List.mem_cons_self h).bind fun b' _ hb' => ?_
    exact ih (fun b a ha => step b a (List.mem_cons_of_mem _ ha)) hb'

theorem eq_ok_of_toOption {x : Except ε α} (h : x.toOption = some a) : x = .ok a := by
  cases x with
  | error e => cases h
  | ok b =>
    cases h
    rfl

theorem bind_ok {x : Except ε α} {f : α → Except ε β} (h : x >>= f = .ok b) :
    ∃ a, x = .ok a ∧ f a = .ok b := by
  cases x with
  | error e => cases h
  | ok a => exact ⟨a, rfl, h⟩

theorem bind_error {x : Except ε α} {f : α → Except ε β} (h : x >>= f = .error e) :
    x = .error e ∨ ∃ a, x = .ok a ∧ f a = .error e := by
  cases x with
  | error e' =>
    cases h
    exact .inl rfl
  | ok a => exact .inr ⟨a, rfl, h⟩

theorem mapM_cases (f : α → Except ε β) (as : List α) :
    (∃ bs, as.mapM f = .ok bs ∧ List.Forall₂ (fun a b => f a = .ok b) as bs) ∨
      ∃ e, as.mapM f = .error e ∧ ∃ a ∈ as, f a = .error e := by
  induction as with
  | nil => exact .inl ⟨[], rfl, .nil⟩
  | cons a as ih =>
    rw [List.mapM_cons]
    cases ha : f a with
    | error e => exact .inr ⟨e, rfl, a, List.mem_cons_self, ha⟩
    | ok b =>
      rcases ih with ⟨bs, he, answers⟩ | ⟨e, he, a', ha', failed⟩
      · rw [he]
        exact .inl ⟨b :: bs, rfl, .cons ha answers⟩
      · rw [he]
        exact .inr ⟨e, rfl, a', List.mem_cons_of_mem _ ha', failed⟩

namespace FileTree

/-- The causes for which a walk through folders and links ends. -/
def walkCauses : List Cause := [.missing, .denied, .notFolder, .nameTooLong, .tooManyLinks]

/-- The causes for which a file system does not say what a path leads to. -/
def silentCauses : List Cause := [.nameTooLong, .denied]

theorem followNames_error {t : FileTree}
    {pass : List String → List String → Except Cause (List String)}
    (h : t.followNames pass place names = .error cause) :
    cause ∈ [.missing, .denied, .notFolder, .nameTooLong] ∨
      ∃ folder entries access name target start more,
        t.top.at? folder = some (.folder entries access) ∧
        entries.lookup name = some (.link target) ∧ pass start more = .error cause := by
  induction names generalizing place with
  | nil => cases h
  | cons name rest ih =>
    rw [followNames] at h
    split at h
    · rename_i there
      split at h
      · exact ih h
      split at h
      · cases h
        exact .inl (by decide)
      split at h
      · exact ih h
      split at h
      · exact ih h
      split at h
      · cases h
        exact .inl (by decide)
      split at h
      · cases h
        exact .inl (by decide)
      · rename_i link
        exact .inr ⟨_, _, _, _, _, _, _, there, link, h⟩
      · exact ih h
    · cases h
      exact .inl (by decide)

theorem followFrom_error {t : FileTree} (links : Nat) (place names : List String)
    (h : t.followFrom links place names = .error cause) : cause ∈ walkCauses := by
  have walks : [Cause.missing, .denied, .notFolder, .nameTooLong] ⊆ walkCauses := by decide
  induction links generalizing place names cause with
  | zero =>
    rcases followNames_error h with here | ⟨_, _, _, _, _, _, _, _, _, stopped⟩
    · exact walks here
    · cases stopped
      decide
  | succ links ih =>
    rcases followNames_error h with here | ⟨_, _, _, _, _, _, _, _, _, behind⟩
    · exact walks here
    · exact ih _ _ behind

theorem follow_error {t : FileTree} (h : t.follow p = .error cause) :
    cause ∈ walkCauses ∨ refusal? p.toString = some cause := by
  rw [follow] at h
  split at h
  · rename_i refused
    cases h
    exact .inr refused
  split at h
  · cases h
    exact .inl (by decide)
  · exact .inl (followFrom_error _ _ _ h)

theorem isRefusal_of_refusal? (h : refusal? s = some cause) : cause.isRefusal = true := by
  rw [refusal?] at h
  split at h
  · cases h
    rfl
  split at h
  · cases h
    rfl
  · cases h

/-- Neither the length of a path and of the names that it leads through nor a folder on the way that
may not be searched is an obstacle. -/
def Answers (t : FileTree) (p : Path) : Prop := ∀ cause ∈ silentCauses, t.follow p ≠ .error cause

instance (t : FileTree) (p : Path) : Decidable (t.Answers p) :=
  inferInstanceAs (Decidable (∀ cause ∈ silentCauses, t.follow p ≠ .error cause))

theorem answers_of_error {t : FileTree} (h : t.follow p = .error cause)
    (told : cause ∉ silentCauses) : t.Answers p := by
  rintro other silent failed
  cases h.symm.trans failed
  exact told silent

/-- The real form of a path meets no circle of links. -/
def Settles (t : FileTree) (p : Path) : Prop :=
  ∀ e, t.resolve p = .error e → e.cause ≠ .linkLoop

theorem entryAt_error {t : FileTree} (h : t.entryAt p = .error cause) :
    cause = .missing ∨ t.follow p = .error cause := by
  cases hf : t.follow p with
  | error c =>
    rw [entryAt, hf] at h
    cases h
    exact .inr rfl
  | ok place =>
    left
    cases he : t.top.at? place with
    | some e =>
      simp only [entryAt, hf, bind, Except.bind, he] at h
      cases h
    | none =>
      simp only [entryAt, hf, bind, Except.bind, he] at h
      cases h
      rfl

/-- What is asked of a path is not answered only if the path or a name in it is too long, or a
folder on the way may not be searched. -/
theorem probe_error {t : FileTree} {property : Entry → Bool} (h : t.probe p property = .error e) :
    ∃ cause ∈ silentCauses, e = ⟨cause, p.toString⟩ ∧ t.follow p = .error cause := by
  rw [probe] at h
  split at h
  · cases h
  · rename_i he
    cases h
    exact ⟨_, by decide, rfl, (entryAt_error he).resolve_left nofun⟩
  · rename_i he
    cases h
    exact ⟨_, by decide, rfl, (entryAt_error he).resolve_left nofun⟩
  · cases h

theorem probe_of_silent {t : FileTree} (h : t.follow p = .error cause)
    (silent : cause ∈ silentCauses) (property : Entry → Bool) :
    t.probe p property = .error ⟨cause, p.toString⟩ := by
  have entry : t.entryAt p = .error cause := by
    rw [entryAt, h]
    rfl
  rw [probe, entry]
  rcases List.mem_cons.1 silent with rfl | other
  · rfl
  · cases List.mem_singleton.1 other
    rfl

theorem answers_of_probe {t : FileTree} {property : Entry → Bool}
    (h : t.probe p property = .ok found) : t.Answers p := by
  intro cause silent failed
  cases h.symm.trans (probe_of_silent failed silent property)

theorem probe_returns {t : FileTree} (h : t.Answers p) (property : Entry → Bool) :
    Returns (t.probe p property) fun _ => True := by
  cases hp : t.probe p property with
  | ok holds => exact returns_ok trivial
  | error e =>
    obtain ⟨cause, silent, _, failed⟩ := probe_error hp
    exact absurd failed (h cause silent)

theorem exists_of_probe {t : FileTree} {property : Entry → Bool}
    (h : t.probe p property = .ok true) :
    ∃ place e, t.follow p = .ok place ∧ t.top.at? place = some e := by
  rw [probe, entryAt] at h
  cases hf : t.follow p with
  | error cause =>
    rw [hf] at h
    cases cause <;> cases h
  | ok place =>
    rw [hf] at h
    cases he : t.top.at? place with
    | some e => exact ⟨place, e, rfl, he⟩
    | none =>
      simp only [bind, Except.bind, he] at h
      cases h

theorem doesExist_of_neither {t : FileTree} (hfolder : t.isFolder p = .ok false)
    (hfile : t.isFile p = .ok false) : t.doesExist p = .ok false := by
  rw [isFolder, probe] at hfolder
  rw [isFile, probe] at hfile
  rw [doesExist, probe]
  split at hfolder
  · rename_i e he
    rw [he] at hfile
    cases hf : e.isFolder with
    | true =>
      rw [hf] at hfolder
      cases hfolder
    | false =>
      simp only [hf, Bool.not_false] at hfile
      cases hfile
  · cases hfolder
  · cases hfolder
  · rfl

theorem resolve_error {t : FileTree} (h : t.resolve p = .error e) :
    e.cause.isRefusal = true ∨ e.cause = .linkLoop := by
  rw [resolve] at h
  split at h
  · rename_i refused
    cases h
    obtain ⟨s, _, hs⟩ := List.exists_of_findSome?_eq_some refused
    exact .inl (isRefusal_of_refusal? hs)
  dsimp only at h
  split at h
  · cases h
    exact .inr rfl
  · cases h

theorem Settles.cases {t : FileTree} (h : t.Settles p) :
    (∃ q, t.resolve p = .ok q) ∨ ∃ e, t.resolve p = .error e ∧ e.cause.isRefusal = true := by
  cases hr : t.resolve p with
  | ok q => exact .inl ⟨q, rfl⟩
  | error e => exact .inr ⟨e, rfl, (resolve_error hr).resolve_right (h e hr)⟩

end FileTree

namespace Entrypoint

theorem isWithin_returns {t : FileTree} (hp : t.Settles path) (hr : t.Settles root) :
    Returns (isWithin t path root) fun _ => True := by
  rcases hp.cases with ⟨p, hp⟩ | ⟨e, he, refused⟩
  · rcases hr.cases with ⟨r, hr⟩ | ⟨e, he, refused⟩
    · simp only [isWithin, hp, hr]
      exact returns_pure trivial
    · simp only [isWithin, hp, he, refused, ↓reduceIte]
      exact returns_pure trivial
  · simp only [isWithin, he, refused, ↓reduceIte]
    exact returns_pure trivial

/-- The names that a probe adds a suffix to. -/
def suffixed (path : Path) (suffix : String) : Path :=
  ⟨path.anchor, path.parts.dropLast ++ [path.name ++ suffix]⟩

/-- The file system answers about the names that a probe asks for, up to the first of a file. -/
def Probes (t : FileTree) (path : Path) (suffixes : List String) : Prop :=
  ∀ before suffix after, suffixes = before ++ suffix :: after →
    (∀ s ∈ before, t.isFile (suffixed path s) = .ok false) → t.Answers (suffixed path suffix)

theorem Probes.tail {t : FileTree} (h : Probes t path (suffix :: rest))
    (hs : t.isFile (suffixed path suffix) = .ok false) : Probes t path rest := by
  rintro before next after rfl none
  exact h (suffix :: before) next after rfl (List.forall_mem_cons.2 ⟨hs, none⟩)

theorem probes_of_forall {t : FileTree} {path : Path} {suffixes : List String}
    (h : ∀ suffix ∈ suffixes, t.Answers (suffixed path suffix)) : Probes t path suffixes := by
  rintro before suffix after rfl _
  exact h suffix (List.mem_append_right _ List.mem_cons_self)

theorem probe_returns {t : FileTree} {path : Path} {suffixes : List String}
    (h : Probes t path suffixes) : Returns (probe t path suffixes) fun _ => True := by
  induction suffixes with
  | nil => exact returns_ok trivial
  | cons suffix rest ih =>
    have first := h [] suffix rest rfl nofun
    refine (FileTree.probe_returns first _).bind fun found hs _ => ?_
    cases found with
    | true => exact returns_pure trivial
    | false => exact ih (h.tail hs)

/-- The paths that an entrypoint is looked for at: its own, and that of the index where a folder of
the package is. -/
inductive Tried (t : FileTree) (root : Path) : Path → Path → Prop
  | here : Tried t root entry (root.join entry)
  | index : isWithin t (root.join entry) root = .ok true →
      t.isFolder (root.join entry) = .ok true →
      Tried t root ((root.join entry).child "index") path → Tried t root entry path

/-- What is asked about a path that an entrypoint is looked for at is answered. Outside the package
nothing is asked but where the path leads. -/
structure Answered (t : FileTree) (root path : Path) : Prop where
  settles : t.Settles path
  answers : isWithin t path root = .ok true → t.Answers path
  probes : isWithin t path root = .ok true → t.doesExist path = .ok false →
    ExportsMap.isCode path.name = false → Probes t path probeSuffixes

theorem resolveFrom_returns {t : FileTree} {root entry : Path} (hr : t.Settles root)
    (h : ∀ path, Tried t root entry path → Answered t root path) (fuel : Nat) :
    Returns (resolveFrom t root fuel entry) fun _ => True := by
  induction fuel generalizing entry with
  | zero => exact returns_ok trivial
  | succ fuel ih =>
    have here := h _ .here
    refine (isWithin_returns here.settles hr).bind fun within hwithin _ => ?_
    cases within with
    | false => exact returns_pure trivial
    | true =>
      have answers := here.answers hwithin
      refine (FileTree.probe_returns answers _).bind fun folder hfolder _ => ?_
      cases folder with
      | true => exact ih fun path tried => h path (.index hwithin hfolder tried)
      | false =>
        refine (FileTree.probe_returns answers _).bind fun file hfile _ => ?_
        cases file with
        | true => exact returns_pure trivial
        | false =>
          rw [if_neg Bool.false_ne_true]
          split
          · exact returns_pure trivial
          · rename_i hname
            rw [Bool.or_eq_true, not_or, Bool.not_eq_true, Bool.not_eq_true] at hname
            have nothing := FileTree.doesExist_of_neither hfolder hfile
            exact probe_returns (here.probes hwithin nothing hname.2)

end Entrypoint

/-- All characters of the path of a manifest can stand in a path. -/
def Manifest.Writable (root : Path) : Prop :=
  FileTree.refusal? (Manifest.pathIn root).toString = none

theorem FileTree.read_error {t : FileTree} (h : t.read p = .error e) :
    e.cause.isRefusal = false ∨ t.entryAt p = .error e.cause := by
  rw [read] at h
  split at h
  · cases h
  · cases h
    exact .inl rfl
  · cases h
    exact .inl rfl
  · cases h
    exact .inl rfl
  · rename_i cause he
    cases h
    exact .inr he

theorem Manifest.load_returns {t : FileTree} (h : Writable root) :
    Returns (load t root) fun _ => True := by
  rw [load]
  split
  · exact returns_ok trivial
  · rename_i e he
    cases hr : e.cause.isRefusal with
    | false => exact returns_ok trivial
    | true =>
      rcases FileTree.read_error he with allowed | hat
      · cases hr.symm.trans allowed
      rcases FileTree.entryAt_error hat with missing | hf
      · rw [missing] at hr
        cases hr
      rcases FileTree.follow_error hf with walk | refused
      · have allowed : ∀ cause ∈ FileTree.walkCauses, cause.isRefusal = false := by decide
        cases hr.symm.trans (allowed _ walk)
      · cases h.symm.trans refused

theorem FileTree.report_of_probe {t : FileTree} {property : Entry → Bool}
    (h : t.probe p property = .error e) : e.cause.report?.isSome = true := by
  obtain ⟨cause, silent, rfl, _⟩ := probe_error h
  have reported : ∀ cause ∈ silentCauses, cause.report?.isSome = true := by decide
  exact reported cause silent

namespace Risk

/-- A step of a walk fails only for causes that have a report. -/
def Reports (step : FileTree.WalkStep) : Prop :=
  ∀ folder cause, step = .failure folder cause → cause.report?.isSome = true

theorem reports_name (folder : List String) (name : String) : Reports (.name folder name) := nofun

theorem reports_failure (h : cause.report?.isSome = true) (folder : List String) :
    Reports (.failure folder cause) := by
  rintro _ _ ⟨⟩
  exact h

mutual

theorem reports_walkEntry (t : FileTree) (skip : String → Bool) (top : Path) (reached : Bool)
    (folder : List String) (e : Entry) :
    ∀ step ∈ t.walkEntry skip top reached folder e, Reports step := by
  match e with
  | .file .. => exact List.forall_mem_singleton.2 (reports_failure rfl folder)
  | .link _ => exact nofun
  | .folder entries access =>
    rw [FileTree.walkEntry]
    split
    · exact List.forall_mem_singleton.2 (reports_failure rfl folder)
    split
    · intro step hs
      rcases List.mem_append.1 hs with hs | hs
      · obtain ⟨name, _, rfl⟩ := List.mem_map.1 hs
        exact reports_name folder name
      · obtain ⟨walk, hw, hs⟩ := List.mem_flatMap.1 hs
        exact reports_walkFolders t skip top access.searches folder entries walk
          (List.mem_mergeSort.1 hw) step hs
    · exact List.forall_mem_singleton.2 (reports_failure rfl folder)

theorem reports_walkFolders (t : FileTree) (skip : String → Bool) (top : Path) (reached : Bool)
    (folder : List String) (entries : List (String × Entry)) :
    ∀ walk ∈ t.walkFolders skip top reached folder entries, ∀ step ∈ walk.2, Reports step := by
  match entries with
  | [] => exact nofun
  | (n, e) :: rest =>
    rw [FileTree.walkFolders]
    have others := reports_walkFolders t skip top reached folder rest
    split
    · exact List.forall_mem_cons.2 ⟨reports_walkEntry t skip top reached _ e, others⟩
    · exact others

end

theorem reports_walk {t : FileTree} (h : t.isFolder p = .ok true) (skip : String → Bool) :
    ∀ step ∈ t.walk skip p, Reports step := by
  obtain ⟨place, e, hf, he⟩ := FileTree.exists_of_probe h
  rw [FileTree.walk, hf]
  simp only [he]
  exact reports_walkEntry t skip p true [] e

theorem report_of_firstBinary {steps : List FileTree.WalkStep}
    (hs : ∀ step ∈ steps, Reports step) (h : firstBinary top budget steps = .error e) :
    e.cause.report?.isSome = true := by
  induction steps generalizing budget with
  | nil =>
    unfold firstBinary at h
    cases h
  | cons step rest ih =>
    obtain ⟨here, others⟩ := List.forall_mem_cons.1 hs
    unfold firstBinary at h
    cases step with
    | failure folder cause =>
      cases h
      exact here _ _ rfl
    | name folder name =>
      dsimp only at h
      split at h
      · cases h
      split at h
      · cases h
      · exact ih others h

/-- What keeps native code from being looked for has a report, so that it becomes a warning. -/
theorem report_of_nativeSigns {t : FileTree} (h : nativeSigns t root m = .error e) :
    e.cause.report?.isSome = true := by
  rcases bind_error h with h | ⟨buildFile, _, h⟩
  · exact FileTree.report_of_probe h
  rcases bind_error h with h | ⟨binary, _, h⟩
  · rcases bind_error h with h | ⟨folder, hf, h⟩
    · exact FileTree.report_of_probe h
    cases folder with
    | true => exact report_of_firstBinary (reports_walk hf _) h
    | false => cases h
  · cases h

/-- The installed packages that chains of dependencies lead to, each with its manifest. -/
inductive Linked (t : FileTree) (repository : Path) : Path → Manifest → Path → Manifest → Prop
  | here : Linked t repository root m root m
  | step : name ∈ m.dependencyNames → dependencyRoot? t repository root name = .ok (some child) →
      Manifest.load t child = .ok (.ok childManifest) →
      Linked t repository child childManifest other n → Linked t repository root m other n

/-- It can be seen whether a dependency is installed in a folder. -/
def Seen (t : FileTree) (folder : Path) (name : String) : Prop :=
  ∀ place, Package.place folder name = .ok place → t.Answers (place.child Package.manifestName)

theorem seen_of_place {t : FileTree} (hp : Package.place folder name = .ok place)
    (h : t.Answers (place.child Package.manifestName)) : Seen t folder name := by
  intro other ho
  cases hp.symm.trans ho
  exact h

/-- Where a package looks for its dependencies, it can be seen whether they are there. -/
def Placed (t : FileTree) (repository root : Path) (m : Manifest) : Prop :=
  ∀ name ∈ m.dependencyNames, Seen t root name ∧
    (Package.installedIn? t root name = .ok none → Seen t repository name)

theorem installedIn?_returns {t : FileTree} (h : Seen t folder name) :
    Returns (Package.installedIn? t folder name) fun found => ∀ root, found = some root →
      t.isFile (root.child Package.manifestName) = .ok true := by
  rw [Package.installedIn?]
  split
  · exact returns_ok nofun
  · rename_i root hp
    refine (FileTree.probe_returns (h root hp) _).bind fun installed hi _ => ?_
    cases installed with
    | false => exact returns_pure nofun
    | true =>
      refine returns_pure ?_
      rintro _ ⟨⟩
      exact hi

theorem dependencyRoot?_returns {t : FileTree} (h : Placed t repository root m)
    (hn : name ∈ m.dependencyNames) :
    Returns (dependencyRoot? t repository root name) fun found => ∀ child, found = some child →
      t.isFile (child.child Package.manifestName) = .ok true := by
  obtain ⟨inside, outside⟩ := h name hn
  refine (installedIn?_returns inside).bind fun found hi hf => ?_
  cases found with
  | some child => exact returns_pure hf
  | none => exact installedIn?_returns (outside hi)

theorem writable_of_isFile {t : FileTree}
    (h : t.isFile (root.child Package.manifestName) = .ok true) : Manifest.Writable root := by
  obtain ⟨place, e, hf, _⟩ := FileTree.exists_of_probe h
  rw [FileTree.follow] at hf
  split at hf
  · cases hf
  · assumption

theorem dependencies_returns {t : FileTree} (h : Placed t repository root m) :
    Returns (dependencies t repository root m) fun children => ∀ child ∈ children,
      ∀ other n, Linked t repository child.1 child.2 other n →
        Linked t repository root m other n := by
  refine (returns_mapM (P := fun found => ∀ child, found = some child → ∀ other n,
    Linked t repository child.1 child.2 other n → Linked t repository root m other n)
    fun name hn => ?_).bind fun found _ hfound => returns_pure ?_
  · refine (dependencyRoot?_returns h hn).bind fun place hp hplace => ?_
    cases place with
    | none => exact returns_pure nofun
    | some child =>
      have writable := writable_of_isFile (hplace child rfl)
      refine (Manifest.load_returns writable).bind fun loaded hl _ => ?_
      cases loaded with
      | error problem => exact returns_pure nofun
      | ok manifest =>
        refine returns_pure ?_
        rintro _ ⟨⟩ other n linked
        exact .step hn hp hl linked
  · intro child hc
    obtain ⟨_, hm, rfl⟩ := List.mem_filterMap.1 hc
    exact hfound _ hm child rfl

theorem depthFrom_returns {t : FileTree} (budget : Nat) {root : Path} {m : Manifest}
    (h : ∀ other n, Linked t repository root m other n → Placed t repository other n)
    (known : Depths) (chain : List Path) :
    Returns (depthFrom t repository budget known chain root m) fun _ => True := by
  induction budget generalizing root m known chain with
  | zero =>
    unfold depthFrom
    split
    · exact returns_ok trivial
    · exact returns_ok trivial
  | succ budget ih =>
    unfold depthFrom
    split
    · exact returns_ok trivial
    dsimp only
    split
    · exact returns_ok trivial
    refine (dependencies_returns (h root m .here)).bind fun children _ hc => ?_
    refine (returns_foldlM (I := fun _ => True) (fun state child hm _ => ?_) trivial).bind
      fun _ _ _ => returns_pure trivial
    refine (ih (fun other n linked => h other n (hc child hm other n linked)) _ _).bind
      fun _ _ _ => returns_pure trivial

theorem depth_returns {t : FileTree}
    (h : ∀ other n, Linked t repository root m other n → Placed t repository other n) :
    Returns (depth t repository root m) fun _ => True :=
  (depthFrom_returns chainLimit h [] []).bind fun _ _ _ => returns_pure trivial

end Risk

end PackageUsage
