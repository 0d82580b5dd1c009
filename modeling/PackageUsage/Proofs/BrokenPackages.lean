import Mathlib.Data.List.Induction
import PackageUsage.Proofs.ExportsProblems
import PackageUsage.Proofs.ReturningProbes
import PackageUsage.Proofs.WarningKinds

namespace PackageUsage
set_option autoImplicit true

/-- Where a package is looked for: at the root that is given, or else in the repository. -/
def Package.located (repository : Path) (name : String) : Option Path → Except Fault Path
  | some root => .ok root
  | none => Package.place repository name

/-- The file tree answers what is asked about the package at a root: where its entrypoints are, and
where the packages on the chains of its dependencies are. -/
structure Package.Answered (t : FileTree) (repository root : Path) (p : Profile) : Prop where
  writable : Manifest.Writable root
  entrypoints : ∀ m, Manifest.load t root = .ok (.ok m) → t.Settles root ∧
    ∀ entry ∈ (Surface.candidates m p).1, ∀ path,
      Entrypoint.Tried t root (Path.ofString entry) path → Entrypoint.Answered t root path
  chains : ∀ m, Manifest.load t root = .ok (.ok m) → ∀ other n,
    Risk.Linked t repository root m other n → Risk.Placed t repository other n

namespace Surface

/-- What can be wrong with an entrypoint file. -/
inductive FileProblem (t : FileTree) (path : Path) : String → Prop
  | unreadable : t.read path = .error e →
      FileProblem t path ("failed to read entrypoint: " ++ path.toString)
  | unparsable : t.read path = .ok source → source.parseAt path.name = .error reason →
      FileProblem t path ("failed to parse entrypoint: " ++ path.toString)

/-- What can be wrong with the entrypoints of a manifest, its exports map included. -/
inductive EntrypointProblem (t : FileTree) (p : Profile) (root : Path) (m : Manifest) :
    String → Prop
  | exports : ExportsProblem p m w → EntrypointProblem t p root m w
  | notFound : entry ∈ (candidates m p).1 →
      Entrypoint.resolve t root (entry : String) = .ok none →
      EntrypointProblem t p root m ("entrypoint not found: " ++ entry)
  | nothingFound : (∀ entry ∈ (candidates m p).1, Entrypoint.resolve t root entry = .ok none) →
      EntrypointProblem t p root m "no entrypoints resolved for dependency"
  | file : entry ∈ (candidates m p).1 → Entrypoint.resolve t root entry = .ok (some path) →
      FileProblem t path w → EntrypointProblem t p root m w

/-- What can be wrong with the package at a root. -/
inductive RootProblem (t : FileTree) (p : Profile) (root : Path) : String → Prop
  | unreadable : Manifest.load t root = .ok (.error .unreadable) →
      RootProblem t p root ("unable to read " ++ (Manifest.pathIn root).toString)
  | invalidJson : Manifest.load t root = .ok (.error .invalidJson) →
      RootProblem t p root "failed to parse dependency package.json"
  | entrypoint : Manifest.load t root = .ok (.ok m) → EntrypointProblem t p root m w →
      RootProblem t p root w

/-- What can be wrong when the surface of a package is looked for. -/
inductive Problem (t : FileTree) (repository : Path) (name : String) (root : Option Path)
    (profile : String) : String → Prop
  | profile : (Profile.select profile).2 = some w → Problem t repository name root profile w
  | name : Package.located repository name root = .error f →
      Problem t repository name root profile f.text
  | package : Package.located repository name root = .ok place →
      RootProblem t (Profile.select profile).1 place w → Problem t repository name root profile w

theorem mem_warnings_warn (s : Surface) :
    w ∈ (s.warn w').warnings ↔ w ∈ s.warnings ∨ w = w' := by
  rw [warn, List.mem_append, List.mem_singleton]

/-- A fold whose steps each warn of what is wrong with their element warns of what is wrong with
any. -/
theorem mem_warnings_foldl {f : Surface → α → Surface} {P : α → String → Prop}
    (step : ∀ s a w, w ∈ (f s a).warnings ↔ w ∈ s.warnings ∨ P a w) (s : Surface) (as : List α) :
    w ∈ (as.foldl f s).warnings ↔ w ∈ s.warnings ∨ ∃ a ∈ as, P a w := by
  induction as generalizing s with
  | nil => simp only [List.foldl_nil, List.not_mem_nil, false_and, exists_false, or_false]
  | cons a as ih =>
    rw [List.foldl_cons, ih, step, or_assoc]
    simp only [List.mem_cons, exists_eq_or_imp]

theorem mem_warnings_foldl_warn (s : Surface) (ws : List String) :
    w ∈ (ws.foldl warn s).warnings ↔ w ∈ s.warnings ∨ w ∈ ws := by
  have told : w ∈ (ws.foldl warn s).warnings ↔ w ∈ s.warnings ∨ ∃ w' ∈ ws, w = w' := by
    apply mem_warnings_foldl
    exact fun s _ _ => mem_warnings_warn s
  rwa [exists_eq_right'] at told

theorem mem_warnings_addFile (t : FileTree) (s : Surface) (path : Path) :
    w ∈ (addFile t s path).warnings ↔ w ∈ s.warnings ∨ FileProblem t path w := by
  unfold addFile
  cases hr : t.read path with
  | error e =>
    refine mem_warnings_warn _ |>.trans (or_congr_right ⟨?_, ?_⟩)
    · rintro rfl
      exact .unreadable hr
    · rintro (⟨_⟩ | ⟨hs, _⟩)
      · rfl
      · cases hr.symm.trans hs
  | ok source =>
    cases hp : source.parseAt path.name with
    | error reason =>
      simp only [hp]
      refine mem_warnings_warn _ |>.trans (or_congr_right ⟨?_, ?_⟩)
      · rintro rfl
        exact .unparsable hr hp
      · rintro (⟨he⟩ | ⟨_, _⟩)
        · cases hr.symm.trans he
        · rfl
    | ok parsed =>
      simp only [hp, warnings_addNames]
      refine (or_iff_left ?_).symm
      rintro (⟨he⟩ | ⟨hs, he⟩)
      · cases hr.symm.trans he
      · cases hr.symm.trans hs
        cases hp.symm.trans he

theorem mem_warnings_foldl_addFile (t : FileTree) (s : Surface) (files : List Path) :
    w ∈ (files.foldl (addFile t) s).warnings ↔
      w ∈ s.warnings ∨ ∃ path ∈ files, FileProblem t path w :=
  mem_warnings_foldl (fun s path _ => mem_warnings_addFile t s path) s files

theorem exists_mem_concat {P : α → Prop} {as : List α} :
    (∃ x ∈ as ++ [a], P x) ↔ (∃ x ∈ as, P x) ∨ P a := by
  simp only [List.mem_append, List.mem_singleton, or_and_right, exists_or, exists_eq_left]

theorem mem_insertLast {path : Path} {files : List Path} :
    path ∈ (if files.contains new then files else files ++ [new]) ↔ path ∈ files ∨ path = new := by
  split
  · rename_i h
    exact (or_iff_left_of_imp fun he => he ▸ List.contains_iff_mem.1 h).symm
  · rw [List.mem_append, List.mem_singleton]

theorem findFiles_concat (t : FileTree) (root : Path) (s : Surface) (entries : List String)
    (entry : String) :
    findFiles t root s (entries ++ [entry]) = (do
      let (s, files) ← findFiles t root s entries
      match ← Entrypoint.resolve t root entry with
      | none => pure (s.warn ("entrypoint not found: " ++ entry), files)
      | some path => pure (s, if files.contains path then files else files ++ [path])) := by
  rw [findFiles, List.foldlM_append]
  simp only [List.foldlM_cons, List.foldlM_nil, bind_pure]
  rfl

/-- The entrypoints that are not found are warned of, and the files of the others are found. -/
theorem findFiles_returns {t : FileTree} {root : Path} {entries : List String}
    (h : ∀ entry ∈ entries, Returns (Entrypoint.resolve t root entry) fun _ => True)
    (s : Surface) :
    Returns (findFiles t root s entries) fun r =>
      (∀ w, w ∈ r.1.warnings ↔ w ∈ s.warnings ∨ ∃ entry ∈ entries,
        Entrypoint.resolve t root entry = .ok none ∧ w = "entrypoint not found: " ++ entry) ∧
      ∀ path, path ∈ r.2 ↔
        ∃ entry ∈ entries, Entrypoint.resolve t root entry = .ok (some path) := by
  induction entries using List.reverseRecOn with
  | nil =>
    refine returns_ok ⟨fun w => ?_, fun path => ?_⟩
    · simp only [List.not_mem_nil, false_and, exists_false, or_false]
    · simp only [List.not_mem_nil, false_and, exists_false]
  | append_singleton entries entry ih =>
    rw [findFiles_concat]
    have before := ih fun e he => h e (List.mem_append_left _ he)
    refine before.bind fun r _ ⟨told, found⟩ => ?_
    refine (h entry (List.mem_append_right _ List.mem_cons_self)).bind fun o ho _ => ?_
    cases o with
    | none =>
      refine returns_pure ⟨fun w => ?_, fun path => ?_⟩
      · rw [mem_warnings_warn, told, exists_mem_concat, ho, or_assoc]
        simp only [true_and]
      · rw [found, exists_mem_concat, ho]
        simp only [Except.ok.injEq, reduceCtorEq, or_false]
    | some path =>
      refine returns_pure ⟨fun w => ?_, fun path' => ?_⟩
      · rw [told, exists_mem_concat, ho]
        simp only [Except.ok.injEq, reduceCtorEq, false_and, or_false]
      · rw [mem_insertLast, found, exists_mem_concat, ho, Except.ok.injEq, Option.some.injEq,
          eq_comm]

theorem entrypointProblem_of_found (hf : ∀ path, path ∈ files ↔ ∃ entry ∈ (candidates m p).1,
      Entrypoint.resolve t root entry = .ok (some path)) (hne : files ≠ []) :
    EntrypointProblem t p root m w ↔ (ExportsProblem p m w ∨ ∃ entry ∈ (candidates m p).1,
      Entrypoint.resolve t root entry = .ok none ∧ w = "entrypoint not found: " ++ entry) ∨
      ∃ path ∈ files, FileProblem t path w := by
  constructor
  · rintro (hw | ⟨he, hr⟩ | hall | ⟨he, hr, hp⟩)
    · exact .inl (.inl hw)
    · exact .inl (.inr ⟨_, he, hr, rfl⟩)
    · obtain ⟨path, hpath⟩ := List.exists_mem_of_ne_nil files hne
      obtain ⟨entry, he, hr⟩ := (hf path).1 hpath
      cases (hall entry he).symm.trans hr
    · exact .inr ⟨_, (hf _).2 ⟨_, he, hr⟩, hp⟩
  · rintro ((hw | ⟨entry, he, hr, rfl⟩) | ⟨path, hpath, hp⟩)
    · exact .exports hw
    · exact .notFound he hr
    · obtain ⟨entry, he, hr⟩ := (hf path).1 hpath
      exact .file he hr hp

theorem entrypointProblem_of_nothing
    (hall : ∀ entry ∈ (candidates m p).1, Entrypoint.resolve t root entry = .ok none) :
    EntrypointProblem t p root m w ↔ (ExportsProblem p m w ∨ ∃ entry ∈ (candidates m p).1,
      Entrypoint.resolve t root entry = .ok none ∧ w = "entrypoint not found: " ++ entry) ∨
      w = "no entrypoints resolved for dependency" := by
  constructor
  · rintro (hw | ⟨he, hr⟩ | _ | ⟨he, hr, _⟩)
    · exact .inl (.inl hw)
    · exact .inl (.inr ⟨_, he, hr, rfl⟩)
    · exact .inr rfl
    · cases (hall _ he).symm.trans hr
  · rintro ((hw | ⟨entry, he, hr, rfl⟩) | rfl)
    · exact .exports hw
    · exact .notFound he hr
    · exact .nothingFound hall

section
variable {t : FileTree} {p : Profile} {root : Path}

theorem rootProblem_of_load (hl : Manifest.load t root = .ok (.ok m)) :
    RootProblem t p root w ↔ EntrypointProblem t p root m w := by
  constructor
  · rintro (hu | hi | ⟨ho, he⟩)
    · cases hl.symm.trans hu
    · cases hl.symm.trans hi
    · cases hl.symm.trans ho
      exact he
  · exact .entrypoint hl

theorem rootProblem_of_unreadable (hl : Manifest.load t root = .ok (.error .unreadable)) :
    RootProblem t p root w ↔ w = "unable to read " ++ (Manifest.pathIn root).toString := by
  constructor
  · rintro (_ | hi | ⟨ho, _⟩)
    · rfl
    · cases hl.symm.trans hi
    · cases hl.symm.trans ho
  · rintro rfl
    exact .unreadable hl

theorem rootProblem_of_invalidJson (hl : Manifest.load t root = .ok (.error .invalidJson)) :
    RootProblem t p root w ↔ w = "failed to parse dependency package.json" := by
  constructor
  · rintro (hu | _ | ⟨ho, _⟩)
    · cases hl.symm.trans hu
    · rfl
    · cases hl.symm.trans ho
  · rintro rfl
    exact .invalidJson hl

end

theorem ofRoot_returns (h : Package.Answered t repository root p) (s : Surface) :
    Returns (ofRoot t s p root) fun s' =>
      ∀ w, w ∈ s'.warnings ↔ w ∈ s.warnings ∨ RootProblem t p root w := by
  refine (Manifest.load_returns h.writable).bind fun loaded hl _ => ?_
  cases loaded with
  | error problem =>
    cases problem with
    | unreadable =>
      refine returns_pure fun w => ?_
      rw [mem_warnings_warn, rootProblem_of_unreadable hl]
    | invalidJson =>
      refine returns_pure fun w => ?_
      rw [mem_warnings_warn, rootProblem_of_invalidJson hl]
  | ok m =>
    obtain ⟨settles, asked⟩ := h.entrypoints m hl
    have resolves : ∀ entry ∈ (candidates m p).1,
        Returns (Entrypoint.resolve t root entry) fun _ => True :=
      fun entry he => Entrypoint.resolveFrom_returns settles (asked entry he) _
    have found := findFiles_returns resolves ((candidates m p).2.foldl warn s)
    refine found.bind fun r _ ⟨told, found⟩ => ?_
    simp only [mem_warnings_foldl_warn, mem_warnings_candidates] at told
    simp only [rootProblem_of_load hl]
    split
    · rename_i empty
      have nothing := List.isEmpty_iff.1 empty
      refine returns_pure fun w => ?_
      rw [mem_warnings_warn, told, entrypointProblem_of_nothing, or_assoc, or_assoc, or_assoc]
      intro entry he
      obtain ⟨o, ho, _⟩ := resolves entry he
      cases o with
      | none => exact ho
      | some path =>
        have here := (found path).2 ⟨entry, he, ho⟩
        rw [nothing] at here
        cases here
    · rename_i nonempty
      refine returns_pure fun w => ?_
      rw [mem_warnings_foldl_addFile, told, entrypointProblem_of_found found, or_assoc, or_assoc,
        or_assoc]
      exact fun he => nonempty (List.isEmpty_iff.2 he)

theorem resolve_eq (t : FileTree) (repository : Path) (name : String) (root : Option Path)
    (profile : String) :
    let s : Surface := (Profile.select profile).2.toList.foldl warn {}
    resolve t repository name root profile = match Package.located repository name root with
      | .error f => .ok (s.warn f.text)
      | .ok place => ofRoot t s (Profile.select profile).1 place := by
  unfold resolve Package.located
  cases root with
  | none => cases Package.place repository name <;> rfl
  | some root => rfl

/-- The surface of a package is found, and its warnings are the problems there are. -/
theorem resolve_returns (t : FileTree) (repository : Path) (name : String) (root : Option Path)
    (profile : String) (h : ∀ place, Package.located repository name root = .ok place →
      Package.Answered t repository place (Profile.select profile).1) :
    Returns (resolve t repository name root profile) fun s =>
      ∀ w, w ∈ s.warnings ↔ Problem t repository name root profile w := by
  have start (w : String) : w ∈ (((Profile.select profile).2.toList.foldl warn {}).warnings) ↔
      (Profile.select profile).2 = some w := by
    rw [mem_warnings_foldl_warn, Option.mem_toList]
    exact or_iff_right List.not_mem_nil
  rw [resolve_eq]
  cases hp : Package.located repository name root with
  | error f =>
    refine returns_ok fun w => ?_
    rw [mem_warnings_warn, start]
    constructor
    · rintro (hw | rfl)
      · exact .profile hw
      · exact .name hp
    · rintro (hw | hf | ⟨ho, _⟩)
      · exact .inl hw
      · cases hp.symm.trans hf
        exact .inr rfl
      · cases hp.symm.trans ho
  | ok place =>
    refine (ofRoot_returns (h place hp) _).imp fun s told w => ?_
    rw [told, start]
    constructor
    · rintro (hw | hr)
      · exact .profile hw
      · exact .package hp hr
    · rintro (hw | hf | ⟨ho, hr⟩)
      · exact .inl hw
      · cases hp.symm.trans hf
      · cases hp.symm.trans ho
        exact .inr hr

end Surface

namespace Risk

/-- What can be wrong with the package at a root when its risk cues are looked for. -/
inductive RootProblem (t : FileTree) (package : String) (root : Path) : String → Prop
  | invalidJson : Manifest.load t root = .ok (.error .invalidJson) →
      RootProblem t package root
        ("failed to parse dependency metadata: " ++ (Manifest.pathIn root).toString)
  | unreadable : Manifest.load t root = .ok (.error .unreadable) →
      RootProblem t package root
        ("unable to read dependency metadata: " ++ (Manifest.pathIn root).toString)
  | native : metadata t root = .ok (m, ws) → nativeSigns t root m = .error e →
      RootProblem t package root
        ("native module scan failed for \"" ++ package ++ "\": " ++ e.text)

inductive Problem (t : FileTree) (repository : Path) (package : String) (root : Option Path) :
    String → Prop
  | name : Package.located repository package root = .error f →
      Problem t repository package root
        ("unable to assess risk cues for \"" ++ package ++ "\": " ++ f.text)
  | package : Package.located repository package root = .ok place →
      RootProblem t package place w → Problem t repository package root w

theorem rootProblem_iff {ws : List String} (hm : metadata t root = .ok (m, ws))
    (hws : ∀ w, w ∈ ws ↔
      (Manifest.load t root = .ok (.error .invalidJson) ∧
        w = "failed to parse dependency metadata: " ++ (Manifest.pathIn root).toString) ∨
      (Manifest.load t root = .ok (.error .unreadable) ∧
        w = "unable to read dependency metadata: " ++ (Manifest.pathIn root).toString)) :
    RootProblem t package root w ↔ w ∈ ws ∨ ∃ e, nativeSigns t root m = .error e ∧
      w = "native module scan failed for \"" ++ package ++ "\": " ++ e.text := by
  rw [hws]
  constructor
  · rintro (hl | hl | ⟨hm', hn⟩)
    · exact .inl (.inl ⟨hl, rfl⟩)
    · exact .inl (.inr ⟨hl, rfl⟩)
    · cases hm.symm.trans hm'
      exact .inr ⟨_, hn, rfl⟩
  · rintro ((⟨hl, rfl⟩ | ⟨hl, rfl⟩) | ⟨e, hn, rfl⟩)
    · exact .invalidJson hl
    · exact .unreadable hl
    · exact .native hm hn

theorem metadata_returns {t : FileTree} (h : Manifest.Writable root) (package : String) :
    Returns (metadata t root) fun r =>
      (Manifest.load t root = .ok (.ok r.1) ∨ r.1 = {}) ∧
      ∀ w, RootProblem t package root w ↔ w ∈ r.2 ∨ ∃ e, nativeSigns t root r.1 = .error e ∧
        w = "native module scan failed for \"" ++ package ++ "\": " ++ e.text := by
  obtain ⟨loaded, hl, _⟩ : Returns (Manifest.load t root) fun _ => True :=
    Manifest.load_returns h
  cases loaded with
  | ok m =>
    have hm : metadata t root = .ok (m, []) := by
      simp only [metadata, hl, bind, Except.bind, pure, Except.pure]
    refine ⟨_, hm, .inl hl, fun w => rootProblem_iff hm fun w => ?_⟩
    simp only [hl, Except.ok.injEq, reduceCtorEq, false_and, or_self, List.not_mem_nil]
  | error problem =>
    cases problem with
    | unreadable =>
      have hm : metadata t root = .ok ({}, ["unable to read dependency metadata: " ++
          (Manifest.pathIn root).toString]) := by
        simp only [metadata, hl, bind, Except.bind, pure, Except.pure]
      refine ⟨_, hm, .inr rfl, fun w => rootProblem_iff hm fun w => ?_⟩
      simp only [hl, Except.ok.injEq, Except.error.injEq, reduceCtorEq, false_and, true_and,
        false_or, List.mem_singleton]
    | invalidJson =>
      have hm : metadata t root = .ok ({}, ["failed to parse dependency metadata: " ++
          (Manifest.pathIn root).toString]) := by
        simp only [metadata, hl, bind, Except.bind, pure, Except.pure]
      refine ⟨_, hm, .inr rfl, fun w => rootProblem_iff hm fun w => ?_⟩
      simp only [hl, Except.ok.injEq, Except.error.injEq, reduceCtorEq, false_and, true_and,
        or_false, List.mem_singleton]

theorem placed_of_empty {t : FileTree} (h : Linked t repository root {} other n) :
    Placed t repository other n := by
  have none (name : String) : name ∉ ({} : Manifest).dependencyNames :=
    fun hn => List.not_mem_nil (Text.mem_sortUnique.1 hn)
  cases h with
  | here => exact fun name hn => (none name hn).elim
  | step hn _ _ _ => exact (none _ hn).elim

theorem cuesAt_returns (package : String) (dynamic : List DynamicImport)
    (h : Package.Answered t repository root p) :
    Returns (cuesAt t repository package dynamic root) fun r =>
      ∀ w, w ∈ r.2 ↔ RootProblem t package root w := by
  refine (metadata_returns h.writable package).bind fun (m, warnings) _ ⟨source, problems⟩ => ?_
  have linked : ∀ other n, Linked t repository root m other n → Placed t repository other n := by
    intro other n hlinked
    rcases source with hl | he
    · exact h.chains m hl other n hlinked
    · dsimp only at he
      subst he
      exact placed_of_empty hlinked
  -- however native code was looked for, the depth of dependencies comes after it
  have last (signs : List RiskCue × List String) :
      Returns (do
        let depth ← depth t repository root m
        let cues := loaderCue dynamic ++ signs.1 ++ depthCue depth
        pure (cues.mergeSort fun a b => Text.le a.code b.code, warnings ++ signs.2))
        fun r => r.2 = warnings ++ signs.2 :=
    (depth_returns linked).bind fun depth _ _ => returns_pure rfl
  simp only [problems]
  cases hn : nativeSigns t root m with
  | ok signs =>
    refine (last (nativeCue signs, [])).imp fun r hr w => ?_
    rw [hr, List.append_nil]
    exact (or_iff_left nofun).symm
  | error e =>
    have reported := report_of_nativeSigns hn
    simp only [reported, ↓reduceIte]
    refine (last ([], [_])).imp fun r hr w => ?_
    rw [hr]
    simp

theorem cues_eq (t : FileTree) (repository : Path) (package : String)
    (dynamic : List DynamicImport) (root : Option Path) :
    cues t repository package dynamic root = match Package.located repository package root with
      | .ok place => cuesAt t repository package dynamic place
      | .error f =>
        .ok ([], ["unable to assess risk cues for \"" ++ package ++ "\": " ++ f.text]) := by
  unfold cues Package.located
  cases root with
  | none => cases Package.place repository package <;> rfl
  | some root => rfl

theorem cues_returns (t : FileTree) (repository : Path) (package : String)
    (dynamic : List DynamicImport) (root : Option Path)
    (h : ∀ place, Package.located repository package root = .ok place →
      Package.Answered t repository place p) :
    Returns (cues t repository package dynamic root) fun r =>
      ∀ w, w ∈ r.2 ↔ Problem t repository package root w := by
  rw [cues_eq]
  cases hp : Package.located repository package root with
  | error f =>
    refine returns_ok fun w => ?_
    rw [List.mem_singleton]
    constructor
    · rintro rfl
      exact .name hp
    · rintro (hf | ⟨ho, _⟩)
      · cases hp.symm.trans hf
        rfl
      · cases hp.symm.trans ho
  | ok place =>
    refine (cuesAt_returns package dynamic (h place hp)).imp fun r told w => ?_
    rw [told]
    constructor
    · exact .package hp
    · rintro (hf | ⟨ho, hr⟩)
      · cases hp.symm.trans hf
      · cases hp.symm.trans ho
        exact hr

end Risk

theorem FileTree.settles_of_resolve {t : FileTree} (h : (t.resolve p).isOk = true) :
    t.Settles p := by
  intro e he
  rw [he] at h
  cases h

namespace Package

/-- If the file tree answers what is asked about a package, both its surface and its risk cues are
found, whatever is wrong with it. The warnings are the problems there are. -/
theorem surface_and_cues_return (t : FileTree) (repository : Path) (name : String)
    (root : Option Path) (profile : String) (dynamic : List DynamicImport)
    (h : ∀ place, located repository name root = .ok place →
      Answered t repository place (Profile.select profile).1) :
    (∃ s, Surface.resolve t repository name root profile = .ok s ∧
      ∀ w, w ∈ s.warnings ↔ Surface.Problem t repository name root profile w) ∧
    ∃ cues warnings, Risk.cues t repository name dynamic root = .ok (cues, warnings) ∧
      ∀ w, w ∈ warnings ↔ Risk.Problem t repository name root w := by
  refine ⟨Surface.resolve_returns t repository name root profile h, ?_⟩
  obtain ⟨⟨cues, warnings⟩, hc, told⟩ := Risk.cues_returns t repository name dynamic root h
  exact ⟨cues, warnings, hc, told⟩

/-- A repository with a package whose entrypoint is missing, and so is its dependency. -/
def incomplete : FileTree :=
  ⟨.folder [("node_modules", .folder [("p", .folder [("package.json", .file (.ofBytes
    (Text.Utf8.encode "\x7b\"main\": \"lib\", \"dependencies\": \x7b\"q\": \"1\"\x7d\x7d")) true)]
    .full)] .full)] .full, []⟩

theorem load_incomplete : ∃ m,
    Manifest.load incomplete ⟨.root, ["node_modules", "p"]⟩ = .ok (.ok m) ∧
      (Surface.candidates m (Profile.select "").1).1 = ["lib"] ∧ m.dependencyNames = ["q"] := by
  have read : ((Manifest.load incomplete ⟨.root, ["node_modules", "p"]⟩).toOption.bind
      (·.toOption)).map (fun m => ((Surface.candidates m (Profile.select "").1).1,
        m.dependencyNames)) = some (["lib"], ["q"]) := by
    decide +kernel
  obtain ⟨m, hm, given⟩ := Option.map_eq_some_iff.1 read
  obtain ⟨loaded, hloaded, hread⟩ := Option.bind_eq_some_iff.1 hm
  refine ⟨m, ?_, Prod.mk.inj given⟩
  rw [eq_ok_of_toOption hloaded, eq_ok_of_toOption hread]

theorem answered_incomplete :
    Answered incomplete ⟨.root, []⟩ ⟨.root, ["node_modules", "p"]⟩ (Profile.select "").1 := by
  obtain ⟨m, hl, entries, names⟩ := load_incomplete
  constructor
  · change FileTree.refusal? _ = none
    decide +kernel
  · intro m' hl'
    cases hl.symm.trans hl'
    refine ⟨FileTree.settles_of_resolve (by decide +kernel), fun entry he path tried => ?_⟩
    rw [entries] at he
    cases List.mem_singleton.1 he
    cases tried with
    | here =>
      constructor
      · exact FileTree.settles_of_resolve (by decide +kernel)
      · intro _
        decide +kernel
      · intro _ _ _
        apply Entrypoint.probes_of_forall
        decide +kernel
    | index _ hf _ => exact absurd hf (by decide +kernel)
  · intro m' hl' other n linked
    cases hl.symm.trans hl'
    cases linked with
    | here =>
      intro name hn
      rw [names] at hn
      cases List.mem_singleton.1 hn
      have inside : place ⟨.root, ["node_modules", "p"]⟩ "q" =
          .ok ⟨.root, ["node_modules", "p", "node_modules", "q"]⟩ := by decide +kernel
      have outside : place ⟨.root, []⟩ "q" = .ok ⟨.root, ["node_modules", "q"]⟩ := by
        decide +kernel
      refine ⟨Risk.seen_of_place inside ?_, fun _ => Risk.seen_of_place outside ?_⟩
      · decide +kernel
      · decide +kernel
    | step hn hd _ _ =>
      rw [names] at hn
      cases List.mem_singleton.1 hn
      have missing : Risk.dependencyRoot? incomplete ⟨.root, []⟩ ⟨.root, ["node_modules", "p"]⟩
          "q" = .ok none := by decide +kernel
      cases missing.symm.trans hd

/-- The surface and the risk cues of this package are found, with a warning of the entrypoint. -/
theorem surface_and_cues_of_incomplete :
    (∃ s, Surface.resolve incomplete ⟨.root, []⟩ "p" none "" = .ok s ∧
      "entrypoint not found: " ++ "lib" ∈ s.warnings) ∧
    ∃ r, Risk.cues incomplete ⟨.root, []⟩ "p" [] none = .ok r := by
  have stands : located ⟨.root, []⟩ "p" none = .ok ⟨.root, ["node_modules", "p"]⟩ := by
    decide +kernel
  obtain ⟨m, hl, entries, _⟩ := load_incomplete
  obtain ⟨⟨s, hs, told⟩, cues, warnings, hc, _⟩ :=
    surface_and_cues_return incomplete ⟨.root, []⟩ "p" none "" [] fun place hp => by
      cases stands.symm.trans hp
      exact answered_incomplete
  constructor
  · refine ⟨s, hs, (told _).2 (.package stands (.entrypoint hl (.notFound ?_ ?_)))⟩
    · rw [entries]
      exact List.mem_cons_self
    · decide +kernel
  · exact ⟨_, hc⟩

/-- The entrypoint of the package is a link to itself, and the error of that is not caught. -/
theorem surface_of_link_loop :
    let t : FileTree := ⟨.folder [("node_modules", .folder [("p", .folder [("package.json",
      .file (.ofBytes (Text.Utf8.encode "\x7b\"main\": \"l\"\x7d")) true), ("l", .link "l")] .full)]
      .full)] .full, []⟩
    ¬ ∃ s, Surface.resolve t ⟨.root, []⟩ "p" none "" = .ok s := by
  intro t
  have fails : (Surface.resolve t ⟨.root, []⟩ "p" none "").isOk = false := by decide +kernel
  rintro ⟨s, hs⟩
  rw [hs] at fails
  cases fails

end Package

end PackageUsage
