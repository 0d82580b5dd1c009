import PackageUsage.Analysis.Basic
import PackageUsage.Proofs.DiscoveredRoots
import PackageUsage.Proofs.SummaryShare

namespace PackageUsage
set_option autoImplicit true
open Package (rootsSeen)

namespace DependencyReport

/-- A report without its removal score. -/
def unscored (r : DependencyReport) : DependencyReport := { r with removal := none }

theorem map_unscored_score (w : Weights Float) (rs : List DependencyReport) :
    (score w rs).map unscored = rs.map unscored := by
  unfold score Score.candidates
  generalize Score.mostImpact (rs.map figures) = most
  induction rs with
  | nil => rfl
  | cons r rs ih => exact congrArg (unscored r :: ·) ih

theorem rank_perm (rs : List DependencyReport) : (rank rs).Perm rs := Sorting.perm_sort _ _

end DependencyReport

theorem mem_of_mem_firstOf (h : x ∈ firstOf n xs) : x ∈ xs := by
  unfold firstOf at h
  split at h
  · exact List.mem_of_mem_take h
  · exact List.mem_of_mem_take h

theorem firstOf_of_length_le {n : Int} (h : xs.length ≤ n) : firstOf n xs = xs := by
  unfold firstOf
  rw [if_neg (by omega), List.take_of_length_le (by omega)]

namespace Analysis

theorem of_reportOn (h : reportOn a package root planWanted = .ok (r, warnings)) :
    r.name = package ∧ r.unscored = r := by
  rw [reportOn_eq] at h
  obtain ⟨s, _, h⟩ := bind_ok h
  obtain ⟨risk, _, h⟩ := bind_ok h
  obtain ⟨topSymbols, _, h⟩ := bind_ok h
  obtain ⟨plan, _, h⟩ := bind_ok h
  cases h
  exact ⟨rfl, rfl⟩

theorem eq_ok_of_mapError {x : Except ε α} {f : ε → ε'} (h : x.mapError f = .ok a) :
    x = .ok a := by
  cases x with
  | error e => cases h
  | ok b =>
    cases h
    rfl

theorem scored_of_ok {s : Settings} (h : s.shares = .ok w) (rs : List DependencyReport) :
    scored s rs = if rs.all (Score.isComputable ·.figures) then .ok (DependencyReport.score w rs)
      else .error .figureTooLarge := by
  unfold scored
  rw [h]
  cases rs with
  | nil => rfl
  | cons => rfl

theorem scored_of_error {s : Settings} (h : s.shares = .error e) (rs : List DependencyReport) :
    scored s rs = if rs.isEmpty then .ok [] else .error (.setting e) := by
  unfold scored
  rw [h]
  rfl

theorem scored_eq_ok (h : scored s rs = .ok ranked) : rs = [] ∧ ranked = [] ∨
    ∃ w, s.shares = .ok w ∧ (∀ r ∈ rs, Score.isComputable r.figures = true) ∧
      ranked = DependencyReport.score w rs := by
  cases hs : s.shares with
  | error e =>
    rw [scored_of_error hs] at h
    split at h
    · rename_i empty
      cases h
      exact .inl ⟨List.isEmpty_iff.1 empty, rfl⟩
    · cases h
  | ok w =>
    rw [scored_of_ok hs] at h
    split at h
    · rename_i computable
      cases h
      exact .inr ⟨w, rfl, List.all_eq_true.1 computable, rfl⟩
    · cases h

theorem map_unscored_scored (h : scored s rs = .ok ranked) :
    ranked.map (·.unscored) = rs.map (·.unscored) := by
  rcases scored_eq_ok h with ⟨rfl, rfl⟩ | ⟨w, _, _, rfl⟩
  · rfl
  · exact DependencyReport.map_unscored_score w rs

/-- Settings give weights to score a report by, and the figures of it can be computed with. -/
def Weighs (s : Settings) (r : DependencyReport) : Prop :=
  (∃ w, s.shares = .ok w) ∧ Score.isComputable r.figures = true

theorem scored_singleton (h : Weighs s r) :
    ∃ r', scored s [r] = .ok [r'] ∧ r'.unscored = r.unscored := by
  obtain ⟨⟨w, hw⟩, computable⟩ := h
  have all : [r].all (Score.isComputable ·.figures) = true := by
    rw [List.all_cons, computable]
    rfl
  rw [scored_of_ok hw, if_pos all]
  exact ⟨_, rfl, rfl⟩

/-- A report on a package as it is installed at a root, with any removal score. -/
def Reads (a : Subject) (planWanted : Bool) (root : Option Path) (r : DependencyReport) : Prop :=
  ∃ warnings, reportOn a r.name root planWanted = .ok (r.unscored, warnings)

theorem reads_of_reportOn (h : reportOn a package root planWanted = .ok (made, warnings))
    (same : r.unscored = made.unscored) : r.name = package ∧ Reads a planWanted root r := by
  obtain ⟨named, bare⟩ := of_reportOn h
  have name : r.name = package := (congrArg (·.name) same).trans named
  refine ⟨name, warnings, ?_⟩
  rw [name, h, same, bare]

/-- What the analysis of the most wasteful packages goes through. -/
structure Ranks (a : Subject) (q : Request) (i : Inventory) (ranked : List DependencyReport) :
    Prop where
  reads : ∀ r ∈ ranked, r.name ∈ i.names ∧ Reads a q.planWanted (i.root? r.name) r
  weighed : ∀ r ∈ ranked, Weighs a.settings r
  complete : i.names.length ≤ q.top → ∀ name ∈ i.names, ∃ r ∈ ranked, r.name = name

theorem exists_unscored (h : scored s rs = .ok ranked) (hr : r ∈ ranked) :
    ∃ made ∈ rs, r.unscored = made.unscored := by
  have found := List.mem_map_of_mem (f := DependencyReport.unscored) hr
  rw [map_unscored_scored h] at found
  obtain ⟨made, hm, same⟩ := List.mem_map.1 found
  exact ⟨made, hm, same.symm⟩

theorem weighs_of_scored (h : scored s rs = .ok ranked) (hr : r ∈ ranked) : Weighs s r := by
  obtain ⟨made, hm, same⟩ := exists_unscored h hr
  rcases scored_eq_ok h with ⟨rfl, rfl⟩ | ⟨w, hw, computable, _⟩
  · cases hr
  · have figures : r.unscored.figures = made.unscored.figures := congrArg (·.figures) same
    exact ⟨⟨w, hw⟩, figures ▸ computable made hm⟩

theorem exists_scored (h : scored s rs = .ok ranked) (hm : made ∈ rs) :
    ∃ r ∈ ranked, r.unscored = made.unscored := by
  have found := List.mem_map_of_mem (f := DependencyReport.unscored) hm
  rw [← map_unscored_scored h] at found
  exact List.mem_map.1 found

theorem ranks_of_mostWasteful (h : mostWasteful a q = .ok (ranked, warnings)) :
    ∃ i, Inventory.ofFacts a.files a.repository a.facts = .ok i ∧ Ranks a q i ranked := by
  obtain ⟨i, hi, h⟩ := bind_ok h
  obtain ⟨found, hf, h⟩ := bind_ok h
  obtain ⟨rs, hs, h⟩ := bind_ok h
  cases h
  have answers : List.Forall₂ (fun name made =>
      reportOn a name (i.root? name) q.planWanted = .ok made) i.names found := by
    rcases mapM_cases (fun name => reportOn a name (i.root? name) q.planWanted) i.names with
      ⟨made, he, answers⟩ | ⟨e, he, _⟩
    · cases hf.symm.trans he
      exact answers
    · cases hf.symm.trans he
  have mem_scored {r} (hr : r ∈ firstOf q.top (DependencyReport.rank rs)) : r ∈ rs :=
    (DependencyReport.rank_perm rs).mem_iff.1 (mem_of_mem_firstOf hr)
  have reads (r : DependencyReport) (hr : r ∈ firstOf q.top (DependencyReport.rank rs)) :
      r.name ∈ i.names ∧ Reads a q.planWanted (i.root? r.name) r := by
    obtain ⟨made, hm, same⟩ := exists_unscored hs (mem_scored hr)
    obtain ⟨⟨_, warnings⟩, hmade, rfl⟩ := List.mem_map.1 hm
    obtain ⟨name, listed, he⟩ := exists_left_of_forall₂ answers hmade
    obtain ⟨rfl, reads⟩ := reads_of_reportOn he same
    exact ⟨listed, reads⟩
  have weighed (r : DependencyReport) (hr : r ∈ firstOf q.top (DependencyReport.rank rs)) :
      Weighs a.settings r := weighs_of_scored hs (mem_scored hr)
  have complete (long : i.names.length ≤ q.top) (name : String) (listed : name ∈ i.names) :
      ∃ r ∈ firstOf q.top (DependencyReport.rank rs), r.name = name := by
    have lengths := congrArg List.length (map_unscored_scored hs)
    rw [List.length_map, List.length_map, List.length_map, ← answers.length_eq] at lengths
    rw [firstOf_of_length_le]
    · obtain ⟨⟨made, warnings⟩, hmade, he⟩ := exists_right_of_forall₂ answers listed
      obtain ⟨r, hr, same⟩ := exists_scored hs (List.mem_map_of_mem hmade)
      have placed := (DependencyReport.rank_perm rs).mem_iff.2 hr
      exact ⟨r, placed, (reads_of_reportOn he same).1⟩
    · rw [(DependencyReport.rank_perm rs).length_eq, lengths]
      exact long
  exact ⟨i, eq_ok_of_mapError hi, reads, weighed, complete⟩

theorem reads_of_single (h : single a q = .ok (rs, warnings)) (override : q.root = none) :
    ∃ roots r, rootsSeen a.files a.repository q.package a.facts = .ok roots ∧ rs = [r] ∧
      r.name = q.package ∧ Reads a q.planWanted roots.head? r := by
  obtain ⟨roots, hr, h⟩ := bind_ok h
  obtain ⟨⟨made, told⟩, hm, h⟩ := bind_ok h
  obtain ⟨scores, hs, h⟩ := bind_ok h
  cases h
  rw [override, Option.none_or] at hm
  have bare := map_unscored_scored hs
  obtain ⟨r, rfl⟩ : ∃ r, rs = [r] := by
    apply List.length_eq_one_iff.1
    simpa using congrArg List.length bare
  obtain ⟨named, reads⟩ := reads_of_reportOn hm (List.cons.inj bare).1
  exact ⟨roots, r, eq_ok_of_mapError hr, rfl, named, reads⟩

theorem single_of_reportOn (seen : rootsSeen a.files a.repository q.package a.facts = .ok roots)
    (hm : reportOn a q.package (q.root.or roots.head?) q.planWanted = .ok (made, told))
    (weighed : Weighs a.settings made) :
    ∃ r warnings, single a q = .ok ([r], warnings) ∧ r.unscored = made.unscored := by
  obtain ⟨r, hs, same⟩ := scored_singleton weighed
  unfold single
  rw [seen]
  change ∃ _ _, (reportOn a q.package (q.root.or roots.head?) q.planWanted >>= _) = _ ∧ _
  rw [hm]
  change ∃ _ _, (scored a.settings [made] >>= _) = _ ∧ _
  rw [hs]
  exact ⟨r, _, rfl, same⟩

/-- What is asked about one package where the most wasteful ones were asked for. -/
def Request.alone (q : Request) (package : String) : Request :=
  { q with package, root := none }

/-- The report on a package is the same, but for the removal score, if it is made alone. -/
def SameAlone (a : Subject) (q : Request) (r : DependencyReport) : Prop :=
  ∃ r' warnings, single a (q.alone r.name) = .ok ([r'], warnings) ∧ r'.unscored = r.unscored

/-- How a report made at the root that was found first compares with the report on the package
alone, which is made at the first of the roots seen. -/
structure Compares (a : Subject) (q : Request) (r : DependencyReport) (first : Path)
    (roots : List Path) : Prop where
  alone : ∀ rs warnings, single a (q.alone r.name) = .ok (rs, warnings) →
    ∃ r', rs = [r'] ∧ r'.name = r.name ∧ Reads a q.planWanted roots.head? r'
  same : roots.head? = some first → SameAlone a q r

theorem compares_of_ranks (h : Ranks a q i ranked) (hr : r ∈ ranked)
    (hf : i.root? r.name = some first)
    (seen : rootsSeen a.files a.repository r.name a.facts = .ok roots) :
    Compares a q r first roots := by
  have alone (rs : List DependencyReport) (warnings : List String)
      (returned : single a (q.alone r.name) = .ok (rs, warnings)) :
      ∃ r', rs = [r'] ∧ r'.name = r.name ∧ Reads a q.planWanted roots.head? r' := by
    obtain ⟨roots', r', seen', he, named, reads'⟩ := reads_of_single returned rfl
    cases seen.symm.trans seen'
    exact ⟨r', he, named, reads'⟩
  have same (head : roots.head? = some first) : SameAlone a q r := by
    have weighed : Weighs a.settings r.unscored := h.weighed r hr
    obtain ⟨told, hm⟩ := (h.reads r hr).2
    rw [hf, ← head] at hm
    have returned := single_of_reportOn (q := q.alone r.name) seen hm weighed
    exact returned
  exact { alone, same }

/-- The root that was found first is one of those seen, and the only one without a warning. -/
theorem exists_rootsSeen {a : Subject} (trimmed : Inventory.Trimmed a.facts)
    (answers : List.Forall₂ (fun r s => Inventory.sight a.files a.repository r = .ok s)
      (Inventory.requests a.facts) sightings)
    (tells : Inventory.Tells i sightings) (hroots : i.rootsOf name = first :: rest) :
    ∃ roots, rootsSeen a.files a.repository name a.facts = .ok roots ∧ first ∈ roots ∧
      (Inventory.severalRootsWarning name ∉ i.warnings → roots.head? = some first) := by
  have listed : name ∈ i.names := by
    rw [tells.mem_names, hroots]
    exact List.cons_ne_nil first rest
  have named := tells.named_of_mem_names answers listed
  obtain ⟨roots, seen, same⟩ := Inventory.rootsSeen_perm trimmed named answers tells
  rw [hroots] at same
  have once (quiet : Inventory.severalRootsWarning name ∉ i.warnings) :
      roots.head? = some first := by
    rw [tells.severalRootsWarning_mem, hroots, List.length_cons] at quiet
    have alone : rest = [] := List.length_eq_zero_iff.1 (by omega)
    rw [alone, List.perm_singleton] at same
    rw [same, List.head?_cons]
  exact ⟨roots, seen, same.mem_iff.2 List.mem_cons_self, once⟩

/-- Each of the most wasteful packages is reported on at the root of it that was found first, and
alone at the first of the roots seen. Where these are the same, it is reported on alone as well, and
both reports are the same but for the removal score. Without white space around specifiers, the root
found first is one of those seen, so that this is so without a warning of several roots. -/
theorem mostWasteful_compares_with_single (a : Subject) (q : Request)
    (h : mostWasteful a q = .ok (ranked, warnings)) :
    ∃ i, Inventory.ofFacts a.files a.repository a.facts = .ok i ∧
      (i.names.length ≤ q.top → ∀ name ∈ i.names, ∃ r ∈ ranked, r.name = name) ∧
      ∀ r ∈ ranked, r.name ∈ i.names ∧ ∃ first, i.root? r.name = some first ∧
        Reads a q.planWanted (some first) r ∧
        (∀ roots, rootsSeen a.files a.repository r.name a.facts = .ok roots →
          Compares a q r first roots) ∧
        (Inventory.Trimmed a.facts →
          (∃ roots, rootsSeen a.files a.repository r.name a.facts = .ok roots ∧ first ∈ roots) ∧
          (Inventory.severalRootsWarning r.name ∉ i.warnings → SameAlone a q r)) := by
  obtain ⟨i, hi, ranks⟩ := ranks_of_mostWasteful h
  refine ⟨i, hi, ranks.complete, ?_⟩
  intro r hr
  obtain ⟨listed, reads⟩ := ranks.reads r hr
  rcases Inventory.ofFacts_cases a.files a.repository a.facts with
    ⟨i', sightings, he, tells, answers⟩ | ⟨e, he, _⟩
  · cases hi.symm.trans he
    have installed := tells.mem_names.1 listed
    obtain ⟨first, rest, hroots⟩ := List.exists_cons_of_ne_nil installed
    have hf : i.root? r.name = some first := by
      rw [Inventory.root?_eq_head?, hroots, List.head?_cons]
    have compares (roots : List Path)
        (seen : rootsSeen a.files a.repository r.name a.facts = .ok roots) :
        Compares a q r first roots := compares_of_ranks ranks hr hf seen
    have agrees (trimmed : Inventory.Trimmed a.facts) :
        (∃ roots, rootsSeen a.files a.repository r.name a.facts = .ok roots ∧ first ∈ roots) ∧
          (Inventory.severalRootsWarning r.name ∉ i.warnings → SameAlone a q r) := by
      obtain ⟨roots, seen, found, once⟩ := exists_rootsSeen trimmed answers tells hroots
      exact ⟨⟨roots, seen, found⟩, fun quiet => (compares roots seen).same (once quiet)⟩
    exact ⟨listed, first, hf, hf ▸ reads, compares, agrees⟩
  · cases hi.symm.trans he

/-- A repository with a package installed twice: at the top, where it exports a name, and in a
folder, where it has a manifest only. -/
def twofold (facts : RepositoryFacts) : Subject where
  files := ⟨.folder [
    ("b", .folder [("node_modules", .folder [("pkg", .folder [("package.json",
      .file (.ofBytes (Text.Utf8.encode "\x7b\x7d")) true)] .full)] .full)] .full),
    ("node_modules", .folder [("pkg", packageOf exportingOne)] .full)] .full, []⟩
  repository := ⟨.root, []⟩
  settings := {}
  facts

theorem shares_default : ∃ w, ({} : Settings).shares = .ok w := by
  have sum : Settings.weightSum ⟨.real 0.5, .real 0.3, .real 0.2⟩ =
      .ok (.real (0.5 + 0.3 + 0.2)) := rfl
  unfold Settings.shares
  dsimp only
  rw [sum]
  dsimp only [bind, Except.bind, Amount.double?]
  split
  · exact ⟨_, rfl⟩
  · exact ⟨_, rfl⟩

theorem mostWasteful_of_one (hi : Inventory.ofFacts a.files a.repository a.facts = .ok i)
    (hn : i.names = [name]) (hm : reportOn a name (i.root? name) false = .ok (made, told))
    (weighed : Weighs a.settings made) :
    ∃ r warnings, mostWasteful a { top := 1 } = .ok ([r], warnings) ∧
      r.unscored = made.unscored := by
  obtain ⟨r, hs, same⟩ := scored_singleton weighed
  unfold mostWasteful
  rw [hi]
  change ∃ _ _, (i.names.mapM (fun name => reportOn a name (i.root? name) false) >>= _) = _ ∧ _
  rw [hn, List.mapM_cons, hm]
  change ∃ _ _, (scored a.settings [made] >>= _) = _ ∧ _
  rw [hs]
  exact ⟨r, _, rfl, same⟩

theorem inventory_of_installed {t : FileTree}
    (h : (Inventory.ofFacts t repository facts).toOption.map (·.installed) =
      some [(name, first :: rest)]) :
    ∃ i, Inventory.ofFacts t repository facts = .ok i ∧ i.names = [name] ∧
      i.root? name = some first ∧ i.installed = [(name, first :: rest)] := by
  obtain ⟨i, hi, installed⟩ := Option.map_eq_some_iff.1 h
  refine ⟨i, eq_ok_of_toOption hi, ?_, ?_, installed⟩
  · unfold Inventory.names
    rw [installed]
    exact List.mergeSort_singleton name
  · unfold Inventory.root?
    rw [installed, List.lookup_cons, beq_self_eq_true]
    rfl

/-- A report counts so many exports, and its figures can be computed with. -/
def Totals (made : Attempt (DependencyReport × List String)) (total : ℤ) : Prop :=
  made.toOption.map (fun m => (m.1.totalExports, Score.isComputable m.1.figures)) =
    some (total, true)

theorem Totals.exists_report (h : Totals made total) :
    ∃ r told, made = .ok (r, told) ∧ r.totalExports = total ∧
      Score.isComputable r.figures = true := by
  obtain ⟨⟨r, told⟩, hr, he⟩ := Option.map_eq_some_iff.1 h
  obtain ⟨figure, computable⟩ := Prod.mk.inj he
  exact ⟨r, told, eq_ok_of_toOption hr, figure, computable⟩

def importedAtTop : Subject := twofold { files := [Inventory.loading "a.js" "pkg"] }

/-- This package is imported at the top only, and both modes report the same on it. -/
theorem importedAtTop_reported_same : ∃ r warnings,
    mostWasteful importedAtTop { top := 1 } = .ok ([r], warnings) ∧ r.name = "pkg" ∧
      SameAlone importedAtTop { top := 1 } r := by
  obtain ⟨w, weighed⟩ := shares_default
  have known : (Inventory.ofFacts importedAtTop.files importedAtTop.repository
      importedAtTop.facts).toOption.map (·.installed) =
        some [("pkg", [⟨.root, ["node_modules", "pkg"]⟩])] := by decide +kernel
  obtain ⟨i, hi, names, root, installed⟩ := inventory_of_installed known
  have total : Totals (reportOn importedAtTop "pkg" (i.root? "pkg") false) 1 := by
    rw [root]
    unfold Totals
    decide +kernel
  obtain ⟨made, told, hm, _, computable⟩ := total.exists_report
  obtain ⟨r, warnings, hr, _⟩ := mostWasteful_of_one hi names hm ⟨⟨w, weighed⟩, computable⟩
  obtain ⟨i', hi', complete, compared⟩ :=
    mostWasteful_compares_with_single importedAtTop { top := 1 } hr
  cases hi.symm.trans hi'
  have listed : "pkg" ∈ i.names := by
    rw [names]
    exact List.mem_singleton_self _
  have one : (i.names.length : Int) ≤ 1 := by
    rw [names]
    decide
  have trimmed : Inventory.Trimmed importedAtTop.facts := by
    unfold Inventory.Trimmed
    decide +kernel
  have once : Inventory.severalRootsWarning r.name ∉ i.warnings := by
    rw [Inventory.mem_warnings, installed]
    rintro (⟨n, _, same⟩ | ⟨n, roots, hn, several, _⟩)
    · exact Inventory.missingWarning_ne _ _ same
    · cases List.mem_singleton.1 hn
      exact Nat.lt_irrefl 1 several
  obtain ⟨r', hr', named⟩ := complete one "pkg" listed
  cases List.mem_singleton.1 hr'
  obtain ⟨_, first, _, _, _, alike⟩ := compared r hr'
  exact ⟨r, warnings, hr, named, (alike trimmed).2 once⟩

/-- A package is listed, and the two modes report on it with more than the removal score
different. -/
def Differ (a : Subject) (name : String) : Prop :=
  ∃ i r warnings r' warnings', Inventory.ofFacts a.files a.repository a.facts = .ok i ∧
    name ∈ i.names ∧ mostWasteful a { top := 1 } = .ok ([r], warnings) ∧
    single a { package := name } = .ok ([r'], warnings') ∧ r.name = name ∧ r'.name = name ∧
    r'.unscored ≠ r.unscored

theorem differ_of_totals (weighed : a.settings.shares = .ok w)
    (known : (Inventory.ofFacts a.files a.repository a.facts).toOption.map (·.installed) =
      some [(name, first :: rest)])
    (seen : rootsSeen a.files a.repository name a.facts = .ok roots)
    (hf : Totals (reportOn a name (some first) false) total)
    (hs : Totals (reportOn a name roots.head? false) total')
    (apart : total' ≠ total) : Differ a name := by
  obtain ⟨i, hi, names, root, _⟩ := inventory_of_installed known
  rw [← root] at hf
  obtain ⟨made, told, hm, figure, computable⟩ := hf.exists_report
  obtain ⟨made', told', hm', figure', computable'⟩ := hs.exists_report
  obtain ⟨r, warnings, hr, same⟩ := mostWasteful_of_one hi names hm ⟨⟨w, weighed⟩, computable⟩
  obtain ⟨r', warnings', hr', same'⟩ :=
    single_of_reportOn (q := { package := name }) seen hm' ⟨⟨w, weighed⟩, computable'⟩
  refine ⟨i, r, warnings, r', warnings', hi, ?_, hr, hr', (reads_of_reportOn hm same).1,
    (reads_of_reportOn hm' same').1, ?_⟩
  · rw [names]
    exact List.mem_singleton_self _
  · rw [same, same']
    intro alike
    have figures : made'.totalExports = made.totalExports := congrArg (·.totalExports) alike
    exact apart (figure'.symm.trans (figures.trans figure))

theorem mergeSort_pair (le : α → α → Bool) (x y : α) :
    [x, y].mergeSort le = if le x y then [x, y] else [y, x] := by
  simp [List.mergeSort, List.MergeSort.Internal.splitInTwo, List.merge]

/-- The first in the order of paths is not the one found first, and white space keeps the single
mode from seeing any. -/
theorem modes_differ : Differ (twofold Inventory.nestedFacts) "pkg" ∧
    Differ (twofold { files := [Inventory.loading "b/c.js" " pkg"] }) "pkg" := by
  obtain ⟨w, weighed⟩ := shares_default
  let top : Path := ⟨.root, ["node_modules", "pkg"]⟩
  let inner : Path := ⟨.root, ["b", "node_modules", "pkg"]⟩
  constructor
  · let a := twofold Inventory.nestedFacts
    have visited : ((Inventory.importers a.facts "pkg").mapM fun f =>
        Package.seenFrom? a.files a.repository f.path "pkg").toOption =
          some [some top, some inner] := by decide +kernel
    have distinct : ([some top, some inner].filterMap id).eraseDups = [top, inner] := by
      decide +kernel
    have behind : Path.le top inner = false := by decide +kernel
    have seen := Inventory.rootsSeen_eq (eq_ok_of_toOption visited)
    rw [distinct, mergeSort_pair, behind] at seen
    have known : (Inventory.ofFacts a.files a.repository a.facts).toOption.map (·.installed) =
        some [("pkg", [top, inner])] := by decide +kernel
    have one : Totals (reportOn a "pkg" (some top) false) 1 := by
      unfold Totals
      decide +kernel
    have none : Totals (reportOn a "pkg" (some inner) false) 0 := by
      unfold Totals
      decide +kernel
    exact differ_of_totals weighed known seen one none (by decide)
  · let a := twofold { files := [Inventory.loading "b/c.js" " pkg"] }
    have visited : ((Inventory.importers a.facts "pkg").mapM fun f =>
        Package.seenFrom? a.files a.repository f.path "pkg").toOption = some [] := by
      decide +kernel
    have seen := Inventory.rootsSeen_eq (eq_ok_of_toOption visited)
    rw [List.filterMap_nil, List.eraseDups_nil, List.mergeSort_nil] at seen
    have known : (Inventory.ofFacts a.files a.repository a.facts).toOption.map (·.installed) =
        some [("pkg", [inner])] := by decide +kernel
    have none : Totals (reportOn a "pkg" (some inner) false) 0 := by
      unfold Totals
      decide +kernel
    have one : Totals (reportOn a "pkg" .none false) 1 := by
      unfold Totals
      decide +kernel
    exact differ_of_totals weighed known seen none one (by decide)

end Analysis

end PackageUsage
