import PackageUsage.Proofs.ExactArithmetic
import PackageUsage.Proofs.TalliedReferences
import PackageUsage.Proofs.WarningKinds

namespace PackageUsage
set_option autoImplicit true

namespace Attempt

@[elab_as_elim]
theorem bind_cases {motive : Attempt β → Prop} {x : Attempt α} {f : α → Attempt β}
    (error : ∀ e, x = .error e → motive (.error e)) (ok : ∀ a, x = .ok a → motive (f a)) :
    motive (x >>= f) := by
  cases x with
  | error e => exact error e rfl
  | ok a => exact ok a rfl

@[elab_as_elim]
theorem file_bind_cases {motive : Attempt β → Prop} {x : Except FileError α} {f : α → Attempt β}
    (error : ∀ e, x = .error e → motive (.error (.file e)))
    (ok : ∀ a, x = .ok a → motive (f a)) : motive (file x >>= f) := by
  cases x with
  | error e => exact error e rfl
  | ok a => exact ok a rfl

end Attempt

namespace Advice

theorem mem_codes_unusedAdvice (package : String) (r : DependencyReport) :
    code ∈ (unusedAdvice package r).map (·.code) ↔
      (r.usedExports = 0 ∧ r.usedImports = []) ∧ code = "remove-unused-dependency" := by
  rw [unusedAdvice]
  simp only [List.isEmpty_iff]
  split
  · rename_i h
    rw [and_iff_right h]
    exact List.mem_singleton
  · rename_i h
    exact ⟨fun hm => (List.not_mem_nil hm).elim, fun hh => (h hh.1).elim⟩

theorem code_of_mem_subpathAdvice (h : code ∈ (subpathAdvice package r least).map (·.code)) :
    code = "prefer-subpath-imports" ∧ 0 < r.totalExports ∧ 0.0 < r.usedPercent := by
  rw [subpathAdvice] at h
  split at h
  · rename_i hc
    simp only [Bool.and_eq_true, decide_eq_true_eq] at hc
    exact ⟨List.mem_singleton.1 h, hc.1.1.1.1, hc.1.2⟩
  · cases h

theorem code_of_mem_wholeAdvice (h : code ∈ (wholeAdvice r).map (·.code)) :
    code = "avoid-wildcard-default-imports" := by
  rw [wholeAdvice] at h
  split at h
  · exact List.mem_singleton.1 h
  · cases h

theorem code_of_mem_replacementAdvice (h : code ∈ (replacementAdvice package r).map (·.code)) :
    code = "consider-replacement" := by
  rw [replacementAdvice] at h
  split at h
  · split at h
    · exact List.mem_singleton.1 h
    · cases h
  · cases h

theorem mem_codes_recommendations (package : String) (r : DependencyReport) (least : Amount) :
    code ∈ (recommendations package r least).map (·.code) ↔
      code ∈ (unusedAdvice package r).map (·.code) ∨
        code ∈ (subpathAdvice package r least).map (·.code) ∨
        code ∈ (wholeAdvice r).map (·.code) ∨
        code ∈ (replacementAdvice package r).map (·.code) := by
  rw [recommendations, ((List.mergeSort_perm _ _).map _).mem_iff, List.map_append, List.map_append,
    List.map_append, List.mem_append, List.mem_append, List.mem_append, or_assoc, or_assoc]

theorem remove_mem_codes (package : String) (r : DependencyReport) (least : Amount) :
    "remove-unused-dependency" ∈ (recommendations package r least).map (·.code) ↔
      r.usedExports = 0 ∧ r.usedImports = [] := by
  rw [mem_codes_recommendations, mem_codes_unusedAdvice, and_iff_left rfl]
  refine or_iff_left ?_
  rintro (h | h | h)
  · exact absurd (code_of_mem_subpathAdvice h).1 (by decide)
  · exact absurd (code_of_mem_wholeAdvice h) (by decide)
  · exact absurd (code_of_mem_replacementAdvice h) (by decide)

theorem subpath_mem_codes
    (h : "prefer-subpath-imports" ∈ (recommendations package r least).map (·.code)) :
    0 < r.totalExports ∧ 0.0 < r.usedPercent := by
  rw [mem_codes_recommendations, mem_codes_unusedAdvice] at h
  rcases h with h | h | h | h
  · exact absurd h.2 (by decide)
  · exact (code_of_mem_subpathAdvice h).2
  · exact absurd (code_of_mem_wholeAdvice h) (by decide)
  · exact absurd (code_of_mem_replacementAdvice h) (by decide)

end Advice

namespace Usage

theorem exports_eq_nil_iff (package : String) (facts : RepositoryFacts) :
    (ofFacts package facts).exports = [] ↔ (ofFacts package facts).usedImports = [] := by
  obtain ⟨u, warnings, listed, he⟩ := listed_ofFacts package facts
  rw [he]
  exact listed.noneUsed.trans ImportUse.sorted_eq_nil.symm

theorem noUsedExportsWarning_mem_ofFacts (package : String) (facts : RepositoryFacts) :
    noUsedExportsWarning package ∈ (ofFacts package facts).warnings ↔
      (ofFacts package facts).usedImports = [] := by
  rw [← exports_eq_nil_iff]
  obtain ⟨r, hr, he⟩ := ofFacts_eq package facts
  rw [he]
  dsimp only
  rw [(listed_run _).warnings, List.nil_append, noUsedExportsWarning_mem_iff hr, List.isEmpty_iff]

end Usage

namespace Analysis

theorem coverage_of_wildcard (u : Usage) (h : s.includesWildcard = true) :
    (coverage u s).2 = (0, 0.0) := by
  rw [coverage, Surface.total?, if_pos h]
  rfl

theorem coverage_of_names (u : Usage) (h : s.includesWildcard = false) (hn : s.names ≠ []) :
    let used : Int := (s.names.filter u.exports.contains).length
    let total : Int := s.names.length
    coverage u s = (used, total, Arithmetic.percent used total) := by
  have total : (s.names.length : Int) ≠ 0 :=
    Int.natCast_ne_zero.2 fun he => hn (List.length_eq_zero_iff.1 he)
  rw [coverage, Surface.total?, h]
  simp only [Bool.false_eq_true, ↓reduceIte, Option.getD_some, total, and_false]

theorem coverage_of_nothing (h : u.exports = []) (s : Surface) :
    (coverage u s).1 = 0 ∧ (coverage u s).2.2 = 0.0 := by
  have unused (names : List String) : names.filter u.exports.contains = [] :=
    List.filter_eq_nil_iff.2 fun name _ => by rw [h]; exact Bool.false_ne_true
  rw [coverage]
  dsimp only
  -- the figure that stands in where the surface is unknown is zero as well
  rw [unused, h]
  refine ⟨ite_self _, ?_⟩
  split
  · rfl
  · rename_i total
    exact Arithmetic.percent_zero
      (Int.lt_iff_le_and_ne.2 ⟨Int.natCast_nonneg _, Ne.symm total⟩)

theorem length_unusedExports (u : Usage) (package : String) (names : List String) :
    (names.filter u.exports.contains).length + (u.unusedExports package names).length =
      names.length := by
  have listed : (u.unusedExports package names).length =
      (names.filter fun n => !u.exports.contains n).length := by
    rw [Usage.unusedExports, List.length_map, Text.sort, List.length_mergeSort]
  rw [listed]
  exact (List.length_eq_length_filter_add _).symm

theorem used_add_unused (u : Usage) (package : String) (h : s.includesWildcard = false)
    (hn : s.names ≠ []) :
    (coverage u s).1 + (u.unusedExports package s.names).length = (coverage u s).2.1 := by
  rw [coverage_of_names u h hn, ← length_unusedExports u package s.names]
  rfl

theorem percent_coverage (u : Usage) (h : s.includesWildcard = false) (hn : s.names ≠ []) :
    (coverage u s).2.2 = Arithmetic.percent (coverage u s).1 (coverage u s).2.1 := by
  rw [coverage_of_names u h hn]

theorem percent_coverage_bounds (u : Usage) (h : s.includesWildcard = false)
    (hn : s.names ≠ []) :
    0 ≤ (Arithmetic.percent (coverage u s).1 (coverage u s).2.1 : Rat) ∧
      (Arithmetic.percent (coverage u s).1 (coverage u s).2.1 : Rat) ≤ 100 := by
  rw [coverage_of_names u h hn]
  exact Arithmetic.percent_bounds (Int.natCast_nonneg _)
    (Int.ofNat_le.2 (List.length_filter_le _ _)) (Int.natCast_pos.2 (List.length_pos_iff.2 hn))

/-- What a report tells of a package, with its warnings, agrees with the surface of the package and
with itself. -/
structure Consistent (package : String) (s : Surface) (r : DependencyReport)
    (warnings : List String) : Prop where
  /-- Every name of a surface that is known is either used or not. -/
  divided : s.includesWildcard = false → s.names ≠ [] →
    r.usedExports + r.unusedExports.length = r.totalExports
  /-- The percentage is that of the two figures, computed over doubles. -/
  share : s.includesWildcard = false → s.names ≠ [] →
    r.usedPercent = Arithmetic.percent r.usedExports r.totalExports
  /-- Over exact numbers the percentage of the two figures is between 0 and 100. -/
  bounded : s.includesWildcard = false → s.names ≠ [] →
    0 ≤ (Arithmetic.percent r.usedExports r.totalExports : Rat) ∧
      (Arithmetic.percent r.usedExports r.totalExports : Rat) ≤ 100
  unknown : s.includesWildcard = true → r.totalExports = 0 ∧ r.usedPercent = 0.0
  removable : "remove-unused-dependency" ∈ r.recommendations.map (·.code) ↔ r.usedImports = []
  warned : Usage.noUsedExportsWarning package ∈ warnings ↔ r.usedImports = []
  narrowed : "prefer-subpath-imports" ∈ r.recommendations.map (·.code) →
    "remove-unused-dependency" ∉ r.recommendations.map (·.code) ∧ s.includesWildcard = false

/-- How the report on a package ends early. -/
inductive Interrupted (a : Subject) (package : String) (root : Option Path) (planWanted : Bool) :
    Failure → Prop
  | surface (h : Surface.resolve a.files a.repository package root a.settings.profile = .error e) :
    Interrupted a package root planWanted (.file e)
  | risk (hs : Surface.resolve a.files a.repository package root a.settings.profile = .ok s)
    (h : Risk.cues a.files a.repository package s.dynamicImports root = .error e) :
    Interrupted a package root planWanted (.file e)
  /-- The number of symbols to list is not whole. -/
  | limit (h : a.settings.topSymbols.whole? = none) :
    Interrupted a package root planWanted .limitNotWhole
  | plan (hw : planWanted = true)
    (h : Narrowing.plan a.files a.repository package root a.facts = .error e) :
    Interrupted a package root planWanted (.file e)

/-- The report on a package from its parts, before there is advice. -/
def assembled (package : String) (u : Usage) (s : Surface) (topSymbols : List SymbolUsage)
    (riskCues : List RiskCue) : DependencyReport :=
  { name := package
    usedExports := (coverage u s).1
    totalExports := (coverage u s).2.1
    usedPercent := (coverage u s).2.2
    topSymbols
    usedImports := u.usedImports
    unusedImports := u.unusedImports
    unusedExports := u.unusedExports package s.names
    riskCues }

section

variable (package : String) (facts : RepositoryFacts) (s : Surface)
  (topSymbols : List SymbolUsage) (riskCues : List RiskCue) (least : Amount)

/-- Where no import is used, no export is, whatever the surface: one half of the rule decides. -/
theorem remove_mem_iff :
    let r := assembled package (Usage.ofFacts package facts) s topSymbols riskCues
    "remove-unused-dependency" ∈ (Advice.recommendations package r least).map (·.code) ↔
      r.usedImports = [] := by
  dsimp only
  rw [Advice.remove_mem_codes, and_iff_right_iff_imp]
  exact fun h => (coverage_of_nothing ((Usage.exports_eq_nil_iff package facts).2 h) s).1

theorem not_used_of_subpath
    (h : "prefer-subpath-imports" ∈ (Advice.recommendations package
      (assembled package (Usage.ofFacts package facts) s topSymbols riskCues) least).map (·.code)) :
    (Usage.ofFacts package facts).usedImports ≠ [] ∧ s.includesWildcard = false := by
  obtain ⟨known, positive⟩ := Advice.subpath_mem_codes h
  refine ⟨fun unused => ?_, Bool.eq_false_iff.2 fun hw => ?_⟩
  · have zero := (coverage_of_nothing ((Usage.exports_eq_nil_iff package facts).2 unused) s).2
    change 0.0 < (coverage (Usage.ofFacts package facts) s).2.2 at positive
    rw [zero] at positive
    exact absurd positive (by decide)
  · change 0 < (coverage (Usage.ofFacts package facts) s).2.1 at known
    rw [coverage_of_wildcard _ hw] at known
    exact absurd known (by decide)

theorem warned_iff (hs : Quiet s.warnings) (hr : Quiet riskWarnings) (hp : Quiet planWarnings) :
    Usage.noUsedExportsWarning package ∈
        s.warnings ++ (if s.includesWildcard then [wildcardSurfaceWarning] else []) ++
          (Usage.ofFacts package facts).warnings ++ riskWarnings ++ planWarnings ↔
      (Usage.ofFacts package facts).usedImports = [] := by
  have hw : Quiet (if s.includesWildcard then [wildcardSurfaceWarning] else []) := by
    split
    · exact quiet_singleton (apart_of_letters (by decide))
    · exact quiet_nil
  rw [List.mem_append, List.mem_append, List.mem_append, or_iff_left (hp.not_mem package),
    or_iff_left (hr.not_mem package), or_iff_right ((hs.append hw).not_mem package)]
  exact Usage.noUsedExportsWarning_mem_ofFacts package facts

theorem consistent_assembled (plan : Option NarrowingPlan) (hs : Quiet s.warnings)
    (hr : Quiet riskWarnings) (hp : Quiet planWarnings) :
    let u := Usage.ofFacts package facts
    let r := assembled package u s topSymbols riskCues
    Consistent package s
      { r with
        recommendations := Advice.recommendations package r least, narrowingPlan := plan }
      (s.warnings ++ (if s.includesWildcard then [wildcardSurfaceWarning] else []) ++ u.warnings ++
        riskWarnings ++ planWarnings) where
  divided := used_add_unused _ package
  share := percent_coverage _
  bounded := percent_coverage_bounds _
  unknown h := Prod.ext_iff.1 (coverage_of_wildcard _ h)
  removable := remove_mem_iff package facts s topSymbols riskCues least
  warned := warned_iff package facts s hs hr hp
  narrowed h := by
    obtain ⟨used, known⟩ := not_used_of_subpath package facts s topSymbols riskCues least h
    exact ⟨mt (remove_mem_iff package facts s topSymbols riskCues least).1 used, known⟩

end

theorem reportOn_eq (a : Subject) (package : String) (root : Option Path) (planWanted : Bool) :
    reportOn a package root planWanted = (do
      let s ← Attempt.file
        (Surface.resolve a.files a.repository package root a.settings.profile)
      let u := Usage.ofFacts package a.facts
      let risk ← Attempt.file
        (Risk.cues a.files a.repository package s.dynamicImports root)
      let topSymbols ← firstOfAmount a.settings.topSymbols u.ranked
      let r := assembled package u s topSymbols risk.1
      let plan ← narrowingPlan a package root planWanted
      pure ({ r with
              recommendations := Advice.recommendations package r a.settings.leastUsage
              narrowingPlan := plan.1 },
        s.warnings ++ (if s.includesWildcard then [wildcardSurfaceWarning] else []) ++
          u.warnings ++ risk.2 ++ plan.2)) := rfl

theorem interrupted_of_firstOfAmount {xs : List α}
    (h : firstOfAmount a.settings.topSymbols xs = .error f) :
    Interrupted a package root planWanted f := by
  rw [firstOfAmount] at h
  split at h
  · cases h
  · rename_i hn
    cases h
    exact .limit hn

theorem narrowingPlan_cases (a : Subject) (package : String) (root : Option Path) (wanted : Bool) :
    match narrowingPlan a package root wanted with
    | .ok (_, warnings) => Quiet warnings
    | .error f => Interrupted a package root wanted f := by
  cases wanted with
  | false => exact quiet_nil
  | true =>
    rw [narrowingPlan, if_pos rfl]
    cases hp : Narrowing.plan a.files a.repository package root a.facts with
    | error e => exact .plan rfl hp
    | ok r => exact Narrowing.quiet_plan _ _ _ _ _ r hp

/-- Every report on a package is consistent with the surface that was found of it, or else it ends
early and it is known where. -/
theorem reportOn_consistent (a : Subject) (package : String) (root : Option Path)
    (planWanted : Bool) :
    match reportOn a package root planWanted with
    | .ok (r, warnings) =>
      ∃ s, Surface.resolve a.files a.repository package root a.settings.profile = .ok s ∧
        Consistent package s r warnings
    | .error f => Interrupted a package root planWanted f := by
  rw [reportOn_eq]
  refine Attempt.file_bind_cases (fun e hs => .surface hs) fun s hs => ?_
  refine Attempt.file_bind_cases (fun e hr => .risk hs hr) fun risk hr => ?_
  refine Attempt.bind_cases (fun f hf => interrupted_of_firstOfAmount hf) fun topSymbols _ => ?_
  have planned := narrowingPlan_cases a package root planWanted
  refine Attempt.bind_cases (fun f hp => ?_) fun plan hp => ?_
  · rw [hp] at planned
    exact planned
  · rw [hp] at planned
    have told := Surface.quiet_resolve _ _ _ _ _ s hs
    have assessed := Risk.quiet_cues _ _ _ _ _ risk hr
    exact ⟨s, hs, consistent_assembled package a.facts s _ _ _ _ told assessed planned⟩

end Analysis

end PackageUsage
