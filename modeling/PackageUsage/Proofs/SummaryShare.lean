import Mathlib.Algebra.Order.BigOperators.Group.List
import Mathlib.Algebra.Order.Group.Int
import PackageUsage.Analysis.Basic
import PackageUsage.Proofs.ReportConsistency

namespace PackageUsage
set_option autoImplicit true

namespace Analysis

/-- A report that was made of some package. A removal score may have been attached to it. -/
def Assembled (a : Subject) (r : DependencyReport) : Prop :=
  ∃ package root planWanted made warnings removal,
    reportOn a package root planWanted = .ok (made, warnings) ∧ r = { made with removal }

/-- How many exports are used of the packages whose exports are not known. -/
def usedOfUnknown (rs : List DependencyReport) : Int :=
  ((rs.filter (·.totalExports = 0)).map (·.usedExports)).sum

/-- How many exports the other packages leave unused. -/
def unusedOfKnown (rs : List DependencyReport) : Int :=
  ((rs.filter (·.totalExports ≠ 0)).map fun r => (r.unusedExports.length : Int)).sum

/-- Either the exports of a package are not known, or each of them is used or not. -/
structure Balanced (r : DependencyReport) : Prop where
  nonneg : 0 ≤ r.usedExports
  divided : r.totalExports = 0 ∨
    0 < r.totalExports ∧ r.usedExports + r.unusedExports.length = r.totalExports

theorem coverage_used_nonneg (u : Usage) (s : Surface) : 0 ≤ (coverage u s).1 := by
  rw [coverage]
  dsimp only
  split
  · exact Int.natCast_nonneg _
  · exact Int.natCast_nonneg _

theorem coverage_total_of_no_names (u : Usage) (h : s.names = []) : (coverage u s).2.1 = 0 := by
  rw [coverage, Surface.total?, h]
  cases s.includesWildcard with
  | true => rfl
  | false => rfl

theorem balanced_assembled (package : String) (u : Usage) (s : Surface)
    (topSymbols : List SymbolUsage) (riskCues : List RiskCue) :
    Balanced (assembled package u s topSymbols riskCues) where
  nonneg := coverage_used_nonneg u s
  divided := by
    by_cases hn : s.names = []
    · exact .inl (coverage_total_of_no_names u hn)
    cases hw : s.includesWildcard with
    | true => exact .inl (congrArg Prod.fst (coverage_of_wildcard u hw))
    | false =>
      refine .inr ⟨?_, used_add_unused u package hw hn⟩
      change 0 < (coverage u s).2.1
      rw [coverage_of_names u hw hn]
      exact Int.natCast_pos.2 (List.length_pos_iff.2 hn)

theorem balanced_reportOn (a : Subject) (package : String) (root : Option Path)
    (planWanted : Bool) :
    Yields (reportOn a package root planWanted) fun r => Balanced r.1 := by
  rw [reportOn_eq]
  refine (yields_any _).bind fun s _ => ?_
  refine (yields_any _).bind fun risk _ => ?_
  refine (yields_any _).bind fun topSymbols _ => ?_
  refine (yields_any _).bind fun plan _ => ?_
  obtain ⟨nonneg, divided⟩ :=
    balanced_assembled package (Usage.ofFacts package a.facts) s topSymbols risk.1
  exact yields_pure ⟨nonneg, divided⟩

theorem Assembled.balanced (h : Assembled a r) : Balanced r := by
  obtain ⟨package, root, planWanted, made, warnings, removal, hm, rfl⟩ := h
  obtain ⟨nonneg, divided⟩ := balanced_reportOn a package root planWanted _ hm
  exact ⟨nonneg, divided⟩

section

variable {rs : List DependencyReport}

theorem sum_map_filter_cons {α : Type} (p : α → Bool) (f : α → Int) (a : α) (as : List α) :
    (((a :: as).filter p).map f).sum = (if p a then f a else 0) + ((as.filter p).map f).sum := by
  rw [List.filter_cons]
  split
  · rfl
  · exact (Int.zero_add _).symm

theorem usedOfUnknown_cons (r : DependencyReport) (rs : List DependencyReport) :
    usedOfUnknown (r :: rs) =
      (if r.totalExports = 0 then r.usedExports else 0) + usedOfUnknown rs := by
  simpa only [usedOfUnknown, decide_eq_true_eq] using
    sum_map_filter_cons (·.totalExports = 0) (·.usedExports) r rs

theorem unusedOfKnown_cons (r : DependencyReport) (rs : List DependencyReport) :
    unusedOfKnown (r :: rs) =
      (if r.totalExports ≠ 0 then (r.unusedExports.length : Int) else 0) + unusedOfKnown rs := by
  simpa only [unusedOfKnown, decide_eq_true_eq] using
    sum_map_filter_cons (·.totalExports ≠ 0) (fun r => (r.unusedExports.length : Int)) r rs

theorem unusedOfKnown_nonneg (rs : List DependencyReport) : 0 ≤ unusedOfKnown rs := by
  refine List.sum_nonneg fun n hn => ?_
  obtain ⟨r, _, rfl⟩ := List.mem_map.1 hn
  exact Int.natCast_nonneg _

theorem usedOfUnknown_eq_zero (h : ∀ r ∈ rs, r.totalExports = 0 → r.usedExports = 0) :
    usedOfUnknown rs = 0 := by
  refine List.sum_eq_zero fun n hn => ?_
  obtain ⟨r, hr, rfl⟩ := List.mem_map.1 hn
  obtain ⟨hr, unknown⟩ := List.mem_filter.1 hr
  exact h r hr (of_decide_eq_true unknown)

theorem sum_used_nonneg (h : ∀ r ∈ rs, Balanced r) :
    0 ≤ Figures.sum (·.usedExports) (rs.map (·.figures)) := by
  induction rs with
  | nil => exact Int.le_refl 0
  | cons r rs ih =>
    obtain ⟨hr, hrs⟩ := List.forall_mem_cons.1 h
    exact Int.add_nonneg hr.nonneg (ih hrs)

/-- What is used and what is left unused makes up what there is and what is used besides. -/
theorem sum_balanced (h : ∀ r ∈ rs, Balanced r) :
    Figures.sum (·.usedExports) (rs.map (·.figures)) + unusedOfKnown rs =
      Figures.sum (·.totalExports) (rs.map (·.figures)) + usedOfUnknown rs := by
  induction rs with
  | nil => rfl
  | cons r rs ih =>
    obtain ⟨hr, hrs⟩ := List.forall_mem_cons.1 h
    have rest := ih hrs
    rw [usedOfUnknown_cons, unusedOfKnown_cons]
    change r.usedExports + Figures.sum _ _ + _ = r.totalExports + Figures.sum _ _ + _
    rcases hr.divided with unknown | ⟨known, divided⟩
    · rw [if_pos unknown, if_neg (not_not_intro unknown)]
      omega
    · rw [if_neg (Int.ne_of_gt known), if_pos (Int.ne_of_gt known)]
      omega

/-- The share of all packages together is at most the whole if and only if no more is used of
packages whose exports are not known than the others leave unused. -/
theorem summary_share_le_iff (a : Subject) (h : ∀ r ∈ rs, Assembled a r)
    (hs : Summary.ofFigures (rs.map (·.figures)) = some s) (ht : 0 < s.totalExports) :
    let exact : Rat := Arithmetic.percent s.usedExports s.totalExports
    s.usedPercent = Arithmetic.percent s.usedExports s.totalExports ∧ 0 ≤ exact ∧
      (exact ≤ 100 ↔ s.usedExports ≤ s.totalExports) ∧
      (s.usedExports ≤ s.totalExports ↔ usedOfUnknown rs ≤ unusedOfKnown rs) ∧
      ((∀ r ∈ rs, r.totalExports = 0 → r.usedExports = 0) → s.usedExports ≤ s.totalExports) := by
  have balanced : ∀ r ∈ rs, Balanced r := fun r hr => (h r hr).balanced
  have sums := sum_balanced balanced
  have nonneg := sum_used_nonneg balanced
  rw [Summary.ofFigures] at hs
  split at hs
  · cases hs
  cases hs
  dsimp only at ht ⊢
  refine ⟨if_pos ht, Arithmetic.percent_nonneg nonneg ht, Arithmetic.percent_le_iff ht, ?_, ?_⟩
  · omega
  · intro unknown
    have zero := usedOfUnknown_eq_zero unknown
    have rest := unusedOfKnown_nonneg rs
    omega

end

/-- `exports.a = 1;` -/
def exportingOne : SourceFile where
  bytes := "exports.a = 1;\n".toUTF8
  parse := .tree ⟨"program", true, none, 0, 15, [
    ⟨"expression_statement", true, none, 0, 14, [
      ⟨"assignment_expression", true, none, 0, 13, [
        ⟨"member_expression", true, some "left", 0, 9, [
          ⟨"identifier", true, some "object", 0, 7, []⟩,
          ⟨".", false, none, 7, 8, []⟩,
          ⟨"property_identifier", true, some "property", 8, 9, []⟩]⟩,
        ⟨"=", false, none, 10, 11, []⟩,
        ⟨"number", true, some "right", 12, 13, []⟩]⟩,
      ⟨";", false, none, 13, 14, []⟩]⟩]⟩ false

/-- `export * from "./o";` -/
def passingOn : SourceFile where
  bytes := "export * from \"./o\";\n".toUTF8
  parse := .tree ⟨"program", true, none, 0, 21, [
    ⟨"export_statement", true, none, 0, 20, [
      ⟨"export", false, none, 0, 6, []⟩,
      ⟨"*", false, none, 7, 8, []⟩,
      ⟨"from", false, none, 9, 13, []⟩,
      ⟨"string", true, some "source", 14, 19, [
        ⟨"\"", false, none, 14, 15, []⟩,
        ⟨"string_fragment", true, none, 15, 18, []⟩,
        ⟨"\"", false, none, 18, 19, []⟩]⟩,
      ⟨";", false, none, 19, 20, []⟩]⟩]⟩ false

/-- A package with one entrypoint. -/
def packageOf (entrypoint : SourceFile) : Entry :=
  .folder [("package.json", .file (.ofBytes "\x7b\"main\":\"lib/index.js\"\x7d".toUTF8) true),
    ("lib", .folder [("index.js", .file entrypoint true)] .full)] .full

/-- A repository that uses some names of a package whose exports are known and some of one whose
exports are not. -/
def mixedSubject (known unknown : List String) : Subject where
  files := ⟨.folder [("node_modules", .folder [("p", packageOf passingOn),
    ("q", packageOf exportingOne)] .full)] .full, []⟩
  repository := ⟨.root, []⟩
  settings := {}
  facts := { files := [
    { path := "a.js"
      imports := known.map (fun n => ⟨"q", n, n, .named, ⟨"a.js", 1, 1⟩⟩) ++
        unknown.map (fun n => ⟨"p", n, n, .named, ⟨"a.js", 2, 1⟩⟩)
      reads := (known ++ unknown).map (·, 1) }] }

/-- The reports on the two packages. -/
def mixedReports (a : Subject) : List DependencyReport :=
  ["p", "q"].filterMap fun name => (reportOn a name none false).toOption.map (·.1)

theorem assembled_mixedReports (a : Subject) : ∀ r ∈ mixedReports a, Assembled a r := by
  intro r hr
  obtain ⟨name, _, he⟩ := List.mem_filterMap.1 hr
  cases hm : reportOn a name none false with
  | error f =>
    rw [hm] at he
    cases he
  | ok made =>
    rw [hm] at he
    cases he
    exact ⟨name, none, false, made.1, made.2, made.1.removal, hm, rfl⟩

/-- Only the package whose exports are known is used. -/
theorem summary_share_of_known_package :
    let rs := mixedReports (mixedSubject ["a"] [])
    ∃ s, Summary.ofFigures (rs.map (·.figures)) = some s ∧ 0 < s.totalExports ∧
      s.usedExports = 1 ∧ (Arithmetic.percent s.usedExports s.totalExports : Rat) ≤ 100 := by
  intro rs
  have evaluated : (Summary.ofFigures (rs.map (·.figures))).map
      (fun s => (s.usedExports, s.totalExports)) = some (1, 1) ∧
      ∀ r ∈ rs, r.totalExports = 0 → r.usedExports = 0 := by decide +kernel
  obtain ⟨figures, unknown⟩ := evaluated
  obtain ⟨s, hs, he⟩ := Option.map_eq_some_iff.1 figures
  obtain ⟨used, total⟩ := Prod.mk.injEq .. ▸ he
  have some_known : 0 < s.totalExports := total ▸ Int.one_pos
  obtain ⟨_, _, bounded, _, within⟩ :=
    summary_share_le_iff _ (assembled_mixedReports _) hs some_known
  exact ⟨s, hs, some_known, used, bounded.2 (within unknown)⟩

/-- Two names are used of a package that passes on whatever another module exports, and none of one
that exports a name. -/
theorem summary_share_of_unknown_package :
    let rs := mixedReports (mixedSubject [] ["f", "g"])
    (∀ r ∈ rs, Assembled (mixedSubject [] ["f", "g"]) r) ∧
      ∃ s, Summary.ofFigures (rs.map (·.figures)) = some s ∧ 0 < s.totalExports ∧
        s.totalExports < s.usedExports ∧
        100 < (Arithmetic.percent s.usedExports s.totalExports : Rat) := by
  intro rs
  refine ⟨assembled_mixedReports _, ?_⟩
  have figures : (Summary.ofFigures (rs.map (·.figures))).map
      (fun s => (s.usedExports, s.totalExports)) = some (2, 1) := by decide +kernel
  obtain ⟨s, hs, he⟩ := Option.map_eq_some_iff.1 figures
  obtain ⟨used, total⟩ := Prod.mk.injEq .. ▸ he
  refine ⟨s, hs, total ▸ Int.one_pos, ?_, ?_⟩
  · rw [used, total]
    decide
  · rw [used, total, ← Rat.not_le, Arithmetic.percent_le_iff Int.one_pos]
    decide

end Analysis

end PackageUsage
