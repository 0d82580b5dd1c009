import PackageUsage.Proofs.GroupedImports
import PackageUsage.Proofs.NarrowedLines
import PackageUsage.Proofs.ReturningProbes
import PackageUsage.Narrowing.Plan

namespace PackageUsage
set_option autoImplicit true

/-- An order by file and line, and by two texts where these are the same. -/
def ByPlace (file : α → String) (line : α → Int) (f g : α → String) : α → α → Prop :=
  Text.By file fun a b => line a < line b ∨ line a = line b ∧
    Text.By f (fun a b => Text.le (g a) (g b)) a b

section
variable {file f g : α → String} {line : α → Int}

theorem ByPlace.total (a b : α) : ByPlace file line f g a b ∨ ByPlace file line f g b a := by
  apply Text.By.total
  intro a b
  rcases Int.lt_trichotomy (line a) (line b) with h | h | h
  · exact .inl (.inl h)
  · have texts := Text.By.total (f := f) (r := fun a b => Text.le (g a) (g b))
      (fun a b => Bool.or_eq_true_iff.1 (Text.le_total (g a) (g b))) a b
    exact texts.imp (.inr ⟨h, ·⟩) (.inr ⟨h.symm, ·⟩)
  · exact .inr (.inl h)

theorem ByPlace.trans (h : ByPlace file line f g a b) (k : ByPlace file line f g b c) :
    ByPlace file line f g a c := by
  apply Text.By.trans ?_ h k
  intro h k
  rcases h with h | ⟨he, h⟩
  · rcases k with k | ⟨ke, _⟩
    · exact .inl (Int.lt_trans h k)
    · exact .inl (ke ▸ h)
  · rcases k with k | ⟨ke, k⟩
    · exact .inl (he ▸ k)
    · exact .inr ⟨he.trans ke, Text.By.trans Text.le_trans h k⟩

theorem Text.by_iff {r : α → α → Prop} :
    By f r a b ↔ if f a ≠ f b then le (f a) (f b) = true else r a b := by
  split
  · rename_i differ
    constructor
    · intro h
      exact h.elim le_of_lt fun he => (differ he.1).elim
    · intro h
      exact .inl (lt_of_le_of_ne h differ)
  · rename_i same
    rw [not_not] at same
    constructor
    · intro h
      exact h.elim (fun hl => (ne_of_lt hl same).elim) And.right
    · intro h
      exact .inr ⟨same, h⟩

theorem byPlace_iff : (if file a ≠ file b then Text.le (file a) (file b)
    else if line a ≠ line b then decide (line a ≤ line b)
    else if f a ≠ f b then Text.le (f a) (f b)
    else Text.le (g a) (g b)) = true ↔ ByPlace file line f g a b := by
  unfold ByPlace
  rw [Text.by_iff, Text.by_iff]
  split
  · rfl
  split
  · rename_i differ
    rw [decide_eq_true_iff]
    omega
  · rename_i same
    rw [not_not] at same
    simp only [same, Int.lt_irrefl, true_and, false_or]
    split <;> rfl

theorem pairwise_byPlace {le : α → α → Bool}
    (h : ∀ a b, le a b = true ↔ ByPlace file line f g a b) (xs : List α) :
    (xs.mergeSort le).Pairwise (ByPlace file line f g) := by
  have sorted := @List.pairwise_mergeSort _ le
    (fun a b c hab hbc => (h a c).2 (((h a b).1 hab).trans ((h b c).1 hbc)))
    (fun a b => Bool.or_eq_true_iff.2 ((ByPlace.total a b).imp (h a b).2 (h b a).2)) xs
  exact sorted.imp fun {a b} hab => (h a b).1 hab

end

namespace Narrowing

/-- The imports of a package itself, each with its file. -/
def rootImports (files : List FileFacts) (package : String) : List (FileFacts × Import) :=
  (files.flatMap fun f => f.imports.map (f, ·)).filter fun (_, i) => i.module == package

/-- A used import of an export under its own name. -/
structure Plain (f : FileFacts) (i : Import) : Prop where
  named : i.kind = .named
  own : i.localName = i.exportName
  used : 0 < f.reads.count i.localName

section
variable (t : FileTree) (repository : Path) (s : Subpaths) (package : String) (f : FileFacts)
  (i : Import)

/-- What is asked of the file tree about an import is answered. -/
def Undisturbed : Prop :=
  Plain f i → ∃ target?, s.resolve t package i.exportName = .ok target? ∧
    (target?.isSome → ∃ source, t.read (repository.child f.path) = .ok source)

/-- An import with a module of its own for its export, on a line that can be written anew. -/
structure Narrowable (target current replacement : String) : Prop where
  plain : Plain f i
  resolved : s.resolve t package i.exportName = .ok (some target)
  line : ∃ source, t.read (repository.child f.path) = .ok source ∧
    lineAt? (lines source.bytes) i.location.line = some current
  accepted : narrow? current package i.exportName target = some replacement

/-- Why there is no suggestion for an import. -/
inductive Kept : Reason → Prop
  | sideEffect : i.kind = .wholeModule → i.isSideEffect = true → Kept .sideEffect
  | wholeModule : i.kind = .wholeModule → i.isSideEffect = false → Kept .wholeModule
  | defaultExport : i.kind = .defaultExport → Kept .defaultExport
  | renamed : i.kind = .named → i.localName ≠ i.exportName → Kept .renamed
  | unused : i.kind = .named → i.localName = i.exportName → f.reads.count i.localName ≤ 0 →
    Kept .unused
  | noTarget : Plain f i → s.resolve t package i.exportName = .ok none → Kept .noTarget
  | noLine : Plain f i → s.resolve t package i.exportName = .ok (some target) →
    t.read (repository.child f.path) = .ok source →
    lineAt? (lines source.bytes) i.location.line = none → Kept .noLine
  | notSingle : Plain f i → s.resolve t package i.exportName = .ok (some target) →
    t.read (repository.child f.path) = .ok source →
    lineAt? (lines source.bytes) i.location.line = some current →
    narrow? current package i.exportName target = none → Kept .notSingle

/-- The one entry of a plan that an import has. -/
inductive Becomes : Suggestion ⊕ Skip → Prop
  | suggested : Narrowable t repository s package f i target current replacement →
    Becomes (.inl
      { file := f.path
        line := i.location.line
        importName := i.exportName
        fromModule := package
        toModule := target
        current
        replacement
        patch := patch f.path i.location.line current replacement })
  | kept : Kept t repository s package f i r → Becomes (.inr
      { file := f.path
        line := i.location.line
        importName := i.exportName
        module := i.module
        reasonCode := r.code
        message := r.message })

end

section
variable {t : FileTree} {repository : Path} {s : Subpaths} {package : String}

theorem Plain.reason?_eq (h : Plain f i) : reason? f i = none := by
  unfold reason?
  rw [h.named]
  dsimp only
  rw [if_neg (not_not_intro h.own), if_neg (Int.not_le.2 h.used)]

theorem kept_of_reason? (h : reason? f i = some r) : Kept t repository s package f i r := by
  unfold reason? at h
  split at h
  · rename_i whole
    cases h
    cases side : i.isSideEffect with
    | true => exact .sideEffect whole side
    | false => exact .wholeModule whole side
  · rename_i default
    cases h
    exact .defaultExport default
  · rename_i named
    split at h
    · rename_i renamed
      cases h
      exact .renamed named renamed
    split at h
    · rename_i own unused
      cases h
      exact .unused named (not_not.1 own) unused
    · cases h

theorem plain_of_reason? (h : reason? f i = none) : Plain f i := by
  unfold reason? at h
  split at h
  · cases h
  · cases h
  · rename_i named
    split at h
    · cases h
    split at h
    · cases h
    · rename_i own used
      exact ⟨named, not_not.1 own, Int.not_le.1 used⟩

theorem Kept.not_narrowable (h : Kept t repository s package f i r) :
    ¬ Narrowable t repository s package f i target current replacement := by
  intro n
  obtain ⟨plain, resolved, ⟨source, reads, line⟩, accepted⟩ := n
  cases h with
  | sideEffect whole _ => cases whole.symm.trans plain.named
  | wholeModule whole _ => cases whole.symm.trans plain.named
  | defaultExport default => cases default.symm.trans plain.named
  | renamed _ renamed => exact renamed plain.own
  | unused _ _ unused => exact Int.not_le.2 plain.used unused
  | noTarget _ none => cases none.symm.trans resolved
  | noLine _ _ reads' none =>
    cases reads'.symm.trans reads
    cases none.symm.trans line
  | notSingle _ resolved' reads' line' none =>
    cases resolved'.symm.trans resolved
    cases reads'.symm.trans reads
    cases line'.symm.trans line
    cases none.symm.trans accepted

theorem Becomes.isLeft_iff (h : Becomes t repository s package f i x) : x.isLeft = true ↔
    ∃ target current replacement,
      Narrowable t repository s package f i target current replacement := by
  cases h with
  | suggested narrowable => exact ⟨fun _ => ⟨_, _, _, narrowable⟩, fun _ => rfl⟩
  | kept kept =>
    constructor
    · intro h
      cases h
    · intro ⟨_, _, _, narrowable⟩
      exact (kept.not_narrowable narrowable).elim

/-- The entry of a plan as an outcome. -/
def outcomeOf : Suggestion ⊕ Skip → Outcome := Sum.elim .suggested .skipped

theorem narrowImport_becomes (plain : Plain f i)
    (resolved : s.resolve t package i.exportName = .ok (some target))
    (reads : t.read (repository.child f.path) = .ok source) :
    ∃ x, narrowImport f i package target (lines source.bytes) = outcomeOf x ∧
      Becomes t repository s package f i x := by
  unfold narrowImport
  split
  · rename_i none
    exact ⟨_, rfl, .kept (.noLine plain resolved reads none)⟩
  · rename_i current line
    split
    · rename_i none
      exact ⟨_, rfl, .kept (.notSingle plain resolved reads line none)⟩
    · rename_i replacement accepted
      rw [if_neg (narrow?_ne accepted)]
      exact ⟨_, rfl, .suggested ⟨plain, resolved, ⟨source, reads, line⟩, accepted⟩⟩

/-- An import about which all questions are answered has its entry: its line never stays the
same. -/
theorem outcome_becomes (h : Undisturbed t repository s package f i) :
    ∃ x, outcome t repository s package f i = .ok (outcomeOf x) ∧
      Becomes t repository s package f i x := by
  unfold outcome
  split
  · rename_i r hr
    exact ⟨_, rfl, .kept (kept_of_reason? hr)⟩
  · rename_i hr
    have plain := plain_of_reason? hr
    obtain ⟨target?, resolved, readable⟩ := h plain
    rw [resolved]
    cases target? with
    | none => exact ⟨_, rfl, .kept (.noTarget plain resolved)⟩
    | some target =>
      obtain ⟨source, reads⟩ := readable rfl
      obtain ⟨x, hx, becomes⟩ := narrowImport_becomes plain resolved reads
      refine ⟨x, ?_, becomes⟩
      simp only [bind, Except.bind, reads]
      exact congrArg Except.ok hx

theorem outcomes_become (h : ∀ i ∈ is, Undisturbed t repository s package f i) :
    ∃ xs, outcomes t repository s package f is = (xs.map outcomeOf, none) ∧
      List.Forall₂ (Becomes t repository s package f) is xs := by
  induction is with
  | nil => exact ⟨[], rfl, .nil⟩
  | cons i is ih =>
    obtain ⟨hi, his⟩ := List.forall_mem_cons.1 h
    obtain ⟨x, hx, becomes⟩ := outcome_becomes hi
    obtain ⟨xs, hxs, become⟩ := ih his
    refine ⟨x :: xs, ?_, .cons becomes become⟩
    unfold outcomes
    rw [hx, hxs]
    rfl

theorem files_become {files : List FileFacts}
    (h : ∀ p ∈ rootImports files package, Undisturbed t repository s package p.1 p.2) :
    ∃ xs, List.Forall₂ (fun p x => Becomes t repository s package p.1 p.2 x)
        (rootImports files package) xs ∧
      let results := files.map fun f =>
        (f, outcomes t repository s package f (packageImports f package))
      results.flatMap (fun r => r.2.1) = xs.map outcomeOf ∧
        results.filterMap (fun r => r.2.2.map (r.1, ·)) = [] := by
  induction files with
  | nil => exact ⟨[], .nil, rfl, rfl⟩
  | cons f files ih =>
    have parts : rootImports (f :: files) package =
        (packageImports f package).map (f, ·) ++ rootImports files package := by
      unfold rootImports packageImports
      rw [List.flatMap_cons, List.filter_append, List.filter_map]
      rfl
    rw [parts] at h ⊢
    obtain ⟨here, behind⟩ := List.forall_mem_append.1 h
    obtain ⟨xs, hxs, become⟩ := outcomes_become fun i hi => here (f, i) (List.mem_map_of_mem hi)
    obtain ⟨ys, becomeToo, outcomesToo, errors⟩ := ih behind
    have first : List.Forall₂ (fun p x => Becomes t repository s package p.1 p.2 x)
        ((packageImports f package).map (f, ·)) xs := List.forall₂_map_left_iff.2 become
    refine ⟨xs ++ ys, List.rel_append first becomeToo, ?_, ?_⟩
    · rw [List.map_cons, List.flatMap_cons, outcomesToo, hxs, List.map_append]
    · rw [List.map_cons, List.filterMap_cons, hxs]
      exact errors

theorem filterMap_suggestion? (xs : List (Suggestion ⊕ Skip)) :
    (xs.map outcomeOf).filterMap suggestion? = xs.filterMap Sum.getLeft? := by
  rw [List.filterMap_map]
  apply List.filterMap_congr
  intro x _
  cases x <;> rfl

theorem filterMap_skip? (xs : List (Suggestion ⊕ Skip)) :
    (xs.map outcomeOf).filterMap skip? = xs.filterMap Sum.getRight? := by
  rw [List.filterMap_map]
  apply List.filterMap_congr
  intro x _
  cases x <;> rfl

end

theorem perm_getLeft?_getRight? (xs : List (α ⊕ β)) :
    ((xs.filterMap Sum.getLeft?).map Sum.inl ++ (xs.filterMap Sum.getRight?).map Sum.inr).Perm
      xs := by
  induction xs with
  | nil => exact .refl _
  | cons x xs ih =>
    cases x with
    | inl a => exact ih.cons _
    | inr b => exact List.perm_middle.trans (ih.cons _)

/-- If all questions are answered, a plan is found, and it has one entry for every import of the
package itself. -/
theorem plan_accounts_for_imports (t : FileTree) (repository : Path) (package : String)
    (root : Option Path) (facts : RepositoryFacts) (hs : Subpaths.ofRoot t root = .ok s)
    (h : ∀ p ∈ rootImports facts.files package, Undisturbed t repository s package p.1 p.2) :
    ∃ plan entries, Narrowing.plan t repository package root facts = .ok (plan, []) ∧
      List.Forall₂ (fun p x => Becomes t repository s package p.1 p.2 x ∧
        (x.isLeft ↔ ∃ target current replacement,
          Narrowable t repository s package p.1 p.2 target current replacement))
        (rootImports facts.files package) entries ∧
      (plan.suggestions.map Sum.inl ++ plan.skips.map Sum.inr).Perm entries ∧
      plan.suggestions.Pairwise (ByPlace (·.file) (·.line) (·.importName) (·.toModule)) ∧
      plan.skips.Pairwise (ByPlace (·.file) (·.line) (·.reasonCode) (·.importName)) := by
  obtain ⟨xs, become, outcomes, errors⟩ := files_become h
  let os := xs.map outcomeOf
  refine ⟨⟨"suggest-only", (os.filterMap suggestion?).mergeSort suggestionLe,
    (os.filterMap skip?).mergeSort skipLe⟩, xs, ?_, ?_, ?_, ?_, ?_⟩
  · have silent : Text.sortUnique [] = [] := by
      rw [Text.sortUnique, Text.sort, List.mergeSort_nil, Text.sortUnique.go]
    simp only [plan, hs, bind, Except.bind, errors, outcomes, List.find?_nil, List.map_nil, silent]
    rfl
  · exact become.imp fun _ _ h => ⟨h, h.isLeft_iff⟩
  · have one := perm_getLeft?_getRight? xs
    rw [← filterMap_suggestion?, ← filterMap_skip?] at one
    apply List.Perm.trans ?_ one
    apply List.Perm.append
    · exact (List.mergeSort_perm _ _).map _
    · exact (List.mergeSort_perm _ _).map _
  · exact pairwise_byPlace (fun _ _ => byPlace_iff) _
  · exact pairwise_byPlace (fun _ _ => byPlace_iff) _

/-- A package with a module for one of its exports, and a file with some text. -/
def mappedIn (text : String) : FileTree :=
  let package : Entry := .folder [("map.js", .file (.ofBytes .empty) true)] .full
  ⟨.folder [("node_modules", .folder [("p", package)] .full),
    ("a.js", .file (.ofBytes (Text.Utf8.encode text)) true)] .full, []⟩

/-- Two imports of the package. -/
def mappedText : String :=
  "import \x7b map \x7d from \"p\";\nimport all from \"p\";\nmap(all);\n"

def mapped : FileTree := mappedIn mappedText

def mappedFacts : RepositoryFacts :=
  { files := [{ path := "a.js"
                imports := [⟨"p", "map", "map", .named, ⟨"a.js", 1, 10⟩⟩,
                  ⟨"p", "default", "all", .defaultExport, ⟨"a.js", 2, 8⟩⟩]
                reads := [("map", 1), ("all", 1)] }] }

theorem resolve_mapped :
    ∃ s, Subpaths.ofRoot mapped (some ⟨.root, ["node_modules", "p"]⟩) = .ok s ∧
      s.resolve mapped "p" "map" = .ok (some "p/map") := by
  refine ⟨_, rfl, ?_⟩
  apply eq_ok_of_toOption
  decide +kernel

/-- The named import gets a suggestion and the other one is skipped. -/
theorem plan_accounts_for_mapped :
    ∃ s plan entries, Subpaths.ofRoot mapped (some ⟨.root, ["node_modules", "p"]⟩) = .ok s ∧
      (∀ p ∈ rootImports mappedFacts.files "p", Undisturbed mapped ⟨.root, []⟩ s "p" p.1 p.2) ∧
      Narrowing.plan mapped ⟨.root, []⟩ "p" (some ⟨.root, ["node_modules", "p"]⟩) mappedFacts =
        .ok (plan, []) ∧
      List.Forall₂ (fun p x => Becomes mapped ⟨.root, []⟩ s "p" p.1 p.2 x)
        (rootImports mappedFacts.files "p") entries ∧
      plan.suggestions.map (·.replacement) = ["import map from \"p/map\";"] ∧
      plan.skips.map (·.reasonCode) = ["default-import"] := by
  obtain ⟨s, hs, resolved⟩ := resolve_mapped
  have undisturbed : ∀ p ∈ rootImports mappedFacts.files "p",
      Undisturbed mapped ⟨.root, []⟩ s "p" p.1 p.2 := by
    intro p hp plain
    rcases List.mem_cons.1 hp with rfl | hp
    · exact ⟨_, resolved, fun _ => ⟨_, rfl⟩⟩
    · cases List.mem_singleton.1 hp
      cases plain.named
  obtain ⟨plan, entries, hplan, become, _⟩ :=
    plan_accounts_for_imports mapped ⟨.root, []⟩ "p" _ mappedFacts hs undisturbed
  have shown : (Narrowing.plan mapped ⟨.root, []⟩ "p" (some ⟨.root, ["node_modules", "p"]⟩)
      mappedFacts).toOption.map
        (fun r => (r.1.suggestions.map (·.replacement), r.1.skips.map (·.reasonCode))) =
      some (["import map from \"p/map\";"], ["default-import"]) := by decide +kernel
  rw [hplan] at shown
  obtain ⟨replacements, reasons⟩ := Prod.mk.inj (Option.some.inj shown)
  exact ⟨s, plan, entries, hs, undisturbed, hplan, become.imp fun _ _ h => h.1, replacements,
    reasons⟩

end Narrowing

end PackageUsage
