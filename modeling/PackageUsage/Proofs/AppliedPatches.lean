import PackageUsage.Proofs.FeedLines
import PackageUsage.Proofs.PlannedImports
import PackageUsage.Proofs.SpecifierNames

namespace PackageUsage
set_option autoImplicit true

namespace Text

theorem dropStart?_go_append (p cs : List Char) : dropStart?.go p (p ++ cs) = some cs := by
  induction p with
  | nil => rfl
  | cons c p ih => rw [List.cons_append, dropStart?.go, if_pos rfl, ih]

theorem dropStart?_append (p s : String) : dropStart? (p ++ s) p = some s := by
  rw [dropStart?, String.toList_append, dropStart?_go_append, Option.map_some,
    String.ofList_toList]

theorem strip_subset (s : String) : (strip s).toList ⊆ s.toList := by
  rw [strip, String.toList_ofList]
  apply List.Subset.trans ?_ (List.dropWhile_suffix isBlank).subset
  exact (List.rdropWhile_prefix isBlank _).subset

end Text

namespace Narrowing

/-- The lines of a file by its line feeds. -/
def readLines (bytes : ByteArray) : List (List Char) :=
  (bytes.toList.splitOn 10).map Text.Utf8.lossy

/-- The texts of these lines, without the carriage returns that end them. -/
def feedLines (bytes : ByteArray) : List String :=
  (readLines bytes).map fun line => String.ofList (withoutReturn line)

/-- What a patch writes over the line that it changes. -/
def place (line : Int) : String := s!"@@ -{line} +{line} @@"

/-- Lines with a patch of one line applied, if the patch names a line and what stands there. -/
def applyPatch? (patch : String) (ls : List String) : Option (List String) :=
  match (Text.split '\n' patch).reverse with
  | new :: old :: mark :: _ => do
    let old ← Text.dropStart? old "-"
    let new ← Text.dropStart? new "+"
    let k ← (List.range ls.length).find? fun (k : Nat) => mark == place (k + 1)
    if ls[k]? = some old then some (ls.set k new) else none
  | _ => none

theorem toList_place (n : Nat) : (place n).toList = "@@ -".toList ++
    (Nat.toDigits 10 n ++ (" +".toList ++ (Nat.toDigits 10 n ++ " @@".toList))) := by
  have digits : (toString (n : Int)).toList = Nat.toDigits 10 n := Nat.toList_repr
  change ("@@ -" ++ toString (n : Int) ++ " +" ++ toString (n : Int) ++ " @@").toList = _
  rw [String.toList_append, String.toList_append, String.toList_append, String.toList_append,
    digits, List.append_assoc, List.append_assoc, List.append_assoc]

theorem place_inj {m n : Nat} (h : place m = place n) : m = n := by
  have same := congrArg String.toList h
  rw [toList_place, toList_place] at same
  replace same := List.append_cancel_left same
  have equal : (Nat.toDigits 10 m).length = (Nat.toDigits 10 n).length := by
    have := congrArg List.length same
    simp only [List.length_append] at this
    omega
  have digits := (List.append_inj same equal).1
  rw [← Nat.ofDigitChars_toDigits (n := m) (by decide) (Nat.le_refl 10), digits,
    Nat.ofDigitChars_toDigits (by decide) (Nat.le_refl 10)]

theorem feedless_place (n : Nat) : '\n' ∉ (place n).toList := by
  have digit : ∀ c ∈ Nat.toDigits 10 n, c ≠ '\n' := by
    rintro _ h rfl
    have := Nat.isDigit_of_mem_toDigits (by decide) (Nat.le_refl 10) h
    cases this
  rw [toList_place]
  intro h
  simp only [List.mem_append] at h
  rcases h with h | h | h | h | h
  · exact absurd h (by decide)
  · exact digit _ h rfl
  · exact absurd h (by decide)
  · exact digit _ h rfl
  · exact absurd h (by decide)

theorem feedless_append {s t : String} (hs : '\n' ∉ s.toList) (ht : '\n' ∉ t.toList) :
    '\n' ∉ (s ++ t).toList := by
  rw [String.toList_append, List.mem_append, not_or]
  exact ⟨hs, ht⟩

theorem split_patch (file : String) (n : Nat) (ho : '\n' ∉ old.toList) (hn : '\n' ∉ new.toList) :
    ∃ names, (Text.split '\n' (patch file n old new)).reverse =
      ("+" ++ new) :: ("-" ++ old) :: place n :: names := by
  have removed := feedless_append (s := "-") (by decide) ho
  have added := feedless_append (s := "+") (by decide) hn
  refine ⟨(Text.split '\n' ("--- a/" ++ file) ++ Text.split '\n' ("+++ b/" ++ file)).reverse, ?_⟩
  have parts : Text.split '\n' (patch file n old new) =
      Text.split '\n' ("--- a/" ++ file) ++ (Text.split '\n' ("+++ b/" ++ file) ++
        [place n, "-" ++ old, "+" ++ new]) := by
    change Text.split '\n' (Text.join (String.singleton '\n') _) = _
    rw [Text.split_join_cons, Text.split_join_cons, Text.split_join_cons, Text.split_join_cons]
    change _ ++ (_ ++ (Text.split '\n' (place n) ++ (_ ++ Text.split '\n' ("+" ++ new)))) = _
    rw [Text.split_eq_singleton (feedless_place n), Text.split_eq_singleton removed,
      Text.split_eq_singleton added]
    rfl
  rw [parts, ← List.append_assoc, List.reverse_append]
  rfl

theorem applyPatch?_patch (file : String) {ls : List String} {k : Nat} (hk : ls[k]? = some old)
    (ho : '\n' ∉ old.toList) (hn : '\n' ∉ new.toList) :
    applyPatch? (patch file (k + 1) old new) ls = some (ls.set k new) := by
  have inside : k < ls.length := (List.getElem?_eq_some_iff.1 hk).1
  obtain ⟨names, parts⟩ := split_patch file k.succ ho hn
  rw [Int.natCast_succ] at parts
  have found : (List.range ls.length).find? (fun (j : Nat) => place (k + 1) == place (j + 1)) =
      some k := by
    rw [List.find?_range_eq_some]
    refine ⟨beq_self_eq_true _, List.mem_range.2 inside, ?_⟩
    intro j hj
    rw [Bool.not_eq_true', beq_eq_false_iff_ne, ← Int.natCast_succ, ← Int.natCast_succ]
    intro same
    exact Nat.ne_of_gt hj (Nat.succ.inj (place_inj same))
  unfold applyPatch?
  rw [parts]
  dsimp only
  rw [Text.dropStart?_append, Text.dropStart?_append]
  simp only [Option.bind_eq_bind, Option.bind_some, found]
  exact if_pos hk

namespace Line

theorem Written.not_mem (h : Written l cs) (hc : c ∉ cs) :
    (c ∉ l.indent ∧ c ∉ l.form.keyword ∧ c ∉ l.tail) ∧
      c ≠ l.quote ∧ c ∉ l.name ∧ c ∉ l.module := by
  cases h with
  | importFrom =>
    simp only [List.mem_append, List.mem_cons, not_or] at hc
    obtain ⟨indent, keyword, _, _, _, named, _, _, _, _, _, quote, inside, _, tail⟩ := hc
    exact ⟨⟨indent, keyword, tail⟩, quote, named, inside⟩
  | require =>
    simp only [List.mem_append, List.mem_cons, not_or] at hc
    obtain ⟨indent, keyword, _, _, _, named, _, _, _, _, _, _, quote, inside, _, _, tail⟩ := hc
    exact ⟨⟨indent, keyword, tail⟩, quote, named, inside⟩

theorem feedless_renderFrom {l : Line} (h : Written l cs) (hc : '\n' ∉ cs) (ht : '\n' ∉ target) :
    '\n' ∉ l.renderFrom target := by
  obtain ⟨⟨indent, keyword, tail⟩, quote, named, _⟩ := h.not_mem hc
  have source : '\n' ∉ l.quote :: target ∧ '\n' ∉ [l.quote] := by
    rw [List.mem_cons, List.mem_singleton, not_or]
    exact ⟨⟨quote, ht⟩, quote⟩
  unfold renderFrom
  split
  · simp only [List.mem_append, not_or]
    exact ⟨⟨⟨⟨⟨indent, by decide⟩, named⟩, by decide⟩, source⟩, tail⟩
  · rename_i word same
    rw [same] at keyword
    simp only [List.mem_append, not_or]
    exact ⟨⟨⟨⟨⟨⟨⟨indent, keyword⟩, by decide⟩, named⟩, by decide⟩, source⟩, by decide⟩, tail⟩

end Line

theorem feedless_of_narrow? (hc : '\n' ∉ current.toList)
    (h : narrow? current package exportName (package ++ "/" ++ Text.strip exportName) =
      some replacement) : '\n' ∉ replacement.toList := by
  obtain ⟨l, hl, h⟩ := Option.bind_eq_some_iff.1 h
  split at h
  · rename_i same
    cases h
    have written := (Line.parse?_eq_some_iff.1 hl).2.2
    obtain ⟨_, _, named, inside⟩ := written.not_mem hc
    rw [String.toList_ofList]
    apply Line.feedless_renderFrom written hc
    apply feedless_append
    · exact feedless_append (same.2 ▸ inside) (by decide)
    · exact fun h => (same.1 ▸ named) (Text.strip_subset exportName h)
  · cases h

theorem resolve_eq_some {s : Subpaths} (h : s.resolve t package exportName = .ok (some target)) :
    target = package ++ "/" ++ Text.strip exportName := by
  unfold Subpaths.resolve at h
  dsimp only at h
  split at h
  · cases h
  split at h
  · cases h
    rfl
  split at h
  · cases h
  · obtain ⟨found, _, h⟩ := bind_ok h
    split at h
    · cases h
      rfl
    · cases h

theorem outcome_suggested (h : outcome t repository s package f i = .ok (.suggested x)) :
    Becomes t repository s package f i (.inl x) := by
  have undisturbed : Undisturbed t repository s package f i := by
    intro plain
    unfold outcome at h
    rw [plain.reason?_eq] at h
    obtain ⟨target?, resolved, h⟩ := bind_ok h
    refine ⟨target?, resolved, ?_⟩
    intro some
    cases target? with
    | none => cases some
    | some target =>
      obtain ⟨source, reads, _⟩ := bind_ok h
      exact ⟨source, reads⟩
  obtain ⟨y, hy, becomes⟩ := outcome_becomes undisturbed
  have same : outcomeOf y = .suggested x := Except.ok.inj (hy.symm.trans h)
  cases y with
  | inl y =>
    cases same
    exact becomes
  | inr y => cases same

theorem mem_outcomes (h : o ∈ (outcomes t repository s package f is).1) :
    ∃ i ∈ is, outcome t repository s package f i = .ok o := by
  induction is with
  | nil => cases h
  | cons i is ih =>
    unfold outcomes at h
    split at h
    · rename_i first here
      rcases List.mem_cons.1 h with rfl | h
      · exact ⟨i, List.mem_cons_self, here⟩
      · obtain ⟨j, hj, found⟩ := ih h
        exact ⟨j, List.mem_cons_of_mem i hj, found⟩
    · cases h

/-- A suggestion of a plan is what becomes of an import. -/
theorem becomes_of_mem_plan (h : plan t repository package root facts = .ok (p, warnings))
    (hx : x ∈ p.suggestions) : ∃ s, ∃ f ∈ facts.files, ∃ i ∈ packageImports f package,
      Becomes t repository s package f i (.inl x) := by
  obtain ⟨s, _, h⟩ := bind_ok h
  dsimp only at h
  split at h
  · obtain ⟨_, thrown, _⟩ := bind_ok h
    cases thrown
  cases h
  rw [List.mem_mergeSort, List.mem_filterMap] at hx
  obtain ⟨o, ho, hx⟩ := hx
  obtain ⟨result, hr, ho⟩ := List.mem_flatMap.1 ho
  obtain ⟨f, hf, rfl⟩ := List.mem_map.1 hr
  obtain ⟨i, hi, found⟩ := mem_outcomes ho
  refine ⟨s, f, hf, i, hi, outcome_suggested ?_⟩
  cases o with
  | suggested y =>
    cases hx
    exact found
  | skipped _ => cases hx
  | unchanged => cases hx

theorem lineAt?_eq_some (h : lineAt? ls n = some current) :
    0 < n ∧ ls[n.toNat - 1]? = some current := by
  unfold lineAt? at h
  split at h
  · cases h
  · rename_i positive
    exact ⟨Int.not_le.1 positive, h⟩

/-- A suggestion fits some lines if it names one with what stands there, and its patch puts the
narrowed line in its place and keeps all others. -/
structure Fits (s : Suggestion) (ls : List String) : Prop where
  positive : 0 < s.line
  reads : ls[s.line.toNat - 1]? = some s.current
  applies : applyPatch? s.patch ls = some (ls.set (s.line.toNat - 1) s.replacement)

/-- Up to a line with a carriage return inside, the lines of a text are those of its file. -/
theorem exists_line (shown : (lines bytes)[k]? = some current) (given : current ≠ "")
    (before : ∀ line ∈ (readLines bytes).take k, Unbroken line) :
    ∃ line, (readLines bytes)[k]? = some line ∧
      (String.ofList (withoutReturn line) = current ↔ Unbroken line) := by
  unfold lines Text.split at shown
  rw [String.toList_ofList, Text.Utf8.toList_decodeLossy, List.getElem?_map] at shown
  obtain ⟨u, hu, rfl⟩ := Option.map_eq_some_iff.1 shown
  unfold readLines at before ⊢
  rw [← Text.Utf8.splitOn_lossy] at before ⊢
  have some : u ≠ [] := by
    rintro rfl
    exact given rfl
  obtain ⟨line, hl, same⟩ := getElem?_splitOn_unixLines before hu some
  exact ⟨line, hl, String.ofList_inj.trans same⟩

/-- All that a suggestion needs is that its line stands where it says. -/
theorem fits_iff {s : Suggestion} {ls : List String} (positive : 0 < s.line)
    (made : s.patch = patch s.file s.line s.current s.replacement)
    (hc : '\n' ∉ s.current.toList) (hr : '\n' ∉ s.replacement.toList) :
    Fits s ls ↔ ls[s.line.toNat - 1]? = some s.current := by
  constructor
  · exact Fits.reads
  · intro reads
    refine ⟨positive, reads, ?_⟩
    have index : ((s.line.toNat - 1 : Nat) : Int) + 1 = s.line := by omega
    have applied := applyPatch?_patch s.file reads hc hr
    rw [index] at applied
    rw [made, applied]

/-- If no carriage return stands inside the lines before its line, a suggestion fits its file just
when none stands inside this line either. -/
theorem plan_fits (h : plan t repository package root facts = .ok (p, warnings))
    (hs : s ∈ p.suggestions) : ∃ source, t.read (repository.child s.file) = .ok source ∧
      ((∀ line ∈ (readLines source.bytes).take (s.line.toNat - 1), Unbroken line) →
        ∃ line, (readLines source.bytes)[s.line.toNat - 1]? = some line ∧
          (Fits s (feedLines source.bytes) ↔ Unbroken line)) := by
  obtain ⟨subpaths, f, _, i, _, becomes⟩ := becomes_of_mem_plan h hs
  cases becomes with
  | @suggested target current replacement narrowable =>
    obtain ⟨_, resolved, ⟨source, reads, located⟩, accepted⟩ := narrowable
    refine ⟨source, reads, ?_⟩
    intro before
    obtain ⟨positive, shown⟩ := lineAt?_eq_some located
    have given : current ≠ "" := by
      rintro rfl
      cases accepted
    obtain ⟨line, hl, same⟩ := exists_line shown given before
    refine ⟨line, hl, ?_⟩
    have feedless := Text.not_mem_of_mem_split (List.mem_of_getElem? shown)
    have named := resolve_eq_some resolved
    rw [fits_iff positive rfl feedless (feedless_of_narrow? feedless (named ▸ accepted)), feedLines,
      List.getElem?_map, hl, Option.map_some, Option.some_inj]
    exact same

def mapSuggestion : Suggestion :=
  { file := "a.js"
    line := 1
    importName := "map"
    fromModule := "p"
    toModule := "p/map"
    current := "import \x7b map \x7d from \"p\";"
    replacement := "import map from \"p/map\";"
    patch := patch "a.js" 1 "import \x7b map \x7d from \"p\";" "import map from \"p/map\";" }

/-- A suggestion for a file without carriage returns. -/
theorem plan_fits_mapped : ∃ p source,
    plan mapped ⟨.root, []⟩ "p" (some ⟨.root, ["node_modules", "p"]⟩) mappedFacts = .ok (p, []) ∧
      mapSuggestion ∈ p.suggestions ∧
      mapped.read (Path.child ⟨.root, []⟩ mapSuggestion.file) = .ok source ∧
      Fits mapSuggestion (feedLines source.bytes) := by
  have found : plan mapped ⟨.root, []⟩ "p" (some ⟨.root, ["node_modules", "p"]⟩) mappedFacts =
      .ok (⟨"suggest-only", [mapSuggestion], [⟨"a.js", 2, "default", "p", "default-import",
        Reason.message .defaultExport⟩]⟩, []) := by
    apply eq_ok_of_toOption
    decide +kernel
  have suggested : mapSuggestion ∈ [mapSuggestion] := List.mem_singleton_self _
  obtain ⟨source, reads, fits⟩ := plan_fits found suggested
  obtain ⟨line, hl, iff⟩ := fits (fun line h => nomatch h)
  refine ⟨_, source, found, suggested, reads, iff.2 ?_⟩
  cases reads
  have shown : (readLines (Text.Utf8.encode mappedText))[mapSuggestion.line.toNat - 1]? =
      some mapSuggestion.current.toList := by decide +kernel
  rw [Option.some.inj (hl.symm.trans shown), Unbroken]
  decide

/-- A carriage return ends the line of the import, but no line of the file. -/
def returned : FileTree := mappedIn "import \x7b map \x7d from \"p\";\rmap();\n"

def returnedFacts : RepositoryFacts :=
  { files := [{ path := "a.js"
                imports := [⟨"p", "map", "map", .named, ⟨"a.js", 1, 10⟩⟩]
                reads := [("map", 1)] }] }

/-- The same suggestion for a file with a carriage return in the line of the import. -/
theorem plan_unfit_for_returned : ∃ p source,
    plan returned ⟨.root, []⟩ "p" (some ⟨.root, ["node_modules", "p"]⟩) returnedFacts =
        .ok (p, []) ∧
      mapSuggestion ∈ p.suggestions ∧
      returned.read (Path.child ⟨.root, []⟩ mapSuggestion.file) = .ok source ∧
      (feedLines source.bytes)[mapSuggestion.line.toNat - 1]? =
        some "import \x7b map \x7d from \"p\";\rmap();" ∧
      ¬ Fits mapSuggestion (feedLines source.bytes) := by
  have found : plan returned ⟨.root, []⟩ "p" (some ⟨.root, ["node_modules", "p"]⟩)
      returnedFacts = .ok (⟨"suggest-only", [mapSuggestion], []⟩, []) := by
    apply eq_ok_of_toOption
    decide +kernel
  have shown : ∃ source, returned.read (Path.child ⟨.root, []⟩ mapSuggestion.file) = .ok source ∧
      (feedLines source.bytes)[mapSuggestion.line.toNat - 1]? =
        some "import \x7b map \x7d from \"p\";\rmap();" := by
    refine ⟨_, rfl, ?_⟩
    decide +kernel
  obtain ⟨source, reads, line⟩ := shown
  refine ⟨_, source, found, List.mem_singleton_self _, reads, line, ?_⟩
  intro fits
  have same := fits.reads.symm.trans line
  exact absurd (Option.some.inj same) (by decide)

end Narrowing

end PackageUsage
