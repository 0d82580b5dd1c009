import PackageUsage.Proofs.NormalPaths
import PackageUsage.Proofs.NotedSearch

namespace PackageUsage
set_option autoImplicit true
open PackageUsage.Path Path.Normal

namespace Path.Normal

/-- What stands after the last slash of a written path. -/
def lastName (s : String) : String := (Text.split '/' s).getLastD ""

/-- The last name of a written path has a dot besides those that begin it. -/
def Dotted (s : String) : Prop := '.' ∈ (lastName s).toList.dropWhile (· == '.')

instance (s : String) : Decidable (Dotted s) := inferInstanceAs (Decidable (_ ∈ _))

theorem span_reverse_of_leading (hb : Leading b) (hl : '/' ∉ l) :
    (b ++ l).reverse.span (· != '/') = (l.reverse, b.reverse) := by
  rw [List.reverse_append]
  apply span_append
  · intro c hc
    exact bne_iff_ne.2 fun he => hl (he ▸ List.mem_reverse.1 hc)
  · rcases hb with rfl | ⟨cs, rfl⟩
    · exact nofun
    · rw [List.reverse_concat]
      rintro _ ⟨⟩
      exact bne_self_eq_false _

theorem lastName_of_leading (hb : Leading b) (hl : '/' ∉ l) :
    lastName (String.ofList (b ++ l)) = String.ofList l := by
  have alone : Text.split '/' (String.ofList l) = [String.ofList l] :=
    Text.split_eq_singleton (by rwa [String.toList_ofList])
  rcases hb with rfl | ⟨cs, rfl⟩
  · rw [lastName, List.nil_append, alone]
    rfl
  · have written : String.ofList (cs ++ ['/'] ++ l) =
        String.ofList cs ++ String.singleton '/' ++ String.ofList l := by
      apply String.toList_injective
      simp only [String.toList_ofList, String.toList_append, String.toList_singleton]
    rw [lastName, written, Text.split_append, alone, List.getLastD_concat]

theorem splitExtension_of_undotted (hb : Leading b) (hl : '/' ∉ l)
    (h : '.' ∉ l.dropWhile (· == '.')) :
    splitExtension (String.ofList (b ++ l)) = (String.ofList (b ++ l), "") := by
  have begins : ∀ c ∈ l.takeWhile (· == '.'), c = '.' := fun c hc =>
    beq_iff_eq.1 (List.all_eq_true.1 List.all_takeWhile c hc)
  have cut : l.reverse.span (· != '.') =
      ((l.dropWhile (· == '.')).reverse, (l.takeWhile (· == '.')).reverse) := by
    conv_lhs => rw [← List.takeWhile_append_dropWhile (p := (· == '.')) (l := l)]
    rw [List.reverse_append]
    apply span_append
    · intro c hc
      refine bne_iff_ne.2 ?_
      rintro rfl
      exact h (List.mem_reverse.1 hc)
    · intro c hc
      have dot := begins c (List.mem_reverse.1 (List.mem_of_mem_head? hc))
      rw [dot, bne_self_eq_false]
  rw [splitExtension, String.toList_ofList, span_reverse_of_leading hb hl]
  dsimp only
  rw [cut]
  have dots : ∀ c ∈ (l.takeWhile (· == '.')).reverse, c = '.' := fun c hc =>
    begins c (List.mem_reverse.1 hc)
  generalize (l.takeWhile (· == '.')).reverse = start at dots
  cases start with
  | nil => rfl
  | cons c start =>
    obtain ⟨rfl, rest⟩ := List.forall_mem_cons.1 dots
    exact if_pos (List.all_eq_true.2 fun c hc => beq_iff_eq.2 (rest c hc))

theorem splitExtension_of_dotted {x : List Char} (hb : Leading b) (hl : '/' ∉ front ++ '.' :: x)
    (hx : '.' ∉ x) (hs : ∃ c ∈ front, c ≠ '.') :
    splitExtension (String.ofList (b ++ (front ++ '.' :: x))) =
      (String.ofList (b ++ front), String.ofList ('.' :: x)) := by
  have cut : (front ++ '.' :: x).reverse.span (· != '.') = (x.reverse, '.' :: front.reverse) := by
    rw [List.reverse_append, List.reverse_cons, List.append_assoc, List.singleton_append]
    apply span_append
    · intro c hc
      exact bne_iff_ne.2 fun he => hx (he ▸ List.mem_reverse.1 hc)
    · rintro _ ⟨⟩
      exact bne_self_eq_false _
  have inside : ¬ front.reverse.all (· == '.') = true := by
    obtain ⟨c, hc, hne⟩ := hs
    intro all
    exact hne (beq_iff_eq.1 (List.all_eq_true.1 all c (List.mem_reverse.2 hc)))
  rw [splitExtension, String.toList_ofList, span_reverse_of_leading hb hl]
  dsimp only
  rw [cut, List.reverse_reverse, List.reverse_reverse]
  refine (if_neg inside).trans ?_
  rw [List.reverse_reverse]

theorem exists_stem (h : '.' ∈ l.dropWhile (· == '.')) :
    ∃ front x, l = front ++ '.' :: x ∧ '.' ∉ x ∧ ∃ c ∈ front, c ≠ '.' := by
  obtain ⟨y, rest, hy, hx⟩ := List.eq_append_cons_of_mem (List.mem_reverse.2 h)
  have tail := congrArg List.reverse hy
  rw [List.reverse_reverse, List.reverse_append, List.reverse_cons, List.append_assoc,
    List.singleton_append] at tail
  refine ⟨l.takeWhile (· == '.') ++ rest.reverse, y.reverse, ?_, ?_, ?_⟩
  · rw [List.append_assoc, ← tail, List.takeWhile_append_dropWhile]
  · exact fun hd => hx (List.mem_reverse.1 hd)
  · have head := List.head?_dropWhile_not (· == '.') l
    cases hr : rest.reverse with
    | nil =>
      rw [tail, hr] at head
      simp at head
    | cons c cs =>
      rw [tail, hr] at head
      refine ⟨c, List.mem_append_right _ List.mem_cons_self, ?_⟩
      simpa using head

theorem splitExtension_toString {p : Path} (h : p.IsNormal) (hd : ¬ Dotted p.toString) :
    splitExtension p.toString = (p.toString, "") := by
  obtain ⟨a, names⟩ := p
  rcases List.eq_nil_or_concat' names with rfl | ⟨folder, last, rfl⟩
  · cases a with
    | relative => decide +kernel
    | root => decide +kernel
    | doubleRoot => decide +kernel
  · have clear := h.slashless last (List.mem_append_right _ List.mem_cons_self)
    obtain ⟨b, hb, written⟩ := exists_leading a folder
    rw [written] at hd ⊢
    rw [Dotted, lastName_of_leading hb clear, String.toList_ofList] at hd
    exact splitExtension_of_undotted hb clear hd

theorem exists_splitExtension {p : Path} (h : p.IsNormal) (hd : Dotted p.toString) :
    ∃ folder stem x, p = ⟨p.anchor, folder ++ [stem ++ x]⟩ ∧ Plain stem ∧
      x.toList.head? = some '.' ∧
      splitExtension p.toString = (Path.toString ⟨p.anchor, folder ++ [stem]⟩, x) := by
  obtain ⟨a, names⟩ := p
  rcases List.eq_nil_or_concat' names with rfl | ⟨folder, last, rfl⟩
  · cases a with
    | relative => exact absurd hd (by decide +kernel)
    | root => exact absurd hd (by decide +kernel)
    | doubleRoot => exact absurd hd (by decide +kernel)
  · have clear := h.slashless last (List.mem_append_right _ List.mem_cons_self)
    obtain ⟨b, hb, written⟩ := exists_leading a folder
    rw [written] at hd
    rw [Dotted, lastName_of_leading hb clear, String.toList_ofList] at hd
    obtain ⟨front, x, he, hx, hf⟩ := exists_stem hd
    have cut : last = String.ofList front ++ String.ofList ('.' :: x) := by
      apply String.toList_injective
      rw [he, String.toList_append, String.toList_ofList, String.toList_ofList]
    refine ⟨folder, String.ofList front, String.ofList ('.' :: x), by rw [← cut], ?_, ?_, ?_⟩
    · obtain ⟨c, hc, hne⟩ := hf
      exact plain_of_mem (by rwa [String.toList_ofList]) hne
    · rw [String.toList_ofList]
      rfl
    · rw [he] at clear
      rw [written, written, he, splitExtension_of_dotted hb clear hx hf, String.toList_ofList]

end Path.Normal

namespace Modules

/-- A normal path without backslashes. -/
structure Clean (p : Path) : Prop where
  normal : p.IsNormal
  unslanted : ∀ n ∈ p.parts, '\\' ∉ n.toList

theorem exists_clean (s : String) : ∃ p, Clean p ∧ normalize s = p.toString := by
  refine ⟨form (s.map fun c => if c = '\\' then '/' else c), ⟨isNormal_form _, ?_⟩,
    normalize_eq _⟩
  intro n hn
  rcases mem_parts_form hn with hn | rfl
  · intro slanted
    have inside := (Text.of_mem_split hn).2 slanted
    rw [String.toList_map, List.mem_map] at inside
    obtain ⟨c, _, hc⟩ := inside
    split at hc
    · exact absurd hc (by decide)
    · rename_i other
      exact other hc
  · decide

theorem Clean.slanted_not_mem (h : Clean p) : '\\' ∉ p.toString.toList := by
  intro inside
  rw [Path.toString] at inside
  split at inside
  · exact absurd inside (by decide)
  · rw [String.toList_append, List.mem_append] at inside
    rcases inside with anchor | names
    · revert anchor
      cases p.anchor <;> decide
    · rcases mem_toList_join names with slash | ⟨n, hn, hc⟩
      · exact absurd slash (by decide)
      · exact h.unslanted n hn hc

theorem normalize_of_clean (h : Clean p) : normalize p.toString = p.toString := by
  have same : (p.toString.map fun c => if c = '\\' then '/' else c) = p.toString := by
    apply String.toList_injective
    rw [String.toList_map]
    conv_rhs => rw [← List.map_id p.toString.toList]
    refine List.map_congr_left fun c hc => if_neg ?_
    rintro rfl
    exact h.slanted_not_mem hc
  rw [normalize, same, normalize_toString h.normal]

theorem Clean.rename (h : Clean ⟨a, folder ++ [last]⟩) (plain : Plain n)
    (slashless : '/' ∉ n.toList) (unslanted : '\\' ∉ n.toList) : Clean ⟨a, folder ++ [n]⟩ where
  normal := h.normal.rename plain slashless
  unslanted := by
    obtain ⟨before, _⟩ := List.forall_mem_append.1 h.unslanted
    exact List.forall_mem_append.2 ⟨before, List.forall_mem_singleton.2 unslanted⟩

theorem Clean.concat (h : Clean ⟨a, folder⟩) (plain : Plain n) (slashless : '/' ∉ n.toList)
    (unslanted : '\\' ∉ n.toList) : Clean ⟨a, folder ++ [n]⟩ where
  normal := h.normal.concat plain slashless
  unslanted := List.forall_mem_append.2 ⟨h.unslanted, List.forall_mem_singleton.2 unslanted⟩

theorem plain_append (he : e ∈ extensions) (n : String) : Plain (n ++ e) := by
  have letter : ∀ e ∈ extensions, 's' ∈ e.toList := by decide
  refine plain_of_mem (c := 's') ?_ (by decide)
  rw [String.toList_append]
  exact List.mem_append_right _ (letter e he)

theorem clear_append {n : String} (he : e ∈ extensions) {c : Char}
    (separates : c = '/' ∨ c = '\\') (hn : c ∉ n.toList) : c ∉ (n ++ e).toList := by
  have slashless : ∀ e ∈ extensions, '/' ∉ e.toList ∧ '\\' ∉ e.toList := by decide
  obtain ⟨slash, slant⟩ := slashless e he
  rw [String.toList_append, List.mem_append, not_or]
  refine ⟨hn, ?_⟩
  rcases separates with rfl | rfl
  · exact slash
  · exact slant

/-- The files beside a path: those that an extension is missing from, and indices of the folder. -/
def beside (path : String) : List String :=
  (extensions.flatMap fun e => [path ++ e, joinText path ("index" ++ e)]).map normalize

/-- The paths of the files beside that of a name in a folder. -/
def besidePaths (a : Anchor) (folder : List String) (n : String) : List Path :=
  extensions.flatMap fun e => [⟨a, folder ++ [n ++ e]⟩, ⟨a, folder ++ [n] ++ ["index" ++ e]⟩]

theorem clean_besidePaths (h : Clean ⟨a, folder ++ [n]⟩) :
    ∀ p ∈ besidePaths a folder n, Clean p := by
  intro p hp
  obtain ⟨e, he, hp⟩ := List.mem_flatMap.1 hp
  have inside : n ∈ folder ++ [n] := List.mem_append_right _ List.mem_cons_self
  have slashless := clear_append he (.inl rfl) (h.normal.slashless n inside)
  have unslanted := clear_append he (.inr rfl) (h.unslanted n inside)
  rcases List.mem_pair.1 hp with rfl | rfl
  · exact h.rename (plain_append he n) slashless unslanted
  · exact h.concat (plain_append he "index") (clear_append he (.inl rfl) (by decide))
      (clear_append he (.inr rfl) (by decide))

theorem beside_toString (h : Clean ⟨a, folder ++ [n]⟩) :
    beside (Path.toString ⟨a, folder ++ [n]⟩) = (besidePaths a folder n).map Path.toString := by
  have written : extensions.flatMap (fun e => [Path.toString ⟨a, folder ++ [n]⟩ ++ e,
        joinText (Path.toString ⟨a, folder ++ [n]⟩) ("index" ++ e)]) =
      (besidePaths a folder n).map Path.toString := by
    have relative : ∀ e ∈ extensions, Text.startsWith ("index" ++ e) "/" = false := by decide
    rw [besidePaths, List.map_flatMap]
    refine List.flatMap_congr fun e he => ?_
    rw [toString_append, joinText_toString h.normal _ (relative e he)]
    rfl
  rw [beside, written, List.map_map]
  exact List.map_congr_left fun p hp => normalize_of_clean (clean_besidePaths h p hp)

theorem mk_concat_inj {folder : List String} {n m : String} :
    (⟨a, folder ++ [n]⟩ : Path) = ⟨a, folder ++ [m]⟩ ↔ n = m := by
  rw [Path.mk.injEq, List.append_cancel_left_eq, List.singleton_inj]
  exact and_iff_right rfl

theorem mk_ne_of_length {names names' : List String} (h : names.length ≠ names'.length) :
    (⟨a, names⟩ : Path) ≠ ⟨a, names'⟩ :=
  fun he => h (congrArg (·.parts.length) he)

theorem not_mem_besidePaths {n x : String} (hx : '.' ∈ x.toList)
    (hp : p ∈ (⟨a, folder ++ [n]⟩ : Path) :: besidePaths a folder n) :
    p ∉ besidePaths a folder (n ++ x) := by
  -- An extension has one dot, so that the names differ in the dots of the part cut off.
  have dots : ∀ e ∈ extensions, e.toList.count '.' = 1 := by decide
  have positive := List.count_pos_iff.2 hx
  intro hq
  obtain ⟨e, he, hq⟩ := List.mem_flatMap.1 hq
  have one := dots e he
  rcases List.mem_cons.1 hp with rfl | hp
  · rcases List.mem_pair.1 hq with same | deeper
    · have counts := congrArg (·.toList.count '.') (mk_concat_inj.1 same)
      simp only [String.toList_append, List.count_append] at counts
      omega
    · exact mk_ne_of_length (by simp) deeper
  · obtain ⟨e', he', hp⟩ := List.mem_flatMap.1 hp
    have one' := dots e' he'
    rcases List.mem_pair.1 hp with rfl | rfl
    · rcases List.mem_pair.1 hq with same | deeper
      · have counts := congrArg (·.toList.count '.') (mk_concat_inj.1 same)
        simp only [String.toList_append, List.count_append] at counts
        omega
      · exact mk_ne_of_length (by simp) deeper
    · rcases List.mem_pair.1 hq with flatter | same
      · exact mk_ne_of_length (by simp) flatter
      · have folders := List.append_inj_left' (Path.mk.inj same).2 rfl
        have names := List.singleton_inj.1 (List.append_cancel_left folders)
        have counts := congrArg (·.toList.count '.') names
        simp only [String.toList_append, List.count_append] at counts
        omega

/-- The path that a specifier in a file names. -/
def specified (importer specifier : String) : String :=
  normalize (joinText (directory (normalize importer)) specifier)

/-- The files that are tried for a path which is none itself: those beside it, or beside it without
its extension. -/
theorem attempts_cases (path : String) :
    attempts path = normalize path :: beside (normalize path) ∧ ¬ Dotted (normalize path) ∨
    Dotted (normalize path) ∧ ∃ others, attempts path = normalize path :: others ∧
      ∀ c ∈ others, c ∉ beside (normalize path) := by
  obtain ⟨⟨a, names⟩, clean, written⟩ := exists_clean path
  rw [attempts, written]
  by_cases hd : Dotted (Path.toString ⟨a, names⟩)
  · refine .inr ⟨hd, ?_⟩
    obtain ⟨folder, n, x, he, plain, hx, cut⟩ := exists_splitExtension clean.normal hd
    obtain rfl : names = folder ++ [n ++ x] := (Path.mk.inj he).2
    have dot : '.' ∈ x.toList := List.mem_of_mem_head? hx
    have given : x ≠ "" := by
      rintro rfl
      exact List.not_mem_nil dot
    have inside : n ++ x ∈ folder ++ [n ++ x] := List.mem_append_right _ List.mem_cons_self
    have keeps : n.toList ⊆ (n ++ x).toList := by
      rw [String.toList_append]
      exact List.subset_append_left _ _
    have stem : Clean ⟨a, folder ++ [n]⟩ := clean.rename plain
      (fun hc => clean.normal.slashless _ inside (keeps hc))
      (fun hc => clean.unslanted _ inside (keeps hc))
    refine ⟨((⟨a, folder ++ [n]⟩ : Path) :: besidePaths a folder n).map Path.toString, ?_, ?_⟩
    · rw [cut]
      dsimp only
      rw [if_neg given, List.map_append, List.map_cons, List.map_cons, ← beside,
        normalize_of_clean clean, normalize_of_clean stem, beside_toString stem]
      rfl
    · rw [beside_toString clean]
      intro c hc hc'
      obtain ⟨p, hp, rfl⟩ := List.mem_map.1 hc
      obtain ⟨q, hq, same⟩ := List.mem_map.1 hc'
      have normal : p.IsNormal := by
        rcases List.mem_cons.1 hp with rfl | hp
        · exact stem.normal
        · exact (clean_besidePaths stem p hp).normal
      cases toString_injective (clean_besidePaths clean q hq).normal normal same
      exact not_mem_besidePaths dot hp hq
  · refine .inl ⟨?_, hd⟩
    rw [splitExtension_toString clean.normal hd]
    exact congrArg (· :: _) (normalize_of_clean clean)

end Modules

namespace Resolver
open Modules

/-- If the path that a specifier names is no file, the first file beside it is found as long as its
last name is not dotted. If it is dotted, no file beside it is found. -/
theorem resolveModule_beside (facts : RepositoryFacts) (history : List Question)
    (importer specifier : String)
    (unscanned : ((Index.ofFacts facts).file? (specified importer specifier)).isSome = false) :
    let path := specified importer specifier
    let scanned := fun c => ((Index.ofFacts facts).file? c).isSome
    let found := (((ofFacts facts).answerAll history).2.resolveModule importer specifier).1
    (¬ Dotted path → found = (beside path).find? scanned) ∧
      ((∃ c ∈ beside path, scanned c = true) →
        ((∃ c ∈ beside path, scanned c = true ∧ found = some c) ↔ ¬ Dotted path)) := by
  intro path scanned found
  have tried : found = (attempts (joinText (directory (Modules.normalize importer))
      specifier)).find? scanned :=
    ((coherent_answerAll facts history).resolveModule importer specifier).trans
      (Index.find?_eq_first? _ _ _)
  have neg : ¬ scanned path = true := Bool.eq_false_iff.1 unscanned
  rcases attempts_cases (joinText (directory (Modules.normalize importer)) specifier) with
    ⟨all, undotted⟩ | ⟨dotted, others, all, apart⟩
  · have first : found = (beside path).find? scanned := by
      rw [tried, all]
      exact List.find?_cons_of_neg neg
    refine ⟨fun _ => first, fun some => ⟨fun _ => undotted, fun _ => ?_⟩⟩
    obtain ⟨c, hc⟩ := Option.isSome_iff_exists.1 (List.find?_isSome.2 some)
    exact ⟨c, List.mem_of_find?_eq_some hc, List.find?_some hc, first.trans hc⟩
  · have first : found = others.find? scanned := by
      rw [tried, all]
      exact List.find?_cons_of_neg neg
    refine ⟨fun undotted => (undotted dotted).elim, fun _ => ⟨?_, fun undotted => ?_⟩⟩
    · rintro ⟨c, hc, _, hf⟩
      exact (apart c (List.mem_of_find?_eq_some (first.symm.trans hf)) hc).elim
    · exact (undotted dotted).elim

/-- A specifier of a folder stands for the index in it. -/
theorem resolveModule_folder :
    let facts : RepositoryFacts := { files := [{ path := "lib/index.ts" }] }
    ((Index.ofFacts facts).file? (specified "a/main.ts" "../lib")).isSome = false ∧
      (((ofFacts facts).answerAll []).2.resolveModule "a/main.ts" "../lib").1 =
        some "lib/index.ts" := by
  intro facts
  have path : specified "a/main.ts" "../lib" = "lib" := by decide +kernel
  have first : (beside "lib").find? (fun c => ((Index.ofFacts facts).file? c).isSome) =
      some "lib/index.ts" := by decide +kernel
  have unscanned :
      ((Index.ofFacts facts).file? (specified "a/main.ts" "../lib")).isSome = false := by
    rw [path]
    decide +kernel
  have found := (resolveModule_beside facts [] "a/main.ts" "../lib" unscanned).1
  rw [path, first] at found
  exact ⟨unscanned, found (by decide +kernel)⟩

/-- A dot inside the last name is taken for the start of an extension. The file that the specifier
stands for is not tried, and one that it does not stand for is found. -/
theorem resolveModule_dotted :
    let facts : RepositoryFacts := { files := [{ path := "a.b.ts" }, { path := "a.ts" }] }
    specified "main.ts" "./a.b" = "a.b" ∧ ((Index.ofFacts facts).file? "a.b").isSome = false ∧
      ((Index.ofFacts facts).file? ("a.b" ++ ".ts")).isSome = true ∧
      ((ofFacts facts).resolveModule "main.ts" "./a.b").1 = some "a.ts" ∧
      "a.ts" ∉ beside "a.b" := by
  intro facts
  have found : (Index.ofFacts facts).first? (Modules.normalize "main.ts") "./a.b" =
      some "a.ts" := by decide +kernel
  refine ⟨by decide +kernel, by decide +kernel, by decide +kernel, ?_, by decide +kernel⟩
  rw [fresh_resolveModule, Index.find?_eq_first?, found]

end Resolver

end PackageUsage
