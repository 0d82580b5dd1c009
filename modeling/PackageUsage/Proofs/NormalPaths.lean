import Mathlib.Data.List.Basic
import PackageUsage.Path.Normal
import PackageUsage.Proofs.SplitText

namespace PackageUsage.Path
set_option autoImplicit true

/-- A name that stands for an entry of a folder. -/
structure Plain (name : String) : Prop where
  given : name ≠ ""
  dot : name ≠ "."
  parent : name ≠ ".."

theorem plain_of_mem {s : String} (hc : c ∈ s.toList) (hne : c ≠ '.') : Plain s where
  given := by
    rintro rfl
    exact List.not_mem_nil hc
  dot := by
    rintro rfl
    exact hne (List.mem_singleton.1 hc)
  parent := by
    rintro rfl
    exact hne (List.eq_of_mem_replicate (n := 2) hc)

namespace Normal

/-- Names that nothing is left to be undone in, the last one first. Those that lead upwards come
before all others, and never at the root. -/
inductive Settled (absolute : Bool) : List String → Prop
  | nil : Settled absolute []
  | name : Plain n → Settled absolute stack → Settled absolute (n :: stack)
  | up : absolute = false → (∀ name ∈ stack, name = "..") → Settled absolute (".." :: stack)

theorem Settled.tail (h : Settled absolute (n :: stack)) : Settled absolute stack := by
  cases h with
  | name _ h => exact h
  | up relative all =>
    cases stack with
    | nil => exact .nil
    | cons name stack =>
      cases all name List.mem_cons_self
      exact .up relative fun name hn => all name (List.mem_cons_of_mem _ hn)

theorem Settled.given (h : Settled absolute stack) : ∀ name ∈ stack, name ≠ "" := by
  induction stack with
  | nil => exact nofun
  | cons name stack ih =>
    refine List.forall_mem_cons.2 ⟨?_, ih h.tail⟩
    cases h with
    | name plain _ => exact plain.given
    | up _ _ => decide

theorem push_plain (plain : Plain n) (absolute : Bool) (stack : List String) :
    push absolute stack n = n :: stack := by
  rw [push.eq_def, if_neg (not_or.2 ⟨plain.given, plain.dot⟩), if_pos plain.parent]

theorem push_parent (plain : Plain n) (absolute : Bool) (stack : List String) :
    push absolute (n :: stack) ".." = stack := by
  rw [push.eq_def]
  dsimp only
  rw [if_neg (by decide), if_neg (by decide), if_neg plain.parent]

theorem settled_push (h : Settled absolute stack) (n : String) :
    Settled absolute (push absolute stack n) := by
  by_cases empty : n = "" ∨ n = "."
  · rwa [push.eq_def, if_pos empty]
  by_cases parent : n = ".."
  · rw [push.eq_def, if_neg empty, if_neg (not_not_intro parent)]
    cases stack with
    | nil =>
      cases absolute with
      | false => exact .up rfl nofun
      | true => exact .nil
    | cons top below =>
      dsimp only
      split
      · rename_i climbs
        subst climbs
        cases h with
        | name plain _ => exact (plain.parent rfl).elim
        | up relative all => exact .up relative (List.forall_mem_cons.2 ⟨rfl, all⟩)
      · exact h.tail
  · rw [not_or] at empty
    have plain : Plain n := ⟨empty.1, empty.2, parent⟩
    rw [push_plain plain]
    exact .name plain h

theorem settled_foldl_push (names : List String) (h : Settled absolute stack) :
    Settled absolute (names.foldl (push absolute) stack) := by
  induction names generalizing stack with
  | nil => exact h
  | cons name names ih => exact ih (settled_push h name)

theorem push_of_settled (h : Settled absolute (n :: stack)) :
    push absolute stack n = n :: stack := by
  cases h with
  | name plain _ => exact push_plain plain absolute stack
  | up relative all =>
    subst relative
    cases stack with
    | nil => rfl
    | cons top below =>
      cases all top List.mem_cons_self
      rfl

theorem foldl_push_reverse (h : Settled absolute stack) :
    stack.reverse.foldl (push absolute) [] = stack := by
  induction stack with
  | nil => rfl
  | cons name stack ih =>
    rw [List.reverse_cons, List.foldl_append, ih h.tail]
    exact push_of_settled h

theorem mem_foldl_push {names : List String} (h : n ∈ names.foldl (push absolute) stack) :
    n ∈ names ∨ n ∈ stack ∨ n = ".." := by
  induction names generalizing stack with
  | nil => exact .inr (.inl h)
  | cons next names ih =>
    rcases ih h with hn | hs | parent
    · exact .inl (List.mem_cons_of_mem _ hn)
    · rw [push.eq_def] at hs
      split at hs
      · exact .inr (.inl hs)
      split at hs
      · rcases List.mem_cons.1 hs with rfl | hs
        · exact .inl List.mem_cons_self
        · exact .inr (.inl hs)
      split at hs
      · split at hs
        · cases hs
        · exact .inr (.inr (List.mem_singleton.1 hs))
      · split at hs
        · rcases List.mem_cons.1 hs with rfl | hs
          · exact .inr (.inr rfl)
          · exact .inr (.inl hs)
        · exact .inr (.inl (List.mem_cons_of_mem _ hs))
    · exact .inr (.inr parent)

end Normal

/-- A path in normal form. -/
structure IsNormal (p : Path) : Prop where
  settled : Normal.Settled (p.anchor != .relative) p.parts.reverse
  slashless : ∀ name ∈ p.parts, '/' ∉ name.toList

theorem IsNormal.given {p : Path} (h : p.IsNormal) : ∀ name ∈ p.parts, name ≠ "" :=
  fun name hn => h.settled.given name (List.mem_reverse.2 hn)

theorem IsNormal.rename (h : IsNormal ⟨a, folder ++ [last]⟩) (plain : Plain n)
    (slashless : '/' ∉ n.toList) : IsNormal ⟨a, folder ++ [n]⟩ where
  settled := by
    have settled := h.settled
    rw [List.reverse_concat] at settled ⊢
    exact .name plain settled.tail
  slashless := by
    obtain ⟨before, _⟩ := List.forall_mem_append.1 h.slashless
    exact List.forall_mem_append.2 ⟨before, List.forall_mem_singleton.2 slashless⟩

theorem IsNormal.concat (h : IsNormal ⟨a, folder⟩) (plain : Plain n)
    (slashless : '/' ∉ n.toList) : IsNormal ⟨a, folder ++ [n]⟩ where
  settled := by
    rw [List.reverse_concat]
    exact .name plain h.settled
  slashless := List.forall_mem_append.2 ⟨h.slashless, List.forall_mem_singleton.2 slashless⟩

theorem toList_join_cons (name : String) (rest : List String) :
    ∃ more, (Text.join "/" (name :: rest)).toList = name.toList ++ more := by
  cases rest with
  | nil => exact ⟨[], (List.append_nil _).symm⟩
  | cons next rest =>
    rw [Text.join, String.intercalate_cons_cons, String.append_assoc, String.toList_append]
    exact ⟨_, rfl⟩

theorem exists_toList_join {names : List String} (given : names ≠ [])
    (h : ∀ name ∈ names, name ≠ "" ∧ '/' ∉ name.toList) :
    ∃ c cs, (Text.join "/" names).toList = c :: cs ∧ c ≠ '/' := by
  cases names with
  | nil => exact (given rfl).elim
  | cons name rest =>
    obtain ⟨named, slashless⟩ := h name List.mem_cons_self
    obtain ⟨more, he⟩ := toList_join_cons name rest
    cases hc : name.toList with
    | nil => exact (named (String.toList_eq_nil_iff.1 hc)).elim
    | cons c cs =>
      rw [hc, List.cons_append] at he
      refine ⟨c, _, he, ?_⟩
      rintro rfl
      exact slashless (hc ▸ List.mem_cons_self)

theorem anchorOf_relative (h : c ≠ '/') : anchorOf (c :: cs) = .relative := by
  simp [anchorOf, h]

theorem anchorOf_root (h : c ≠ '/') : anchorOf ('/' :: c :: cs) = .root := by
  simp [anchorOf, h]

theorem anchorOf_doubleRoot (h : c ≠ '/') : anchorOf ('/' :: '/' :: c :: cs) = .doubleRoot := by
  simp [anchorOf, h]

theorem child_of_name (one : '/' ∉ s.toList) (given : s ≠ "") (dot : s ≠ ".")
    (folder : Path) : folder.child s = ⟨folder.anchor, folder.parts ++ [s]⟩ := by
  have relative : anchorOf s.toList = .relative := by
    cases hs : s.toList with
    | nil => rfl
    | cons c cs =>
      apply anchorOf_relative
      rintro rfl
      exact one (hs ▸ List.mem_cons_self)
  have named : (s != "" && s != ".") = true := by simp [given, dot]
  have read : ofString s = ⟨.relative, [s]⟩ := by
    unfold ofString
    rw [relative, Text.split_eq_singleton one, List.filter_cons, if_pos named, List.filter_nil]
  unfold child
  rw [read]
  rfl

namespace Normal

/-- The normal form of a written path. -/
def form (s : String) : Path :=
  let anchor := anchorOf s.toList
  ⟨anchor, collapse (anchor != .relative) (Text.split '/' s)⟩

theorem mem_parts_form (h : n ∈ (form s).parts) : n ∈ Text.split '/' s ∨ n = ".." := by
  rcases mem_foldl_push (List.mem_reverse.1 h) with hn | hn | hn
  · exact .inl hn
  · cases hn
  · exact .inr hn

theorem isNormal_form (s : String) : (form s).IsNormal where
  settled := by
    rw [form, collapse, List.reverse_reverse]
    exact settled_foldl_push _ .nil
  slashless := by
    intro name hn
    rcases mem_parts_form hn with hn | rfl
    · exact Text.not_mem_of_mem_split hn
    · decide

theorem written_eq_empty_iff {p : Path} (h : p.IsNormal) :
    Anchor.text p.anchor ++ Text.join "/" p.parts = "" ↔ p.anchor = .relative ∧ p.parts = [] := by
  constructor
  · intro empty
    obtain ⟨anchor, names⟩ := String.append_eq_empty_iff.1 empty
    constructor
    · cases ha : p.anchor with
      | relative => rfl
      | root => exact absurd (ha ▸ anchor) (by decide)
      | doubleRoot => exact absurd (ha ▸ anchor) (by decide)
    · apply Decidable.byContradiction
      intro given
      obtain ⟨c, cs, he, _⟩ := exists_toList_join given fun n hn => ⟨h.given n hn, h.slashless n hn⟩
      rw [names] at he
      cases he
  · intro ⟨relative, nameless⟩
    rw [relative, nameless]
    rfl

theorem normalize_eq (s : String) : normalize s = (form s).toString := by
  have empty := written_eq_empty_iff (isNormal_form s)
  by_cases given : (form s).anchor = .relative ∧ (form s).parts = []
  · rw [Path.toString, if_pos given]
    exact if_pos (empty.2 given)
  · rw [Path.toString, if_neg given]
    exact if_neg (mt empty.1 given)

/-- A text that begins as a normal path does and has its names is read as that path. -/
theorem form_eq (empties : List String) (h : IsNormal ⟨a, names⟩) (ha : anchorOf s.toList = a)
    (hs : Text.split '/' s = empties ++ names) (he : ∀ n ∈ empties, n = "") :
    form s = ⟨a, names⟩ := by
  have skipped : empties.foldl (push (a != .relative)) [] = [] := by
    clear hs
    induction empties with
    | nil => rfl
    | cons n rest ih =>
      obtain ⟨rfl, hrest⟩ := List.forall_mem_cons.1 he
      exact ih hrest
  have settled := foldl_push_reverse h.settled
  rw [List.reverse_reverse] at settled
  rw [form, ha, hs, collapse, List.foldl_append, skipped, settled, List.reverse_reverse]

theorem form_toString {p : Path} (h : p.IsNormal) : form p.toString = p := by
  obtain ⟨a, names⟩ := p
  by_cases given : names = []
  · subst given
    cases a with
    | relative => decide +kernel
    | root => decide +kernel
    | doubleRoot => decide +kernel
  obtain ⟨c, cs, he, hc⟩ := exists_toList_join given fun n hn => ⟨h.given n hn, h.slashless n hn⟩
  have pieces := Text.split_join given h.slashless
  have written : Path.toString ⟨a, names⟩ = Anchor.text a ++ Text.join "/" names := by
    rw [Path.toString, if_neg fun none => given none.2]
  have before (s : String) : Text.split '/' (s ++ "/" ++ Text.join "/" names) =
      Text.split '/' s ++ names := (Text.split_append '/' s _).trans (by rw [pieces])
  rw [written]
  cases a with
  | relative =>
    refine form_eq [] h ?_ ?_ nofun
    · rw [String.toList_append, he]
      exact anchorOf_relative hc
    · rw [Anchor.text, String.empty_append, pieces, List.nil_append]
  | root =>
    refine form_eq [""] h ?_ (before "") fun n hn => List.mem_singleton.1 hn
    rw [String.toList_append, he]
    exact anchorOf_root hc
  | doubleRoot =>
    refine form_eq ["", ""] h ?_ (before "/") (by decide)
    rw [String.toList_append, he]
    exact anchorOf_doubleRoot hc

theorem normalize_toString {p : Path} (h : p.IsNormal) : normalize p.toString = p.toString := by
  rw [normalize_eq, form_toString h]

theorem toString_injective {p q : Path} (hp : p.IsNormal) (hq : q.IsNormal)
    (h : p.toString = q.toString) : p = q := by
  rw [← form_toString hp, h, form_toString hq]

/-- The characters before the last name of a written path: none, or up to a slash. -/
def Leading (b : List Char) : Prop := b = [] ∨ ∃ cs, b = cs ++ ['/']

theorem join_concat {names : List String} (given : names ≠ []) (n : String) :
    Text.join "/" (names ++ [n]) = Text.join "/" names ++ "/" ++ n := by
  rw [Text.join_append given (List.cons_ne_nil n []), Text.join, Text.join,
    String.intercalate_singleton]

theorem exists_leading_join (folder : List String) :
    ∃ b, Leading b ∧ ∀ n : String, (Text.join "/" (folder ++ [n])).toList = b ++ n.toList := by
  by_cases given : folder = []
  · refine ⟨[], .inl rfl, fun n => ?_⟩
    rw [given, List.nil_append, Text.join, String.intercalate_singleton, List.nil_append]
  · refine ⟨(Text.join "/" folder).toList ++ ['/'], .inr ⟨_, rfl⟩, fun n => ?_⟩
    rw [join_concat given, String.toList_append, String.toList_append]
    rfl

theorem exists_leading (a : Anchor) (folder : List String) :
    ∃ b, Leading b ∧
      ∀ n : String, Path.toString ⟨a, folder ++ [n]⟩ = String.ofList (b ++ n.toList) := by
  obtain ⟨b, hb, written⟩ := exists_leading_join folder
  refine ⟨(Anchor.text a).toList ++ b, ?_, fun n => ?_⟩
  · rcases hb with rfl | ⟨cs, rfl⟩
    · rw [List.append_nil]
      cases a with
      | relative => exact .inl rfl
      | root => exact .inr ⟨[], rfl⟩
      | doubleRoot => exact .inr ⟨['/'], rfl⟩
    · exact .inr ⟨_, (List.append_assoc ..).symm⟩
  · have given : folder ++ [n] ≠ [] :=
      List.append_ne_nil_of_right_ne_nil folder (List.cons_ne_nil n [])
    apply String.toList_injective
    rw [Path.toString, if_neg fun none => given none.2, String.toList_append, written,
      String.toList_ofList, List.append_assoc]

theorem mem_toList_join {names : List String} (h : c ∈ (Text.join "/" names).toList) :
    c = '/' ∨ ∃ n ∈ names, c ∈ n.toList := by
  induction names with
  | nil => exact (List.not_mem_nil h).elim
  | cons first rest ih =>
    cases rest with
    | nil => exact .inr ⟨first, List.mem_cons_self, h⟩
    | cons second rest =>
      rw [Text.join, String.intercalate_cons_cons, String.toList_append, String.toList_append,
        List.mem_append, List.mem_append] at h
      rcases h with (h | h) | h
      · exact .inr ⟨first, List.mem_cons_self, h⟩
      · exact .inl (List.mem_singleton.1 h)
      · rcases ih h with slash | ⟨n, hn, hc⟩
        · exact .inl slash
        · exact .inr ⟨n, List.mem_cons_of_mem _ hn, hc⟩

theorem toString_append (a : Anchor) (folder : List String) (n e : String) :
    Path.toString ⟨a, folder ++ [n]⟩ ++ e = Path.toString ⟨a, folder ++ [n ++ e]⟩ := by
  obtain ⟨b, _, written⟩ := exists_leading a folder
  apply String.toList_injective
  rw [written, written, String.toList_append, String.toList_ofList, String.toList_ofList,
    String.toList_append, List.append_assoc]

theorem joinText_toString (h : IsNormal ⟨a, folder ++ [last]⟩) (n : String)
    (hn : Text.startsWith n "/" = false) :
    joinText (Path.toString ⟨a, folder ++ [last]⟩) n =
      Path.toString ⟨a, folder ++ [last] ++ [n]⟩ := by
  have inside : last ∈ folder ++ [last] := List.mem_append_right _ List.mem_cons_self
  have given : folder ++ [last] ≠ [] := List.ne_nil_of_mem inside
  obtain ⟨b, _, written⟩ := exists_leading a folder
  have clear := h.slashless last inside
  obtain ⟨cs, c, hc⟩ : ∃ cs c, last.toList = cs ++ [c] := by
    rcases List.eq_nil_or_concat' last.toList with empty | he
    · exact (h.given last inside (String.toList_eq_nil_iff.1 empty)).elim
    · exact he
  have unended : ¬ (Path.toString ⟨a, folder ++ [last]⟩ = "" ∨
      Text.endsWith (Path.toString ⟨a, folder ++ [last]⟩) "/" = true) := by
    rw [written, hc, ← List.append_assoc]
    rintro (empty | slash)
    · have length := congrArg String.toList empty
      rw [String.toList_ofList] at length
      exact List.append_ne_nil_of_right_ne_nil _ (List.cons_ne_nil c []) length
    · simp only [Text.endsWith, List.isSuffixOf_iff_suffix, String.toList_ofList] at slash
      obtain ⟨before, he⟩ := slash
      have same := congrArg List.getLast? he
      change (before ++ ['/']).getLast? = _ at same
      rw [List.getLast?_concat, List.getLast?_concat, Option.some.injEq] at same
      rw [hc, ← same] at clear
      exact clear (List.mem_append_right _ List.mem_cons_self)
  rw [joinText, if_neg (Bool.eq_false_iff.1 hn), if_neg unended, Path.toString, Path.toString,
    if_neg fun none => given none.2,
    if_neg fun none => List.append_ne_nil_of_left_ne_nil given [n] none.2, join_concat given]
  simp only [String.append_assoc]

end Normal

end PackageUsage.Path
