import PackageUsage.Proofs.NarrowedLines
import PackageUsage.Proofs.PatternMatching

namespace PackageUsage.Narrowing
set_option autoImplicit true

namespace Pattern

def blanks : Pattern := many Text.isBlank

def gap : Pattern := sequence [one Text.isBlank, many Text.isBlank]

def name : Pattern := sequence [one isNameStart, many isNameChar]

def quote : Pattern := one isQuote

def unquoted : Pattern := sequence [one (!isQuote ·), many (!isQuote ·)]

def keyword : Pattern :=
  either (word "const".toList) (either (word "let".toList) (word "var".toList))

/-- White space with at most one semicolon. -/
def ending : Pattern := sequence [blanks, maybe (· == ';'), blanks]

def importFront : Pattern := sequence
  [group blanks, word "import".toList, gap, word ['\x7b'], blanks, group name, blanks,
    word ['\x7d'], gap, word "from".toList, gap, group quote, group unquoted, group quote]

def requireFront : Pattern := sequence
  [group blanks, group keyword, gap, word ['\x7b'], blanks, group name, blanks, word ['\x7d'],
    blanks, word ['='], blanks, word "require(".toList, group quote, group unquoted, group quote,
    word [')']]

def importPattern : Pattern := next importFront (group ending)

def requirePattern : Pattern := next requireFront (group ending)

theorem reads_blanks : Reads blanks Blank := fun _ _ => .rfl

theorem reads_gap : Reads gap Gap := (reads_some _ _).congr fun _ => exists_cons_iff

theorem reads_name : Reads name IsName := reads_some _ _

theorem reads_unquoted : Reads unquoted IsModule := by
  refine (reads_some _ _).congr fun cs => exists_cons_iff.trans ?_
  simp only [Bool.not_eq_true', IsModule, Unquoted]

theorem reads_quote : Reads quote fun cs => ∃ q, isQuote q = true ∧ cs = [q] := fun _ _ => .rfl

theorem reads_keyword : Reads keyword (· ∈ keywords) := by
  refine ((reads_word _).either ((reads_word _).either (reads_word _))).congr fun cs => ?_
  simp only [keywords, List.mem_cons, List.not_mem_nil, or_false]

theorem reads_ending : Reads ending Ending := by
  intro gs cs
  constructor
  · intro h
    obtain ⟨before, _, hb, rfl, found⟩ := (matches_skip reads_blanks).1 h
    obtain ⟨_, _, middle, _, ⟨rfl, hm⟩, last, rfl, rfl⟩ := found
    obtain ⟨after, _, ha, rfl, rfl, rfl⟩ := (matches_skip reads_blanks).1 last
    refine ⟨rfl, before, after, hb, ha, ?_⟩
    rcases hm with rfl | ⟨c, hc, rfl⟩
    · exact .inl (by rw [List.nil_append, List.append_nil])
    · exact .inr (by rw [beq_iff_eq.1 hc, List.append_nil, List.singleton_append])
  · rintro ⟨rfl, before, after, hb, ha, split⟩
    have last : (sequence [blanks]).Matches [] after :=
      (matches_skip reads_blanks).2 ⟨after, [], ha, (List.append_nil after).symm, rfl, rfl⟩
    rcases split with rfl | rfl
    · exact (matches_skip reads_blanks).2 ⟨before, after, hb, rfl,
        [], [], [], after, ⟨rfl, .inl rfl⟩, last, rfl, rfl⟩
    · exact (matches_skip reads_blanks).2 ⟨before, ';' :: after, hb, rfl,
        [], [], [';'], after, ⟨rfl, .inr ⟨';', rfl, rfl⟩⟩, last, rfl, rfl⟩

end Pattern

/-- What stands before a quoted module. -/
inductive Opens : Form → List Char → List Char → List Char → Prop
  | importFrom {indent a b name c d e : List Char} (indented : Blank indent) (g₁ : Gap a)
      (s₁ : Blank b) (s₂ : Blank c) (g₂ : Gap d) (g₃ : Gap e) :
      Opens .importFrom indent name (indent ++ ("import".toList ++ (a ++ '\x7b' :: (b ++
        (name ++ (c ++ '\x7d' :: (d ++ ("from".toList ++ e))))))))
  | require {keyword indent a b name c d e : List Char} (known : keyword ∈ keywords)
      (indented : Blank indent) (g : Gap a) (s₁ : Blank b) (s₂ : Blank c) (s₃ : Blank d)
      (s₄ : Blank e) :
      Opens (.require keyword) indent name (indent ++ (keyword ++ (a ++ '\x7b' :: (b ++
        (name ++ (c ++ '\x7d' :: (d ++ '=' :: (e ++ "require(".toList))))))))

/-- What a pattern keeps besides what it keeps of every line. -/
def Form.kept : Form → List (List Char)
  | importFrom => []
  | require keyword => [keyword]

/-- A line up to its end, of which the quotes may differ, and its groups. -/
inductive Fronts (how : Form) : List (List Char) → List Char → Prop
  | of {indent name front m : List Char} {q q' : Char} (opens : Opens how indent name front)
      (named : IsName name) (inside : IsModule m) (opening : isQuote q = true)
      (closing : isQuote q' = true) :
      Fronts how (indent :: how.kept ++ [name, [q], m, [q']])
        (front ++ q :: (m ++ q' :: how.closing))

namespace Pattern

theorem matches_importFront : importFront.Matches gs cs ↔ Fronts .importFrom gs cs := by
  simp only [importFront, matches_keep reads_blanks, matches_skip (reads_word _),
    matches_skip reads_gap, matches_skip reads_blanks, matches_keep reads_name,
    matches_keep reads_quote, matches_keep reads_unquoted]
  constructor
  · intro h
    obtain ⟨indent, _, _, blank, rfl, rfl, _, _, rfl, rfl, a, _, ga, rfl, _, _, rfl, rfl, h⟩ := h
    obtain ⟨b, _, sb, rfl, n, _, _, named, rfl, rfl, c, _, sc, rfl, _, _, rfl, rfl, h⟩ := h
    obtain ⟨d, _, gd, rfl, _, _, rfl, rfl, e, _, ge, rfl, h⟩ := h
    obtain ⟨_, _, _, ⟨q, opening, rfl⟩, rfl, rfl, m, _, _, inside, rfl, rfl, h⟩ := h
    obtain ⟨_, _, _, ⟨q', closing, rfl⟩, rfl, rfl, rfl, rfl⟩ := h
    have front := Fronts.of (.importFrom blank ga sb sc gd ge) named inside opening closing
    simpa only [Form.kept, Form.closing, List.append_assoc, List.cons_append, List.nil_append]
      using front
  · rintro ⟨opens, named, inside, opening, closing⟩
    cases opens with
    | importFrom blank ga sb sc gd ge =>
      simp only [List.append_assoc, List.cons_append]
      exact ⟨_, _, _, blank, rfl, rfl, _, _, rfl, rfl, _, _, ga, rfl, ['\x7b'], _, rfl, rfl,
        _, _, sb, rfl, _, _, _, named, rfl, rfl, _, _, sc, rfl, ['\x7d'], _, rfl, rfl,
        _, _, gd, rfl, _, _, rfl, rfl, _, _, ge, rfl, [_], _, _, ⟨_, opening, rfl⟩, rfl, rfl,
        _, _, _, inside, rfl, rfl, [_], [], [], ⟨_, closing, rfl⟩, rfl, rfl, rfl, rfl⟩

theorem matches_requireFront : requireFront.Matches gs cs ↔
    ∃ keyword ∈ keywords, Fronts (.require keyword) gs cs := by
  simp only [requireFront, matches_keep reads_blanks, matches_keep reads_keyword,
    matches_skip (reads_word _), matches_skip reads_gap, matches_skip reads_blanks,
    matches_keep reads_name, matches_keep reads_quote, matches_keep reads_unquoted]
  constructor
  · intro h
    obtain ⟨indent, _, _, blank, rfl, rfl, keyword, _, _, known, rfl, rfl, h⟩ := h
    obtain ⟨a, _, ga, rfl, _, _, rfl, rfl, b, _, sb, rfl, n, _, _, named, rfl, rfl, h⟩ := h
    obtain ⟨c, _, sc, rfl, _, _, rfl, rfl, d, _, sd, rfl, _, _, rfl, rfl, h⟩ := h
    obtain ⟨e, _, se, rfl, _, _, rfl, rfl, h⟩ := h
    obtain ⟨_, _, _, ⟨q, opening, rfl⟩, rfl, rfl, m, _, _, inside, rfl, rfl, h⟩ := h
    obtain ⟨_, _, _, ⟨q', closing, rfl⟩, rfl, rfl, _, _, rfl, rfl, rfl, rfl⟩ := h
    have front := Fronts.of (.require known blank ga sb sc sd se) named inside opening closing
    refine ⟨keyword, known, ?_⟩
    simpa only [Form.kept, Form.closing, List.append_assoc, List.cons_append, List.nil_append]
      using front
  · rintro ⟨keyword, known, opens, named, inside, opening, closing⟩
    cases opens with
    | require _ blank ga sb sc sd se =>
      simp only [List.append_assoc, List.cons_append]
      exact ⟨_, _, _, blank, rfl, rfl, _, _, _, known, rfl, rfl, _, _, ga, rfl, ['\x7b'], _, rfl,
        rfl, _, _, sb, rfl, _, _, _, named, rfl, rfl, _, _, sc, rfl, ['\x7d'], _, rfl, rfl,
        _, _, sd, rfl, ['='], _, rfl, rfl, _, _, se, rfl, _, _, rfl, rfl,
        [_], _, _, ⟨_, opening, rfl⟩, rfl, rfl, _, _, _, inside, rfl, rfl,
        [_], _, [], ⟨_, closing, rfl⟩, rfl, rfl, [')'], [], rfl, rfl, rfl, rfl⟩

/-- Of all ways in which the end of a line matches, the one that takes everything is tried first. -/
theorem run_ending (h : Ending cs) (hk : k gs [] = some b) : ending.run k gs cs = some b := by
  obtain ⟨before, after, hb, ha, rfl | rfl⟩ := h
  · exact runMany_all (List.forall_mem_append.2 ⟨hb, ha⟩) hk
  · apply runMany_append hb
    have black : ¬ Text.isBlank ';' = true := by decide
    rw [runMany, if_neg black]
    change Option.or (runMany Text.isBlank (k gs) after) _ = _
    rw [runMany_all ha hk, Option.some_or]

theorem ending_append (h : Ending cs) (hr : rest = [] ∨ rest = ['\n']) : Ending (cs ++ rest) := by
  have blank : Blank rest := by
    rcases hr with rfl | rfl
    · exact List.forall_mem_nil _
    · exact List.forall_mem_singleton.2 (by decide)
  obtain ⟨before, after, hb, ha, rfl | rfl⟩ := h
  · exact ⟨before, after ++ rest, hb, List.forall_mem_append.2 ⟨ha, blank⟩,
      .inl (List.append_assoc ..)⟩
  · exact ⟨before, after ++ rest, hb, List.forall_mem_append.2 ⟨ha, blank⟩,
      .inr (List.append_assoc ..)⟩

theorem run_group_ending :
    (group ending).run atEnd gs cs = some kept ↔ Ending cs ∧ kept = gs ++ [cs] := by
  have taken (h : Ending cs) : (group ending).run atEnd gs cs = some (gs ++ [cs]) := by
    apply run_ending h
    rw [List.length_nil, Nat.sub_zero, List.take_length]
    rfl
  constructor
  · intro h
    obtain ⟨new, text, rest, ⟨_, hm, _⟩, rfl, hk⟩ := run_eq_some h
    have ended : rest = [] ∨ rest = ['\n'] := by
      rw [atEnd] at hk
      split at hk
      · assumption
      · cases hk
    have all := ending_append ((reads_ending _ _).1 hm).2 ended
    exact ⟨all, Option.some.inj (h.symm.trans (taken all))⟩
  · rintro ⟨ended, rfl⟩
    exact taken ended

theorem firstMatch?_eq_some {a : Pattern} (h : (next a (group ending)).firstMatch? cs = some gs) :
    ∃ kept text tail, a.Matches kept text ∧ Ending tail ∧ cs = text ++ tail ∧
      gs = kept ++ [tail] := by
  obtain ⟨kept, text, tail, hm, rfl, hk⟩ := run_eq_some (a := a) h
  obtain ⟨ended, rfl⟩ := run_group_ending.1 hk
  exact ⟨kept, text, tail, hm, ended, rfl, by rw [List.nil_append]⟩

theorem isSome_firstMatch? {a : Pattern} (h : a.Matches kept text) (ended : Ending tail) :
    ((next a (group ending)).firstMatch? (text ++ tail)).isSome = true := by
  apply isSome_run (a := a) h
  rw [run_group_ending.2 ⟨ended, rfl⟩]
  rfl

end Pattern

theorem Line.written_iff {how : Form} {indent n m tail : List Char} :
    Line.Written ⟨how, indent, n, q, m, tail⟩ cs ↔ ∃ front, Opens how indent n front ∧
      isQuote q = true ∧ Ending tail ∧ cs = front ++ q :: (m ++ q :: (how.closing ++ tail)) := by
  constructor
  · intro h
    cases h with
    | importFrom blank ga sb sc gd ge opening ended =>
      refine ⟨_, .importFrom blank ga sb sc gd ge, opening, ended, ?_⟩
      simp only [Form.closing, List.append_assoc, List.cons_append, List.nil_append]
    | require known blank ga sb sc sd se opening ended =>
      refine ⟨_, .require known blank ga sb sc sd se, opening, ended, ?_⟩
      simp only [Form.closing, List.append_assoc, List.cons_append, List.nil_append]
  · rintro ⟨front, opens, opening, ended, rfl⟩
    cases opens with
    | importFrom blank ga sb sc gd ge =>
      have written : Line.Written ⟨.importFrom, indent, n, q, m, tail⟩ _ :=
        .importFrom blank ga sb sc gd ge opening ended
      simpa only [Form.closing, List.append_assoc, List.cons_append, List.nil_append] using written
    | @require keyword _ _ _ _ _ _ _ known blank ga sb sc sd se =>
      have written : Line.Written ⟨.require keyword, indent, n, q, m, tail⟩ _ :=
        .require known blank ga sb sc sd se opening ended
      simpa only [Form.closing, List.append_assoc, List.cons_append, List.nil_append] using written

theorem unquoted_of_all (h : cs.all (!isQuote ·) = true) : Unquoted cs := by
  intro c hc
  simpa using List.all_eq_true.1 h c hc

theorem Unquoted.append (h : Unquoted cs) (h' : Unquoted ds) : Unquoted (cs ++ ds) :=
  List.forall_mem_append.2 ⟨h, h'⟩

theorem Unquoted.cons (hc : isQuote c = false) (h : Unquoted cs) : Unquoted (c :: cs) :=
  List.forall_mem_cons.2 ⟨hc, h⟩

theorem Blank.unquoted (h : Blank cs) : Unquoted cs := by
  intro c hc
  rw [Bool.eq_false_iff]
  intro quote
  have white := h c hc
  rw [not_isBlank_of_isQuote quote] at white
  cases white

theorem IsName.unquoted (h : IsName cs) : Unquoted cs := by
  have plain {c : Char} (hc : isNameChar c = true) : isQuote c = false := by
    rw [isQuote, Bool.or_eq_false_iff, beq_eq_false_iff_ne, beq_eq_false_iff_ne]
    constructor
    · rintro rfl
      exact absurd hc (by decide)
    · rintro rfl
      exact absurd hc (by decide)
  obtain ⟨first, more, rfl, start, inside⟩ := h
  exact .cons (plain (isNameChar_of_isNameStart start)) fun c hc => plain (inside c hc)

theorem unquoted_keyword (h : keyword ∈ keywords) : Unquoted keyword := by
  simp only [keywords, List.mem_cons, List.not_mem_nil, or_false] at h
  rcases h with rfl | rfl | rfl
  · exact unquoted_of_all (by decide)
  · exact unquoted_of_all (by decide)
  · exact unquoted_of_all (by decide)

theorem Opens.unquoted (h : Opens how indent n front) (named : IsName n) : Unquoted front := by
  have opening : isQuote '\x7b' = false := by decide
  have closing : isQuote '\x7d' = false := by decide
  cases h with
  | importFrom blank ga sb sc gd ge =>
    have word : Unquoted "from".toList := unquoted_of_all (by decide)
    have source := word.append ge.2.unquoted
    have behind := sc.unquoted.append (.cons closing (gd.2.unquoted.append source))
    have brace := ga.2.unquoted.append
      (.cons opening (sb.unquoted.append (named.unquoted.append behind)))
    exact blank.unquoted.append ((unquoted_of_all (by decide)).append brace)
  | require known blank ga sb sc sd se =>
    have call : Unquoted "require(".toList := unquoted_of_all (by decide)
    have sign : isQuote '=' = false := by decide
    have equals := sd.unquoted.append (.cons sign (se.unquoted.append call))
    have brace := ga.2.unquoted.append (.cons opening
      (sb.unquoted.append (named.unquoted.append (sc.unquoted.append (.cons closing equals)))))
    exact blank.unquoted.append ((unquoted_keyword known).append brace)

theorem eq_of_first_quote (h : Unquoted front) (h' : Unquoted front') (hq : isQuote q = true)
    (hq' : isQuote q' = true) (he : front ++ q :: rest = front' ++ q' :: rest') :
    front = front' ∧ q = q' ∧ rest = rest' := by
  have inside {cs : List Char} (h : Unquoted cs) : ∀ c ∈ cs, (!isQuote c) = true := by
    intro c hc
    rw [h c hc]
    rfl
  have stops {q : Char} (rest : List Char) (hq : isQuote q = true) :
      Stops (!isQuote ·) (q :: rest) := stops_cons.2 (by rw [hq]; rfl)
  obtain ⟨taken, left⟩ := takeWhile_of_stops (inside h) (stops rest hq)
  obtain ⟨taken', left'⟩ := takeWhile_of_stops (inside h') (stops rest' hq')
  rw [he] at taken left
  obtain ⟨quote, behind⟩ := List.cons.inj (left.symm.trans left')
  exact ⟨taken.symm.trans taken', quote, behind⟩

/-- A line has one form and one division into groups. -/
theorem Fronts.unique (h : Fronts how kept text) (h' : Fronts how' kept' text')
    (ended : Ending tail) (ended' : Ending tail') (he : text ++ tail = text' ++ tail') :
    how = how' ∧ kept = kept' ∧ tail = tail' := by
  obtain @⟨indent, n, front, m, q, close, opens, named, inside, opening, closing⟩ := h
  obtain @⟨indent', n', front', m', q', close', opens', named', inside', opening', closing'⟩ := h'
  simp only [List.append_assoc, List.cons_append] at he
  obtain ⟨rfl, rfl, behind⟩ :=
    eq_of_first_quote (opens.unquoted named) (opens'.unquoted named') opening opening' he
  obtain ⟨rfl, rfl, last⟩ := eq_of_first_quote inside.2 inside'.2 closing closing' behind
  -- With the opening quote for the closing one the line can be read, and in one way only.
  have written : Line.Written ⟨how, indent, n, q, m, tail⟩ _ :=
    Line.written_iff.2 ⟨front, opens, opening, ended, rfl⟩
  have written' : Line.Written ⟨how', indent', n', q, m, tail'⟩ _ :=
    Line.written_iff.2 ⟨front, opens', opening, ended', rfl⟩
  rw [← last] at written'
  have read := Line.parse?_eq_some_iff.2 ⟨named, inside, written⟩
  have read' := Line.parse?_eq_some_iff.2 ⟨named', inside', written'⟩
  cases read.symm.trans read'
  exact ⟨rfl, rfl, rfl⟩

/-- A pattern of lines of some forms finds just the groups of a line of these forms. -/
theorem Pattern.firstMatch?_iff {a : Pattern} {accepts : Form → Prop}
    (h : ∀ gs cs, a.Matches gs cs ↔ ∃ how, accepts how ∧ Fronts how gs cs) :
    (next a (group ending)).firstMatch? cs = some gs ↔ ∃ how kept text tail, accepts how ∧
      Fronts how kept text ∧ Ending tail ∧ cs = text ++ tail ∧ gs = kept ++ [tail] := by
  constructor
  · intro found
    obtain ⟨kept, text, tail, hm, ended, he, hk⟩ := firstMatch?_eq_some found
    obtain ⟨how, accepted, front⟩ := (h _ _).1 hm
    exact ⟨how, kept, text, tail, accepted, front, ended, he, hk⟩
  · rintro ⟨how, kept, text, tail, accepted, front, ended, rfl, rfl⟩
    have some := isSome_firstMatch? ((h _ _).2 ⟨how, accepted, front⟩) ended
    obtain ⟨gs, found⟩ := Option.isSome_iff_exists.1 some
    obtain ⟨kept', text', tail', hm, ended', he, rfl⟩ := firstMatch?_eq_some found
    obtain ⟨how', _, front'⟩ := (h _ _).1 hm
    obtain ⟨_, rfl, rfl⟩ := front.unique front' ended ended' he
    exact found

theorem importPattern_iff : Pattern.importPattern.firstMatch? cs = some gs ↔
    ∃ kept text tail, Fronts .importFrom kept text ∧ Ending tail ∧ cs = text ++ tail ∧
      gs = kept ++ [tail] := by
  have forms (gs cs : List (List Char)) (text : List Char) :
      Pattern.importFront.Matches gs text ↔ ∃ how, how = .importFrom ∧ Fronts how gs text := by
    rw [Pattern.matches_importFront, exists_eq_left]
  refine (Pattern.firstMatch?_iff fun gs text => forms gs [] text).trans ?_
  constructor
  · rintro ⟨_, kept, text, tail, rfl, found⟩
    exact ⟨kept, text, tail, found⟩
  · rintro ⟨kept, text, tail, found⟩
    exact ⟨_, kept, text, tail, rfl, found⟩

theorem requirePattern_iff : Pattern.requirePattern.firstMatch? cs = some gs ↔
    ∃ keyword ∈ keywords, ∃ kept text tail, Fronts (.require keyword) kept text ∧ Ending tail ∧
      cs = text ++ tail ∧ gs = kept ++ [tail] := by
  have forms (gs : List (List Char)) (text : List Char) :
      Pattern.requireFront.Matches gs text ↔
        ∃ how, (∃ keyword ∈ keywords, how = .require keyword) ∧ Fronts how gs text := by
    rw [Pattern.matches_requireFront]
    constructor
    · rintro ⟨keyword, known, front⟩
      exact ⟨_, ⟨keyword, known, rfl⟩, front⟩
    · rintro ⟨_, ⟨keyword, known, rfl⟩, front⟩
      exact ⟨keyword, known, front⟩
  refine (Pattern.firstMatch?_iff forms).trans ?_
  constructor
  · rintro ⟨_, kept, text, tail, ⟨keyword, known, rfl⟩, found⟩
    exact ⟨keyword, known, kept, text, tail, found⟩
  · rintro ⟨keyword, known, kept, text, tail, found⟩
    exact ⟨_, kept, text, tail, ⟨keyword, known, rfl⟩, found⟩

/-- What a pattern keeps of a line that is read. -/
def Line.kept (l : Line) : List (List Char) :=
  l.indent :: l.form.kept ++ [l.name, [l.quote], l.module, [l.quote]]

theorem Line.front_of_parse? (h : parse? cs = some l) : l.form.Known ∧
    ∃ text, Fronts l.form l.kept text ∧ Ending l.tail ∧ cs = text ++ l.tail := by
  obtain ⟨named, inside, written⟩ := parse?_eq_some_iff.1 h
  obtain ⟨front, opens, quote, ended, rfl⟩ := written_iff.1 written
  refine ⟨written.known, _, .of opens named inside quote quote, ended, ?_⟩
  simp only [List.append_assoc, List.cons_append]

theorem parse?_of_opens (opens : Opens how indent n front) (named : IsName n)
    (inside : IsModule m) (opening : isQuote q = true) (closing : isQuote q' = true)
    (ended : Ending tail) : Line.parse? (front ++ q :: (m ++ q' :: how.closing) ++ tail) =
      if q = q' then some ⟨how, indent, n, q, m, tail⟩ else none := by
  split
  · rename_i same
    subst same
    refine Line.parse?_eq_some_iff.2
      ⟨named, inside, Line.written_iff.2 ⟨front, opens, opening, ended, ?_⟩⟩
    simp only [List.append_assoc, List.cons_append]
  · rename_i different
    rw [Option.eq_none_iff_forall_ne_some]
    intro l h
    obtain ⟨_, text, found, ended', he⟩ := Line.front_of_parse? h
    obtain ⟨rfl, kept, _⟩ := (Fronts.of opens named inside opening closing).unique found ended
      ended' he
    rw [Line.kept, List.cons_append, List.cons_append, List.cons.injEq,
      List.append_cancel_left_eq] at kept
    obtain ⟨_, _, hq, _, hq'⟩ := by simpa only [List.cons.injEq, and_true] using kept
    exact different (hq.trans hq'.symm)

/-- The line that binds one export from a module of its own, by the patterns of lines. -/
def narrowByPatterns? (line package exportName target : String) : Option String :=
  match Pattern.importPattern.firstMatch? line.toList with
  | some [indent, name, opening, module, closing, tail] =>
    if name ≠ exportName.toList ∨ module ≠ package.toList ∨ opening ≠ closing then none
    else some (String.ofList (indent ++ "import ".toList ++ exportName.toList ++ " from ".toList ++
      (opening ++ target.toList ++ opening) ++ tail))
  | some _ => none
  | none =>
    match Pattern.requirePattern.firstMatch? line.toList with
    | some [indent, keyword, name, opening, module, closing, tail] =>
      if name ≠ exportName.toList ∨ module ≠ package.toList ∨ opening ≠ closing then none
      else some (String.ofList (indent ++ keyword ++ [' '] ++ exportName.toList ++
        " = require(".toList ++ (opening ++ target.toList ++ opening) ++ [')'] ++ tail))
    | _ => none

theorem narrow?_of_opens (opens : Opens how indent n front) (named : IsName n)
    (inside : IsModule m) (opening : isQuote q = true) (closing : isQuote q' = true)
    (ended : Ending tail) (he : line.toList = front ++ q :: (m ++ q' :: how.closing) ++ tail) :
    narrow? line package exportName target =
      if n ≠ exportName.toList ∨ m ≠ package.toList ∨ [q] ≠ [q'] then none
      else some (String.ofList
        (Line.renderFrom ⟨how, indent, exportName.toList, q, m, tail⟩ target.toList)) := by
  rw [narrow?, he, parse?_of_opens opens named inside opening closing ended]
  by_cases same : q = q'
  · rw [if_pos same, Option.bind_eq_bind, Option.bind_some]
    by_cases accepted : n = exportName.toList ∧ m = package.toList
    · rw [if_pos accepted, if_neg (by simp [accepted, same])]
      rw [accepted.1]
    · rw [if_neg accepted, if_pos]
      rw [← or_assoc, ← not_and_or]
      exact .inl accepted
  · rw [if_neg same, if_pos (.inr (.inr (mt List.singleton_inj.1 same)))]
    rfl

/-- Reading a line and matching it against the patterns come to the same. -/
theorem narrow?_eq_narrowByPatterns? (line package exportName target : String) :
    narrow? line package exportName target = narrowByPatterns? line package exportName target := by
  rw [narrowByPatterns?]
  cases hi : Pattern.importPattern.firstMatch? line.toList with
  | some gs =>
    obtain ⟨_, _, tail, ⟨opens, named, inside, opening, closing⟩, ended, he, rfl⟩ :=
      importPattern_iff.1 hi
    rw [narrow?_of_opens opens named inside opening closing ended he]
    rfl
  | none =>
    cases hr : Pattern.requirePattern.firstMatch? line.toList with
    | some gs =>
      obtain ⟨_, known, _, _, tail, ⟨opens, named, inside, opening, closing⟩, ended, he, rfl⟩ :=
        requirePattern_iff.1 hr
      rw [narrow?_of_opens opens named inside opening closing ended he]
      rfl
    | none =>
      have unread : Line.parse? line.toList = none := by
        rw [Option.eq_none_iff_forall_ne_some]
        intro l h
        obtain ⟨known, text, front, ended, he⟩ := Line.front_of_parse? h
        rcases known with hf | ⟨keyword, hk, hf⟩
        · rw [hf] at front
          have found := importPattern_iff.2 ⟨_, _, _, front, ended, he, rfl⟩
          cases hi.symm.trans found
        · rw [hf] at front
          have found := requirePattern_iff.2 ⟨keyword, hk, _, _, _, front, ended, he, rfl⟩
          cases hr.symm.trans found
      rw [narrow?, unread]
      rfl

/-- A line is narrowed just if it is written as one that binds this export of this package. It is
written so in one way only, and everything but the binding stays: the white space before and behind,
the keyword and the quotes. The line in its place is another one, and there is nothing to narrow in
it. It is the same line that the patterns give. -/
theorem narrow?_accepts_grammar {package : String} (given : package ≠ "")
    (plain : Unquoted package.toList) (line exportName target : String) :
    narrow? line package exportName target = narrowByPatterns? line package exportName target ∧
    ((∃ out, narrow? line package exportName target = some out) ↔ IsName exportName.toList ∧
      ∃ l : Line, l.Written line.toList ∧ l.name = exportName.toList ∧
        l.module = package.toList) ∧
    ∀ out, narrow? line package exportName target = some out →
      (∃ l : Line,
        (l.Written line.toList ∧ l.name = exportName.toList ∧ l.module = package.toList) ∧
        (∀ l' : Line, l'.Written line.toList → l'.name = exportName.toList →
          l'.module = package.toList → l' = l) ∧
        out.toList = l.indent ++ (l.form.keyword ++ ' ' :: (l.name ++ (l.form.joint ++
          l.quote :: (target.toList ++ l.quote :: (l.form.closing ++ l.tail)))))) ∧
      out ≠ line ∧
      ∀ package' exportName' target', narrow? out package' exportName' target' = none := by
  have inside : IsModule package.toList := ⟨mt String.toList_eq_nil_iff.1 given, plain⟩
  refine ⟨narrow?_eq_narrowByPatterns? line package exportName target, ?_, ?_⟩
  · constructor
    · rintro ⟨out, h⟩
      obtain ⟨l, hl, hn, hm, _⟩ := narrow?_eq_some.1 h
      obtain ⟨named, _, written⟩ := Line.parse?_eq_some_iff.1 hl
      exact ⟨hn ▸ named, l, written, hn, hm⟩
    · rintro ⟨named, l, written, hn, hm⟩
      have read := Line.parse?_eq_some_iff.2 ⟨hn.symm ▸ named, hm.symm ▸ inside, written⟩
      exact ⟨_, narrow?_eq_some.2 ⟨l, read, hn, hm, rfl⟩⟩
  · intro out h
    refine ⟨?_, narrow?_ne h, narrow?_narrowed h⟩
    obtain ⟨l, hl, hn, hm, rfl⟩ := narrow?_eq_some.1 h
    obtain ⟨named, _, written⟩ := Line.parse?_eq_some_iff.1 hl
    refine ⟨l, ⟨written, hn, hm⟩, ?_, ?_⟩
    · intro l' written' hn' hm'
      have named' : IsName l'.name := hn' ▸ hn ▸ named
      have read := Line.parse?_eq_some_iff.2 ⟨named', hm'.symm ▸ inside, written'⟩
      exact Option.some.inj (read.symm.trans hl)
    · rw [String.toList_ofList, l.renderFrom_eq]

theorem narrow?_accepts_grammar_import :
    "lodash" ≠ "" ∧ Unquoted "lodash".toList ∧
    narrow? "import \x7b map \x7d from \"lodash\";\n" "lodash" "map" "lodash/map" =
      some "import map from \"lodash/map\";\n" ∧
    (∃ l : Line, l.Written "import \x7b map \x7d from \"lodash\";\n".toList ∧
      l.name = "map".toList ∧ l.module = "lodash".toList) ∧
    ∀ package' exportName' target',
      narrow? "import map from \"lodash/map\";\n" package' exportName' target' = none := by
  have given : "lodash" ≠ "" := by decide
  have unquoted : Unquoted "lodash".toList := unquoted_of_all (by decide)
  have narrowed : narrow? "import \x7b map \x7d from \"lodash\";\n" "lodash" "map" "lodash/map" =
      some "import map from \"lodash/map\";\n" := by decide +kernel
  obtain ⟨_, accepted, result⟩ := narrow?_accepts_grammar given unquoted
    "import \x7b map \x7d from \"lodash\";\n" "map" "lodash/map"
  exact ⟨given, unquoted, narrowed, (accepted.1 ⟨_, narrowed⟩).2, (result _ narrowed).2.2⟩

end PackageUsage.Narrowing
