import Mathlib
import PackageUsage.Narrowing.Line

namespace PackageUsage.Narrowing
set_option autoImplicit true

def Blank (cs : List Char) : Prop := ∀ c ∈ cs, Text.isBlank c = true

/-- White space that has to be there. -/
def Gap (cs : List Char) : Prop := cs ≠ [] ∧ Blank cs

/-- White space with at most one semicolon in it. -/
def Ending (cs : List Char) : Prop :=
  ∃ before after, Blank before ∧ Blank after ∧ (cs = before ++ after ∨ cs = before ++ ';' :: after)

/-- A letter, an underscore or a dollar sign, and then such characters and digits. -/
def IsName (cs : List Char) : Prop :=
  ∃ first rest, cs = first :: rest ∧ isNameStart first = true ∧
    ∀ c ∈ rest, isNameChar c = true

def Unquoted (cs : List Char) : Prop := ∀ c ∈ cs, isQuote c = false

/-- What can be quoted: some text without quotes. -/
def IsModule (cs : List Char) : Prop := cs ≠ [] ∧ Unquoted cs

/-- What follows does not begin with a character of a kind. -/
def Stops (p : Char → Bool) (cs : List Char) : Prop := ∀ c ∈ cs.head?, p c = false

def keywords : List (List Char) := ["const".toList, "let".toList, "var".toList]

def Form.keyword : Form → List Char
  | importFrom => "import".toList
  | require keyword => keyword

@[simp] theorem Form.keyword_importFrom : importFrom.keyword = "import".toList := rfl

@[simp] theorem Form.keyword_require (word : List Char) : (require word).keyword = word := rfl

/-- A binding is imported, or declared by one of three words. -/
def Form.Known (how : Form) : Prop :=
  how = importFrom ∨ ∃ keyword ∈ keywords, how = require keyword

/-- What stands between the name and the quoted module where the export is the default one. -/
def Form.joint : Form → List Char
  | importFrom => " from ".toList
  | require _ => " = require(".toList

/-- What stands between the quoted module and the end. -/
def Form.closing : Form → List Char
  | importFrom => []
  | require _ => [')']

theorem stops_cons : Stops p (c :: cs) ↔ p c = false := by
  constructor
  · intro h
    exact h c rfl
  · intro h d hd
    cases hd
    exact h

theorem stops_append_cons (hs : ∀ c ∈ cs, p c = false) (hc : p c = false) :
    Stops p (cs ++ c :: rest) := by
  cases cs with
  | nil => exact stops_cons.2 hc
  | cons d cs => exact stops_cons.2 (hs d List.mem_cons_self)

theorem stops_dropWhile (p : Char → Bool) (cs : List Char) : Stops p (cs.dropWhile p) := by
  intro c hc
  have nonempty : cs.dropWhile p ≠ [] := by
    intro empty
    rw [empty] at hc
    cases hc
  have found : (cs.dropWhile p).head nonempty = c := by
    rw [List.head_eq_iff_head?_eq_some]
    exact hc
  rw [← found]
  exact List.head_dropWhile_not p nonempty

theorem takeWhile_of_stops (inside : ∀ c ∈ cs, p c = true) (stops : Stops p rest) :
    (cs ++ rest).takeWhile p = cs ∧ (cs ++ rest).dropWhile p = rest := by
  rw [List.takeWhile_append_of_pos inside, List.dropWhile_append_of_pos inside]
  cases rest with
  | nil => exact ⟨List.append_nil cs, rfl⟩
  | cons c rest =>
    have stop : ¬ p c = true := Bool.eq_false_iff.1 (stops_cons.1 stops)
    rw [List.takeWhile_cons_of_neg stop, List.dropWhile_cons_of_neg stop]
    exact ⟨List.append_nil cs, rfl⟩

theorem not_isBlank_of_isNameChar (h : isNameChar c = true) : Text.isBlank c = false := by
  have bounds : 36 ≤ c.toNat ∧ c.toNat ≤ 122 := by
    simp only [isNameChar, Char.isAlphanum, Char.isAlpha, Char.isDigit, Char.isUpper, Char.isLower,
      Bool.or_eq_true, Bool.and_eq_true, decide_eq_true_eq, beq_iff_eq] at h
    rcases h with (((⟨low, high⟩ | ⟨low, high⟩) | ⟨low, high⟩) | rfl) | rfl
    · exact ⟨Nat.le_trans (by decide) low, Nat.le_trans high (by decide)⟩
    · exact ⟨Nat.le_trans (by decide) low, Nat.le_trans high (by decide)⟩
    · exact ⟨Nat.le_trans (by decide) low, Nat.le_trans high (by decide)⟩
    · decide
    · decide
  simp only [Text.isBlank, Bool.or_eq_false_iff, Bool.and_eq_false_iff, decide_eq_false_iff_not,
    beq_eq_false_iff_ne]
  omega

theorem isNameChar_of_isNameStart (h : isNameStart c = true) : isNameChar c = true := by
  simp only [isNameStart, isNameChar, Char.isAlphanum, Bool.or_eq_true] at h ⊢
  tauto

theorem not_isNameChar_of_isBlank (h : Text.isBlank c = true) : isNameChar c = false := by
  rw [Bool.eq_false_iff]
  intro named
  rw [not_isBlank_of_isNameChar named] at h
  cases h

theorem IsName.stops (h : IsName cs) (rest : List Char) : Stops Text.isBlank (cs ++ rest) := by
  obtain ⟨first, more, rfl, start, _⟩ := h
  exact stops_cons.2 (not_isBlank_of_isNameChar (isNameChar_of_isNameStart start))

theorem Form.Known.stops {how : Form} (h : how.Known) (rest : List Char) :
    Stops Text.isBlank (how.keyword ++ rest) := by
  rcases h with rfl | ⟨keyword, hk, rfl⟩
  · exact stops_cons.2 (by decide)
  simp only [keywords, List.mem_cons, List.not_mem_nil, or_false] at hk
  rcases hk with rfl | rfl | rfl
  · exact stops_cons.2 (by decide)
  · exact stops_cons.2 (by decide)
  · exact stops_cons.2 (by decide)

theorem not_isBlank_of_isQuote (h : isQuote q = true) : Text.isBlank q = false := by
  simp only [isQuote, Bool.or_eq_true, beq_iff_eq] at h
  rcases h with rfl | rfl
  · decide
  · decide

namespace Line

theorem word?_eq_some : word? word cs = some rest ↔ cs = word ++ rest := by
  induction word generalizing cs with
  | nil => exact Option.some_inj
  | cons a as ih =>
    cases cs with
    | nil =>
      constructor
      · intro h
        cases h
      · intro h
        cases h
    | cons c cs =>
      rw [word?, List.cons_append, List.cons.injEq]
      split
      · rename_i same
        rw [ih, and_iff_right same.symm]
      · rename_i other
        constructor
        · intro h
          cases h
        · intro h
          exact (other h.1.symm).elim

theorem word?_append (word rest : List Char) : word? word (word ++ rest) = some rest :=
  word?_eq_some.2 rfl

theorem optionalSpace_eq : optionalSpace cs = rest ↔
    ∃ space, Blank space ∧ Stops Text.isBlank rest ∧ cs = space ++ rest := by
  constructor
  · rintro rfl
    refine ⟨cs.takeWhile Text.isBlank, ?_, stops_dropWhile _ _,
      List.takeWhile_append_dropWhile.symm⟩
    intro c hc
    exact List.all_eq_true.1 List.all_takeWhile c hc
  · rintro ⟨space, blank, stops, rfl⟩
    exact (takeWhile_of_stops blank stops).2

theorem space?_eq_some : space? cs = some rest ↔
    ∃ gap, Gap gap ∧ Stops Text.isBlank rest ∧ cs = gap ++ rest := by
  cases cs with
  | nil =>
    constructor
    · intro h
      cases h
    · rintro ⟨gap, given, _, he⟩
      exact (given.1 (List.append_eq_nil_iff.1 he.symm).1).elim
  | cons c cs =>
    rw [space?]
    constructor
    · intro h
      split at h
      · rename_i blank
        obtain ⟨space, hs, stops, he⟩ := optionalSpace_eq.1 (Option.some.inj h)
        exact ⟨c :: space, ⟨List.cons_ne_nil _ _, List.forall_mem_cons.2 ⟨blank, hs⟩⟩, stops,
          congrArg (c :: ·) he⟩
      · cases h
    · rintro ⟨gap, given, stops, he⟩
      cases gap with
      | nil => exact (given.1 rfl).elim
      | cons d gap =>
        obtain ⟨rfl, rfl⟩ := List.cons.inj he
        obtain ⟨here, behind⟩ := List.forall_mem_cons.1 given.2
        rw [if_pos here, Option.some_inj]
        exact optionalSpace_eq.2 ⟨gap, behind, stops, rfl⟩

theorem name?_eq_some : name? cs = some (n, rest) ↔
    IsName n ∧ Stops isNameChar rest ∧ cs = n ++ rest := by
  cases cs with
  | nil =>
    constructor
    · intro h
      cases h
    · rintro ⟨⟨first, more, rfl, _⟩, _, he⟩
      cases he
  | cons c cs =>
    rw [name?]
    constructor
    · intro h
      split at h
      · rename_i start
        cases h
        refine ⟨⟨c, _, rfl, start, ?_⟩, stops_dropWhile _ _, ?_⟩
        · intro d hd
          exact List.all_eq_true.1 List.all_takeWhile d hd
        · rw [List.cons_append, List.takeWhile_append_dropWhile]
      · cases h
    · rintro ⟨⟨first, more, rfl, start, inside⟩, stops, he⟩
      obtain ⟨rfl, rfl⟩ := List.cons.inj he
      obtain ⟨taken, left⟩ := takeWhile_of_stops inside stops
      change (if isNameStart c then some (c :: (more ++ rest).takeWhile isNameChar,
        (more ++ rest).dropWhile isNameChar) else none) = _
      rw [if_pos start, taken, left]

theorem braced?_eq_some : braced? cs = some (n, rest) ↔
    IsName n ∧ ∃ before after, Blank before ∧ Blank after ∧
      cs = '\x7b' :: (before ++ (n ++ (after ++ '\x7d' :: rest))) := by
  constructor
  · intro h
    obtain ⟨inner, hi, h⟩ := Option.bind_eq_some_iff.1 h
    obtain ⟨⟨found, behind⟩, hn, h⟩ := Option.bind_eq_some_iff.1 h
    obtain ⟨last, hl, h⟩ := Option.bind_eq_some_iff.1 h
    cases h
    obtain ⟨before, hb, _, eb⟩ := optionalSpace_eq.1 (Eq.refl (optionalSpace inner))
    obtain ⟨after, ha, _, ea⟩ := optionalSpace_eq.1 (Eq.refl (optionalSpace behind))
    obtain ⟨named, _, en⟩ := name?_eq_some.1 hn
    refine ⟨named, before, after, hb, ha, ?_⟩
    rw [word?_eq_some.1 hi, eb, en, ea, word?_eq_some.1 hl]
    rfl
  · rintro ⟨named, before, after, hb, ha, rfl⟩
    have spaced := optionalSpace_eq.2 ⟨before, hb, named.stops (after ++ '\x7d' :: rest), rfl⟩
    have stops : Stops isNameChar (after ++ '\x7d' :: rest) :=
      stops_append_cons (fun c hc => not_isNameChar_of_isBlank (ha c hc)) (by decide)
    have taken := name?_eq_some.2 ⟨named, stops, rfl⟩
    have brace : Stops Text.isBlank ('\x7d' :: rest) := stops_cons.2 (by decide)
    have closed := optionalSpace_eq.2 ⟨after, ha, brace, rfl⟩
    have opening := word?_append ['\x7b'] (before ++ (n ++ (after ++ '\x7d' :: rest)))
    have closing := word?_append ['\x7d'] rest
    simp only [List.cons_append, List.nil_append] at opening closing
    simp only [braced?, opening, Option.bind_eq_bind, Option.bind_some, spaced, taken, closed,
      closing]

theorem quoted?_eq_some : quoted? cs = some (q, text, rest) ↔
    isQuote q = true ∧ IsModule text ∧ cs = q :: (text ++ q :: rest) := by
  cases cs with
  | nil =>
    constructor
    · intro h
      cases h
    · rintro ⟨_, _, he⟩
      cases he
  | cons c cs =>
    rw [quoted?]
    constructor
    · intro h
      split at h
      · rename_i close behind hb
        split at h
        · rename_i accepted
          cases h
          simp only [Bool.and_eq_true, beq_iff_eq, Bool.not_eq_true',
            List.isEmpty_eq_false_iff] at accepted
          refine ⟨accepted.1.1, ⟨accepted.2, ?_⟩, ?_⟩
          · intro d hd
            simpa using List.all_eq_true.1 List.all_takeWhile d hd
          · rw [← accepted.1.2, ← hb, List.takeWhile_append_dropWhile]
        · cases h
      · cases h
    · rintro ⟨quote, ⟨given, unquoted⟩, he⟩
      obtain ⟨rfl, rfl⟩ := List.cons.inj he
      have inside : ∀ d ∈ text, (!isQuote d) = true := by
        intro d hd
        rw [unquoted d hd]
        rfl
      have stops : Stops (!isQuote ·) (c :: rest) := stops_cons.2 (by rw [quote]; rfl)
      obtain ⟨taken, left⟩ := takeWhile_of_stops inside stops
      rw [left, taken]
      have accepted : (isQuote c && c == c && !text.isEmpty) = true := by
        rw [quote, beq_self_eq_true, List.isEmpty_eq_false_iff.2 given]
        rfl
      exact if_pos accepted

theorem isTail_iff : isTail cs = true ↔ Ending cs := by
  obtain ⟨before, hb, stops, he⟩ := optionalSpace_eq.1 (Eq.refl (optionalSpace cs))
  rw [isTail]
  generalize optionalSpace cs = rest at stops he
  subst he
  constructor
  · intro h
    cases rest with
    | nil => exact ⟨before, [], hb, List.forall_mem_nil _, .inl rfl⟩
    | cons c rest =>
      obtain ⟨after, ha, _, ea⟩ := optionalSpace_eq.1 (List.isEmpty_iff.1 h)
      rw [List.append_nil] at ea
      split at ea
      · rename_i semicolon
        exact ⟨before, after, hb, ha, .inr (by rw [semicolon, ea])⟩
      · exact ⟨before, after, hb, ha, .inl (by rw [ea])⟩
  · rintro ⟨first, second, hf, hs, split⟩
    cases rest with
    | nil => rfl
    | cons c rest =>
      have black := stops_cons.1 stops
      rcases split with he | he
      · have blank : Blank (first ++ second) := List.forall_mem_append.2 ⟨hf, hs⟩
        have found := blank c (he ▸ List.mem_append_right _ List.mem_cons_self)
        rw [black] at found
        cases found
      · have stop : Stops Text.isBlank (';' :: second) := stops_cons.2 (by decide)
        have same := (takeWhile_of_stops hf stop).2
        rw [← he, (takeWhile_of_stops hb stops).2] at same
        obtain ⟨rfl, rfl⟩ := List.cons.inj same
        have nothing := List.dropWhile_eq_nil_iff.2 hs
        dsimp only
        rw [if_pos rfl, optionalSpace, nothing]
        rfl

theorem form?_eq_some : form? cs = some (how, rest) ↔
    how.Known ∧ ∃ gap, Gap gap ∧ Stops Text.isBlank rest ∧
      cs = how.keyword ++ (gap ++ rest) := by
  constructor
  · intro h
    rw [form?] at h
    split at h
    · rename_i behind hw
      obtain ⟨_, hs, he⟩ := Option.map_eq_some_iff.1 h
      cases he
      obtain ⟨gap, given, stops, rfl⟩ := space?_eq_some.1 hs
      exact ⟨.inl rfl, gap, given, stops, word?_eq_some.1 hw⟩
    · obtain ⟨keyword, hk, h⟩ := List.exists_of_findSome?_eq_some h
      obtain ⟨behind, hw, h⟩ := Option.bind_eq_some_iff.1 h
      obtain ⟨_, hs, he⟩ := Option.map_eq_some_iff.1 h
      cases he
      obtain ⟨gap, given, stops, rfl⟩ := space?_eq_some.1 hs
      exact ⟨.inr ⟨_, List.mem_map_of_mem (f := String.toList) hk, rfl⟩, gap, given, stops,
        word?_eq_some.1 hw⟩
  · rintro ⟨known, gap, given, stops, rfl⟩
    have spaced := space?_eq_some.2 ⟨gap, given, stops, rfl⟩
    rw [form?]
    rcases known with rfl | ⟨keyword, hk, rfl⟩
    · rw [Form.keyword_importFrom, word?_append]
      dsimp only
      rw [spaced, Option.map_some]
    · simp only [keywords, List.mem_cons, List.not_mem_nil, or_false] at hk
      rw [Form.keyword_require]
      rcases hk with rfl | rfl | rfl
      · have other : word? "import".toList ("const".toList ++ (gap ++ rest)) = none := rfl
        have word := word?_append "const".toList (gap ++ rest)
        simp only [other, List.findSome?_cons, word, Option.bind_some, spaced,
          Option.map_some]
      · have other : word? "import".toList ("let".toList ++ (gap ++ rest)) = none := rfl
        have first : word? "const".toList ("let".toList ++ (gap ++ rest)) = none := rfl
        have word := word?_append "let".toList (gap ++ rest)
        simp only [other, first, List.findSome?_cons, Option.bind_none, word,
          Option.bind_some, spaced, Option.map_some]
      · have other : word? "import".toList ("var".toList ++ (gap ++ rest)) = none := rfl
        have first : word? "const".toList ("var".toList ++ (gap ++ rest)) = none := rfl
        have second : word? "let".toList ("var".toList ++ (gap ++ rest)) = none := rfl
        have word := word?_append "var".toList (gap ++ rest)
        simp only [other, first, second, List.findSome?_cons, Option.bind_none, word,
          Option.bind_some, spaced, Option.map_some]

theorem source?_importFrom_eq_some : source? .importFrom cs = some (q, m, rest) ↔
    isQuote q = true ∧ IsModule m ∧ ∃ before after, Gap before ∧ Gap after ∧
      cs = before ++ ("from".toList ++ (after ++ q :: (m ++ q :: rest))) := by
  constructor
  · intro h
    obtain ⟨inner, hi, h⟩ := Option.bind_eq_some_iff.1 h
    obtain ⟨behind, hb, h⟩ := Option.bind_eq_some_iff.1 h
    obtain ⟨last, hl, hq⟩ := Option.bind_eq_some_iff.1 h
    obtain ⟨before, given, _, rfl⟩ := space?_eq_some.1 hi
    obtain ⟨after, given', _, rfl⟩ := space?_eq_some.1 hl
    obtain ⟨quote, inside, rfl⟩ := quoted?_eq_some.1 hq
    refine ⟨quote, inside, before, after, given, given', ?_⟩
    rw [word?_eq_some.1 hb]
  · rintro ⟨quote, inside, before, after, given, given', rfl⟩
    have stop : Stops Text.isBlank ("from".toList ++ (after ++ q :: (m ++ q :: rest))) :=
      stops_cons.2 (by decide)
    have first := space?_eq_some.2 ⟨before, given, stop, rfl⟩
    have word := word?_append "from".toList (after ++ q :: (m ++ q :: rest))
    have sharp : Stops Text.isBlank (q :: (m ++ q :: rest)) :=
      stops_cons.2 (not_isBlank_of_isQuote quote)
    have last := space?_eq_some.2 ⟨after, given', sharp, rfl⟩
    have text := quoted?_eq_some.2 ⟨quote, inside, Eq.refl (q :: (m ++ q :: rest))⟩
    simp only [source?, first, Option.bind_eq_bind, Option.bind_some, word, last, text]

theorem source?_require_eq_some : source? (.require keyword) cs = some (q, m, rest) ↔
    isQuote q = true ∧ IsModule m ∧ ∃ before after, Blank before ∧ Blank after ∧
      cs = before ++ '=' :: (after ++ ("require(".toList ++ q :: (m ++ q :: ')' :: rest))) := by
  constructor
  · intro h
    obtain ⟨inner, hi, h⟩ := Option.bind_eq_some_iff.1 h
    obtain ⟨behind, hb, h⟩ := Option.bind_eq_some_iff.1 h
    obtain ⟨⟨quote, found, last⟩, hq, h⟩ := Option.bind_eq_some_iff.1 h
    obtain ⟨closed, hc, h⟩ := Option.bind_eq_some_iff.1 h
    cases h
    obtain ⟨before, hs, _, es⟩ := optionalSpace_eq.1 (Eq.refl (optionalSpace cs))
    obtain ⟨after, ha, _, ea⟩ := optionalSpace_eq.1 (Eq.refl (optionalSpace inner))
    obtain ⟨quote, inside, eq⟩ := quoted?_eq_some.1 hq
    refine ⟨quote, inside, before, after, hs, ha, ?_⟩
    rw [es, word?_eq_some.1 hi, ea, word?_eq_some.1 hb, eq, word?_eq_some.1 hc]
    rfl
  · rintro ⟨quote, inside, before, after, hs, ha, rfl⟩
    have equals : Stops Text.isBlank ('=' :: (after ++ ("require(".toList ++
      q :: (m ++ q :: ')' :: rest)))) := stops_cons.2 (by decide)
    have call : Stops Text.isBlank ("require(".toList ++ q :: (m ++ q :: ')' :: rest)) :=
      stops_cons.2 (by decide)
    have first := optionalSpace_eq.2 ⟨before, hs, equals, rfl⟩
    have sign := word?_append ['='] (after ++ ("require(".toList ++ q :: (m ++ q :: ')' :: rest)))
    have second := optionalSpace_eq.2 ⟨after, ha, call, rfl⟩
    have word := word?_append "require(".toList (q :: (m ++ q :: ')' :: rest))
    have text := quoted?_eq_some.2 ⟨quote, inside, Eq.refl (q :: (m ++ q :: ')' :: rest))⟩
    have last := word?_append [')'] rest
    simp only [List.cons_append, List.nil_append] at sign last
    simp only [source?, first, Option.bind_eq_bind, sign, Option.bind_some, second, word, text,
      last]

/-- The text of a line that binds one name, part by part. -/
inductive Written : Line → List Char → Prop
  | importFrom {indent a b name c d e module tail : List Char} {q : Char}
      (indented : Blank indent) (g₁ : Gap a) (s₁ : Blank b) (s₂ : Blank c) (g₂ : Gap d)
      (g₃ : Gap e) (quote : isQuote q = true) (ending : Ending tail) :
      Written ⟨.importFrom, indent, name, q, module, tail⟩
        (indent ++ ("import".toList ++ (a ++ '\x7b' :: (b ++ (name ++ (c ++ '\x7d' ::
          (d ++ ("from".toList ++ (e ++ q :: (module ++ q :: tail))))))))))
  | require {keyword indent a b name c d e module tail : List Char} {q : Char}
      (known : keyword ∈ keywords) (indented : Blank indent) (g : Gap a) (s₁ : Blank b)
      (s₂ : Blank c) (s₃ : Blank d) (s₄ : Blank e) (quote : isQuote q = true)
      (ending : Ending tail) :
      Written ⟨.require keyword, indent, name, q, module, tail⟩
        (indent ++ (keyword ++ (a ++ '\x7b' :: (b ++ (name ++ (c ++ '\x7d' ::
          (d ++ '=' :: (e ++ ("require(".toList ++ q :: (module ++ q :: ')' :: tail))))))))))

theorem parse?_eq_some {indent rest : List Char} (h : Blank indent)
    (stops : Stops Text.isBlank rest) :
    parse? (indent ++ rest) = some l ↔ l.indent = indent ∧ Ending l.tail ∧
      ∃ inner behind, form? rest = some (l.form, inner) ∧ braced? inner = some (l.name, behind) ∧
        source? l.form behind = some (l.quote, l.module, l.tail) := by
  obtain ⟨taken, left⟩ := takeWhile_of_stops h stops
  rw [parse?, optionalSpace, taken, left]
  constructor
  · intro h
    obtain ⟨⟨how, inner⟩, hf, h⟩ := Option.bind_eq_some_iff.1 h
    obtain ⟨⟨n, behind⟩, hn, h⟩ := Option.bind_eq_some_iff.1 h
    obtain ⟨⟨q, m, last⟩, hs, h⟩ := Option.bind_eq_some_iff.1 h
    dsimp only at h
    split at h
    · rename_i ended
      cases h
      exact ⟨rfl, isTail_iff.1 ended, inner, behind, hf, hn, hs⟩
    · cases h
  · rintro ⟨rfl, ended, inner, behind, hf, hn, hs⟩
    simp only [hf, Option.bind_eq_bind, Option.bind_some, hn, hs]
    exact if_pos (isTail_iff.2 ended)

theorem parse?_of_source {how : Form} {indent a b n c behind m tail : List Char}
    (known : how.Known) (blank : Blank indent) (given : Gap a) (named : IsName n) (hb : Blank b)
    (hc : Blank c) (source : source? how behind = some (q, m, tail)) (ended : Ending tail) :
    parse? (indent ++ (how.keyword ++ (a ++ '\x7b' :: (b ++ (n ++ (c ++ '\x7d' :: behind)))))) =
      some ⟨how, indent, n, q, m, tail⟩ := by
  have brace : braced? ('\x7b' :: (b ++ (n ++ (c ++ '\x7d' :: behind)))) = some (n, behind) :=
    braced?_eq_some.2 ⟨named, b, c, hb, hc, rfl⟩
  have opened : Stops Text.isBlank ('\x7b' :: (b ++ (n ++ (c ++ '\x7d' :: behind)))) :=
    stops_cons.2 (by decide)
  have form := form?_eq_some.2 ⟨known, a, given, opened, rfl⟩
  exact (parse?_eq_some blank (known.stops _)).2 ⟨rfl, ended, _, _, form, brace, source⟩

/-- A line is read into its parts just if it is written so. -/
theorem parse?_eq_some_iff :
    parse? cs = some l ↔ IsName l.name ∧ IsModule l.module ∧ l.Written cs := by
  constructor
  · intro h
    obtain ⟨indent, blank, stops, he⟩ := optionalSpace_eq.1 (Eq.refl (optionalSpace cs))
    generalize optionalSpace cs = rest at stops he
    subst he
    obtain ⟨how, indent', n, q, m, tail⟩ := l
    obtain ⟨rfl, ended, inner, behind, hf, hn, hs⟩ := (parse?_eq_some blank stops).1 h
    obtain ⟨known, gap, given, _, rfl⟩ := form?_eq_some.1 hf
    obtain ⟨named, before, after, hb, ha, rfl⟩ := braced?_eq_some.1 hn
    rcases known with rfl | ⟨keyword, hk, rfl⟩
    · obtain ⟨quote, inside, d, e, gd, ge, rfl⟩ := source?_importFrom_eq_some.1 hs
      exact ⟨named, inside, .importFrom blank given hb ha gd ge quote ended⟩
    · obtain ⟨quote, inside, d, e, sd, se, rfl⟩ := source?_require_eq_some.1 hs
      exact ⟨named, inside, .require hk blank given hb ha sd se quote ended⟩
  · rintro ⟨named, inside, written⟩
    cases written with
    | importFrom blank given hb hc gd ge quote ended =>
      refine parse?_of_source (.inl rfl) blank given named hb hc ?_ ended
      exact source?_importFrom_eq_some.2 ⟨quote, inside, _, _, gd, ge, rfl⟩
    | require known blank given hb hc sd se quote ended =>
      refine parse?_of_source (.inr ⟨_, known, rfl⟩) blank given named hb hc ?_ ended
      exact source?_require_eq_some.2 ⟨quote, inside, _, _, sd, se, rfl⟩

theorem Written.indent (h : Written l cs) : Blank l.indent := by
  cases h with
  | importFrom blank => exact blank
  | require _ blank => exact blank

theorem Written.known (h : Written l cs) : l.form.Known := by
  cases h with
  | importFrom => exact .inl rfl
  | require known => exact .inr ⟨_, known, rfl⟩

theorem renderFrom_eq (l : Line) (target : List Char) :
    l.renderFrom target = l.indent ++ (l.form.keyword ++ ' ' :: (l.name ++ (l.form.joint ++
      l.quote :: (target ++ l.quote :: (l.form.closing ++ l.tail))))) := by
  obtain ⟨how, indent, n, q, m, tail⟩ := l
  cases how with
  | importFrom =>
    have spaced : "import ".toList = "import".toList ++ [' '] := rfl
    change indent ++ "import ".toList ++ n ++ " from ".toList ++ (q :: target ++ [q]) ++ tail =
      indent ++ ("import".toList ++ ' ' :: (n ++ (" from ".toList ++
        q :: (target ++ q :: ([] ++ tail)))))
    rw [spaced]
    generalize "import".toList = word
    generalize " from ".toList = joint
    simp only [List.append_assoc, List.cons_append, List.nil_append]
  | require keyword =>
    change indent ++ keyword ++ [' '] ++ n ++ " = require(".toList ++ (q :: target ++ [q]) ++
      [')'] ++ tail = indent ++ (keyword ++ ' ' :: (n ++ (" = require(".toList ++
        q :: (target ++ q :: ([')'] ++ tail)))))
    generalize " = require(".toList = joint
    simp only [List.append_assoc, List.cons_append, List.nil_append]

theorem parse?_of_name {indent rest : List Char} {how : Form} (blank : Blank indent)
    (known : how.Known) (named : IsName n) :
    parse? (indent ++ (how.keyword ++ ' ' :: (n ++ rest))) = none := by
  have gap : Gap [' '] := ⟨List.cons_ne_nil _ _, List.forall_mem_singleton.2 (by decide)⟩
  have form := form?_eq_some.2 ⟨known, [' '], gap, named.stops rest, rfl⟩
  rw [Option.eq_none_iff_forall_ne_some]
  intro l h
  obtain ⟨_, _, inner, behind, hf, hn, _⟩ := (parse?_eq_some blank (known.stops _)).1 h
  obtain ⟨_, rfl⟩ := Prod.mk.injEq .. ▸ Option.some.inj (form.symm.trans hf)
  obtain ⟨_, _, _, _, _, brace⟩ := braced?_eq_some.1 hn
  obtain ⟨first, more, rfl, start, _⟩ := named
  rw [(List.cons.inj brace).1] at start
  cases start

end Line

theorem narrow?_eq_some : narrow? line package exportName target = some replacement ↔
    ∃ l, Line.parse? line.toList = some l ∧ l.name = exportName.toList ∧
      l.module = package.toList ∧ replacement = String.ofList (l.renderFrom target.toList) := by
  constructor
  · intro h
    obtain ⟨l, hl, h⟩ := Option.bind_eq_some_iff.1 h
    split at h
    · rename_i same
      exact ⟨l, hl, same.1, same.2, (Option.some.inj h).symm⟩
    · cases h
  · rintro ⟨l, hl, named, inside, rfl⟩
    simp only [narrow?, hl, Option.bind_eq_bind, Option.bind_some]
    exact if_pos ⟨named, inside⟩

/-- What is put in the place of a line is not narrowed again. -/
theorem narrow?_narrowed (h : narrow? line package exportName target = some replacement)
    (package' exportName' target' : String) :
    narrow? replacement package' exportName' target' = none := by
  obtain ⟨l, hl, _, _, rfl⟩ := narrow?_eq_some.1 h
  obtain ⟨named, _, written⟩ := Line.parse?_eq_some_iff.1 hl
  rw [narrow?, String.toList_ofList, l.renderFrom_eq,
    Line.parse?_of_name written.indent written.known named]
  rfl

theorem narrow?_ne (h : narrow? line package exportName target = some replacement) :
    replacement ≠ line := by
  rintro rfl
  have again := narrow?_narrowed h package exportName target
  cases h.symm.trans again

end PackageUsage.Narrowing
