import Mathlib

namespace PackageUsage.Narrowing
set_option autoImplicit true

/-- A pattern of text. -/
inductive Pattern where
  | nothing
  | one (p : Char → Bool)
  /-- As many characters of a kind as there are, and fewer if what follows does not match. -/
  | many (p : Char → Bool)
  /-- A character of a kind, and none if there is none or if what follows does not match. -/
  | maybe (p : Char → Bool)
  | either (a b : Pattern)
  | next (a b : Pattern)
  /-- What is matched is kept. -/
  | group (a : Pattern)

namespace Pattern

def runMany (p : Char → Bool) (k : List Char → Option β) : List Char → Option β
  | [] => k []
  | c :: cs => if p c then (runMany p k cs).or (k (c :: cs)) else k (c :: cs)

/-- Matches the start of a text and goes on by `k` with the groups that were kept and what is left.
Where that fails, the next way to match is tried. -/
def run : Pattern → (List (List Char) → List Char → Option β) → List (List Char) → List Char →
    Option β
  | nothing, k, gs, cs => k gs cs
  | one _, _, _, [] => none
  | one p, k, gs, c :: cs => if p c then k gs cs else none
  | many p, k, gs, cs => runMany p (k gs) cs
  | maybe _, k, gs, [] => k gs []
  | maybe p, k, gs, c :: cs => (if p c then k gs cs else none).or (k gs (c :: cs))
  | either a b, k, gs, cs => (a.run k gs cs).or (b.run k gs cs)
  | next a b, k, gs, cs => a.run (b.run k) gs cs
  | group a, k, gs, cs =>
    a.run (fun gs rest => k (gs ++ [cs.take (cs.length - rest.length)]) rest) gs cs

/-- A match is at an end where the text ends, or where all that is left is a line feed. -/
def atEnd (gs : List (List Char)) (rest : List Char) : Option (List (List Char)) :=
  if rest = [] ∨ rest = ['\n'] then some gs else none

/-- The groups of the first match of a text from its start to its end. -/
def firstMatch? (p : Pattern) (cs : List Char) : Option (List (List Char)) := p.run atEnd [] cs

/-- A pattern matches a text, keeping some groups. -/
def Matches : Pattern → List (List Char) → List Char → Prop
  | nothing, gs, cs => gs = [] ∧ cs = []
  | one p, gs, cs => gs = [] ∧ ∃ c, p c = true ∧ cs = [c]
  | many p, gs, cs => gs = [] ∧ ∀ c ∈ cs, p c = true
  | maybe p, gs, cs => gs = [] ∧ (cs = [] ∨ ∃ c, p c = true ∧ cs = [c])
  | either a b, gs, cs => a.Matches gs cs ∨ b.Matches gs cs
  | next a b, gs, cs => ∃ before after first second,
      a.Matches before first ∧ b.Matches after second ∧ gs = before ++ after ∧ cs = first ++ second
  | group a, gs, cs => ∃ before, a.Matches before cs ∧ gs = before ++ [cs]

theorem runMany_eq_some (h : runMany p k cs = some b) :
    ∃ taken rest, (∀ c ∈ taken, p c = true) ∧ cs = taken ++ rest ∧ k rest = some b := by
  induction cs with
  | nil => exact ⟨[], [], List.forall_mem_nil _, rfl, h⟩
  | cons c cs ih =>
    rw [runMany] at h
    split at h
    · rename_i hc
      rcases Option.or_eq_some_iff.1 h with h | ⟨_, h⟩
      · obtain ⟨taken, rest, inside, rfl, hk⟩ := ih h
        exact ⟨c :: taken, rest, List.forall_mem_cons.2 ⟨hc, inside⟩, rfl, hk⟩
      · exact ⟨[], c :: cs, List.forall_mem_nil _, rfl, h⟩
    · exact ⟨[], c :: cs, List.forall_mem_nil _, rfl, h⟩

theorem isSome_runMany (h : ∀ c ∈ taken, p c = true) (hk : (k rest).isSome = true) :
    (runMany p k (taken ++ rest)).isSome = true := by
  induction taken with
  | nil =>
    cases rest with
    | nil => exact hk
    | cons c rest =>
      rw [List.nil_append, runMany]
      split
      · rw [Option.isSome_or, hk, Bool.or_true]
      · exact hk
  | cons c taken ih =>
    obtain ⟨hc, inside⟩ := List.forall_mem_cons.1 h
    rw [List.cons_append, runMany, if_pos hc, Option.isSome_or, ih inside, Bool.true_or]

theorem take_of_append (taken rest : List Char) :
    (taken ++ rest).take ((taken ++ rest).length - rest.length) = taken := by
  rw [List.length_append, Nat.add_sub_cancel, List.take_left]

theorem run_eq_some {a : Pattern} (h : a.run k gs cs = some b) : ∃ new taken rest,
    a.Matches new taken ∧ cs = taken ++ rest ∧ k (gs ++ new) rest = some b := by
  induction a generalizing k gs cs with
  | nothing => exact ⟨[], [], cs, ⟨rfl, rfl⟩, rfl, by rw [List.append_nil]; exact h⟩
  | one p =>
    cases cs with
    | nil => cases h
    | cons c cs =>
      rw [run] at h
      split at h
      · rename_i hc
        exact ⟨[], [c], cs, ⟨rfl, c, hc, rfl⟩, rfl, by rw [List.append_nil]; exact h⟩
      · cases h
  | many p =>
    obtain ⟨taken, rest, inside, he, hk⟩ := runMany_eq_some h
    exact ⟨[], taken, rest, ⟨rfl, inside⟩, he, by rw [List.append_nil]; exact hk⟩
  | maybe p =>
    cases cs with
    | nil => exact ⟨[], [], [], ⟨rfl, .inl rfl⟩, rfl, by rw [List.append_nil]; exact h⟩
    | cons c cs =>
      rcases Option.or_eq_some_iff.1 h with h | ⟨_, h⟩
      · split at h
        · rename_i hc
          exact ⟨[], [c], cs, ⟨rfl, .inr ⟨c, hc, rfl⟩⟩, rfl, by rw [List.append_nil]; exact h⟩
        · cases h
      · exact ⟨[], [], c :: cs, ⟨rfl, .inl rfl⟩, rfl, by rw [List.append_nil]; exact h⟩
  | either a b iha ihb =>
    rcases Option.or_eq_some_iff.1 h with h | ⟨_, h⟩
    · obtain ⟨new, taken, rest, hm, he, hk⟩ := iha h
      exact ⟨new, taken, rest, .inl hm, he, hk⟩
    · obtain ⟨new, taken, rest, hm, he, hk⟩ := ihb h
      exact ⟨new, taken, rest, .inr hm, he, hk⟩
  | next a b iha ihb =>
    obtain ⟨before, first, inner, ha, rfl, found⟩ := iha h
    obtain ⟨after, second, rest, hb, rfl, hk⟩ := ihb found
    rw [List.append_assoc] at hk
    exact ⟨before ++ after, first ++ second, rest, ⟨_, _, _, _, ha, hb, rfl, rfl⟩,
      (List.append_assoc ..).symm, hk⟩
  | group a ih =>
    obtain ⟨before, taken, rest, ha, rfl, hk⟩ := ih h
    rw [take_of_append, List.append_assoc] at hk
    exact ⟨before ++ [taken], taken, rest, ⟨before, ha, rfl⟩, rfl, hk⟩

/-- If there is a match with which what follows goes on, one is found. -/
theorem isSome_run {a : Pattern} (h : a.Matches new taken)
    (hk : (k (gs ++ new) rest).isSome = true) : (a.run k gs (taken ++ rest)).isSome = true := by
  induction a generalizing k gs new taken rest with
  | nothing =>
    obtain ⟨rfl, rfl⟩ := h
    rw [List.append_nil] at hk
    exact hk
  | one p =>
    obtain ⟨rfl, c, hc, rfl⟩ := h
    rw [List.append_nil] at hk
    rw [List.singleton_append, run, if_pos hc]
    exact hk
  | many p =>
    obtain ⟨rfl, inside⟩ := h
    rw [List.append_nil] at hk
    exact isSome_runMany inside hk
  | maybe p =>
    obtain ⟨rfl, rfl | ⟨c, hc, rfl⟩⟩ := h
    · rw [List.append_nil] at hk
      cases rest with
      | nil => exact hk
      | cons c rest => rw [List.nil_append, run, Option.isSome_or, hk, Bool.or_true]
    · rw [List.append_nil] at hk
      rw [List.singleton_append, run, if_pos hc, Option.isSome_or, hk, Bool.true_or]
  | either a b iha ihb =>
    rw [run, Option.isSome_or, Bool.or_eq_true]
    exact h.imp (iha · hk) (ihb · hk)
  | next a b iha ihb =>
    obtain ⟨before, after, first, second, ha, hb, rfl, rfl⟩ := h
    rw [← List.append_assoc] at hk
    rw [List.append_assoc]
    exact iha ha (ihb hb hk)
  | group a ih =>
    obtain ⟨before, ha, rfl⟩ := h
    rw [← List.append_assoc] at hk
    apply ih ha
    rw [take_of_append]
    exact hk

theorem runMany_append (h : ∀ c ∈ taken, p c = true) (hk : runMany p k rest = some b) :
    runMany p k (taken ++ rest) = some b := by
  induction taken with
  | nil => exact hk
  | cons c taken ih =>
    obtain ⟨hc, inside⟩ := List.forall_mem_cons.1 h
    rw [List.cons_append, runMany, if_pos hc, ih inside, Option.some_or]

theorem runMany_all (h : ∀ c ∈ cs, p c = true) (hk : k [] = some b) :
    runMany p k cs = some b := by
  rw [← List.append_nil cs]
  exact runMany_append h hk

/-- One pattern after the other. -/
def sequence (ps : List Pattern) : Pattern := ps.foldr next nothing

def word (cs : List Char) : Pattern := sequence (cs.map fun c => one (· == c))

/-- A pattern matches the texts of a kind and keeps no group. -/
def Reads (a : Pattern) (P : List Char → Prop) : Prop := ∀ gs cs, a.Matches gs cs ↔ gs = [] ∧ P cs

theorem Reads.congr (h : Reads a P) (iff : ∀ cs, P cs ↔ Q cs) : Reads a Q := by
  obtain rfl : P = Q := funext fun cs => propext (iff cs)
  exact h

theorem Reads.either (ha : Reads a P) (hb : Reads b Q) :
    Reads (either a b) fun cs => P cs ∨ Q cs := by
  intro gs cs
  change a.Matches gs cs ∨ b.Matches gs cs ↔ _
  rw [ha, hb, ← and_or_left]

theorem reads_word (w : List Char) : Reads (word w) (· = w) := by
  intro gs cs
  induction w generalizing gs cs with
  | nil => exact .rfl
  | cons d w ih =>
    constructor
    · rintro ⟨_, _, _, _, ⟨rfl, c, hc, rfl⟩, behind, rfl, rfl⟩
      obtain ⟨rfl, rfl⟩ := (ih _ _).1 behind
      exact ⟨rfl, by rw [beq_iff_eq.1 hc, List.singleton_append]⟩
    · rintro ⟨rfl, rfl⟩
      exact ⟨[], [], [d], w, ⟨rfl, d, beq_self_eq_true d, rfl⟩, (ih _ _).2 ⟨rfl, rfl⟩, rfl, rfl⟩

theorem reads_some (p q : Char → Bool) : Reads (sequence [one p, many q]) fun cs =>
    ∃ first more, cs = first :: more ∧ p first = true ∧ ∀ c ∈ more, q c = true := by
  intro gs cs
  constructor
  · rintro ⟨_, _, _, _, ⟨rfl, c, hc, rfl⟩,
      ⟨_, _, more, _, ⟨rfl, inside⟩, ⟨rfl, rfl⟩, rfl, rfl⟩, rfl, rfl⟩
    exact ⟨rfl, c, more, by rw [List.append_nil, List.singleton_append], hc, inside⟩
  · rintro ⟨rfl, c, more, rfl, hc, inside⟩
    exact ⟨[], [], [c], more, ⟨rfl, c, hc, rfl⟩, ⟨[], [], more, [], ⟨rfl, inside⟩, ⟨rfl, rfl⟩, rfl,
      (List.append_nil more).symm⟩, rfl, rfl⟩

theorem exists_cons_iff {p : Char → Bool} : (∃ first more, cs = first :: more ∧ p first = true ∧
    ∀ c ∈ more, p c = true) ↔ cs ≠ [] ∧ ∀ c ∈ cs, p c = true := by
  constructor
  · rintro ⟨first, more, rfl, here, behind⟩
    exact ⟨List.cons_ne_nil _ _, List.forall_mem_cons.2 ⟨here, behind⟩⟩
  · rintro ⟨given, inside⟩
    obtain ⟨first, more, rfl⟩ := List.exists_cons_of_ne_nil given
    obtain ⟨here, behind⟩ := List.forall_mem_cons.1 inside
    exact ⟨first, more, rfl, here, behind⟩

theorem matches_skip (h : Reads a P) : (sequence (a :: ps)).Matches gs cs ↔
    ∃ taken rest, P taken ∧ cs = taken ++ rest ∧ (sequence ps).Matches gs rest := by
  constructor
  · rintro ⟨_, _, taken, rest, ha, hb, rfl, rfl⟩
    obtain ⟨rfl, hp⟩ := (h _ _).1 ha
    exact ⟨taken, rest, hp, rfl, hb⟩
  · rintro ⟨taken, rest, hp, rfl, hb⟩
    exact ⟨[], gs, taken, rest, (h _ _).2 ⟨rfl, hp⟩, hb, rfl, rfl⟩

theorem matches_keep (h : Reads a P) : (sequence (group a :: ps)).Matches gs cs ↔
    ∃ taken rest more, P taken ∧ cs = taken ++ rest ∧ gs = taken :: more ∧
      (sequence ps).Matches more rest := by
  constructor
  · rintro ⟨_, more, taken, rest, ⟨_, ha, rfl⟩, hb, rfl, rfl⟩
    obtain ⟨rfl, hp⟩ := (h _ _).1 ha
    exact ⟨taken, rest, more, hp, rfl, rfl, hb⟩
  · rintro ⟨taken, rest, more, hp, rfl, rfl, hb⟩
    exact ⟨[taken], more, taken, rest, ⟨[], (h _ _).2 ⟨rfl, hp⟩, rfl⟩, hb, rfl, rfl⟩

end Pattern

end PackageUsage.Narrowing
