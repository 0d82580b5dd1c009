import Mathlib.Data.List.DropRight
import PackageUsage.Proofs.SplitText
import PackageUsage.Specifier

namespace PackageUsage
set_option autoImplicit true

namespace Text

theorem strip_strip (s : String) : strip (strip s) = strip s := by
  unfold strip
  rw [String.toList_ofList]
  congr 1
  change List.rdropWhile isBlank ((List.rdropWhile isBlank (s.toList.dropWhile isBlank)).dropWhile
    isBlank) = List.rdropWhile isBlank (s.toList.dropWhile isBlank)
  have trimmed : (List.rdropWhile isBlank (s.toList.dropWhile isBlank)).dropWhile isBlank =
      List.rdropWhile isBlank (s.toList.dropWhile isBlank) := by
    rw [List.dropWhile_eq_self_iff]
    intro positive
    have start := List.rdropWhile_prefix isBlank (l := s.toList.dropWhile isBlank)
    rw [start.getElem]
    exact List.dropWhile_get_zero_not isBlank s.toList (positive.trans_le start.length_le)
  rw [trimmed, List.rdropWhile_idempotent]

theorem isPrefixOf_append_cons {p s t : List Char} (h : sep ∉ p) :
    p.isPrefixOf (s ++ sep :: t) = p.isPrefixOf s := by
  induction p generalizing s with
  | nil => rw [List.isPrefixOf_nil_left, List.isPrefixOf_nil_left]
  | cons c p ih =>
    rw [List.mem_cons, not_or] at h
    obtain ⟨hc, hp⟩ := h
    cases s with
    | nil =>
      rw [List.nil_append, List.isPrefixOf_cons_cons, beq_false_of_ne (Ne.symm hc)]
      rfl
    | cons d s => rw [List.cons_append, List.isPrefixOf_cons_cons, List.isPrefixOf_cons_cons, ih hp]

theorem startsWith_append (h : sep ∉ p.toList) (s t : String) :
    startsWith (s ++ String.singleton sep ++ t) p = startsWith s p := by
  rw [startsWith, startsWith, String.toList_append, String.toList_append,
    String.toList_singleton, List.append_assoc, List.singleton_append, isPrefixOf_append_cons h]

end Text

namespace Specifier
open Text

/-- Whether a first segment belongs neither to a module of the runtime nor to the path of a file. -/
def External (first : String) : Prop :=
  first ≠ "" ∧ startsWith first "node:" = false ∧ first ∉ builtinModules ∧
    startsWith first "." = false

/-- The segments of a specifier begin with the name of a package. -/
inductive Leads : List String → String → Prop
  | bare : External name → startsWith name "@" = false → Leads (name :: rest) name
  | inScope : External scope → startsWith scope "@" = true → 1 < scope.length → name ≠ "" →
      Leads (scope :: name :: rest) (scope ++ "/" ++ name)

/-- A specifier is a name or a path below it. -/
def Below (m name : String) : Prop := m = name ∨ ∃ rest, m = name ++ "/" ++ rest

theorem belongsTo_iff : belongsTo m name = true ↔ Below m name := by
  unfold belongsTo Below startsWith
  rw [Bool.or_eq_true, beq_iff_eq, List.isPrefixOf_iff_prefix]
  apply or_congr_right
  constructor
  · rintro ⟨rest, he⟩
    refine ⟨String.ofList rest, String.toList_inj.1 ?_⟩
    rw [String.toList_append, String.toList_ofList, he]
  · rintro ⟨rest, rfl⟩
    exact ⟨rest.toList, String.toList_append.symm⟩

theorem startsWith_of_split (hs : split '/' m = first :: rest) (hp : '/' ∉ p.toList) :
    startsWith m p = startsWith first p := by
  obtain ⟨_, ⟨rfl, _⟩ | ⟨t, rfl, _⟩⟩ := split_eq_cons hs
  · rfl
  · exact startsWith_append hp first t

theorem first_eq_empty_iff (hs : split '/' m = first :: rest) :
    m = "" ∨ startsWith m "/" = true ↔ first = "" := by
  obtain ⟨clear, ⟨rfl, _⟩ | ⟨t, rfl, _⟩⟩ := split_eq_cons hs
  · apply or_iff_left_of_imp
    intro slash
    exact (clear ((List.isPrefixOf_iff_prefix.1 slash).subset List.mem_cons_self)).elim
  rw [startsWith, List.isPrefixOf_iff_prefix, String.toList_append, String.toList_append,
    String.toList_singleton, List.append_assoc]
  constructor
  · rintro (empty | slash)
    · have characters := congrArg String.toList empty
      rw [String.toList_append, String.toList_append, String.toList_singleton] at characters
      simp at characters
    · cases hf : first.toList with
      | nil => exact String.toList_eq_nil_iff.1 hf
      | cons c cs =>
        rw [hf] at slash clear
        have same : '/' = c := (List.cons_prefix_cons.1 slash).1
        exact (clear (same ▸ List.mem_cons_self)).elim
  · rintro rfl
    exact .inr (List.prefix_append ['/'] _)

theorem not_external_iff (hs : split '/' m = first :: rest) :
    (m = "" ∨ (startsWith m "node:" || builtinModules.contains ((split '/' m).headD "")) = true ∨
      startsWith m "." = true ∨ startsWith m "/" = true) ↔ ¬ External first := by
  have empty := first_eq_empty_iff hs
  have protocol : startsWith m "node:" = startsWith first "node:" :=
    startsWith_of_split hs (by decide)
  have dot : startsWith m "." = startsWith first "." := startsWith_of_split hs (by decide)
  rw [External, ← Bool.not_eq_true, ← Bool.not_eq_true, ← protocol, ← dot, ne_eq, ← empty, hs,
    List.headD_cons, Bool.or_eq_true, List.contains_iff_mem, ← not_or, ← not_or, ← not_or, not_not]
  simp only [or_assoc, or_comm, or_left_comm]

/-- The white space around a specifier does not matter, and what remains has to begin with the name
of a package. -/
theorem package?_eq_some_iff : package? m = some name ↔ Leads (split '/' (strip m)) name := by
  obtain ⟨first, rest, hs⟩ := List.exists_cons_of_ne_nil (split_ne_nil '/' (strip m))
  have outside := not_external_iff hs
  have scope : startsWith (strip m) "@" = startsWith first "@" :=
    startsWith_of_split hs (by decide)
  unfold package? isBuiltin
  dsimp only
  rw [strip_strip, scope]
  by_cases external : External first
  · rw [if_neg (mt outside.1 (not_not_intro external)), hs]
    dsimp only
    split
    · rename_i inScope
      cases rest with
      | nil =>
        constructor
        · nofun
        · rintro (⟨_, bare⟩ | _)
          cases inScope.symm.trans bare
      | cons second rest =>
        dsimp only
        split
        · rename_i wrong
          constructor
          · nofun
          · intro leads
            cases leads with
            | bare _ bare => cases inScope.symm.trans bare
            | inScope _ _ long named => exact (wrong.elim (Nat.not_le.2 long) named).elim
        · rename_i right
          rw [not_or, Nat.not_le] at right
          constructor
          · rintro ⟨⟩
            exact .inScope external inScope right.1 right.2
          · intro leads
            cases leads with
            | bare _ bare => cases inScope.symm.trans bare
            | inScope => rfl
    · rename_i bare
      constructor
      · rintro ⟨⟩
        exact .bare external (Bool.eq_false_iff.2 bare)
      · intro leads
        cases leads with
        | bare => rfl
        | inScope _ inScope => exact (bare inScope).elim
  · rw [if_pos (outside.2 external), hs]
    constructor
    · nofun
    · intro leads
      cases leads with
      | bare h => exact (external h).elim
      | inScope h => exact (external h).elim

theorem Leads.append (h : Leads segments name) (more : List String) :
    Leads (segments ++ more) name := by
  cases h with
  | bare external bare => exact .bare external bare
  | inScope external inScope long named => exact .inScope external inScope long named

theorem leads_split_iff :
    Leads (split '/' m) name ↔ Leads (split '/' name) name ∧ Below m name := by
  constructor
  · intro h
    generalize hs : split '/' m = segments at h
    cases h with
    | bare external bare =>
      obtain ⟨clear, tail⟩ := split_eq_cons hs
      constructor
      · rw [split_eq_singleton clear]
        exact .bare external bare
      · rcases tail with ⟨he, _⟩ | ⟨t, he, _⟩
        · exact .inl he
        · exact .inr ⟨t, he⟩
    | @inScope scope name rest external inScope long named =>
      obtain ⟨clear, ⟨_, none⟩ | ⟨t, rfl, ht⟩⟩ := split_eq_cons hs
      · cases none
      obtain ⟨clear', tail⟩ := split_eq_cons ht
      constructor
      · have pieces := split_append '/' scope name
        rw [split_eq_singleton clear, split_eq_singleton clear'] at pieces
        change Leads (split '/' (scope ++ String.singleton '/' ++ name)) _
        rw [pieces]
        exact .inScope external inScope long named
      · rcases tail with ⟨rfl, _⟩ | ⟨u, rfl, _⟩
        · exact .inl rfl
        · right
          refine ⟨u, ?_⟩
          simp only [String.append_assoc]
          rfl
  · rintro ⟨h, rfl | ⟨rest, rfl⟩⟩
    · exact h
    · have pieces := split_append '/' name rest
      change Leads (split '/' (name ++ String.singleton '/' ++ rest)) _
      rw [pieces]
      exact h.append _

theorem package?_eq_some_iff_belongsTo (trimmed : strip m = m)
    (named : Leads (split '/' name) name) : package? m = some name ↔ belongsTo m name = true := by
  rw [package?_eq_some_iff, trimmed, leads_split_iff, belongsTo_iff]
  exact and_iff_right named

theorem leads_of_package? (h : package? m = some name) : Leads (split '/' name) name :=
  (leads_split_iff.1 (package?_eq_some_iff.1 h)).1

end Specifier

end PackageUsage
