import Mathlib
import PackageUsage.Narrowing.Plan

namespace PackageUsage
set_option autoImplicit true

namespace Text.Utf8

/-- An ASCII character that bytes stand for themselves: it is part of no longer sequence. -/
theorem continuation_append (hb : b.toNat < 0x80) (acc k : Nat) (xs ys : List UInt8) :
    continuation acc k (xs ++ b :: ys) =
      ((continuation acc k xs).1, (continuation acc k xs).2 ++ b :: ys) := by
  induction k generalizing acc xs with
  | zero => rfl
  | succ k ih =>
    cases xs with
    | nil =>
      have outside : (0x80 ≤ b.toNat && b.toNat ≤ 0xBF) = false := by
        rw [Bool.and_eq_false_iff, decide_eq_false (Nat.not_le.2 hb)]
        exact .inl rfl
      simp only [List.nil_append, continuation, outside, Bool.false_eq_true, if_false]
    | cons x xs =>
      rw [List.cons_append]
      unfold continuation
      split
      · exact ih _ xs
      · rfl

theorem bounds_of_ofByte? (h : Lead.ofByte? x = some lead) :
    0x80 ≤ lead.low ∧ 0x80 ≤ (lead.bits * 64 + (lead.low - 0x80)) * 64 ^ lead.more := by
  unfold Lead.ofByte? at h
  simp only [Bool.and_eq_true, decide_eq_true_eq, beq_iff_eq] at h
  split_ifs at h
  all_goals
    rw [← Option.some.inj h]
    dsimp only
    omega

theorem next_append (hb : b.toNat < 0x80) (x : UInt8) (xs ys : List UInt8) :
    next x (xs ++ b :: ys) = ((next x xs).1, (next x xs).2 ++ b :: ys) := by
  unfold next
  split
  · rfl
  · cases hl : Lead.ofByte? x with
    | none => rfl
    | some lead =>
      cases xs with
      | nil =>
        have outside : (lead.low ≤ b.toNat && b.toNat ≤ lead.high) = false := by
          have := (bounds_of_ofByte? hl).1
          simp only [Bool.and_eq_false_iff, decide_eq_false_iff_not]
          omega
        simp only [List.nil_append, outside, Bool.false_eq_true, if_false]
      | cons y xs =>
        dsimp only [List.cons_append]
        split
        · exact continuation_append hb _ _ xs ys
        · rfl

theorem pieces_append (hb : b.toNat < 0x80) (xs ys : List UInt8) :
    pieces (xs ++ b :: ys) = pieces xs ++ .char (Char.ofNat b.toNat) :: pieces ys := by
  match xs with
  | [] =>
    have here : next b ys = (.char (Char.ofNat b.toNat), ys) := by
      unfold next
      rw [if_pos hb]
    rw [List.nil_append, pieces, pieces, List.nil_append, here]
  | x :: xs =>
    have shorter := length_next_le x xs
    rw [List.cons_append, pieces, next_append hb, pieces, List.cons_append,
      pieces_append hb (next x xs).2 ys]
termination_by xs.length
decreasing_by exact Nat.lt_succ_of_le shorter

/-- The characters that some bytes are read as. -/
def lossy (bs : List UInt8) : List Char := (pieces bs).flatMap fun p => CodePoint.chars p.lossy

theorem toList_decodeLossy (bytes : ByteArray) :
    (decodeLossy bytes).toList = lossy bytes.toList := by
  unfold decodeLossy ofCodePoints lossy
  rw [String.toList_ofList, List.flatMap_map]

theorem lossy_append (hb : b.toNat < 0x80) (xs ys : List UInt8) :
    lossy (xs ++ b :: ys) = lossy xs ++ Char.ofNat b.toNat :: lossy ys := by
  have ascii : CodePoint.chars (Char.ofNat b.toNat).toNat = [Char.ofNat b.toNat] := by
    apply CodePoint.chars_toNat
    intro marked
    have := congrArg Char.toNat marked
    rw [CodePoint.toNat_ofNat (by omega), CodePoint.toNat_mark] at this
    omega
  unfold lossy
  rw [pieces_append hb, List.flatMap_append, List.flatMap_cons]
  dsimp only [Piece.lossy]
  rw [ascii]
  rfl

theorem continuation_suffix (acc k : Nat) (bs : List UInt8) : (continuation acc k bs).2 <:+ bs := by
  induction k generalizing acc bs with
  | zero => exact List.suffix_refl bs
  | succ k ih =>
    cases bs with
    | nil => exact List.suffix_refl []
    | cons b bs =>
      unfold continuation
      split
      · exact (ih _ bs).trans (List.suffix_cons b bs)
      · exact List.suffix_refl _

theorem next_suffix (x : UInt8) (xs : List UInt8) : (next x xs).2 <:+ xs := by
  unfold next
  split
  · exact List.suffix_refl xs
  split
  · split
    · exact (continuation_suffix _ _ _).trans (List.suffix_cons _ _)
    · exact List.suffix_refl _
  · exact List.suffix_refl _

theorem char_of_continuation (h : (continuation acc k bs).1 = .char c) :
    ∃ n, acc * 64 ^ k ≤ n ∧ c = Char.ofNat n := by
  induction k generalizing acc bs with
  | zero =>
    cases h
    exact ⟨acc, by omega, rfl⟩
  | succ k ih =>
    cases bs with
    | nil => cases h
    | cons b bs =>
      unfold continuation at h
      split at h
      · obtain ⟨n, le, hn⟩ := ih h
        refine ⟨n, Nat.le_trans ?_ le, hn⟩
        rw [Nat.pow_succ', ← Nat.mul_assoc]
        exact Nat.mul_le_mul_right _ (Nat.le_add_right _ _)
      · cases h

theorem toNat_ofNat_cases (n : Nat) : (Char.ofNat n).toNat = n ∨ (Char.ofNat n).toNat = 0 := by
  unfold Char.ofNat
  split
  · exact .inl rfl
  · exact .inr rfl

/-- Only a byte that is an ASCII character is read as one. The null character is set apart because
it could stand for a number that is no character. -/
theorem char_of_next (h : (next x xs).1 = .char c) (positive : 0 < c.toNat)
    (ascii : c.toNat < 0x80) : x.toNat = c.toNat := by
  unfold next at h
  split at h
  · rename_i small
    cases h
    exact (CodePoint.toNat_ofNat (by omega)).symm
  split at h
  · rename_i lead b bs hl
    split at h
    · rename_i inside
      obtain ⟨n, le, rfl⟩ := char_of_continuation h
      have low := (bounds_of_ofByte? hl).2
      have start : (lead.bits * 64 + (lead.low - 0x80)) * 64 ^ lead.more ≤ n := by
        apply Nat.le_trans (Nat.mul_le_mul_right _ (Nat.add_le_add_left ?_ _)) le
        simp only [Bool.and_eq_true, decide_eq_true_eq] at inside
        omega
      rcases toNat_ofNat_cases n with same | null
      · omega
      · omega
    · cases h
  · cases h

theorem eq_of_mem_chars {c d : Char} (hc : c ≠ CodePoint.mark) (h : c ∈ CodePoint.chars d.toNat) :
    c = d := by
  by_cases marked : d = CodePoint.mark
  · rw [marked, CodePoint.chars_mark] at h
    rcases List.mem_cons.1 h with h | h
    · exact (hc h).elim
    · exact (hc (List.mem_singleton.1 h)).elim
  · rw [CodePoint.chars_toNat marked] at h
    exact List.mem_singleton.1 h

theorem mem_of_mem_lossy {c : Char} (positive : 0 < c.toNat) (ascii : c.toNat < 0x80) :
    ∀ bs : List UInt8, c ∈ lossy bs → UInt8.ofNat c.toNat ∈ bs
  | [] => by
    intro h
    rw [lossy, pieces] at h
    cases h
  | x :: xs => by
    intro h
    have unmarked : c ≠ CodePoint.mark := by
      rintro rfl
      exact absurd ascii (by decide)
    rw [lossy, pieces, List.flatMap_cons, List.mem_append] at h
    rcases h with here | behind
    · cases hp : (next x xs).1 with
      | char d =>
        rw [hp] at here
        cases eq_of_mem_chars unmarked here
        rw [← char_of_next hp positive ascii, UInt8.ofNat_toNat]
        exact List.mem_cons_self
      | illFormed =>
        rw [hp] at here
        cases eq_of_mem_chars unmarked here
        exact absurd ascii (by decide)
    · have shorter := length_next_le x xs
      have found := mem_of_mem_lossy positive ascii _ behind
      exact List.mem_cons_of_mem x ((next_suffix x xs).subset found)
termination_by bs => bs.length
decreasing_by exact Nat.lt_succ_of_le shorter

/-- A line feed stands for itself wherever it is, so lines of bytes are read as lines of text. -/
theorem splitOn_lossy (bs : List UInt8) :
    (lossy bs).splitOn '\n' = (bs.splitOn 10).map lossy := by
  by_cases feed : 10 ∈ bs
  · obtain ⟨line, rest, rfl, clear⟩ := List.eq_append_cons_of_mem feed
    have shorter : rest.length < (line ++ 10 :: rest).length := by
      rw [List.length_append, List.length_cons]
      omega
    have unread : '\n' ∉ lossy line := fun h => clear (mem_of_mem_lossy (by decide) (by decide) _ h)
    have read : lossy (line ++ 10 :: rest) = lossy line ++ '\n' :: lossy rest :=
      lossy_append (by decide) line rest
    rw [read, List.splitOn_append_cons_self, List.splitOn_append_cons_self,
      List.splitOn_eq_singleton unread, List.splitOn_eq_singleton clear, splitOn_lossy rest,
      List.map_append, List.map_singleton]
  · have unread : '\n' ∉ lossy bs := fun h => feed (mem_of_mem_lossy (by decide) (by decide) _ h)
    rw [List.splitOn_eq_singleton unread, List.splitOn_eq_singleton feed, List.map_singleton]
termination_by bs.length

end Text.Utf8

namespace Narrowing

/-- No carriage return stands in a line but at its end. -/
def Unbroken (line : List Char) : Prop := '\r' ∉ line.dropLast

/-- A line without the carriage return that may end it. -/
def withoutReturn (line : List Char) : List Char :=
  if line.getLast? = some '\r' then line.dropLast else line

theorem return_cases (line : List Char) : '\r' ∉ line ∨
    (∃ start, '\r' ∉ start ∧ line = start ++ ['\r']) ∨
    ∃ start c rest, '\r' ∉ start ∧ line = start ++ '\r' :: c :: rest := by
  by_cases inside : '\r' ∈ line
  · obtain ⟨start, rest, he, clear⟩ := List.eq_append_cons_of_mem inside
    cases rest with
    | nil => exact .inr (.inl ⟨start, clear, he⟩)
    | cons c rest => exact .inr (.inr ⟨start, c, rest, clear, he⟩)
  · exact .inl inside

theorem unbroken_of_not_mem (h : '\r' ∉ line) : Unbroken line :=
  fun inside => h (List.dropLast_subset line inside)

theorem withoutReturn_of_not_mem (h : '\r' ∉ line) : withoutReturn line = line := by
  apply if_neg
  intro last
  exact h (List.mem_of_getLast? last)

theorem unbroken_append_return (h : '\r' ∉ start) : Unbroken (start ++ ['\r']) := by
  rwa [Unbroken, List.dropLast_concat]

theorem withoutReturn_append_return (start : List Char) :
    withoutReturn (start ++ ['\r']) = start := by
  rw [withoutReturn, if_pos List.getLast?_concat, List.dropLast_concat]

theorem not_unbroken (start : List Char) (c : Char) (rest : List Char) :
    ¬ Unbroken (start ++ '\r' :: c :: rest) := by
  intro h
  apply h
  rw [List.dropLast_append_of_ne_nil (List.cons_ne_nil _ _)]
  exact List.mem_append_right _ List.mem_cons_self

theorem ne_withoutReturn (start : List Char) (c : Char) (rest : List Char) :
    start ≠ withoutReturn (start ++ '\r' :: c :: rest) := by
  intro h
  have := congrArg List.length h
  rw [withoutReturn] at this
  split at this
  · rw [List.length_dropLast, List.length_append, List.length_cons, List.length_cons] at this
    omega
  · rw [List.length_append, List.length_cons, List.length_cons] at this
    omega

theorem unixLines_append (h : '\r' ∉ xs) (ys : List Char) :
    unixLines (xs ++ ys) = xs ++ unixLines ys := by
  induction xs with
  | nil => rfl
  | cons x xs ih =>
    rw [List.mem_cons, not_or] at h
    obtain ⟨hx, hxs⟩ := h
    rw [List.cons_append, unixLines, ih hxs, List.cons_append]
    · intro _ e
      exact fun _ => hx e.symm
    · exact fun e => hx e.symm

theorem unixLines_return (h : c ≠ '\n') (rest : List Char) :
    unixLines ('\r' :: c :: rest) = '\n' :: unixLines (c :: rest) := by
  rw [unixLines]
  intro _ e
  exact h (List.cons.inj e).1

theorem splitOn_unixLines_of_unbroken (feedless : '\n' ∉ line) (h : Unbroken line)
    (rest : List Char) : (unixLines (line ++ '\n' :: rest)).splitOn '\n' =
      withoutReturn line :: (unixLines rest).splitOn '\n' := by
  have ended : unixLines ('\n' :: rest) = '\n' :: unixLines rest := by
    rw [unixLines]
    · intro _ e
      cases e
    · intro e
      cases e
  rcases return_cases line with clear | ⟨start, clear, rfl⟩ | ⟨start, c, more, _, rfl⟩
  · rw [unixLines_append clear, ended, List.splitOn_append_cons_self,
      List.splitOn_eq_singleton feedless, withoutReturn_of_not_mem clear]
    rfl
  · have feedless : '\n' ∉ start := fun h => feedless (List.mem_append_left _ h)
    rw [List.append_assoc, List.singleton_append, unixLines_append clear, unixLines,
      List.splitOn_append_cons_self, List.splitOn_eq_singleton feedless,
      withoutReturn_append_return]
    rfl
  · exact (not_unbroken start c more h).elim

/-- After the last line of a file there is at most an empty one in its text. -/
theorem splitOn_unixLines_of_last (feedless : '\n' ∉ line) (h : Unbroken line) : ∃ us,
    (unixLines line).splitOn '\n' = withoutReturn line :: us ∧ ∀ u ∈ us, u = [] := by
  rcases return_cases line with clear | ⟨start, clear, rfl⟩ | ⟨start, c, more, _, rfl⟩
  · have same := unixLines_append clear []
    rw [List.append_nil] at same
    refine ⟨[], ?_, fun u hu => nomatch hu⟩
    rw [same, unixLines, List.append_nil, List.splitOn_eq_singleton feedless,
      withoutReturn_of_not_mem clear]
  · have feedless : '\n' ∉ start := fun h => feedless (List.mem_append_left _ h)
    have ended : unixLines ['\r'] = ['\n'] := rfl
    refine ⟨[[]], ?_, fun u hu => List.mem_singleton.1 hu⟩
    rw [unixLines_append clear, ended, List.splitOn_append_cons_self,
      List.splitOn_eq_singleton feedless, List.splitOn_nil, withoutReturn_append_return]
    rfl
  · exact (not_unbroken start c more h).elim

theorem splitOn_unixLines_of_broken (feedless : '\n' ∉ line) (h : ¬ Unbroken line)
    (rest : List Char) : ∃ first us,
      (unixLines (line ++ rest)).splitOn '\n' = first :: us ∧ withoutReturn line ≠ first := by
  rcases return_cases line with clear | ⟨start, clear, rfl⟩ | ⟨start, c, more, clear, rfl⟩
  · exact (h (unbroken_of_not_mem clear)).elim
  · exact (h (unbroken_append_return clear)).elim
  · rw [List.mem_append, not_or, List.mem_cons, not_or, List.mem_cons, not_or] at feedless
    obtain ⟨unfed, _, hc, _⟩ := feedless
    refine ⟨start, (unixLines (c :: (more ++ rest))).splitOn '\n', ?_,
      (ne_withoutReturn start c more).symm⟩
    rw [List.append_assoc, List.cons_append, List.cons_append, unixLines_append clear,
      unixLines_return (Ne.symm hc), List.splitOn_append_cons_self,
      List.splitOn_eq_singleton unfed]
    rfl

theorem withoutReturn_eq_first_iff (clear : '\n' ∉ line) (h : rest = [] ∨ ∃ ys, rest = '\n' :: ys)
    (first : ((unixLines (line ++ rest)).splitOn '\n')[0]? = some u) :
    withoutReturn line = u ↔ Unbroken line := by
  by_cases unbroken : Unbroken line
  · obtain ⟨us, he⟩ : ∃ us, (unixLines (line ++ rest)).splitOn '\n' = withoutReturn line :: us := by
      rcases h with rfl | ⟨ys, rfl⟩
      · obtain ⟨us, he, _⟩ := splitOn_unixLines_of_last clear unbroken
        exact ⟨us, (List.append_nil line).symm ▸ he⟩
      · exact ⟨_, splitOn_unixLines_of_unbroken clear unbroken ys⟩
    rw [he] at first
    exact iff_of_true (Option.some.inj first) unbroken
  · obtain ⟨other, us, he, differ⟩ := splitOn_unixLines_of_broken clear unbroken rest
    rw [he] at first
    exact iff_of_false (Option.some.inj first ▸ differ) unbroken

/-- As long as lines are unbroken, the lines of a text are those between its line feeds. -/
theorem getElem?_splitOn_unixLines {text : List Char} {k : Nat}
    (before : ∀ line ∈ (text.splitOn '\n').take k, Unbroken line)
    (h : ((unixLines text).splitOn '\n')[k]? = some u) (shown : u ≠ []) :
    ∃ line, (text.splitOn '\n')[k]? = some line ∧ (withoutReturn line = u ↔ Unbroken line) := by
  induction k generalizing text with
  | zero =>
    by_cases feed : '\n' ∈ text
    · obtain ⟨line, rest, rfl, clear⟩ := List.eq_append_cons_of_mem feed
      rw [List.splitOn_append_cons_self, List.splitOn_eq_singleton clear]
      exact ⟨line, rfl, withoutReturn_eq_first_iff clear (.inr ⟨rest, rfl⟩) h⟩
    · rw [List.splitOn_eq_singleton feed]
      rw [← List.append_nil text] at h
      exact ⟨text, rfl, withoutReturn_eq_first_iff feed (.inl rfl) h⟩
  | succ k ih =>
    by_cases feed : '\n' ∈ text
    · obtain ⟨line, rest, rfl, clear⟩ := List.eq_append_cons_of_mem feed
      rw [List.splitOn_append_cons_self, List.splitOn_eq_singleton clear] at before ⊢
      obtain ⟨unbroken, before⟩ := List.forall_mem_cons.1 before
      rw [splitOn_unixLines_of_unbroken clear unbroken] at h
      exact ih before h
    · rw [List.splitOn_eq_singleton feed] at before
      obtain ⟨unbroken, _⟩ := List.forall_mem_cons.1 before
      obtain ⟨us, he, empty⟩ := splitOn_unixLines_of_last feed unbroken
      rw [he] at h
      exact (shown (empty u (List.mem_of_getElem? h))).elim

end Narrowing

end PackageUsage
