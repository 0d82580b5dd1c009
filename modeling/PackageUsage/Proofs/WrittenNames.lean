import PackageUsage.FileTree.Resolve
import PackageUsage.Proofs.SplitText

namespace PackageUsage
set_option autoImplicit true

namespace Text

theorem readFrom_acc (marked : Bool) (acc : List Nat) (cs : List Char) :
    CodePoint.readFrom marked acc cs = acc.reverse ++ CodePoint.readFrom marked [] cs := by
  induction cs generalizing marked acc with
  | nil =>
    cases marked with
    | false => exact (List.append_nil _).symm
    | true => exact List.reverse_cons
  | cons c cs ih =>
    rw [CodePoint.readFrom, CodePoint.readFrom]
    split
    · rw [ih, ih false (_ ++ []), List.reverse_append, List.append_nil, List.append_assoc]
    split
    · exact ih true acc
    · rw [ih, ih false [_], List.reverse_cons, List.append_assoc]
      rfl

theorem readFrom_append_slash (marked : Bool) (cs ds : List Char) :
    CodePoint.readFrom marked [] (cs ++ '/' :: ds) =
      CodePoint.readFrom marked [] cs ++ 47 :: CodePoint.readFrom false [] ds := by
  have plain : CodePoint.readFrom false [] ('/' :: ds) = 47 :: CodePoint.readFrom false [] ds :=
    readFrom_acc false [47] ds
  induction cs generalizing marked with
  | nil =>
    cases marked with
    | false => exact plain
    | true => exact readFrom_acc false [47, CodePoint.stray] ds
  | cons c cs ih =>
    rw [List.cons_append, CodePoint.readFrom, CodePoint.readFrom]
    split
    · rw [readFrom_acc, readFrom_acc false _ cs, ih, List.append_assoc]
    split
    · exact ih true
    · rw [readFrom_acc, readFrom_acc false _ cs, ih, List.append_assoc]

theorem codePoints_slash (s t : String) :
    codePoints (s ++ "/" ++ t) = codePoints s ++ 47 :: codePoints t := by
  unfold codePoints
  rw [String.toList_append, String.toList_append, List.append_assoc]
  exact readFrom_append_slash false s.toList t.toList

theorem nameBytes?_slash (s t : String) : nameBytes? (s ++ "/" ++ t) =
    (nameBytes? s).bind fun a => (nameBytes? t).map fun b => a + (1 + b) := by
  have slash : CodePoint.nameBytes? 47 = some 1 := by decide +kernel
  have total (xs ys : List Nat) : (xs ++ 1 :: ys).foldr (· + ·) 0 =
      xs.foldr (· + ·) 0 + (1 + ys.foldr (· + ·) 0) := by
    induction xs with
    | nil => exact (Nat.zero_add _).symm
    | cons x xs ih =>
      rw [List.cons_append, List.foldr_cons, ih, List.foldr_cons, Nat.add_assoc]
  unfold nameBytes?
  rw [codePoints_slash, List.mapM_append, List.mapM_cons, slash]
  cases (codePoints s).mapM CodePoint.nameBytes? with
  | none => rfl
  | some xs =>
    cases (codePoints t).mapM CodePoint.nameBytes? with
    | none => rfl
    | some ys => exact congrArg some (total xs ys)

end Text

namespace FileTree

theorem refusal?_eq_none : refusal? s = none ↔
    (Text.nameBytes? s).isSome = true ∧ '\x00' ∉ s.toList := by
  unfold refusal? Text.hasChar
  rw [← List.contains_iff_mem, Bool.not_eq_true]
  cases Text.nameBytes? s with
  | none => exact ⟨nofun, nofun⟩
  | some bytes =>
    cases s.toList.contains '\x00' with
    | true => exact ⟨nofun, nofun⟩
    | false => exact ⟨fun _ => ⟨rfl, rfl⟩, fun _ => rfl⟩

theorem refusal?_slash (s t : String) :
    refusal? (s ++ "/" ++ t) = none ↔ refusal? s = none ∧ refusal? t = none := by
  rw [refusal?_eq_none, refusal?_eq_none, refusal?_eq_none, Text.nameBytes?_slash]
  have nul : '\x00' ∉ (s ++ "/" ++ t).toList ↔ '\x00' ∉ s.toList ∧ '\x00' ∉ t.toList := by
    rw [String.toList_append, String.toList_append, List.mem_append, List.mem_append]
    have slash : '\x00' ∉ "/".toList := by decide
    simp only [slash, or_false, not_or]
  rw [nul]
  cases Text.nameBytes? s with
  | none => exact ⟨nofun, nofun⟩
  | some a =>
    cases Text.nameBytes? t with
    | none => exact ⟨nofun, nofun⟩
    | some b =>
      constructor
      · rintro ⟨_, hs, ht⟩
        exact ⟨⟨rfl, hs⟩, rfl, ht⟩
      · rintro ⟨⟨_, hs⟩, _, ht⟩
        exact ⟨rfl, hs, ht⟩

theorem refusal?_empty : refusal? "" = none := by decide +kernel

theorem refusal?_join (names : List String) :
    refusal? (Text.join "/" names) = none ↔ ∀ n ∈ names, refusal? n = none := by
  induction names with
  | nil => exact ⟨fun _ => nofun, fun _ => refusal?_empty⟩
  | cons first rest ih =>
    rw [List.forall_mem_cons]
    cases rest with
    | nil =>
      rw [Text.join, String.intercalate_singleton]
      exact ⟨fun h => ⟨h, nofun⟩, fun h => h.1⟩
    | cons second rest =>
      rw [← List.singleton_append, Text.join_append (List.cons_ne_nil _ _) (List.cons_ne_nil _ _),
        refusal?_slash, ih]
      rw [Text.join, String.intercalate_singleton]

theorem refusal?_toString (p : Path) :
    refusal? p.toString = none ↔ ∀ n ∈ p.parts, refusal? n = none := by
  obtain ⟨a, names⟩ := p
  have slash (s : String) : "/" ++ s = "" ++ "/" ++ s := rfl
  have slashes (s : String) : "//" ++ s = "" ++ "/" ++ ("" ++ "/" ++ s) := rfl
  rw [Path.toString]
  split
  · rename_i h
    obtain ⟨_, none⟩ := h
    cases none
    exact ⟨fun _ => nofun, fun _ => by decide +kernel⟩
  · rw [← refusal?_join]
    cases a with
    | relative => rw [Path.Anchor.text, String.empty_append]
    | root =>
      rw [Path.Anchor.text, slash, refusal?_slash]
      exact and_iff_right refusal?_empty
    | doubleRoot =>
      rw [Path.Anchor.text, slashes, refusal?_slash, refusal?_slash]
      exact (and_iff_right refusal?_empty).trans (and_iff_right refusal?_empty)

/-- A path that a system call takes as it is written. -/
structure Fits (written : String) : Prop where
  accepted : refusal? written = none
  short : (Text.nameBytes? written).getD 0 < pathLimit

theorem Fits.of_slash (h : Fits (s ++ "/" ++ t)) : Fits s ∧ Fits t := by
  obtain ⟨accepted, short⟩ := h
  obtain ⟨hs, ht⟩ := (refusal?_slash s t).1 accepted
  obtain ⟨a, ha⟩ := Option.isSome_iff_exists.1 (refusal?_eq_none.1 hs).1
  obtain ⟨b, hb⟩ := Option.isSome_iff_exists.1 (refusal?_eq_none.1 ht).1
  rw [Text.nameBytes?_slash, ha, hb] at short
  change a + (1 + b) < pathLimit at short
  refine ⟨⟨hs, ?_⟩, ⟨ht, ?_⟩⟩
  · rw [ha]
    exact Nat.lt_of_le_of_lt (Nat.le_add_right a _) short
  · rw [hb]
    exact Nat.lt_of_le_of_lt (Nat.le_trans (Nat.le_add_left b 1) (Nat.le_add_left _ a)) short

theorem fits_anchor (a : Anchor) : Fits (Path.toString ⟨a, []⟩) := by
  cases a with
  | relative => exact ⟨by decide +kernel, by decide +kernel⟩
  | root => exact ⟨by decide +kernel, by decide +kernel⟩
  | doubleRoot => exact ⟨by decide +kernel, by decide +kernel⟩

theorem Fits.front {front : List String} (h : Fits (Path.toString ⟨a, front ++ rest⟩)) :
    Fits (Path.toString ⟨a, front⟩) := by
  by_cases given : front = []
  · rw [given]
    exact fits_anchor a
  by_cases more : rest = []
  · rwa [more, List.append_nil] at h
  have written : Path.toString ⟨a, front ++ rest⟩ =
      Path.toString ⟨a, front⟩ ++ "/" ++ Text.join "/" rest := by
    rw [Path.toString, if_neg fun none => List.append_ne_nil_of_left_ne_nil given rest none.2,
      Path.toString, if_neg fun none => given none.2, Text.join_append given more]
    simp only [String.append_assoc]
  rw [written] at h
  exact h.of_slash.1

theorem Fits.follow (h : Fits p.toString) (t : FileTree) :
    t.follow p = t.followFrom linkLimit [] (t.absoluteNames p) := by
  rw [FileTree.follow, h.accepted]
  exact if_neg (Nat.not_le.2 h.short)

theorem follow_eq_ok {t : FileTree} : t.follow p = .ok q ↔
    Fits p.toString ∧ t.followFrom linkLimit [] (t.absoluteNames p) = .ok q := by
  rw [follow]
  cases accepted : refusal? p.toString with
  | some cause =>
    constructor
    · nofun
    · rintro ⟨fits, _⟩
      cases accepted.symm.trans fits.accepted
  | none =>
    dsimp only
    split
    · rename_i long
      constructor
      · nofun
      · rintro ⟨fits, _⟩
        exact (Nat.not_lt.2 long fits.short).elim
    · rename_i short
      exact ⟨fun h => ⟨⟨accepted, Nat.not_le.1 short⟩, h⟩, fun h => h.2⟩

end FileTree

end PackageUsage
