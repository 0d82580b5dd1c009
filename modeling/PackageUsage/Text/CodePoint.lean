namespace PackageUsage.Text

namespace CodePoint

/-- Whether a code point is the first half of a pair. -/
def isHigh (n : Nat) : Bool := 0xD800 ≤ n && n ≤ 0xDBFF

/-- Whether a code point is the second half of a pair. -/
def isLow (n : Nat) : Bool := 0xDC00 ≤ n && n ≤ 0xDFFF

def isHalf (n : Nat) : Bool := isHigh n || isLow n

/-- The code point of which two halves are the pair. -/
def pair (high low : Nat) : Nat := 0x10000 + (high - 0xD800) * 0x400 + (low - 0xDC00)

/-- There are this many code points, halves among them. -/
def count : Nat := 0x110000

/-- The character that tells that what follows is half a pair, or the mark itself. It stands
for nothing else. -/
def mark : Char := '\uFFFF'

/-- What a mark that tells nothing is read as. It is no code point. -/
def stray : Nat := count

/-- How far a stand-in is from the half that it stands for. -/
def offset : Nat := 0xD0000

def chars (n : Nat) : List Char :=
  if isHalf n then [mark, Char.ofNat (n + offset)]
  else if n = mark.toNat then [mark, mark]
  else if n = stray then [mark]
  else [Char.ofNat n]

/-- What a character tells after a mark, last code point first. -/
def afterMark (c : Char) : List Nat :=
  if c = mark then [mark.toNat]
  else if isHalf (c.toNat - offset) then [c.toNat - offset]
  else [c.toNat, stray]

/-- The code points after those in `acc`, last one first. `marked` tells that a mark was read
last. -/
def readFrom (marked : Bool) (acc : List Nat) : List Char → List Nat
  | [] => (if marked then stray :: acc else acc).reverse
  | c :: cs =>
    if marked then readFrom false (afterMark c ++ acc) cs
    else if c = mark then readFrom true acc cs
    else readFrom false (c.toNat :: acc) cs

/-- The character that shows a code point; half a pair is shown by the replacement character. -/
def character (n : Nat) : Char := if isHalf n then '\uFFFD' else Char.ofNat n

/-- The number of bytes that a code point has in a file name. Halves from DC80 to DCFF each stand
for a byte that belongs to no character; the others have no bytes at all. -/
def nameBytes? (n : Nat) : Option Nat :=
  if !isHalf n then some (character n).utf8Size
  else if 0xDC80 ≤ n && n ≤ 0xDCFF then some 1
  else none

theorem isHalf_iff {n : Nat} : isHalf n = true ↔ 0xD800 ≤ n ∧ n ≤ 0xDFFF := by
  simp only [isHalf, isHigh, isLow, Bool.or_eq_true, Bool.and_eq_true, decide_eq_true_eq]
  omega

theorem toNat_lt_count (c : Char) : c.toNat < count := by
  have h := c.valid
  simp only [UInt32.isValidChar, Nat.isValidChar] at h
  simp only [Char.toNat, count]
  omega

theorem isHalf_toNat (c : Char) : isHalf c.toNat = false := by
  have h := c.valid
  simp only [UInt32.isValidChar, Nat.isValidChar] at h
  rw [Bool.eq_false_iff, ne_eq, isHalf_iff]
  simp only [Char.toNat]
  omega

theorem toNat_ofNat {n : Nat} (h : n < 0xD800 ∨ 0xDFFF < n ∧ n < count) :
    (Char.ofNat n).toNat = n := by
  have valid : n.isValidChar := h
  rw [Char.ofNat, dif_pos valid]
  rfl

theorem toNat_mark : mark.toNat = 0xFFFF := rfl

theorem chars_mark : chars mark.toNat = [mark, mark] := rfl

theorem chars_stray : chars stray = [mark] := rfl

theorem chars_toNat {c : Char} (h : c ≠ mark) : chars c.toNat = [c] := by
  have := toNat_lt_count c
  rw [chars, isHalf_toNat, if_neg Bool.false_ne_true, if_neg (h <| Char.toNat_inj.mp ·),
    if_neg (by unfold stray; omega), Char.ofNat_toNat]

/-- What a character tells after a mark is carried by the two. -/
theorem flatMap_chars_afterMark (c : Char) :
    (afterMark c).reverse.flatMap chars = [mark, c] := by
  unfold afterMark
  split
  · rename_i h
    simp [h, chars_mark]
  · rename_i h
    split
    · rename_i half
      have : c.toNat - offset + offset = c.toNat := by
        have := isHalf_iff.mp half
        omega
      simp [chars, half, this]
    · simp [chars_stray, chars_toNat h]

/-- What is read off some characters is carried by them again. -/
theorem flatMap_chars_readFrom (marked : Bool) (acc : List Nat) (cs : List Char) :
    (readFrom marked acc cs).flatMap chars =
      acc.reverse.flatMap chars ++ if marked then mark :: cs else cs := by
  induction cs generalizing marked acc with
  | nil => cases marked <;> simp [readFrom, chars_stray]
  | cons c cs ih =>
    cases marked
    · by_cases h : c = mark
      · simp [readFrom, h, ih]
      · simp [readFrom, h, ih, chars_toNat]
    · simp only [readFrom, if_true, ih, List.reverse_append, List.flatMap_append,
        flatMap_chars_afterMark]
      simp

/-- A code point is read off the characters that carry it. -/
theorem readFrom_chars {n : Nat} (h : n < count) (acc : List Nat) (cs : List Char) :
    readFrom false acc (chars n ++ cs) = readFrom false (n :: acc) cs := by
  unfold chars
  split
  · rename_i half
    have bounds := isHalf_iff.mp half
    have value : (Char.ofNat (n + offset)).toNat = n + offset :=
      toNat_ofNat (by unfold offset count; omega)
    have unmarked : Char.ofNat (n + offset) ≠ mark := by
      intro e
      have := congrArg Char.toNat e
      rw [value, toNat_mark] at this
      unfold offset at this
      omega
    have told : afterMark (Char.ofNat (n + offset)) = [n] := by
      simp [afterMark, unmarked, value, half]
    simp [readFrom, told]
  · rename_i half
    rw [isHalf_iff] at half
    have value : (Char.ofNat n).toNat = n := toNat_ofNat (by unfold count at *; omega)
    split
    · rename_i e
      simp [readFrom, afterMark, e]
    · rename_i unmarked
      have : Char.ofNat n ≠ mark := fun e => unmarked (value ▸ congrArg Char.toNat e)
      rw [if_neg (by unfold stray; omega)]
      simp [readFrom, this, value]

theorem readFrom_flatMap_chars {ns : List Nat} (h : ∀ n ∈ ns, n < count) (acc : List Nat) :
    readFrom false acc (ns.flatMap chars) = acc.reverse ++ ns := by
  induction ns generalizing acc with
  | nil => simp [readFrom]
  | cons n ns ih =>
    rw [List.flatMap_cons, readFrom_chars (h n List.mem_cons_self),
      ih fun m hm => h m (List.mem_cons_of_mem n hm)]
    simp

end CodePoint

def codePoints (s : String) : List Nat := CodePoint.readFrom false [] s.toList

def ofCodePoints (ns : List Nat) : String := String.ofList (ns.flatMap CodePoint.chars)

def ofCharacters (s : String) : String := ofCodePoints (s.toList.map Char.toNat)

def toCharacters (s : String) : String :=
  String.ofList ((codePoints s).map CodePoint.character)

/-- The number of bytes that a text has in a file name, if it can be one. -/
def nameBytes? (s : String) : Option Nat :=
  ((codePoints s).mapM CodePoint.nameBytes?).map (·.foldr (· + ·) 0)

/-- Whether every code point of a text can be written. -/
def isWhole (s : String) : Bool := (codePoints s).all (!CodePoint.isHalf ·)

theorem ofCodePoints_codePoints (s : String) : ofCodePoints (codePoints s) = s := by
  simp [ofCodePoints, codePoints, CodePoint.flatMap_chars_readFrom]

theorem codePoints_ofCodePoints {ns : List Nat} (h : ∀ n ∈ ns, n < CodePoint.count) :
    codePoints (ofCodePoints ns) = ns := by
  simp [codePoints, ofCodePoints, CodePoint.readFrom_flatMap_chars h]

/-- A text is told by its code points. -/
theorem codePoints_injective {s t : String} (h : codePoints s = codePoints t) : s = t := by
  rw [← ofCodePoints_codePoints s, h, ofCodePoints_codePoints]

/-- Characters from outside leave as they came. -/
theorem toCharacters_ofCharacters (s : String) : toCharacters (ofCharacters s) = s := by
  have valid : ∀ n ∈ s.toList.map Char.toNat, n < CodePoint.count := by
    intro n h
    obtain ⟨c, -, rfl⟩ := List.mem_map.mp h
    exact CodePoint.toNat_lt_count c
  have same : CodePoint.character ∘ Char.toNat = id := by
    funext c
    simp [CodePoint.character, CodePoint.isHalf_toNat]
  simp [toCharacters, ofCharacters, codePoints_ofCodePoints valid, same]

end PackageUsage.Text
