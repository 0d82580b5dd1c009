import PackageUsage.Text.CodePoint

namespace PackageUsage.Text.Utf8

/-- How a lead byte goes on: bits it contributes, the bounds of the byte after it, and the number
of continuation bytes after that one. The bounds exclude overlong forms, surrogates and values
above U+10FFFF. -/
structure Lead where
  bits : Nat
  low : Nat
  high : Nat
  more : Nat

def Lead.ofByte? (b : UInt8) : Option Lead :=
  let n := b.toNat
  if 0xC2 ≤ n && n ≤ 0xDF then some ⟨n - 0xC0, 0x80, 0xBF, 0⟩
  else if n == 0xE0 then some ⟨0, 0xA0, 0xBF, 1⟩
  else if n == 0xED then some ⟨0xD, 0x80, 0x9F, 1⟩
  else if 0xE1 ≤ n && n ≤ 0xEF then some ⟨n - 0xE0, 0x80, 0xBF, 1⟩
  else if n == 0xF0 then some ⟨0, 0x90, 0xBF, 2⟩
  else if 0xF1 ≤ n && n ≤ 0xF3 then some ⟨n - 0xF0, 0x80, 0xBF, 2⟩
  else if n == 0xF4 then some ⟨4, 0x80, 0x8F, 2⟩
  else none

/-- What stands at the start of some bytes: a character, or an ill-formed part. -/
inductive Piece where
  | char (c : Char)
  | illFormed

/-- Reads `more` continuation bytes onto `acc`; the number read is returned with the rest. -/
def continuation (acc : Nat) : Nat → List UInt8 → Piece × List UInt8
  | 0, bs => (.char (Char.ofNat acc), bs)
  | _ + 1, [] => (.illFormed, [])
  | k + 1, b :: bs =>
    if 0x80 ≤ b.toNat && b.toNat ≤ 0xBF then continuation (acc * 64 + (b.toNat - 0x80)) k bs
    else (.illFormed, b :: bs)

/-- The first piece of nonempty input and what follows it. -/
def next (b : UInt8) (bs : List UInt8) : Piece × List UInt8 :=
  if b.toNat < 0x80 then (.char (Char.ofNat b.toNat), bs)
  else match Lead.ofByte? b, bs with
    | some lead, c :: cs =>
      if lead.low ≤ c.toNat && c.toNat ≤ lead.high then
        continuation (lead.bits * 64 + (c.toNat - 0x80)) lead.more cs
      else (.illFormed, bs)
    | _, _ => (.illFormed, bs)

theorem length_continuation_le (acc k : Nat) (bs : List UInt8) :
    (continuation acc k bs).2.length ≤ bs.length := by
  induction k generalizing acc bs with
  | zero => simp [continuation]
  | succ k ih =>
    cases bs with
    | nil => simp [continuation]
    | cons b bs =>
      simp only [continuation]
      split
      · exact Nat.le_succ_of_le (ih _ bs)
      · exact Nat.le_refl _

theorem length_next_le (b : UInt8) (bs : List UInt8) : (next b bs).2.length ≤ bs.length := by
  unfold next
  split
  · exact Nat.le_refl _
  · split
    · split
      · exact Nat.le_succ_of_le (length_continuation_le ..)
      · exact Nat.le_refl _
    · exact Nat.le_refl _

def pieces : List UInt8 → List Piece
  | [] => []
  | b :: bs => (next b bs).1 :: pieces (next b bs).2
termination_by bs => bs.length
decreasing_by exact Nat.lt_succ_of_le (length_next_le b bs)

/-- The replacement character stands for what cannot be read. -/
def Piece.lossy : Piece → Nat
  | .char c => c.toNat
  | .illFormed => '\uFFFD'.toNat

/-- Every byte sequence has a lossy reading. -/
def decodeLossy (bytes : ByteArray) : String :=
  ofCodePoints ((pieces bytes.toList).map Piece.lossy)

def Piece.codePoint? : Piece → Option Nat
  | .char c => some c.toNat
  | .illFormed => none

def decode? (bytes : ByteArray) : Option String :=
  ((pieces bytes.toList).mapM Piece.codePoint?).map ofCodePoints

def encode (s : String) : ByteArray := (toCharacters s).toUTF8

end PackageUsage.Text.Utf8
