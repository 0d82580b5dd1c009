import PackageUsage.Decimal.Comparison
import PackageUsage.Proofs.ScoreDoubles

namespace PackageUsage.Double
set_option autoImplicit true

open Float.Model Float.Model.UnpackedFloat

theorem unpackExponent_toNat (b : UInt64) :
    (@unpackExponent Format.binary64 b.toBitVec).toNat = ((b >>> 52) &&& 0x7FF).toNat := by
  change (b.toNat >>> 52) % 2 ^ 11 = (b.toNat >>> 52) &&& (2 ^ 11 - 1)
  rw [Nat.and_two_pow_sub_one_eq_mod]

theorem unpackMantissa_toNat (b : UInt64) :
    (@unpackMantissa Format.binary64 b.toBitVec).toNat = (b &&& 0xFFFFFFFFFFFFF).toNat := by
  change (b.toNat >>> 0) % 2 ^ 52 = b.toNat &&& (2 ^ 52 - 1)
  rw [Nat.and_two_pow_sub_one_eq_mod, Nat.shiftRight_zero]

theorem unpackSign_toNat (b : UInt64) :
    (@unpackSign Format.binary64 b.toBitVec).toNat = (b >>> 63).toNat := by
  change (b.toNat >>> 63) % 2 ^ 1 = b.toNat >>> 63
  have bound := b.toNat_lt
  rw [Nat.shiftRight_eq_div_pow]
  omega

theorem mantissa_eq_zero_iff (x : Float) :
    (Decimal.Magnitude.ofBits x.toBits).mantissa = 0 ↔ ∃ s, read x = .zero s := by
  have mantissa : (Decimal.Magnitude.ofBits x.toBits).mantissa = 0 ↔
      (@unpackExponent Format.binary64 x.toBits.toBitVec).toNat = 0 ∧
        (@unpackMantissa Format.binary64 x.toBits.toBitVec).toNat = 0 := by
    unfold Decimal.Magnitude.ofBits
    dsimp only
    rw [unpackExponent_toNat, unpackMantissa_toNat]
    split
    · rename_i least
      exact (and_iff_right least).symm
    · rename_i higher
      constructor
      · intro none
        exact absurd (Nat.add_eq_zero_iff.1 none).1 (by decide)
      · exact fun h => absurd h.1 higher
  rw [mantissa, ← zero_iff, ← zero_iff]
  unfold read Float.Model.unpack UnpackedFloat.unpack
  dsimp only
  split
  · rename_i highest
    constructor
    · intro h
      cases h.1.symm.trans highest
    · rintro ⟨s, h⟩
      split at h <;> cases h
  · split
    · rename_i least
      split
      · rename_i none
        exact ⟨fun _ => ⟨_, rfl⟩, fun _ => ⟨least, none⟩⟩
      · rename_i some
        exact ⟨fun h => absurd h.2 some, nofun⟩
    · rename_i higher
      exact ⟨fun h => absurd h.1 higher, nofun⟩

/-- The sign bit of a double. -/
def sign (x : Float) : Sign := .ofBitVec (@unpackSign Format.binary64 x.toBits.toBitVec)

theorem isNegative_iff (x : Float) : Decimal.isNegative x = true ↔ sign x = .negative := by
  have bit : Decimal.isNegative x = true ↔
      (@unpackSign Format.binary64 x.toBits.toBitVec).toNat = 1 := by
    unfold Decimal.isNegative
    rw [beq_iff_eq, unpackSign_toNat]
    exact UInt64.toNat_inj.symm
  have bound := (@unpackSign Format.binary64 x.toBits.toBitVec).isLt
  unfold sign Sign.ofBitVec
  rw [bit]
  split
  · rename_i none
    have zero := (zero_iff _).1 none
    exact ⟨fun one => by omega, nofun⟩
  · rename_i some
    have nonzero := mt (zero_iff _).2 some
    exact ⟨fun _ => rfl, fun _ => by omega⟩

theorem sign_of_infinity (h : read x = .infinity s) : sign x = s := by
  unfold read Float.Model.unpack UnpackedFloat.unpack at h
  dsimp only at h
  split at h
  · split at h
    · cases h
      rfl
    · cases h
  · split at h
    · split at h <;> cases h
    · cases h

theorem sign_of_finite (h : read x = .finite s m e pos) : sign x = s := by
  unfold read Float.Model.unpack UnpackedFloat.unpack at h
  dsimp only at h
  split at h
  · split at h <;> cases h
  · split at h
    · split at h
      · cases h
      · cases h
        rfl
    · cases h
      rfl

theorem mantissa_abs_eq_zero_iff (x : Float) (finite : x.isFinite = true) :
    (Decimal.Magnitude.ofBits x.abs.toBits).mantissa = 0 ↔ ∃ s, read x = .zero s := by
  rw [mantissa_eq_zero_iff, read_abs]
  rw [isFinite_eq] at finite
  cases hx : read x with
  | notANumber =>
    rw [hx] at finite
    cases finite
  | infinity s =>
    rw [hx] at finite
    cases finite
  | zero s => exact ⟨fun _ => ⟨s, rfl⟩, fun _ => ⟨.positive, stored_zero _⟩⟩
  | finite s m e pos =>
    have range := inRange_of_read hx
    change (∃ s, stored (.finite .positive m e pos) = .zero s) ↔ _
    rw [stored_finite _ pos range.canonical, if_pos range.place]
    exact ⟨nofun, nofun⟩

theorem isNegative_eq (h : sign x = s) :
    Decimal.isNegative x = match s with
      | .negative => true
      | .positive => false := by
  cases s with
  | negative => exact (isNegative_iff x).2 h
  | positive =>
    rw [Bool.eq_false_iff, ne_eq, isNegative_iff, h]
    nofun

/-- The exact comparison with the whole number zero is that of doubles. -/
theorem compareWhole?_zero (x : Float) :
    Decimal.compareWhole? x 0 = UnpackedFloat.compare (read x) (.zero .positive) := by
  have isNaN : x.isNaN = (read x).isNaN := rfl
  have isInf : x.isInf = (read x).isInf := rfl
  have zero := mantissa_abs_eq_zero_iff x
  rw [isFinite_eq] at zero
  unfold Decimal.compareWhole? Decimal.Magnitude.quotient
  dsimp only
  rw [isNaN, isInf, Int.zero_mul]
  cases hx : read x with
  | notANumber => rfl
  | infinity s =>
    rw [isNegative_eq (sign_of_infinity hx)]
    cases s with
    | negative => rfl
    | positive => rfl
  | zero s =>
    rw [hx] at zero
    rw [(zero rfl).2 ⟨s, rfl⟩, Nat.zero_mul]
    cases Decimal.isNegative x with
    | true => rfl
    | false => rfl
  | finite s m e pos =>
    rw [hx] at zero
    have pos : 0 < (Decimal.Magnitude.ofBits x.abs.toBits).mantissa :=
      Nat.pos_of_ne_zero fun none => nomatch (zero rfl).1 none
    have pos := Nat.mul_pos pos
      (Nat.two_pow_pos (Decimal.Magnitude.ofBits x.abs.toBits).exponent.toNat)
    rw [isNegative_eq (sign_of_finite hx)]
    generalize (Decimal.Magnitude.ofBits x.abs.toBits).mantissa * _ = n at pos
    have positive : 0 < (n : ℤ) := Int.natCast_pos.2 pos
    cases s with
    | negative => exact congrArg some (Int.compare_eq_lt.2 (Int.neg_neg_of_pos positive))
    | positive => exact congrArg some (Int.compare_eq_gt.2 positive)

theorem isBelowWhole_zero_iff (x : Float) : Decimal.isBelowWhole x 0 = true ↔ x < 0.0 := by
  unfold Decimal.isBelowWhole
  rw [compareWhole?_zero, lt_iff]
  change _ ↔ (UnpackedFloat.compare (read x) (.zero .positive) == some .lt) = true
  cases UnpackedFloat.compare (read x) (.zero .positive) with
  | none => decide
  | some o => cases o <;> decide

theorem isAtMostWhole_zero_iff (x : Float) : Decimal.isAtMostWhole x 0 = true ↔ x ≤ 0.0 := by
  unfold Decimal.isAtMostWhole
  rw [compareWhole?_zero, le_iff]
  change _ ↔ (UnpackedFloat.compare (read x) (.zero .positive)).any _ = true
  cases UnpackedFloat.compare (read x) (.zero .positive) with
  | none => decide
  | some o => cases o <;> decide

theorem zero_le_of_not_lt (finite : x.isFinite = true) (h : ¬ x < 0.0) : 0.0 ≤ x := by
  rw [isFinite_eq] at finite
  rw [lt_iff] at h
  rw [le_iff]
  change ¬ (UnpackedFloat.lt (read x) (.zero .positive)) = true at h
  change UnpackedFloat.le (.zero .positive) (read x) = true
  generalize read x = f at finite h
  cases f with
  | notANumber => cases finite
  | infinity => cases finite
  | zero => rfl
  | finite s =>
    cases s with
    | negative => exact absurd rfl h
    | positive => rfl

theorem read_eq_zero (h : 0.0 ≤ x) (h' : ¬ 0.0 < x) : ∃ s, read x = .zero s := by
  rw [le_iff] at h
  rw [lt_iff] at h'
  change UnpackedFloat.le (.zero .positive) (read x) = true at h
  change ¬ UnpackedFloat.lt (.zero .positive) (read x) = true at h'
  generalize read x = f at h h'
  cases f with
  | notANumber => cases h
  | infinity s =>
    cases s with
    | negative => cases h
    | positive => exact absurd rfl h'
  | zero s => exact ⟨s, rfl⟩
  | finite s =>
    cases s with
    | negative => cases h
    | positive => exact absurd rfl h'

theorem read_add_zero {x y : Float} (hx : read x = .zero s) (hy : read y = .zero s') :
    ∃ u, read (x + y) = .zero u := by
  rw [read_add, hx, hy]
  cases s <;> cases s' <;> exact ⟨_, stored_zero _⟩

theorem exists_pos_of_sum {x y z : Float} (hx : 0.0 ≤ x) (hy : 0.0 ≤ y) (hz : 0.0 ≤ z)
    (h : ¬ x + y + z ≤ 0.0) : 0.0 < x ∨ 0.0 < y ∨ 0.0 < z := by
  by_contra none
  rw [not_or, not_or] at none
  obtain ⟨_, zx⟩ := read_eq_zero hx none.1
  obtain ⟨_, zy⟩ := read_eq_zero hy none.2.1
  obtain ⟨_, zz⟩ := read_eq_zero hz none.2.2
  obtain ⟨_, first⟩ := read_add_zero zx zy
  obtain ⟨_, sum⟩ := read_add_zero first zz
  rw [le_iff, sum] at h
  exact h rfl

end PackageUsage.Double
