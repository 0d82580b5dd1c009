import PackageUsage.Proofs.DoubleRounding

namespace PackageUsage.Double
set_option autoImplicit true

open Float.Model Float.Model.UnpackedFloat

/-- The parts of a double. -/
def read (x : Float) : UnpackedFloat := x.toModel.unpack

/-- What is read again once it was stored. -/
def stored (f : UnpackedFloat) : UnpackedFloat :=
  unpack Format.binary64 (pack Format.binary64 f)

theorem read_add (x y : Float) : read (x + y) = stored (add Format.binary64 (read x) (read y)) :=
  rfl

theorem read_mul (x y : Float) : read (x * y) = stored (mul Format.binary64 (read x) (read y)) :=
  rfl

theorem read_div (x y : Float) : read (x / y) = stored (div Format.binary64 (read x) (read y)) :=
  rfl

theorem read_neg (x : Float) : read (-x) = stored (read x).neg := rfl

theorem read_abs (x : Float) : read x.abs = stored (read x).abs := rfl

theorem stored_infinity (s : Sign) : stored (.infinity s) = .infinity s := by
  cases s <;> rfl

theorem stored_zero (s : Sign) : stored (.zero s) = .zero s := by
  cases s <;> rfl

theorem toNat_append_one (m : BitVec 52) : (1#1 ++ m).toNat = 2 ^ 52 + m.toNat := by
  rw [BitVec.toNat_append, ← Nat.shiftLeft_add_eq_or_of_lt m.isLt]
  rfl

theorem unpackSign_packComponents (s : Sign) (e : BitVec 11) (m : BitVec 52) :
    unpackSign (packComponents Format.binary64 s e m) = s.toBitVec := by
  change (s.toBitVec ++ e ++ m).extractLsb' 63 1 = s.toBitVec
  rw [BitVec.extractLsb'_append_eq_of_le (by decide),
    BitVec.extractLsb'_append_eq_of_le (by decide)]
  cases s <;> rfl

theorem sign_toBitVec (s : Sign) : Sign.ofBitVec s.toBitVec = s := by
  cases s <;> rfl

theorem allOnes_iff (e : BitVec 11) : e = -1#_ ↔ e.toNat = 2047 :=
  BitVec.toNat_inj.symm

theorem zero_iff (b : BitVec n) : b = 0#_ ↔ b.toNat = 0 :=
  BitVec.toNat_inj.symm.trans (by rw [BitVec.toNat_ofNat, Nat.zero_mod])

theorem unpack_ne_notANumber (s : Sign) {e : BitVec 11} (m : BitVec 52)
    (h : e.toNat ≠ 2047 ∨ m.toNat = 0) :
    unpack Format.binary64 (packComponents Format.binary64 s e m) ≠ .notANumber := by
  unfold UnpackedFloat.unpack
  simp only [unpackMantissa_packComponents, unpackExponent_packComponents]
  split
  · rename_i infinite
    rw [if_pos ((zero_iff m).2 (h.resolve_left (not_not.2 ((allOnes_iff e).1 infinite))))]
    nofun
  · split
    · split
      · nofun
      · nofun
    · nofun

theorem pack_eq (h : f ≠ .notANumber) : ∃ s e m, (e.toNat ≠ 2047 ∨ m.toNat = 0) ∧
    pack Format.binary64 f = packComponents Format.binary64 s e m := by
  cases f with
  | notANumber => exact absurd rfl h
  | infinity s => exact ⟨s, -1#_, 0#_, .inr rfl, rfl⟩
  | zero s => exact ⟨s, 0#_, 0#_, .inr rfl, rfl⟩
  | finite s m e pos =>
    unfold UnpackedFloat.pack
    dsimp only
    split
    · exact ⟨s, -1#_, 0#_, .inr rfl, rfl⟩
    · rename_i inside
      split
      · refine ⟨s, _, _, .inl ?_, rfl⟩
        change ¬ 2048 ≤ _ at inside
        rw [BitVec.toNat_ofNat, Nat.mod_eq_of_lt (by change _ < 2048; omega)]
        omega
      · exact ⟨s, 0#_, _, .inl (by decide), rfl⟩

theorem stored_ne_notANumber (h : f ≠ .notANumber) : stored f ≠ .notANumber := by
  obtain ⟨s, e, m, hb, he⟩ := pack_eq h
  rw [stored, he]
  exact unpack_ne_notANumber s m hb

theorem unpack_normal (s : Sign) {e : BitVec 11} (m : BitVec 52) (h : e.toNat ≠ 0)
    (h' : e.toNat ≠ 2047) : unpack Format.binary64 (packComponents Format.binary64 s e m) =
      .finite s (2 ^ 52 + m.toNat) (e.toNat - 1075) (by omega) := by
  unfold UnpackedFloat.unpack
  simp only [unpackMantissa_packComponents, unpackExponent_packComponents,
    unpackSign_packComponents, sign_toBitVec, toNat_append_one]
  rw [if_neg (mt (allOnes_iff e).1 h'), if_neg (mt (zero_iff e).1 h)]
  rfl

theorem unpack_subnormal (s : Sign) (m : BitVec 52) (h : 0 < m.toNat) :
    unpack Format.binary64 (packComponents Format.binary64 s 0#_ m) =
      .finite s m.toNat (-1074) h := by
  unfold UnpackedFloat.unpack
  simp only [unpackMantissa_packComponents, unpackExponent_packComponents,
    unpackSign_packComponents, sign_toBitVec]
  rw [if_neg (by decide), if_pos trivial, dif_neg (mt (zero_iff m).1 h.ne')]
  rfl

theorem log2_eq_of_bits (low : 2 ^ 52 ≤ m) (high : m < 2 ^ 53) : m.log2 = 52 :=
  (Nat.log2_eq_iff (by omega)).2 ⟨low, high⟩

/-- A number with the parts of a double is stored as it is, unless it is too large. -/
theorem stored_finite (s : Sign) (pos : 0 < m) (h : Canonical m e) :
    stored (.finite s m e pos) =
      if totalExponent m e ≤ 1024 then .finite s m e pos else .infinity s := by
  have bias : e + (Format.binary64.exponentBias : ℤ) + (52 : ℕ) = e + 1075 := by
    change e + 1023 + 52 = e + 1075
    omega
  have least := h.least
  unfold stored UnpackedFloat.pack
  simp only [bias]
  by_cases full : 2 ^ 52 ≤ m
  · have bits := log2_eq_of_bits full h.bits
    have place : totalExponent m e = e + 53 := by
      rw [totalExponent_eq, bits]
      omega
    rw [place]
    by_cases large : e + 53 ≤ 1024
    · have exponent : (BitVec.ofNat 11 (e + 1075).toNat).toNat = (e + 1075).toNat := by
        rw [BitVec.toNat_ofNat, Nat.mod_eq_of_lt (by omega)]
      have mantissa : (BitVec.ofNat 52 m).toNat = m - 2 ^ 52 := by
        have high := h.bits
        rw [BitVec.toNat_ofNat]
        omega
      rw [if_pos large, if_neg (by change ¬ 2048 ≤ _; omega),
        if_pos (by rw [bits]; rfl), unpack_normal s _ (by omega) (by omega)]
      have whole : 2 ^ 52 + (m - 2 ^ 52) = m := by omega
      have unbiased : ((e + 1075).toNat : ℤ) - 1075 = e := by omega
      simp only [exponent, mantissa, whole, unbiased]
    · rw [if_neg large, if_pos (by change 2048 ≤ _; omega)]
      exact stored_infinity s
  · obtain rfl := h.full.resolve_left full
    have short := (Nat.log2_lt pos.ne').2 (Nat.lt_of_not_le full)
    have mantissa : (BitVec.ofNat 52 m).toNat = m := by
      rw [BitVec.toNat_ofNat, Nat.mod_eq_of_lt (Nat.lt_of_not_le full)]
    have place : totalExponent m (-1074) ≤ 1024 := by
      rw [totalExponent_eq]
      omega
    rw [if_pos place, if_neg (by decide), if_neg (by change ¬ _ = 53; omega),
      unpack_subnormal s _ (by rw [mantissa]; exact pos)]
    simp only [mantissa]

/-- A mantissa and an exponent of a double. -/
structure InRange (m : ℕ) (e : ℤ) : Prop where
  canonical : Canonical m e
  place : totalExponent m e ≤ 1024

theorem inRange_normal {e : BitVec 11} (m : BitVec 52) (h : e.toNat ≠ 0) (h' : e.toNat ≠ 2047) :
    InRange (2 ^ 52 + m.toNat) (e.toNat - 1075) := by
  have short := m.isLt
  have bounded := e.isLt
  have bits : 2 ^ 52 + m.toNat < 2 ^ 53 := by omega
  refine ⟨⟨bits, by omega, .inl (Nat.le_add_right _ _)⟩, ?_⟩
  rw [totalExponent_eq, log2_eq_of_bits (Nat.le_add_right _ _) bits]
  omega

theorem inRange_subnormal (m : BitVec 52) : InRange m.toNat (-1074) := by
  have short := log2_lt_of_lt (n := 51) m.isLt
  refine ⟨⟨m.isLt.trans (by decide), le_rfl, .inr rfl⟩, ?_⟩
  rw [totalExponent_eq]
  omega

theorem inRange_of_read {x : Float} (h : read x = .finite s m e pos) : InRange m e := by
  unfold read Float.Model.unpack UnpackedFloat.unpack at h
  simp only [toNat_append_one] at h
  split at h
  · split at h <;> cases h
  · rename_i finite
    have bound := mt (allOnes_iff _).2 finite
    split at h
    · rename_i zero
      split at h
      · cases h
      · cases h
        rw [zero]
        exact inRange_subnormal _
    · rename_i nonzero
      cases h
      exact inRange_normal _ (mt (zero_iff _).2 nonzero) bound

end PackageUsage.Double
