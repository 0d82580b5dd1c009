import Mathlib

namespace PackageUsage.Double
set_option autoImplicit true

open Float.Model Float.Model.UnpackedFloat

/-- A mantissa and an exponent that a double can have: the mantissa has all of its bits unless the
exponent is the least one. -/
structure Canonical (m : ℕ) (e : ℤ) : Prop where
  bits : m < 2 ^ 53
  least : -1074 ≤ e
  full : 2 ^ 52 ≤ m ∨ e = -1074

theorem targetExponent_eq (t : ℤ) : Format.binary64.targetExponent t = max (t - 53) (-1074) := rfl

theorem totalExponent_eq (m : ℕ) (e : ℤ) : totalExponent m e = m.log2 + 1 + e := rfl

theorem mantissa_shift (em : ExtendedMantissa) (n : ℕ) :
    (em >>> n).mantissa = em.mantissa / 2 ^ n := by
  change (n.repeat ExtendedMantissa.shiftRightOne em).mantissa = _
  induction n with
  | zero => exact (Nat.div_one _).symm
  | succ n ih =>
    change (n.repeat ExtendedMantissa.shiftRightOne em).mantissa / 2 = _
    rw [ih, Nat.div_div_eq_div_mul, pow_succ]

theorem roundedMantissa_bounds (em : ExtendedMantissa) :
    em.mantissa ≤ em.roundedMantissa ∧ em.roundedMantissa ≤ em.mantissa + 1 := by
  obtain ⟨m, round, sticky⟩ := em
  unfold ExtendedMantissa.roundedMantissa
  cases round <;> cases sticky <;>
    simp only [ExtendedMantissa.accuracy, Accuracy.roundToNearestEven] <;> omega

theorem mantissa_ofMantissaAndAccuracy (m : ℕ) (acc : Accuracy) :
    (ExtendedMantissa.ofMantissaAndAccuracy m acc).mantissa = m := by
  cases acc with
  | exact => rfl
  | inexact o => cases o <;> rfl

def parts (s : Sign) (m : ℕ) (e : ℤ) : UnpackedFloat :=
  if h : m = 0 then .zero s else .finite s m e (Nat.pos_of_ne_zero h)

/-- A rounded mantissa at its place. One that has grown by a bit is brought back. -/
def settled (s : Sign) (r : ℕ) (b : ℤ) : UnpackedFloat :=
  if r = 2 ^ 53 then parts s (2 ^ 52) (b + 1) else parts s r b

theorem log2_lt_of_lt (h : m < 2 ^ (n + 1)) : m.log2 < n + 1 := by
  rcases Nat.eq_zero_or_pos m with rfl | pos
  · exact Nat.succ_pos n
  · exact (Nat.log2_lt pos.ne').2 h

/-- What was rounded at a place is not rounded again. -/
theorem parts_shift (least : -1074 ≤ b) (bound : r ≤ 2 ^ 53) (s : Sign) :
    parts s (shiftToTargetExponent Format.binary64 r b .exact).1.mantissa
      (shiftToTargetExponent Format.binary64 r b .exact).2 = settled s r b := by
  unfold shiftToTargetExponent shiftToExponent settled
  rw [targetExponent_eq, totalExponent_eq, mantissa_shift, mantissa_ofMantissaAndAccuracy]
  dsimp only
  rcases bound.lt_or_eq with small | rfl
  · have place := log2_lt_of_lt small
    have still : (max ((r.log2 : ℤ) + 1 + b - 53) (-1074) - b).toNat = 0 := by omega
    rw [still, if_neg small.ne, pow_zero, Nat.div_one, Nat.cast_zero, add_zero]
  · have moved : (max (((2 ^ 53 : ℕ).log2 : ℤ) + 1 + b - 53) (-1074) - b).toNat = 1 := by
      rw [Nat.log2_two_pow]
      omega
    rw [moved, if_pos rfl]
    rfl

theorem div_two_pow_lt (h : m.log2 < n + 53) : m / 2 ^ n < 2 ^ 53 := by
  rw [Nat.div_lt_iff_lt_mul (Nat.two_pow_pos n), ← pow_add]
  calc m < 2 ^ (m.log2 + 1) := Nat.lt_log2_self
    _ ≤ 2 ^ (53 + n) := Nat.pow_le_pow_right (by decide) (by omega)

/-- Rounding cuts a mantissa off at the place of its last bit and settles for what is left or for
the next mantissa. -/
theorem roundWithAccuracy_eq (s : Sign) (acc : Accuracy) {m : ℕ} {e b : ℤ}
    (hb : b = max (totalExponent m e - 53) (-1074)) (he : e ≤ b) :
    ∃ r, m / 2 ^ (b - e).toNat ≤ r ∧ r ≤ m / 2 ^ (b - e).toNat + 1 ∧ r ≤ 2 ^ 53 ∧
      roundWithAccuracy Format.binary64 s m e acc = settled s r b := by
  have first : shiftToTargetExponent Format.binary64 m e acc =
      (ExtendedMantissa.ofMantissaAndAccuracy m acc >>> (b - e).toNat, b) := by
    unfold shiftToTargetExponent shiftToExponent
    rw [targetExponent_eq, ← hb]
    dsimp only
    rw [Int.toNat_of_nonneg (by omega)]
    exact congrArg _ (by omega)
  obtain ⟨low, high⟩ := roundedMantissa_bounds
    (ExtendedMantissa.ofMantissaAndAccuracy m acc >>> (b - e).toNat)
  rw [mantissa_shift, mantissa_ofMantissaAndAccuracy] at low high
  have cut : m / 2 ^ (b - e).toNat < 2 ^ 53 := by
    apply div_two_pow_lt
    rw [totalExponent_eq] at hb
    omega
  refine ⟨_, low, high, by omega, ?_⟩
  rw [← parts_shift (by omega) (by omega)]
  unfold roundWithAccuracy
  rw [first]
  rfl

/-- A number from which little is known: it is no negative one, and its first bit is at a place or
below. -/
inductive Small (high : ℤ) : UnpackedFloat → Prop
  | zero (s : Sign) : Small high (.zero s)
  | finite {m : ℕ} {e : ℤ} (pos : 0 < m) (canonical : Canonical m e)
      (place : totalExponent m e ≤ high) : Small high (.finite .positive m e pos)

/-- A positive number with its first bit at a place or above. -/
inductive Sized (low high : ℤ) : UnpackedFloat → Prop
  | finite {m : ℕ} {e : ℤ} (pos : 0 < m) (canonical : Canonical m e)
      (above : low ≤ totalExponent m e) (place : totalExponent m e ≤ high) :
      Sized low high (.finite .positive m e pos)

theorem Sized.small (h : Sized low high x) : Small high x := by
  obtain ⟨pos, canonical, _, place⟩ := h
  exact .finite pos canonical place

theorem Sized.mono (h : Sized low high x) (hl : low' ≤ low) (hh : high ≤ high') :
    Sized low' high' x := by
  obtain ⟨pos, canonical, above, place⟩ := h
  exact .finite pos canonical (hl.trans above) (place.trans hh)

theorem Small.mono (h : Small high x) (hh : high ≤ high') : Small high' x := by
  cases h with
  | zero s => exact .zero s
  | finite pos canonical place => exact .finite pos canonical (place.trans hh)

theorem parts_of_pos (s : Sign) (e : ℤ) (h : 0 < m) : parts s m e = .finite s m e h :=
  dif_neg h.ne'

theorem full_of_cut {m : ℕ} {e b : ℤ} (hb : b = max (totalExponent m e - 53) (-1074))
    (he : e ≤ b) : 2 ^ 52 ≤ m / 2 ^ (b - e).toNat ∨ b = -1074 := by
  rw [totalExponent_eq] at hb
  rcases Int.lt_or_le (-1074) b with above | below
  · left
    have nonzero : m ≠ 0 := by
      rintro rfl
      rw [Nat.log2_zero] at hb
      omega
    rw [Nat.le_div_iff_mul_le (Nat.two_pow_pos _), ← pow_add]
    calc 2 ^ (52 + (b - e).toNat) = 2 ^ m.log2 := by congr 1; omega
      _ ≤ m := Nat.log2_self_le nonzero
  · right
    omega

theorem settled_zero (b : ℤ) : settled s 0 b = .zero s := rfl

theorem settled_sized {r : ℕ} {b : ℤ} (least : -1074 ≤ b) (bound : r ≤ 2 ^ 53) (pos : 0 < r)
    (full : 2 ^ 52 ≤ r ∨ b = -1074) (low : t ≤ totalExponent r b) :
    Sized t (b + 54) (settled .positive r b) := by
  rw [totalExponent_eq] at low
  unfold settled
  rcases bound.lt_or_eq with small | rfl
  · have place := log2_lt_of_lt small
    rw [if_neg small.ne, parts_of_pos _ _ pos]
    refine .finite pos ⟨small, least, full⟩ ?_ ?_
    · exact low
    · rw [totalExponent_eq]
      omega
  · rw [Nat.log2_two_pow] at low
    rw [if_pos rfl, parts_of_pos _ _ (by decide)]
    have place : totalExponent (2 ^ 52) (b + 1) = b + 54 := by
      rw [totalExponent_eq, Nat.log2_two_pow]
      omega
    refine .finite _ ⟨by decide, by omega, .inl le_rfl⟩ ?_ place.le
    rw [place]
    omega

/-- Rounding moves the first bit by one place at most, if the number is not very small. -/
theorem roundWithAccuracy_small (acc : Accuracy) {m : ℕ} {e : ℤ}
    (he : e ≤ max (totalExponent m e - 53) (-1074)) :
    Small (max (totalExponent m e + 1) (-1020))
      (roundWithAccuracy Format.binary64 .positive m e acc) := by
  obtain ⟨r, low, _, bound, rounded⟩ := roundWithAccuracy_eq .positive acc rfl he
  have full := full_of_cut rfl he
  rw [rounded]
  rcases Nat.eq_zero_or_pos r with rfl | pos
  · rw [settled_zero]
    exact .zero .positive
  · have sized := settled_sized (le_max_right _ _) bound pos (full.imp_left (le_trans · low)) le_rfl
    have high : max (totalExponent m e - 53) (-1074) + 54 =
        max (totalExponent m e + 1) (-1020) := by omega
    rw [high] at sized
    exact sized.small

theorem roundWithAccuracy_sized (acc : Accuracy) {m : ℕ} {e : ℤ} (pos : 0 < m)
    (he : e ≤ max (totalExponent m e - 53) (-1074)) (hm : -1073 ≤ totalExponent m e) :
    Sized (totalExponent m e) (max (totalExponent m e + 1) (-1020))
      (roundWithAccuracy Format.binary64 .positive m e acc) := by
  obtain ⟨r, low, _, bound, rounded⟩ := roundWithAccuracy_eq .positive acc rfl he
  have full := full_of_cut rfl he
  rw [rounded]
  have high : max (totalExponent m e - 53) (-1074) + 54 =
      max (totalExponent m e + 1) (-1020) := by omega
  rw [← high]
  generalize hb : max (totalExponent m e - 53) (-1074) = b at *
  have top : 2 ^ (m.log2 - (b - e).toNat) ≤ m / 2 ^ (b - e).toNat := by
    rw [Nat.le_div_iff_mul_le (Nat.two_pow_pos _), ← pow_add]
    rw [totalExponent_eq] at hb hm
    calc 2 ^ (m.log2 - (b - e).toNat + (b - e).toNat) = 2 ^ m.log2 := by congr 1; omega
      _ ≤ m := Nat.log2_self_le pos.ne'
  have some : 0 < r := (Nat.two_pow_pos _).trans_le (top.trans low)
  have place : m.log2 - (b - e).toNat ≤ r.log2 := (Nat.le_log2 some.ne').2 (top.trans low)
  refine settled_sized (by omega) bound some (full.imp_left (le_trans · low)) ?_
  rw [totalExponent_eq] at hb hm ⊢
  rw [totalExponent_eq]
  omega

theorem log2_shiftLeft (pos : 0 < m) (k : ℕ) : (m <<< k).log2 = m.log2 + k := by
  rw [Nat.shiftLeft_eq, Nat.log2_eq_iff (Nat.mul_pos pos (Nat.two_pow_pos k)).ne']
  constructor
  · rw [pow_add]
    exact Nat.mul_le_mul_right _ (Nat.log2_self_le pos.ne')
  · rw [add_right_comm, pow_add]
    exact Nat.mul_lt_mul_of_pos_right Nat.lt_log2_self (Nat.two_pow_pos k)

theorem totalExponent_decreaseExponent (pos : 0 < m) (e t : ℤ) :
    totalExponent (decreaseExponent m e t).1 (decreaseExponent m e t).2 = totalExponent m e := by
  unfold decreaseExponent
  rw [totalExponent_eq, totalExponent_eq, log2_shiftLeft pos]
  push_cast
  ring

theorem decreaseExponent_pos (pos : 0 < m) (e t : ℤ) : 0 < (decreaseExponent m e t).1 := by
  unfold decreaseExponent
  dsimp only
  rw [Nat.shiftLeft_eq]
  exact Nat.mul_pos pos (Nat.two_pow_pos _)

theorem decreaseExponent_le (m : ℕ) (e t : ℤ) : (decreaseExponent m e t).2 ≤ t := by
  unfold decreaseExponent
  dsimp only
  omega

theorem round_sized {m : ℕ} {e : ℤ} (pos : 0 < m) (hm : -1073 ≤ totalExponent m e) :
    Sized (totalExponent m e) (max (totalExponent m e + 1) (-1020))
      (Float.Model.UnpackedFloat.round Format.binary64 .positive m e) := by
  have same := totalExponent_decreaseExponent pos e
    (Format.binary64.targetExponent (totalExponent m e))
  have sized := roundWithAccuracy_sized .exact (decreaseExponent_pos pos e
    (Format.binary64.targetExponent (totalExponent m e))) (by
      rw [same]
      exact decreaseExponent_le m e _) (by rwa [same])
  rw [same] at sized
  exact sized

theorem decreaseExponent_eq (m : ℕ) (h : t ≤ e) : (decreaseExponent m e t).2 = t := by
  unfold decreaseExponent
  dsimp only
  omega

theorem log2_add_bounds (pos : 0 < m) (pos' : 0 < n) :
    max m.log2 n.log2 ≤ (m + n).log2 ∧ (m + n).log2 ≤ max m.log2 n.log2 + 1 := by
  have nonzero : m + n ≠ 0 := by omega
  have low := Nat.log2_self_le pos.ne'
  have low' := Nat.log2_self_le pos'.ne'
  constructor
  · rw [max_le_iff, Nat.le_log2 nonzero, Nat.le_log2 nonzero]
    omega
  · have high : m < 2 ^ (max m.log2 n.log2 + 1) :=
      Nat.lt_log2_self.trans_le (Nat.pow_le_pow_right (by decide) (by omega))
    have high' : n < 2 ^ (max m.log2 n.log2 + 1) :=
      Nat.lt_log2_self.trans_le (Nat.pow_le_pow_right (by decide) (by omega))
    have both : m + n < 2 ^ (max m.log2 n.log2 + 2) := by
      rw [pow_succ]
      omega
    exact Nat.lt_succ_iff.1 ((Nat.log2_lt nonzero).2 both)

theorem normalize_pos {m : ℕ} (pos : 0 < m) (e : ℤ) (s : Sign) :
    Float.Model.UnpackedFloat.normalize Format.binary64 (m : ℤ) e s =
      Float.Model.UnpackedFloat.round Format.binary64 .positive m e := by
  have compared : compare (m : ℤ) 0 = .gt := Int.compare_eq_gt.2 (Int.natCast_pos.2 pos)
  rw [Float.Model.UnpackedFloat.normalize, compared]
  rfl

/-- The first bit of a sum is that of the larger one of two positive numbers or above, by two places
at most. -/
theorem add_sized (pos : 0 < m) (pos' : 0 < m') (hm : Canonical m e) (hm' : Canonical m' e') :
    Sized (max (totalExponent m e) (totalExponent m' e'))
      (max (max (totalExponent m e) (totalExponent m' e') + 2) (-1020))
      (add Format.binary64 (.finite .positive m e pos) (.finite .positive m' e' pos')) := by
  have place := totalExponent_decreaseExponent pos e (min e e')
  have place' := totalExponent_decreaseExponent pos' e' (min e e')
  rw [decreaseExponent_eq m (min_le_left e e')] at place
  rw [decreaseExponent_eq m' (min_le_right e e')] at place'
  have some := decreaseExponent_pos pos e (min e e')
  have some' := decreaseExponent_pos pos' e' (min e e')
  have least : -1074 ≤ min e e' := le_min hm.least hm'.least
  have sum : add Format.binary64 (.finite .positive m e pos) (.finite .positive m' e' pos') =
      Float.Model.UnpackedFloat.round Format.binary64 .positive
        ((decreaseExponent m e (min e e')).1 + (decreaseExponent m' e' (min e e')).1)
        (min e e') := by
    rw [← normalize_pos (by omega) _ .positive, Nat.cast_add]
    rfl
  rw [sum, ← place, ← place']
  generalize (decreaseExponent m e (min e e')).1 = n at some ⊢
  generalize (decreaseExponent m' e' (min e e')).1 = n' at some' ⊢
  obtain ⟨low, high⟩ := log2_add_bounds some some'
  have sized := round_sized (Nat.add_pos_left some n') (e := min e e') (by
    rw [totalExponent_eq]
    omega)
  simp only [totalExponent_eq] at sized ⊢
  exact sized.mono (by omega) (by omega)

theorem log2_mul_bound (pos : 0 < m) (pos' : 0 < n) : (m * n).log2 ≤ m.log2 + n.log2 + 1 := by
  rw [← Nat.lt_succ_iff, Nat.log2_lt (Nat.mul_pos pos pos').ne']
  calc m * n < 2 ^ (m.log2 + 1) * 2 ^ (n.log2 + 1) :=
        Nat.mul_lt_mul'' Nat.lt_log2_self Nat.lt_log2_self
    _ = 2 ^ (m.log2 + n.log2 + 1 + 1) := by rw [← pow_add]; congr 1; omega

theorem mul_small (pos : 0 < m) (pos' : 0 < m') (hm : Canonical m e) (hm' : Canonical m' e') :
    Small (max (totalExponent m e + totalExponent m' e' + 1) (-1020))
      (mul Format.binary64 (.finite .positive m e pos) (.finite .positive m' e' pos')) := by
  have top := log2_mul_bound pos pos'
  have place : totalExponent (m * m') (e + e') ≤ totalExponent m e + totalExponent m' e' := by
    simp only [totalExponent_eq]
    omega
  have below : e + e' ≤ max (totalExponent (m * m') (e + e') - 53) (-1074) := by
    by_cases full : 2 ^ 52 ≤ m * m'
    · have bits := (Nat.le_log2 (Nat.mul_pos pos pos').ne').2 full
      rw [totalExponent_eq]
      omega
    · have part (h : 2 ^ 52 ≤ m ∨ e = -1074) : e = -1074 :=
        h.resolve_left fun h => full (h.trans (Nat.le_mul_of_pos_right m pos'))
      have part' (h : 2 ^ 52 ≤ m' ∨ e' = -1074) : e' = -1074 :=
        h.resolve_left fun h => full (h.trans (Nat.le_mul_of_pos_left m' pos))
      rw [part hm.full, part' hm'.full]
      exact le_max_of_le_right (by decide)
  exact (roundWithAccuracy_small .exact below).mono (by omega)

theorem log2_div_bound (pos : 0 < m / n) : (m / n).log2 + n.log2 ≤ m.log2 := by
  have divisor : n ≠ 0 := by
    rintro rfl
    rw [Nat.div_zero] at pos
    exact lt_irrefl 0 pos
  have product : m / n * n ≤ m := Nat.div_mul_le_self m n
  have some : 0 < m / n * n := Nat.mul_pos pos (Nat.pos_of_ne_zero divisor)
  rw [Nat.le_log2 (some.trans_le product).ne', pow_add]
  exact (Nat.mul_le_mul (Nat.log2_self_le pos.ne') (Nat.log2_self_le divisor)).trans product

theorem div_small (pos : 0 < m) (pos' : 0 < m') :
    Small (max (totalExponent m e - totalExponent m' e' + 2) (-1020))
      (div Format.binary64 (.finite .positive m e pos) (.finite .positive m' e' pos')) := by
  obtain ⟨t, ht⟩ : ∃ t, t = min (e - e')
    (Format.binary64.targetExponent (totalExponent m e - totalExponent m' e')) := ⟨_, rfl⟩
  obtain ⟨q, hq⟩ : ∃ q, q = (m <<< (e - e' - t).toNat) / m' := ⟨_, rfl⟩
  have quotient : div Format.binary64 (.finite .positive m e pos) (.finite .positive m' e' pos') =
      roundWithAccuracy Format.binary64 .positive q t
        (accuracyOfFraction ((m <<< (e - e' - t).toNat) % m') m') := by
    rw [hq, ht]
    rfl
  have shifted := log2_shiftLeft pos (e - e' - t).toNat
  rw [targetExponent_eq] at ht
  simp only [totalExponent_eq] at ht
  have below : t ≤ max (totalExponent q t - 53) (-1074) := by
    by_cases least : t ≤ -1074
    · exact le_max_of_le_right least
    have full : 2 ^ 52 ≤ q := by
      rw [hq, Nat.le_div_iff_mul_le pos']
      calc 2 ^ 52 * m' ≤ 2 ^ 52 * 2 ^ (m'.log2 + 1) := Nat.mul_le_mul_left _ Nat.lt_log2_self.le
        _ = 2 ^ (52 + (m'.log2 + 1)) := (pow_add 2 _ _).symm
        _ ≤ 2 ^ (m <<< (e - e' - t).toNat).log2 :=
          Nat.pow_le_pow_right (by decide) (by omega)
        _ ≤ m <<< (e - e' - t).toNat := by
          apply Nat.log2_self_le
          rw [Nat.shiftLeft_eq]
          exact (Nat.mul_pos pos (Nat.two_pow_pos _)).ne'
    have bits := (Nat.le_log2 (by omega : q ≠ 0)).2 full
    rw [totalExponent_eq]
    omega
  rw [quotient]
  refine (roundWithAccuracy_small _ below).mono ?_
  simp only [totalExponent_eq]
  rcases Nat.eq_zero_or_pos q with none | some
  · rw [none, Nat.log2_zero]
    omega
  · have top := log2_div_bound (hq ▸ some)
    rw [← hq] at top
    omega

end PackageUsage.Double
