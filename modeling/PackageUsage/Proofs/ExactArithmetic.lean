import PackageUsage.Decimal.Arithmetic

namespace PackageUsage
set_option autoImplicit true

instance : Arithmetic Rat where
  ofInt n := n
  ratio m n := m / n
  lt x y := decide (x < y)
  le x y := decide (x ≤ y)
  abs := Rat.abs
  floor x := x.floor
  withSignOf x y := if y < 0 then -x.abs else x.abs
  isFinite _ := true

namespace Arithmetic

theorem percent_exact (used total : Int) : (percent used total : Rat) = used / total * 100 := rfl

theorem percent_nonneg (h : 0 ≤ used) (ht : 0 < total) : 0 ≤ (percent used total : Rat) := by
  have share : (0 : Rat) ≤ used / total := by
    rw [← Rat.divInt_eq_div]
    exact Rat.divInt_nonneg h (Int.le_of_lt ht)
  rw [percent_exact]
  exact Rat.mul_nonneg share (by decide)

theorem percent_le_iff (ht : 0 < total) : (percent used total : Rat) ≤ 100 ↔ used ≤ total := by
  have pos : (0 : Rat) < total := Rat.intCast_pos.2 ht
  rw [percent_exact]
  constructor
  · intro h
    apply Classical.byContradiction
    intro hlt
    have more : (1 : Rat) < used / total := by
      rw [Rat.lt_div_iff pos, Rat.one_mul]
      exact Rat.intCast_lt_intCast.2 (Int.not_le.1 hlt)
    have beyond := Rat.mul_lt_mul_of_pos_right more (c := 100) (by decide)
    rw [Rat.one_mul] at beyond
    exact Rat.not_le.2 beyond h
  · intro h
    have share : (used : Rat) / total ≤ 1 := by
      rw [← Rat.not_lt, Rat.lt_div_iff pos, Rat.one_mul, Rat.not_lt]
      exact Rat.intCast_le_intCast.2 h
    have most := Rat.mul_le_mul_of_nonneg_right share (c := 100) (by decide)
    rwa [Rat.one_mul] at most

theorem percent_bounds (h₀ : 0 ≤ used) (h : used ≤ total) (ht : 0 < total) :
    0 ≤ (percent used total : Rat) ∧ (percent used total : Rat) ≤ 100 :=
  ⟨percent_nonneg h₀ ht, (percent_le_iff ht).2 h⟩

end Arithmetic

namespace Decimal

theorem roundToEven_zero (den : Nat) : roundToEven 0 den = 0 := by
  cases den with
  | zero => rfl
  | succ n => simp only [roundToEven, Nat.zero_div, Nat.zero_mod, Nat.mul_zero, Nat.zero_lt_succ,
      decide_true, Bool.true_or, ↓reduceIte]

theorem ofQuotient_zero (h : 0 < den) : ofQuotient 0 den = 0.0 := by
  have sign : (decide ((0 : Int) < 0) != decide (den < 0)) = false := by
    rw [decide_eq_false (Int.lt_irrefl 0), decide_eq_false (Int.not_lt.2 (Int.le_of_lt h))]
    rfl
  rw [ofQuotient, sign, Int.natAbs_zero, Nat.zero_mul, roundToEven_zero, ofMantissa, if_pos rfl]
  rfl

end Decimal

theorem Arithmetic.percent_zero (h : 0 < total) : (percent 0 total : Float) = 0.0 := by
  have whole : (0.0 : Float) * Decimal.ofInt 100 = 0.0 := by decide +kernel
  have nothing : (ratio 0 total : Float) = 0.0 := Decimal.ofQuotient_zero h
  rw [percent, nothing]
  exact whole

end PackageUsage
