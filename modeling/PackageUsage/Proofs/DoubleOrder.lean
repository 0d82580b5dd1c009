import PackageUsage.Proofs.DoubleRange

namespace PackageUsage.Double
set_option autoImplicit true

open Float.Model Float.Model.UnpackedFloat

def rank : UnpackedFloat → ℤ ×ₗ ℤ ×ₗ ℤ
  | .infinity .negative => toLex (-2, toLex (0, 0))
  | .finite .negative m e _ => toLex (-1, toLex (-e, -m))
  | .zero _ => toLex (0, toLex (0, 0))
  | .finite .positive m e _ => toLex (1, toLex (e, m))
  | .infinity .positive => toLex (2, toLex (0, 0))
  | .notANumber => toLex (3, toLex (0, 0))

theorem then_eq_lt_iff (e e' : ℤ) (m m' : ℕ) :
    (compare e e').then (compare m m') = .lt ↔ e < e' ∨ e = e' ∧ m < m' := by
  rw [Ordering.then_eq_lt, Int.compare_eq_lt, Nat.compare_eq_lt, Int.compare_eq_eq]

theorem then_eq_gt_iff (e e' : ℤ) (m m' : ℕ) :
    (compare e e').then (compare m m') = .gt ↔ e' < e ∨ e = e' ∧ m' < m := by
  rw [Ordering.then_eq_gt, Int.compare_eq_gt, Nat.compare_eq_gt, Int.compare_eq_eq]

theorem compare_negative (m m' : ℕ) (e e' : ℤ) (pos : 0 < m) (pos' : 0 < m') :
    ∃ o, UnpackedFloat.compare (.finite .negative m e pos) (.finite .negative m' e' pos') = some o ∧
      (o = .lt ↔ rank (.finite .negative m e pos) < rank (.finite .negative m' e' pos')) ∧
      (o = .gt ↔ rank (.finite .negative m' e' pos') < rank (.finite .negative m e pos)) := by
  refine ⟨_, rfl, ?_, ?_⟩
  · simp only [rank, Prod.Lex.toLex_lt_toLex, Ordering.swap_eq_lt, then_eq_gt_iff, lt_irrefl,
      true_and, false_or, neg_lt_neg_iff, neg_inj, Nat.cast_lt]
  · simp only [rank, Prod.Lex.toLex_lt_toLex, Ordering.swap_eq_gt, then_eq_lt_iff, lt_irrefl,
      true_and, false_or, neg_lt_neg_iff, neg_inj, Nat.cast_lt, @eq_comm ℤ e' e]

theorem compare_positive (m m' : ℕ) (e e' : ℤ) (pos : 0 < m) (pos' : 0 < m') :
    ∃ o, UnpackedFloat.compare (.finite .positive m e pos) (.finite .positive m' e' pos') = some o ∧
      (o = .lt ↔ rank (.finite .positive m e pos) < rank (.finite .positive m' e' pos')) ∧
      (o = .gt ↔ rank (.finite .positive m' e' pos') < rank (.finite .positive m e pos)) := by
  refine ⟨_, rfl, ?_, ?_⟩
  · simp only [rank, Prod.Lex.toLex_lt_toLex, then_eq_lt_iff, lt_irrefl, true_and, false_or,
      Nat.cast_lt]
  · simp only [rank, Prod.Lex.toLex_lt_toLex, then_eq_gt_iff, lt_irrefl, true_and, false_or,
      Nat.cast_lt, @eq_comm ℤ e' e]

theorem compare_iff (hf : f ≠ .notANumber) (hg : g ≠ .notANumber) :
    ∃ o, UnpackedFloat.compare f g = some o ∧ (o = .lt ↔ rank f < rank g) ∧
      (o = .gt ↔ rank g < rank f) := by
  have below : compare Sign.negative Sign.positive = .lt := rfl
  have above : compare Sign.positive Sign.negative = .gt := rfl
  rcases f with ⟨_ | _⟩ | _ | _ | ⟨_ | _⟩ <;> rcases g with ⟨_ | _⟩ | _ | _ | ⟨_ | _⟩
  all_goals first
    | exact absurd rfl hf
    | exact absurd rfl hg
    | exact compare_negative ..
    | exact compare_positive ..
    | exact ⟨_, rfl, by simp [rank, Prod.Lex.toLex_lt_toLex, below],
        by simp [rank, Prod.Lex.toLex_lt_toLex, above]⟩

def IsNumber (x : Float) : Prop := read x ≠ .notANumber

theorem lt_iff_rank (hx : IsNumber x) (hy : IsNumber y) :
    x < y ↔ rank (read x) < rank (read y) := by
  obtain ⟨o, ho, below, _⟩ := compare_iff hx hy
  rw [lt_iff, UnpackedFloat.lt, ho, ← below, beq_iff_eq, Option.some_inj]

theorem le_iff_rank (hx : IsNumber x) (hy : IsNumber y) :
    x ≤ y ↔ rank (read x) ≤ rank (read y) := by
  obtain ⟨o, ho, _, above⟩ := compare_iff hx hy
  rw [le_iff, UnpackedFloat.le, ho, ← not_lt, ← above]
  cases o with
  | lt => decide
  | eq => decide
  | gt => decide

end PackageUsage.Double
