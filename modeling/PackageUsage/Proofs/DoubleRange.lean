import PackageUsage.Proofs.StoredDoubles

namespace PackageUsage.Double
set_option autoImplicit true

open Float.Model Float.Model.UnpackedFloat

theorem isFinite_eq (x : Float) : x.isFinite = (read x).isFinite := rfl

theorem lt_iff {x y : Float} : x < y ↔ (read x).lt (read y) = true := by
  change decide (x.toModel < y.toModel) = true ↔ _
  exact decide_eq_true_iff

theorem le_iff {x y : Float} : x ≤ y ↔ (read x).le (read y) = true := by
  change decide (x.toModel ≤ y.toModel) = true ↔ _
  exact decide_eq_true_iff

theorem stored_small (h : Small high f) (bound : high ≤ 1024) : stored f = f := by
  cases h with
  | zero s => exact stored_zero s
  | finite pos canonical place => rw [stored_finite _ pos canonical, if_pos (place.trans bound)]

theorem isFinite_of_small {x : Float} (h : Small high (read x)) : x.isFinite = true := by
  rw [isFinite_eq]
  generalize read x = f at h
  cases h with
  | zero => rfl
  | finite => rfl

theorem small_add {x y : Float} (hx : Small high (read x)) (hy : Small high (read y))
    (low : -1022 ≤ high) (bound : high + 2 ≤ 1024) : Small (high + 2) (read (x + y)) := by
  rw [read_add]
  have sum : Small (high + 2) (add Format.binary64 (read x) (read y)) := by
    generalize read x = f at hx
    generalize read y = g at hy
    cases hx with
    | zero s =>
      cases hy with
      | zero t => cases s <;> cases t <;> exact .zero _
      | finite pos canonical place => exact .finite pos canonical (by omega)
    | finite pos canonical place =>
      cases hy with
      | zero t => exact .finite pos canonical (by omega)
      | finite pos' canonical' place' =>
        exact (add_sized pos pos' canonical canonical').small.mono (by omega)
  rw [stored_small sum bound]
  exact sum

theorem small_mul {x y : Float} (hx : Small a (read x)) (hy : Small b (read y))
    (low : -1021 ≤ a + b) (bound : a + b + 1 ≤ 1024) : Small (a + b + 1) (read (x * y)) := by
  rw [read_mul]
  have product : Small (a + b + 1) (mul Format.binary64 (read x) (read y)) := by
    generalize read x = f at hx
    generalize read y = g at hy
    cases hx with
    | zero s =>
      cases hy with
      | zero t => exact .zero _
      | finite pos canonical place => exact .zero _
    | finite pos canonical place =>
      cases hy with
      | zero t => exact .zero _
      | finite pos' canonical' place' =>
        exact (mul_small pos pos' canonical canonical').mono (by omega)
  rw [stored_small product bound]
  exact product

theorem small_div {x y : Float} (hx : Small high (read x)) (hy : Sized high top (read y)) :
    Small 2 (read (x / y)) := by
  rw [read_div]
  have quotient : Small 2 (div Format.binary64 (read x) (read y)) := by
    generalize read x = f at hx
    generalize read y = g at hy
    obtain ⟨pos', canonical', above, _⟩ := hy
    cases hx with
    | zero s => exact .zero _
    | finite pos canonical place => exact (div_small pos pos').mono (by omega)
  rw [stored_small quotient (by decide)]
  exact quotient

/-- A sum of numbers that are not negative has the first bit of a part of it, or a higher one,
unless it is infinite. -/
theorem sized_add {x y : Float} (hx : Small 1024 (read x)) (hy : Small 1024 (read y)) :
    read (x + y) = .infinity .positive ∨ Small 1024 (read (x + y)) ∧
      ∀ low, Sized low 1024 (read x) ∨ Sized low 1024 (read y) → Sized low 1024 (read (x + y)) := by
  rw [read_add]
  generalize read x = f at hx
  generalize read y = g at hy
  cases hx with
  | zero s =>
    right
    cases hy with
    | zero t =>
      have sum : ∃ u, add Format.binary64 (.zero s) (.zero t) = .zero u := by
        cases s <;> cases t <;> exact ⟨_, rfl⟩
      obtain ⟨u, hu⟩ := sum
      rw [hu, stored_zero]
      refine ⟨.zero u, ?_⟩
      rintro low (sized | sized)
      · cases sized
      · cases sized
    | @finite m e pos canonical place =>
      have sum : add Format.binary64 (.zero s) (.finite .positive m e pos) =
        .finite .positive m e pos := rfl
      rw [sum, stored_finite _ pos canonical, if_pos place]
      refine ⟨.finite pos canonical place, ?_⟩
      rintro low (sized | sized)
      · cases sized
      · exact sized
  | @finite m e pos canonical place =>
    cases hy with
    | zero t =>
      right
      have sum : add Format.binary64 (.finite .positive m e pos) (.zero t) =
        .finite .positive m e pos := rfl
      rw [sum, stored_finite _ pos canonical, if_pos place]
      refine ⟨.finite pos canonical place, ?_⟩
      rintro low (sized | sized)
      · exact sized
      · cases sized
    | finite pos' canonical' place' =>
      have sum := add_sized pos pos' canonical canonical'
      generalize add Format.binary64 _ _ = f at sum
      obtain ⟨some, form, above, _⟩ := sum
      rw [stored_finite _ some form]
      split
      · rename_i inside
        refine .inr ⟨.finite some form inside, ?_⟩
        rintro low (⟨_, _, lower, _⟩ | ⟨_, _, lower, _⟩)
        · exact .finite some form (by omega) inside
        · exact .finite some form (by omega) inside
      · exact .inl rfl

theorem Small.sized (h : Small high f) : (∃ s, f = .zero s) ∨
    ∃ place, place ≤ high ∧ Sized place place f := by
  cases h with
  | zero s => exact .inl ⟨s, rfl⟩
  | finite pos canonical place => exact .inr ⟨_, place, .finite pos canonical le_rfl le_rfl⟩

theorem not_isFinite_add {x y : Float} (hx : read x = .infinity .positive)
    (hy : Small high (read y)) : (x + y).isFinite = false := by
  rw [isFinite_eq, read_add, hx]
  generalize read y = g at hy
  cases hy with
  | zero => exact congrArg UnpackedFloat.isFinite (stored_infinity .positive)
  | finite => exact congrArg UnpackedFloat.isFinite (stored_infinity .positive)

theorem sized_sum {x y z : Float} (hx : Small 1024 (read x)) (hy : Small 1024 (read y))
    (hz : Small 1024 (read z)) (finite : (x + y + z).isFinite = true) :
    Small 1024 (read (x + y + z)) ∧ ∀ low, Sized low 1024 (read x) ∨ Sized low 1024 (read y) ∨
      Sized low 1024 (read z) → Sized low 1024 (read (x + y + z)) := by
  have finite_of {f : Float} (h : read f = .infinity .positive) : f.isFinite = false := by
    rw [isFinite_eq, h]
    rfl
  rcases sized_add hx hy with infinite | ⟨first, left⟩
  · rw [not_isFinite_add infinite hz] at finite
    cases finite
  · rcases sized_add first hz with infinite | ⟨second, right⟩
    · rw [finite_of infinite] at finite
      cases finite
    · refine ⟨second, ?_⟩
      rintro low (h | h | h)
      · exact right low (.inl (left low (.inl h)))
      · exact right low (.inl (left low (.inr h)))
      · exact right low (.inr h)

theorem small_part {x y : Float} (hx : Small 1024 (read x)) (hy : Sized least 1024 (read y))
    (part : ∀ low, Sized low 1024 (read x) → Sized low 1024 (read y)) : Small 2 (read (x / y)) := by
  rcases hx.sized with ⟨s, zero⟩ | ⟨place, bound, sized⟩
  · have none : Small least (read x) := zero ▸ .zero s
    exact small_div none hy
  · exact small_div sized.small (part place (sized.mono le_rfl bound))

end PackageUsage.Double
