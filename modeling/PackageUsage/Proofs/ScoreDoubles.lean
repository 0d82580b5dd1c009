import PackageUsage.Proofs.DoubleOrder
import PackageUsage.Score.Basic

namespace PackageUsage.Double
set_option autoImplicit true

open Float.Model Float.Model.UnpackedFloat

theorem read_hundred : read (Decimal.ofInt 100) =
    .finite .positive 7036874417766400 (-46) (by decide) := rfl

theorem read_zero : read (Decimal.ofInt 0) = .zero .positive := rfl

theorem read_ten : read (Decimal.ofInt 10) =
    .finite .positive 5629499534213120 (-49) (by decide) := rfl

theorem read_half : read (Decimal.ofQuotient 1 2) =
    .finite .positive 4503599627370496 (-53) (by decide) := rfl

theorem IsNumber.neg (h : IsNumber x) : IsNumber (-x) := by
  unfold IsNumber at h ⊢
  rw [read_neg]
  apply stored_ne_notANumber
  generalize read x = f at h
  cases f with
  | notANumber => exact absurd rfl h
  | infinity => nofun
  | zero => nofun
  | finite => nofun

theorem IsNumber.abs (h : IsNumber x) : IsNumber x.abs := by
  unfold IsNumber at h ⊢
  rw [read_abs]
  apply stored_ne_notANumber
  generalize read x = f at h
  cases f with
  | notANumber => exact absurd rfl h
  | infinity => nofun
  | zero => nofun
  | finite => nofun

theorem isNumber_ofBits {b : UInt64} (h : b.toNat ≤ 0x7FF0000000000000) :
    IsNumber (Float.ofBits b) := by
  apply stored_ne_notANumber
  have exponent : (@unpackExponent Format.binary64 b.toBitVec).toNat =
      b.toNat / 2 ^ 52 % 2 ^ 11 := by
    simp [unpackExponent, Nat.shiftRight_eq_div_pow]
  have mantissa : (@unpackMantissa Format.binary64 b.toBitVec).toNat =
      b.toNat % 2 ^ 52 := by
    simp [unpackMantissa]
  unfold UnpackedFloat.unpack
  dsimp only
  split
  · rename_i infinite
    rw [allOnes_iff, exponent] at infinite
    rw [if_pos ((zero_iff _).2 (mantissa.trans (by omega)))]
    nofun
  · split
    · split
      · nofun
      · nofun
    · nofun

theorem isNumber_ofMantissa (m : ℕ) (e : ℤ) : IsNumber (Decimal.ofMantissa m e) := by
  unfold Decimal.ofMantissa
  split
  · have zero : read 0.0 = .zero .positive := rfl
    rw [IsNumber, zero]
    nofun
  · apply isNumber_ofBits
    rw [UInt64.toNat_ofNat']
    exact (Nat.mod_le _ _).trans (min_le_right _ _)

theorem isNumber_ofQuotient (num den : ℤ) : IsNumber (Decimal.ofQuotient num den) := by
  unfold Decimal.ofQuotient
  dsimp only
  split
  · exact (isNumber_ofMantissa _ _).neg
  · exact isNumber_ofMantissa _ _

theorem isNumber_roundTenth (x : Float) : IsNumber (Arithmetic.roundTenth x) := by
  have tenths := (isNumber_ofQuotient (Decimal.floor (x.abs * Decimal.ofInt 10 +
    Decimal.ofQuotient 1 2)) 10).abs
  change IsNumber (if Decimal.isNegative x then -Float.abs _ else Float.abs _)
  split
  · exact tenths.neg
  · exact tenths

theorem small_between (h : Decimal.ofInt 0 < x) (h' : x < Decimal.ofInt 100) :
    Small 7 (read x) := by
  rw [lt_iff, read_zero] at h
  rw [lt_iff, read_hundred] at h'
  cases hx : read x with
  | notANumber => rw [hx] at h; cases h
  | zero s => rw [hx] at h; cases h
  | infinity s =>
    rw [hx] at h h'
    cases s with
    | negative => cases h
    | positive => cases h'
  | finite s m e pos =>
    rw [hx] at h h'
    cases s with
    | negative => cases h
    | positive =>
      have order := (then_eq_lt_iff e (-46) m 7036874417766400).1
        (Option.some_inj.1 (beq_iff_eq.1 h'))
      have range := (inRange_of_read hx).canonical
      have bits := log2_lt_of_lt (n := 52) range.bits
      refine .finite pos range ?_
      rw [totalExponent_eq]
      omega

theorem small_zero : Small 7 (read (Decimal.ofInt 0)) := by
  rw [read_zero]
  exact .zero _

theorem small_hundred : Small 7 (read (Decimal.ofInt 100)) := by
  rw [read_hundred]
  exact .finite _ ⟨by decide, by decide, by decide⟩ (by decide)

/-- Whatever is kept between 0 and 100 is a number there, also where there was none. -/
theorem small_clamp (x : Float) : Small 7 (read (Arithmetic.clamp x)) := by
  have kept : Arithmetic.clamp x = Decimal.ofInt 100 ∨ Arithmetic.clamp x = Decimal.ofInt 0 ∨
      Arithmetic.clamp x = x ∧ Decimal.ofInt 0 < x ∧ x < Decimal.ofInt 100 := by
    unfold Arithmetic.clamp
    dsimp only
    split
    · rename_i below
      split
      · rename_i above
        exact .inr (.inr ⟨rfl, of_decide_eq_true above, of_decide_eq_true below⟩)
      · exact .inr (.inl rfl)
    · split
      · exact .inl rfl
      · exact .inr (.inl rfl)
  rcases kept with kept | kept | ⟨kept, low, high⟩
  · rw [kept]
    exact small_hundred
  · rw [kept]
    exact small_zero
  · rw [kept]
    exact small_between low high

theorem small_ten : Small 4 (read (Decimal.ofInt 10)) := by
  rw [read_ten]
  exact .finite _ ⟨by decide, by decide, by decide⟩ (by decide)

theorem small_half : Small 0 (read (Decimal.ofQuotient 1 2)) := by
  rw [read_half]
  exact .finite _ ⟨by decide, by decide, by decide⟩ (by decide)

theorem small_abs (h : Small high (read x)) (bound : high ≤ 1024) : Small high (read x.abs) := by
  rw [read_abs]
  generalize read x = f at h
  cases h with
  | zero s =>
    rw [UnpackedFloat.abs, stored_zero]
    exact .zero _
  | finite pos canonical place =>
    have positive : Small high (.finite .positive _ _ pos) := .finite pos canonical place
    rw [UnpackedFloat.abs, stored_small positive bound]
    exact positive

theorem hasTenths_of_small (h : Small 20 (read x)) : Arithmetic.hasTenths x = true := by
  have tenfold : Small 25 (read (x.abs * Decimal.ofInt 10)) :=
    small_mul (small_abs h (by decide)) small_ten (by decide) (by decide)
  exact isFinite_of_small
    (small_add tenfold (small_half.mono (by decide)) (by decide) (by decide))

end PackageUsage.Double

namespace PackageUsage.Score

open Double Float.Model.UnpackedFloat

/-- Weights of which none is negative and none is much above one. -/
structure SmallWeights (w : Weights Float) : Prop where
  usage : Small 2 (read w.usage)
  impact : Small 2 (read w.impact)
  confidence : Small 2 (read w.confidence)

theorem small_defaultWeights : SmallWeights defaultWeights where
  usage := small_half.mono (by decide)
  impact := by
    have read : read (Decimal.ofQuotient 3 10) =
        .finite .positive 5404319552844595 (-54) (by decide) := rfl
    change Small 2 (Double.read (Decimal.ofQuotient 3 10))
    rw [read]
    exact .finite _ ⟨by decide, by decide, by decide⟩ (by decide)
  confidence := by
    have read : read (Decimal.ofQuotient 1 5) =
        .finite .positive 7205759403792794 (-55) (by decide) := rfl
    change Small 2 (Double.read (Decimal.ofQuotient 1 5))
    rw [read]
    exact .finite _ ⟨by decide, by decide, by decide⟩ (by decide)

theorem small_of_fit {x : Float}
    (h : (x.isFinite && !decide (x < Decimal.ofInt 0)) = true) : Small 1024 (read x) := by
  obtain ⟨finite, fit⟩ := Bool.and_eq_true_iff.1 h
  rw [Bool.not_eq_true', decide_eq_false_iff_not, lt_iff, read_zero] at fit
  rw [isFinite_eq] at finite
  cases hx : read x with
  | notANumber => rw [hx] at finite; cases finite
  | infinity s => rw [hx] at finite; cases finite
  | zero s => exact .zero s
  | finite s m e pos =>
    have range := inRange_of_read hx
    cases s with
    | negative => rw [hx] at fit; exact absurd rfl fit
    | positive => exact .finite pos range.canonical range.place

theorem smallWeights_of_sum {w : Weights Float} (hu : Small 1024 (read w.usage))
    (hi : Small 1024 (read w.impact)) (hc : Small 1024 (read w.confidence))
    (finite : (w.usage + w.impact + w.confidence).isFinite = true)
    (pos : Decimal.ofInt 0 < w.usage + w.impact + w.confidence) :
    SmallWeights ⟨w.usage / (w.usage + w.impact + w.confidence),
      w.impact / (w.usage + w.impact + w.confidence),
      w.confidence / (w.usage + w.impact + w.confidence)⟩ := by
  obtain ⟨small, part⟩ := sized_sum hu hi hc finite
  rcases small.sized with ⟨s, zero⟩ | ⟨place, bound, sized⟩
  · rw [lt_iff, zero, read_zero] at pos
    cases pos
  · have total := sized.mono le_rfl bound
    exact ⟨small_part hu total fun low h => part low (.inl h),
      small_part hi total fun low h => part low (.inr (.inl h)),
      small_part hc total fun low h => part low (.inr (.inr h))⟩

theorem normalize_small (w : Option (Weights Float)) : SmallWeights (normalize w) := by
  cases w with
  | none => exact small_defaultWeights
  | some w =>
    rw [normalize]
    dsimp only
    split
    · rename_i accepted
      obtain ⟨⟨⟨⟨hu, hi⟩, hc⟩, finite⟩, pos⟩ := by
        simpa only [Bool.and_eq_true] using accepted
      exact smallWeights_of_sum (small_of_fit (Bool.and_eq_true_iff.2 hu))
        (small_of_fit (Bool.and_eq_true_iff.2 hi)) (small_of_fit (Bool.and_eq_true_iff.2 hc))
        finite (of_decide_eq_true pos)
    · exact small_defaultWeights

theorem small_share (f : Figures Float) :
    Small 7 (read ((usageSignal f).getD (Arithmetic.ofInt 0))) := by
  unfold usageSignal
  split
  · exact small_zero
  · exact small_clamp _

theorem small_impactSignal (f : Figures Float) (most : ℤ) :
    Small 7 (read (impactSignal f most)) := by
  unfold impactSignal
  split
  · exact small_clamp _
  · exact small_zero

theorem small_confidenceSignal (f : Figures Float) : Small 7 (read (confidenceSignal f)) :=
  small_clamp _

theorem small_weighted (h : SmallWeights w) (most : ℤ) (f : Figures Float) :
    Small 14 (read (weighted w most f)) := by
  have part {x y : Float} (hx : Small 7 (read x)) (hy : Small 2 (read y)) :
      Small 10 (read (x * y)) := small_mul hx hy (by decide) (by decide)
  have two := small_add (part (small_share f) h.usage)
    (part (small_impactSignal f most) h.impact) (by decide) (by decide)
  have third := part (small_confidenceSignal f) h.confidence
  exact small_add two (third.mono (by decide)) (by decide) (by decide)

/-- By weights with the sum one, every score and every signal can be rounded. -/
theorem isRoundable_normalize (w : Option (Weights Float)) (most : ℤ) (f : Figures Float) :
    isRoundable (normalize w) most f = true := by
  have share := hasTenths_of_small ((small_share f).mono (by decide))
  have impact := hasTenths_of_small ((small_impactSignal f most).mono (by decide))
  have confidence := hasTenths_of_small ((small_confidenceSignal f).mono (by decide))
  have score := hasTenths_of_small ((small_weighted (normalize_small w) most f).mono (by decide))
  rw [isRoundable, share, impact, confidence, score]
  rfl

end PackageUsage.Score
