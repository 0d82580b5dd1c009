import PackageUsage.Proofs.ExtendedArithmetic
import PackageUsage.Score.Basic

namespace PackageUsage.Score
set_option autoImplicit true

open Extended Arithmetic

/-- Weights that are numbers, none of them negative, with the sum one. -/
structure Shares where
  usage : ℚ
  impact : ℚ
  confidence : ℚ
  usage_nonneg : 0 ≤ usage
  impact_nonneg : 0 ≤ impact
  confidence_nonneg : 0 ≤ confidence
  sum : usage + impact + confidence = 1

def Shares.weights (s : Shares) : Weights Extended :=
  ⟨number s.usage, number s.impact, number s.confidence⟩

/-- The share of the surface that is not used, from 0 to 100, and 0 for an unknown surface. -/
def unusedShare (f : Figures Extended) : ℚ :=
  if f.totalExports ≤ 0 then 0
  else
    let computed : ℚ := f.usedExports / f.totalExports * 100
    match f.usedPercent with
    | number p => kept (100 - if p ≤ 0 then computed else p)
    | infinite true => kept (100 - computed)
    | infinite false => 0
    | undefined => 100

def impactShare (raw most : ℤ) : ℚ := if 0 < most then kept (raw / most * 100) else 0

def confidenceShare (f : Figures Extended) : ℚ := kept (100 - penalty f)

def exactScore (s : Shares) (most : ℤ) (f : Figures Extended) : ℚ :=
  unusedShare f * s.usage + impactShare (rawImpact f) most * s.impact +
    confidenceShare f * s.confidence

/-- The removal score of a package over exact numbers. -/
def exactCandidate (s : Shares) (most : ℤ) (f : Figures Extended) : RemovalCandidate Extended :=
  { score := number (tenths (exactScore s most f))
    usage := number (tenths (unusedShare f))
    impact := number (tenths (impactShare (rawImpact f) most))
    confidence := number (tenths (confidenceShare f))
    weights := s.weights
    rationale := (if f.usesWildcard then [wildcardImport] else []) ++
      (if f.totalExports ≤ 0 then [unknownUsage] else []) }

section
variable [ByZero]

theorem usageSignal_exact (f : Figures Extended) :
    usageSignal f = if f.totalExports ≤ 0 then none else some (number (unusedShare f)) := by
  unfold usageSignal unusedShare
  by_cases unknown : f.totalExports ≤ 0
  · rw [if_pos unknown, if_pos unknown]
  rw [if_neg unknown, if_neg unknown, if_neg unknown,
    percent_number f.usedExports (Int.not_le.1 unknown)]
  have whole : (ofInt 100 : Extended) = number 100 := rfl
  have nothing : (ofInt 0 : Extended) = number 0 := rfl
  rw [whole, nothing]
  cases f.usedPercent with
  | number p =>
    have compared : Arithmetic.le (number p) (number 0) = decide (p ≤ 0) := rfl
    dsimp only
    rw [compared]
    by_cases given : p ≤ 0
    · rw [decide_eq_true given, if_pos rfl, if_pos given, number_sub, clamp_number]
    · rw [decide_eq_false given, if_neg Bool.false_ne_true, if_neg given, number_sub, clamp_number]
  | infinite negative =>
    cases negative with
    | false => rfl
    | true =>
      have compared : Arithmetic.le (infinite true) (number 0) = true := rfl
      dsimp only
      rw [compared, if_pos rfl, number_sub, clamp_number]
  | undefined => rfl

theorem impactSignal_exact (f : Figures Extended) (most : ℤ) :
    impactSignal f most = number (impactShare (rawImpact f) most) := by
  unfold impactSignal impactShare
  split
  · rename_i some
    have divided : (ofInt (rawImpact f) : Extended) / ofInt most =
      number (rawImpact f / most) := number_div _ (Int.cast_ne_zero.2 (ne_of_gt some))
    rw [divided, ofInt_number, number_mul, clamp_number]
    norm_num
  · rfl

theorem confidenceSignal_exact (f : Figures Extended) :
    confidenceSignal f = number (confidenceShare f) := by
  rw [confidenceSignal, ofInt_number, clamp_number, confidenceShare]
  push_cast
  rfl

end

theorem kept_onScale (x : ℚ) : 0 ≤ kept x ∧ kept x ≤ 100 := ⟨kept_nonneg x, kept_le x⟩

theorem unusedShare_bounds (f : Figures Extended) : 0 ≤ unusedShare f ∧ unusedShare f ≤ 100 := by
  unfold unusedShare
  split
  · exact ⟨le_rfl, by norm_num⟩
  · split
    · exact kept_onScale _
    · exact kept_onScale _
    · exact ⟨le_rfl, by norm_num⟩
    · exact ⟨by norm_num, le_rfl⟩

theorem impactShare_bounds (raw most : ℤ) :
    0 ≤ impactShare raw most ∧ impactShare raw most ≤ 100 := by
  unfold impactShare
  split
  · exact kept_onScale _
  · exact ⟨le_rfl, by norm_num⟩

theorem impactShare_self (h : 0 < most) : impactShare most most = 100 := by
  have nonzero : (most : ℚ) ≠ 0 := Int.cast_ne_zero.2 (ne_of_gt h)
  rw [impactShare, if_pos h, div_self nonzero, kept]
  norm_num

theorem impactShare_zero (most : ℤ) : impactShare 0 most = 0 := by
  unfold impactShare
  split
  · simp [kept]
  · rfl

theorem confidenceShare_bounds (f : Figures Extended) :
    0 ≤ confidenceShare f ∧ confidenceShare f ≤ 100 := kept_onScale _

theorem exactScore_bounds (s : Shares) (most : ℤ) (f : Figures Extended) :
    0 ≤ exactScore s most f ∧ exactScore s most f ≤ 100 := by
  obtain ⟨u₀, u₁⟩ := unusedShare_bounds f
  obtain ⟨i₀, i₁⟩ := impactShare_bounds (rawImpact f) most
  obtain ⟨c₀, c₁⟩ := confidenceShare_bounds f
  constructor
  · have usage := mul_nonneg u₀ s.usage_nonneg
    have impact := mul_nonneg i₀ s.impact_nonneg
    have confidence := mul_nonneg c₀ s.confidence_nonneg
    exact add_nonneg (add_nonneg usage impact) confidence
  · calc exactScore s most f
        ≤ 100 * s.usage + 100 * s.impact + 100 * s.confidence :=
          add_le_add (add_le_add (mul_le_mul_of_nonneg_right u₁ s.usage_nonneg)
            (mul_le_mul_of_nonneg_right i₁ s.impact_nonneg))
            (mul_le_mul_of_nonneg_right c₁ s.confidence_nonneg)
      _ = 100 * (s.usage + s.impact + s.confidence) := by ring
      _ = 100 := by rw [s.sum, mul_one]

section
variable [ByZero]

theorem candidate_exact (s : Shares) (most : ℤ) (f : Figures Extended) :
    candidate s.weights most f = exactCandidate s most f := by
  have usage : (usageSignal f).getD (ofInt 0) = number (unusedShare f) := by
    rw [usageSignal_exact]
    split
    · rename_i unknown
      rw [unusedShare, if_pos unknown]
      rfl
    · rfl
  have isNone : (usageSignal f).isNone = decide (f.totalExports ≤ 0) := by
    rw [usageSignal_exact]
    split
    · rename_i unknown
      rw [decide_eq_true unknown]
      rfl
    · rename_i known
      rw [decide_eq_false known]
      rfl
  have score : number (unusedShare f) * s.weights.usage + number (impactShare (rawImpact f) most) *
      s.weights.impact + number (confidenceShare f) * s.weights.confidence =
        number (exactScore s most f) := rfl
  unfold candidate exactCandidate weighted
  dsimp only
  rw [usage, isNone, impactSignal_exact, confidenceSignal_exact, score,
    roundTenth_number (exactScore_bounds s most f).1, roundTenth_number (unusedShare_bounds f).1,
    roundTenth_number (impactShare_bounds _ _).1, roundTenth_number (confidenceShare_bounds f).1]
  simp only [decide_eq_true_eq]

theorem lt_number_iff (x y : ℚ) : Arithmetic.lt (number x) (number y) = true ↔ x < y :=
  decide_eq_true_iff

theorem fit_iff {x : Extended} :
    (Arithmetic.isFinite x && !Arithmetic.lt x (ofInt 0)) = true ↔
      ∃ y : ℚ, 0 ≤ y ∧ x = number y := by
  have compared (y : ℚ) : (!Arithmetic.lt (number y) (ofInt 0)) = true ↔ 0 ≤ y := by
    rw [Bool.not_eq_true', Bool.eq_false_iff, ← not_lt]
    exact not_congr (lt_number_iff y 0)
  constructor
  · intro h
    obtain ⟨finite, fit⟩ := Bool.and_eq_true_iff.1 h
    cases x with
    | number y => exact ⟨y, (compared y).1 fit, rfl⟩
    | infinite => cases finite
    | undefined => cases finite
  · rintro ⟨y, hy, rfl⟩
    exact (compared y).2 hy

end

def defaultShares : Shares where
  usage := 1 / 2
  impact := 3 / 10
  confidence := 1 / 5
  usage_nonneg := by norm_num
  impact_nonneg := by norm_num
  confidence_nonneg := by norm_num
  sum := by norm_num

theorem defaultWeights_exact [ByZero] :
    (defaultWeights : Weights Extended) = defaultShares.weights := by
  have usage : (ratio 1 2 : Extended) = number (1 / 2) := ratio_number 1 (by decide)
  have impact : (ratio 3 10 : Extended) = number (3 / 10) := ratio_number 3 (by decide)
  have confidence : (ratio 1 5 : Extended) = number (1 / 5) := ratio_number 1 (by decide)
  rw [defaultWeights, usage, impact, confidence]
  rfl

/-- Numbers that are not negative are brought to the sum one by their own sum. -/
def Shares.ofSum (u i c : ℚ) (hu : 0 ≤ u) (hi : 0 ≤ i) (hc : 0 ≤ c) (some : 0 < u + i + c) :
    Shares where
  usage := u / (u + i + c)
  impact := i / (u + i + c)
  confidence := c / (u + i + c)
  usage_nonneg := div_nonneg hu some.le
  impact_nonneg := div_nonneg hi some.le
  confidence_nonneg := div_nonneg hc some.le
  sum := by rw [← add_div, ← add_div, div_self some.ne']

/-- Weights that can be brought to the sum one. -/
def accepts [ByZero] (w : Weights Extended) : Bool :=
  let isFit (x : Extended) := Arithmetic.isFinite x && !Arithmetic.lt x (ofInt 0)
  let total := w.usage + w.impact + w.confidence
  isFit w.usage && isFit w.impact && isFit w.confidence && Arithmetic.isFinite total &&
    Arithmetic.lt (ofInt 0) total

theorem accepts_iff [ByZero] {w : Weights Extended} : accepts w = true ↔
    ∃ u i c : ℚ, 0 ≤ u ∧ 0 ≤ i ∧ 0 ≤ c ∧ 0 < u + i + c ∧
      w = ⟨number u, number i, number c⟩ := by
  obtain ⟨usage, impact, confidence⟩ := w
  unfold accepts
  dsimp only
  rw [Bool.and_eq_true, Bool.and_eq_true, Bool.and_eq_true, Bool.and_eq_true, fit_iff, fit_iff,
    fit_iff]
  constructor
  · rintro ⟨⟨⟨⟨⟨u, hu, rfl⟩, ⟨i, hi, rfl⟩⟩, ⟨c, hc, rfl⟩⟩, _⟩, some⟩
    exact ⟨u, i, c, hu, hi, hc, (lt_number_iff 0 _).1 some, rfl⟩
  · rintro ⟨u, i, c, hu, hi, hc, some, he⟩
    cases he
    exact ⟨⟨⟨⟨⟨u, hu, rfl⟩, ⟨i, hi, rfl⟩⟩, ⟨c, hc, rfl⟩⟩, rfl⟩, (lt_number_iff 0 _).2 some⟩

/-- Any weights come to shares, by no division by zero. -/
theorem normalize_exact (w : Option (Weights Extended)) :
    ∃ s : Shares, ∀ [ByZero], normalize w = s.weights := by
  cases w with
  | none => exact ⟨defaultShares, defaultWeights_exact⟩
  | some w =>
    have split [ByZero] : normalize (some w) =
        let total := w.usage + w.impact + w.confidence
        if accepts w then ⟨w.usage / total, w.impact / total, w.confidence / total⟩
        else defaultWeights := rfl
    by_cases fit : ∃ u i c : ℚ, 0 ≤ u ∧ 0 ≤ i ∧ 0 ≤ c ∧ 0 < u + i + c ∧
        w = ⟨number u, number i, number c⟩
    · have accepted [ByZero] : accepts w = true := accepts_iff.2 fit
      obtain ⟨u, i, c, hu, hi, hc, some, rfl⟩ := fit
      refine ⟨.ofSum u i c hu hi hc some, ?_⟩
      intro _
      have divided (x : ℚ) : number x / number (u + i + c) = number (x / (u + i + c)) :=
        number_div x some.ne'
      rw [split, accepted]
      dsimp only
      rw [if_pos rfl, number_add, number_add, divided, divided, divided]
      rfl
    · refine ⟨defaultShares, ?_⟩
      intro _
      rw [split]
      dsimp only
      rw [if_neg (mt accepts_iff.1 fit), defaultWeights_exact]

theorem mostImpact_cons (f : Figures α) (fs : List (Figures α)) :
    mostImpact (f :: fs) = max (rawImpact f) (mostImpact fs) := by
  unfold mostImpact
  rw [List.foldl_eq_foldr, List.foldl_eq_foldr, List.map_cons, List.foldr_cons]

theorem rawImpact_le_mostImpact (h : f ∈ fs) : rawImpact f ≤ mostImpact fs := by
  induction fs with
  | nil => cases h
  | cons g fs ih =>
    rw [mostImpact_cons]
    rcases List.mem_cons.1 h with rfl | h
    · exact le_max_left _ _
    · exact le_max_of_le_right (ih h)

theorem exists_mostImpact (h : 0 < mostImpact fs) : ∃ f ∈ fs, rawImpact f = mostImpact fs := by
  induction fs with
  | nil => exact (lt_irrefl 0 h).elim
  | cons g fs ih =>
    rw [mostImpact_cons] at h ⊢
    rcases le_total (mostImpact fs) (rawImpact g) with le | le
    · exact ⟨g, List.mem_cons_self, (max_eq_left le).symm⟩
    · rw [max_eq_right le] at h ⊢
      obtain ⟨f, hf, he⟩ := ih h
      exact ⟨f, List.mem_cons_of_mem g hf, he⟩

/-- The removal scores of packages over exact numbers, where divisions by zero give what they are
said to give. -/
def exactCandidates (_ : ByZero) (w : Option (Weights Extended)) (fs : List (Figures Extended)) :
    List (RemovalCandidate Extended) :=
  candidates (normalize w) fs

theorem exactCandidates_eq (w : Option (Weights Extended)) : ∃ s : Shares, ∀ z fs,
    exactCandidates z w fs = fs.map (exactCandidate s (mostImpact fs)) := by
  obtain ⟨s, hs⟩ := normalize_exact w
  refine ⟨s, ?_⟩
  intro z fs
  rw [exactCandidates, hs]
  exact List.map_congr_left fun f _ => candidate_exact s (mostImpact fs) f

/-- Every package gets weights with the sum one, and a score and signals from 0 to 100. If anything
is wasted at all, some package has all of the impact, and what wastes nothing has none. What a
division by zero gives is never asked for. -/
theorem exactCandidates_on_scale (z : ByZero) (w : Option (Weights Extended))
    (fs : List (Figures Extended)) :
    List.Forall₂ (fun f c => (∃ s : Shares, c.weights = s.weights) ∧ c.score.OnScale ∧
      c.usage.OnScale ∧ c.impact.OnScale ∧ c.confidence.OnScale ∧
      ((∃ g ∈ fs, 0 < rawImpact g) → rawImpact f = 0 → c.impact = number 0))
      fs (exactCandidates z w fs) ∧
    ((∃ g ∈ fs, 0 < rawImpact g) → ∃ c ∈ exactCandidates z w fs, c.impact = number 100) ∧
    ∀ z', exactCandidates z' w fs = exactCandidates z w fs := by
  obtain ⟨s, hs⟩ := exactCandidates_eq w
  have scale {x : ℚ} (h : 0 ≤ x ∧ x ≤ 100) : (number (tenths x)).OnScale :=
    ⟨_, tenths_nonneg h.1, tenths_le h.2, rfl⟩
  rw [hs]
  refine ⟨?_, ?_, ?_⟩
  · rw [List.forall₂_map_right_iff, List.forall₂_same]
    intro f _
    refine ⟨⟨s, rfl⟩, scale (exactScore_bounds s _ f), scale (unusedShare_bounds f),
      scale (impactShare_bounds _ _), scale (confidenceShare_bounds f), ?_⟩
    intro _ none
    dsimp only [exactCandidate]
    rw [none, impactShare_zero, ← Int.cast_zero, tenths_intCast]
  · rintro ⟨g, hg, some⟩
    obtain ⟨f, hf, he⟩ := exists_mostImpact (lt_of_lt_of_le some (rawImpact_le_mostImpact hg))
    refine ⟨_, List.mem_map_of_mem hf, ?_⟩
    have positive : 0 < mostImpact fs := lt_of_lt_of_le some (rawImpact_le_mostImpact hg)
    have whole := tenths_intCast 100
    push_cast at whole
    dsimp only [exactCandidate]
    rw [he, impactShare_self positive, whole]
  · intro z'
    rw [hs]

theorem exactCandidates_on_scale_two :
    let big : Figures Extended := ⟨"big", 0, 40, number 0, false, []⟩
    let small : Figures Extended := ⟨"small", 5, 5, undefined, true, ["high", "HIGH", "low"]⟩
    (∃ g ∈ [big, small], 0 < rawImpact g) ∧
      ∃ c ∈ exactCandidates ⟨fun _ => undefined⟩ (some ⟨undefined, number 1, infinite false⟩)
        [big, small], c.impact = number 100 := by
  intro big small
  have wasted : ∃ g ∈ [big, small], 0 < rawImpact g := ⟨big, List.mem_cons_self, by decide⟩
  exact ⟨wasted, (exactCandidates_on_scale ⟨fun _ => undefined⟩
    (some ⟨undefined, number 1, infinite false⟩) [big, small]).2.1 wasted⟩

end PackageUsage.Score
