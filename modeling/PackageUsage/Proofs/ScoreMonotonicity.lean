import PackageUsage.Proofs.ScoreScale

namespace PackageUsage.Score
set_option autoImplicit true

open Extended Arithmetic

/-- The figures of a package of which another number of exports is used. -/
def withUsed (f : Figures Extended) (used : ℤ) : Figures Extended :=
  { f with usedExports := used, usedPercent := number (used / f.totalExports * 100) }

theorem unusedShare_of_percent (known : 0 < f.totalExports)
    (h : f.usedPercent = number (f.usedExports / f.totalExports * 100)) :
    unusedShare f = kept (100 - f.usedExports / f.totalExports * 100) := by
  rw [unusedShare, if_neg (not_le.2 known), h]
  dsimp only
  rw [ite_self]

theorem unusedShare_withUsed (known : 0 < f.totalExports)
    (h : f.usedPercent = number (f.usedExports / f.totalExports * 100))
    (less : used ≤ f.usedExports) : unusedShare f ≤ unusedShare (withUsed f used) := by
  have total : (0 : ℚ) < f.totalExports := Int.cast_pos.2 known
  have shares : (used : ℚ) / f.totalExports ≤ f.usedExports / f.totalExports :=
    div_le_div_of_nonneg_right (Int.cast_le.2 less) total.le
  have after : unusedShare (withUsed f used) = kept (100 - used / f.totalExports * 100) :=
    unusedShare_of_percent known rfl
  rw [unusedShare_of_percent known h, after]
  exact kept_mono (by linarith)

theorem rawImpact_nonneg (f : Figures α) : 0 ≤ rawImpact f := by
  unfold rawImpact
  split
  · exact le_rfl
  · exact le_max_left _ _

theorem rawImpact_withUsed (less : used ≤ f.usedExports) :
    rawImpact f ≤ rawImpact (withUsed f used) := by
  change (if f.totalExports ≤ 0 then 0 else max 0 (f.totalExports - f.usedExports)) ≤
    if f.totalExports ≤ 0 then 0 else max 0 (f.totalExports - used)
  split
  · exact le_rfl
  · exact max_le_max_left 0 (by omega)

theorem impactShare_le_of_div {most most' : ℤ} (pos : 0 < most) (pos' : 0 < most')
    (h : raw * most' ≤ raw' * most) : impactShare raw most ≤ impactShare raw' most' := by
  have p : (0 : ℚ) < most := Int.cast_pos.2 pos
  have p' : (0 : ℚ) < most' := Int.cast_pos.2 pos'
  have shares : (raw : ℚ) / most ≤ raw' / most' := by
    rw [div_le_div_iff₀ p p']
    exact_mod_cast h
  rw [impactShare, impactShare, if_pos pos, if_pos pos']
  exact kept_mono (mul_le_mul_of_nonneg_right shares (by norm_num))

/-- A package that wastes more has no less of the impact, even if it is the most wasteful one. -/
theorem impactShare_own {raw raw' rest : ℤ} (nonneg : 0 ≤ raw) (more : raw ≤ raw') :
    impactShare raw (max raw rest) ≤ impactShare raw' (max raw' rest) := by
  by_cases pos : 0 < max raw rest
  · have pos' : 0 < max raw' rest := lt_of_lt_of_le pos (max_le_max_right rest more)
    apply impactShare_le_of_div pos pos'
    rcases le_total raw' rest with h | h
    · rw [max_eq_right h, max_eq_right (more.trans h)]
      exact mul_le_mul_of_nonneg_right more (nonneg.trans (more.trans h))
    · rw [max_eq_left h, mul_comm]
      exact mul_le_mul_of_nonneg_left (le_max_left raw rest) (nonneg.trans more)
  · rw [impactShare, if_neg pos]
    exact (impactShare_bounds _ _).1

/-- The more the most wasteful package wastes, the less is the impact of another one. -/
theorem impactShare_other {raw most most' : ℤ} (nonneg : 0 ≤ raw) (le : raw ≤ most)
    (more : most ≤ most') : impactShare raw most' ≤ impactShare raw most := by
  rcases nonneg.eq_or_lt with rfl | pos
  · rw [impactShare_zero, impactShare_zero]
  · have p : 0 < most := pos.trans_le le
    exact impactShare_le_of_div (p.trans_le more) p (mul_le_mul_of_nonneg_left more nonneg)

theorem mostImpact_set {fs : List (Figures α)} (h : i < fs.length) :
    ∃ rest, ∀ f, mostImpact (fs.set i f) = max (rawImpact f) rest := by
  induction fs generalizing i with
  | nil => cases h
  | cons g fs ih =>
    cases i with
    | zero => exact ⟨mostImpact fs, fun f => mostImpact_cons f fs⟩
    | succ i =>
      obtain ⟨rest, hr⟩ := ih (Nat.lt_of_succ_lt_succ h)
      refine ⟨max (rawImpact g) rest, ?_⟩
      intro f
      rw [List.set_cons_succ, mostImpact_cons, hr, max_left_comm]

theorem exactScore_mono {s : Shares} (usage : unusedShare f ≤ unusedShare g)
    (impact : impactShare (rawImpact f) most ≤ impactShare (rawImpact g) most')
    (confidence : confidenceShare f ≤ confidenceShare g) :
    exactScore s most f ≤ exactScore s most' g :=
  add_le_add (add_le_add (mul_le_mul_of_nonneg_right usage s.usage_nonneg)
    (mul_le_mul_of_nonneg_right impact s.impact_nonneg))
    (mul_le_mul_of_nonneg_right confidence s.confidence_nonneg)

theorem number_le (h : x ≤ y) : (number x).le (number y) = true := decide_eq_true h

/-- If less of a package is used, its score does not fall, and the impact of no other one grows. -/
theorem exactCandidates_withUsed (z : ByZero) (w : Option (Weights Extended))
    {fs : List (Figures Extended)} {f : Figures Extended} {i : ℕ} {used : ℤ}
    (found : fs[i]? = some f) (known : 0 < f.totalExports)
    (percent : f.usedPercent = number (f.usedExports / f.totalExports * 100))
    (less : used ≤ f.usedExports) :
    (∃ c c', (exactCandidates z w fs)[i]? = some c ∧
      (exactCandidates z w (fs.set i (withUsed f used)))[i]? = some c' ∧
      c.score.le c'.score = true) ∧
    ∀ j ≠ i, j < fs.length → ∃ c c', (exactCandidates z w fs)[j]? = some c ∧
      (exactCandidates z w (fs.set i (withUsed f used)))[j]? = some c' ∧
      c'.impact.le c.impact = true := by
  obtain ⟨s, exact⟩ := exactCandidates_eq w
  obtain ⟨inside, he⟩ := List.getElem?_eq_some_iff.1 found
  obtain ⟨rest, hr⟩ := mostImpact_set inside
  have before : mostImpact fs = max (rawImpact f) rest := by
    rw [← hr, ← he, List.set_getElem_self]
  have more := rawImpact_withUsed less
  rw [exact, exact, before, hr]
  constructor
  · refine ⟨_, _, by rw [List.getElem?_map, found]; rfl,
      by rw [List.getElem?_map, List.getElem?_set_self inside]; rfl, number_le (tenths_mono ?_)⟩
    exact exactScore_mono (unusedShare_withUsed known percent less)
      (impactShare_own (rawImpact_nonneg f) more) le_rfl
  · intro j other hj
    have same : (fs.set i (withUsed f used))[j]? = some fs[j] := by
      rw [List.getElem?_set_ne other.symm, List.getElem?_eq_getElem hj]
    refine ⟨_, _, by rw [List.getElem?_map, List.getElem?_eq_getElem hj]; rfl,
      by rw [List.getElem?_map, same]; rfl, number_le (tenths_mono ?_)⟩
    have below := rawImpact_le_mostImpact (List.getElem_mem hj)
    rw [before] at below
    exact impactShare_other (rawImpact_nonneg _) below (max_le_max_right rest more)

theorem exactCandidates_withUsed_quarter :
    let f : Figures Extended := ⟨"big", 10, 40, number ((10 : ℤ) / (40 : ℤ) * 100), false, []⟩
    let g : Figures Extended := ⟨"small", 5, 15, number ((5 : ℤ) / (15 : ℤ) * 100), true, ["high"]⟩
    [f, g][0]? = some f ∧ 0 < f.totalExports ∧ (5 : ℤ) ≤ f.usedExports ∧
      ∃ c c', (exactCandidates ⟨fun _ => undefined⟩ none [f, g])[0]? = some c ∧
        (exactCandidates ⟨fun _ => undefined⟩ none [withUsed f 5, g])[0]? = some c' ∧
        c.score.le c'.score = true := by
  intro f g
  have known : 0 < f.totalExports := by decide
  have less : (5 : ℤ) ≤ f.usedExports := by decide
  have found : [f, g][0]? = some f := rfl
  exact ⟨found, known, less,
    (exactCandidates_withUsed ⟨fun _ => undefined⟩ none found known rfl less).1⟩

end PackageUsage.Score
