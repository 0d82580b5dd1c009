import PackageUsage.Proofs.ModeAgreement
import PackageUsage.Proofs.ScoreDoubles
import PackageUsage.Proofs.SortedRuns
import PackageUsage.Proofs.SortedText

namespace PackageUsage
set_option autoImplicit true

namespace Score

open Double

/-- A package is not ranked before another one if its score is no higher, and its name does not come
first if the scores are the same. -/
theorem wasteLt_eq_false_iff (hx : IsNumber x) (hy : IsNumber y) :
    wasteLt (t, some y) (s, some x) = false ↔ Double.rank (read y) ≤ Double.rank (read x) ∧
      (Double.rank (read y) = Double.rank (read x) → Text.le s t = true) := by
  change (if decide (y ≤ x) && decide (x ≤ y) then Text.lt t s else decide (x < y)) = false ↔ _
  simp only [le_iff_rank hx hy, le_iff_rank hy hx, lt_iff_rank hx hy, Bool.and_eq_true,
    decide_eq_true_eq]
  split
  · rename_i same
    rw [Text.lt, Bool.not_eq_false']
    exact ⟨fun first => ⟨same.1, fun _ => first⟩, fun h => h.2 (le_antisymm same.1 same.2)⟩
  · rename_i differ
    rw [decide_eq_false_iff_not, not_lt]
    exact ⟨fun le => ⟨le, fun same => absurd ⟨le, same.ge⟩ differ⟩, fun h => h.1⟩

theorem mostImpact_perm {fs gs : List (Figures α)} (h : fs.Perm gs) :
    mostImpact fs = mostImpact gs :=
  (h.map rawImpact).foldl_eq 0

end Score

namespace DependencyReport

open Double

/-- A report with a score that is a number. -/
def IsScored (r : DependencyReport) : Prop := ∃ c, r.removal = some c ∧ IsNumber c.score

def wasteKey (r : DependencyReport) : String × Option Float := (r.name, r.removal.map (·.score))

def wasteLt (r r' : DependencyReport) : Bool := Score.wasteLt (wasteKey r) (wasteKey r')

theorem wasteLt_eq_false_iff (h : r.removal = some c) (h' : r'.removal = some c')
    (hc : IsNumber c.score) (hc' : IsNumber c'.score) :
    wasteLt r' r = false ↔ Double.rank (read c'.score) ≤ Double.rank (read c.score) ∧
      (Double.rank (read c'.score) = Double.rank (read c.score) →
        Text.le r.name r'.name = true) := by
  unfold wasteLt wasteKey
  rw [h, h']
  exact Score.wasteLt_eq_false_iff hc hc'

theorem isOrder_wasteLt : Sorting.IsOrder wasteLt IsScored where
  asymm := by
    rintro a b ⟨c, ha, hc⟩ ⟨d, hb, hd⟩ before
    have above : ¬ wasteLt a b = false := ne_of_eq_of_ne before Bool.noConfusion
    rw [wasteLt_eq_false_iff hb ha hd hc] at above
    rw [wasteLt_eq_false_iff ha hb hc hd]
    constructor
    · by_contra higher
      rw [not_le] at higher
      exact above ⟨higher.le, fun same => absurd same higher.ne⟩
    · intro same
      have total := Text.le_total a.name b.name
      rw [Bool.or_eq_true] at total
      exact total.resolve_right fun last => above ⟨same.ge, fun _ => last⟩
  trans := by
    rintro a b e ⟨c, ha, hc⟩ ⟨d, hb, hd⟩ ⟨f, he, hf⟩ h k
    obtain ⟨le, first⟩ := (wasteLt_eq_false_iff ha hb hc hd).1 h
    obtain ⟨le', first'⟩ := (wasteLt_eq_false_iff hb he hd hf).1 k
    rw [wasteLt_eq_false_iff ha he hc hf]
    refine ⟨le'.trans le, fun same => ?_⟩
    have middle := le_antisymm le (same ▸ le')
    exact Text.le_trans (first middle) (first' (same.trans middle.symm))

/-- A report is ranked before another one: it has a higher score, or the same and a name that comes
first. -/
def Outranks (r r' : DependencyReport) : Prop :=
  ∃ c c', r.removal = some c ∧ r'.removal = some c' ∧
    (c'.score < c.score ∨
      c'.score ≤ c.score ∧ c.score ≤ c'.score ∧ Text.lt r.name r'.name = true)

theorem outranks_of_wasteLt (hr : r.IsScored) (hr' : r'.IsScored) (differ : r.name ≠ r'.name)
    (h : wasteLt r' r = false) : Outranks r r' := by
  obtain ⟨c, hc, number⟩ := hr
  obtain ⟨c', hc', number'⟩ := hr'
  refine ⟨c, c', hc, hc', ?_⟩
  rw [lt_iff_rank number' number, le_iff_rank number' number, le_iff_rank number number']
  obtain ⟨le, first⟩ := (wasteLt_eq_false_iff hc hc' number number').1 h
  rcases le.lt_or_eq with lower | same
  · exact .inl lower
  · exact .inr ⟨same.le, same.ge, Text.lt_of_le_of_ne (first same) differ⟩

theorem name_eq_of_wasteLt (hr : r.IsScored) (hr' : r'.IsScored) (h : wasteLt r r' = false)
    (h' : wasteLt r' r = false) : r.name = r'.name := by
  obtain ⟨c, hc, number⟩ := hr
  obtain ⟨c', hc', number'⟩ := hr'
  obtain ⟨le, first⟩ := (wasteLt_eq_false_iff hc' hc number' number).1 h
  obtain ⟨le', first'⟩ := (wasteLt_eq_false_iff hc hc' number number').1 h'
  have same := le_antisymm le le'
  exact Text.le_antisymm (first' same.symm) (first same)

/-- A report with its score among reports of which the most wasteful one leaves `most` exports
unused. -/
def scoredBy (w : Weights Float) (most : ℤ) (r : DependencyReport) : DependencyReport :=
  { r with removal := some (Score.candidate w most r.figures) }

theorem score_eq_map (w : Weights Float) (rs : List DependencyReport) :
    score w rs = rs.map (scoredBy w (Score.mostImpact (rs.map figures))) := by
  unfold score Score.candidates
  rw [List.map_map, List.zipWith_map_right, List.zipWith_self]
  rfl

theorem score_perm {rs rs' : List DependencyReport} (w : Weights Float) (h : rs'.Perm rs) :
    (score w rs').Perm (score w rs) := by
  rw [score_eq_map, score_eq_map, Score.mostImpact_perm (h.map figures)]
  exact h.map _

theorem isScored_of_mem_score (h : r ∈ score w rs) : r.IsScored := by
  rw [score_eq_map] at h
  obtain ⟨r, _, rfl⟩ := List.mem_map.1 h
  exact ⟨_, rfl, isNumber_roundTenth _⟩

theorem names_score (w : Weights Float) (rs : List DependencyReport) :
    (score w rs).map (·.name) = rs.map (·.name) := by
  rw [score_eq_map, List.map_map]
  rfl

/-- A ranking by weights with the sum one: all of the reports, each with its score, in the order of
the scores. -/
structure IsRanking (w : Weights Float) (rs ranked : List DependencyReport) : Prop where
  perm : (ranked.map unscored).Perm (rs.map unscored)
  ordered : ranked.Pairwise Outranks
  attached : ∀ r ∈ ranked,
    r.removal = some (Score.candidate w (Score.mostImpact (rs.map figures)) r.figures)

theorem isRanking_rank (w : Weights Float) {rs : List DependencyReport}
    (names : (rs.map (·.name)).Nodup) : IsRanking w rs (rank (score w rs)) := by
  have mem {r} (h : r ∈ rank (score w rs)) : r ∈ score w rs := (rank_perm _).mem_iff.1 h
  have distinct : ((rank (score w rs)).map (·.name)).Nodup := by
    rw [((rank_perm (score w rs)).map _).nodup_iff, names_score]
    exact names
  have sorted : Sorting.Sorted wasteLt (rank (score w rs)) :=
    Sorting.sorted_sort isOrder_wasteLt fun r => isScored_of_mem_score
  refine ⟨?_, ?_, ?_⟩
  · rw [← map_unscored_score w rs]
    exact (rank_perm _).map _
  · have both := List.Pairwise.and sorted (List.pairwise_map.1 distinct)
    refine both.imp_of_mem ?_
    intro a b ha hb h
    exact outranks_of_wasteLt (isScored_of_mem_score (mem ha)) (isScored_of_mem_score (mem hb))
      h.2 h.1
  · intro r hr
    have scored := mem hr
    rw [score_eq_map] at scored
    obtain ⟨r, _, rfl⟩ := List.mem_map.1 scored
    rfl

theorem rank_score_perm (w : Weights Float) {rs rs' : List DependencyReport}
    (names : (rs.map (·.name)).Nodup) (h : rs'.Perm rs) :
    rank (score w rs') = rank (score w rs) := by
  have distinct : ((score w rs).map (·.name)).Nodup := by
    rw [names_score]
    exact names
  refine (Sorting.sort_congr isOrder_wasteLt (fun r => isScored_of_mem_score)
    (score_perm w h).symm ?_).symm
  intro a ha b hb before behind
  have name := name_eq_of_wasteLt (isScored_of_mem_score ha) (isScored_of_mem_score hb) before
    behind
  exact List.inj_on_of_nodup_map distinct ha hb name

theorem all_isRoundable (w : Option (Weights Float)) (rs : List DependencyReport) :
    ((rs.map figures).all fun f => Score.isComputable f &&
      Score.isRoundable (Score.normalize w) (Score.mostImpact (rs.map figures)) f) =
        rs.all fun r => Score.isComputable r.figures := by
  simp only [Score.isRoundable_normalize, Bool.and_true, List.all_map, Function.comp_def]

theorem byWaste?_eq (w : Option (Weights Float)) (rs : List DependencyReport) :
    byWaste? w rs = if rs.all (Score.isComputable ·.figures) then
      some (rank (score (Score.normalize w) rs)) else none := by
  unfold byWaste?
  dsimp only
  rw [all_isRoundable]

end DependencyReport

namespace Analysis

open DependencyReport (IsRanking byWaste? figures)

theorem partOf_error (h : Settings.partOf total a = .error e) : e = .sumTooLarge := by
  unfold Settings.partOf at h
  split at h
  · cases h
  · cases h
    rfl

/-- Weights from settings come to weights with the sum one, unless their sum is too large. -/
theorem shares_error {s : Settings} (h : s.shares = .error e) : e = .sumTooLarge := by
  unfold Settings.shares at h
  rcases bind_error h with sum | ⟨total, _, h⟩
  · unfold Settings.weightSum at sum
    split at sum
    · cases sum
    · cases sum
      rfl
  · split at h
    · cases h
      rfl
    · split at h
      · rcases bind_error h with usage | ⟨u, _, h⟩
        · exact partOf_error usage
        · rcases bind_error h with impact | ⟨i, _, h⟩
          · exact partOf_error impact
          · rcases bind_error h with confidence | ⟨c, _, h⟩
            · exact partOf_error confidence
            · cases h
      · cases h

theorem firstOf_natCast (k : ℕ) (xs : List α) : firstOf (k : ℤ) xs = xs.take k := by
  unfold firstOf
  rw [if_neg (by omega), Int.toNat_natCast]

theorem map_bind_congr {x : Except ε α} {f f' : α → Except ε β} {g g' : β → γ} {g'' : γ → γ}
    (h : ∀ a, (f a).map g = ((f' a).map g').map g'') :
    (x >>= f).map g = ((x >>= f').map g').map g'' := by
  cases x with
  | error e => rfl
  | ok a => exact h a

/-- Fewer of the most wasteful packages are the first of more of them. -/
theorem mostWasteful_take (a : Subject) (q : Request) {k k' : ℕ} (h : k ≤ k') :
    (mostWasteful a { q with top := k }).map (·.1) =
      ((mostWasteful a { q with top := k' }).map (·.1)).map (·.take k) := by
  unfold mostWasteful
  refine map_bind_congr fun inventory => map_bind_congr fun found => map_bind_congr fun scores => ?_
  change Except.ok (firstOf (k : ℤ) (DependencyReport.rank scores)) =
    .ok ((firstOf (k' : ℤ) (DependencyReport.rank scores)).take k)
  rw [firstOf_natCast, firstOf_natCast, List.take_take, min_eq_left h]

/-- How reports are ranked by weights that are doubles. There is a ranking if the figures can be
computed with, and the order in which the reports are given does not matter. -/
structure RanksByWeights (w : Option (Weights Float)) (rs : List DependencyReport) : Prop where
  returns : (byWaste? w rs).isSome = true ↔ ∀ r ∈ rs, Score.isComputable (figures r) = true
  ranking : ∀ ranked, byWaste? w rs = some ranked → IsRanking (Score.normalize w) rs ranked
  canonical : ∀ rs', rs'.Perm rs → byWaste? w rs' = byWaste? w rs

/-- How reports are ranked by settings, with weights of any kind. There is a ranking if the weights
give shares and the figures can be computed with. -/
structure RanksBySettings (s : Settings) (rs : List DependencyReport) : Prop where
  returns : (∃ scores, scored s rs = .ok scores) ↔ ∀ r ∈ rs, Weighs s r
  fails : ∀ e, scored s rs = .error e →
    e = .setting .sumTooLarge ∧ s.shares = .error .sumTooLarge ∨
      e = .figureTooLarge ∧ ∃ r ∈ rs, Score.isComputable (figures r) = false
  ranking : ∀ scores, scored s rs = .ok scores →
    ∃ w, (rs ≠ [] → s.shares = .ok w) ∧ IsRanking w rs (DependencyReport.rank scores)
  canonical : ∀ rs', rs'.Perm rs →
    (scored s rs').map DependencyReport.rank = (scored s rs).map DependencyReport.rank

theorem ranksByWeights {rs : List DependencyReport} (names : (rs.map (·.name)).Nodup)
    (w : Option (Weights Float)) : RanksByWeights w rs := by
  refine ⟨?_, ?_, ?_⟩
  · rw [DependencyReport.byWaste?_eq, ← List.all_eq_true]
    cases rs.all fun r => Score.isComputable r.figures with
    | true => simp
    | false => simp
  · intro ranked h
    rw [DependencyReport.byWaste?_eq] at h
    split at h
    · cases h
      exact DependencyReport.isRanking_rank _ names
    · cases h
  · intro rs' perm
    rw [DependencyReport.byWaste?_eq, DependencyReport.byWaste?_eq, perm.all_eq,
      DependencyReport.rank_score_perm _ names perm]

theorem scored_returns_iff (s : Settings) (rs : List DependencyReport) :
    (∃ scores, scored s rs = .ok scores) ↔ ∀ r ∈ rs, Weighs s r := by
  constructor
  · rintro ⟨scores, h⟩ r hr
    rcases scored_eq_ok h with ⟨rfl, _⟩ | ⟨w, hw, computable, _⟩
    · cases hr
    · exact ⟨⟨w, hw⟩, computable r hr⟩
  · intro weighed
    cases hs : s.shares with
    | ok w =>
      have all : rs.all (Score.isComputable ·.figures) = true :=
        List.all_eq_true.2 fun r hr => (weighed r hr).2
      rw [scored_of_ok hs, if_pos all]
      exact ⟨_, rfl⟩
    | error e =>
      have empty : rs = [] := List.eq_nil_iff_forall_not_mem.2 fun r hr => by
        obtain ⟨w, hw⟩ := (weighed r hr).1
        cases hs.symm.trans hw
      rw [scored_of_error hs, empty]
      exact ⟨_, rfl⟩

theorem scored_fails {s : Settings} {rs : List DependencyReport} (h : scored s rs = .error e) :
    e = .setting .sumTooLarge ∧ s.shares = .error .sumTooLarge ∨
      e = .figureTooLarge ∧ ∃ r ∈ rs, Score.isComputable (figures r) = false := by
  cases hs : s.shares with
  | ok w =>
    rw [scored_of_ok hs] at h
    split at h
    · cases h
    · rename_i refused
      cases h
      rw [Bool.not_eq_true, List.all_eq_false] at refused
      obtain ⟨r, hr, large⟩ := refused
      exact .inr ⟨rfl, r, hr, Bool.not_eq_true _ ▸ large⟩
  | error p =>
    rw [scored_of_error hs] at h
    obtain rfl := shares_error hs
    split at h
    · cases h
    · cases h
      exact .inl ⟨rfl, rfl⟩

theorem scored_perm {rs rs' : List DependencyReport} (names : (rs.map (·.name)).Nodup)
    (s : Settings) (perm : rs'.Perm rs) :
    (scored s rs').map DependencyReport.rank = (scored s rs).map DependencyReport.rank := by
  cases hs : s.shares with
  | ok w =>
    rw [scored_of_ok hs, scored_of_ok hs, perm.all_eq]
    split
    · exact congrArg Except.ok (DependencyReport.rank_score_perm w names perm)
    · rfl
  | error e => rw [scored_of_error hs, scored_of_error hs, perm.isEmpty_eq]

theorem ranksBySettings {rs : List DependencyReport} (names : (rs.map (·.name)).Nodup)
    (s : Settings) : RanksBySettings s rs where
  returns := scored_returns_iff s rs
  fails := fun _ => scored_fails
  ranking := by
    intro scores h
    rcases scored_eq_ok h with ⟨rfl, rfl⟩ | ⟨w, hw, _, rfl⟩
    · exact ⟨Score.defaultWeights, absurd rfl, DependencyReport.isRanking_rank _ names⟩
    · exact ⟨w, fun _ => hw, DependencyReport.isRanking_rank w names⟩
  canonical := fun _ => scored_perm names s

/-- Reports with distinct names have one ranking by given weights, whatever the weights are and in
whatever order the reports are given, and asking for fewer of the most wasteful packages gives the
first of more. -/
theorem ranking_canonical {rs : List DependencyReport} (names : (rs.map (·.name)).Nodup) :
    (∀ w, RanksByWeights w rs) ∧ (∀ s, RanksBySettings s rs) ∧
      ∀ (a : Subject) (q : Request) (k k' : ℕ), k ≤ k' →
        (mostWasteful a { q with top := k }).map (·.1) =
          ((mostWasteful a { q with top := k' }).map (·.1)).map (·.take k) :=
  ⟨ranksByWeights names, ranksBySettings names, fun a q _ _ => mostWasteful_take a q⟩

/-- A report on a package with some exports of which none is used. -/
def unusedReport (name : String) (exports : ℤ) : DependencyReport :=
  { name, usedExports := 0, totalExports := exports, usedPercent := 0.0 }

theorem ranking_canonical_two :
    let w : Option (Weights Float) := some ⟨0.0 / 0.0, 1.0, 1.0⟩
    let rs := [unusedReport "a" 3, unusedReport "b" 5]
    (rs.map (·.name)).Nodup ∧ (byWaste? w rs).isSome = true ∧
      byWaste? w rs.reverse = byWaste? w rs := by
  intro w rs
  have names : (rs.map (·.name)).Nodup := by decide
  have computable : ∀ r ∈ rs, Score.isComputable (figures r) = true := by
    simp only [rs, List.forall_mem_cons]
    exact ⟨rfl, rfl, List.forall_mem_nil _⟩
  have ranks := (ranking_canonical names).1 w
  exact ⟨names, ranks.returns.2 computable, ranks.canonical _ (List.reverse_perm rs)⟩

theorem ofInt_natCast {n k : ℕ} (some : 0 < n) (bound : n < 10 ^ k) (bounded : k ≤ 400) :
    Decimal.ofInt n = Float.ofScientific n false 0 := by
  have nonneg : ¬ (n : ℤ) < 0 := by omega
  have digits : (toString n).length ≤ k := by
    rcases Nat.eq_zero_or_pos k with rfl | pos
    · omega
    · exact (Nat.length_repr_le_iff pos).2 bound
  unfold Decimal.ofInt Decimal.nearest
  dsimp only
  rw [decide_eq_false nonneg, if_neg Bool.false_ne_true, Int.natAbs_natCast,
    if_neg (by omega), if_neg (by omega)]
  rfl

theorem double?_whole (n : ℤ) : (Amount.whole n).double? =
    if (Decimal.ofInt n).isFinite = true then some (Decimal.ofInt n) else none := by
  change (some (Decimal.ofInt n)).filter Float.isFinite = _
  rw [Option.filter_some]

theorem weightOf_whole {t : Settings.Table} {n : ℕ} (h : t.lookup s.key = some (.whole n))
    (finite : (Decimal.ofInt n).isFinite = true) : Settings.weightOf t s d = .ok (.whole n) := by
  have accepted : (Amount.whole n).below 0 = false := decide_eq_false (Int.natCast_nonneg n).not_gt
  have amount : Settings.amountOf t s d = .ok (.whole n) := by
    unfold Settings.amountOf
    rw [h]
    rfl
  unfold Settings.weightOf
  rw [amount]
  dsimp only [bind, Except.bind]
  rw [accepted, double?_whole, if_pos finite]
  dsimp only
  rw [finite]
  rfl

/-- A table that gives whole numbers for the weights. -/
def wholeWeights (u i c : ℕ) : Settings.Table :=
  [(Setting.usageWeight.key, .whole u), (Setting.impactWeight.key, .whole i),
    (Setting.confidenceWeight.key, .whole c)]

theorem ofTable_wholeWeights {u i c : ℕ} (some : 0 < u) (hu : (Decimal.ofInt u).isFinite = true)
    (hi : (Decimal.ofInt i).isFinite = true) (hc : (Decimal.ofInt c).isFinite = true) :
    Settings.ofTable (wholeWeights u i c) =
      .ok { weights := ⟨.whole u, .whole i, .whole c⟩ } := by
  unfold Settings.ofTable wholeWeights
  dsimp only
  rw [weightOf_whole rfl hu, weightOf_whole rfl hi, weightOf_whole rfl hc]
  have positive : ¬ (u + i + c : ℤ) ≤ 0 := by omega
  have total : (Amount.whole (u + i + c)).atMost 0 = false := decide_eq_false positive
  change (Settings.ensure (!(Amount.whole (u + i + c)).atMost 0) .someWeight >>= fun _ =>
    Except.ok { weights := ⟨.whole u, .whole i, .whole c⟩ : Settings }) = _
  rw [total]
  rfl

/-- Whole numbers are added as they are, also where no double comes near the sum. -/
theorem scored_of_large {u i c : ℕ} (infinite : (Decimal.ofInt (u + i + c : ℕ)).isFinite = false)
    (r : DependencyReport) (rs : List DependencyReport) :
    scored { weights := ⟨.whole u, .whole i, .whole c⟩ } (r :: rs) =
      .error (.setting .sumTooLarge) := by
  rw [Nat.cast_add, Nat.cast_add] at infinite
  have nearest : (Amount.whole (u + i + c)).double? = none := by
    rw [double?_whole, infinite, if_neg Bool.false_ne_true]
  have shares : ({ weights := ⟨.whole u, .whole i, .whole c⟩ } : Settings).shares =
      .error .sumTooLarge := by
    have sum : Settings.weightSum ⟨.whole u, .whole i, .whole c⟩ =
        .ok (.whole (u + i + c)) := rfl
    unfold Settings.shares
    dsimp only
    rw [sum]
    dsimp only [bind, Except.bind]
    rw [nearest]
    rfl
  rw [scored_of_error shares]
  rfl

/-- Settings take some whole weights that rank nothing. -/
def Refused (u i c : ℕ) (rs : List DependencyReport) : Prop :=
  ∃ s, Settings.ofTable (wholeWeights u i c) = .ok s ∧ (rs.map (·.name)).Nodup ∧
    scored s rs = .error (.setting .sumTooLarge)

theorem refused_of_large {u i c : ℕ} (some : 0 < u) (hu : (Decimal.ofInt u).isFinite = true)
    (hi : (Decimal.ofInt i).isFinite = true) (hc : (Decimal.ofInt c).isFinite = true)
    (infinite : (Decimal.ofInt (u + i + c : ℕ)).isFinite = false) :
    Refused u i c [unusedReport "a" 3, unusedReport "b" 5] :=
  ⟨_, ofTable_wholeWeights some hu hi hc, by decide, scored_of_large infinite _ _⟩

/-- A half, three tenths and a fifth of a sum that no double comes near. Each of them is accepted as
a weight. -/
theorem wholeWeights_not_ranked : Refused (15 * 10 ^ 307) (9 * 10 ^ 307) (6 * 10 ^ 307)
    [unusedReport "a" 3, unusedReport "b" 5] := by
  have known {n : ℕ} (some : 0 < n) (bound : n < 10 ^ 310) :
      (Decimal.ofInt n).isFinite = (Float.ofScientific n false 0).isFinite :=
    congrArg Float.isFinite (ofInt_natCast some bound (by decide))
  apply refused_of_large (by decide +kernel)
  · rw [known (by decide +kernel) (by decide +kernel)]
    decide +kernel
  · rw [known (by decide +kernel) (by decide +kernel)]
    decide +kernel
  · rw [known (by decide +kernel) (by decide +kernel)]
    decide +kernel
  · rw [known (by decide +kernel) (by decide +kernel)]
    decide +kernel

end Analysis
end PackageUsage
