import PackageUsage.Proofs.SettingFlaws
import PackageUsage.Proofs.SortedText
import PackageUsage.Proofs.ZeroComparison

namespace PackageUsage.Settings
set_option autoImplicit true

/-- Weights that are finite and not negative, and not all zero. -/
structure SoundWeights (w : Weights Float) : Prop where
  usage : w.usage.isFinite = true ∧ 0.0 ≤ w.usage
  impact : w.impact.isFinite = true ∧ 0.0 ≤ w.impact
  confidence : w.confidence.isFinite = true ∧ 0.0 ≤ w.confidence
  some : 0.0 < w.usage ∨ 0.0 < w.impact ∨ 0.0 < w.confidence

/-- Settings in which every value is of its kind and in its range. A truth value is a whole number
as well. -/
structure Sound (s : Settings) : Prop where
  profile : Text.isBlankText s.profile = false
  leastUsage : ∃ n, s.leastUsage.whole? = some n ∧ 0 ≤ n ∧ n ≤ 100
  dynamicLimit : ∃ n, s.dynamicLimit.whole? = some n ∧ 0 ≤ n
  topSymbols : ∃ n, s.topSymbols.whole? = some n ∧ 1 ≤ n
  syntaxErrorSamples : ∃ n, s.syntaxErrorSamples.whole? = some n ∧ 1 ≤ n
  weights : ∃ w, s.weights = ⟨.real w.usage, .real w.impact, .real w.confidence⟩ ∧ SoundWeights w

/-- The limits in a table are whole numbers, and the weights are real ones. -/
structure Kinds (t : Table) : Prop where
  limits : ∀ l ∈ Limit.all, ∃ a n, amountIn? t l.setting = some a ∧ a.whole? = some n
  weights : ∀ s ∈ weightSettings, ∃ x, amountIn? t s = some (.real x)

section
variable {a : Amount}

theorem below_whole (h : a.whole? = some n) (k : ℤ) : a.below k = decide (n < k) := by
  cases a with
  | real => cases h
  | flag => cases h; rfl
  | whole => cases h; rfl

theorem atMost_whole (h : a.whole? = some n) (k : ℤ) : a.atMost k = decide (n ≤ k) := by
  cases a with
  | real => cases h
  | flag => cases h; rfl
  | whole => cases h; rfl

theorem atLeast_whole (h : a.whole? = some n) (k : ℤ) : a.atLeast k = decide (k ≤ n) := by
  cases a with
  | real => cases h
  | flag => cases h; rfl
  | whole => cases h; rfl

end

theorem le_of_not_below {a : Amount} (whole : a.whole? = some n) (h : (!a.below k) = true) :
    k ≤ n := by
  rw [below_whole whole, Bool.not_eq_true', decide_eq_false_iff_not] at h
  exact not_lt.1 h

theorem weight_bounds (h : IsWeight (.real x)) : x.isFinite = true ∧ 0.0 ≤ x := by
  obtain ⟨notBelow, y, same, finite⟩ := h
  cases same
  refine ⟨finite, Double.zero_le_of_not_lt finite ?_⟩
  rw [← Double.isBelowWhole_zero_iff]
  exact ne_of_eq_of_ne notBelow Bool.false_ne_true

theorem Kinds.whole (h : Kinds t) (l : Limit) (hl : l ∈ Limit.all)
    (given : amountIn? t l.setting = some a) : ∃ n, a.whole? = some n := by
  obtain ⟨b, n, hb, hn⟩ := h.limits l hl
  cases given.symm.trans hb
  exact ⟨n, hn⟩

theorem Kinds.real (h : Kinds t) (hs : s ∈ weightSettings) (given : amountIn? t s = some a) :
    ∃ x, a = .real x := by
  obtain ⟨x, hx⟩ := h.weights s hs
  cases given.symm.trans hx
  exact ⟨x, rfl⟩

theorem Obtained.sound (h : Obtained t s) (kinds : Kinds t) : Sound s := by
  obtain ⟨least, hleast⟩ := kinds.whole .leastUsage (by simp [Limit.all]) h.leastUsage.1
  obtain ⟨dynamic, hdynamic⟩ := kinds.whole .dynamicLimit (by simp [Limit.all]) h.dynamicLimit.1
  obtain ⟨symbols, hsymbols⟩ := kinds.whole .topSymbols (by simp [Limit.all]) h.topSymbols.1
  obtain ⟨samples, hsamples⟩ :=
    kinds.whole .syntaxErrorSamples (by simp [Limit.all]) h.syntaxErrorSamples.1
  obtain ⟨u, hu⟩ := kinds.real (by simp [weightSettings]) h.usage.1
  obtain ⟨i, hi⟩ := kinds.real (by simp [weightSettings]) h.impact.1
  obtain ⟨c, hc⟩ := kinds.real (by simp [weightSettings]) h.confidence.1
  have given : s.weights = ⟨.real u, .real i, .real c⟩ := by rw [← hu, ← hi, ← hc]
  have usage := weight_bounds (hu ▸ h.usage.2)
  have impact := weight_bounds (hi ▸ h.impact.2)
  have confidence := weight_bounds (hc ▸ h.confidence.2)
  have range := h.leastUsage.2
  unfold Limit.accepts Limit.leastUsage at range
  rw [Bool.and_eq_true, atLeast_whole hleast, atMost_whole hleast, decide_eq_true_eq,
    decide_eq_true_eq] at range
  obtain ⟨total, sum, positive⟩ := h.sum
  rw [given] at sum
  cases sum
  have some := Double.exists_pos_of_sum usage.2 impact.2 confidence.2 fun none =>
    ne_of_eq_of_ne positive Bool.false_ne_true ((Double.isAtMostWhole_zero_iff _).2 none)
  exact {
    profile := h.profile
    leastUsage := ⟨least, hleast, range⟩
    dynamicLimit := ⟨dynamic, hdynamic, le_of_not_below hdynamic h.dynamicLimit.2⟩
    topSymbols := ⟨symbols, hsymbols, le_of_not_below hsymbols h.topSymbols.2⟩
    syntaxErrorSamples := ⟨samples, hsamples, le_of_not_below hsamples h.syntaxErrorSamples.2⟩
    weights := ⟨⟨u, i, c⟩, given, usage, impact, confidence, some⟩ }

theorem Obtained.kinds (h : Obtained t s) (sound : Sound s) : Kinds t := by
  obtain ⟨w, given, _⟩ := sound.weights
  obtain ⟨least, hleast, _⟩ := sound.leastUsage
  obtain ⟨dynamic, hdynamic, _⟩ := sound.dynamicLimit
  obtain ⟨symbols, hsymbols, _⟩ := sound.topSymbols
  obtain ⟨samples, hsamples, _⟩ := sound.syntaxErrorSamples
  have usage := h.usage.1
  have impact := h.impact.1
  have confidence := h.confidence.1
  rw [given] at usage impact confidence
  constructor
  · simp only [Limit.all, List.forall_mem_cons]
    exact ⟨⟨_, least, h.leastUsage.1, hleast⟩, ⟨_, dynamic, h.dynamicLimit.1, hdynamic⟩,
      ⟨_, symbols, h.topSymbols.1, hsymbols⟩, ⟨_, samples, h.syntaxErrorSamples.1, hsamples⟩,
      List.forall_mem_nil _⟩
  · simp only [weightSettings, List.forall_mem_cons]
    exact ⟨⟨_, usage⟩, ⟨_, impact⟩, ⟨_, confidence⟩, List.forall_mem_nil _⟩

/-- The unknown key that is reported: the first one in order. -/
structure FirstUnknown (t : Table) (key : String) : Prop where
  mem : key ∈ t.keys
  unknown : Setting.isKnown key = false
  first : ∀ k ∈ t.keys, Setting.isKnown k = false → Text.le key k = true

theorem FirstUnknown.unique (h : FirstUnknown t key) (h' : FirstUnknown t key') : key = key' :=
  Text.le_antisymm (h.first _ h'.mem h'.unknown) (h'.first _ h.mem h.unknown)

def unknownKeys (t : Table) : List String := Text.sort (t.keys.filter (!Setting.isKnown ·))

theorem mem_unknownKeys : key ∈ unknownKeys t ↔ key ∈ t.keys ∧ Setting.isKnown key = false := by
  rw [unknownKeys, Text.mem_sort, List.mem_filter, Bool.not_eq_true']

theorem firstUnknown_of_head? (h : (unknownKeys t).head? = some key) : FirstUnknown t key := by
  obtain ⟨rest, he⟩ := List.head?_eq_some_iff.1 h
  have sorted : (unknownKeys t).Pairwise fun s t => Text.le s t := Text.pairwise_sort _
  rw [he, List.pairwise_cons] at sorted
  have here := mem_unknownKeys.1 (he ▸ List.mem_cons_self)
  refine ⟨here.1, here.2, fun k hk unknown => ?_⟩
  have listed := mem_unknownKeys.2 ⟨hk, unknown⟩
  rw [he] at listed
  rcases List.mem_cons.1 listed with rfl | behind
  · exact Text.le_refl _
  · exact sorted.1 k behind

theorem known_of_head? (h : (unknownKeys t).head? = none) : AllKnown t := by
  intro key hk
  rw [List.head?_eq_none_iff] at h
  by_contra unknown
  have listed := mem_unknownKeys.2 ⟨hk, Bool.eq_false_iff.2 unknown⟩
  rw [h] at listed
  cases listed

theorem FirstUnknown.not_known {t : Table} (h : FirstUnknown t key) (known : AllKnown t) : False :=
  Bool.noConfusion ((known key h.mem).symm.trans h.unknown)

/-- What comes of values whose keys are all known. -/
def settled (t : Table) : Except Problem Settings → Attempt Settings
  | .ok s => .ok s
  | .error (.broken rule) => refuse "config" (.table t) rule.message
  | .error p => .error (.setting p)

theorem check_of_known {t : Table} (known : AllKnown t) : check t = settled t (ofTable t) := by
  have none : Text.sort (t.keys.filter (!Setting.isKnown ·)) = [] := by
    rw [List.eq_nil_iff_forall_not_mem]
    intro key listed
    obtain ⟨hk, unknown⟩ := mem_unknownKeys.1 listed
    cases (known key hk).symm.trans unknown
  unfold check
  rw [none]
  rfl

theorem check_of_unknown {t : Table} (h : (unknownKeys t).head? = some key)
    (hv : t.lookup key = some v) : check t = refuse key v "unknown configuration key" := by
  unfold unknownKeys at h
  unfold check
  rw [h]
  dsimp only
  rw [hv]
  rfl

theorem exists_of_mem_keys {t : Table} (h : key ∈ t.keys) : ∃ v, t.lookup key = some v := by
  cases hl : t.lookup key with
  | some v => exact ⟨v, rfl⟩
  | none =>
    obtain ⟨⟨k, v⟩, hm, rfl⟩ := List.mem_map.1 h
    have differ := List.lookup_eq_none_iff.1 hl _ hm
    rw [bne_self_eq_false] at differ
    cases differ

/-- A failure that is a fault of the configuration. -/
def IsConfigurationFault : Failure → Prop
  | .fault f => f.family? = some .configuration
  | _ => False

/-- Settings come out sound, or not at all by a fault of the configuration. -/
def Lawful : Attempt Settings → Prop
  | .ok s => Sound s
  | .error e => IsConfigurationFault e

/-- Values of which something lawful comes. -/
inductive Orderly (t : Table) : Prop
  /-- An unknown key is reported, with a value that can be written. -/
  | unknown : FirstUnknown t key → t.lookup key = some v → v.isWritable = true → Orderly t
  /-- The first flaw is a broken rule, and the values can be written. -/
  | refused : AllKnown t → First (Flaw t) checks (.broken rule) →
      (Value.table t).isWritable = true → Orderly t
  /-- There is no flaw, and the numbers are of their kinds. -/
  | accepted : AllKnown t → (∀ c ∈ checks, ∀ p, ¬ Flaw t c p) → Kinds t → Orderly t

theorem lawful_refuse_iff : Lawful (refuse key v reason) ↔ v.isWritable = true := by
  unfold refuse
  cases v.isWritable with
  | true => exact ⟨fun _ => rfl, fun _ => rfl⟩
  | false => exact ⟨nofun, nofun⟩

section
variable {t : Table}

theorem orderly_iff_of_unknown (first : FirstUnknown t key) (hv : t.lookup key = some v) :
    Orderly t ↔ v.isWritable = true := by
  constructor
  · intro h
    cases h with
    | unknown other given short =>
      cases first.unique other
      cases hv.symm.trans given
      exact short
    | refused known => exact (first.not_known known).elim
    | accepted known => exact (first.not_known known).elim
  · exact fun short => .unknown first hv short

theorem orderly_iff_of_first (known : AllKnown t) (first : First (Flaw t) checks p) :
    Orderly t ↔ (∃ rule, p = .broken rule) ∧ (Value.table t).isWritable = true := by
  constructor
  · intro h
    cases h with
    | unknown other => exact (other.not_known known).elim
    | refused _ broken short =>
      have here := (ofTable_error_iff known).2 first
      have there := (ofTable_error_iff known).2 broken
      cases here.symm.trans there
      exact ⟨⟨_, rfl⟩, short⟩
    | accepted _ none =>
      obtain ⟨c, hc, found⟩ := first.exists_mem
      exact absurd found (none c hc p)
  · rintro ⟨⟨rule, rfl⟩, short⟩
    exact .refused known first short

theorem orderly_iff_of_ok (known : AllKnown t) (h : ofTable t = .ok s) :
    Orderly t ↔ Kinds t := by
  have none : ∀ p, ¬ First (Flaw t) checks p := fun p first =>
    nomatch h.symm.trans ((ofTable_error_iff known).2 first)
  constructor
  · intro orderly
    cases orderly with
    | unknown other => exact (other.not_known known).elim
    | refused _ broken => exact absurd broken (none _)
    | accepted _ _ kinds => exact kinds
  · intro kinds
    refine .accepted known (fun c hc p found => ?_) kinds
    obtain ⟨q, first⟩ := exists_first hc found
    exact none q first

/-- What comes of values is lawful just if they are orderly. -/
theorem check_lawful_iff (t : Table) : Lawful (check t) ↔ Orderly t := by
  cases hu : (unknownKeys t).head? with
  | some key =>
    have first := firstUnknown_of_head? hu
    obtain ⟨v, hv⟩ := exists_of_mem_keys first.mem
    rw [check_of_unknown hu hv, orderly_iff_of_unknown first hv]
    exact lawful_refuse_iff
  | none =>
    have known := known_of_head? hu
    rw [check_of_known known]
    cases ho : ofTable t with
    | ok s =>
      have obtained := obtained_of_ofTable known ho
      rw [orderly_iff_of_ok known ho]
      exact ⟨obtained.kinds, obtained.sound⟩
    | error p =>
      rw [orderly_iff_of_first known ((ofTable_error_iff known).1 ho)]
      cases p with
      | broken rule =>
        rw [and_iff_right ⟨rule, rfl⟩]
        exact lawful_refuse_iff
      | unknownKey | notText | notNumber | tooLarge | sumTooLarge | tooLong =>
        constructor
        · exact False.elim
        · rintro ⟨⟨rule, same⟩, _⟩
          cases same

end

end PackageUsage.Settings
