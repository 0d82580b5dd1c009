import PackageUsage.Proofs.ReturningProbes
import PackageUsage.Settings.Load

namespace PackageUsage.Settings
set_option autoImplicit true

/-- The number in a setting that is one. -/
def number? (s : Settings) : Setting → Option Amount
  | .leastUsage => some s.leastUsage
  | .dynamicLimit => some s.dynamicLimit
  | .topSymbols => some s.topSymbols
  | .syntaxErrorSamples => some s.syntaxErrorSamples
  | .usageWeight => some s.weights.usage
  | .impactWeight => some s.weights.impact
  | .confidenceWeight => some s.weights.confidence
  | .profile | .verbosity => none

/-- The number that a table gives for a setting, or else its default. What is given may be none. -/
def amountIn? (t : Table) (s : Setting) : Option Amount :=
  match t.lookup s.key with
  | none => number? {} s
  | some v => v.amount?

/-- A setting that limits a count, and what is asked of it. -/
structure Limit where
  setting : Setting
  rule : Rule
  accepts : Amount → Bool

namespace Limit

def leastUsage : Limit := ⟨.leastUsage, .usageInRange, fun a => a.atLeast 0 && a.atMost 100⟩

def dynamicLimit : Limit := ⟨.dynamicLimit, .dynamicLimitNotNegative, fun a => !a.below 0⟩

def topSymbols : Limit := ⟨.topSymbols, .symbolsShown, fun a => !a.below 1⟩

def syntaxErrorSamples : Limit := ⟨.syntaxErrorSamples, .samplesShown, fun a => !a.below 1⟩

def all : List Limit := [leastUsage, dynamicLimit, topSymbols, syntaxErrorSamples]

end Limit

inductive Check where
  | profile
  | limit (l : Limit)
  | weight (s : Setting)
  | sum
  | verbosity

def weightSettings : List Setting := [.usageWeight, .impactWeight, .confidenceWeight]

/-- The checks in the order in which they are made. -/
def checks : List Check :=
  .profile :: Limit.all.map .limit ++ weightSettings.map .weight ++ [.sum, .verbosity]

/-- What a check finds wrong with the values in a table. -/
inductive Flaw (t : Table) : Check → Problem → Prop
  | profileKind : t.lookup Setting.profile.key = some v → (∀ name, v ≠ .text name) →
      Flaw t .profile (.notText .profile)
  | profileBlank : t.lookup Setting.profile.key = some (.text name) →
      Text.isBlankText name = true → Flaw t .profile (.broken .profileGiven)
  | limitKind : amountIn? t l.setting = none → Flaw t (.limit l) (.notNumber l.setting)
  | limitRange : amountIn? t l.setting = some a → l.accepts a = false →
      Flaw t (.limit l) (.broken l.rule)
  | weightKind : amountIn? t s = none → Flaw t (.weight s) (.notNumber s)
  | weightNegative : amountIn? t s = some a → a.below 0 = true →
      Flaw t (.weight s) (.broken .weightsUsable)
  | weightInfinite : amountIn? t s = some a → a.below 0 = false → a.double? = some x →
      x.isFinite = false → Flaw t (.weight s) (.broken .weightsUsable)
  | weightLarge : amountIn? t s = some a → a.below 0 = false → a.double? = none →
      Flaw t (.weight s) (.tooLarge s)
  | sumLarge : amountIn? t .usageWeight = some u → amountIn? t .impactWeight = some i →
      amountIn? t .confidenceWeight = some c → weightSum ⟨u, i, c⟩ = .error .sumTooLarge →
      Flaw t .sum .sumTooLarge
  | sumZero : amountIn? t .usageWeight = some u → amountIn? t .impactWeight = some i →
      amountIn? t .confidenceWeight = some c → weightSum ⟨u, i, c⟩ = .ok total →
      total.atMost 0 = true → Flaw t .sum (.broken .someWeight)
  | verbosity : t.lookup Setting.verbosity.key = some v →
      (∀ level : Verbosity, v ≠ .text level.text) →
      Flaw t .verbosity (.broken .verbosityKnown)

/-- The first flaw that some checks find in their order. -/
inductive First (flaw : Check → Problem → Prop) : List Check → Problem → Prop
  | here : flaw c p → First flaw (c :: cs) p
  | later : (∀ q, ¬ flaw c q) → First flaw cs p → First flaw (c :: cs) p

theorem First.exists_mem (h : First flaw cs p) : ∃ c ∈ cs, flaw c p := by
  induction h with
  | here found => exact ⟨_, List.mem_cons_self, found⟩
  | later _ _ ih =>
    obtain ⟨c, hc, found⟩ := ih
    exact ⟨c, List.mem_cons_of_mem _ hc, found⟩

theorem exists_first (hc : c ∈ cs) (found : flaw c p) : ∃ q, First flaw cs q := by
  induction cs with
  | nil => cases hc
  | cons d cs ih =>
    by_cases earlier : ∃ q, flaw d q
    · obtain ⟨q, hq⟩ := earlier
      exact ⟨q, .here hq⟩
    · rcases List.mem_cons.1 hc with rfl | hc
      · exact absurd ⟨p, found⟩ earlier
      · obtain ⟨q, hq⟩ := ih hc
        exact ⟨q, .later (not_exists.1 earlier) hq⟩

/-- One check after another: a computation that fails with the flaws of a check goes on with the
checks behind it. -/
theorem first_bind {x : Except Problem α} {k : α → Except Problem β}
    (hx : ∀ p, x = .error p ↔ flaw c p)
    (hk : ∀ a, x = .ok a → ∀ p, k a = .error p ↔ First flaw cs p) (p : Problem) :
    x >>= k = .error p ↔ First flaw (c :: cs) p := by
  cases x with
  | error q =>
    have found := (hx q).1 rfl
    constructor
    · intro h
      cases h
      exact .here found
    · intro h
      cases h with
      | here h => rw [(hx p).2 h]; rfl
      | later none _ => exact absurd found (none q)
  | ok a =>
    constructor
    · intro h
      exact .later (fun q hq => nomatch (hx q).2 hq) ((hk a rfl p).1 h)
    · intro h
      cases h with
      | here found => cases (hx p).2 found
      | later _ h => exact (hk a rfl p).2 h

theorem ensure_eq (holds : Bool) (rule : Rule) :
    ensure holds rule = if holds = true then .ok () else .error (.broken rule) := rfl

theorem ensure_ok (h : ensure holds rule = .ok u) : holds = true := by
  cases holds with
  | true => rfl
  | false => cases h

theorem profileOf_error_iff : profileOf t d = .error p ↔ Flaw t .profile p := by
  constructor
  · intro h
    unfold profileOf at h
    split at h
    · cases h
    · rename_i name given
      cases blank : Text.isBlankText name with
      | true =>
        rw [blank] at h
        cases h
        exact .profileBlank given blank
      | false =>
        rw [blank] at h
        cases h
    · rename_i v other given
      cases h
      exact .profileKind given other
  · intro h
    unfold profileOf
    cases h with
    | profileKind given other =>
      rw [given]
      split
      · contradiction
      · rename_i text
        cases text
        exact absurd rfl (other _)
      · rfl
    | profileBlank given blank =>
      rw [given]
      dsimp only
      rw [blank]
      rfl

theorem not_blank_of_profileOf (h : profileOf t d = .ok name)
    (default : Text.isBlankText d = false) : Text.isBlankText name = false := by
  unfold profileOf at h
  split at h
  · cases h
    exact default
  · obtain ⟨_, filled, h⟩ := bind_ok h
    cases h
    have filled := ensure_ok filled
    rw [Bool.not_eq_true'] at filled
    exact filled
  · cases h

theorem amountOf_eq (default : number? {} s = some d) :
    amountOf t s d = (amountIn? t s).elim (.error (.notNumber s)) .ok := by
  unfold amountOf amountIn?
  cases t.lookup s.key with
  | none =>
    dsimp only
    rw [default]
    rfl
  | some v =>
    dsimp only
    cases v.amount? with
    | none => rfl
    | some a => rfl

/-- The amount given for a limit, which must obey its rule. -/
def limitOf (t : Table) (l : Limit) (default : Amount) : Except Problem Amount := do
  let a ← amountOf t l.setting default
  ensure (l.accepts a) l.rule
  pure a

theorem limitOf_eq (default : number? {} l.setting = some d) :
    limitOf t l d = (amountIn? t l.setting).elim (.error (.notNumber l.setting)) fun a =>
      if l.accepts a = true then .ok a else .error (.broken l.rule) := by
  unfold limitOf
  rw [amountOf_eq default]
  cases amountIn? t l.setting with
  | none => rfl
  | some a =>
    change (ensure (l.accepts a) l.rule >>= fun _ => pure a) = if l.accepts a = true then _ else _
    cases l.accepts a with
    | true => rfl
    | false => rfl

theorem limitOf_error_iff (default : number? {} l.setting = some d) :
    limitOf t l d = .error p ↔ Flaw t (.limit l) p := by
  rw [limitOf_eq default]
  constructor
  · intro h
    cases given : amountIn? t l.setting with
    | none =>
      rw [given] at h
      cases h
      exact .limitKind given
    | some a =>
      rw [given, Option.elim_some] at h
      split at h
      · cases h
      · rename_i outside
        cases h
        exact .limitRange given (Bool.eq_false_iff.2 outside)
  · intro h
    cases h with
    | limitKind none => rw [none, Option.elim_none]
    | limitRange given outside => rw [given, Option.elim_some, if_neg (Bool.eq_false_iff.1 outside)]

theorem limitOf_ok (default : number? {} l.setting = some d) (h : limitOf t l d = .ok a) :
    amountIn? t l.setting = some a ∧ l.accepts a = true := by
  rw [limitOf_eq default] at h
  cases given : amountIn? t l.setting with
  | none =>
    rw [given] at h
    cases h
  | some b =>
    rw [given, Option.elim_some] at h
    split at h
    · rename_i accepted
      cases h
      exact ⟨rfl, accepted⟩
    · cases h

/-- An amount that can be a weight. -/
structure IsWeight (a : Amount) : Prop where
  notBelow : a.below 0 = false
  finite : ∃ x, a.double? = some x ∧ x.isFinite = true

theorem weightOf_eq (default : number? {} s = some d) :
    weightOf t s d = (amountIn? t s).elim (.error (.notNumber s)) fun a =>
      if a.below 0 = true then .error (.broken .weightsUsable)
      else a.double?.elim (.error (.tooLarge s)) fun x =>
        if x.isFinite = true then .ok a else .error (.broken .weightsUsable) := by
  unfold weightOf
  rw [amountOf_eq default]
  cases amountIn? t s with
  | none => rfl
  | some a =>
    simp only [Option.elim_some, bind, Except.bind]
    cases a.below 0 with
    | true => rfl
    | false =>
      cases a.double? with
      | none => rfl
      | some x =>
        simp only [ensure_eq, Option.elim_some]
        cases x.isFinite with
        | true => rfl
        | false => rfl

theorem weightOf_error_iff (default : number? {} s = some d) :
    weightOf t s d = .error p ↔ Flaw t (.weight s) p := by
  rw [weightOf_eq default]
  constructor
  · intro h
    cases given : amountIn? t s with
    | none =>
      rw [given] at h
      cases h
      exact .weightKind given
    | some a =>
      rw [given, Option.elim_some] at h
      split at h
      · rename_i below
        cases h
        exact .weightNegative given below
      · rename_i below
        rw [Bool.not_eq_true] at below
        cases nearest : a.double? with
        | none =>
          rw [nearest] at h
          cases h
          exact .weightLarge given below nearest
        | some x =>
          rw [nearest, Option.elim_some] at h
          split at h
          · cases h
          · rename_i infinite
            cases h
            exact .weightInfinite given below nearest (Bool.eq_false_iff.2 infinite)
  · intro h
    cases h with
    | weightKind none => rw [none, Option.elim_none]
    | weightNegative given below => rw [given, Option.elim_some, if_pos below]
    | weightInfinite given below nearest infinite =>
      rw [given, Option.elim_some, if_neg (Bool.eq_false_iff.1 below), nearest, Option.elim_some,
        if_neg (Bool.eq_false_iff.1 infinite)]
    | weightLarge given below none =>
      rw [given, Option.elim_some, if_neg (Bool.eq_false_iff.1 below), none, Option.elim_none]

theorem weightOf_ok (default : number? {} s = some d) (h : weightOf t s d = .ok a) :
    amountIn? t s = some a ∧ IsWeight a := by
  rw [weightOf_eq default] at h
  cases given : amountIn? t s with
  | none =>
    rw [given] at h
    cases h
  | some b =>
    rw [given, Option.elim_some] at h
    split at h
    · cases h
    · rename_i below
      cases nearest : b.double? with
      | none =>
        rw [nearest] at h
        cases h
      | some x =>
        rw [nearest, Option.elim_some] at h
        split at h
        · rename_i finite
          cases h
          exact ⟨rfl, Bool.eq_false_iff.2 below, x, nearest, finite⟩
        · cases h

/-- The sum of the weights must not be zero. -/
def positiveSum (w : Weights Amount) : Except Problem Unit := do
  ensure (!(← weightSum w).atMost 0) .someWeight

theorem weightSum_error (h : weightSum w = .error p) : p = .sumTooLarge := by
  unfold weightSum at h
  split at h
  · cases h
  · cases h
    rfl

theorem positiveSum_error_iff (usage : amountIn? t .usageWeight = some w.usage)
    (impact : amountIn? t .impactWeight = some w.impact)
    (confidence : amountIn? t .confidenceWeight = some w.confidence) :
    positiveSum w = .error p ↔ Flaw t .sum p := by
  constructor
  · intro h
    rcases bind_error h with large | ⟨total, sum, h⟩
    · obtain rfl := weightSum_error large
      exact .sumLarge usage impact confidence large
    · cases zero : total.atMost 0 with
      | true =>
        rw [zero] at h
        cases h
        exact .sumZero usage impact confidence sum zero
      | false =>
        rw [zero] at h
        cases h
  · intro h
    unfold positiveSum
    cases h with
    | sumLarge hu hi hc large =>
      cases usage.symm.trans hu
      cases impact.symm.trans hi
      cases confidence.symm.trans hc
      rw [large]
      rfl
    | sumZero hu hi hc sum zero =>
      cases usage.symm.trans hu
      cases impact.symm.trans hi
      cases confidence.symm.trans hc
      rw [sum]
      change ensure (!Amount.atMost _ 0) .someWeight = _
      rw [zero]
      rfl

theorem positiveSum_ok (h : positiveSum w = .ok u) :
    ∃ total, weightSum w = .ok total ∧ total.atMost 0 = false := by
  obtain ⟨total, sum, h⟩ := bind_ok h
  have positive := ensure_ok h
  rw [Bool.not_eq_true'] at positive
  exact ⟨total, sum, positive⟩

theorem ofText?_eq_none :
    Verbosity.ofText? name = none ↔ ∀ level : Verbosity, name ≠ level.text := by
  unfold Verbosity.ofText?
  rw [List.find?_eq_none]
  constructor
  · intro h level same
    have listed : level ∈ [Verbosity.quiet, .normal, .verbose] := by cases level <;> decide
    exact h level listed (beq_iff_eq.2 same.symm)
  · intro h level _ same
    exact h level (beq_iff_eq.1 same).symm

theorem verbosityOf_error_iff : verbosityOf t d = .error p ↔ Flaw t .verbosity p := by
  constructor
  · intro h
    unfold verbosityOf at h
    split at h
    · cases h
    · rename_i name given
      split at h
      · cases h
      · rename_i unknown
        cases h
        refine .verbosity given fun level same => ?_
        cases same
        exact ofText?_eq_none.1 unknown level rfl
    · rename_i v other given
      cases h
      exact .verbosity given fun level => other level.text
  · intro h
    unfold verbosityOf
    cases h with
    | verbosity given other =>
      rw [given]
      split
      · contradiction
      · rename_i name text
        cases text
        have unknown : Verbosity.ofText? name = none :=
          ofText?_eq_none.2 fun level same => other level (congrArg Value.text same)
        rw [unknown]
      · rfl

/-- All keys are those of settings. -/
def AllKnown (t : Table) : Prop := ∀ key ∈ t.keys, Setting.isKnown key = true

/-- The settings that a table gives, check by check. -/
def ofKnown (t : Table) : Except Problem Settings := do
  let d : Settings := {}
  let profile ← profileOf t d.profile
  let leastUsage ← limitOf t .leastUsage d.leastUsage
  let dynamicLimit ← limitOf t .dynamicLimit d.dynamicLimit
  let topSymbols ← limitOf t .topSymbols d.topSymbols
  let syntaxErrorSamples ← limitOf t .syntaxErrorSamples d.syntaxErrorSamples
  let usage ← weightOf t .usageWeight d.weights.usage
  let impact ← weightOf t .impactWeight d.weights.impact
  let confidence ← weightOf t .confidenceWeight d.weights.confidence
  let weights : Weights Amount := ⟨usage, impact, confidence⟩
  positiveSum weights
  let verbosity ← verbosityOf t d.verbosity
  pure { profile, leastUsage, dynamicLimit, topSymbols, syntaxErrorSamples, weights, verbosity }

theorem ofTable_eq (known : AllKnown t) : ofTable t = ofKnown t := by
  have none : t.keys.filter (!Setting.isKnown ·) = [] := by
    rw [List.filter_eq_nil_iff]
    intro key hk unknown
    rw [known key hk] at unknown
    cases unknown
  unfold ofTable ofKnown
  rw [none]
  simp only [limitOf, positiveSum, bind_assoc, pure_bind, List.head?_nil]
  rfl

/-- Values for known settings are refused for their first flaw. -/
theorem ofTable_error_iff (known : AllKnown t) :
    ofTable t = .error p ↔ First (Flaw t) checks p := by
  rw [ofTable_eq known, ofKnown]
  -- One bind for each check: the order of the checks is that of the binds. The sum comes last among
  -- the weights, since its flaws are those of amounts that have passed.
  refine first_bind (fun _ => profileOf_error_iff) (fun profile _ => ?_) p
  refine first_bind (fun _ => limitOf_error_iff rfl) fun leastUsage _ => ?_
  refine first_bind (fun _ => limitOf_error_iff rfl) fun dynamicLimit _ => ?_
  refine first_bind (fun _ => limitOf_error_iff rfl) fun topSymbols _ => ?_
  refine first_bind (fun _ => limitOf_error_iff rfl) fun samples _ => ?_
  refine first_bind (fun _ => weightOf_error_iff rfl) fun usage hu => ?_
  refine first_bind (fun _ => weightOf_error_iff rfl) fun impact hi => ?_
  refine first_bind (fun _ => weightOf_error_iff rfl) fun confidence hc => ?_
  have sum (p : Problem) : positiveSum ⟨usage, impact, confidence⟩ = .error p ↔ Flaw t .sum p :=
    positiveSum_error_iff (weightOf_ok rfl hu).1 (weightOf_ok rfl hi).1 (weightOf_ok rfl hc).1
  refine first_bind sum fun _ _ => ?_
  refine first_bind (fun _ => verbosityOf_error_iff) fun verbosity _ => ?_
  exact fun _ => ⟨nofun, nofun⟩

/-- Settings that a table gives, and that no check refuses. -/
structure Obtained (t : Table) (s : Settings) : Prop where
  profile : Text.isBlankText s.profile = false
  leastUsage : amountIn? t .leastUsage = some s.leastUsage ∧
    Limit.leastUsage.accepts s.leastUsage = true
  dynamicLimit : amountIn? t .dynamicLimit = some s.dynamicLimit ∧
    Limit.dynamicLimit.accepts s.dynamicLimit = true
  topSymbols : amountIn? t .topSymbols = some s.topSymbols ∧
    Limit.topSymbols.accepts s.topSymbols = true
  syntaxErrorSamples : amountIn? t .syntaxErrorSamples = some s.syntaxErrorSamples ∧
    Limit.syntaxErrorSamples.accepts s.syntaxErrorSamples = true
  usage : amountIn? t .usageWeight = some s.weights.usage ∧ IsWeight s.weights.usage
  impact : amountIn? t .impactWeight = some s.weights.impact ∧ IsWeight s.weights.impact
  confidence : amountIn? t .confidenceWeight = some s.weights.confidence ∧
    IsWeight s.weights.confidence
  sum : ∃ total, weightSum s.weights = .ok total ∧ total.atMost 0 = false

theorem obtained_of_ofTable (known : AllKnown t)
    (h : ofTable t = .ok s) : Obtained t s := by
  rw [ofTable_eq known] at h
  obtain ⟨profile, profileGiven, h⟩ := bind_ok h
  obtain ⟨leastUsage, leastUsageGiven, h⟩ := bind_ok h
  obtain ⟨dynamicLimit, dynamicLimitGiven, h⟩ := bind_ok h
  obtain ⟨topSymbols, topSymbolsGiven, h⟩ := bind_ok h
  obtain ⟨samples, samplesGiven, h⟩ := bind_ok h
  obtain ⟨usage, usageGiven, h⟩ := bind_ok h
  obtain ⟨impact, impactGiven, h⟩ := bind_ok h
  obtain ⟨confidence, confidenceGiven, h⟩ := bind_ok h
  obtain ⟨_, positive, h⟩ := bind_ok h
  obtain ⟨verbosity, _, h⟩ := bind_ok h
  cases h
  exact {
    profile := not_blank_of_profileOf profileGiven (by decide +kernel)
    leastUsage := limitOf_ok rfl leastUsageGiven
    dynamicLimit := limitOf_ok rfl dynamicLimitGiven
    topSymbols := limitOf_ok rfl topSymbolsGiven
    syntaxErrorSamples := limitOf_ok rfl samplesGiven
    usage := weightOf_ok rfl usageGiven
    impact := weightOf_ok rfl impactGiven
    confidence := weightOf_ok rfl confidenceGiven
    sum := positiveSum_ok positive }

end PackageUsage.Settings
