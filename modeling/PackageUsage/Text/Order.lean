import PackageUsage.Text.CodePoint

namespace PackageUsage.Text

/-- Whether numbers are other ones or come before them: the first difference decides, and what ends
first comes first. -/
def numbersLe : List Nat → List Nat → Bool
  | [], _ => true
  | _ :: _, [] => false
  | m :: ms, n :: ns => if m = n then numbersLe ms ns else decide (m < n)

/-- Whether a text is another one or comes before it. -/
def le (s t : String) : Bool := numbersLe (codePoints s) (codePoints t)

def lt (s t : String) : Bool := !le t s

theorem numbersLe_total (ms ns : List Nat) : (numbersLe ms ns || numbersLe ns ms) = true := by
  induction ms generalizing ns with
  | nil => rfl
  | cons m ms ih =>
    cases ns with
    | nil => rfl
    | cons n ns =>
      simp only [numbersLe]
      by_cases h : m = n
      · simp only [h, if_true]
        exact ih ns
      · simp only [h, Ne.symm h, if_false, Bool.or_eq_true, decide_eq_true_eq]
        omega

theorem numbersLe_trans {ls ms ns : List Nat} (h : numbersLe ls ms) (k : numbersLe ms ns) :
    numbersLe ls ns := by
  induction ls generalizing ms ns with
  | nil => rfl
  | cons l ls ih =>
    cases ms with
    | nil => cases h
    | cons m ms =>
      cases ns with
      | nil => cases k
      | cons n ns =>
        simp only [numbersLe] at *
        by_cases hlm : l = m
        · subst hlm
          by_cases hln : l = n
          · simp only [hln, if_true] at *
            exact ih h k
          · simpa only [hln, if_false] using k
        · simp only [hlm, if_false, decide_eq_true_eq] at h
          by_cases hmn : m = n
          · subst hmn
            simpa only [hlm, if_false, decide_eq_true_eq] using h
          · simp only [hmn, if_false, decide_eq_true_eq] at k
            have hln : l ≠ n := by omega
            simp only [hln, if_false, decide_eq_true_eq]
            omega

theorem numbersLe_antisymm {ms ns : List Nat} (h : numbersLe ms ns) (k : numbersLe ns ms) :
    ms = ns := by
  induction ms generalizing ns with
  | nil =>
    cases ns with
    | nil => rfl
    | cons n ns => cases k
  | cons m ms ih =>
    cases ns with
    | nil => cases h
    | cons n ns =>
      simp only [numbersLe] at h k
      by_cases hmn : m = n
      · subst hmn
        simp only [if_true] at h k
        rw [ih h k]
      · simp only [hmn, Ne.symm hmn, if_false, decide_eq_true_eq] at h k
        omega

theorem le_total (s t : String) : (le s t || le t s) = true := numbersLe_total _ _

theorem le_trans {s t u : String} (h : le s t) (k : le t u) : le s u := numbersLe_trans h k

theorem le_antisymm {s t : String} (h : le s t) (k : le t s) : s = t :=
  codePoints_injective (numbersLe_antisymm h k)

end PackageUsage.Text
