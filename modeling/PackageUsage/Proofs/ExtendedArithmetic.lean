import Mathlib
import PackageUsage.Proofs.ExactArithmetic

namespace PackageUsage
set_option autoImplicit true

/-- An exact number, an infinity, or no number. -/
inductive Extended where
  | number (x : ℚ)
  | infinite (negative : Bool)
  | undefined

namespace Extended

/-- What is given for the quotient of a number and zero. -/
class ByZero where
  quotient : Extended → Extended

def isNegative : Extended → Bool
  | number x => decide (x < 0)
  | infinite negative => negative
  | undefined => false

def neg : Extended → Extended
  | number x => number (-x)
  | infinite negative => infinite !negative
  | undefined => undefined

def add : Extended → Extended → Extended
  | number x, number y => number (x + y)
  | infinite s, infinite t => if s = t then infinite s else undefined
  | infinite s, number _ => infinite s
  | number _, infinite s => infinite s
  | _, _ => undefined

def mul : Extended → Extended → Extended
  | number x, number y => number (x * y)
  | undefined, _ => undefined
  | _, undefined => undefined
  | number x, infinite t => if x = 0 then undefined else infinite (decide (x < 0) != t)
  | infinite s, number y => if y = 0 then undefined else infinite (s != decide (y < 0))
  | infinite s, infinite t => infinite (s != t)

def div [ByZero] : Extended → Extended → Extended
  | number x, number y => if y = 0 then ByZero.quotient (number x) else number (x / y)
  | infinite s, number y =>
    if y = 0 then ByZero.quotient (infinite s) else infinite (s != decide (y < 0))
  | number _, infinite _ => number 0
  | _, _ => undefined

def lt : Extended → Extended → Bool
  | number x, number y => decide (x < y)
  | infinite true, number _ => true
  | infinite true, infinite false => true
  | number _, infinite false => true
  | _, _ => false

def le : Extended → Extended → Bool
  | number x, number y => decide (x ≤ y)
  | infinite true, number _ => true
  | number _, infinite false => true
  | infinite s, infinite t => s || !t
  | _, _ => false

def abs (x : Extended) : Extended := if x.isNegative then x.neg else x

def floor : Extended → Int
  | number x => x.floor
  | _ => 0

def isFinite : Extended → Bool
  | number _ => true
  | _ => false

end Extended

open Extended in
instance [ByZero] : Arithmetic Extended where
  add := add
  sub x y := x.add y.neg
  mul := mul
  div := div
  ofInt n := number n
  ratio m n := div (number m) (number n)
  lt := lt
  le := le
  abs := abs
  floor := floor
  withSignOf x y := if y.isNegative then x.abs.neg else x.abs
  isFinite := isFinite

namespace Extended

/-- A number from 0 to 100. -/
def OnScale (x : Extended) : Prop := ∃ y : ℚ, 0 ≤ y ∧ y ≤ 100 ∧ x = number y

/-- A number kept between 0 and 100. -/
def kept (x : ℚ) : ℚ := max 0 (min 100 x)

/-- The number of tenths nearest to a number, a half going up. -/
def tenths (x : ℚ) : ℚ := ⌊x * 10 + 1 / 2⌋ / 10

theorem kept_nonneg (x : ℚ) : 0 ≤ kept x := le_max_left _ _

theorem kept_le (x : ℚ) : kept x ≤ 100 := max_le (by norm_num) (min_le_left _ _)

theorem kept_mono : Monotone kept := fun _ _ h => max_le_max_left 0 (min_le_min_left 100 h)

theorem tenths_mono : Monotone tenths := by
  intro x y h
  have floors : ⌊x * 10 + 1 / 2⌋ ≤ ⌊y * 10 + 1 / 2⌋ := Int.floor_mono (by linarith)
  exact div_le_div_of_nonneg_right (Int.cast_le.2 floors) (by norm_num)

theorem tenths_intCast (n : ℤ) : tenths n = n := by
  have half : ⌊((10 * n : ℤ) : ℚ) + 1 / 2⌋ = 10 * n := by
    rw [Int.floor_intCast_add]
    norm_num
  have tenfold : (n : ℚ) * 10 + 1 / 2 = ((10 * n : ℤ) : ℚ) + 1 / 2 := by
    push_cast
    ring
  rw [tenths, tenfold, half]
  push_cast
  ring

theorem tenths_nonneg (h : 0 ≤ x) : 0 ≤ tenths x := by
  have rounded := tenths_mono h
  rwa [← Int.cast_zero, tenths_intCast] at rounded

theorem tenths_le (h : x ≤ 100) : tenths x ≤ 100 := by
  have rounded := tenths_mono h
  have whole := tenths_intCast 100
  push_cast at whole
  rwa [whole] at rounded

theorem abs_number (h : 0 ≤ x) : (number x).abs = number x :=
  if_neg (by simpa [isNegative] using h)

variable [ByZero]

open Arithmetic

@[simp] theorem number_add (x y : ℚ) : number x + number y = number (x + y) := rfl

@[simp] theorem number_sub (x y : ℚ) : number x - number y = number (x - y) :=
  congrArg number (sub_eq_add_neg x y).symm

@[simp] theorem number_mul (x y : ℚ) : number x * number y = number (x * y) := rfl

theorem number_div (x : ℚ) (h : y ≠ 0) : number x / number y = number (x / y) := if_neg h

theorem ofInt_number (n : Int) : (ofInt n : Extended) = number n := rfl

theorem ratio_number (m : Int) (h : n ≠ 0) : (ratio m n : Extended) = number (m / n) :=
  if_neg (Int.cast_ne_zero.2 h)

theorem percent_number (used : Int) (h : 0 < total) :
    (percent used total : Extended) = number (used / total * 100) := by
  rw [percent, ratio_number used (ne_of_gt h)]
  rfl

theorem clamp_number (x : ℚ) : clamp (number x) = number (kept x) := by
  have upper : (ofInt 100 : Extended) = number 100 := rfl
  have lower : (ofInt 0 : Extended) = number 0 := rfl
  have below (y z : ℚ) : Arithmetic.lt (number y) (number z) = decide (y < z) := rfl
  unfold clamp
  rw [upper, lower, below, kept]
  rcases lt_or_ge x 100 with hx | hx
  · rw [decide_eq_true hx, min_eq_right hx.le]
    dsimp only
    rw [if_pos rfl, below]
    rcases lt_or_ge 0 x with h | h
    · rw [decide_eq_true h, max_eq_right h.le, if_pos rfl]
    · rw [decide_eq_false h.not_gt, max_eq_left h, if_neg Bool.false_ne_true]
  · rw [decide_eq_false hx.not_gt, min_eq_left hx]
    dsimp only
    rw [if_neg Bool.false_ne_true, below, decide_eq_true (by norm_num), if_pos rfl,
      max_eq_right (by norm_num)]

theorem roundTenth_number (h : 0 ≤ x) : roundTenth (number x) = number (tenths x) := by
  have half : (ratio 1 2 : Extended) = number (1 / 2) := ratio_number 1 (by decide)
  have tenfold : Arithmetic.abs (number x) * ofInt 10 + ratio 1 2 = number (x * 10 + 1 / 2) := by
    change (number x).abs * number 10 + _ = _
    rw [abs_number h, half, number_mul, number_add]
  have rounded : (ratio (Arithmetic.floor (number (x * 10 + 1 / 2))) 10 : Extended) =
      number (tenths x) := ratio_number _ (by decide)
  have plain : (number x).isNegative = false := decide_eq_false h.not_gt
  rw [roundTenth, tenfold, rounded]
  change (if (number x).isNegative = true then _ else (number (tenths x)).abs) = _
  rw [plain, if_neg Bool.false_ne_true, abs_number (tenths_nonneg h)]

end Extended

end PackageUsage
