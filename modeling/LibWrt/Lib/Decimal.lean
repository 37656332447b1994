/-
LibWrt.Lib.Decimal — decimal floating point, by value.

A number is its value, an infinity or a NaN; trailing zeros and the sign of
zero, which no operation here can tell apart, are left out. `Decimal.fix`
is the default context: 28 significant digits, ties to even, exponents down
to `etiny`, and a trapped overflow above `emax`. A NaN passes through
arithmetic and is refused by an ordered comparison.

`fix_of_representable` is the one fact the context needs: a value of at
most 28 digits is left alone.
-/
import Mathlib.Data.Int.Log
import Mathlib.Data.Rat.Floor
import Mathlib.Algebra.Order.Field.Power

namespace LibWrt

inductive Decimal where
  | finite (value : ℚ)
  | infinity (negative : Bool)
  | nan
  deriving DecidableEq

namespace Decimal

inductive Signal where
  | overflow
  | invalidOperation
  | divisionByZero
  deriving DecidableEq, Repr

/-! ## The context -/

def precision : ℤ := 28

/-- The largest exponent a result's first digit may have. -/
def emax : ℤ := 999999

/-- The smallest exponent a result's last digit may have. -/
def etiny : ℤ := -1000026

/-- To an integer, ties to even. -/
def roundHalfEven (q : ℚ) : ℤ :=
  if q - ⌊q⌋ < 1 / 2 then ⌊q⌋
  else if 1 / 2 < q - ⌊q⌋ then ⌊q⌋ + 1
  else if ⌊q⌋ % 2 = 0 then ⌊q⌋ else ⌊q⌋ + 1

/-- To an integer, ties away from zero. -/
def roundHalfUp (q : ℚ) : ℤ :=
  if 0 ≤ q then ⌊q + 1 / 2⌋ else -⌊-q + 1 / 2⌋

def lastDigit (q : ℚ) : ℤ := max (Int.log 10 |q| - (precision - 1)) etiny

def fix (q : ℚ) : Except Signal Decimal :=
  let r : ℚ := roundHalfEven (q / 10 ^ lastDigit q) * 10 ^ lastDigit q
  if 10 ^ (emax + 1) ≤ |r| then .error .overflow else .ok (.finite r)

/-! ## Operations -/

def ofInt (n : ℤ) : Decimal := .finite n

def mul : Decimal → Decimal → Except Signal Decimal
  | .nan, _ => .ok .nan
  | _, .nan => .ok .nan
  | .finite p, .finite q => fix (p * q)
  | .finite p, .infinity neg =>
    if p = 0 then .error .invalidOperation else .ok (.infinity (xor (p < 0) neg))
  | .infinity neg, .finite q =>
    if q = 0 then .error .invalidOperation else .ok (.infinity (xor neg (q < 0)))
  | .infinity neg, .infinity neg' => .ok (.infinity (xor neg neg'))

def div : Decimal → Decimal → Except Signal Decimal
  | .nan, _ => .ok .nan
  | _, .nan => .ok .nan
  | .finite p, .finite q =>
    if q = 0 then .error (if p = 0 then .invalidOperation else .divisionByZero)
    else fix (p / q)
  | .finite _, .infinity _ => .ok (.finite 0)
  | .infinity neg, .finite q => .ok (.infinity (xor neg (q < 0)))
  | .infinity _, .infinity _ => .error .invalidOperation

def lt : Decimal → Decimal → Except Signal Bool
  | .nan, _ => .error .invalidOperation
  | _, .nan => .error .invalidOperation
  | .finite p, .finite q => .ok (p < q)
  | .finite _, .infinity neg => .ok (!neg)
  | .infinity neg, .finite _ => .ok neg
  | .infinity neg, .infinity neg' => .ok (neg && !neg')

/-- Python's `min` of two: the second if it is less than the first. -/
def min (a b : Decimal) : Except Signal Decimal :=
  match lt b a with
  | .error e => .error e
  | .ok less => .ok (if less then b else a)

/-- `to_integral_value(rounding=ROUND_HALF_UP)`. -/
def toIntegralHalfUp : Decimal → Decimal
  | .finite q => .finite (roundHalfUp q)
  | .infinity neg => .infinity neg
  | .nan => .nan

def truncate (q : ℚ) : ℤ := if 0 ≤ q then ⌊q⌋ else ⌈q⌉

/-! ## Exact results -/

@[simp] theorem roundHalfEven_intCast (n : ℤ) : roundHalfEven n = n := by
  simp [roundHalfEven]

theorem roundHalfEven_nonneg {q : ℚ} (h : 0 ≤ q) : 0 ≤ roundHalfEven q := by
  have hfloor : 0 ≤ ⌊q⌋ := Int.floor_nonneg.mpr h
  unfold roundHalfEven
  split
  · exact hfloor
  · split
    · omega
    · split <;> omega

/-- A non-negative result is rounded to a non-negative one. -/
theorem fix_nonneg {q : ℚ} {d : Decimal} (h : 0 ≤ q) (hd : fix q = .ok d) :
    ∃ r, d = .finite r ∧ 0 ≤ r := by
  have hpow : (0 : ℚ) < 10 ^ lastDigit q := zpow_pos (by norm_num) _
  simp only [fix] at hd
  split at hd
  · cases hd
  · cases hd
    refine ⟨_, rfl, mul_nonneg ?_ (le_of_lt hpow)⟩
    exact_mod_cast roundHalfEven_nonneg (div_nonneg h (le_of_lt hpow))

theorem roundHalfUp_nonneg {q : ℚ} (h : 0 ≤ q) : roundHalfUp q = ⌊q + 1 / 2⌋ := if_pos h

theorem truncate_intCast (n : ℤ) : truncate n = n := by simp [truncate]

/-- `m * 10 ^ k` with at most 28 digits and exponents in range. -/
structure Representable (q : ℚ) : Prop where
  digits : ∃ (m : ℤ) (k : ℤ), q = m * 10 ^ k ∧ |m| < 10 ^ 28 ∧ etiny ≤ k
  bounded : |q| < 10 ^ (emax + 1)

/-- The last digit kept is not above the last digit of a representable
value. -/
theorem lastDigit_le {m k : ℤ} (hm : |m| < 10 ^ 28) (hm₀ : m ≠ 0) (hk : etiny ≤ k) :
    lastDigit (m * 10 ^ k) ≤ k := by
  have hpow : (0 : ℚ) < 10 ^ k := zpow_pos (by norm_num) k
  have habs : |(m : ℚ) * 10 ^ k| = |(m : ℚ)| * 10 ^ k := by
    rw [abs_mul, abs_of_pos hpow]
  have hpos : 0 < |(m : ℚ) * 10 ^ k| := by
    rw [habs]
    exact mul_pos (abs_pos.mpr (by exact_mod_cast hm₀)) hpow
  have hlt : |(m : ℚ) * 10 ^ k| < ((10 : ℕ) : ℚ) ^ (k + 28) := by
    have hm' : |(m : ℚ)| < 10 ^ (28 : ℕ) := by exact_mod_cast hm
    rw [habs]
    push_cast
    rw [zpow_add₀ (by norm_num), mul_comm ((10 : ℚ) ^ k)]
    exact mul_lt_mul_of_pos_right hm' hpow
  have hlog : Int.log 10 |(m : ℚ) * 10 ^ k| < k + 28 :=
    (Int.lt_zpow_iff_log_lt (by norm_num) hpos).mp hlt
  unfold lastDigit precision
  omega

/-- **The context is exact where it can be**: a representable result is not
rounded. -/
theorem fix_of_representable {q : ℚ} (h : Representable q) : fix q = .ok (.finite q) := by
  obtain ⟨m, k, rfl, hm, hk⟩ := h.digits
  by_cases hm₀ : m = 0
  · subst hm₀
    have : (roundHalfEven 0 : ℤ) = 0 := by simpa using roundHalfEven_intCast 0
    simp only [fix, Int.cast_zero, zero_mul, zero_div, this, abs_zero]
    rw [if_neg (not_le.mpr (zpow_pos (by norm_num) _))]
  · have hle := lastDigit_le hm hm₀ hk
    generalize hd : lastDigit (m * 10 ^ k) = d at hle
    -- the quotient by the kept unit is already an integer
    have hquot : (m : ℚ) * 10 ^ k / 10 ^ d = ((m * 10 ^ (k - d).toNat : ℤ) : ℚ) := by
      have hexp : ((k - d).toNat : ℤ) = k - d := by omega
      push_cast
      rw [mul_div_assoc, ← zpow_sub₀ (by norm_num : (10 : ℚ) ≠ 0), ← zpow_natCast, hexp]
    have hback : ((roundHalfEven ((m : ℚ) * 10 ^ k / 10 ^ d) : ℤ) : ℚ) * 10 ^ d
        = m * 10 ^ k := by
      rw [hquot, roundHalfEven_intCast, ← hquot]
      exact div_mul_cancel₀ _ (zpow_pos (by norm_num) d).ne'
    simp only [fix, hd, hback]
    rw [if_neg (not_le.mpr h.bounded)]

end Decimal

end LibWrt
