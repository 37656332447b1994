/-
LibWrt.Lib.Word — flags and numbers in the bits of a word.

`put` is a number of some bits at a place of a word, `flag` is one bit, and
`get` reads a number back. A word is the union of such fields. The lemmas say
what one field has at a bit, so a bit of a word is found with `simp`, and
`omega` for the places; a field of a word comes back whole with `get_eq`.
-/
import Mathlib.Tactic

namespace LibWrt.Word

open BitVec

variable {n m k : Nat}

/-- The lowest `w` bits of a number, from bit `lo` on. -/
def put (m : Nat) (x : BitVec n) (lo w : Nat) : BitVec m := (x.setWidth w).setWidth m <<< lo

def flag (m : Nat) (b : Bool) (i : Nat) : BitVec m := if b then BitVec.twoPow m i else 0

/-- The number of `w` bits from bit `lo` on. -/
def get (k : Nat) (r : BitVec m) (lo w : Nat) : BitVec k := ((r >>> lo).setWidth w).setWidth k

theorem getLsbD_put (x : BitVec n) (lo w i : Nat) :
    (put m x lo w).getLsbD i =
      (decide (i < m) && !decide (i < lo) && (decide (i - lo < w) && x.getLsbD (i - lo))) := by
  by_cases hi : i < m
  · simp [put, hi]
  · simp [put, hi]

variable {x : BitVec n} {lo w i : Nat} {r : BitVec m}

theorem put_below (h : i < lo) :
    (put m x lo w).getLsbD i = false := by
  simp [getLsbD_put, h]

theorem put_above (h : lo + w ≤ i) :
    (put m x lo w).getLsbD i = false := by
  have hw : ¬ i - lo < w := by omega
  simp [getLsbD_put, hw]

theorem put_at (hi : i < m) (hlo : lo ≤ i) (hw : i < lo + w) :
    (put m x lo w).getLsbD i = x.getLsbD (i - lo) := by
  have hlt : i - lo < w := by omega
  rw [getLsbD_put]
  simp [hi, hlo, hlt]

theorem flag_at {b : Bool} (h : i < m) : (flag m b i).getLsbD i = b := by
  cases b <;> simp [flag, h]

theorem flag_ne {b : Bool} {j : Nat} (h : i ≠ j) : (flag m b i).getLsbD j = false := by
  cases b <;> simp [flag, getLsbD_twoPow, h]

theorem flag_off (i j : Nat) : (flag m false i).getLsbD j = false := by simp [flag]

theorem getLsbD_of_toNat_lt (h : x.toNat < 2 ^ w) (hi : w ≤ i) :
    x.getLsbD i = false :=
  Nat.testBit_lt_two_pow (Nat.lt_of_lt_of_le h (Nat.pow_le_pow_right (by decide) hi))

/-- A number that is short needs less room. -/
theorem put_short {w' : Nat} (h : x.toNat < 2 ^ w') (hw : w' ≤ w) (lo : Nat) :
    put m x lo w = put m x lo w' := by
  refine eq_of_getLsbD_eq fun i hi => ?_
  rw [getLsbD_put, getLsbD_put]
  by_cases hi' : i - lo < w'
  · have : i - lo < w := by omega
    simp [hi', this]
  · rw [getLsbD_of_toNat_lt h (Nat.not_lt.mp hi')]
    simp

theorem getLsbD_get (r : BitVec m) (lo w i : Nat) :
    (get k r lo w).getLsbD i = (decide (i < k) && (decide (i < w) && r.getLsbD (lo + i))) := by
  simp [get]

theorem get_above (h : m ≤ lo + i) :
    (get k r lo w).getLsbD i = false := by
  rw [getLsbD_get, getLsbD_of_ge r (lo + i) h]
  simp

theorem get_lt (r : BitVec m) (lo w : Nat) : (get k r lo w).toNat < 2 ^ w := by
  rw [get, toNat_setWidth]
  exact Nat.lt_of_le_of_lt (Nat.mod_le _ _) (BitVec.isLt _)

/-- A number that fits comes back if its bits are there. -/
theorem get_eq {x : BitVec k} (hx : x.toNat < 2 ^ w) (h : ∀ i < w, r.getLsbD (lo + i) = x.getLsbD i) :
    get k r lo w = x := by
  refine eq_of_getLsbD_eq fun i hi => ?_
  rw [getLsbD_get]
  by_cases hw : i < w
  · simp [hi, hw, h i hw]
  · rw [getLsbD_of_toNat_lt hx (Nat.not_lt.mp hw)]
    simp [hw]

/-- A mask misses a word that has none of its bits. -/
theorem and_eq_zero_iff {mask : BitVec m} :
    r &&& mask = 0 ↔ ∀ i, mask.getLsbD i = true → r.getLsbD i = false := by
  constructor
  · intro h i hi
    have := congrArg (fun x => x.getLsbD i) h
    simpa [hi] using this
  · intro h
    refine eq_of_getLsbD_eq fun i _ => ?_
    rw [getLsbD_and]
    by_cases hi : mask.getLsbD i = true
    · simp [h i hi]
    · simp [hi]

end LibWrt.Word
