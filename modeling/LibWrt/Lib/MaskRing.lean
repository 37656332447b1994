/-
LibWrt.Lib.MaskRing — ring counters advanced with a mask.

A ring of `n` slots whose counter is advanced as `(i + 1) & (n - 1)` and
kept in `w` bits uses all its slots only if `n` is a power of two. For any
positive `n` the counter, started at 0, runs through the first `size n w`
slots and wraps there, where `size n w = gcd n (2 ^ w)` is the largest power
of two up to `2 ^ w` that divides `n` (`next_eq`). `Arc` names the slots
from the head up to, but not including, the tail.
-/
import Mathlib.Data.Nat.Bitwise
import Mathlib.Tactic

namespace LibWrt.MaskRing

/-- Advance the counter: add one, mask with `n - 1`, keep `w` bits. -/
def next (n w i : Nat) : Nat := ((i + 1) &&& (n - 1)) % 2 ^ w

def size (n w : Nat) : Nat := Nat.gcd n (2 ^ w)

variable {n w : Nat}

theorem size_pos (n w : Nat) : 0 < size n w := Nat.gcd_pos_of_pos_right n (by positivity)

theorem size_le (hn : 0 < n) (w : Nat) : size n w ≤ n := Nat.gcd_le_left _ hn

/-- The size is a power of two. -/
theorem exists_size_eq (n w : Nat) : ∃ k ≤ w, size n w = 2 ^ k :=
  (Nat.dvd_prime_pow Nat.prime_two).mp (Nat.gcd_dvd_right n (2 ^ w))

/-- Below bit `k` the number `2 ^ k * m + (2 ^ k - 1)` has only ones. -/
theorem testBit_ones {k m j : Nat} (hj : j < k) :
    (2 ^ k * m + (2 ^ k - 1)).testBit j = true := by
  have hlt : 2 ^ k - 1 < 2 ^ k := Nat.sub_lt (by positivity) one_pos
  rw [Nat.testBit_two_pow_mul_add _ hlt, if_pos hj, Nat.testBit_two_pow_sub_one]
  simpa using hj

/-- The mask of a ring of `n` slots has only ones below bit `k` if `2 ^ k` divides `n`. -/
theorem mask_testBit (hn : 0 < n) {k j : Nat} (hk : 2 ^ k ∣ n) (hj : j < k) :
    (n - 1).testBit j = true := by
  obtain ⟨m, rfl⟩ := hk
  obtain ⟨m, rfl⟩ : ∃ m', m = m' + 1 := ⟨m - 1, by have := Nat.pos_of_mul_pos_left hn; omega⟩
  have hmask : 2 ^ k * (m + 1) - 1 = 2 ^ k * m + (2 ^ k - 1) := by
    have hpos : 0 < 2 ^ k := by positivity
    rw [Nat.mul_add, Nat.mul_one]
    omega
  rw [hmask]
  exact testBit_ones hj

/-- If the next power of two does not divide `n`, bit `k` of the mask is clear. -/
theorem mask_testBit_top {k : Nat} (hn : 0 < n) (hk : 2 ^ k ∣ n) (hk' : ¬ 2 ^ (k + 1) ∣ n) :
    (n - 1).testBit k = false := by
  obtain ⟨m, rfl⟩ := hk
  have hodd : m % 2 = 1 := by
    by_contra heven
    obtain ⟨c, rfl⟩ : 2 ∣ m := by omega
    exact hk' ⟨c, by rw [pow_succ]; ring⟩
  obtain ⟨m, rfl⟩ : ∃ m', m = m' + 1 := ⟨m - 1, by omega⟩
  have hpos : 0 < 2 ^ k := by positivity
  have hmask : 2 ^ k * (m + 1) - 1 = 2 ^ k * m + (2 ^ k - 1) := by
    rw [Nat.mul_add, Nat.mul_one]
    omega
  rw [hmask, Nat.testBit_two_pow_mul_add _ (Nat.sub_lt hpos one_pos), if_neg (lt_irrefl k)]
  simp only [Nat.sub_self, Nat.testBit_zero, decide_eq_false_iff_not]
  omega

/-- Inside the ring the mask does nothing. -/
theorem and_mask_of_lt (hn : 0 < n) {k x : Nat} (hk : 2 ^ k ∣ n) (hx : x < 2 ^ k) :
    x &&& (n - 1) = x := by
  apply Nat.eq_of_testBit_eq
  intro j
  rw [Nat.testBit_and]
  by_cases hj : j < k
  · rw [mask_testBit hn hk hj, Bool.and_true]
  · have hxj : x.testBit j = false :=
      Nat.testBit_lt_two_pow (lt_of_lt_of_le hx (Nat.pow_le_pow_right two_pos (by omega)))
    rw [hxj, Bool.false_and]

/-- The counter wraps at `size n w`. -/
theorem next_eq (hn : 0 < n) {i : Nat} (hi : i < size n w) :
    next n w i = (i + 1) % size n w := by
  obtain ⟨k, hkw, hsize⟩ := exists_size_eq n w
  have hdvd : 2 ^ k ∣ n := hsize ▸ Nat.gcd_dvd_left n (2 ^ w)
  have hle : 2 ^ k ≤ 2 ^ w := Nat.pow_le_pow_right two_pos hkw
  rw [hsize] at hi ⊢
  rcases Nat.lt_or_ge (i + 1) (2 ^ k) with hlt | hge
  · rw [next, and_mask_of_lt hn hdvd hlt, Nat.mod_eq_of_lt hlt, Nat.mod_eq_of_lt (by omega)]
  · have htop : i + 1 = 2 ^ k := by omega
    rw [next, htop, Nat.mod_self]
    rcases Nat.lt_or_ge k w with hk | hk
    · -- the next power of two does not divide `n`, so the mask clears the carry
      have hnot : ¬ 2 ^ (k + 1) ∣ n := by
        intro hd
        have hg : 2 ^ (k + 1) ∣ size n w :=
          Nat.dvd_gcd hd (Nat.pow_dvd_pow 2 hk)
        rw [hsize] at hg
        exact absurd (Nat.le_of_dvd (by positivity) hg)
          (by rw [pow_succ]; have : 0 < 2 ^ k := by positivity
              omega)
      rw [Nat.and_comm, Nat.and_two_pow, mask_testBit_top hn hdvd hnot]
      simp
    · -- the carry leaves the counter's word
      obtain rfl : k = w := by omega
      rw [Nat.and_comm, Nat.and_two_pow]
      cases (n - 1).testBit k <;> simp

/-- `j` steps from `h`. -/
theorem iterate_next (hn : 0 < n) {h : Nat} (hh : h < size n w) (j : Nat) :
    (next n w)^[j] h = (h + j) % size n w := by
  induction j with
  | zero => simp [Nat.mod_eq_of_lt hh]
  | succ j ih =>
    rw [Function.iterate_succ_apply', ih, next_eq hn (Nat.mod_lt _ (size_pos n w)),
      Nat.mod_add_mod, Nat.add_assoc]

/-! ## The slots from head to tail -/

/-- Slot `k` is met from `h` on, advancing with `f`, before `t`. -/
def Arc (f : Nat → Nat) (h t k : Nat) : Prop :=
  ∃ j, f^[j] h = k ∧ ∀ i ≤ j, f^[i] h ≠ t

/-- Two counters fewer than a ring apart are equal only if they are the same step. -/
theorem mod_ne {R h i d : Nat} (hi : i < d) (hd : d < R) : (h + i) % R ≠ (h + d) % R := by
  intro heq
  have hmod : (h + d - (h + i)) % R = 0 := Nat.sub_mod_eq_zero_of_mod_eq heq.symm
  have hsub : h + d - (h + i) = d - i := by omega
  rw [hsub, Nat.mod_eq_of_lt (by omega)] at hmod
  omega

/-- With the tail `d` steps ahead of the head, the arc is the first `d` steps. -/
theorem arc_iff (hn : 0 < n) {h d k : Nat} (hh : h < size n w) (hd : d < size n w) :
    Arc (next n w) h ((h + d) % size n w) k ↔ ∃ j < d, k = (h + j) % size n w := by
  constructor
  · rintro ⟨j, hj, hne⟩
    rw [iterate_next hn hh] at hj
    refine ⟨j, ?_, hj.symm⟩
    by_contra hge
    exact hne d (by omega) (iterate_next hn hh d)
  · rintro ⟨j, hj, rfl⟩
    refine ⟨j, iterate_next hn hh j, ?_⟩
    intro i hi
    rw [iterate_next hn hh]
    exact mod_ne (by omega) hd

end LibWrt.MaskRing
