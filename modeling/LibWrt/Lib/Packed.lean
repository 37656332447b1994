/-
LibWrt.Lib.Packed — two-bit fields packed into the words of an array.

Field `i` lies in word `i / per` of `w = 2 * per` bits. Writing a field
changes no other one (`get_set_ne`), and reads back what was written
(`get_set_self`).
-/
import Mathlib.Tactic

namespace LibWrt.Packed

open BitVec

variable {w : Nat}

/-- The shift of field `i` in its word. -/
def shift (w i : Nat) : Nat := i % (w / 2) * 2

def get (ws : List (BitVec w)) (i : Nat) : BitVec w :=
  (ws.getD (i / (w / 2)) 0 >>> shift w i) &&& 3

def set (ws : List (BitVec w)) (i : Nat) (v : BitVec w) : List (BitVec w) :=
  ws.modify (i / (w / 2)) fun word =>
    (word &&& ~~~((3 : BitVec w) <<< shift w i)) ||| ((v &&& 3) <<< shift w i)

@[simp] theorem length_set (ws : List (BitVec w)) (i : Nat) (v : BitVec w) :
    (set ws i v).length = ws.length := by
  simp [set]

theorem getLsbD_three (hw : 2 ≤ w) (k : Nat) : (3 : BitVec w).getLsbD k = decide (k < 2) := by
  have h3 : (3 : BitVec w) = BitVec.ofNat w 3 := rfl
  rw [h3, getLsbD_ofNat]
  rcases k with _ | _ | k
  · simp; omega
  · simp [Nat.testBit]; omega
  · have : Nat.testBit 3 (k + 2) = false :=
      Nat.testBit_lt_two_pow (lt_of_lt_of_le (by omega : 3 < 2 ^ 2) (Nat.pow_le_pow_right (by omega) (by omega)))
    simp [this]

/-- A field is its two bits. -/
theorem getLsbD_get (hw : 2 ≤ w) (ws : List (BitVec w)) (i k : Nat) :
    (get ws i).getLsbD k =
      (decide (k < 2) && (ws.getD (i / (w / 2)) 0).getLsbD (shift w i + k)) := by
  simp only [get, getLsbD_and, getLsbD_ushiftRight, getLsbD_three hw]
  rw [Bool.and_comm]

theorem shift_lt (hw : 2 ≤ w) (i : Nat) : shift w i + 2 ≤ w := by
  have : i % (w / 2) < w / 2 := Nat.mod_lt _ (by omega)
  unfold shift
  omega

theorem getLsbD_set_word (hw : 2 ≤ w) (word v : BitVec w) {s k : Nat} (hk : k < w) :
    ((word &&& ~~~((3 : BitVec w) <<< s)) ||| ((v &&& 3) <<< s)).getLsbD k =
      if s ≤ k ∧ k < s + 2 then v.getLsbD (k - s) else word.getLsbD k := by
  simp only [getLsbD_or, getLsbD_and, getLsbD_not, getLsbD_shiftLeft,
    getLsbD_three hw, hk, decide_true, Bool.true_and]
  by_cases hs : k < s
  · have hn : ¬ (s ≤ k ∧ k < s + 2) := by omega
    simp [hs, hn]
  · by_cases h2 : k < s + 2
    · have hin : s ≤ k ∧ k < s + 2 := by omega
      have hd : k - s < 2 := by omega
      simp [hs, hin, hd]
    · have hn : ¬ (s ≤ k ∧ k < s + 2) := by omega
      have hd : ¬ (k - s < 2) := by omega
      simp [hs, hn, hd]

theorem getD_modify (ws : List (BitVec w)) (f : BitVec w → BitVec w) (u t : Nat) :
    (ws.modify u f).getD t 0 =
      if u = t ∧ t < ws.length then f (ws.getD t 0) else ws.getD t 0 := by
  simp only [List.getD_eq_getElem?_getD, List.getElem?_modify]
  by_cases hut : u = t
  · subst hut
    by_cases hlt : u < ws.length
    · simp [hlt]
    · simp [hlt]
  · simp [hut]

theorem get_set_self (hw : 2 ≤ w) (ws : List (BitVec w)) {i : Nat} (v : BitVec w)
    (hi : i / (w / 2) < ws.length) : get (set ws i v) i = v &&& 3 := by
  apply eq_of_getLsbD_eq
  intro k hk
  rw [getLsbD_get hw, set, getD_modify, if_pos ⟨rfl, hi⟩, getLsbD_and, getLsbD_three hw]
  by_cases h2 : k < 2
  · have hs := shift_lt hw i
    rw [getLsbD_set_word hw _ _ (by omega), if_pos (by omega)]
    simp [h2]
  · simp [h2]

theorem get_set_ne (hw : 2 ≤ w) (ws : List (BitVec w)) {i j : Nat} (v : BitVec w)
    (hij : i ≠ j) : get (set ws i v) j = get ws j := by
  apply eq_of_getLsbD_eq
  intro k hk
  rw [getLsbD_get hw, getLsbD_get hw, set, getD_modify]
  split
  · rename_i hword
    by_cases h2 : k < 2
    · have hs := shift_lt hw j
      -- the same word, but another place in it
      have hne : ¬ (shift w i ≤ shift w j + k ∧ shift w j + k < shift w i + 2) := by
        intro hc
        apply hij
        have hmod : i % (w / 2) = j % (w / 2) := by unfold shift at hc; omega
        rw [← Nat.div_add_mod i (w / 2), ← Nat.div_add_mod j (w / 2), hword.1, hmod]
      rw [getLsbD_set_word hw _ _ (by omega), if_neg hne]
    · simp [h2]
  · rfl

end LibWrt.Packed
