/-
LibWrt.Lib.Held — tokens that owners hold and that are marked as in use.

A pool marks some of its tokens as in use. `Held used ts` says that the
tokens `ts` are held once each and are all marked. A pool may lose a token
(marked, and held by nobody); what it may not do is to mark a held token as
free. `Held.take` and `Held.give` are the two changes, and `findFirstBit` is
how a bitmap finds a token to give out.
-/
import Mathlib.Tactic

namespace LibWrt

/-- The tokens are held once each, and are marked as in use. -/
structure Held {α : Type} (used : α → Prop) (ts : List α) : Prop where
  nodup : ts.Nodup
  used : ∀ t ∈ ts, used t

namespace Held

variable {α : Type} {used used' : α → Prop} {t : α} {ts ts' : List α}

theorem nil (used : α → Prop) : Held used [] :=
  ⟨List.nodup_nil, by simp⟩

theorem perm (h : Held used ts) (hp : ts.Perm ts') : Held used ts' :=
  ⟨hp.nodup_iff.mp h.nodup, fun t ht => h.used t (hp.mem_iff.mpr ht)⟩

theorem mono (h : Held used ts) (hkeep : ∀ x ∈ ts, used x → used' x) : Held used' ts :=
  ⟨h.nodup, fun t ht => hkeep t ht (h.used t ht)⟩

theorem not_mem (h : Held used ts) (hfree : ¬ used t) : t ∉ ts :=
  fun ht => hfree (h.used t ht)

theorem take (h : Held used ts) (hfree : ¬ used t) (hkeep : ∀ x, used x → used' x)
    (ht : used' t) : Held used' (t :: ts) := by
  refine ⟨List.nodup_cons.mpr ⟨h.not_mem hfree, h.nodup⟩, ?_⟩
  intro x hx
  rcases List.mem_cons.mp hx with rfl | hx
  · exact ht
  · exact hkeep x (h.used x hx)

/-- A token is given back. -/
theorem give (h : Held used (t :: ts)) (hkeep : ∀ x, x ≠ t → used x → used' x) :
    Held used' ts := by
  obtain ⟨hnot, hnodup⟩ := List.nodup_cons.mp h.nodup
  refine ⟨hnodup, ?_⟩
  intro x hx
  have hne : x ≠ t := by
    rintro rfl
    exact hnot hx
  exact hkeep x hne (h.used x (List.mem_cons_of_mem t hx))

end Held

/-! ## Bitmaps -/

/-- The first bit that is set, from bit `i` on and among `n`; `i + n` where there is none. -/
def findBitFrom (bm : Nat → Bool) : Nat → Nat → Nat
  | 0, i => i
  | n + 1, i => if bm i then i else findBitFrom bm n (i + 1)

def findFirstBit (bm : Nat → Bool) (size : Nat) : Nat := findBitFrom bm size 0

def findFirstZeroBit (bm : Nat → Bool) (size : Nat) : Nat := findFirstBit (fun i => !bm i) size

section Bitmaps

variable {bm : Nat → Bool} {size : Nat}

theorem findBitFrom_cases (bm : Nat → Bool) (n i : Nat) :
    (findBitFrom bm n i < i + n ∧ bm (findBitFrom bm n i) = true) ∨
    (findBitFrom bm n i = i + n ∧ ∀ k, i ≤ k → k < i + n → bm k = false) := by
  induction n generalizing i with
  | zero => exact .inr ⟨rfl, fun k hk hlt => by omega⟩
  | succ n ih =>
    by_cases hi : bm i = true
    · simp only [findBitFrom, hi, if_true]
      exact .inl ⟨by omega, trivial⟩
    · simp only [findBitFrom, hi, Bool.false_eq_true, if_false]
      rcases ih (i + 1) with ⟨hlt, hbit⟩ | ⟨heq, hnone⟩
      · exact .inl ⟨by omega, hbit⟩
      · refine .inr ⟨by omega, ?_⟩
        intro k hk hlt
        rcases Nat.eq_or_lt_of_le hk with rfl | hgt
        · simpa using hi
        · exact hnone k hgt (by omega)

theorem findFirstBit_cases (bm : Nat → Bool) (size : Nat) :
    (findFirstBit bm size < size ∧ bm (findFirstBit bm size) = true) ∨
    (findFirstBit bm size = size ∧ ∀ k < size, bm k = false) := by
  rcases findBitFrom_cases bm size 0 with ⟨hlt, hbit⟩ | ⟨heq, hnone⟩
  · rw [Nat.zero_add] at hlt
    exact .inl ⟨hlt, hbit⟩
  · rw [Nat.zero_add] at heq hnone
    exact .inr ⟨heq, fun k hk => hnone k (Nat.zero_le k) hk⟩

theorem findFirstZeroBit_cases (bm : Nat → Bool) (size : Nat) :
    (findFirstZeroBit bm size < size ∧ bm (findFirstZeroBit bm size) = false) ∨
    (findFirstZeroBit bm size = size ∧ ∀ k < size, bm k = true) := by
  rcases findFirstBit_cases (fun i => !bm i) size with ⟨hlt, hbit⟩ | ⟨heq, hnone⟩
  · exact .inl ⟨hlt, by simpa [findFirstZeroBit] using hbit⟩
  · exact .inr ⟨heq, fun k hk => by simpa using hnone k hk⟩

theorem findFirstBit_of_lt (h : findFirstBit bm size < size) : bm (findFirstBit bm size) = true := by
  rcases findFirstBit_cases bm size with ⟨-, hbit⟩ | ⟨heq, -⟩
  · exact hbit
  · omega

theorem findFirstZeroBit_of_lt (h : findFirstZeroBit bm size < size) :
    bm (findFirstZeroBit bm size) = false := by
  rcases findFirstZeroBit_cases bm size with ⟨-, hbit⟩ | ⟨heq, -⟩
  · exact hbit
  · omega

theorem findFirstZeroBit_lt {i : Nat} (hi : i < size) (hfree : bm i = false) :
    findFirstZeroBit bm size < size := by
  rcases findFirstZeroBit_cases bm size with ⟨hlt, -⟩ | ⟨-, hall⟩
  · exact hlt
  · have hset := hall i hi
    rw [hfree] at hset
    cases hset

end Bitmaps

end LibWrt
