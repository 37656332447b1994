/-
LibWrt.Lib.Skip — counting past the members of a sorted list.

`skip l n` steps over the members of `l` that are met on the way up from `n`.
For a strictly sorted list it is the increasing enumeration of the numbers
that are not in the list: strictly monotone (`skip_lt`), outside of the list
(`skip_not_mem`) and onto (`exists_skip`).
-/
import Mathlib.Data.List.Basic
import Mathlib.Algebra.Group.Nat.Defs

namespace LibWrt.Skip

open List

def skip (l : List Nat) (n : Nat) : Nat := l.foldl (fun n x => if x ≤ n then n + 1 else n) n

@[simp] theorem skip_nil (n : Nat) : skip [] n = n := rfl

theorem skip_cons (x : Nat) (l : List Nat) (n : Nat) :
    skip (x :: l) n = skip l (if x ≤ n then n + 1 else n) := rfl

theorem le_skip (l : List Nat) (n : Nat) : n ≤ skip l n := by
  induction l generalizing n with
  | nil => exact Nat.le_refl n
  | cons x l ih =>
    rw [skip_cons]
    split
    · have := ih (n + 1)
      omega
    · exact ih n

theorem skip_le (l : List Nat) (n : Nat) : skip l n ≤ n + l.length := by
  induction l generalizing n with
  | nil => exact Nat.le_refl n
  | cons x l ih =>
    rw [skip_cons, length_cons]
    split
    · have := ih (n + 1)
      omega
    · have := ih n
      omega

/-- Nothing is skipped below the list. -/
theorem skip_of_lt {l : List Nat} {n : Nat} (h : ∀ x ∈ l, n < x) : skip l n = n := by
  induction l with
  | nil => rfl
  | cons x l ih =>
    have hx := h x mem_cons_self
    rw [skip_cons, if_neg (by omega), ih fun y hy => h y (mem_cons_of_mem _ hy)]

theorem skip_lt (l : List Nat) {m n : Nat} (h : m < n) : skip l m < skip l n := by
  induction l generalizing m n with
  | nil => exact h
  | cons x l ih =>
    rw [skip_cons, skip_cons]
    apply ih
    split <;> split <;> omega

theorem skip_injective (l : List Nat) : Function.Injective (skip l) := by
  intro m n h
  rcases Nat.lt_trichotomy m n with hlt | heq | hgt
  · exact absurd h (Nat.ne_of_lt (skip_lt l hlt))
  · exact heq
  · exact absurd h (Nat.ne_of_gt (skip_lt l hgt))

section Sorted

variable {l : List Nat} (h : l.Pairwise (· < ·))

include h

theorem skip_not_mem (n : Nat) : skip l n ∉ l := by
  induction l generalizing n with
  | nil => simp
  | cons x l ih =>
    obtain ⟨hx, hl⟩ := pairwise_cons.mp h
    rw [skip_cons, mem_cons, not_or]
    refine ⟨?_, ih hl _⟩
    split
    · have := le_skip l (n + 1)
      omega
    · rw [skip_of_lt fun y hy => by have := hx y hy; omega]
      omega

theorem exists_skip {p : Nat} (hp : p ∉ l) : ∃ n, skip l n = p := by
  induction l with
  | nil => exact ⟨p, rfl⟩
  | cons x l ih =>
    obtain ⟨hx, hl⟩ := pairwise_cons.mp h
    rw [mem_cons, not_or] at hp
    obtain ⟨n, hn⟩ := ih hl hp.2
    rcases Nat.lt_or_ge p x with hlt | hge
    · exact ⟨p, skip_of_lt fun y hy => by
        rcases mem_cons.mp hy with rfl | hy
        · exact hlt
        · have := hx y hy
          omega⟩
    · -- what lies above `x` is met after it
      have hnx : x < n := by
        by_contra hle
        rw [skip_of_lt fun y hy => by have := hx y hy; omega] at hn
        omega
      exact ⟨n - 1, by rw [skip_cons, if_pos (by omega), Nat.sub_add_cancel (by omega), hn]⟩

theorem length_le_of_sorted {lo hi : Nat} (hl : ∀ x ∈ l, lo ≤ x ∧ x < hi) :
    l.length ≤ hi - lo := by
  induction l generalizing lo with
  | nil => simp
  | cons x l ih =>
    obtain ⟨hx, hsorted⟩ := pairwise_cons.mp h
    have hbound := hl x mem_cons_self
    have := ih hsorted fun y hy => ⟨hx y hy, (hl y (mem_cons_of_mem _ hy)).2⟩
    simp only [length_cons]
    omega

/-- Behind as many numbers as there are below a bound, the bound is passed. -/
theorem le_skip_of_le {n hi : Nat} (hl : ∀ x ∈ l, x < hi) (hn : hi ≤ n + l.length) :
    hi ≤ skip l n := by
  induction l generalizing n with
  | nil => simpa using hn
  | cons x l ih =>
    obtain ⟨hx, hsorted⟩ := pairwise_cons.mp h
    simp only [length_cons] at hn
    rw [skip_cons]
    split
    · exact ih hsorted (fun y hy => hl y (mem_cons_of_mem _ hy)) (by omega)
    · -- all of the list lies between `n` and the bound
      have hbetween : ∀ y ∈ x :: l, n + 1 ≤ y := by
        intro y hy
        rcases mem_cons.mp hy with rfl | hy
        · omega
        · have := hx y hy
          omega
      have hlen := length_le_of_sorted h fun y hy => ⟨hbetween y hy, hl y hy⟩
      simp only [length_cons] at hlen
      have := hl x mem_cons_self
      omega

end Sorted

end LibWrt.Skip
