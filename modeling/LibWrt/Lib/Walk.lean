/-
LibWrt.Lib.Walk — going from place to place by what is read there.

A walk starts at a place, and from each place where it goes on it leads to the
next one. It comes to an end after `n` places (`StopsAt`), or it never does:
with only so many places to go on from, that is when it comes back to one
(`exists_stopsAt_iff`). `ends_iff` takes a loop that walks, and that is left
where a place is not as it should be.
-/
import LibWrt.Lib.Loop

namespace LibWrt.Walk

open LibWrt.Loop

variable {α β ρ σ : Type} (next : α → α) (goes : α → Prop) (start : α)

/-- Where the walk is after `i` places. -/
def place : Nat → α
  | 0 => start
  | i + 1 => next (place i)

/-- The walk goes on from the first `n` places. -/
def Visits (n : Nat) : Prop := ∀ i < n, goes (place next start i)

/-- The walk comes to an end after `n` places. -/
def StopsAt (n : Nat) : Prop := Visits next goes start n ∧ ¬ goes (place next start n)

/-- The walk does not come back to a place that it went on from. -/
def NoReturn : Prop :=
  ∀ j, Visits next goes start (j + 1) → ∀ i < j, place next start i ≠ place next start j

variable {next goes start}

theorem Visits.succ {n : Nat} (h : Visits next goes start n) (hn : goes (place next start n)) :
    Visits next goes start (n + 1) := by
  intro i hi
  rcases Nat.lt_succ_iff_lt_or_eq.mp hi with hlt | rfl
  · exact h i hlt
  · exact hn

theorem Visits.mono {n m : Nat} (h : Visits next goes start n) (hm : m ≤ n) :
    Visits next goes start m := fun i hi => h i (Nat.lt_of_lt_of_le hi hm)

theorem visits_zero : Visits next goes start 0 := fun i hi => absurd hi i.not_lt_zero

theorem StopsAt.unique {n m : Nat} (hn : StopsAt next goes start n)
    (hm : StopsAt next goes start m) : n = m := by
  rcases Nat.lt_trichotomy n m with hlt | heq | hlt
  · exact absurd (hm.1 n hlt) hn.2
  · exact heq
  · exact absurd (hn.1 m hlt) hm.2

theorem StopsAt.le {n i : Nat} (hn : StopsAt next goes start n) (hi : Visits next goes start i) :
    i ≤ n := by
  by_contra hlt
  exact hn.2 (hi n (by omega))

theorem place_add {i j : Nat} (h : place next start i = place next start j) (k : Nat) :
    place next start (i + k) = place next start (j + k) := by
  induction k with
  | zero => exact h
  | succ k ih => rw [← Nat.add_assoc, ← Nat.add_assoc, place, place, ih]

theorem exists_stopsAt_iff [Finite {a // goes a}] :
    (∃ n, StopsAt next goes start n) ↔ NoReturn next goes start := by
  constructor
  · rintro ⟨n, hstop⟩ j hj i hij heq
    have hjn : j < n := hstop.le hj
    have hround := place_add heq (n - j)
    rw [Nat.add_sub_cancel' hjn.le] at hround
    refine hstop.2 ?_
    rw [← hround]
    exact hstop.1 _ (by omega)
  · intro hret
    by_contra hnone
    have hall : ∀ n, Visits next goes start n := by
      intro n
      induction n with
      | zero => exact visits_zero
      | succ n ih =>
        refine ih.succ ?_
        by_contra hend
        exact hnone ⟨n, ih, hend⟩
    -- infinitely many turns, and only so many places
    obtain ⟨i, j, hne, heq⟩ := Finite.exists_ne_map_eq_of_infinite
      fun i : Nat => (⟨place next start i, hall (i + 1) i i.lt_succ_self⟩ : {a // goes a})
    have heq' : place next start i = place next start j := congrArg Subtype.val heq
    rcases Nat.lt_or_gt_of_ne hne with hlt | hlt
    · exact hret j (hall _) i hlt heq'
    · exact hret i (hall _) j hlt heq'.symm

/-! ## A loop that walks -/

def gathered (next : α → α) (start : α) (gather : α → β → β) (b : β) : Nat → β
  | 0 => b
  | n + 1 => gather (place next start n) (gathered next start gather b n)

/-- The loop goes to the next place, or ends with a result, where a place is good, and is left
where it is not. -/
structure Walks (turn : α × β → (α × β) ⊕ ρ) (next : α → α) (goes good : α → Prop)
    (gather : α → β → β) (result : α → β → ρ) (left : ρ) : Prop where
  go : ∀ a b, good a → goes a → turn (a, b) = .inl (next a, gather a b)
  stop : ∀ a b, good a → ¬ goes a → turn (a, b) = .inr (result a b)
  leave : ∀ a b, ¬ good a → turn (a, b) = .inr left
  ne : ∀ a b, result a b ≠ left

section Walks

variable {turn : α × β → (α × β) ⊕ ρ} {good : α → Prop} {gather : α → β → β}
  {result : α → β → ρ} {left : ρ}

theorem Walks.leads (h : Walks turn next goes good gather result left) {b : β} {n : Nat}
    (hvisits : Visits next goes start n) (hgood : ∀ i < n, good (place next start i)) :
    Leads turn (start, b) (place next start n, gathered next start gather b n) := by
  induction n with
  | zero => exact .refl
  | succ n ih =>
    refine .tail (ih (hvisits.mono n.le_succ) fun i hi => hgood i (by omega)) ?_
    exact h.go _ _ (hgood n n.lt_succ_self) (hvisits n n.lt_succ_self)

/-- A loop ends well if and only if the walk comes to an end at good places only. -/
theorem Walks.ends_iff (h : Walks turn next goes good gather result left) {b : β} {r : ρ}
    (hr : r ≠ left) :
    Ends turn (start, b) r ↔ ∃ n, StopsAt next goes start n ∧
      (∀ i ≤ n, good (place next start i)) ∧
        r = result (place next start n) (gathered next start gather b n) := by
  constructor
  · intro hends
    suffices hfrom : ∀ (s : α × β), Ends turn s r → ∀ m,
        Visits next goes start m → (∀ i < m, good (place next start i)) →
        s = (place next start m, gathered next start gather b m) →
        ∃ n, StopsAt next goes start n ∧ (∀ i ≤ n, good (place next start i)) ∧
          r = result (place next start n) (gathered next start gather b n) from
      hfrom _ hends 0 visits_zero (fun i hi => absurd hi i.not_lt_zero) rfl
    clear hends
    intro s hs
    induction hs with
    | @stop s r hturn =>
      rintro m hvisits hgood rfl
      by_cases hg : good (place next start m)
      · by_cases hgo : goes (place next start m)
        · rw [h.go _ _ hg hgo] at hturn
          cases hturn
        · rw [h.stop _ _ hg hgo] at hturn
          refine ⟨m, ⟨hvisits, hgo⟩, fun i hi => ?_, (Sum.inr.inj hturn).symm⟩
          rcases Nat.eq_or_lt_of_le hi with rfl | hlt
          · exact hg
          · exact hgood i hlt
      · rw [h.leave _ _ hg] at hturn
        exact absurd (Sum.inr.inj hturn).symm hr
    | @next s s' r hturn _ ih =>
      rintro m hvisits hgood rfl
      by_cases hg : good (place next start m)
      · by_cases hgo : goes (place next start m)
        · rw [h.go _ _ hg hgo] at hturn
          refine ih hr (m + 1) (hvisits.succ hgo) (fun i hi => ?_)
            (Sum.inl.inj hturn).symm
          rcases Nat.lt_succ_iff_lt_or_eq.mp hi with hlt | rfl
          · exact hgood i hlt
          · exact hg
        · rw [h.stop _ _ hg hgo] at hturn
          cases hturn
      · rw [h.leave _ _ hg] at hturn
        cases hturn
  · rintro ⟨n, hstop, hgood, rfl⟩
    exact (h.leads hstop.1 fun i hi => hgood i hi.le).ends
      (.stop (h.stop _ _ (hgood n le_rfl) hstop.2))

end Walks

/-! ## A loop along a walk -/

/-- The loop goes on only where the walk does, and then to the next place; it may end before. -/
def Follows (turn : σ → σ ⊕ ρ) (pos : σ → α) (next : α → α) (goes : α → Prop) : Prop :=
  ∀ s s', turn s = .inl s' → goes (pos s) ∧ pos s' = next (pos s)

section Follows

variable {turn : σ → σ ⊕ ρ} {pos : σ → α} {s : σ}

theorem place_next (start : α) (i : Nat) :
    place next (next start) i = place next start (i + 1) := by
  induction i with
  | zero => rfl
  | succ i ih => exact congrArg next ih

theorem StopsAt.tail {n : Nat} (h : StopsAt next goes start (n + 1)) :
    StopsAt next goes (next start) n := by
  refine ⟨fun i hi => ?_, ?_⟩
  · rw [place_next]
    exact h.1 _ (Nat.succ_lt_succ hi)
  · rw [place_next]
    exact h.2

theorem Follows.leads (h : Follows turn pos next goes) {s' : σ} (hleads : Leads turn s s') :
    ∃ i, Visits next goes (pos s) i ∧ pos s' = place next (pos s) i := by
  induction hleads with
  | refl => exact ⟨0, visits_zero, rfl⟩
  | tail _ hturn ih =>
    obtain ⟨i, hvisits, hpos⟩ := ih
    obtain ⟨hgoes, hnext⟩ := h _ _ hturn
    rw [hpos] at hgoes hnext
    exact ⟨i + 1, hvisits.succ hgoes, hnext⟩

/-- It ends where the walk does, or before. -/
theorem Follows.exists_ends (h : Follows turn pos next goes) {n : Nat}
    (hstop : StopsAt next goes (pos s) n) : ∃ r, Ends turn s r := by
  induction n generalizing s with
  | zero =>
    cases hturn : turn s with
    | inl s' => exact absurd (h s s' hturn).1 hstop.2
    | inr r => exact ⟨r, .stop hturn⟩
  | succ n ih =>
    cases hturn : turn s with
    | inl s' =>
      have htail := hstop.tail
      rw [← (h s s' hturn).2] at htail
      obtain ⟨r, hr⟩ := ih htail
      exact ⟨r, .next hturn hr⟩
    | inr r => exact ⟨r, .stop hturn⟩

variable (hgo : ∀ s, goes (pos s) → ∃ s', turn s = .inl s')

include hgo

theorem Follows.exists_leads (h : Follows turn pos next goes) {n : Nat}
    (hvisits : Visits next goes (pos s) n) :
    ∃ s', Leads turn s s' ∧ pos s' = place next (pos s) n := by
  induction n with
  | zero => exact ⟨s, .refl, rfl⟩
  | succ n ih =>
    obtain ⟨s', hleads, hpos⟩ := ih (hvisits.mono n.le_succ)
    have hgoes := hvisits n n.lt_succ_self
    rw [← hpos] at hgoes
    obtain ⟨s'', hturn⟩ := hgo s' hgoes
    exact ⟨s'', hleads.tail hturn, (h s' s'' hturn).2.trans (congrArg next hpos)⟩

theorem Follows.exists_stopsAt (h : Follows turn pos next goes) {r : ρ} (hends : Ends turn s r) :
    ∃ n, StopsAt next goes (pos s) n := by
  obtain ⟨s', hleads, hturn⟩ := ends_iff_leads.mp hends
  obtain ⟨n, hvisits, hpos⟩ := h.leads hleads
  refine ⟨n, hvisits, fun hgoes => ?_⟩
  rw [← hpos] at hgoes
  obtain ⟨s'', hnext⟩ := hgo s' hgoes
  rw [hturn] at hnext
  cases hnext

end Follows

end LibWrt.Walk
