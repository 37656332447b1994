/-
LibWrt.Lib.Loop — loops that go on until a turn ends them.

A turn leads to the next state, or ends the loop with a result. `run` gives a
loop a number of turns, `Ends` says that it ends at all: with turns enough, it
does so with the same result (`ends_iff_run`). `Leads` are the states that are
reached on the way, and `exists_ends` has the usual measure.

`Gives` says that a computation with several loops has a result when each of
them gets turns enough, and has a rule for each way to put loops together.

A loop over an index that may be left early is a `foldlM` over a range.
-/
import Mathlib.Tactic

namespace LibWrt.Loop

open Option Nat List

variable {σ ρ : Type}

def run (turn : σ → σ ⊕ ρ) : Nat → σ → Option ρ
  | 0, _ => none
  | n + 1, s =>
    match turn s with
    | .inl s' => run turn n s'
    | .inr r => some r

inductive Ends (turn : σ → σ ⊕ ρ) : σ → ρ → Prop where
  | stop {s : σ} {r : ρ} : turn s = .inr r → Ends turn s r
  | next {s s' : σ} {r : ρ} : turn s = .inl s' → Ends turn s' r → Ends turn s r

def Leads (turn : σ → σ ⊕ ρ) : σ → σ → Prop :=
  Relation.ReflTransGen fun s s' => turn s = .inl s'

variable {turn : σ → σ ⊕ ρ}

variable {n : Nat} {s : σ} {r : ρ}

theorem run_mono {k : Nat} (h : run turn n s = some r) (hk : n ≤ k) :
    run turn k s = some r := by
  induction n generalizing k s with
  | zero => cases h
  | succ n ih =>
    obtain ⟨k, rfl⟩ := Nat.exists_eq_add_of_le' (Nat.le_trans (succ_le_succ n.zero_le) hk)
    rw [run] at h ⊢
    split at h
    · exact ih h (le_of_succ_le_succ hk)
    · exact h

theorem ends_of_run (h : run turn n s = some r) : Ends turn s r := by
  induction n generalizing s with
  | zero => cases h
  | succ n ih =>
    rw [run] at h
    split at h
    · rename_i s' hturn
      exact .next hturn (ih h)
    · rename_i r' hturn
      cases h
      exact .stop hturn

theorem Ends.run (h : Ends turn s r) : ∃ n, run turn n s = some r := by
  induction h with
  | stop hturn =>
    refine ⟨1, ?_⟩
    rw [Loop.run, hturn]
  | next hturn _ ih =>
    obtain ⟨n, hn⟩ := ih
    refine ⟨n + 1, ?_⟩
    rw [Loop.run, hturn]
    exact hn

/-- A loop ends if and only if turns enough end it. -/
theorem ends_iff_run : Ends turn s r ↔ ∃ n, run turn n s = some r :=
  ⟨Ends.run, fun h => h.elim fun _ => ends_of_run⟩

theorem Ends.unique {r' : ρ} (h : Ends turn s r) (h' : Ends turn s r') : r = r' := by
  obtain ⟨n, hn⟩ := h.run
  obtain ⟨k, hk⟩ := h'.run
  have hr := run_mono hn (Nat.le_max_left n k)
  have hr' := run_mono hk (Nat.le_max_right n k)
  exact some.inj (hr.symm.trans hr')

theorem Leads.ends {s' : σ} (h : Leads turn s s') (hends : Ends turn s' r) :
    Ends turn s r := by
  induction h using Relation.ReflTransGen.head_induction_on with
  | refl => exact hends
  | head hturn _ ih => exact .next hturn ih

/-- A loop ends in a state that it leads to. -/
theorem ends_iff_leads :
    Ends turn s r ↔ ∃ s', Leads turn s s' ∧ turn s' = .inr r := by
  constructor
  · intro h
    induction h with
    | stop hturn => exact ⟨_, .refl, hturn⟩
    | next hturn _ ih =>
      obtain ⟨s', hleads, hstop⟩ := ih
      exact ⟨s', .head hturn hleads, hstop⟩
  · rintro ⟨s', hleads, hstop⟩
    exact hleads.ends (.stop hstop)

/-- What a turn preserves holds where the loop leads to. -/
theorem Leads.invariant {inv : σ → Prop} {s s' : σ} (h : Leads turn s s') (hs : inv s)
    (hstep : ∀ s s', inv s → turn s = .inl s' → inv s') : inv s' := by
  induction h with
  | refl => exact hs
  | tail _ hturn ih => exact hstep _ _ ih hturn

/-- A measure that each turn makes smaller is turns enough. -/
theorem exists_run (measure : σ → Nat) (hless : ∀ s s', turn s = .inl s' → measure s' < measure s)
    (hn : measure s < n) : ∃ r, run turn n s = some r := by
  induction n generalizing s with
  | zero => exact absurd hn (Nat.not_lt_zero _)
  | succ n ih =>
    rw [run]
    split
    · rename_i s' hturn
      exact ih (Nat.lt_of_lt_of_le (hless s s' hturn) (le_of_lt_succ hn))
    · exact ⟨_, rfl⟩

theorem exists_ends (measure : σ → Nat)
    (hless : ∀ s s', turn s = .inl s' → measure s' < measure s) (s : σ) :
    ∃ r, Ends turn s r := by
  obtain ⟨r, hr⟩ := exists_run measure hless (lt_succ_self (measure s))
  exact ⟨r, ends_of_run hr⟩

/-! ## Looking at positions a step apart -/

def seekTurn (step : Nat) (stop : Int) (look : Nat → Option ρ) (o : Nat) :
    Nat ⊕ Option (Nat × ρ) :=
  if (o : Int) < stop then
    match look o with
    | some r => .inr (some (o, r))
    | none => .inl (o + step)
  else .inr none

/-- The first position, from `off` on, where something is seen. -/
def FirstSeen (step : Nat) (stop : Int) (look : Nat → Option ρ) (off o : Nat) (r : ρ) : Prop :=
  ∃ k, o = off + k * step ∧ (o : Int) < stop ∧ look o = some r ∧
    ∀ j < k, look (off + j * step) = none

section Seek

variable {step : Nat} {stop : Int} {look : Nat → Option ρ}

variable {off o : Nat} {r : ρ}

theorem FirstSeen.of_end (h : Ends (seekTurn step stop look) off (some (o, r))) :
    FirstSeen step stop look off o r := by
  generalize hres : some (o, r) = res at h
  induction h with
  | @stop off res hturn =>
    subst hres
    rw [seekTurn] at hturn
    split_ifs at hturn with hlt
    · split at hturn
      · rename_i r' hlook
        obtain ⟨rfl, rfl⟩ := Prod.mk.inj (some.inj (Sum.inr.inj hturn))
        exact ⟨0, by simp, hlt, hlook, fun j hj => absurd hj j.not_lt_zero⟩
      · cases hturn
    · cases Sum.inr.inj hturn
  | @next off off' res hturn _ ih =>
    obtain ⟨k, rfl, hlt, hlook, hnone⟩ := ih hres
    rw [seekTurn] at hturn
    split_ifs at hturn
    split at hturn
    · cases hturn
    · rename_i hthis
      obtain rfl := Sum.inl.inj hturn
      refine ⟨k + 1, by rw [succ_mul, Nat.add_right_comm, Nat.add_assoc], hlt, hlook, ?_⟩
      intro j hj
      cases j with
      | zero => simpa using hthis
      | succ j =>
        have hprev := hnone j (lt_of_succ_lt_succ hj)
        rwa [Nat.add_right_comm, Nat.add_assoc, ← succ_mul] at hprev

theorem FirstSeen.ends (h : FirstSeen step stop look off o r) :
    Ends (seekTurn step stop look) off (some (o, r)) := by
  obtain ⟨k, rfl, hlt, hlook, hnone⟩ := h
  induction k generalizing off with
  | zero =>
    refine .stop ?_
    rw [Nat.zero_mul, Nat.add_zero] at hlt hlook ⊢
    rw [seekTurn, if_pos hlt, hlook]
  | succ k ih =>
    have hthis := hnone 0 k.succ_pos
    rw [Nat.zero_mul, Nat.add_zero] at hthis
    have hpos : off + (k + 1) * step = off + step + k * step := by
      rw [succ_mul, ← Nat.add_assoc, Nat.add_right_comm]
    rw [hpos] at hlt hlook ⊢
    have hturn : seekTurn step stop look off = .inl (off + step) := by
      rw [seekTurn, if_pos (by omega), hthis]
    refine .next hturn (ih hlt hlook fun j hj => ?_)
    have hnext := hnone (j + 1) (succ_lt_succ hj)
    rwa [succ_mul, ← Nat.add_assoc, Nat.add_right_comm] at hnext

theorem ends_seek_iff :
    Ends (seekTurn step stop look) off (some (o, r)) ↔ FirstSeen step stop look off o r :=
  ⟨FirstSeen.of_end, FirstSeen.ends⟩

def NoneSeen (step : Nat) (stop : Int) (look : Nat → Option ρ) (off : Nat) : Prop :=
  ∀ k : Nat, ((off + k * step : Nat) : Int) < stop → look (off + k * step) = none

theorem NoneSeen.of_end (h : Ends (seekTurn step stop look) off none) :
    NoneSeen step stop look off := by
  generalize hres : (none : Option (Nat × ρ)) = res at h
  induction h with
  | @stop off res hturn =>
    subst hres
    rw [seekTurn] at hturn
    split_ifs at hturn with hlt
    · split at hturn
      · cases Sum.inr.inj hturn
      · cases hturn
    · intro k hk
      omega
  | @next off off' res hturn _ ih =>
    have hrest := ih hres
    rw [seekTurn] at hturn
    split_ifs at hturn
    split at hturn
    · cases hturn
    · rename_i hthis
      obtain rfl := Sum.inl.inj hturn
      intro k hk
      cases k with
      | zero => simpa using hthis
      | succ k =>
        have hpos : off + (k + 1) * step = off + step + k * step := by
          rw [succ_mul, ← Nat.add_assoc, Nat.add_right_comm]
        rw [hpos] at hk ⊢
        exact hrest k hk

theorem exists_ends_seek (hstep : 0 < step) (off : Nat) :
    ∃ r, Ends (seekTurn step stop look) off r := by
  refine exists_ends (fun o : Nat => (stop - o).toNat) ?_ off
  intro o o' hturn
  rw [seekTurn] at hturn
  split_ifs at hturn
  split at hturn
  · cases hturn
  · obtain rfl := Sum.inl.inj hturn
    omega

theorem NoneSeen.ends (hstep : 0 < step) (h : NoneSeen step stop look off) :
    Ends (seekTurn step stop look) off none := by
  obtain ⟨r, hr⟩ : ∃ r, Ends (seekTurn step stop look) off r := exists_ends_seek hstep off
  cases r with
  | none => exact hr
  | some found =>
    obtain ⟨k, ho, hlt, hlook, -⟩ := FirstSeen.of_end hr
    rw [ho] at hlt hlook
    rw [h k hlt] at hlook
    cases hlook

end Seek

/-! ## Several loops -/

section Gives

variable {α β : Type} {f : Nat → Option α} {g : Nat → α → Option β}

/-- More turns do not change a result. -/
def Grows (f : Nat → Option α) : Prop := ∀ n k r, f n = some r → n ≤ k → f k = some r

def Gives (f : Nat → Option α) (r : α) : Prop := ∃ n, f n = some r

theorem grows_run (turn : σ → σ ⊕ ρ) (s : σ) : Grows fun n => run turn n s :=
  fun _ _ _ h hk => run_mono h hk

theorem grows_const (o : Option α) : Grows fun _ => o := fun _ _ _ h _ => h

theorem Grows.map (hf : Grows f) (g : α → β) : Grows fun n => (f n).map g := by
  intro n k r h hk
  obtain ⟨a, ha, rfl⟩ := map_eq_some_iff.mp h
  exact map_eq_some_iff.mpr ⟨a, hf n k a ha hk, rfl⟩

theorem Grows.bind (hf : Grows f) (hg : ∀ a, Grows fun n => g n a) :
    Grows fun n => (f n).bind (g n) := by
  intro n k r h hk
  obtain ⟨a, ha, hr⟩ := bind_eq_some_iff.mp h
  exact bind_eq_some_iff.mpr ⟨a, hf n k a ha hk, hg a n k r hr hk⟩

theorem Gives.unique (hf : Grows f) {r r' : α} (h : Gives f r) (h' : Gives f r') : r = r' := by
  obtain ⟨n, hn⟩ := h
  obtain ⟨k, hk⟩ := h'
  have hr := hf n _ r hn (Nat.le_max_left n k)
  have hr' := hf k _ r' hk (Nat.le_max_right n k)
  exact some.inj (hr.symm.trans hr')

theorem gives_run_iff {s : σ} {r : ρ} : Gives (fun n => run turn n s) r ↔ Ends turn s r :=
  ends_iff_run.symm

theorem gives_const_iff {o : Option α} {r : α} : Gives (fun _ => o) r ↔ o = some r :=
  ⟨fun h => h.elim fun _ => id, fun h => ⟨0, h⟩⟩

theorem gives_map_iff {h : α → β} {r : β} :
    Gives (fun n => (f n).map h) r ↔ ∃ a, Gives f a ∧ h a = r := by
  constructor
  · rintro ⟨n, hn⟩
    obtain ⟨a, ha, hr⟩ := map_eq_some_iff.mp hn
    exact ⟨a, ⟨n, ha⟩, hr⟩
  · rintro ⟨a, ⟨n, ha⟩, hr⟩
    exact ⟨n, map_eq_some_iff.mpr ⟨a, ha, hr⟩⟩

theorem gives_bind_iff (hf : Grows f) (hg : ∀ a, Grows fun n => g n a) {r : β} :
    Gives (fun n => (f n).bind (g n)) r ↔ ∃ a, Gives f a ∧ Gives (fun n => g n a) r := by
  constructor
  · rintro ⟨n, hn⟩
    obtain ⟨a, ha, hr⟩ := bind_eq_some_iff.mp hn
    exact ⟨a, ⟨n, ha⟩, n, hr⟩
  · rintro ⟨a, ⟨n, ha⟩, k, hr⟩
    refine ⟨max n k, bind_eq_some_iff.mpr ⟨a, ?_, ?_⟩⟩
    · exact hf n _ a ha (Nat.le_max_left n k)
    · exact hg a k _ r hr (Nat.le_max_right n k)

end Gives

/-! ## Loops over an index -/

section Counted

variable {f : σ → Nat → Option σ} (inv : Nat → σ → Prop) {n : Nat} {s s' : σ}

/-- What each turn keeps holds at the end of a loop that is not left. -/
theorem foldlM_range_invariant (h0 : inv 0 s)
    (hstep : ∀ k < n, ∀ s s', inv k s → f s k = some s' → inv (k + 1) s')
    (h : (range n).foldlM f s = some s') : inv n s' := by
  induction n generalizing s' with
  | zero =>
    obtain rfl : s = s' := by simpa using h
    exact h0
  | succ n ih =>
    rw [range_succ, foldlM_append] at h
    obtain ⟨t, ht, hs⟩ := bind_eq_some_iff.mp h
    refine hstep n (lt_succ_self n) t s' (ih (fun k hk => hstep k (by omega)) ht) ?_
    simpa using hs

/-- A loop is not left if no turn leaves it. -/
theorem foldlM_range_exists (h0 : inv 0 s)
    (hstep : ∀ k < n, ∀ s, inv k s → ∃ s', f s k = some s' ∧ inv (k + 1) s') :
    ∃ s', (range n).foldlM f s = some s' := by
  suffices ∃ s', (range n).foldlM f s = some s' ∧ inv n s' from this.imp fun _ h => h.1
  induction n with
  | zero => exact ⟨s, by simp, h0⟩
  | succ n ih =>
    obtain ⟨t, ht, hinv⟩ := ih fun k hk => hstep k (by omega)
    obtain ⟨s', hs', hinv'⟩ := hstep n (lt_succ_self n) t hinv
    refine ⟨s', ?_, hinv'⟩
    rw [range_succ, foldlM_append]
    exact bind_eq_some_iff.mpr ⟨t, ht, by simpa using hs'⟩

end Counted

end LibWrt.Loop
