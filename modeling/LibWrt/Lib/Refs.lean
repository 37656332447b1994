/-
LibWrt.Lib.Refs — slots that stand for keys, shared and counted.

Each user wants a key or none. A slot stands for one key at a time and
counts the users that are on it; it is given free when the last one leaves.
`Shared` says that the slots do what the users want: every user is on the
slot of its key, no key has two slots, and the counts are the numbers of
users. `held` is a reference that was taken for no user yet, or that was
left and not yet given back, so that the steps of a move can be followed
one by one: `Shared.get` or `Shared.occupy` takes one, `Shared.move` puts a
user on it and is left with the old one, `Shared.release` gives it back.
-/
import Mathlib.Tactic

namespace LibWrt

open Function (update update_eq_self update_self update_of_ne)
open Finset Option

/-- The slots `S`: the key of each that is in use, and its count. -/
structure Slots (S K : Type) where
  key : S → Option K
  count : S → Nat

namespace Slots

variable {S K : Type} [DecidableEq S]

def get (t : Slots S K) (i : S) : Slots S K :=
  { t with count := update t.count i (t.count i + 1) }

def occupy (t : Slots S K) (i : S) (k : K) : Slots S K :=
  { key := update t.key i (some k), count := update t.count i 1 }

def put (t : Slots S K) (i : S) : Slots S K :=
  { key := if t.count i - 1 = 0 then update t.key i none else t.key
    count := update t.count i (t.count i - 1) }

/-- `put`, where there is something to give back. -/
def release (t : Slots S K) (held : Option S) : Slots S K := held.elim t t.put

theorem key_release {t : Slots S K} {held : Option S} {i : S} {k : K}
    (h : (t.release held).key i = some k) : t.key i = some k := by
  cases held with
  | none => exact h
  | some j =>
    simp only [release, elim_some, put] at h
    split at h
    · by_cases hij : i = j
      · simp [hij] at h
      · simpa [hij] using h
    · exact h

end Slots

def uses {V S : Type} [Fintype V] [DecidableEq S] (on : V → Option S) (i : S) : Nat :=
  (Finset.univ.filter fun v => on v = some i).card

section Uses

variable {V S : Type} [Fintype V] [DecidableEq S]

theorem uses_pos {on : V → Option S} {i : S} : 0 < uses on i ↔ ∃ v, on v = some i := by
  simp [uses, card_pos, filter_nonempty_iff]

theorem uses_eq_zero {on : V → Option S} {i : S} : uses on i = 0 ↔ ∀ v, on v ≠ some i := by
  simp [uses, filter_eq_empty_iff]

/-- A user leaves its slot for another one. -/
theorem uses_update [DecidableEq V] (on : V → Option S) (v : V) (o : Option S) (i : S) :
    uses (update on v o) i + (if on v = some i then 1 else 0) =
      uses on i + (if o = some i then 1 else 0) := by
  have hothers : ∀ o', (Finset.univ.filter fun u => update on v o' u = some i) =
      (Finset.univ.filter fun u => u ≠ v ∧ on u = some i) ∪ (if o' = some i then {v} else ∅) := by
    intro o'
    ext u
    by_cases huv : u = v
    · subst huv
      by_cases ho : o' = some i <;> simp [ho]
    · by_cases ho : o' = some i <;> simp [huv, ho]
  have hcard : ∀ o', uses (update on v o') i =
      (Finset.univ.filter fun u => u ≠ v ∧ on u = some i).card + (if o' = some i then 1 else 0) := by
    intro o'
    rw [uses, hothers o', card_union_of_disjoint]
    · by_cases ho : o' = some i <;> simp [ho]
    · by_cases ho : o' = some i <;> simp [ho]
  have hself := hcard (on v)
  rw [update_eq_self] at hself
  rw [hcard o, hself]
  omega

end Uses

variable {V S K : Type} [Fintype V] [DecidableEq S]

/-- The users are on the slots of the keys that they want. -/
structure Shared (want : V → Option K) (on : V → Option S) (held : Option S) (t : Slots S K) :
    Prop where
  off : ∀ v, on v = none → want v = none
  keyed : ∀ v i, on v = some i → t.key i = want v
  unique : ∀ i j k, t.key i = some k → t.key j = some k → i = j
  counted : ∀ i, t.key i ≠ none → t.count i = uses on i + if held = some i then 1 else 0
  free : ∀ i, t.key i = none ↔ (∀ v, on v ≠ some i) ∧ held ≠ some i

namespace Shared

variable {want : V → Option K} {on : V → Option S} {held : Option S} {t : Slots S K} {i : S}

/-- No user and no slot in use. -/
theorem empty : Shared (fun _ : V => (none : Option K)) (fun _ => none) none
    (⟨fun _ => none, c⟩ : Slots S K) where
  off := by simp
  keyed := by simp
  unique := by simp
  counted := by simp
  free := by simp

theorem get (h : Shared want on none t) (hi : t.key i ≠ none) :
    Shared want on (some i) (t.get i) where
  off := h.off
  keyed := h.keyed
  unique := h.unique
  counted j hj := by
    have hcounted := h.counted j hj
    by_cases hji : j = i
    · subst hji
      simp only [Slots.get, update_self]
      simpa using hcounted
    · have hne : ¬ (some i = some j) := by simpa using Ne.symm hji
      simp only [Slots.get, update_of_ne hji]
      simpa [hne] using hcounted
  free j := by
    have hfree := h.free j
    by_cases hji : j = i
    · subst hji
      simp [Slots.get, hi]
    · simpa [Slots.get, Ne.symm hji] using hfree

theorem occupy {k : K} (h : Shared want on none t) (hi : t.key i = none)
    (hk : ∀ j, t.key j ≠ some k) : Shared want on (some i) (t.occupy i k) where
  off := h.off
  keyed v j hv := by
    have hji : j ≠ i := by
      rintro rfl
      exact ((h.free j).mp hi).1 v hv
    simpa [Slots.occupy, hji] using h.keyed v j hv
  unique a b k' ha hb := by
    by_cases hai : a = i <;> by_cases hbi : b = i
    · rw [hai, hbi]
    · simp only [Slots.occupy, hai, update_self, update_of_ne hbi] at ha hb
      exact absurd (by rw [hb, ← ha]) (hk b)
    · simp only [Slots.occupy, hbi, update_self, update_of_ne hai] at ha hb
      exact absurd (by rw [ha, ← hb]) (hk a)
    · simp only [Slots.occupy, update_of_ne hai, update_of_ne hbi] at ha hb
      exact h.unique a b k' ha hb
  counted j hj := by
    by_cases hji : j = i
    · subst hji
      have hnone : uses on j = 0 := uses_eq_zero.mpr ((h.free j).mp hi).1
      simp [Slots.occupy, hnone]
    · have hne : ¬ (some i = some j) := by simpa using Ne.symm hji
      simp only [Slots.occupy, update_of_ne hji] at hj ⊢
      simpa [hne] using h.counted j hj
  free j := by
    by_cases hji : j = i
    · subst hji
      simp [Slots.occupy]
    · have hfree := h.free j
      simpa [Slots.occupy, hji, Ne.symm hji] using hfree

/-- A user goes to the slot that a reference was taken to, or to none, and is left with its old
    reference. -/
theorem move [DecidableEq V] (h : Shared want on held t) (v : V) :
    Shared (update want v (held.bind t.key)) (update on v held) (on v) t where
  off u hu := by
    by_cases huv : u = v
    · subst huv
      simp only [update_self] at hu ⊢
      rw [hu, bind_none]
    · simp only [update_of_ne huv] at hu ⊢
      exact h.off u hu
  keyed u j hu := by
    by_cases huv : u = v
    · subst huv
      simp only [update_self] at hu ⊢
      rw [hu, bind_some]
    · simp only [update_of_ne huv] at hu ⊢
      exact h.keyed u j hu
  unique := h.unique
  counted j hj := by
    rw [h.counted j hj, uses_update on v held j]
  free j := by
    rw [h.free j]
    constructor
    · rintro ⟨hon, hheld⟩
      refine ⟨?_, hon v⟩
      intro u hu
      by_cases huv : u = v
      · subst huv
        exact hheld (by simpa using hu)
      · exact hon u (by simpa [huv] using hu)
    · rintro ⟨hon, hheld⟩
      refine ⟨?_, ?_⟩
      · intro u hu
        by_cases huv : u = v
        · subst huv
          exact hheld hu
        · exact hon u (by simpa [huv] using hu)
      · intro hi
        exact hon v (by simpa using hi)

/-- A reference is given back. -/
theorem put (h : Shared want on (some i) t) : Shared want on none (t.put i) := by
  have hi : t.key i ≠ none := by
    intro hnone
    exact ((h.free i).mp hnone).2 rfl
  have hcount : t.count i = uses on i + 1 := by simpa using h.counted i hi
  have hkey : ∀ j, j ≠ i ∨ t.count i - 1 ≠ 0 → (t.put i).key j = t.key j := by
    intro j hj
    by_cases hzero : t.count i - 1 = 0
    · have hji : j ≠ i := hj.resolve_right (by simp [hzero])
      simp [Slots.put, hzero, hji]
    · simp [Slots.put, hzero]
  have huses : ∀ v, on v = some i → t.count i - 1 ≠ 0 := by
    intro v hv
    have hpos : 0 < uses on i := uses_pos.mpr ⟨v, hv⟩
    omega
  have hsub : ∀ j k, (t.put i).key j = some k → t.key j = some k := by
    intro j k hjk
    by_cases hzero : t.count i - 1 = 0 ∧ j = i
    · simp [Slots.put, hzero.1, hzero.2] at hjk
    · rw [← hkey j (by tauto)]
      exact hjk
  refine ⟨h.off, ?_, ?_, ?_, ?_⟩
  · intro v j hv
    rw [hkey j, h.keyed v j hv]
    by_cases hji : j = i
    · exact .inr (huses v (hji ▸ hv))
    · exact .inl hji
  · intro a b k ha hb
    exact h.unique a b k (hsub a k ha) (hsub b k hb)
  · intro j hj
    obtain ⟨k, hk⟩ := Option.ne_none_iff_exists'.mp hj
    have hcounted := h.counted j (by rw [hsub j k hk]; simp)
    by_cases hji : j = i
    · subst hji
      simp [Slots.put, hcount]
    · have hne : ¬ (some i = some j) := by simpa using Ne.symm hji
      simpa [Slots.put, hji, hne] using hcounted
  · intro j
    by_cases hji : j = i
    · subst hji
      by_cases hzero : t.count j - 1 = 0
      · have hnone : uses on j = 0 := by omega
        simpa [Slots.put, hzero] using uses_eq_zero.mp hnone
      · have hsome : 0 < uses on j := by omega
        obtain ⟨v, hv⟩ := uses_pos.mp hsome
        rw [hkey j (.inr hzero)]
        simp only [hi, false_iff, not_and]
        intro hon
        exact absurd hv (hon v)
    · rw [hkey j (.inl hji), h.free j]
      simp [Ne.symm hji]

theorem release (h : Shared want on held t) : Shared want on none (t.release held) := by
  cases held with
  | none => exact h
  | some i => exact h.put

end Shared

end LibWrt
