/-
LibWrt.Lib.Registry — connections that are registered under a key.

Connections are kept under ids, the next of which is known. A table says of a
key which connection is registered there. `Registry` says that these are the
connections that have the key: none is registered that is closed, and no two
have the same one.
-/
import LibWrt.Lib.Dict

namespace LibWrt

variable {K C : Type}

/-- The table has the connections that have a key, and no others. -/
structure Registry (conns : Dict Nat C) (key : C → Option K) (reg : K → Option Nat)
    (next : Nat) : Prop where
  reg_iff : ∀ k c, reg k = some c ↔ ∃ conn, conns.get? c = some conn ∧ key conn = some k
  lt_next : ∀ c conn, conns.get? c = some conn → c < next

namespace Registry

variable {conns : Dict Nat C} {key : C → Option K} {reg reg' : K → Option Nat} {next next' : Nat}
  {c c' : Nat} {conn conn' : C} {k : K}

theorem empty (key : C → Option K) : Registry ∅ key (fun _ => none) 0 :=
  ⟨by simp, by simp⟩

section

variable (h : Registry conns key reg next)

include h

theorem reg_of_get? (hget : conns.get? c = some conn)
    (hkey : key conn = some k) : reg k = some c :=
  (h.reg_iff k c).mpr ⟨conn, hget, hkey⟩

theorem get?_of_reg (hreg : reg k = some c) :
    ∃ conn, conns.get? c = some conn ∧ key conn = some k :=
  (h.reg_iff k c).mp hreg

/-- A connection is registered under one key. -/
theorem key_unique {k' : K} (hk : reg k = some c)
    (hk' : reg k' = some c) : k = k' := by
  obtain ⟨conn, hget, hkey⟩ := h.get?_of_reg hk
  obtain ⟨conn', hget', hkey'⟩ := h.get?_of_reg hk'
  rw [hget, Option.some.injEq] at hget'
  rw [← hget', hkey, Option.some.injEq] at hkey'
  exact hkey'

theorem get?_next : conns.get? next = none := by
  cases hget : conns.get? next with
  | none => rfl
  | some conn => exact absurd (h.lt_next next conn hget) (by omega)

/-- The next id may be a later one. -/
theorem mono (hle : next ≤ next') :
    Registry conns key reg next' :=
  ⟨h.reg_iff, fun c conn hget => (h.lt_next c conn hget).trans_le hle⟩

/-- A connection is closed, and is not registered any more. -/
theorem close (c : Nat)
    (hreg : ∀ k, reg' k = if reg k = some c then none else reg k) :
    Registry (conns.del c) key reg' next := by
  refine ⟨?_, ?_⟩
  · intro k c'
    rw [hreg, Dict.get?_del]
    by_cases hc : c' = c
    · rw [if_pos hc]
      split
      · simp
      · simpa [hc] using ‹¬ reg k = some c›
    · rw [if_neg hc, ← h.reg_iff]
      split
      · rename_i hk
        rw [hk]
        simpa using fun heq => hc heq.symm
      · rfl
  · intro c' conn hget
    rw [Dict.get?_del] at hget
    split at hget
    · cases hget
    · exact h.lt_next c' conn hget

theorem set_of_key_none (hold : ∀ old, conns.get? c = some old → key old = none)
    (hkey : key conn = none)
    (hlt : c < next') (hle : next ≤ next') : Registry (conns.set c conn) key reg next' := by
  refine ⟨?_, ?_⟩
  · intro k c'
    rw [h.reg_iff, Dict.get?_set]
    by_cases hc : c' = c
    · subst hc
      simp only [if_pos, Option.some.injEq, exists_eq_left', hkey, reduceCtorEq, iff_false,
        not_exists, not_and]
      intro old hget
      simp [hold old hget]
    · rw [if_neg hc]
  · intro c' conn' hget
    rw [Dict.get?_set] at hget
    split at hget
    · omega
    · exact (h.lt_next c' conn' hget).trans_le hle

/-- A connection changes, but for its key. -/
theorem set_of_key_eq (hold : conns.get? c = some conn')
    (hkey : key conn = key conn') : Registry (conns.set c conn) key reg next := by
  refine ⟨?_, ?_⟩
  · intro k c'
    rw [h.reg_iff, Dict.get?_set]
    by_cases hc : c' = c
    · subst hc
      simp [hold, hkey]
    · rw [if_neg hc]
  · intro c' conn'' hget
    rw [Dict.get?_set] at hget
    split at hget
    · subst c'
      exact h.lt_next c conn' hold
    · exact h.lt_next c' conn'' hget

theorem register [DecidableEq K] (hold : ∀ old, conns.get? c = some old → key old = none)
    (hkey : key conn = some k)
    (hfree : reg k = none) (hlt : c < next') (hle : next ≤ next')
    (hreg : ∀ k', reg' k' = if k' = k then some c else reg k') :
    Registry (conns.set c conn) key reg' next' := by
  refine ⟨?_, ?_⟩
  · intro k' c'
    rw [hreg, Dict.get?_set]
    by_cases hc : c' = c
    · subst hc
      simp only [if_pos, Option.some.injEq, exists_eq_left', hkey]
      split
      · simp_all
      · rename_i hk
        rw [h.reg_iff]
        refine ⟨?_, fun heq => absurd heq.symm hk⟩
        rintro ⟨old, hget, hkey'⟩
        rw [hold old hget] at hkey'
        cases hkey'
    · rw [if_neg hc, ← h.reg_iff]
      split
      · subst k'
        simpa [hfree] using fun heq : c = c' => hc heq.symm
      · rfl
  · intro c' conn' hget
    rw [Dict.get?_set] at hget
    split at hget
    · omega
    · exact (h.lt_next c' conn' hget).trans_le hle

end

end Registry

end LibWrt
