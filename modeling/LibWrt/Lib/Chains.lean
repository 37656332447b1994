/-
LibWrt.Lib.Chains — hash tables with a chain for each hash.

A chain is a list of pairs and is searched from its head. A table is well
formed if every pair is in the chain of its key's hash and no chain has a key
twice: then its chains together are a finite map, with `get`, `set` and
`erase` as lookup, update and removal.
-/
import Mathlib.Data.Fintype.Basic

namespace LibWrt

open List Function Prod Option

universe u v

variable {K : Type u} {V : Type v} [DecidableEq K]

/-! ## One chain -/

namespace Chain

def replace (k : K) (v : V) : List (K × V) → List (K × V)
  | [] => []
  | p :: chain => if p.1 = k then (p.1, v) :: chain else p :: replace k v chain

def erase (k : K) (chain : List (K × V)) : List (K × V) := chain.eraseP fun p => p.1 = k

theorem lookup_cons (k : K) (p : K × V) (chain : List (K × V)) :
    (p :: chain).lookup k = if k = p.1 then some p.2 else chain.lookup k := by
  obtain ⟨k', v⟩ := p
  rw [List.lookup_cons]
  by_cases h : k = k'
  · simp [h]
  · simp [h, beq_false_of_ne h]

@[simp] theorem map_fst_replace (k : K) (v : V) (chain : List (K × V)) :
    (replace k v chain).map fst = chain.map fst := by
  induction chain with
  | nil => rfl
  | cons p chain ih =>
    rw [replace]
    split <;> simp [ih]

theorem mem_keys_iff (k : K) (chain : List (K × V)) :
    k ∈ chain.map fst ↔ ∃ v, chain.lookup k = some v := by
  induction chain with
  | nil => simp
  | cons p chain ih =>
    rw [map_cons, mem_cons, ih, lookup_cons]
    by_cases h : k = p.1 <;> simp [h]

theorem lookup_eq_none {k : K} {chain : List (K × V)} (h : k ∉ chain.map fst) :
    chain.lookup k = none := by
  rw [mem_keys_iff, not_exists] at h
  exact Option.eq_none_iff_forall_ne_some.mpr h

theorem lookup_replace {k : K} {chain : List (K × V)} (h : k ∈ chain.map fst) (k' : K)
    (v : V) : (replace k v chain).lookup k' = if k' = k then some v else chain.lookup k' := by
  induction chain with
  | nil => simp at h
  | cons p chain ih =>
    rw [replace]
    by_cases hp : p.1 = k
    · rw [if_pos hp, lookup_cons, lookup_cons, hp]
      split <;> rfl
    · rw [if_neg hp, lookup_cons, lookup_cons, ih]
      · by_cases hk : k' = k
        · subst hk
          simp [Ne.symm hp]
        · simp [hk]
      · simpa [Ne.symm hp] using h

theorem lookup_erase {chain : List (K × V)} (hnodup : (chain.map fst).Nodup) (k k' : K) :
    (erase k chain).lookup k' = if k' = k then none else chain.lookup k' := by
  induction chain with
  | nil => simp [erase]
  | cons p chain ih =>
    rw [map_cons, nodup_cons] at hnodup
    rw [erase]
    by_cases hp : p.1 = k
    · rw [eraseP_cons_of_pos (by simpa using hp), lookup_cons]
      by_cases hk : k' = k
      · rw [if_pos hk, hk, ← hp]
        exact lookup_eq_none hnodup.1
      · rw [if_neg hk, if_neg (by rw [hp]; exact hk)]
    · rw [eraseP_cons_of_neg (by simpa using hp), lookup_cons, lookup_cons,
        show chain.eraseP (fun p => decide (p.1 = k)) = erase k chain from rfl, ih hnodup.2]
      by_cases hk : k' = k
      · subst hk
        simp [Ne.symm hp]
      · simp [hk]

theorem mem_iff_lookup {chain : List (K × V)} (hnodup : (chain.map fst).Nodup) (p : K × V) :
    p ∈ chain ↔ chain.lookup p.1 = some p.2 := by
  induction chain with
  | nil => simp
  | cons q chain ih =>
    rw [map_cons, nodup_cons] at hnodup
    rw [mem_cons, ih hnodup.2, lookup_cons]
    by_cases hk : p.1 = q.1
    · have hnone : chain.lookup q.1 = none := lookup_eq_none hnodup.1
      rw [if_pos hk, hk, hnone, some_inj, Prod.ext_iff]
      constructor
      · rintro (h | h)
        · exact h.2.symm
        · cases h
      · exact fun h => .inl ⟨hk, h.symm⟩
    · rw [if_neg hk, or_iff_right fun h => hk (congrArg fst h)]

end Chain

/-! ## Tables -/

abbrev Chains (n : Nat) (K : Type u) (V : Type v) := Fin n → List (K × V)

namespace Chains

variable {n : Nat} (hash : K → Fin n)

def empty : Chains n K V := fun _ => []

def get (t : Chains n K V) (k : K) : Option V := (t (hash k)).lookup k

/-- A pair that is there gets the value where it is, another one is put at the head. -/
def set (t : Chains n K V) (k : K) (v : V) : Chains n K V :=
  update t (hash k)
    (if ((t (hash k)).lookup k).isSome then Chain.replace k v (t (hash k))
    else (k, v) :: t (hash k))

def erase (t : Chains n K V) (k : K) : Chains n K V :=
  update t (hash k) (Chain.erase k (t (hash k)))

def pairs (t : Chains n K V) : List (K × V) := (List.ofFn t).flatten

structure Wf (t : Chains n K V) : Prop where
  hashed : ∀ i, ∀ p ∈ t i, hash p.1 = i
  nodup : ∀ i, ((t i).map fst).Nodup

variable {hash}

omit [DecidableEq K] in
theorem mem_pairs {t : Chains n K V} {p : K × V} : p ∈ t.pairs ↔ ∃ i, p ∈ t i := by
  simp [pairs, mem_ofFn]

theorem Wf.mem_iff {t : Chains n K V} (ht : Wf hash t) (p : K × V) :
    p ∈ t.pairs ↔ t.get hash p.1 = some p.2 := by
  rw [mem_pairs, get, ← Chain.mem_iff_lookup (ht.nodup _)]
  constructor
  · rintro ⟨i, hp⟩
    rw [ht.hashed i p hp]
    exact hp
  · exact fun hp => ⟨_, hp⟩

omit [DecidableEq K] in
/-- No key is twice in all chains together. -/
theorem Wf.nodup_keys {t : Chains n K V} (ht : Wf hash t) : (t.pairs.map fst).Nodup := by
  rw [pairs, map_flatten, nodup_flatten]
  constructor
  · intro l hl
    obtain ⟨chain, hchain, rfl⟩ := mem_map.mp hl
    obtain ⟨i, rfl⟩ := mem_ofFn.mp hchain
    exact ht.nodup i
  · rw [pairwise_map, pairwise_ofFn]
    intro i j hij k hk hk'
    obtain ⟨p, hp, rfl⟩ := mem_map.mp hk
    obtain ⟨q, hq, heq⟩ := mem_map.mp hk'
    have hi := ht.hashed i p hp
    have hj := ht.hashed j q hq
    rw [heq, hi] at hj
    omega

omit [DecidableEq K] in
theorem Wf.nodup_pairs {t : Chains n K V} (ht : Wf hash t) : t.pairs.Nodup :=
  ht.nodup_keys.of_map _

omit [DecidableEq K] in
theorem wf_empty : Wf hash (empty : Chains n K V) := ⟨by simp [empty], by simp [empty]⟩

theorem get_empty (k : K) : (empty : Chains n K V).get hash k = none := rfl

theorem get_set (t : Chains n K V) (k k' : K) (v : V) :
    (t.set hash k v).get hash k' = if k' = k then some v else t.get hash k' := by
  rw [get, set]
  by_cases hh : hash k' = hash k
  · rw [hh, update_self]
    split
    · rename_i hsome
      have hmem := (Chain.mem_keys_iff k (t (hash k))).mpr (Option.isSome_iff_exists.mp hsome)
      rw [Chain.lookup_replace hmem, get, hh]
    · rw [Chain.lookup_cons, get, hh]
  · rw [update_of_ne hh, if_neg fun h => hh (congrArg hash h), get]

theorem Wf.set {t : Chains n K V} (ht : Wf hash t) (k : K) (v : V) :
    Wf hash (t.set hash k v) := by
  have hkeys : ∀ i, ((t.set hash k v) i).map fst = (t i).map fst ∨
      i = hash k ∧ k ∉ (t i).map fst ∧ (t.set hash k v) i = (k, v) :: t i := by
    intro i
    by_cases hi : i = hash k
    · subst hi
      rw [Chains.set, update_self]
      split
      · exact .inl (by simp)
      · rename_i hnone
        refine .inr ⟨rfl, fun hmem => hnone ?_, rfl⟩
        exact Option.isSome_iff_exists.mpr ((Chain.mem_keys_iff _ _).mp hmem)
    · rw [Chains.set, update_of_ne hi]
      exact .inl rfl
  constructor
  · intro i p hp
    have hmem : p.1 ∈ ((t.set hash k v) i).map fst := mem_map_of_mem hp
    rcases hkeys i with hsame | ⟨rfl, -, hcons⟩
    · rw [hsame] at hmem
      obtain ⟨q, hq, heq⟩ := mem_map.mp hmem
      rw [← heq]
      exact ht.hashed i q hq
    · rw [hcons, mem_cons] at hp
      rcases hp with rfl | hp
      · rfl
      · exact ht.hashed _ p hp
  · intro i
    rcases hkeys i with hsame | ⟨rfl, hnew, hcons⟩
    · rw [hsame]
      exact ht.nodup i
    · rw [hcons, map_cons, nodup_cons]
      exact ⟨hnew, ht.nodup _⟩

theorem Wf.get_erase {t : Chains n K V} (ht : Wf hash t) (k k' : K) :
    (t.erase hash k).get hash k' = if k' = k then none else t.get hash k' := by
  rw [get, erase]
  by_cases hh : hash k' = hash k
  · rw [hh, update_self, Chain.lookup_erase (ht.nodup _), get, hh]
  · rw [update_of_ne hh, if_neg fun h => hh (congrArg hash h), get]

theorem Wf.erase {t : Chains n K V} (ht : Wf hash t) (k : K) : Wf hash (t.erase hash k) := by
  have hsub : ∀ i, ((t.erase hash k) i).Sublist (t i) := by
    intro i
    by_cases hi : i = hash k
    · subst hi
      rw [Chains.erase, update_self]
      exact eraseP_sublist
    · rw [Chains.erase, update_of_ne hi]
  exact ⟨fun i p hp => ht.hashed i p ((hsub i).mem hp),
    fun i => (ht.nodup i).sublist ((hsub i).map _)⟩

end Chains

/-! ## Filling a table -/

namespace Chains

variable {n : Nat} {hash : K → Fin n}

theorem get_foldl_set {pairs : List (K × V)} (hnodup : (pairs.map fst).Nodup)
    (t : Chains n K V) (k : K) :
    (pairs.foldl (fun t p => t.set hash p.1 p.2) t).get hash k =
      (pairs.lookup k).or (t.get hash k) := by
  induction pairs generalizing t with
  | nil => simp
  | cons p pairs ih =>
    rw [map_cons, nodup_cons] at hnodup
    rw [foldl_cons, ih hnodup.2, get_set, Chain.lookup_cons]
    by_cases hk : k = p.1
    · rw [if_pos hk, if_pos hk, hk, Chain.lookup_eq_none hnodup.1]
      rfl
    · rw [if_neg hk, if_neg hk]

/-- A table that is filled with the pairs of another one has the same values. -/
theorem Wf.get_refill {t : Chains n K V} (ht : Wf hash t) (k : K) :
    (t.pairs.foldl (fun t p => t.set hash p.1 p.2) empty).get hash k = t.get hash k := by
  have hlookup : t.pairs.lookup k = t.get hash k := by
    apply ext
    intro v
    exact (Chain.mem_iff_lookup ht.nodup_keys (k, v)).symm.trans (ht.mem_iff (k, v))
  rw [get_foldl_set ht.nodup_keys, hlookup, get_empty, or_none]

end Chains

end LibWrt
