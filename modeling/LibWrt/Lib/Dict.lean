/-
LibWrt.Lib.Dict — finite maps with sums over their entries.

`Dict K V` is Mathlib's `AList` at a constant family: a list of key/value
pairs with distinct keys. `get?`, `set` and `del` are its lookup, insert
and erase under the names a dictionary has. What is added is `Dict.sum`,
the sum of a function over all entries, and how it moves under `set` and
`del`.

Every sum lemma is read off one permutation fact, `entries_perm`: a
dictionary that holds `w` at `k` is, up to order, that entry and what
`del k` leaves.
-/
import Mathlib.Data.List.AList
import Mathlib.Algebra.BigOperators.Group.List.Lemmas
import Mathlib.Algebra.BigOperators.Ring.List
import Mathlib.Algebra.Order.BigOperators.Group.List
import Mathlib.Algebra.Order.Group.Int
import Mathlib.Tactic.Abel

namespace LibWrt

open List Function

universe u v w

/-- A finite map from `K` to `V`. -/
abbrev Dict (K : Type u) (V : Type v) := AList (fun _ : K => V)

namespace Dict

variable {K : Type u} {V : Type v} {M : Type w}

/-- The sum of `f` over all entries. -/
def sum [AddCommMonoid M] (d : Dict K V) (f : K → V → M) : M :=
  (d.entries.map (fun e => f e.1 e.2)).sum

def size (d : Dict K V) : Nat := d.entries.length

/-- Apply `g` to every value. -/
def map {W : Type*} (g : V → W) (d : Dict K V) : Dict K W :=
  ⟨d.entries.map (fun e => ⟨e.1, g e.2⟩), by
    have h := d.nodupKeys
    simpa [List.NodupKeys, List.keys, comp_def] using h⟩

@[simp] theorem sum_empty [AddCommMonoid M] (f : K → V → M) :
    (∅ : Dict K V).sum f = 0 := rfl

@[simp] theorem size_empty : (∅ : Dict K V).size = 0 := rfl

theorem size_eq_sum (d : Dict K V) : (d.size : Int) = d.sum (fun _ _ => 1) := by
  simp [size, sum]

theorem sum_add [AddCommMonoid M] (d : Dict K V) (f g : K → V → M) :
    d.sum (fun k v => f k v + g k v) = d.sum f + d.sum g := by
  simp [sum, sum_map_add]

/-- A sum of functions, at one point. -/
theorem sum_mul {R : Type*} [NonUnitalNonAssocSemiring R] (d : Dict K V) (f : K → V → R)
    (c : R) : d.sum (fun k v => f k v * c) = d.sum f * c := by
  simp [sum, sum_map_mul_right]

theorem sum_apply {A : Type*} [AddCommMonoid M] (d : Dict K V) (f : K → V → A → M) (a : A) :
    d.sum f a = d.sum fun k v => f k v a := by
  simp only [sum]
  induction d.entries with
  | nil => rfl
  | cons e es ih => simp only [map_cons, sum_cons, Pi.add_apply, ih]

variable {W : Type*} {g f : K → V → M} {d : Dict K V} {k : K} {w : V}

@[simp] theorem map_empty (g : V → W) : (∅ : Dict K V).map g = ∅ := rfl

theorem sum_map [AddCommMonoid M] (g : V → W) (d : Dict K V) (f : K → W → M) :
    (d.map g).sum f = d.sum (fun k v => f k (g v)) := by
  simp [sum, map, comp_def]

@[simp] theorem size_map (g : V → W) (d : Dict K V) :
    (d.map g).size = d.size := by
  simp [size, map]

/-- Two sums over two dictionaries change places. -/
theorem sum_comm {L : Type*} [AddCommMonoid M] (d : Dict K V) (d' : Dict L W)
    (f : K → V → L → W → M) :
    (d.sum fun k v => d'.sum fun l w => f k v l w)
      = d'.sum fun l w => d.sum fun k v => f k v l w := by
  simp only [sum]
  induction d.entries with
  | nil => simp
  | cons e es ih =>
    simp only [map_cons, sum_cons]
    rw [ih, sum_map_add]

variable [DecidableEq K]

/-! ## Lookup -/

def get? (d : Dict K V) (k : K) : Option V := d.lookup k

def set (d : Dict K V) (k : K) (v : V) : Dict K V := d.insert k v

def del (d : Dict K V) (k : K) : Dict K V := AList.erase k d

@[simp] theorem get?_empty (k : K) : (∅ : Dict K V).get? k = none := rfl

@[simp] theorem get?_set_self (d : Dict K V) (k : K) (v : V) :
    (d.set k v).get? k = some v :=
  AList.lookup_insert d

theorem get?_set_ne (d : Dict K V) {k' : K} (h : k' ≠ k) (v : V) :
    (d.set k v).get? k' = d.get? k' :=
  AList.lookup_insert_ne h

theorem get?_set (d : Dict K V) (k k' : K) (v : V) :
    (d.set k v).get? k' = if k' = k then some v else d.get? k' := by
  by_cases h : k' = k
  · subst h; simp
  · rw [get?_set_ne d h, if_neg h]

@[simp] theorem get?_del_self (d : Dict K V) (k : K) : (d.del k).get? k = none :=
  AList.lookup_erase k d

theorem get?_del_ne (d : Dict K V) {k' : K} (h : k' ≠ k) :
    (d.del k).get? k' = d.get? k' :=
  AList.lookup_erase_ne h

theorem get?_del (d : Dict K V) (k k' : K) :
    (d.del k).get? k' = if k' = k then none else d.get? k' := by
  by_cases h : k' = k
  · subst h; simp
  · rw [get?_del_ne d h, if_neg h]

theorem set_set (d : Dict K V) (k : K) (v v' : V) : (d.set k v).set k v' = d.set k v' :=
  AList.insert_insert d

theorem mem_entries_iff (d : Dict K V) (k : K) (v : V) :
    (⟨k, v⟩ : Sigma fun _ : K => V) ∈ d.entries ↔ d.get? k = some v :=
  (AList.mem_lookup_iff (s := d)).symm

theorem get?_map (g : V → W) (d : Dict K V) (k : K) :
    (d.map g).get? k = (d.get? k).map g := by
  cases h : d.get? k with
  | some v =>
    have hmem := (mem_entries_iff d k v).mpr h
    exact (mem_entries_iff _ _ _).mp (mem_map.mpr ⟨_, hmem, rfl⟩)
  | none =>
    cases h' : (d.map g).get? k with
    | none => rfl
    | some w =>
      obtain ⟨e, he, heq⟩ := mem_map.mp ((mem_entries_iff _ _ _).mpr h')
      cases heq
      rw [(mem_entries_iff d e.1 e.2).mp he] at h
      cases h

theorem map_del (g : V → W) (d : Dict K V) (k : K) :
    (d.del k).map g = (d.map g).del k := by
  apply AList.ext
  show List.map _ (List.kerase k d.entries) = List.kerase k (List.map _ d.entries)
  induction d.entries with
  | nil => rfl
  | cons e es ih =>
    by_cases hk : k = e.1
    · simp [List.kerase, hk]
    · simpa [List.kerase, hk] using ih

theorem map_set (g : V → W) (d : Dict K V) (k : K) (v : V) :
    (d.set k v).map g = (d.map g).set k (g v) := by
  apply AList.ext
  have h := congrArg AList.entries (map_del g d k)
  exact congrArg (List.cons ⟨k, g v⟩) h

/-! ## Sums under updates -/

theorem entries_perm (h : d.get? k = some w) :
    d.entries.Perm (⟨k, w⟩ :: (d.del k).entries) := by
  have hk : k ∈ d.entries.keys :=
    AList.mem_keys.mp (AList.lookup_isSome.mp (by rw [show d.lookup k = _ from h]; rfl))
  obtain ⟨b, l₁, l₂, hl₁, heq, herase⟩ := exists_of_kerase hk
  have hb : d.get? k = some b :=
    (mem_entries_iff d k b).mp (by rw [heq]; simp)
  have hbw : b = w := Option.some.inj (hb.symm.trans h)
  subst hbw
  rw [show (d.del k).entries = l₁ ++ l₂ from herase, heq]
  exact perm_middle

theorem sum_of_get? [AddCommMonoid M] (h : d.get? k = some w) (f : K → V → M) :
    d.sum f = f k w + (d.del k).sum f := by
  have hperm := (entries_perm h).map (fun e : Sigma (fun _ : K => V) => f e.1 e.2)
  rw [sum, hperm.sum_eq]
  rfl

theorem del_of_get?_none (h : d.get? k = none) :
    d.del k = d := by
  apply AList.ext
  exact kerase_of_notMem_keys (AList.lookup_eq_none.mp h)

theorem sum_set [AddCommMonoid M] (d : Dict K V) (k : K) (v : V) (f : K → V → M) :
    (d.set k v).sum f = f k v + (d.del k).sum f := rfl

theorem sum_set_new [AddCommMonoid M] (h : d.get? k = none) (v : V) (f : K → V → M) :
    (d.set k v).sum f = f k v + d.sum f := by
  rw [sum_set, del_of_get?_none h]

theorem sum_set_old [AddCommGroup M] (h : d.get? k = some w) (v : V) (f : K → V → M) :
    (d.set k v).sum f = d.sum f - f k w + f k v := by
  rw [sum_set, sum_of_get? h f]
  abel

theorem sum_del [AddCommGroup M] (h : d.get? k = some w) (f : K → V → M) :
    (d.del k).sum f = d.sum f - f k w := by
  rw [sum_of_get? h f]
  abel

theorem sum_congr [AddCommMonoid M] (h : ∀ k v, d.get? k = some v → f k v = g k v) :
    d.sum f = d.sum g := by
  refine congrArg List.sum (map_congr_left ?_)
  intro e he
  exact h e.1 e.2 ((mem_entries_iff d e.1 e.2).mp he)

theorem sum_eq_zero [AddCommMonoid M] (h : ∀ k v, d.get? k = some v → f k v = 0) : d.sum f = 0 := by
  rw [sum_congr h]
  simp [sum]

def at? [AddCommMonoid M] (d : Dict K V) (f : K → V → M) (k : K) : M :=
  match d.get? k with
  | some v => f k v
  | none => 0

theorem sum_eq_at?_add [AddCommMonoid M] (d : Dict K V) (f : K → V → M) (k : K) :
    d.sum f = d.at? f k + (d.del k).sum f := by
  cases h : d.get? k with
  | some v => simp only [at?, h]; exact sum_of_get? h f
  | none => simp [at?, h, del_of_get?_none h]

/-- A sum depends on the lookups alone. -/
theorem sum_ext [AddCommMonoid M] {d' : Dict K V} (hget : ∀ k, d'.get? k = d.get? k)
    (hfg : ∀ k v, d.get? k = some v → g k v = f k v) : d'.sum g = d.sum f := by
  have hperm : d'.entries.Perm d.entries :=
    lookup_ext d'.nodupKeys d.nodupKeys fun k v =>
      (by rw [show d'.entries.dlookup k = d.entries.dlookup k from hget k])
  rw [← sum_congr hfg]
  exact (hperm.map _).sum_eq

theorem sum_update [AddCommGroup M] {d' : Dict K V} (k : K)
    (hget : ∀ q, q ≠ k → d'.get? q = d.get? q)
    (hfg : ∀ q v, q ≠ k → d.get? q = some v → g q v = f q v) :
    d'.sum g = d.sum f - d.at? f k + d'.at? g k := by
  have hrest : (d'.del k).sum g = (d.del k).sum f := by
    apply sum_ext
    · intro q
      simp only [get?_del]
      split
      · rfl
      · exact hget q ‹_›
    · intro q v hq
      rw [get?_del] at hq
      split at hq
      · cases hq
      · exact hfg q v ‹_› hq
  rw [sum_eq_at?_add d' g k, sum_eq_at?_add d f k, hrest]
  abel

@[simp] theorem at?_empty [AddCommMonoid M] (f : K → V → M) (k : K) :
    (∅ : Dict K V).at? f k = 0 := rfl

theorem at?_del [AddCommMonoid M] (d : Dict K V) (f : K → V → M) (k q : K) :
    (d.del k).at? f q = if q = k then 0 else d.at? f q := by
  by_cases hq : q = k <;> simp [at?, get?_del, hq]

/-- A sum depends on its nonzero entries alone. -/
theorem sum_eq_of_at? [AddCommMonoid M] : ∀ (n : Nat) {d d' : Dict K V},
    d.size = n → (∀ k, d'.at? g k = d.at? f k) → d'.sum g = d.sum f
  | 0, d, d', hsize, hat => by
    have hnil : d.entries = [] := length_eq_zero_iff.mp hsize
    have hnone : ∀ k, d.at? f k = 0 := by
      intro k
      have hget : d.get? k = none := by
        cases h : d.get? k with
        | none => rfl
        | some v =>
          have := (mem_entries_iff d k v).mpr h
          rw [hnil] at this
          cases this
      simp [at?, hget]
    have hzero : d.sum f = 0 := by simp [sum, hnil]
    rw [hzero]
    refine sum_eq_zero fun k v hk => ?_
    have := (hat k).trans (hnone k)
    simpa [at?, hk] using this
  | n + 1, d, d', hsize, hat => by
    obtain ⟨⟨k, v⟩, rest, hcons⟩ := exists_cons_of_length_eq_add_one hsize
    have hget : d.get? k = some v :=
      (mem_entries_iff d k v).mp (by rw [hcons]; exact mem_cons_self)
    have hlen : (d.del k).size = n := by
      have := (entries_perm hget).length_eq
      simp only [size, length_cons] at this hsize ⊢
      omega
    rw [sum_eq_at?_add d f k, sum_eq_at?_add d' g k, hat k,
      sum_eq_of_at? n hlen fun q => by rw [at?_del, at?_del, hat q]]

/-! ## Bounds on integer sums -/

theorem sum_nonneg {f : K → V → Int} (h : ∀ k v, d.get? k = some v → 0 ≤ f k v) : 0 ≤ d.sum f := by
  apply List.sum_nonneg
  intro x hx
  obtain ⟨e, he, rfl⟩ := mem_map.mp hx
  exact h e.1 e.2 ((mem_entries_iff d e.1 e.2).mp he)

theorem le_sum {f : K → V → Int} (hk : d.get? k = some w) (h : ∀ k v, d.get? k = some v → 0 ≤ f k v) :
    f k w ≤ d.sum f := by
  rw [sum_of_get? hk f]
  have hrest : 0 ≤ (d.del k).sum f := by
    apply sum_nonneg
    intro k' v' h'
    rw [get?_del] at h'
    split at h'
    · cases h'
    · exact h k' v' h'
  omega

end Dict

end LibWrt
