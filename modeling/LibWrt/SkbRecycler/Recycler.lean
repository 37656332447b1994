/-
LibWrt.SkbRecycler.Recycler — the buffer lists of `skbuff_recycle.c`.

Each CPU has a hot list (`recycle_list`) and a spare list
(`recycle_spare_list`); all CPUs share `glob_recycler`, a ring whose slots
hold whole spare lists. A `struct sk_buff_head` is the list of its buffers,
first buffer first. `__skb_queue_head` puts a buffer in front,
`skb_queue_splice` puts a whole list in front.

A call that indexes the ring outside its array has no defined result: the
functions that touch the ring return `none` there.
-/
import Mathlib.Algebra.Group.Nat.Defs
import Mathlib.Data.Nat.Basic
import Mathlib.Logic.Function.Basic

namespace LibWrt.SkbRecycler

open Option Function Or

/-- A `struct sk_buff`, by its address. -/
abbrev Skb := Nat

/-- The build options the recycler reads: `CONFIG_SKB_RECYCLE_SIZE`, and
    `CONFIG_SKB_RECYCLE_MAX_PREALLOC_SKBS` where preallocation is enabled. -/
structure Config where
  recycleSize : Nat := 2304
  prealloc : Option Nat := none

def divRoundUp (n d : Nat) : Nat := (n + d - 1) / d

/-- `SKB_RECYCLE_SPARE_MAX_SKBS` -/
def recycleSpareMaxSkbs : Nat := 256

/-- `SKB_RECYCLE_MAX_SHARED_POOLS` -/
def Config.maxSharedPools (cfg : Config) : Nat :=
  match cfg.prealloc with
  | some skbs => divRoundUp skbs recycleSpareMaxSkbs
  | none => 8

/-- `SKB_RECYCLE_MAX_SHARED_POOLS_MASK`, an `int`: the number of pools minus one,
    in 32 bits. -/
def Config.sharedPoolsMask (cfg : Config) : Nat := (cfg.maxSharedPools + 2 ^ 32 - 1) % 2 ^ 32

/-- `(i + 1) & SKB_RECYCLE_MAX_SHARED_POOLS_MASK`, stored in a `u8`. -/
def Config.nextSlot (cfg : Config) (i : Nat) : Nat := ((i + 1) &&& cfg.sharedPoolsMask) % 2 ^ 8

/-- `struct global_recycler` -/
structure GlobalRecycler where
  pool : List (List Skb)
  head : Nat
  tail : Nat

variable {ι : Type} [DecidableEq ι]

structure Recycler (ι : Type) where
  recycleList : ι → List Skb
  recycleSpareList : ι → List Skb
  maxSpareSkbs : ι → Nat
  maxSkbs : ι → Nat
  glob : GlobalRecycler

namespace Recycler

def setHot (r : Recycler ι) (cpu : ι) (q : List Skb) : Recycler ι :=
  { r with recycleList := update r.recycleList cpu q }

def setSpare (r : Recycler ι) (cpu : ι) (q : List Skb) : Recycler ι :=
  { r with recycleSpareList := update r.recycleSpareList cpu q }

def setMaxSkbs (r : Recycler ι) (cpu : ι) (max : Nat) : Recycler ι :=
  { r with maxSkbs := update r.maxSkbs cpu max }

def setMaxSpareSkbs (r : Recycler ι) (cpu : ι) (max : Nat) : Recycler ι :=
  { r with maxSpareSkbs := update r.maxSpareSkbs cpu max }

def takeSlot (cfg : Config) (r : Recycler ι) : Recycler ι :=
  { r with
    glob := { r.glob with
      pool := r.glob.pool.set r.glob.head []
      head := cfg.nextSlot r.glob.head } }

/-- The slot at the tail gets `q` and the tail advances. -/
def fillSlot (cfg : Config) (r : Recycler ι) (q : List Skb) : Recycler ι :=
  { r with
    glob := { r.glob with
      pool := r.glob.pool.set r.glob.tail q
      tail := cfg.nextSlot r.glob.tail } }

end Recycler

/-- `skb_recycler_init`: every list is empty, with the given limits. -/
def skbRecyclerInit (cfg : Config) (maxSkbs maxSpareSkbs : ι → Nat) : Recycler ι :=
  { recycleList := fun _ => []
    recycleSpareList := fun _ => []
    maxSkbs := maxSkbs
    maxSpareSkbs := maxSpareSkbs
    glob := { pool := List.replicate cfg.maxSharedPools [], head := 0, tail := 0 } }

/-- `skb_recycler_alloc` on `cpu`, `enable` being the value of
    `skb_recycling_enable` that was read. -/
def skbRecyclerAlloc (cfg : Config) (enable : Bool) (cpu : ι) (length : Nat)
    (r : Recycler ι) : Option (Option Skb × Recycler ι) :=
  if !enable then some (none, r)
  else if length > cfg.recycleSize then some (none, r)
  else
    match r.recycleList cpu with
    | skb :: rest => some (some skb, r.setHot cpu rest)
    | [] =>
      if r.glob.head = r.glob.tail then some (none, r)
      else
        match r.glob.pool[r.glob.head]? with
        | none => none
        | some slot =>
          -- the whole slot becomes the hot list, then the first buffer leaves it
          match slot with
          | [] => some (none, (r.takeSlot cfg).setHot cpu [])
          | skb :: rest => some (some skb, (r.takeSlot cfg).setHot cpu rest)

/-- What a consumer reads before its critical section, on the CPU and at the time it
    happens to run then: `skb_recycling_enable` and `skb_recycler_max_skbs_core`. -/
structure Seen where
  enable : Bool
  maxSkbs : Nat

inductive Taken where
  | hot
  | spare
  | refused
  deriving DecidableEq

/-- The critical section `skb_recycler_consume` and `skb_recycler_consume_list_fast`
    share: put `skbs` in front of the hot list, or else of the spare list, moving a
    full spare list to the ring first. -/
def recycle (cfg : Config) (maxSkbs : Nat) (cpu : ι) (skbs : List Skb) (r : Recycler ι) :
    Option (Taken × Recycler ι) :=
  if (r.recycleList cpu).length < maxSkbs then
    some (.hot, r.setHot cpu (skbs ++ r.recycleList cpu))
  else if (r.recycleSpareList cpu).length ≥ r.maxSpareSkbs cpu then
    if cfg.nextSlot r.glob.tail ≠ r.glob.head then
      match r.glob.pool[r.glob.tail]? with
      | none => none
      | some p =>
        some (.spare, (r.fillSlot cfg (r.recycleSpareList cpu ++ p)).setSpare cpu skbs)
    else some (.refused, r)
  else some (.spare, r.setSpare cpu (skbs ++ r.recycleSpareList cpu))

/-- `skb_recycler_consume`; `canRecycle` is the answer of `consume_skb_can_recycle`. -/
def skbRecyclerConsume (cfg : Config) (seen : Seen) (canRecycle : Bool) (cpu : ι) (skb : Skb)
    (r : Recycler ι) : Option (Bool × Recycler ι) :=
  if !seen.enable then some (false, r)
  else if !canRecycle then some (false, r)
  else (recycle cfg seen.maxSkbs cpu [skb] r).map fun (taken, r') => (taken ≠ .refused, r')

/-- `skb_recycler_consume_list_fast`: the answer, and what the caller's list head shows
    afterwards. `skb_queue_splice`, unlike `skb_queue_splice_init`, leaves it as it was. -/
def skbRecyclerConsumeListFast (cfg : Config) (seen : Seen) (cpu : ι) (skbList : List Skb)
    (r : Recycler ι) : Option (Bool × List Skb × Recycler ι) :=
  if !seen.enable then some (false, skbList, r)
  else
    (recycle cfg seen.maxSkbs cpu skbList r).map fun (taken, r') =>
      (taken ≠ .refused, if taken = .spare then [] else skbList, r')

/-! ## What each call can do -/

variable {cfg : Config} {cpu : ι} {r r' : Recycler ι}

/-- The four outcomes of an allocation. -/
theorem skbRecyclerAlloc_cases {enable : Bool} {length : Nat} {res : Option Skb}
    (h : skbRecyclerAlloc cfg enable cpu length r = some (res, r')) :
    (res = none ∧ r' = r) ∨
    (∃ skb rest, r.recycleList cpu = skb :: rest ∧ res = some skb ∧ r' = r.setHot cpu rest) ∨
    (∃ slot, r.recycleList cpu = [] ∧ r.glob.head ≠ r.glob.tail ∧
      r.glob.pool[r.glob.head]? = some slot ∧ res = slot.head? ∧
      r' = (r.takeSlot cfg).setHot cpu slot.tail) := by
  unfold skbRecyclerAlloc at h
  split at h
  · simp only [some.injEq, Prod.mk.injEq] at h
    exact inl ⟨h.1.symm, h.2.symm⟩
  split at h
  · simp only [some.injEq, Prod.mk.injEq] at h
    exact inl ⟨h.1.symm, h.2.symm⟩
  split at h
  · rename_i skb rest hhot
    simp only [some.injEq, Prod.mk.injEq] at h
    exact inr (inl ⟨skb, rest, hhot, h.1.symm, h.2.symm⟩)
  · rename_i hhot
    split at h
    · simp only [some.injEq, Prod.mk.injEq] at h
      exact inl ⟨h.1.symm, h.2.symm⟩
    · rename_i hne
      split at h
      · simp at h
      · rename_i slot hslot
        refine inr (inr ⟨slot, hhot, hne, hslot, ?_⟩)
        cases slot with
        | nil =>
          simp only [some.injEq, Prod.mk.injEq] at h
          exact ⟨h.1.symm, h.2.symm⟩
        | cons skb rest =>
          simp only [some.injEq, Prod.mk.injEq] at h
          exact ⟨h.1.symm, h.2.symm⟩

/-- The four outcomes of the consumers' critical section. -/
theorem recycle_cases {maxSkbs : Nat} {skbs : List Skb} {taken : Taken}
    (h : recycle cfg maxSkbs cpu skbs r = some (taken, r')) :
    (taken = .refused ∧ r' = r) ∨
    (taken = .hot ∧ (r.recycleList cpu).length < maxSkbs ∧
      r' = r.setHot cpu (skbs ++ r.recycleList cpu)) ∨
    (taken = .spare ∧ (r.recycleSpareList cpu).length < r.maxSpareSkbs cpu ∧
      r' = r.setSpare cpu (skbs ++ r.recycleSpareList cpu)) ∨
    (∃ p, taken = .spare ∧ r.maxSpareSkbs cpu ≤ (r.recycleSpareList cpu).length ∧
      cfg.nextSlot r.glob.tail ≠ r.glob.head ∧ r.glob.pool[r.glob.tail]? = some p ∧
      r' = (r.fillSlot cfg (r.recycleSpareList cpu ++ p)).setSpare cpu skbs) := by
  unfold recycle at h
  split at h
  · rename_i hhot
    simp only [some.injEq, Prod.mk.injEq] at h
    exact inr (inl ⟨h.1.symm, hhot, h.2.symm⟩)
  split at h
  · rename_i hfull
    split at h
    · rename_i hroom
      split at h
      · simp at h
      · rename_i p hp
        simp only [some.injEq, Prod.mk.injEq] at h
        exact inr (inr (inr ⟨p, h.1.symm, hfull, hroom, hp, h.2.symm⟩))
    · simp only [some.injEq, Prod.mk.injEq] at h
      exact inl ⟨h.1.symm, h.2.symm⟩
  · rename_i hroom
    simp only [some.injEq, Prod.mk.injEq] at h
    exact inr (inr (inl ⟨h.1.symm, by omega, h.2.symm⟩))

theorem skbRecyclerAlloc_defined {enable : Bool} {length : Nat} {slot : List Skb}
    (hslot : r.glob.pool[r.glob.head]? = some slot) :
    skbRecyclerAlloc cfg enable cpu length r ≠ none := by
  unfold skbRecyclerAlloc
  rw [hslot]
  split
  · simp
  split
  · simp
  split
  · simp
  split
  · simp
  · cases slot <;> simp

/-- The consumers' critical section is defined where the tail is a slot. -/
theorem recycle_defined {maxSkbs : Nat} {skbs p : List Skb}
    (hp : r.glob.pool[r.glob.tail]? = some p) :
    recycle cfg maxSkbs cpu skbs r ≠ none := by
  unfold recycle
  rw [hp]
  split
  · simp
  split
  · split <;> simp
  · simp

/-- A consumed buffer was taken by one of the lists; a refused one changed nothing. -/
theorem skbRecyclerConsume_cases {seen : Seen} {canRecycle : Bool} {skb : Skb} {ok : Bool}
    (h : skbRecyclerConsume cfg seen canRecycle cpu skb r = some (ok, r')) :
    (ok = false ∧ r' = r) ∨
    (ok = true ∧ ∃ taken, taken ≠ Taken.refused ∧
      recycle cfg seen.maxSkbs cpu [skb] r = some (taken, r')) := by
  unfold skbRecyclerConsume at h
  split at h
  · simp only [some.injEq, Prod.mk.injEq] at h
    exact inl ⟨h.1.symm, h.2.symm⟩
  split at h
  · simp only [some.injEq, Prod.mk.injEq] at h
    exact inl ⟨h.1.symm, h.2.symm⟩
  · simp only [map_eq_some_iff, Prod.mk.injEq, Prod.exists] at h
    obtain ⟨taken, r'', hrec, hok, rfl⟩ := h
    by_cases href : taken = .refused
    · subst href
      rcases recycle_cases hrec with ⟨-, rfl⟩ | ⟨h, -⟩ | ⟨h, -⟩ | ⟨-, h, -⟩
      · exact inl ⟨by simpa using hok.symm, rfl⟩
      all_goals cases h
    · exact inr ⟨by simpa [href] using hok.symm, taken, href, hrec⟩

/-- A list is taken as a whole or not at all. -/
theorem skbRecyclerConsumeListFast_cases {seen : Seen} {skbList left : List Skb} {ok : Bool}
    (h : skbRecyclerConsumeListFast cfg seen cpu skbList r = some (ok, left, r')) :
    (ok = false ∧ left = skbList ∧ r' = r) ∨
    (ok = true ∧ ∃ taken, taken ≠ Taken.refused ∧
      recycle cfg seen.maxSkbs cpu skbList r = some (taken, r')) := by
  unfold skbRecyclerConsumeListFast at h
  split at h
  · simp only [some.injEq, Prod.mk.injEq] at h
    exact inl ⟨h.1.symm, h.2.1.symm, h.2.2.symm⟩
  · simp only [map_eq_some_iff, Prod.mk.injEq, Prod.exists] at h
    obtain ⟨taken, r'', hrec, hok, hleft, rfl⟩ := h
    by_cases href : taken = .refused
    · subst href
      rcases recycle_cases hrec with ⟨-, rfl⟩ | ⟨h, -⟩ | ⟨h, -⟩ | ⟨-, h, -⟩
      · exact inl ⟨by simpa using hok.symm, by simpa using hleft.symm, rfl⟩
      all_goals cases h
    · exact inr ⟨by simpa [href] using hok.symm, taken, href, hrec⟩

end LibWrt.SkbRecycler
