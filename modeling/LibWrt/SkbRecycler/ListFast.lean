/-
LibWrt.SkbRecycler.ListFast — `skb_recycler_consume_list_fast` in all its builds.

With debug objects the list is walked and each buffer goes to `consume_skb`;
otherwise the list is spliced as a whole, and without
`CONFIG_SKB_RECYCLER_MULTI_CPU` there is only the hot list to splice it to.
The buffers of a list have no other reference.

What the function owes its caller is `TakenOver`. It owes it in every case but
one: the splice to the hot list leaves the caller's list head as it was
(`consumeListFast_iff`).
-/
import LibWrt.SkbRecycler.Recycler
import Mathlib.Algebra.BigOperators.Group.Finset.Basic
import Mathlib.Data.Fintype.Basic

namespace LibWrt.SkbRecycler

open Option Finset List Function

/-- `CONFIG_DEBUG_OBJECTS_SKBUFF` and `CONFIG_SKB_RECYCLER_MULTI_CPU` -/
structure Build where
  debugObjects : Bool
  multiCpu : Bool

variable {ι : Type} [DecidableEq ι]

/-- What `consume_skb` meets with a buffer: whether it has data, and what
    `skb_recycler_consume` reads. -/
structure Answer (ι : Type) where
  data : Bool
  seen : Seen
  canRecycle : Bool
  cpu : ι

/-- What the list consumer leaves: its answer, the caller's list head, the buffers that were
    freed, and the recycler. -/
structure Outcome (ι : Type) where
  ok : Bool
  left : List Skb
  freed : List Skb
  recycler : Recycler ι

namespace Build

def recycle (b : Build) (cfg : Config) (maxSkbs : Nat) (cpu : ι) (skbs : List Skb)
    (r : Recycler ι) : Option (Taken × Recycler ι) :=
  if b.multiCpu then SkbRecycler.recycle cfg maxSkbs cpu skbs r
  else if (r.recycleList cpu).length < maxSkbs then
    some (.hot, r.setHot cpu (skbs ++ r.recycleList cpu))
  else some (.refused, r)

/-- `consume_skb`, with the buffers that were freed before: the buffer is recycled, or freed. -/
def consumeSkb (b : Build) (cfg : Config) (answer : Answer ι) (skb : Skb) (freed : List Skb)
    (r : Recycler ι) : Option (List Skb × Recycler ι) :=
  if answer.data && answer.seen.enable && answer.canRecycle then
    (b.recycle cfg answer.seen.maxSkbs answer.cpu [skb] r).map fun (taken, r') =>
      (if taken = .refused then skb :: freed else freed, r')
  else some (skb :: freed, r)

/-- The walk over the list in the build with debug objects. -/
def consumeAll (b : Build) (cfg : Config) (answer : Skb → Answer ι) :
    List Skb → List Skb → Recycler ι → Option (List Skb × Recycler ι)
  | [], freed, r => some (freed, r)
  | skb :: skbList, freed, r =>
    (b.consumeSkb cfg (answer skb) skb freed r).bind fun (freed', r') =>
      b.consumeAll cfg answer skbList freed' r'

/-- `skb_recycler_consume_list_fast` -/
def consumeListFast (b : Build) (cfg : Config) (seen : Seen) (cpu : ι) (answer : Skb → Answer ι)
    (skbList : List Skb) (r : Recycler ι) : Option (Outcome ι) :=
  if !seen.enable then some { ok := false, left := skbList, freed := [], recycler := r }
  else if b.debugObjects then
    (b.consumeAll cfg answer skbList [] r).map fun (freed, r') =>
      { ok := true, left := [], freed := freed, recycler := r' }
  else
    -- `skb_queue_splice` to the hot list, `skb_queue_splice_init` to the spare one
    (b.recycle cfg seen.maxSkbs cpu skbList r).map fun (taken, r') =>
      { ok := taken ≠ .refused, left := if taken = .spare then [] else skbList, freed := []
        recycler := r' }

theorem recycle_hot {b : Build} {cfg : Config} {maxSkbs : Nat} {cpu : ι} {skbs : List Skb}
    {r : Recycler ι} (h : (r.recycleList cpu).length < maxSkbs) :
    b.recycle cfg maxSkbs cpu skbs r =
      some (.hot, r.setHot cpu (skbs ++ r.recycleList cpu)) := by
  simp [recycle, SkbRecycler.recycle, h]

theorem hot_of_recycle {b : Build} {cfg : Config} {maxSkbs : Nat} {cpu : ι}
    {skbs : List Skb} {r : Recycler ι} {res : Taken × Recycler ι}
    (h : b.recycle cfg maxSkbs cpu skbs r = some res) (hrefused : res.1 ≠ .refused)
    (hspare : res.1 ≠ .spare) : (r.recycleList cpu).length < maxSkbs := by
  by_contra hfull
  unfold recycle at h
  split at h
  · rcases recycle_cases h with ⟨h, -⟩ | ⟨-, h, -⟩ | ⟨h, -⟩ | ⟨-, h, -⟩
    · exact hrefused h
    · exact hfull h
    · exact hspare h
    · exact hspare h
  · exact hrefused (some.inj h ▸ rfl)

end Build

/-! ## The buffers of the recycler -/

section Buffers

variable [Fintype ι]

def Recycler.buffers (r : Recycler ι) : Multiset Skb :=
  ∑ cpu, (r.recycleList cpu : Multiset Skb) + ∑ cpu, (r.recycleSpareList cpu : Multiset Skb) +
    (r.glob.pool.flatten : Multiset Skb)

theorem sum_update (f : ι → List Skb) (cpu : ι) (q : List Skb) :
    ∑ c, (update f cpu q c : Multiset Skb) + f cpu = ∑ c, (f c : Multiset Skb) + q := by
  have hrest : ∑ c ∈ Finset.univ.erase cpu, (update f cpu q c : Multiset Skb) =
      ∑ c ∈ Finset.univ.erase cpu, (f c : Multiset Skb) :=
    sum_congr rfl fun c hc => by
      rw [update_of_ne (ne_of_mem_erase hc)]
  rw [← add_sum_erase _ _ (mem_univ cpu), hrest, update_self,
    ← add_sum_erase _ (fun c => (f c : Multiset Skb)) (mem_univ cpu)]
  ac_rfl

theorem flatten_set {pool : List (List Skb)} {k : Nat} {p : List Skb} (hp : pool[k]? = some p)
    (q : List Skb) : ((pool.set k q).flatten : Multiset Skb) + p = pool.flatten + q := by
  induction pool generalizing k with
  | nil => simp at hp
  | cons slot pool ih =>
    cases k with
    | zero =>
      obtain rfl : slot = p := by simpa using hp
      simp only [set_cons_zero, flatten_cons, ← Multiset.coe_add]
      ac_rfl
    | succ k =>
      have := ih (by simpa using hp)
      simp only [set_cons_succ, flatten_cons, ← Multiset.coe_add, add_assoc, this]

theorem buffers_setHot (r : Recycler ι) (cpu : ι) (skbs : List Skb) :
    (r.setHot cpu (skbs ++ r.recycleList cpu)).buffers = r.buffers + skbs := by
  have hsum := sum_update r.recycleList cpu (skbs ++ r.recycleList cpu)
  rw [← Multiset.coe_add, ← add_assoc, add_left_inj] at hsum
  simp only [Recycler.buffers, Recycler.setHot, hsum]
  ac_rfl

theorem buffers_setSpare (r : Recycler ι) (cpu : ι) (skbs : List Skb) :
    (r.setSpare cpu (skbs ++ r.recycleSpareList cpu)).buffers = r.buffers + skbs := by
  have hsum := sum_update r.recycleSpareList cpu (skbs ++ r.recycleSpareList cpu)
  rw [← Multiset.coe_add, ← add_assoc, add_left_inj] at hsum
  simp only [Recycler.buffers, Recycler.setSpare, hsum]
  ac_rfl

variable {cfg : Config} {r r' : Recycler ι} {b : Build}

/-- The spare list goes to the ring, and the buffers take its place. -/
theorem buffers_fillSlot (cfg : Config) {p : List Skb} (hp : r.glob.pool[r.glob.tail]? = some p)
    (cpu : ι) (skbs : List Skb) :
    ((r.fillSlot cfg (r.recycleSpareList cpu ++ p)).setSpare cpu skbs).buffers =
      r.buffers + skbs := by
  have hsum := sum_update r.recycleSpareList cpu skbs
  have hpool := flatten_set hp (r.recycleSpareList cpu ++ p)
  rw [← Multiset.coe_add, ← add_assoc, add_left_inj] at hpool
  simp only [Recycler.buffers, Recycler.setSpare, Recycler.fillSlot, hpool]
  rw [← add_assoc, add_right_comm, add_assoc (∑ cpu, (r.recycleList cpu : Multiset Skb)), hsum]
  ac_rfl

/-- Whatever list took the buffers, it has them once, and the rest is where it was. -/
theorem Build.recycle_buffers {maxSkbs : Nat} {cpu : ι} {skbs : List Skb} {taken : Taken}
    (h : b.recycle cfg maxSkbs cpu skbs r = some (taken, r')) :
    (taken = .refused ∧ r' = r) ∨ taken ≠ .refused ∧ r'.buffers = r.buffers + skbs := by
  unfold Build.recycle at h
  split at h
  · rcases recycle_cases h with ⟨rfl, rfl⟩ | ⟨rfl, -, rfl⟩ | ⟨rfl, -, rfl⟩ | ⟨p, rfl, -, -, hp, rfl⟩
    · exact .inl ⟨rfl, rfl⟩
    · exact .inr ⟨by decide, buffers_setHot r cpu skbs⟩
    · exact .inr ⟨by decide, buffers_setSpare r cpu skbs⟩
    · exact .inr ⟨by decide, buffers_fillSlot cfg hp cpu skbs⟩
  · split at h
    · simp only [some.injEq, Prod.mk.injEq] at h
      obtain ⟨rfl, rfl⟩ := h
      exact .inr ⟨by decide, buffers_setHot r cpu skbs⟩
    · simp only [some.injEq, Prod.mk.injEq] at h
      obtain ⟨rfl, rfl⟩ := h
      exact .inl ⟨rfl, rfl⟩

/-- A consumed buffer is in the recycler or freed. -/
theorem Build.consumeSkb_buffers {answer : Answer ι} {skb : Skb} {freed freed' : List Skb}
    (h : b.consumeSkb cfg answer skb freed r = some (freed', r')) :
    r'.buffers + freed' = r.buffers + ↑(skb :: freed) := by
  unfold Build.consumeSkb at h
  split at h
  · simp only [map_eq_some_iff, Prod.mk.injEq, Prod.exists] at h
    obtain ⟨taken, r'', hrec, rfl, rfl⟩ := h
    rcases Build.recycle_buffers hrec with ⟨rfl, rfl⟩ | ⟨hne, hbuf⟩
    · rw [if_pos rfl]
    · rw [if_neg hne, hbuf, add_assoc, Multiset.coe_add, singleton_append]
  · simp only [some.injEq, Prod.mk.injEq] at h
    obtain ⟨rfl, rfl⟩ := h
    rfl

theorem Build.consumeAll_buffers {answer : Skb → Answer ι} {skbList freed freed' : List Skb}
    (h : b.consumeAll cfg answer skbList freed r = some (freed', r')) :
    r'.buffers + freed' = r.buffers + ↑(skbList ++ freed) := by
  induction skbList generalizing freed r with
  | nil =>
    simp only [Build.consumeAll, some.injEq, Prod.mk.injEq] at h
    obtain ⟨rfl, rfl⟩ := h
    rfl
  | cons skb skbList ih =>
    obtain ⟨mid, hskb, hrest⟩ := bind_eq_some_iff.mp h
    have hmid : mid.2.buffers + mid.1 = r.buffers + ↑(skb :: freed) :=
      Build.consumeSkb_buffers hskb
    calc r'.buffers + freed' = mid.2.buffers + ↑(skbList ++ mid.1) := ih hrest
      _ = mid.2.buffers + mid.1 + skbList := by
        rw [← Multiset.coe_add, add_assoc, add_comm (mid.1 : Multiset Skb)]
      _ = r.buffers + ↑(skb :: (skbList ++ freed)) := by
        rw [hmid, ← Multiset.cons_coe, ← Multiset.cons_coe, ← Multiset.coe_add,
          Multiset.add_cons, Multiset.add_cons, Multiset.cons_add, add_assoc,
          add_comm (freed : Multiset Skb)]

/-! ## What the caller is owed -/

/-- A list that is taken is empty, and its buffers are in the recycler or freed, each once;
nothing happens to a list that is not taken. -/
structure TakenOver (skbList : List Skb) (r : Recycler ι) (o : Outcome ι) : Prop where
  empty : o.ok = true → o.left = []
  buffers : o.ok = true → o.recycler.buffers + o.freed = r.buffers + skbList
  unchanged : o.ok = false → o.left = skbList ∧ o.freed = [] ∧ o.recycler = r

/-- The buffers are taken over in every case, the list head in every case but one. A list that
goes to a ring without slots has no outcome, and nothing is said of it. -/
theorem consumeListFast_iff (b : Build) (cfg : Config) (seen : Seen) (cpu : ι)
    (answer : Skb → Answer ι) (skbList : List Skb) (r : Recycler ι) :
    (∀ o, b.consumeListFast cfg seen cpu answer skbList r = some o → TakenOver skbList r o) ↔
      b.debugObjects = true ∨ seen.enable = false ∨
        seen.maxSkbs ≤ (r.recycleList cpu).length ∨ skbList = [] := by
  constructor
  · intro h
    by_contra hcond
    simp only [not_or, Bool.not_eq_true, Bool.not_eq_false, not_le] at hcond
    obtain ⟨hdebug, henable, hhot, hne⟩ := hcond
    have hres := h { ok := true, left := skbList, freed := []
                     recycler := r.setHot cpu (skbList ++ r.recycleList cpu) } (by
      simp [Build.consumeListFast, henable, hdebug, Build.recycle_hot hhot])
    exact hne (hres.empty rfl)
  · intro hcond o ho
    unfold Build.consumeListFast at ho
    split at ho
    · obtain rfl := some.inj ho
      exact ⟨by simp, by simp, by simp⟩
    · rename_i henable
      split at ho
      · obtain ⟨res, hres, rfl⟩ := map_eq_some_iff.mp ho
        have hbuf : res.2.buffers + res.1 = r.buffers + ((skbList ++ [] : List Skb) : Multiset Skb) :=
          Build.consumeAll_buffers hres
        rw [append_nil] at hbuf
        exact ⟨fun _ => rfl, fun _ => hbuf, by simp⟩
      · rename_i hdebug
        obtain ⟨res, hres, rfl⟩ := map_eq_some_iff.mp ho
        rcases Build.recycle_buffers hres with ⟨hrefused, hsame⟩ | ⟨htaken, hbuf⟩
        · exact ⟨by simp [hrefused], by simp [hrefused], by simp [hrefused, hsame]⟩
        · refine ⟨fun _ => ?_, fun _ => by simpa using hbuf, by simp [htaken]⟩
          simp only
          split
          · rfl
          · rename_i hspare
            -- the list is on the hot list, so it is empty
            have hhot := Build.hot_of_recycle hres htaken hspare
            simp only [Bool.not_eq_true, Bool.not_eq_false'] at henable hdebug
            rcases hcond with h | h | h | h
            · simp [hdebug] at h
            · simp [henable] at h
            · omega
            · exact h

/-- Two buffers, and a hot list with room. -/
theorem consumeListFast_keeps_list : ¬ ∀ o, (Build.mk false true).consumeListFast {} ⟨true, 1⟩ ()
    (fun _ => ⟨true, ⟨true, 1⟩, true, ()⟩) [10, 11] (skbRecyclerInit {} (fun _ => 1) fun _ => 1) =
      some o → TakenOver [10, 11] (skbRecyclerInit {} (fun _ => 1) fun _ => 1) o := by
  intro h
  have := (h _ rfl).empty rfl
  simp at this

end Buffers

end LibWrt.SkbRecycler
