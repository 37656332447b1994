/-
LibWrt.SkbRecycler.Ring — the shared ring and the bounds of the lists.

With the limits fixed at `M` and `S` for all CPUs, and buffers moved by
allocations and consumers only, the ring's slots from `head` up to `tail`
hold one full spare list each and all others are empty. The number of pools
need not be a power of two: the masked counters then use only the first
`MaskRing.size pools 8` slots, and the ring is as sound as before, with less
room. It takes one pool at least. A preallocation of 0 buffers gives an
array of no pools whose mask is all ones, and the first transfer indexes it.

`RingAt d` is the invariant, `d` being the number of occupied slots;
`RingAt.step` is its step lemma. With the conservation of buffers it bounds
what the recycler keeps.
-/
import LibWrt.SkbRecycler.Conservation
import LibWrt.Lib.MaskRing

namespace LibWrt.SkbRecycler

open List Option MaskRing Or Finset Function

variable {ι ω : Type} {cfg : Config} {M S : Nat}

/-- Allocations and consumers only, each consumer having read the hot limit of the
    CPU it ran on. -/
def AllocConsume (s : System ι ω) : Op ι ω → Prop
  | .adopt o skb => Legal s (.adopt o skb)
  | .release o skb => Legal s (.release o skb)
  | .pass o o' skb => Legal s (.pass o o' skb)
  | .alloc .. => True
  | .consume seen canRecycle cpu o skb =>
    Legal s (.consume seen canRecycle cpu o skb) ∧
      ∃ cpu', seen.maxSkbs = s.recycler.maxSkbs cpu'
  | _ => False

/-- The limits `max_skbs` and `max_spare_skbs` are the same on every CPU. -/
def start (ι ω : Type) (cfg : Config) (M S : Nat) : System ι ω :=
  initial cfg (fun _ => M) fun _ => S

/-- Slot `k` is in `[head, tail)`. -/
def Recycler.InRing (cfg : Config) (r : Recycler ι) (k : Nat) : Prop :=
  MaskRing.Arc cfg.nextSlot r.glob.head r.glob.tail k

structure RingOk (cfg : Config) (M S : Nat) (r : Recycler ι) : Prop where
  full : ∀ k slot, r.glob.pool[k]? = some slot → r.InRing cfg k → slot.length = S
  empty : ∀ k slot, r.glob.pool[k]? = some slot → ¬ r.InRing cfg k → slot = []
  /-- the slot the next transfer fills is not occupied -/
  room : ∀ slot, r.glob.pool[r.glob.tail]? = some slot → slot = []
  hot : ∀ cpu, (r.recycleList cpu).length ≤ max M S
  spare : ∀ cpu, (r.recycleSpareList cpu).length ≤ S

def Config.ringSize (cfg : Config) : Nat := MaskRing.size cfg.maxSharedPools 8

/-- Below nine bits the 32-bit mask is the number of pools minus one. -/
theorem nextSlot_eq_next (hpools : 0 < cfg.maxSharedPools) {i : Nat} (hi : i < 256) :
    cfg.nextSlot i = MaskRing.next cfg.maxSharedPools 8 i := by
  have hmask : cfg.sharedPoolsMask = (cfg.maxSharedPools - 1) % 2 ^ 32 := by
    have hsum : cfg.maxSharedPools + 2 ^ 32 - 1 = cfg.maxSharedPools - 1 + 2 ^ 32 := by omega
    rw [Config.sharedPoolsMask, hsum, Nat.add_mod_right]
  have hi32 : (i + 1) % 2 ^ 32 = i + 1 := Nat.mod_eq_of_lt (by omega)
  have hand : (i + 1) &&& cfg.sharedPoolsMask = (i + 1) &&& (cfg.maxSharedPools - 1) := by
    rw [hmask]
    apply Nat.eq_of_testBit_eq
    intro j
    rw [Nat.testBit_and, Nat.testBit_and, Nat.testBit_mod_two_pow]
    by_cases hj : j < 32
    · simp [hj]
    · have hbit : (i + 1).testBit j = false :=
        Nat.testBit_lt_two_pow (lt_of_lt_of_le (by omega : i + 1 < 2 ^ 32)
          (Nat.pow_le_pow_right two_pos (by omega)))
      simp [hbit]
  rw [Config.nextSlot, hand, MaskRing.next]

theorem ringSize_pos (cfg : Config) : 0 < cfg.ringSize := size_pos _ _

theorem ringSize_le_word (cfg : Config) : cfg.ringSize ≤ 256 :=
  Nat.le_of_dvd (by norm_num) (Nat.gcd_dvd_right _ _)

theorem ringSize_le (hpools : 0 < cfg.maxSharedPools) : cfg.ringSize ≤ cfg.maxSharedPools :=
  size_le hpools 8

/-- The counters wrap at the ring size. -/
theorem nextSlot_eq (hpools : 0 < cfg.maxSharedPools) {i : Nat} (hi : i < cfg.ringSize) :
    cfg.nextSlot i = (i + 1) % cfg.ringSize := by
  rw [nextSlot_eq_next hpools (lt_of_lt_of_le hi (ringSize_le_word cfg))]
  exact next_eq hpools hi

/-! ## The invariant -/

/-- `d` slots from the head on are occupied, each by one full spare list. -/
structure RingAt (cfg : Config) (M S d : Nat) (r : Recycler ι) : Prop where
  maxSkbs : ∀ cpu, r.maxSkbs cpu = M
  maxSpareSkbs : ∀ cpu, r.maxSpareSkbs cpu = S
  length : r.glob.pool.length = cfg.maxSharedPools
  head_lt : r.glob.head < cfg.ringSize
  occupied_lt : d < cfg.ringSize
  tail_eq : r.glob.tail = (r.glob.head + d) % cfg.ringSize
  full : ∀ k slot, r.glob.pool[k]? = some slot →
    (∃ j < d, k = (r.glob.head + j) % cfg.ringSize) → slot.length = S
  empty : ∀ k slot, r.glob.pool[k]? = some slot →
    (¬ ∃ j < d, k = (r.glob.head + j) % cfg.ringSize) → slot = []
  hot : ∀ cpu, (r.recycleList cpu).length ≤ max M S
  spare : ∀ cpu, (r.recycleSpareList cpu).length ≤ S

namespace RingAt

variable {d : Nat} {r : Recycler ι}

theorem tail_lt (h : RingAt cfg M S d r) : r.glob.tail < cfg.ringSize := by
  rw [h.tail_eq]
  exact Nat.mod_lt _ (ringSize_pos cfg)

/-- The tail is not one of the occupied slots. -/
theorem tail_free (h : RingAt cfg M S d r) :
    ¬ ∃ j < d, r.glob.tail = (r.glob.head + j) % cfg.ringSize := by
  rintro ⟨j, hj, heq⟩
  rw [h.tail_eq] at heq
  exact mod_ne hj h.occupied_lt heq.symm

/-- The occupied slots are those from head to tail. -/
theorem inRing_iff (hpools : 0 < cfg.maxSharedPools) (h : RingAt cfg M S d r) (k : Nat) :
    r.InRing cfg k ↔ ∃ j < d, k = (r.glob.head + j) % cfg.ringSize := by
  have hiter : ∀ j, cfg.nextSlot^[j] r.glob.head =
      (MaskRing.next cfg.maxSharedPools 8)^[j] r.glob.head := by
    intro j
    induction j with
    | zero => simp
    | succ j ih =>
      rw [iterate_succ_apply', iterate_succ_apply', ih]
      apply nextSlot_eq_next hpools
      rw [iterate_next hpools h.head_lt]
      exact lt_of_lt_of_le (Nat.mod_lt _ (ringSize_pos cfg)) (ringSize_le_word cfg)
  have harc := arc_iff (k := k) hpools h.head_lt h.occupied_lt
  have htail : (r.glob.head + d) % MaskRing.size cfg.maxSharedPools 8 = r.glob.tail :=
    h.tail_eq.symm
  rw [htail] at harc
  refine Iff.trans ?_ harc
  unfold Recycler.InRing MaskRing.Arc
  simp only [hiter]

theorem ringOk (hpools : 0 < cfg.maxSharedPools) (h : RingAt cfg M S d r) :
    RingOk cfg M S r where
  full k slot hk hin := h.full k slot hk ((h.inRing_iff hpools k).mp hin)
  empty k slot hk hout := h.empty k slot hk fun hin => hout ((h.inRing_iff hpools k).mpr hin)
  room slot hk := h.empty _ slot hk h.tail_free
  hot := h.hot
  spare := h.spare

variable {r' : Recycler ι} {cpu : ι} {q : List Skb}

/-- Only the per-CPU lists change. -/
theorem lists (h : RingAt cfg M S d r) (hglob : r'.glob = r.glob) (hmax : r'.maxSkbs = r.maxSkbs)
    (hmaxSpare : r'.maxSpareSkbs = r.maxSpareSkbs)
    (hhot : ∀ cpu, (r'.recycleList cpu).length ≤ max M S)
    (hspare : ∀ cpu, (r'.recycleSpareList cpu).length ≤ S) : RingAt cfg M S d r' where
  maxSkbs := by rw [hmax]; exact h.maxSkbs
  maxSpareSkbs := by rw [hmaxSpare]; exact h.maxSpareSkbs
  length := by rw [hglob]; exact h.length
  head_lt := by rw [hglob]; exact h.head_lt
  occupied_lt := h.occupied_lt
  tail_eq := by rw [hglob]; exact h.tail_eq
  full := by rw [hglob]; exact h.full
  empty := by rw [hglob]; exact h.empty
  hot := hhot
  spare := hspare

theorem setHot [DecidableEq ι] (h : RingAt cfg M S d r) (hq : q.length ≤ max M S) :
    RingAt cfg M S d (r.setHot cpu q) := by
  refine h.lists rfl rfl rfl ?_ h.spare
  intro cpu'
  by_cases hcpu : cpu' = cpu
  · subst hcpu; simpa [Recycler.setHot] using hq
  · simpa [Recycler.setHot, hcpu] using h.hot cpu'

theorem setSpare [DecidableEq ι] (h : RingAt cfg M S d r) (hq : q.length ≤ S) :
    RingAt cfg M S d (r.setSpare cpu q) := by
  refine h.lists rfl rfl rfl h.hot ?_
  intro cpu'
  by_cases hcpu : cpu' = cpu
  · subst hcpu; simpa [Recycler.setSpare] using hq
  · simpa [Recycler.setSpare, hcpu] using h.spare cpu'

theorem takeSlot (hpools : 0 < cfg.maxSharedPools) (h : RingAt cfg M S (d + 1) r) :
    RingAt cfg M S d (r.takeSlot cfg) := by
  have hnext := nextSlot_eq hpools h.head_lt
  have hlt := h.occupied_lt
  -- the slots after the head, seen from the new head
  have hshift : ∀ j, (cfg.nextSlot r.glob.head + j) % cfg.ringSize =
      (r.glob.head + (j + 1)) % cfg.ringSize := by
    intro j
    rw [hnext, Nat.mod_add_mod]
    congr 1
    omega
  -- the old head is not among them
  have hhead : ¬ ∃ j < d, r.glob.head = (cfg.nextSlot r.glob.head + j) % cfg.ringSize := by
    rintro ⟨j, hj, heq⟩
    rw [hshift] at heq
    have h0 : r.glob.head = (r.glob.head + 0) % cfg.ringSize := by
      rw [Nat.add_zero, Nat.mod_eq_of_lt h.head_lt]
    have heq0 : (r.glob.head + 0) % cfg.ringSize = (r.glob.head + (j + 1)) % cfg.ringSize := by
      rw [← h0]; exact heq
    exact mod_ne (by omega) (by omega) heq0
  have hslot : ∀ k slot, (r.glob.pool.set r.glob.head [])[k]? = some slot →
      (k = r.glob.head ∧ slot = []) ∨ (k ≠ r.glob.head ∧ r.glob.pool[k]? = some slot) := by
    intro k slot hk
    rw [getElem?_set] at hk
    split at hk
    · rename_i heq
      subst heq
      split at hk
      · exact inl ⟨rfl, (some.inj hk).symm⟩
      · cases hk
    · rename_i hne
      exact inr ⟨fun e => hne e.symm, hk⟩
  refine ⟨h.maxSkbs, h.maxSpareSkbs, ?_, ?_, by omega, ?_, ?_, ?_, h.hot, h.spare⟩
  · simpa [Recycler.takeSlot] using h.length
  · simp only [Recycler.takeSlot, hnext]
    exact Nat.mod_lt _ (ringSize_pos cfg)
  · simp only [Recycler.takeSlot]
    rw [hshift, h.tail_eq]
  · intro k slot hk hin
    rcases hslot k slot hk with ⟨rfl, -⟩ | ⟨-, hk⟩
    · exact absurd hin hhead
    · obtain ⟨j, hj, hjk⟩ := hin
      exact h.full k slot hk ⟨j + 1, by omega, hjk.trans (hshift j)⟩
  · intro k slot hk hout
    rcases hslot k slot hk with ⟨-, hnil⟩ | ⟨hne, hk⟩
    · exact hnil
    · refine h.empty k slot hk ?_
      rintro ⟨j, hj, hjk⟩
      cases j with
      | zero =>
        rw [Nat.add_zero, Nat.mod_eq_of_lt h.head_lt] at hjk
        exact hne hjk
      | succ j => exact hout ⟨j, by omega, hjk.trans (hshift j).symm⟩

theorem fillSlot (hpools : 0 < cfg.maxSharedPools) (h : RingAt cfg M S d r)
    (hroom : cfg.nextSlot r.glob.tail ≠ r.glob.head) (hq : q.length = S) :
    RingAt cfg M S (d + 1) (r.fillSlot cfg q) := by
  have hnext : cfg.nextSlot r.glob.tail = (r.glob.head + (d + 1)) % cfg.ringSize := by
    rw [nextSlot_eq hpools h.tail_lt, h.tail_eq, Nat.mod_add_mod, Nat.add_assoc]
  have hlt : d + 1 < cfg.ringSize := by
    have hle : d + 1 ≤ cfg.ringSize := h.occupied_lt
    rcases Nat.lt_or_eq_of_le hle with hlt | heq
    · exact hlt
    · -- one more slot would close the ring
      rw [hnext, heq, Nat.add_mod_right, Nat.mod_eq_of_lt h.head_lt] at hroom
      exact absurd rfl hroom
  have hslot : ∀ k slot, (r.glob.pool.set r.glob.tail q)[k]? = some slot →
      (k = r.glob.tail ∧ slot = q) ∨ (k ≠ r.glob.tail ∧ r.glob.pool[k]? = some slot) := by
    intro k slot hk
    rw [getElem?_set] at hk
    split at hk
    · rename_i heq
      subst heq
      split at hk
      · exact inl ⟨rfl, (some.inj hk).symm⟩
      · cases hk
    · rename_i hne
      exact inr ⟨fun e => hne e.symm, hk⟩
  refine ⟨h.maxSkbs, h.maxSpareSkbs, ?_, h.head_lt, hlt, hnext, ?_, ?_, h.hot, h.spare⟩
  · simpa [Recycler.fillSlot] using h.length
  · intro k slot hk hin
    rcases hslot k slot hk with ⟨-, rfl⟩ | ⟨hne, hk⟩
    · exact hq
    · obtain ⟨j, hj, hjk⟩ := hin
      refine h.full k slot hk ⟨j, ?_, hjk⟩
      by_contra hge
      have hjd : j = d := by omega
      rw [hjd] at hjk
      exact hne (hjk.trans h.tail_eq.symm)
  · intro k slot hk hout
    rcases hslot k slot hk with ⟨rfl, -⟩ | ⟨-, hk⟩
    · exact absurd ⟨d, by omega, h.tail_eq⟩ hout
    · refine h.empty k slot hk fun hin => ?_
      obtain ⟨j, hj, hjk⟩ := hin
      exact hout ⟨j, by omega, hjk⟩

theorem occupied_pos (h : RingAt cfg M S d r) (hne : r.glob.head ≠ r.glob.tail) :
    ∃ d', d = d' + 1 := by
  cases d with
  | zero =>
    rw [h.tail_eq, Nat.add_zero, Nat.mod_eq_of_lt h.head_lt] at hne
    exact absurd rfl hne
  | succ d' => exact ⟨d', rfl⟩

variable [DecidableEq ι]

/-- An allocation keeps the invariant. -/
theorem alloc (hpools : 0 < cfg.maxSharedPools) {enable : Bool} {length : Nat} {res : Option Skb}
    (h : RingAt cfg M S d r) (hres : skbRecyclerAlloc cfg enable cpu length r = some (res, r')) :
    ∃ d', RingAt cfg M S d' r' := by
  rcases skbRecyclerAlloc_cases hres with ⟨-, rfl⟩ | ⟨skb, rest, hhot, -, rfl⟩ |
    ⟨slot, hhot, hne, hslot, -, rfl⟩
  · exact ⟨d, h⟩
  · refine ⟨d, h.setHot ?_⟩
    have hle := h.hot cpu
    rw [hhot, length_cons] at hle
    omega
  · obtain ⟨d', rfl⟩ := h.occupied_pos hne
    refine ⟨d', (h.takeSlot hpools).setHot ?_⟩
    have hfull : slot.length = S :=
      h.full _ slot hslot ⟨0, by omega, (Nat.mod_eq_of_lt h.head_lt).symm⟩
    rw [List.length_tail, hfull]
    omega

theorem recycle (hpools : 0 < cfg.maxSharedPools) (hS : 0 < S) {skb : Skb} {taken : Taken}
    (h : RingAt cfg M S d r) (hrec : recycle cfg M cpu [skb] r = some (taken, r')) :
    ∃ d', RingAt cfg M S d' r' := by
  rcases recycle_cases hrec with ⟨-, rfl⟩ | ⟨-, hlt, rfl⟩ | ⟨-, hlt, rfl⟩ |
    ⟨p, -, hfull, hroom, hp, rfl⟩
  · exact ⟨d, h⟩
  · refine ⟨d, h.setHot ?_⟩
    rw [singleton_append, length_cons]
    omega
  · refine ⟨d, h.setSpare ?_⟩
    rw [h.maxSpareSkbs] at hlt
    rw [singleton_append, length_cons]
    omega
  · have hnil : p = [] := h.empty _ p hp h.tail_free
    have hlen : (r.recycleSpareList cpu ++ p).length = S := by
      rw [h.maxSpareSkbs] at hfull
      have hle := h.spare cpu
      rw [hnil, append_nil]
      omega
    exact ⟨d + 1, (h.fillSlot hpools hroom hlen).setSpare hS⟩

end RingAt

/-! ## Every run -/

theorem RingAt.start (cfg : Config) (M S : Nat) :
    RingAt cfg M S 0 (start ι ω cfg M S).recycler where
  maxSkbs _ := rfl
  maxSpareSkbs _ := rfl
  length := by simp [SkbRecycler.start, initial, skbRecyclerInit]
  head_lt := ringSize_pos cfg
  occupied_lt := ringSize_pos cfg
  tail_eq := (Nat.zero_mod _).symm
  full := by simp
  empty k slot hk _ := by
    simp only [SkbRecycler.start, initial, skbRecyclerInit, getElem?_replicate] at hk
    split at hk
    · exact (some.inj hk).symm
    · cases hk
  hot _ := Nat.zero_le _
  spare _ := Nat.zero_le _

variable [DecidableEq ι] [DecidableEq ω]

variable {s : System ι ω}

/-- The recycler of a state after one operation. -/
theorem RingAt.step (hpools : 0 < cfg.maxSharedPools) (hS : 0 < S) {d : Nat} {s' : System ι ω}
    {op : Op ι ω} (h : RingAt cfg M S d s.recycler) (hok : AllocConsume s op)
    (hexec : exec cfg s op = some s') :
    ∃ d', RingAt cfg M S d' s'.recycler := by
  cases op with
  | adopt o skb | release o skb | pass o o' skb =>
    simp only [exec, some.injEq] at hexec
    subst hexec
    exact ⟨d, h⟩
  | alloc enable cpu length o =>
    simp only [exec] at hexec
    cases hres : skbRecyclerAlloc cfg enable cpu length s.recycler with
    | none => simp [hres] at hexec
    | some res =>
      obtain ⟨skb, r⟩ := res
      have hr := h.alloc hpools hres
      cases skb <;> simp only [hres, some.injEq] at hexec <;> subst hexec <;> exact hr
  | consume seen canRecycle cpu o skb =>
    obtain ⟨-, cpu', hseen⟩ := hok
    simp only [exec] at hexec
    cases hres : skbRecyclerConsume cfg seen canRecycle cpu skb s.recycler with
    | none => simp [hres] at hexec
    | some res =>
      obtain ⟨ok, r⟩ := res
      have hr : ∃ d', RingAt cfg M S d' r := by
        rcases skbRecyclerConsume_cases hres with ⟨-, rfl⟩ | ⟨-, taken, -, hrec⟩
        · exact ⟨d, h⟩
        · rw [hseen, h.maxSkbs] at hrec
          exact h.recycle hpools hS hrec
      cases ok <;> simp only [hres, some.injEq] at hexec <;> subst hexec <;> exact hr
  | _ => exact absurd hok (by simp [AllocConsume])

/-- With one pool at least, every reachable state keeps the invariant. -/
theorem RingAt.reachable (hpools : 0 < cfg.maxSharedPools) (hS : 0 < S)
    (h : Reachable cfg AllocConsume (SkbRecycler.start ι ω cfg M S) s) :
    ∃ d, RingAt cfg M S d s.recycler :=
  h.invariant (I := fun s => ∃ d, RingAt cfg M S d s.recycler) ⟨0, RingAt.start cfg M S⟩
    fun _ _ _ ⟨_, hd⟩ hok hexec => hd.step hpools hS hok hexec

/-- With one pool at least, no operation indexes the ring outside its array. -/
theorem RingAt.defined (hpools : 0 < cfg.maxSharedPools) {d : Nat} (h : RingAt cfg M S d s.recycler)
    (op : Op ι ω) : exec cfg s op ≠ none := by
  have hslot : ∀ k < cfg.ringSize, ∃ slot, s.recycler.glob.pool[k]? = some slot := by
    intro k hk
    have hlen := h.length
    have hle := ringSize_le hpools
    exact ⟨_, getElem?_eq_getElem (by omega)⟩
  obtain ⟨slot, hhead⟩ := hslot _ h.head_lt
  obtain ⟨p, htail⟩ := hslot _ h.tail_lt
  exact exec_defined hhead htail op

/-! ## No pools -/

/-- `n` buffers are in the hot list of `cpu` and `m` in its spare list; the ring has no
    slot and has not been used. -/
structure Filled (cfg : Config) (M S : Nat) (cpu : ι) (n m : Nat) (s : System ι ω) :
    Prop where
  reachable : Reachable cfg AllocConsume (SkbRecycler.start ι ω cfg M S) s
  maxSkbs : s.recycler.maxSkbs = fun _ => M
  maxSpareSkbs : s.recycler.maxSpareSkbs = fun _ => S
  glob : s.recycler.glob = { pool := [], head := 0, tail := 0 }
  hot : (s.recycler.recycleList cpu).length = n
  spare : (s.recycler.recycleSpareList cpu).length = m
  fresh : ∀ k : Nat, k ∈ s.allocated → k < n + m

namespace Filled

variable {cpu : ι} {n m : Nat} {s : System ι ω}

theorem start (hcfg : cfg.prealloc = some 0) (M S : Nat) (cpu : ι) :
    Filled cfg M S cpu 0 0 (SkbRecycler.start ι ω cfg M S) where
  reachable := .start
  maxSkbs := rfl
  maxSpareSkbs := rfl
  glob := by simp [SkbRecycler.start, initial, skbRecyclerInit, maxSharedPools_zero hcfg]
  hot := rfl
  spare := rfl
  fresh := by simp [SkbRecycler.start, initial]

def adopted (s : System ι ω) (o : ω) (skb : Skb) : System ι ω :=
  { (s.setHeld (.caller o) (skb :: s.held (.caller o))) with
    allocated := insert skb s.allocated }

/-- The buffer a caller gets next. -/
theorem adopt (h : Filled cfg M S cpu n m s) (o : ω) :
    Reachable cfg AllocConsume (SkbRecycler.start ι ω cfg M S) (adopted s o (n + m)) := by
  have hfresh : AllocConsume s (.adopt o (n + m)) :=
    fun hmem => absurd (h.fresh _ hmem) (lt_irrefl _)
  exact h.reachable.step hfresh rfl

theorem allowed (h : Filled cfg M S cpu n m s) (o : ω) :
    AllocConsume (adopted s o (n + m)) (.consume ⟨true, M⟩ true cpu o (n + m)) := by
  refine ⟨?_, cpu, ?_⟩
  · simp [Legal, adopted, System.setHeld]
  · simp [adopted, System.setHeld, h.maxSkbs]

/-- The buffer is consumed. -/
theorem consume (o : ω) {skb : Skb} {taken : Taken} {r : Recycler ι}
    (hrec : recycle cfg M cpu [skb] s.recycler = some (taken, r)) (htaken : taken ≠ .refused) :
    exec cfg (adopted s o skb) (.consume ⟨true, M⟩ true cpu o skb) =
      some (((adopted s o skb).setRecycler r).setHeld (.caller o)
        (((adopted s o skb).held (.caller o)).erase skb)) := by
  have hres : skbRecyclerConsume cfg ⟨true, M⟩ true cpu skb
      (adopted s o skb).recycler = some (true, r) := by
    simp [skbRecyclerConsume, adopted, System.setHeld, hrec, htaken]
  simp only [exec, hres]

theorem fillHot [Nonempty ω] (h : Filled cfg M S cpu n m s) (hn : n < M) :
    ∃ s' : System ι ω, Filled cfg M S cpu (n + 1) m s' := by
  obtain ⟨o⟩ := ‹Nonempty ω›
  have hrec : recycle cfg M cpu [n + m] s.recycler =
      some (.hot, s.recycler.setHot cpu ([n + m] ++ s.recycler.recycleList cpu)) := by
    unfold recycle
    rw [if_pos (by rw [h.hot]; exact hn)]
  refine ⟨_, (h.adopt o).step (h.allowed o) (consume o hrec (by simp)), h.maxSkbs,
    h.maxSpareSkbs, h.glob, ?_, h.spare, ?_⟩
  · simp [System.setHeld, System.setRecycler, Recycler.setHot, h.hot]
  · intro k hk
    simp only [System.setHeld, System.setRecycler, adopted, mem_insert] at hk
    rcases hk with rfl | hk
    · omega
    · have hlt := h.fresh k hk
      omega

/-- With the hot list full, the spare list takes the buffer while it has room. -/
theorem fillSpare [Nonempty ω] (h : Filled cfg M S cpu M m s) (hm : m < S) :
    ∃ s' : System ι ω, Filled cfg M S cpu M (m + 1) s' := by
  obtain ⟨o⟩ := ‹Nonempty ω›
  have hrec : recycle cfg M cpu [M + m] s.recycler =
      some (.spare, s.recycler.setSpare cpu ([M + m] ++ s.recycler.recycleSpareList cpu)) := by
    unfold recycle
    rw [if_neg (by rw [h.hot]; exact lt_irrefl M),
      if_neg (by simp only [h.spare, h.maxSpareSkbs]; omega)]
  refine ⟨_, (h.adopt o).step (h.allowed o) (consume o hrec (by simp)), h.maxSkbs,
    h.maxSpareSkbs, h.glob, h.hot, ?_, ?_⟩
  · simp [System.setHeld, System.setRecycler, Recycler.setSpare, h.spare]
  · intro k hk
    simp only [System.setHeld, System.setRecycler, adopted, mem_insert] at hk
    rcases hk with rfl | hk
    · omega
    · have hlt := h.fresh k hk
      omega

/-- Both lists can be filled. -/
theorem exists_full [Nonempty ω] (hcfg : cfg.prealloc = some 0) (M S : Nat) (cpu : ι) :
    ∃ s : System ι ω, Filled cfg M S cpu M S s := by
  have hhot : ∀ n ≤ M, ∃ s : System ι ω, Filled cfg M S cpu n 0 s := by
    intro n
    induction n with
    | zero => exact fun _ => ⟨_, start hcfg M S cpu⟩
    | succ n ih =>
      intro hn
      obtain ⟨s, hs⟩ := ih (by omega)
      exact hs.fillHot (by omega)
  have hspare : ∀ m ≤ S, ∃ s : System ι ω, Filled cfg M S cpu M m s := by
    intro m
    induction m with
    | zero => exact fun _ => hhot M le_rfl
    | succ m ih =>
      intro hm
      obtain ⟨s, hs⟩ := ih (by omega)
      exact hs.fillSpare (by omega)
  exact hspare S le_rfl

/-- The next buffer sends the spare list to a slot that does not exist. -/
theorem transfer_undefined (hcfg : cfg.prealloc = some 0) (h : Filled cfg M S cpu M S s)
    (o : ω) :
    exec cfg (adopted s o (M + S)) (.consume ⟨true, M⟩ true cpu o (M + S)) = none := by
  have hnext : cfg.nextSlot 0 = 1 := by
    rw [Config.nextSlot, Config.sharedPoolsMask, maxSharedPools_zero hcfg]
    decide
  have hrec : recycle cfg M cpu [M + S] s.recycler = none := by
    unfold recycle
    rw [if_neg (by rw [h.hot]; exact lt_irrefl M),
      if_pos (by rw [h.spare, h.maxSpareSkbs]), h.glob]
    simp [hnext]
  have hres : skbRecyclerConsume cfg ⟨true, M⟩ true cpu (M + S)
      (adopted s o (M + S)).recycler = none := by
    simp [skbRecyclerConsume, adopted, System.setHeld, hrec]
  simp only [exec, hres]

end Filled

/-- For every build option, every number of CPUs and all limits with `0 < S`: in every state
    runs of allocations and consumers lead to, the ring and the lists are as they should
    be and every further call is defined, if and only if the preallocation setting is
    not 0. -/
theorem ring_invariant_iff [Nonempty ι] [Nonempty ω] (cfg : Config) {M S : Nat} (hS : 0 < S) :
    (∀ s : System ι ω, Reachable cfg AllocConsume (start ι ω cfg M S) s →
      RingOk cfg M S s.recycler ∧ ∀ op, AllocConsume s op → exec cfg s op ≠ none) ↔
    cfg.prealloc ≠ some 0 := by
  constructor
  · intro hall hcfg
    obtain ⟨cpu⟩ := ‹Nonempty ι›
    have o : ω := Classical.choice ‹_›
    obtain ⟨s, hs⟩ := Filled.exists_full (ω := ω) hcfg M S cpu
    exact (hall _ (hs.adopt o)).2 _ (hs.allowed o) (hs.transfer_undefined hcfg o)
  · intro hcfg s hs
    have hpools := maxSharedPools_pos hcfg
    obtain ⟨d, hd⟩ := RingAt.reachable hpools hS hs
    exact ⟨hd.ringOk hpools, fun op _ => hd.defined hpools op⟩

/-- The build with three pools, of which the mask uses one slot. -/
def threePools : Config := { prealloc := some 768 }

theorem ring_invariant_three_pools :
    (∀ s : System Bool Nat, Reachable threePools AllocConsume (start Bool Nat threePools 1024 256) s →
      RingOk threePools 1024 256 s.recycler ∧
        ∀ op, AllocConsume s op → exec threePools s op ≠ none) ↔
    threePools.prealloc ≠ some 0 :=
  ring_invariant_iff threePools (by decide)

/-- With a preallocation of 0 buffers and limits of 1, the third consumed buffer makes
    the recycler index the first slot of an array of none. -/
theorem ring_invariant_no_pools :
    ¬ ∀ s : System Unit Unit,
      Reachable { prealloc := some 0 } AllocConsume (start Unit Unit { prealloc := some 0 } 1 1) s →
      RingOk { prealloc := some 0 } 1 1 s.recycler ∧
        ∀ op, AllocConsume s op → exec { prealloc := some 0 } s op ≠ none := by
  intro hall
  have hcfg : ({ prealloc := some 0 } : Config).prealloc = some 0 := rfl
  obtain ⟨s, hs⟩ := Filled.exists_full (ω := Unit) hcfg 1 1 ()
  exact (hall _ (hs.adopt ())).2 _ (hs.allowed ()) (hs.transfer_undefined rfl ())

/-! ## What is kept -/

section

variable {ι ω : Type} [Fintype ι] {s : System ι ω}

/-- The buffers of a state with `d` slots occupied. -/
theorem RingAt.card_le {d : Nat} (h : RingAt cfg M S d s.recycler) {kept : Finset Skb}
    (hkept : ∀ skb ∈ kept, ∃ p, skb ∈ s.contents p ∧ ∀ o, p ≠ .outside o) :
    kept.card ≤ Fintype.card ι * (max M S + S) + d * S := by
  let slot (j : Nat) : List Skb := s.contents (.slot ((s.recycler.glob.head + j) % cfg.ringSize))
  have hslot : ∀ j ∈ Finset.range d, (slot j).toFinset.card ≤ S := by
    intro j hj
    refine (toFinset_card_le _).trans ?_
    show (s.recycler.glob.pool[_]?.getD []).length ≤ S
    cases hk : s.recycler.glob.pool[(s.recycler.glob.head + j) % cfg.ringSize]? with
    | none => simp
    | some q => exact (h.full _ q hk ⟨j, Finset.mem_range.mp hj, rfl⟩).le
  have hcpu : ∀ cpu ∈ (univ : Finset ι), (s.recycler.recycleList cpu ++
      s.recycler.recycleSpareList cpu).toFinset.card ≤ max M S + S := by
    intro cpu _
    refine (toFinset_card_le _).trans ?_
    rw [length_append]
    exact Nat.add_le_add (h.hot cpu) (h.spare cpu)
  have hsub : kept ⊆ (univ.biUnion fun cpu => (s.recycler.recycleList cpu ++
      s.recycler.recycleSpareList cpu).toFinset) ∪ (Finset.range d).biUnion (slot · |>.toFinset) := by
    intro skb hskb
    obtain ⟨p, hp, hout⟩ := hkept skb hskb
    rw [Finset.mem_union, Finset.mem_biUnion, Finset.mem_biUnion]
    cases p with
    | hot cpu => exact inl ⟨cpu, by simp, by simpa using inl hp⟩
    | spare cpu => exact inl ⟨cpu, by simp, by simpa using inr hp⟩
    | outside o => exact absurd rfl (hout o)
    | slot k =>
      cases hk : s.recycler.glob.pool[k]? with
      | none => simp [System.contents, hk] at hp
      | some q =>
        -- the slot is not empty, so it is one of those from head to tail
        by_contra hno
        have hnil := h.empty k q hk (by
          rintro ⟨j, hj, rfl⟩
          exact hno (inr ⟨j, by simpa using hj, List.mem_toFinset.mpr hp⟩))
        simp [System.contents, hk, hnil] at hp
  refine (Finset.card_le_card hsub).trans ((Finset.card_union_le _ _).trans ?_)
  exact Nat.add_le_add (Finset.card_biUnion_le_card_mul _ _ _ hcpu)
    ((Finset.card_biUnion_le_card_mul _ _ _ hslot).trans (by rw [Finset.card_range]))

variable [DecidableEq ι] [DecidableEq ω]

/-- **What the recycler keeps is bounded**: with one pool at least and limits `M` and `S`, in every
    state of every interleaving of allocations and consumers, the buffers that are allocated and
    held by nobody outside are at most `max M S + S` for each CPU and `S` for each slot that the
    mask uses, but one. -/
theorem retained_le (hcfg : cfg.prealloc ≠ some 0) (hS : 0 < S)
    (h : Reachable cfg AllocConsume (start ι ω cfg M S) s) {kept : Finset Skb}
    (hkept : ∀ skb ∈ kept, skb ∈ s.allocated ∧ ∀ o, skb ∉ s.held o) :
    kept.card ≤ Fintype.card ι * (max M S + S) + (cfg.ringSize - 1) * S := by
  obtain ⟨d, hd⟩ := RingAt.reachable (maxSharedPools_pos hcfg) hS h
  have hinv : Accounted s := by
    refine h.invariant (I := Accounted) (Custody.empty fun p => ?_) fun s s' op hs hok hexec =>
      hs.step ?_ hexec
    · cases p with
      | slot k =>
        simp only [System.contents, start, initial, skbRecyclerInit, getElem?_replicate]
        split <;> rfl
      | _ => rfl
    · cases op with
      | consume => exact hok.1
      | _ => first | exact hok | exact hok.elim
  refine (hd.card_le fun skb hskb => ?_).trans
    (Nat.add_le_add_left (Nat.mul_le_mul_right S (Nat.le_sub_one_of_lt hd.occupied_lt)) _)
  obtain ⟨p, hp⟩ := (Custody.mem_iff hinv skb).mp (hkept skb hskb).1
  refine ⟨p, hp, fun o ho => (hkept skb hskb).2 o ?_⟩
  subst ho
  exact hp

end

theorem retained_le_two_cpus : ∃ s : System Bool Unit,
    s.contents (.hot true) = [10] ∧
    ({10} : Finset Skb).card ≤ 2 * (max 1024 256 + 256) + (threePools.ringSize - 1) * 256 := by
  obtain ⟨s, hreach, hhot, hkept⟩ : ∃ s,
      Reachable threePools AllocConsume (start Bool Unit threePools 1024 256) s ∧
        s.contents (.hot true) = [10] ∧ 10 ∈ s.allocated ∧ ∀ o, 10 ∉ s.held o := by
    set s₀ := start Bool Unit threePools 1024 256
    have hfresh : AllocConsume s₀ (.adopt () 10) := Finset.notMem_empty _
    have hallowed : AllocConsume (Filled.adopted s₀ () 10) (.consume ⟨true, 1024⟩ true true () 10) :=
      ⟨by decide, true, rfl⟩
    have hadopt : Reachable threePools AllocConsume s₀ (Filled.adopted s₀ () 10) :=
      Reachable.start.step hfresh rfl
    have hconsume := hadopt.step hallowed rfl
    refine ⟨_, hconsume, rfl, Finset.mem_insert_self _ _, ?_⟩
    rintro (_ | _) <;> exact List.not_mem_nil
  exact ⟨s, hhot, retained_le (by decide) (by decide) hreach (by simpa using hkept)⟩

end LibWrt.SkbRecycler
