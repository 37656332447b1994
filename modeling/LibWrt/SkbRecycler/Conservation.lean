/-
LibWrt.SkbRecycler.Conservation — no buffer is lost or in two places.

Every operation moves whole lists between two or three places, frees what it
takes out, or adds a buffer that was free. Each is an instance of one of the
rules of `Custody`, applied to `System.contents`; the run lemma is then
`Reachable.invariant`.
-/
import LibWrt.SkbRecycler.System
import LibWrt.Lib.Custody

namespace LibWrt.SkbRecycler

open List Function Option

variable {ι ω : Type}

/-- Every allocated buffer is in exactly one place. -/
def Accounted (s : System ι ω) : Prop := Custody s.contents s.allocated

namespace System

@[simp] theorem setRecycler_self (s : System ι ω) : s.setRecycler s.recycler = s := rfl

@[simp] theorem setRecycler_held (s : System ι ω) (r : Recycler ι) :
    (s.setRecycler r).held = s.held := rfl

@[simp] theorem setRecycler_allocated (s : System ι ω) (r : Recycler ι) :
    (s.setRecycler r).allocated = s.allocated := rfl

@[simp] theorem contents_hot (s : System ι ω) (cpu : ι) :
    s.contents (.hot cpu) = s.recycler.recycleList cpu := rfl

@[simp] theorem contents_spare (s : System ι ω) (cpu : ι) :
    s.contents (.spare cpu) = s.recycler.recycleSpareList cpu := rfl

@[simp] theorem contents_outside (s : System ι ω) (o : Owner ι ω) :
    s.contents (.outside o) = s.held o := rfl

variable {p : List Skb} {r : Recycler ι}

theorem contents_slot (s : System ι ω) {k : Nat} (hk : s.recycler.glob.pool[k]? = some p) :
    s.contents (.slot k) = p := by
  simp [contents, hk]

@[simp] theorem contents_free (s : System ι ω) (q : List Skb) : (s.free q).contents = s.contents := by
  funext p
  cases p <;> rfl

/-- The pool after a flush. -/
theorem contents_flushed (s : System ι ω) (h t : Nat) :
    (s.setRecycler { s.recycler with
      glob := ⟨s.recycler.glob.pool.map fun _ => [], h, t⟩ }).contents =
      fun p => match p with
        | .slot _ => []
        | p => s.contents p := by
  funext p
  cases p with
  | slot k =>
    simp only [contents, setRecycler, getElem?_map]
    cases s.recycler.glob.pool[k]? <;> rfl
  | _ => rfl

/-- Every slot's list is in the pool, and every list of the pool is a slot's. -/
theorem flatten_eq_flatMap_slots (s : System ι ω) :
    s.recycler.glob.pool.flatten =
      ((List.range s.recycler.glob.pool.length).map Place.slot).flatMap s.contents := by
  rw [flatMap_map, flatMap_def]
  congr 1
  apply ext_getElem (by simp)
  intro k h₁ h₂
  simp [contents, h₁]

variable [DecidableEq ι] [DecidableEq ω]

/-! ## What an update of one list does to the contents -/

@[simp] theorem setHeld_allocated (s : System ι ω) (o : Owner ι ω) (q : List Skb) :
    (s.setHeld o q).allocated = s.allocated := rfl

@[simp] theorem contents_setHot (s : System ι ω) (r : Recycler ι) (cpu : ι) (q : List Skb) :
    (s.setRecycler (r.setHot cpu q)).contents =
      update (s.setRecycler r).contents (.hot cpu) q := by
  funext p
  cases p with
  | hot cpu' =>
    by_cases h : cpu' = cpu
    · subst h; simp [contents, setRecycler, Recycler.setHot]
    · simp [contents, setRecycler, Recycler.setHot, h]
  | spare cpu' => simp [contents, setRecycler, Recycler.setHot]
  | slot k => simp [contents, setRecycler, Recycler.setHot]
  | outside o => simp [contents, setRecycler]

@[simp] theorem contents_setSpare (s : System ι ω) (r : Recycler ι) (cpu : ι) (q : List Skb) :
    (s.setRecycler (r.setSpare cpu q)).contents =
      update (s.setRecycler r).contents (.spare cpu) q := by
  funext p
  cases p with
  | hot cpu' => simp [contents, setRecycler, Recycler.setSpare]
  | spare cpu' =>
    by_cases h : cpu' = cpu
    · subst h; simp [contents, setRecycler, Recycler.setSpare]
    · simp [contents, setRecycler, Recycler.setSpare, h]
  | slot k => simp [contents, setRecycler, Recycler.setSpare]
  | outside o => simp [contents, setRecycler]

@[simp] theorem contents_setHeld (s : System ι ω) (o : Owner ι ω) (q : List Skb) :
    (s.setHeld o q).contents = update s.contents (.outside o) q := by
  funext p
  cases p with
  | outside o' =>
    by_cases h : o' = o
    · subst h; simp [contents, setHeld]
    · simp [contents, setHeld, h]
  | _ => simp [contents, setHeld]

theorem contents_setSlot (s : System ι ω) {r' : Recycler ι} {k : Nat} {q : List Skb}
    (hk : r.glob.pool[k]? = some p) (hhot : r'.recycleList = r.recycleList)
    (hspare : r'.recycleSpareList = r.recycleSpareList) (hpool : r'.glob.pool = r.glob.pool.set k q) :
    (s.setRecycler r').contents = update (s.setRecycler r).contents (.slot k) q := by
  obtain ⟨hlt, -⟩ := List.getElem?_eq_some_iff.mp hk
  funext pl
  cases pl with
  | hot cpu => simp [contents, setRecycler, hhot]
  | spare cpu => simp [contents, setRecycler, hspare]
  | slot j =>
    by_cases h : j = k
    · subst h; simp [contents, setRecycler, hpool, hlt]
    · have h' : k ≠ j := fun e => h e.symm
      simp [contents, setRecycler, hpool, h, h']
  | outside o => simp [contents, setRecycler]

theorem contents_takeSlot (s : System ι ω) (cfg : Config) (hk : r.glob.pool[r.glob.head]? = some p) :
    (s.setRecycler (r.takeSlot cfg)).contents =
      update (s.setRecycler r).contents (.slot r.glob.head) [] :=
  contents_setSlot s hk rfl rfl rfl

theorem contents_fillSlot (s : System ι ω) (cfg : Config) (hk : r.glob.pool[r.glob.tail]? = some p)
    (q : List Skb) :
    (s.setRecycler (r.fillSlot cfg q)).contents =
      update (s.setRecycler r).contents (.slot r.glob.tail) q :=
  contents_setSlot s hk rfl rfl rfl

end System

open LibWrt.SkbRecycler.System

variable [DecidableEq ι] [DecidableEq ω]

/-! ## One operation -/

variable {s s' : System ι ω} {cfg : Config}

/-- Freeing all a place holds. -/
theorem Accounted.freed (h : Accounted s) {p : Place ι ω}
    (hcontents : s'.contents = update s.contents p [])
    (halloc : s'.allocated = s.allocated \ (s.contents p).toFinset) : Accounted s' := by
  unfold Accounted
  rw [hcontents]
  exact h.leave (s.contents p) (by simp) (by simp [halloc])

/-- An allocation moves one buffer from the hot list, or from the slot at the head
    with the rest of the slot becoming the hot list, to the caller. -/
theorem Accounted.alloc {enable : Bool} {cpu : ι} {length : Nat} {o : ω} (h : Accounted s)
    (hexec : exec cfg s (.alloc enable cpu length o) = some s') : Accounted s' := by
  simp only [exec] at hexec
  cases hres : skbRecyclerAlloc cfg enable cpu length s.recycler with
  | none => simp [hres] at hexec
  | some res =>
    obtain ⟨skb, r⟩ := res
    rcases skbRecyclerAlloc_cases hres with ⟨rfl, rfl⟩ | ⟨x, rest, hhot, rfl, rfl⟩ |
      ⟨slot, hhot, -, hslot, rfl, rfl⟩
    · simp only [hres, setRecycler_self, some.injEq] at hexec
      exact hexec ▸ h
    · simp only [hres, some.injEq] at hexec
      subst hexec
      unfold Accounted
      simp only [contents_setHeld, contents_setHot, setRecycler_self]
      refine h.shift (by simp) ?_
      simp [hhot]
    · cases slot with
      | nil =>
        simp only [hres, head?_nil, tail_nil, some.injEq] at hexec
        subst hexec
        unfold Accounted
        simp only [contents_setHot, contents_takeSlot s cfg hslot, setRecycler_self]
        refine h.shift (by simp) ?_
        simp [hhot, contents_slot s hslot]
      | cons x rest =>
        simp only [hres, head?_cons, tail_cons, some.injEq] at hexec
        subst hexec
        unfold Accounted
        simp only [contents_setHeld, contents_setHot, contents_takeSlot s cfg hslot,
          setRecycler_self]
        refine h.move [.slot s.recycler.glob.head, .hot cpu, .outside (.caller o)]
          (by simp) ?_ ?_
        · intro p hp
          simp only [mem_cons, not_mem_nil, or_false, not_or] at hp
          rw [update_of_ne hp.2.2, update_of_ne hp.2.1,
            update_of_ne hp.1]
        · simp [hhot, contents_slot s hslot]

/-- What a consumer takes moves from its caller to one list; a full spare list may
    move to the ring on the way. -/
theorem Accounted.recycle {maxSkbs : Nat} {cpu : ι} {o : ω} {skbs left : List Skb} {taken : Taken}
    {r : Recycler ι} (h : Accounted s) (hheld : (skbs ++ left).Perm (s.held (.caller o)))
    (htaken : taken ≠ .refused) (hrec : recycle cfg maxSkbs cpu skbs s.recycler = some (taken, r)) :
    Accounted ((s.setRecycler r).setHeld (.caller o) left) := by
  -- a list in front of which `skbs` is put, while `left` is what the caller keeps
  have hput : ∀ q : List Skb, (skbs ++ q ++ left).Perm (q ++ s.held (.caller o)) := by
    intro q
    calc (skbs ++ q ++ left).Perm (q ++ skbs ++ left) := perm_append_comm.append_right _
      List.Perm _ (q ++ s.held (.caller o)) := by
        rw [append_assoc]
        exact hheld.append_left q
  unfold Accounted
  rcases recycle_cases hrec with ⟨href, -⟩ | ⟨-, -, rfl⟩ | ⟨-, -, rfl⟩ | ⟨p, -, -, -, hp, rfl⟩
  · exact absurd href htaken
  · simp only [contents_setHeld, contents_setHot, setRecycler_self]
    exact h.shift (by simp) (hput _)
  · simp only [contents_setHeld, contents_setSpare, setRecycler_self]
    exact h.shift (by simp) (hput _)
  · simp only [contents_setHeld, contents_setSpare, contents_fillSlot s cfg hp,
      setRecycler_self]
    refine h.move [.slot s.recycler.glob.tail, .spare cpu, .outside (.caller o)]
      (by simp) ?_ ?_
    · intro pl hpl
      simp only [mem_cons, not_mem_nil, or_false, not_or] at hpl
      rw [update_of_ne hpl.2.2, update_of_ne hpl.2.1,
        update_of_ne hpl.1]
    · simp only [flatMap_cons, flatMap_nil, append_nil, ne_eq, reduceCtorEq,
        not_false_eq_true, update_of_ne, update_self, contents_spare,
        contents_outside, contents_slot s hp]
      calc (s.recycler.recycleSpareList cpu ++ p ++ (skbs ++ left)).Perm
            (p ++ s.recycler.recycleSpareList cpu ++ (skbs ++ left)) :=
            perm_append_comm.append_right _
        List.Perm _ (p ++ (s.recycler.recycleSpareList cpu ++ s.held (.caller o))) := by
            rw [append_assoc]
            exact (hheld.append_left _).append_left p

theorem Accounted.flushGlobal (h : Accounted s) (hexec : exec cfg s .flushGlobal = some s') :
    Accounted s' := by
  simp only [exec, some.injEq] at hexec
  subst hexec
  unfold Accounted
  rw [contents_free, contents_flushed, flatten_eq_flatMap_slots]
  set slots := (List.range s.recycler.glob.pool.length).map (Place.slot (ι := ι) (ω := ω))
  refine h.exchange slots (slots.flatMap s.contents) [] ?_ ?_ ?_
    nodup_nil (by simp) ?_
  · refine List.Nodup.map ?_ nodup_range
    intro a b hab
    exact Place.slot.inj hab
  · intro p hp
    cases p with
    | slot k =>
      have hk : s.recycler.glob.pool.length ≤ k := by simpa [slots] using hp
      simp [contents, hk]
    | _ => rfl
  · have hnil : slots.flatMap (fun p : Place ι ω => match p with
        | .slot _ => []
        | p => s.contents p) = [] := by
      simp [slots, flatMap_map]
    rw [hnil, nil_append, append_nil]
  · intro x
    simp [System.free]

/-- Every legal operation keeps every buffer in exactly one place. -/
theorem Accounted.step {op : Op ι ω} (h : Accounted s) (hlegal : Legal s op)
    (hexec : exec cfg s op = some s') : Accounted s' := by
  cases op with
  | adopt o skb =>
    simp only [exec, some.injEq] at hexec
    subst hexec
    have hfresh : skb ∉ s.allocated := hlegal
    have hcontents : (System.mk s.recycler
        (s.setHeld (.caller o) (skb :: s.held (.caller o))).held (insert skb s.allocated)).contents
        = update s.contents (.outside (.caller o)) (skb :: s.held (.caller o)) :=
      (contents_setHeld s (.caller o) _)
    unfold Accounted
    refine Eq.mpr (congrArg (Custody · _) hcontents) ?_
    refine h.enter [skb] ?_ (by simp) (by simpa using hfresh) ?_
    · exact (perm_append_singleton skb _).symm
    · intro x
      simp [or_comm]
  | release o skb =>
    simp only [exec, some.injEq] at hexec
    subst hexec
    have hheld : skb ∈ s.held (.caller o) := hlegal
    unfold Accounted
    rw [contents_free, contents_setHeld]
    refine h.leave [skb] ?_ ?_
    · exact (perm_append_singleton skb _).trans (perm_cons_erase hheld).symm
    · intro x
      simp [System.free]
  | pass o o' skb =>
    simp only [exec, some.injEq] at hexec
    subst hexec
    have hheld : skb ∈ s.held (.caller o) := hlegal
    unfold Accounted
    rw [contents_setHeld, contents_setHeld]
    by_cases ho : o = o'
    · subst ho
      rw [update_idem]
      refine h.leave [] ?_ (by simp)
      simpa [System.setHeld] using (perm_cons_erase hheld).symm
    · refine h.shift (by simp [ho]) ?_
      have hne : Owner.caller (ι := ι) o' ≠ .caller o := by simpa using Ne.symm ho
      simp only [System.setHeld, update_of_ne hne, contents_outside]
      exact perm_middle.trans ((perm_cons_erase hheld).symm.append_right _)
  | alloc enable cpu length o => exact h.alloc hexec
  | consume seen canRecycle cpu o skb =>
    have hheld : skb ∈ s.held (.caller o) := hlegal
    simp only [exec] at hexec
    cases hres : skbRecyclerConsume cfg seen canRecycle cpu skb s.recycler with
    | none => simp [hres] at hexec
    | some res =>
      obtain ⟨ok, r⟩ := res
      rcases skbRecyclerConsume_cases hres with ⟨rfl, rfl⟩ | ⟨rfl, taken, htaken, hrec⟩
      · simp only [hres, setRecycler_self, some.injEq] at hexec
        exact hexec ▸ h
      · simp only [hres, some.injEq] at hexec
        subst hexec
        exact h.recycle (perm_cons_erase hheld).symm htaken hrec
  | consumeListFast seen cpu o skbList =>
    have hheld : skbList.Subperm (s.held (.caller o)) := hlegal
    simp only [exec] at hexec
    cases hres : skbRecyclerConsumeListFast cfg seen cpu skbList s.recycler with
    | none => simp [hres] at hexec
    | some res =>
      obtain ⟨ok, left, r⟩ := res
      rcases skbRecyclerConsumeListFast_cases hres with ⟨rfl, rfl, rfl⟩ |
        ⟨rfl, taken, htaken, hrec⟩
      · simp only [hres, setRecycler_self, some.injEq] at hexec
        exact hexec ▸ h
      · simp only [hres, some.injEq] at hexec
        subst hexec
        refine h.recycle ?_ htaken hrec
        exact subperm_append_diff_self_of_count_le fun x _ => hheld.count_le x
  | cpuDeadHot cpu =>
    simp only [exec, some.injEq] at hexec
    subst hexec
    exact h.freed (p := .hot cpu) (by simp) rfl
  | cpuDeadSpare cpu =>
    simp only [exec, some.injEq] at hexec
    subst hexec
    exact h.freed (p := .spare cpu) (by simp) rfl
  | flushHot cpu =>
    simp only [exec, some.injEq] at hexec
    subst hexec
    unfold Accounted
    rw [contents_setHeld, contents_setHot, setRecycler_self]
    exact h.shift (by simp) (by simp)
  | flushSpare cpu =>
    simp only [exec, some.injEq] at hexec
    subst hexec
    unfold Accounted
    rw [contents_setHeld, contents_setSpare, setRecycler_self]
    exact h.shift (by simp) (by simp)
  | flushFree cpu =>
    simp only [exec, some.injEq] at hexec
    subst hexec
    exact h.freed (p := .outside (.flusher cpu)) (by simp) rfl
  | flushGlobal => exact h.flushGlobal hexec
  | setMaxSkbs cpu max | setMaxSpareSkbs cpu max =>
    simp only [exec, some.injEq] at hexec
    subst hexec
    have hsame : (s.setRecycler _).contents = s.contents := rfl
    exact h

/-! ## The ring's array -/

theorem maxSharedPools_pos (hcfg : cfg.prealloc ≠ some 0) : 0 < cfg.maxSharedPools := by
  unfold Config.maxSharedPools
  split
  · rename_i skbs hskbs
    have hpos : skbs ≠ 0 := fun h0 => hcfg (h0 ▸ hskbs)
    unfold divRoundUp recycleSpareMaxSkbs
    omega
  · norm_num

theorem maxSharedPools_zero (hcfg : cfg.prealloc = some 0) : cfg.maxSharedPools = 0 := by
  simp [Config.maxSharedPools, hcfg, divRoundUp, recycleSpareMaxSkbs]

/-- The ring's counters are slots of it. -/
structure Recycler.Indexed (cfg : Config) (r : Recycler ι) : Prop where
  length : r.glob.pool.length = cfg.maxSharedPools
  head_lt : r.glob.head < cfg.maxSharedPools
  tail_lt : r.glob.tail < cfg.maxSharedPools

theorem nextSlot_lt (hpools : 0 < cfg.maxSharedPools) (i : Nat) :
    cfg.nextSlot i < cfg.maxSharedPools := by
  have hmask : cfg.sharedPoolsMask = (cfg.maxSharedPools - 1) % 2 ^ 32 := by
    have hsum : cfg.maxSharedPools + 2 ^ 32 - 1 = cfg.maxSharedPools - 1 + 2 ^ 32 := by omega
    rw [Config.sharedPoolsMask, hsum, Nat.add_mod_right]
  have hle : cfg.nextSlot i ≤ cfg.maxSharedPools - 1 := calc
    cfg.nextSlot i ≤ (i + 1) &&& cfg.sharedPoolsMask := Nat.mod_le _ _
    _ ≤ cfg.sharedPoolsMask := Nat.and_le_right
    _ ≤ cfg.maxSharedPools - 1 := by
      rw [hmask]
      exact Nat.mod_le _ _
  omega

/-- An operation leaves the ring, takes a slot, fills one, or empties all of them. -/
theorem exec_glob {op : Op ι ω} (hexec : exec cfg s op = some s') :
    s'.recycler.glob = s.recycler.glob ∨
    s'.recycler.glob = (s.recycler.takeSlot cfg).glob ∨
    (∃ q, s'.recycler.glob = (s.recycler.fillSlot cfg q).glob) ∨
    s'.recycler.glob = { pool := s.recycler.glob.pool.map fun _ => [], head := 0, tail := 0 } := by
  have hrecycle : ∀ {maxSkbs cpu skbs taken r}, recycle cfg maxSkbs cpu skbs s.recycler =
      some (taken, r) → r.glob = s.recycler.glob ∨
        ∃ q, r.glob = (s.recycler.fillSlot cfg q).glob := by
    intro maxSkbs cpu skbs taken r hrec
    rcases recycle_cases hrec with ⟨-, rfl⟩ | ⟨-, -, rfl⟩ | ⟨-, -, rfl⟩ | ⟨p, -, -, -, -, rfl⟩
    · exact .inl rfl
    · exact .inl rfl
    · exact .inl rfl
    · exact .inr ⟨_, rfl⟩
  cases op with
  | alloc enable cpu length o =>
    simp only [exec] at hexec
    cases hres : skbRecyclerAlloc cfg enable cpu length s.recycler with
    | none => simp [hres] at hexec
    | some res =>
      obtain ⟨skb, r⟩ := res
      have hglob : s'.recycler.glob = r.glob := by
        cases skb <;> simp only [hres, some.injEq] at hexec <;> exact hexec ▸ rfl
      rw [hglob]
      rcases skbRecyclerAlloc_cases hres with ⟨-, rfl⟩ | ⟨-, -, -, -, rfl⟩ | ⟨-, -, -, -, -, rfl⟩
      · exact .inl rfl
      · exact .inl rfl
      · exact .inr (.inl rfl)
  | consume seen canRecycle cpu o skb =>
    simp only [exec] at hexec
    cases hres : skbRecyclerConsume cfg seen canRecycle cpu skb s.recycler with
    | none => simp [hres] at hexec
    | some res =>
      obtain ⟨ok, r⟩ := res
      have hglob : s'.recycler.glob = r.glob := by
        cases ok <;> simp only [hres, some.injEq] at hexec <;> exact hexec ▸ rfl
      rw [hglob]
      rcases skbRecyclerConsume_cases hres with ⟨-, rfl⟩ | ⟨-, taken, -, hrec⟩
      · exact .inl rfl
      · exact (hrecycle hrec).imp id fun h => .inr (.inl h)
  | consumeListFast seen cpu o skbList =>
    simp only [exec] at hexec
    cases hres : skbRecyclerConsumeListFast cfg seen cpu skbList s.recycler with
    | none => simp [hres] at hexec
    | some res =>
      obtain ⟨ok, left, r⟩ := res
      have hglob : s'.recycler.glob = r.glob := by
        cases ok <;> simp only [hres, some.injEq] at hexec <;> exact hexec ▸ rfl
      rw [hglob]
      rcases skbRecyclerConsumeListFast_cases hres with ⟨-, -, rfl⟩ | ⟨-, taken, -, hrec⟩
      · exact .inl rfl
      · exact (hrecycle hrec).imp id fun h => .inr (.inl h)
  | flushGlobal =>
    simp only [exec, some.injEq] at hexec
    exact .inr (.inr (.inr (hexec ▸ rfl)))
  | _ =>
    simp only [exec, some.injEq] at hexec
    exact .inl (hexec ▸ rfl)

theorem Recycler.Indexed.step (hpools : 0 < cfg.maxSharedPools) {op : Op ι ω}
    (h : s.recycler.Indexed cfg) (hexec : exec cfg s op = some s') : s'.recycler.Indexed cfg := by
  obtain ⟨hlen, hhead, htail⟩ := h
  rcases exec_glob hexec with hglob | hglob | ⟨q, hglob⟩ | hglob <;> constructor <;> rw [hglob]
  · exact hlen
  · exact hhead
  · exact htail
  · simpa [Recycler.takeSlot] using hlen
  · exact nextSlot_lt hpools _
  · exact htail
  · simpa [Recycler.fillSlot] using hlen
  · exact hhead
  · exact nextSlot_lt hpools _
  · simpa using hlen
  · exact hpools
  · exact hpools

/-- No operation indexes the ring outside its array, if the counters are slots. -/
theorem exec_defined {slot p : List Skb}
    (hhead : s.recycler.glob.pool[s.recycler.glob.head]? = some slot)
    (htail : s.recycler.glob.pool[s.recycler.glob.tail]? = some p) (op : Op ι ω) :
    exec cfg s op ≠ none := by
  cases op with
  | alloc enable cpu length o =>
    have hdef : skbRecyclerAlloc cfg enable cpu length s.recycler ≠ none :=
      skbRecyclerAlloc_defined hhead
    simp only [exec]
    cases hres : skbRecyclerAlloc cfg enable cpu length s.recycler with
    | none => exact absurd hres hdef
    | some res =>
      obtain ⟨skb, r⟩ := res
      cases skb <;> simp
  | consume seen canRecycle cpu o skb =>
    have hdef : SkbRecycler.recycle cfg seen.maxSkbs cpu [skb] s.recycler ≠ none :=
      recycle_defined htail
    simp only [exec]
    cases hres : skbRecyclerConsume cfg seen canRecycle cpu skb s.recycler with
    | none =>
      unfold skbRecyclerConsume at hres
      split at hres
      · cases hres
      split at hres
      · cases hres
      · exact absurd (map_eq_none_iff.mp hres) hdef
    | some res =>
      obtain ⟨ok, r⟩ := res
      cases ok <;> simp
  | consumeListFast seen cpu o skbList =>
    have hdef : SkbRecycler.recycle cfg seen.maxSkbs cpu skbList s.recycler ≠ none :=
      recycle_defined htail
    simp only [exec]
    cases hres : skbRecyclerConsumeListFast cfg seen cpu skbList s.recycler with
    | none =>
      unfold skbRecyclerConsumeListFast at hres
      split at hres
      · cases hres
      · exact absurd (map_eq_none_iff.mp hres) hdef
    | some res =>
      obtain ⟨ok, left, r⟩ := res
      cases ok <;> simp
  | _ => simp [exec]

theorem Recycler.Indexed.defined (h : s.recycler.Indexed cfg) (op : Op ι ω) :
    exec cfg s op ≠ none := by
  obtain ⟨hlen, hhead, htail⟩ := h
  rw [← hlen] at hhead htail
  exact exec_defined (getElem?_eq_getElem hhead) (getElem?_eq_getElem htail) op

/-! ## Every run -/

/-- An allocated buffer is in exactly one place, once, and no place holds a buffer that is
    not allocated. -/
def System.Conserved (s : System ι ω) : Prop :=
  (∀ skb ∈ s.allocated, ∃ p, (s.contents p).count skb = 1 ∧
    ∀ p', skb ∈ s.contents p' → p' = p) ∧
  (∀ p, ∀ skb ∈ s.contents p, skb ∈ s.allocated)

theorem Reachable.conserved {maxSkbs maxSpareSkbs : ι → Nat}
    (h : Reachable cfg Legal (initial cfg maxSkbs maxSpareSkbs) s) : s.Conserved := by
  have hinv : Accounted s := by
    refine h.invariant (I := Accounted) ?_ fun s s' op hs => hs.step
    refine Custody.empty ?_
    intro p
    cases p with
    | slot k =>
      simp only [contents, initial, skbRecyclerInit, getElem?_replicate]
      split <;> rfl
    | _ => rfl
  refine ⟨fun skb hskb => Custody.exactly_one hinv hskb, ?_⟩
  intro p skb hp
  exact (Custody.mem_iff hinv skb).mpr ⟨p, hp⟩

/-- For every build option, every number of CPUs and all limits: in every state any interleaving
    of legal operations leads to, each buffer is in one place and every further operation is
    defined, if and only if the preallocation setting is not 0. -/
theorem skb_conservation [Nonempty ι] [Nonempty ω] (cfg : Config) (maxSkbs maxSpareSkbs : ι → Nat) :
    (∀ s : System ι ω, Reachable cfg Legal (initial cfg maxSkbs maxSpareSkbs) s →
      s.Conserved ∧ ∀ op, Legal s op → exec cfg s op ≠ none) ↔ cfg.prealloc ≠ some 0 := by
  constructor
  · intro hall hcfg
    obtain ⟨cpu⟩ := ‹Nonempty ι›
    have o : ω := Classical.choice ‹_›
    -- with limits of 0 the first buffer sends the empty spare list to the ring
    let s : System ι ω := (initial cfg maxSkbs maxSpareSkbs).setRecycler
      ((initial (ω := ω) cfg maxSkbs maxSpareSkbs).recycler.setMaxSpareSkbs cpu 0)
    have hs : Reachable cfg Legal (initial cfg maxSkbs maxSpareSkbs) s :=
      .step .start (show Legal _ (.setMaxSpareSkbs cpu 0) from trivial) rfl
    have hadopt := hs.step (show Legal s (.adopt o 0) from Finset.notMem_empty _) rfl
    refine (hall _ hadopt).2 (.consume ⟨true, 0⟩ true cpu o 0) ?_ ?_
    · simp [Legal, System.setHeld]
    · have hnext : cfg.nextSlot 0 = 1 := by
        rw [Config.nextSlot, Config.sharedPoolsMask, maxSharedPools_zero hcfg]
        decide
      simp [exec, skbRecyclerConsume, SkbRecycler.recycle, System.setHeld, s, System.setRecycler,
        Recycler.setMaxSpareSkbs, initial, skbRecyclerInit, maxSharedPools_zero hcfg, hnext]
  · intro hcfg s hs
    have hpools := maxSharedPools_pos hcfg
    have hindexed : s.recycler.Indexed cfg := by
      refine hs.invariant (I := fun s => s.recycler.Indexed cfg) ⟨?_, hpools, hpools⟩
        fun s s' op h _ => h.step hpools
      exact length_replicate
    exact ⟨hs.conserved, fun op _ => hindexed.defined op⟩

/-- With limits of one buffer a list, a third consumed buffer sends the second to the
    ring, where another CPU finds it. -/
theorem skb_conservation_two_cpus : ∃ s : System Bool Nat,
    s.contents (.hot true) = [10] ∧ s.contents (.spare true) = [12] ∧
    s.contents (.outside (.caller 1)) = [11] ∧ s.Conserved ∧
    ∀ op, Legal s op → exec {} s op ≠ none := by
  have hrun : run {} Legal (initial {} (fun _ : Bool => 1) fun _ => 1)
      [.adopt (0 : Nat) 10, .adopt 0 11, .adopt 0 12, .consume ⟨true, 1⟩ true true 0 10,
        .consume ⟨true, 1⟩ true true 0 11, .consume ⟨true, 1⟩ true true 0 12,
        .alloc true false 60 1] = some _ := rfl
  exact ⟨_, rfl, rfl, rfl, (skb_conservation {} _ _).mpr (by decide) _
    (Reachable.start.of_run hrun)⟩

/-- With no pools and limits of 1, the third consumed buffer sends the second to a slot that
    does not exist. -/
theorem skb_conservation_no_pools :
    ¬ ∀ s : System Unit Nat, Reachable { prealloc := some 0 } Legal
        (initial { prealloc := some 0 } (fun _ => 1) fun _ => 1) s →
      s.Conserved ∧ ∀ op, Legal s op → exec { prealloc := some 0 } s op ≠ none := by
  intro hall
  have hrun : run { prealloc := some 0 } Legal
      (initial { prealloc := some 0 } (fun _ : Unit => 1) fun _ => 1)
      [.adopt (0 : Nat) 10, .adopt 0 11, .adopt 0 12, .consume ⟨true, 1⟩ true () 0 10,
        .consume ⟨true, 1⟩ true () 0 11] = some _ := rfl
  exact (hall _ (Reachable.start.of_run hrun)).2 (.consume ⟨true, 1⟩ true () 0 12) (by decide) rfl

end LibWrt.SkbRecycler
