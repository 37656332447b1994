/-
LibWrt.Rtl83xx.Mst — the spanning tree slots of the switch.

A VLAN belongs to an MSTI, and the switch has a few slots that stand for
MSTIs; a slot keeps a state for each port. The driver counts the VLANs on a
slot and shares it between the VLANs of one MSTI. Slot 0 is the CIST, which
is always there and not counted, so entry `i` of `msts` is slot `i + 1`.

`State.slots` sees the entries as the counted slots of `Lib.Refs`. Getting
and putting a slot are the operations of the library (`slots_get`,
`slots_occupy`, `slots_mstPutSlot`), and `mstReplace_cases` is what moving a
VLAN to another MSTI can do: fail and change nothing, move it, or hand the
VLAN's own slot over to the other MSTI (`Recycles`).
-/
import LibWrt.Lib.Packed
import LibWrt.Lib.Refs
import LibWrt.Rtl83xx.VlanTable

namespace LibWrt.Rtl83xx

open Function (update update_eq_self update_eq_self_iff update_of_ne)
open List

namespace Family

/-- `port_width << 1`, the words of a row of port states -/
def stpWords : Family → Nat
  | rtl838x | rtl930x => 2
  | rtl839x | rtl931x => 4

/-- `pos`, where the state of a port stands in its row -/
def stpPos (f : Family) (port : Nat) : Nat :=
  match f with
  | rtl838x => port
  | rtl839x => port + 12
  | rtl930x => port + 3
  | rtl931x => port + 8

theorem stpPos_lt {f : Family} {port : Nat} (h : port < f.cpuPort) :
    f.stpPos port / 16 < f.stpWords := by
  cases f <;> simp only [cpuPort] at h <;> simp only [stpPos, stpWords] <;> omega

theorem stpPos_inj {f : Family} {p q : Nat} : f.stpPos p = f.stpPos q ↔ p = q := by
  cases f <;> simp [stpPos]

end Family

namespace Mst

inductive Errno where
  | einval
  | enoent
  | enospc
  | enotsupp
  deriving DecidableEq

/-- `BR_STATE_*` -/
inductive BrState where
  | disabled
  | listening
  | learning
  | forwarding
  | blocking
  deriving DecidableEq

def BrState.code : BrState → BitVec 32
  | disabled => 0
  | blocking | listening => 1
  | learning => 2
  | forwarding => 3

theorem BrState.code_and_three (b : BrState) : b.code &&& 3 = b.code := by cases b <;> decide

/-- `struct dsa_port`, what the slots need of it. -/
structure DsaPort where
  bridge : Bool
  stpState : BrState

/-- The state a port starts in, in a slot that comes to stand for an MSTI. -/
def DsaPort.initial (dp : DsaPort) : BrState := if dp.bridge then .disabled else dp.stpState

/-- `struct rtldsa_mst` -/
structure Entry where
  msti : Nat
  refcount : Nat
  deriving DecidableEq

/-- `msts`, and the rows of port states. -/
structure State where
  msts : Nat → Entry
  stp : Nat → List (BitVec 32)

variable (cfg : Isolation.Config) (dp : Nat → DsaPort)

/-- `rtldsa_port_xstp_state_set`; the words of `port_state` stand in the opposite order. -/
def portXstpStateSet (s : State) (port : Nat) (state : BrState) (mstSlot : Nat) : State :=
  if cfg.family.cpuPort ≤ port then s
  else
    let portState := Packed.set (s.stp mstSlot).reverse (cfg.family.stpPos port) state.code
    { s with stp := update s.stp mstSlot portState.reverse }

/-- `rtldsa_mst_init` -/
def mstInit (s : State) (mstSlot : Nat) : State :=
  cfg.user.foldl (fun s port => portXstpStateSet cfg s port (dp port).initial mstSlot) s

/-- `rtldsa_mst_find` -/
def mstFind (f : Family) (s : State) (msti : Nat) : Except Errno Nat :=
  if msti = 0 then .ok 0
  else if 4095 < msti then .error .einval
  else
    match (range (f.nMst - 1)).find? fun i => (s.msts i).msti = msti with
    | some i => .ok (i + 1)
    | none => .error .enoent

/-- `rtldsa_mst_get` -/
def mstGet (s : State) (msti : Nat) : Except Errno Nat × State :=
  match mstFind cfg.family s msti with
  | .ok 0 => (.ok 0, s)
  | .ok (i + 1) =>
    let entry := { s.msts i with refcount := (s.msts i).refcount + 1 }
    (.ok (i + 1), { s with msts := update s.msts i entry })
  | .error .enoent =>
    match (range (cfg.family.nMst - 1)).find? fun i => (s.msts i).msti = 0 with
    | some i =>
      let s := { s with msts := update s.msts i { msti := msti, refcount := 1 } }
      (.ok (i + 1), mstInit cfg dp s (i + 1))
    | none => (.error .enospc, s)
  | .error e => (.error e, s)

/-- `rtldsa_mst_recycle_slot` -/
def mstRecycleSlot (f : Family) (s : State) (msti oldMstSlot : Nat) : Except Errno Nat × State :=
  if msti = 0 then (.ok 0, s)
  else if oldMstSlot = 0 then (.error .enospc, s)
  else if 4095 < msti then (.error .einval, s)
  else if f.nMst ≤ oldMstSlot then (.error .einval, s)
  else
    let index := oldMstSlot - 1
    if (s.msts index).msti = 0 then (.error .einval, s)
    else if (s.msts index).refcount ≠ 1 then (.error .enospc, s)
    else
      (.ok oldMstSlot,
        { s with msts := update s.msts index { s.msts index with msti := msti } })

/-- `rtldsa_mst_put_slot`; nobody looks at its result -/
def mstPutSlot (f : Family) (s : State) (mstSlot : Nat) : State :=
  if mstSlot = 0 then s
  else if f.nMst ≤ mstSlot then s
  else
    let index := mstSlot - 1
    if (s.msts index).msti = 0 then s
    else
      let refcount := (s.msts index).refcount - 1
      -- `rtldsa_mst_release_slot`, when the last reference is put
      let msti := if refcount = 0 then 0 else (s.msts index).msti
      { s with msts := update s.msts index { msti := msti, refcount := refcount } }

/-- `rtldsa_mst_replace` -/
def mstReplace (s : State) (msti oldMstSlot : Nat) : Except Errno Nat × State :=
  match mstGet cfg dp s msti with
  | (.error .enospc, s) => mstRecycleSlot cfg.family s msti oldMstSlot
  | (.error e, s) => (.error e, s)
  | (.ok mstSlotNew, s) => (.ok mstSlotNew, mstPutSlot cfg.family s oldMstSlot)

/-! ## The rows of port states -/

def State.portState (f : Family) (s : State) (mstSlot port : Nat) : BitVec 32 :=
  Packed.get (s.stp mstSlot).reverse (f.stpPos port)

/-- Every row has its words. -/
def Rows (f : Family) (s : State) : Prop := ∀ mstSlot, (s.stp mstSlot).length = f.stpWords

/-- The user ports are in the states that they start in. -/
def Ready (s : State) (mstSlot : Nat) : Prop :=
  ∀ port ∈ cfg.user, s.portState cfg.family mstSlot port = (dp port).initial.code

variable {cfg dp}

@[simp] theorem portXstpStateSet_msts (s : State) (port : Nat) (state : BrState)
    (mstSlot : Nat) : (portXstpStateSet cfg s port state mstSlot).msts = s.msts := by
  unfold portXstpStateSet
  split <;> rfl

variable {s s' : State} {f : Family} {i : Fin (f.nMst - 1)} {n msti old : Nat}

theorem Rows.portXstpStateSet (h : Rows cfg.family s) (port : Nat) (state : BrState) (mstSlot : Nat) :
    Rows cfg.family (portXstpStateSet cfg s port state mstSlot) := by
  intro slot
  unfold Mst.portXstpStateSet
  split
  · exact h slot
  · by_cases hslot : slot = mstSlot
    · subst hslot
      simpa using h slot
    · simpa [hslot] using h slot

theorem portState_portXstpStateSet_self (h : Rows cfg.family s) {port : Nat}
    (hport : port < cfg.family.cpuPort) (state : BrState) (mstSlot : Nat) :
    (portXstpStateSet cfg s port state mstSlot).portState cfg.family mstSlot port = state.code := by
  have hword : cfg.family.stpPos port / (32 / 2) < (s.stp mstSlot).reverse.length := by
    rw [length_reverse, h]
    exact Family.stpPos_lt hport
  have hself := Packed.get_set_self (by decide) (s.stp mstSlot).reverse state.code hword
  rw [state.code_and_three] at hself
  simpa [portXstpStateSet, State.portState, Nat.not_le.mpr hport] using hself

theorem portState_portXstpStateSet_of_ne (s : State) {port other : Nat} (hne : other ≠ port)
    (state : BrState) (mstSlot : Nat) :
    (portXstpStateSet cfg s port state mstSlot).portState cfg.family mstSlot other =
      s.portState cfg.family mstSlot other := by
  unfold portXstpStateSet
  split
  · rfl
  · have hpos : cfg.family.stpPos port ≠ cfg.family.stpPos other := by
      simpa [Family.stpPos_inj] using Ne.symm hne
    have hset := Packed.get_set_ne (by decide) (s.stp mstSlot).reverse state.code hpos
    simpa [State.portState] using hset

/-- After the states of some ports were set, each of them is in the state it was set to. -/
theorem foldl_portXstpStateSet (dp : Nat → DsaPort) (h : Rows cfg.family s) (mstSlot : Nat)
    (ports : List Nat) (hnodup : ports.Nodup) (hbelow : ∀ p ∈ ports, p < cfg.family.cpuPort) :
    let s' := ports.foldl (fun s port => portXstpStateSet cfg s port (dp port).initial mstSlot) s
    s'.msts = s.msts ∧ Rows cfg.family s' ∧
      (∀ port ∈ ports, s'.portState cfg.family mstSlot port = (dp port).initial.code) ∧
      ∀ port, port ∉ ports →
        s'.portState cfg.family mstSlot port = s.portState cfg.family mstSlot port := by
  induction ports generalizing s with
  | nil => exact ⟨rfl, h, by simp, fun _ _ => rfl⟩
  | cons p ports ih =>
    obtain ⟨hp, hrest⟩ := List.nodup_cons.mp hnodup
    have hlt := hbelow p (by simp)
    obtain ⟨hmsts, hrows, hset, hkept⟩ :=
      ih (h.portXstpStateSet p (dp p).initial mstSlot) hrest fun q hq => hbelow q (by simp [hq])
    refine ⟨hmsts.trans (portXstpStateSet_msts _ _ _ _), hrows, ?_, ?_⟩
    · intro port hport
      rcases List.mem_cons.mp hport with rfl | hmem
      · exact (hkept port hp).trans (portState_portXstpStateSet_self h hlt _ _)
      · exact hset port hmem
    · intro port hport
      obtain ⟨hne, hmem⟩ := not_or.mp (List.mem_cons.not.mp hport)
      exact (hkept port hmem).trans (portState_portXstpStateSet_of_ne _ hne _ _)

theorem mstInit_spec (dp : Nat → DsaPort) (h : Rows cfg.family s) (mstSlot : Nat) :
    (mstInit cfg dp s mstSlot).msts = s.msts ∧ Rows cfg.family (mstInit cfg dp s mstSlot) ∧
      Ready cfg dp (mstInit cfg dp s mstSlot) mstSlot := by
  obtain ⟨hmsts, hrows, hset, -⟩ :=
    foldl_portXstpStateSet dp h mstSlot cfg.user cfg.nodup cfg.below
  exact ⟨hmsts, hrows, hset⟩

/-! ## The entries as counted slots -/

def slotOf (f : Family) (n : Nat) : Option (Fin (f.nMst - 1)) :=
  if h : 0 < n ∧ n < f.nMst then some ⟨n - 1, by omega⟩ else none

@[simp] theorem slotOf_zero (f : Family) : slotOf f 0 = none := rfl

theorem slotOf_succ {i : Nat} (h : i < f.nMst - 1) :
    slotOf f (i + 1) = some ⟨i, h⟩ := by
  have hlt : i + 1 < f.nMst := by omega
  simp [slotOf, hlt]

theorem slotOf_eq_some :
    slotOf f n = some i ↔ n = i.val + 1 := by
  have hi := i.isLt
  unfold slotOf
  split
  · rename_i h
    simp only [Option.some.injEq, Fin.ext_iff]
    omega
  · simp only [reduceCtorEq, false_iff]
    omega

def State.slots (f : Family) (s : State) : Slots (Fin (f.nMst - 1)) Nat where
  key i := if (s.msts i).msti = 0 then none else some (s.msts i).msti
  count i := (s.msts i).refcount

theorem slots_congr {t : State} (h : s.msts = t.msts) : s.slots f = t.slots f := by
  simp [State.slots, h]

theorem slots_key_eq_none :
    (s.slots f).key i = none ↔ (s.msts i).msti = 0 := by
  simp [State.slots]

theorem slots_key_eq_some {k : Nat} :
    (s.slots f).key i = some k ↔ (s.msts i).msti = k ∧ k ≠ 0 := by
  by_cases h : (s.msts i).msti = 0
  · simp only [State.slots, h, if_true]
    simp
    omega
  · simp only [State.slots, h, if_false, Option.some.injEq]
    constructor
    · rintro rfl
      exact ⟨rfl, h⟩
    · exact fun h' => h'.1

theorem update_val {α β : Type} (m : Nat → α) (g : α → β) (i : Fin (f.nMst - 1)) (x : α) :
    (fun j : Fin (f.nMst - 1) => g (update m i x j)) =
      update (fun j : Fin (f.nMst - 1) => g (m j)) i (g x) := by
  funext j
  by_cases hji : j = i
  · subst hji
    simp
  · have hne : j.val ≠ i.val := fun h => hji (Fin.ext h)
    simp [hji, hne]

theorem slots_update (s : State) (i : Fin (f.nMst - 1)) (e : Entry) :
    ({ s with msts := update s.msts i e } : State).slots f =
      { key := update (s.slots f).key i (if e.msti = 0 then none else some e.msti)
        count := update (s.slots f).count i e.refcount } := by
  simp only [State.slots]
  congr 1
  · exact update_val s.msts (fun e => if e.msti = 0 then none else some e.msti) i e
  · exact update_val s.msts Entry.refcount i e

theorem slots_get :
    let entry : Entry := ⟨(s.msts i).msti, (s.msts i).refcount + 1⟩
    ({ s with msts := update s.msts i entry } : State).slots f = (s.slots f).get i := by
  intro entry
  rw [slots_update]
  simp only [Slots.get]
  congr 1
  exact update_eq_self i _

theorem slots_occupy (hmsti : msti ≠ 0) :
    ({ s with msts := update s.msts i { msti := msti, refcount := 1 } } : State).slots f =
      (s.slots f).occupy i msti := by
  rw [slots_update]
  simp [Slots.occupy, hmsti]

theorem slots_mstPutSlot (hused : ∀ i, slotOf f n = some i → (s.slots f).key i ≠ none) :
    (mstPutSlot f s n).slots f = (s.slots f).release (slotOf f n) := by
  unfold mstPutSlot
  by_cases h0 : n = 0
  · simp [h0, Slots.release]
  by_cases hn : f.nMst ≤ n
  · have hnone : slotOf f n = none := by
      unfold slotOf
      rw [dif_neg]
      omega
    simp [h0, hn, hnone, Slots.release]
  have hlt : n - 1 < f.nMst - 1 := by omega
  have hslot : slotOf f n = some ⟨n - 1, hlt⟩ := slotOf_eq_some.mpr (by simp; omega)
  have hmsti : (s.msts (n - 1)).msti ≠ 0 := by
    intro hzero
    exact hused _ hslot (slots_key_eq_none.mpr hzero)
  simp only [h0, hn, hmsti, if_false]
  rw [hslot]
  have hupdate := slots_update s (⟨n - 1, hlt⟩ : Fin (f.nMst - 1))
    { msti := if (s.msts (n - 1)).refcount - 1 = 0 then 0 else (s.msts (n - 1)).msti
      refcount := (s.msts (n - 1)).refcount - 1 }
  refine hupdate.trans ?_
  simp only [Slots.release, Option.elim_some, Slots.put]
  by_cases hlast : (s.msts (n - 1)).refcount - 1 = 0
  · simp [State.slots, hlast]
  · have hkey : update (s.slots f).key ⟨n - 1, hlt⟩ (some (s.msts (n - 1)).msti) =
        (s.slots f).key := by
      rw [update_eq_self_iff]
      simp [State.slots, hmsti]
    simp only [hlast, if_false, hmsti, hkey]
    simp [State.slots, hlast]

/-! ## Moving a VLAN -/

/-- The slots that came to stand for another MSTI have the port states set. -/
def Fresh (cfg : Isolation.Config) (dp : Nat → DsaPort) (s s' : State) : Prop :=
  ∀ i k, (s'.slots cfg.family).key i = some k → (s.slots cfg.family).key i ≠ some k →
    Ready cfg dp s' (i + 1)

/-- No slot is free for an MSTI that has none, and the old slot has one VLAN on it. -/
def Recycles (f : Family) (s : State) (msti oldMstSlot : Nat) : Prop :=
  msti ≠ 0 ∧ msti ≤ 4095 ∧
    (∀ i < f.nMst - 1, (s.msts i).msti ≠ msti ∧ (s.msts i).msti ≠ 0) ∧
    0 < oldMstSlot ∧ oldMstSlot < f.nMst ∧ (s.msts (oldMstSlot - 1)).refcount = 1

theorem find?_entry (p : Nat → Bool) :
    (∃ i : Fin (f.nMst - 1), (range (f.nMst - 1)).find? p = some i.val ∧ p i = true) ∨
      ((range (f.nMst - 1)).find? p = none ∧ ∀ i < f.nMst - 1, p i = false) := by
  cases hfind : (range (f.nMst - 1)).find? p with
  | none =>
    refine .inr ⟨rfl, ?_⟩
    intro i hi
    simpa using List.find?_eq_none.mp hfind i (List.mem_range.mpr hi)
  | some i =>
    obtain ⟨hp, hi, -⟩ := List.find?_range_eq_some.mp hfind
    exact .inl ⟨⟨i, by simpa using hi⟩, rfl, hp⟩

variable {want : V → Option Nat} {on : V → Option (Fin (cfg.family.nMst - 1))}

theorem mstGet_cases (dp : Nat → DsaPort) (msti : Nat) (hrows : Rows cfg.family s) [Fintype V]
    (h : Shared want on none (s.slots cfg.family)) :
    (∃ new s', mstGet cfg dp s msti = (.ok new, s') ∧ new < cfg.family.nMst ∧
      Rows cfg.family s' ∧ Fresh cfg dp s s' ∧
      (slotOf cfg.family new).bind (s'.slots cfg.family).key =
        (if msti = 0 then none else some msti) ∧
      Shared want on (slotOf cfg.family new) (s'.slots cfg.family)) ∨
    (∃ e, e ≠ .enospc ∧ mstGet cfg dp s msti = (.error e, s)) ∨
    (mstGet cfg dp s msti = (.error .enospc, s) ∧ msti ≠ 0 ∧ msti ≤ 4095 ∧
      ∀ i < cfg.family.nMst - 1, (s.msts i).msti ≠ msti ∧ (s.msts i).msti ≠ 0) := by
  have hsame : ∀ s', s'.slots cfg.family = s.slots cfg.family → Fresh cfg dp s s' := by
    intro s' hs' i k hi hne
    rw [hs'] at hi
    exact absurd hi hne
  by_cases hzero : msti = 0
  · refine .inl ⟨0, s, by simp [mstGet, mstFind, hzero], ?_, hrows, hsame s rfl, ?_, ?_⟩
    · cases cfg.family <;> decide
    · simp [hzero]
    · simpa using h
  by_cases hmax : 4095 < msti
  · exact .inr (.inl ⟨.einval, by decide, by simp [mstGet, mstFind, hzero, hmax]⟩)
  rcases find?_entry (f := cfg.family) (fun i => decide ((s.msts i).msti = msti)) with
    ⟨i, hfind, hi⟩ | ⟨hfind, hnone⟩
  · have hmsti : (s.msts i).msti = msti := of_decide_eq_true hi
    have hkey : (s.slots cfg.family).key i = some msti :=
      slots_key_eq_some.mpr ⟨hmsti, hzero⟩
    have hslots := slots_get (f := cfg.family) (s := s) (i := i)
    have hi' := i.isLt
    refine .inl ⟨i + 1,
      { s with msts := update s.msts i ⟨(s.msts i).msti, (s.msts i).refcount + 1⟩ },
      by simp only [mstGet, mstFind, hzero, hmax, hfind, if_false], ?_, hrows, ?_, ?_, ?_⟩
    · omega
    · intro j k hj hne
      rw [hslots] at hj
      exact absurd hj hne
    · rw [slotOf_succ hi', hslots]
      simp [Slots.get, hkey, hzero]
    · rw [slotOf_succ hi', hslots]
      exact h.get (by simp [hkey])
  · have hnokey : ∀ j, (s.slots cfg.family).key j ≠ some msti := by
      intro j hj
      exact of_decide_eq_false (hnone j j.isLt) (slots_key_eq_some.mp hj).1
    rcases find?_entry (f := cfg.family) (fun i => decide ((s.msts i).msti = 0)) with
      ⟨i, hfree, hi⟩ | ⟨hfree, hused⟩
    · have hkey : (s.slots cfg.family).key i = none :=
        slots_key_eq_none.mpr (of_decide_eq_true hi)
      have hslots := slots_occupy (f := cfg.family) (s := s) (i := i) hzero
      have hi' := i.isLt
      obtain ⟨hmsts, hrows', hready⟩ := mstInit_spec dp
        (s := { s with msts := update s.msts i { msti := msti, refcount := 1 } })
        hrows (i.val + 1)
      have hslots' := (slots_congr (f := cfg.family) hmsts).trans hslots
      refine .inl ⟨i + 1, _,
        by simp only [mstGet, mstFind, hzero, hmax, hfind, hfree, if_false], ?_, hrows', ?_, ?_, ?_⟩
      · omega
      · intro j k hj hne
        rw [hslots'] at hj
        by_cases hji : j = i
        · subst hji
          exact hready
        · simp only [Slots.occupy, update_of_ne hji] at hj
          exact absurd hj hne
      · rw [slotOf_succ hi', hslots']
        simp [Slots.occupy, hzero]
      · rw [slotOf_succ hi', hslots']
        exact h.occupy hkey hnokey
    · refine .inr (.inr ⟨by simp only [mstGet, mstFind, hzero, hmax, hfind, hfree, if_false],
        hzero, by omega, ?_⟩)
      intro i hi
      exact ⟨of_decide_eq_false (hnone i hi), of_decide_eq_false (hused i hi)⟩

theorem mstPutSlot_stp (f : Family) (s : State) (n : Nat) : (mstPutSlot f s n).stp = s.stp := by
  simp only [mstPutSlot]
  split_ifs <;> rfl

/-- Putting a slot gives no entry another MSTI. -/
theorem mstPutSlot_msti (f : Family) (s : State) (n i : Nat)
    (h : ((mstPutSlot f s n).msts i).msti ≠ 0) :
    ((mstPutSlot f s n).msts i).msti = (s.msts i).msti := by
  simp only [mstPutSlot] at h ⊢
  split_ifs at h ⊢ with h₁ h₂ h₃ h₄
  · rfl
  · rfl
  · rfl
  · by_cases hi : i = n - 1
    · subst hi
      simp at h
    · simp [hi]
  · by_cases hi : i = n - 1
    · subst hi
      simp
    · simp [hi]

/-- A VLAN that is not handed its own slot is moved to the slot of its MSTI, or nothing
    changes. -/
theorem mstReplace_cases (dp : Nat → DsaPort) (hrows : Rows cfg.family s) [Fintype V]
    [DecidableEq V] (h : Shared want on none (s.slots cfg.family)) {v : V}
    (hold : on v = slotOf cfg.family old) (hnot : ¬ Recycles cfg.family s msti old) :
    (∃ e, mstReplace cfg dp s msti old = (.error e, s)) ∨
    ∃ new s', mstReplace cfg dp s msti old = (.ok new, s') ∧ new < cfg.family.nMst ∧
      Rows cfg.family s' ∧ Fresh cfg dp s s' ∧
      Shared (update want v (if msti = 0 then none else some msti))
        (update on v (slotOf cfg.family new)) none (s'.slots cfg.family) := by
  rcases mstGet_cases dp msti hrows h with
    ⟨new, s', hget, hnew, hrows', hfresh, hkey, hshared⟩ | ⟨e, he, hget⟩ | ⟨hget, hzero, hmax, hfull⟩
  · have hmoved := hshared.move v
    rw [hkey, hold] at hmoved
    have hput : (mstPutSlot cfg.family s' old).slots cfg.family =
        (s'.slots cfg.family).release (slotOf cfg.family old) := by
      refine slots_mstPutSlot ?_
      intro i hi hnone
      exact ((hmoved.free i).mp hnone).2 hi
    refine .inr ⟨new, mstPutSlot cfg.family s' old, by simp [mstReplace, hget], hnew, ?_, ?_, ?_⟩
    · intro slot
      rw [mstPutSlot_stp]
      exact hrows' slot
    · intro i k hi hne port hport
      rw [hput] at hi
      have hi' : (s'.slots cfg.family).key i = some k := Slots.key_release hi
      have hready := hfresh i k hi' hne port hport
      simpa [State.portState, mstPutSlot_stp] using hready
    · rw [hput]
      exact hmoved.release
  · refine .inl ⟨e, ?_⟩
    cases e with
    | enospc => exact absurd rfl he
    | _ => simp [mstReplace, hget]
  · have hrecycle : ∃ e, mstRecycleSlot cfg.family s msti old = (.error e, s) := by
      unfold mstRecycleSlot
      by_cases hold0 : old = 0
      · exact ⟨.enospc, by simp only [hzero, hold0, if_true, if_false]⟩
      by_cases hbig : cfg.family.nMst ≤ old
      · exact ⟨.einval, by simp only [hzero, hold0, hbig, Nat.not_lt.mpr hmax, if_true, if_false]⟩
      have hused := (hfull (old - 1) (by omega)).2
      by_cases hone : (s.msts (old - 1)).refcount = 1
      · exact absurd ⟨hzero, hmax, hfull, by omega, by omega, hone⟩ hnot
      · exact ⟨.enospc, by
          simp only [hzero, hold0, hbig, Nat.not_lt.mpr hmax, hused, hone, ne_eq, not_false_eq_true,
            if_true, if_false]⟩
    obtain ⟨e, he⟩ := hrecycle
    exact .inl ⟨e, by simp [mstReplace, hget, he]⟩

/-! ## The slots that are returned -/

theorem nMst_pos (f : Family) : 0 < f.nMst := by cases f <;> decide

theorem mstFind_lt (h : mstFind f s msti = .ok n) :
    n < f.nMst := by
  unfold mstFind at h
  split_ifs at h
  · cases h
    exact nMst_pos f
  · rcases find?_entry (f := f) (fun i => decide ((s.msts i).msti = msti)) with
      ⟨i, hfind, -⟩ | ⟨hfind, -⟩
    · have hi := i.isLt
      rw [hfind] at h
      cases h
      omega
    · rw [hfind] at h
      cases h

theorem mstGet_lt (h : mstGet cfg dp s msti = (.ok n, s')) :
    n < cfg.family.nMst := by
  unfold mstGet at h
  split at h
  · cases h
    exact nMst_pos _
  · rename_i hfind
    cases h
    exact mstFind_lt hfind
  · rcases find?_entry (f := cfg.family) (fun i => decide ((s.msts i).msti = 0)) with
      ⟨i, hfree, -⟩ | ⟨hfree, -⟩
    · have hi := i.isLt
      rw [hfree] at h
      cases h
      omega
    · rw [hfree] at h
      cases h
  · cases h

theorem mstRecycleSlot_lt (h : mstRecycleSlot f s msti old = (.ok n, s')) : n < f.nMst := by
  simp only [mstRecycleSlot] at h
  split_ifs at h with hzero hold hmax hbig <;>
    simp only [Prod.mk.injEq, Except.ok.injEq, reduceCtorEq, false_and] at h
  · exact h.1 ▸ nMst_pos f
  · exact h.1 ▸ Nat.lt_of_not_le hbig

/-- What is returned is a slot of the switch. -/
theorem mstReplace_lt (h : mstReplace cfg dp s msti old = (.ok n, s')) : n < cfg.family.nMst := by
  unfold mstReplace at h
  split at h
  · exact mstRecycleSlot_lt h
  · cases h
  · rename_i hget
    cases h
    exact mstGet_lt hget

end Mst

end LibWrt.Rtl83xx
