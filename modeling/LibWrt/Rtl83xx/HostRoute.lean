/-
LibWrt.Rtl83xx.HostRoute — the host route table of the RTL930x.

The table has rows of eight slots, of which six are used; the routes number
the used slots one after the other, and the hardware counts all of them. A
destination may be in a row of each half of the table, by its hash.

`rtl930x_find_l3_slot` looks at the wanted route and not at the entry that it
has read, to see whether a slot is free, so it takes the first slot of the
row; and `rtl930x_host_route_write` makes every entry valid, so a removal
installs the route again. `host_route_run_iff` says which runs are not hurt.
-/
import LibWrt.Rtl83xx.L2

namespace LibWrt.Rtl83xx

open Function BitVec Int

namespace HostRoute

/-- The fields of `struct rtl83xx_route` that the table has. -/
structure Route where
  dstIp : BitVec 32
  dstIp6 : Fin 4 → BitVec 32
  nhId : BitVec 16
  valid : Bool
  hit : Bool
  ttlDec : Bool
  ttlCheck : Bool
  dstNull : Bool
  qosAs : Bool
  qosPrio : BitVec 8
  type : BitVec 8
  action : BitVec 8

@[ext]
structure Row where
  w0 : BitVec 32
  w1 : BitVec 32
  w2 : BitVec 32
  w3 : BitVec 32
  w4 : BitVec 32
  deriving DecidableEq

abbrev Table := Nat → Row

/-- `idx & (BIT(r->t_bit) - 1)` of `rtl_table_exec` -/
def tableIndex (idx : Int) : Nat := (idx % 2 ^ 13).toNat

def physical (idx : Int) : Int := idx.tdiv 6 * 8 + idx.tmod 6

def logical (addr : Int) : Int := addr.tdiv 8 * 6 + addr.tmod 8

/-- `HASH_PICK` -/
def hashPick (val : BitVec 32) (lsb len : Nat) : BitVec 32 :=
  (val &&& (((1 <<< len) - 1) <<< lsb)) >>> lsb

/-- `rtl930x_l3_hash4` -/
def l3Hash4 (ip : BitVec 32) (algorithm : Bool) (moveDip : Bool) : BitVec 32 :=
  let row0 := hashPick ip 27 5
  let row1 := hashPick ip 18 9
  let row2 := hashPick ip 9 9
  let row3 := if !moveDip then hashPick ip 0 9 else 0
  if !algorithm then row0 ^^^ row1 ^^^ row2 ^^^ row3
  else
    let s0 := row0 + row1 + row2
    let s1 := (s0 &&& 0x1ff) + ((s0 &&& (0x1ff <<< 9)) >>> 9)
    let pH := (s1 &&& 0x1ff) + ((s1 &&& (0x1ff <<< 9)) >>> 9)
    pH ^^^ row3

/-- `rtl930x_host_route_read`: what is not read stays. -/
def hostRouteRead (tbl : Table) (idx : Int) (rt : Route) : Route :=
  let row := tbl (tableIndex (physical idx))
  let v := row.w0
  let rt := { rt with valid := v.getLsbD 31 }
  if !rt.valid then rt
  else
    let rt := { rt with type := ((v >>> 29) &&& 3).setWidth 8 }
    let rest (rt : Route) : Route :=
      { rt with
        hit := v.getLsbD 20
        dstNull := v.getLsbD 19
        action := ((v >>> 17) &&& 3).setWidth 8
        nhId := ((v >>> 6) &&& 0x7ff).setWidth 16
        ttlDec := v.getLsbD 5
        ttlCheck := v.getLsbD 4
        qosAs := v.getLsbD 3
        qosPrio := (v &&& 7).setWidth 8 }
    if rt.type = 0 then rest { rt with dstIp := row.w4 }
    else if rt.type = 2 then rest { rt with dstIp6 := ![row.w3, row.w2, row.w1, row.w0] }
    else rt

/-- `BIT` of a flag. -/
def bit (b : Bool) (i : Nat) : BitVec 32 := if b then twoPow 32 i else 0

@[simp] theorem getLsbD_bit (b : Bool) (i j : Nat) :
    (bit b i).getLsbD j = (b && decide (i < 32) && decide (i = j)) := by
  cases b <;> simp [bit, getLsbD_twoPow]

@[simp] theorem getElem_bit (b : Bool) (i : Nat) {j : Nat} (h : j < 32) :
    (bit b i)[j] = (b && decide (i < 32) && decide (i = j)) := by
  rw [← getLsbD_eq_getElem, getLsbD_bit]

def attrWord (rt : Route) : BitVec 32 :=
  bit true 31 ||| ((rt.type &&& 3).setWidth 32 <<< 29) ||| bit rt.hit 20 ||| bit rt.dstNull 19 |||
    ((rt.action &&& 3).setWidth 32 <<< 17) ||| ((rt.nhId &&& 0x7ff).setWidth 32 <<< 6) |||
    bit rt.ttlDec 5 ||| bit rt.ttlCheck 4 ||| bit rt.qosAs 3 ||| (rt.qosPrio &&& 7).setWidth 32

/-- `rtl930x_host_route_write` -/
def hostRouteWrite (idx : Int) (rt : Route) (tbl : Table) : Table :=
  let at' := tableIndex (physical idx)
  if rt.type = 0 then update tbl at' ⟨attrWord rt, 0, 0, 0, rt.dstIp⟩
  else if rt.type = 2 then
    update tbl at' ⟨attrWord rt, rt.dstIp6 0, rt.dstIp6 1, rt.dstIp6 2, rt.dstIp6 3⟩
  else tbl

/-- The physical address of a slot, from half, hash and slot. -/
def address (t : Nat) (hash : BitVec 32) (s : Nat) : Nat :=
  (t <<< 12) ||| ((hash &&& 0x1ff).toNat <<< 3) ||| s

def search (tbl : Table) (rt : Route) (mustExist : Bool) : List Int → Route → Int
  | [], _ => -1
  | idx :: rest, entry =>
    let entry := hostRouteRead tbl idx entry
    if !mustExist && rt.valid then idx
    else if mustExist && entry.dstIp = rt.dstIp then idx
    else search tbl rt mustExist rest entry

/-- The slots that `rtl930x_find_l3_slot` goes through; `ctrl` is `RTL930X_L3_HOST_TBL_CTRL`. -/
def slots (ctrl : BitVec 32) (rt : Route) : List Int :=
  let slotWidth := if rt.type = 0 || rt.type = 2 then 1 else 3
  (List.range 2).flatMap fun t =>
    (List.range (6 / slotWidth)).map fun i =>
      logical (address t (l3Hash4 rt.dstIp (ctrl.getLsbD (2 + t)) false) (i * slotWidth))

/-- `rtl930x_find_l3_slot`; `entry` is what `route_entry` has before it is read to. -/
def findL3Slot (ctrl : BitVec 32) (tbl : Table) (entry rt : Route) (mustExist : Bool) : Int :=
  search tbl rt mustExist (slots ctrl rt) entry

/-! ## Steps -/

/-- The installation of a route by `rtl83xx_l3_nexthop_update` and `rtldsa_fib4_add`, and
    `rtl83xx_route_rm` of a host route, which is an IPv4 route. -/
inductive Event where
  | install (rt : Route)
  | remove (rt : Route)

def installed (rt : Route) : Route := { rt with valid := true, type := 0 }

def step (ctrl : BitVec 32) (entry : Route) (tbl : Table) : Event → Table
  | .install rt =>
    let slot := findL3Slot ctrl tbl entry (installed rt) false
    hostRouteWrite slot (installed rt) tbl
  | .remove rt =>
    let rt := { rt with type := 0 }
    let id := findL3Slot ctrl tbl entry rt false
    hostRouteWrite id { rt with valid := false } tbl

def Row.Valid (row : Row) : Prop := row.w0.getLsbD 31 = true

instance (row : Row) : Decidable row.Valid := inferInstanceAs (Decidable (_ = true))

def Row.HasDst (row : Row) (ip : BitVec 32) : Prop :=
  row.Valid ∧ (row.w0 >>> 29) &&& 3 = 0 ∧ row.w4 = ip

def IsSlot (addr : Nat) : Prop := ∃ idx : Nat, idx < 2 * 512 * 6 ∧ addr = tableIndex (physical idx)

/-- An installation takes a slot that is free, or of the same destination. A removal takes the
destination out, and nothing else. -/
def StepHolds (ctrl : BitVec 32) (entry : Route) (tbl : Table) : Event → Prop
  | .install rt =>
    let row := tbl (tableIndex (physical (findL3Slot ctrl tbl entry (installed rt) false)))
    ¬ row.Valid ∨ row.HasDst rt.dstIp
  | .remove rt => ∀ addr, IsSlot addr →
    ¬ (step ctrl entry tbl (.remove rt) addr).HasDst rt.dstIp ∧
      (¬ (tbl addr).HasDst rt.dstIp → step ctrl entry tbl (.remove rt) addr = tbl addr)

def firstSlot (ctrl : BitVec 32) (ip : BitVec 32) : Nat :=
  8 * (l3Hash4 ip (ctrl.getLsbD 2) false &&& 0x1ff).toNat

/-- The steps that do no harm: the first slot is free or of the destination; and what is removed
was never installed. -/
def Ok (ctrl : BitVec 32) (tbl : Table) : Event → Prop
  | .install rt =>
    ¬ (tbl (firstSlot ctrl rt.dstIp)).Valid ∨ (tbl (firstSlot ctrl rt.dstIp)).HasDst rt.dstIp
  | .remove rt => rt.valid = false ∧ ∀ addr, IsSlot addr → ¬ (tbl addr).HasDst rt.dstIp

/-! ## The numberings -/

@[simp] theorem physical_natCast (idx : Nat) :
    physical idx = ((idx / 6 * 8 + idx % 6 : Nat) : Int) := by
  rw [physical, tdiv_eq_ediv_of_nonneg (by omega), tmod_eq_emod_of_nonneg (by omega)]
  push_cast
  rfl

@[simp] theorem logical_natCast (addr : Nat) :
    logical addr = ((addr / 8 * 6 + addr % 8 : Nat) : Int) := by
  rw [logical, tdiv_eq_ediv_of_nonneg (by omega), tmod_eq_emod_of_nonneg (by omega)]
  push_cast
  rfl

variable {addr : Nat}

theorem physical_logical (h : addr % 8 < 6) : physical (logical addr) = addr := by
  rw [logical_natCast, physical_natCast]
  omega

theorem logical_physical (idx : Nat) : logical (physical idx) = idx := by
  rw [physical_natCast, logical_natCast]
  omega

theorem tableIndex_natCast {n : Nat} (h : n < 2 ^ 13) : tableIndex n = n := by
  unfold tableIndex
  omega

/-- No slot is the last place of a row. -/
theorem IsSlot.mod_lt (h : IsSlot addr) : addr % 8 < 6 := by
  obtain ⟨idx, hidx, rfl⟩ := h
  rw [physical_natCast, tableIndex_natCast (by omega)]
  omega

theorem isSlot_of_mod_lt (haddr : addr < 2 ^ 13) (h : addr % 8 < 6) :
    IsSlot addr := by
  refine ⟨addr / 8 * 6 + addr % 8, by omega, ?_⟩
  rw [← logical_natCast, physical_logical h, tableIndex_natCast haddr]

/-! ## What a step does -/

section Steps

variable {ctrl : BitVec 32} {entry : Route} {tbl : Table}

theorem hash_lt (hash : BitVec 32) : (hash &&& 0x1ff).toNat < 512 := by
  rw [toNat_and]
  exact Nat.lt_of_le_of_lt Nat.and_le_right (by decide)

theorem firstSlot_lt (ctrl ip : BitVec 32) : firstSlot ctrl ip < 2 ^ 13 := by
  have := hash_lt (l3Hash4 ip (ctrl.getLsbD 2) false)
  unfold firstSlot
  omega

theorem address_zero (hash : BitVec 32) : address 0 hash 0 = 8 * (hash &&& 0x1ff).toNat := by
  simp [address, Nat.shiftLeft_eq]
  omega

variable {rt : Route}

/-- A valid route gets the first slot. -/
theorem findL3Slot_valid (hvalid : rt.valid = true) (htype : rt.type = 0) :
    tableIndex (physical (findL3Slot ctrl tbl entry rt false)) = firstSlot ctrl rt.dstIp := by
  obtain ⟨rest, hslots⟩ : ∃ rest, slots ctrl rt =
      logical (address 0 (l3Hash4 rt.dstIp (ctrl.getLsbD 2) false) 0) :: rest := by
    simp [slots, htype, List.range_succ]
  have hfind : findL3Slot ctrl tbl entry rt false =
      logical (address 0 (l3Hash4 rt.dstIp (ctrl.getLsbD 2) false) 0) := by
    rw [findL3Slot, hslots, search]
    simp [hvalid]
  rw [hfind, address_zero, physical_logical (by omega), firstSlot]
  exact tableIndex_natCast (firstSlot_lt ctrl rt.dstIp)

/-- A route that is not valid gets none. -/
theorem findL3Slot_not_valid (hvalid : rt.valid = false) :
    findL3Slot ctrl tbl entry rt false = -1 := by
  unfold findL3Slot
  generalize slots ctrl rt = idxs
  induction idxs generalizing entry with
  | nil => rfl
  | cons idx idxs ih =>
    rw [search]
    simp [hvalid, ih]

theorem attrWord_valid (rt : Route) : (attrWord rt).getLsbD 31 = true := by
  simp [attrWord]

theorem attrWord_type (h : rt.type = 0) : (attrWord rt >>> 29) &&& 3 = 0 := by
  have hbits : ∀ i, i = 29 ∨ i = 30 → (attrWord rt).getLsbD i = false := by
    rintro i (rfl | rfl)
    · simp [attrWord, h]
    · simp [attrWord, h]
  refine eq_of_getLsbD_eq fun i hi => ?_
  rw [getLsbD_and, getLsbD_ushiftRight]
  rcases Nat.lt_or_ge i 2 with hlt | hge
  · rw [hbits (29 + i) (by omega)]
    simp
  · have hthree : (3 : BitVec 32).getLsbD i = false :=
      Nat.testBit_lt_two_pow (Nat.lt_of_lt_of_le (by decide : 3 < 2 ^ 2)
        (Nat.pow_le_pow_right (by decide) hge))
    rw [hthree, Bool.and_false]
    simp

/-- Every IPv4 entry that is written is a valid one of its destination. -/
theorem hostRouteWrite_self {idx : Int} (h : rt.type = 0) :
    (hostRouteWrite idx rt tbl (tableIndex (physical idx))).HasDst rt.dstIp := by
  rw [hostRouteWrite, if_pos h, update_self]
  exact ⟨attrWord_valid rt, attrWord_type h, rfl⟩

theorem hostRouteWrite_other {idx : Int} {addr : Nat} (h : addr ≠ tableIndex (physical idx)) :
    hostRouteWrite idx rt tbl addr = tbl addr := by
  unfold hostRouteWrite
  split
  · exact update_of_ne h _ _
  · split
    · exact update_of_ne h _ _
    · rfl

/-- The removal of a route that was not installed writes behind the slots of the last row. -/
theorem remove_not_valid (hvalid : rt.valid = false) {addr : Nat} (haddr : IsSlot addr) :
    step ctrl entry tbl (.remove rt) addr = tbl addr := by
  have hfind := @findL3Slot_not_valid ctrl entry tbl { rt with type := 0 } hvalid
  simp only [step, hfind]
  refine hostRouteWrite_other ?_
  have := haddr.mod_lt
  have hlast : tableIndex (physical (-1)) = 8191 := by decide
  omega

/-- A step does what it should exactly if it is one of those that do no harm. -/
theorem stepHolds_iff (e : Event) : StepHolds ctrl entry tbl e ↔ Ok ctrl tbl e := by
  cases e with
  | install rt =>
    have hfirst := @findL3Slot_valid ctrl entry tbl (installed rt) rfl rfl
    simp only [StepHolds, Ok, hfirst]
    rfl
  | remove rt =>
    constructor
    · intro h
      have hvalid : rt.valid = false := by
        by_contra hvalid
        rw [Bool.not_eq_false] at hvalid
        -- the route is written to the first slot again
        have hslot : IsSlot (firstSlot ctrl rt.dstIp) :=
          isSlot_of_mod_lt (firstSlot_lt ctrl rt.dstIp) (by unfold firstSlot; omega)
        refine (h _ hslot).1 ?_
        rw [← @findL3Slot_valid ctrl entry tbl { rt with type := 0 } hvalid rfl]
        exact hostRouteWrite_self rfl
      refine ⟨hvalid, fun addr haddr hdst => (h addr haddr).1 ?_⟩
      rwa [remove_not_valid hvalid haddr]
    · rintro ⟨hvalid, hnone⟩ addr haddr
      rw [remove_not_valid hvalid haddr]
      exact ⟨hnone addr haddr, fun _ => rfl⟩

end Steps

/-! ## Runs -/

def RunHolds (ctrl : BitVec 32) (entry : Route) : Table → List Event → Prop
  | _, [] => True
  | tbl, e :: es =>
    StepHolds ctrl entry tbl e ∧ RunHolds ctrl entry (step ctrl entry tbl e) es

def RunOk (ctrl : BitVec 32) (entry : Route) : Table → List Event → Prop
  | _, [] => True
  | tbl, e :: es => Ok ctrl tbl e ∧ RunOk ctrl entry (step ctrl entry tbl e) es

/-- The numberings are inverse to each other; and the steps of a run do what they should if and
only if they are those that do no harm. -/
theorem host_route_run_iff (ctrl : BitVec 32) (entry : Route) (tbl : Table) (es : List Event) :
    (∀ addr : Nat, addr % 8 < 6 → physical (logical addr) = addr) ∧
      (∀ idx : Nat, logical (physical idx) = idx) ∧
        (RunHolds ctrl entry tbl es ↔ RunOk ctrl entry tbl es) := by
  refine ⟨fun _ => physical_logical, logical_physical, ?_⟩
  induction es generalizing tbl with
  | nil => rfl
  | cons e es ih => simp only [RunHolds, RunOk, stepHolds_iff, ih]

def routeTo (ip : BitVec 32) : Route where
  dstIp := ip
  dstIp6 := fun _ => 0
  nhId := 0
  valid := true
  hit := false
  ttlDec := false
  ttlCheck := false
  dstNull := false
  qosAs := false
  qosPrio := 0
  type := 0
  action := 0

/-- Two destinations with one hash take the same slot, and a removal leaves the route. -/
theorem host_route_overwritten :
    ¬ RunHolds 0 (routeTo 0) (fun _ => ⟨0, 0, 0, 0, 0⟩)
        [.install (routeTo 0x1), .install (routeTo 0x200)] ∧
      ¬ RunHolds 0 (routeTo 0) (fun _ => ⟨0, 0, 0, 0, 0⟩)
        [.install (routeTo 0x1), .remove (routeTo 0x1)] := by
  refine ⟨fun h => ?_, fun h => ?_⟩
  · rcases (stepHolds_iff _).mp h.2.1 with hfree | hdst
    · exact hfree (by decide)
    · exact absurd hdst.2.2 (by decide)
  · exact absurd ((stepHolds_iff _).mp h.2.1).1 (by decide)

end HostRoute

end LibWrt.Rtl83xx
