/-
LibWrt.Rtl83xx.L2Row — the entries of the forwarding database as rows of the table.

`fill_l2_row` writes an entry to three words, `fill_l2_entry` reads them.
Each family has its own layout. An entry comes back from its row but for four
slips (`l2_row_iff`): on the RTL838x an age of one does not count as aging,
and the VID is written over a route id; the RTL839x reads a route id of
nine bits where eleven are written; the RTL930x writes the bit that blocks
the source address where the age is, and no relay VID for a multicast entry.
-/
import LibWrt.Lib.Word

namespace LibWrt.Rtl83xx

open Bool (false_eq_true)
open BitVec hiding and_self

namespace L2Row

open Word

/-- `u8 mac[6]` -/
structure Mac where
  m0 : BitVec 8
  m1 : BitVec 8
  m2 : BitVec 8
  m3 : BitVec 8
  m4 : BitVec 8
  m5 : BitVec 8
  deriving DecidableEq

/-- `ether_addr_to_u64` -/
def Mac.toU64 (mac : Mac) : BitVec 64 :=
  put 64 mac.m0 40 8 ||| put 64 mac.m1 32 8 ||| put 64 mac.m2 24 8 ||| put 64 mac.m3 16 8 |||
    put 64 mac.m4 8 8 ||| put 64 mac.m5 0 8

/-- `mac[0] & 1` -/
def Mac.isMulticast (mac : Mac) : Bool := mac.m0.getLsbD 0

/-- `enum l2_entry_type` -/
inductive EntryType where
  | invalid
  | unicast
  | multicast
  | ip4Multicast
  | ip6Multicast
  deriving DecidableEq

/-- `struct rtl838x_l2_entry`, what the rows of these families have. -/
structure Entry where
  mac : Mac
  vid : BitVec 16
  rvid : BitVec 16
  port : BitVec 8
  type : EntryType
  valid : Bool
  isStatic : Bool
  isIpMc : Bool
  isIpv6Mc : Bool
  blockDa : Bool
  blockSa : Bool
  suspended : Bool
  nextHop : Bool
  isTrunk : Bool
  nhVlanTarget : Bool
  age : BitVec 32
  trunk : BitVec 8
  stackDev : BitVec 8
  mcPortmaskIndex : BitVec 16
  mcGip : BitVec 32
  mcMacIndex : BitVec 16
  nhRouteId : BitVec 16

structure Row where
  r0 : BitVec 32
  r1 : BitVec 32
  r2 : BitVec 32

/-! ## RTL838x -/

/-- `rtl838x_fill_l2_row` -/
def rtl838xFillL2Row (e : Entry) : Row :=
  if !e.valid then ⟨0, 0, 0⟩
  else
    let mac := e.mac.toU64
    let r0 := flag 32 e.isIpMc 22 ||| flag 32 e.isIpv6Mc 21
    if !e.isIpMc && !e.isIpv6Mc then
      let r1 := get 32 mac 20 32
      let r2 := put 32 mac 12 20
      if !e.mac.isMulticast then
        let nh := if e.nextHop then flag 32 e.nhVlanTarget 9 ||| put 32 e.nhRouteId 0 9 else 0
        { r0 := r0 ||| flag 32 e.isStatic 19 ||| put 32 e.port 12 6 ||| put 32 e.vid 0 16 ||| nh |||
            put 32 e.age 17 2
          r1 := r1 ||| flag 32 e.blockDa 30 ||| flag 32 e.blockSa 31 ||| flag 32 e.suspended 29 |||
            flag 32 e.nextHop 28
          r2 := r2 ||| put 32 e.rvid 0 12 }
      else
        { r0 := r0 ||| put 32 e.mcPortmaskIndex 12 9 ||| put 32 e.vid 0 12
          r1 := r1
          r2 := r2 ||| put 32 e.rvid 0 12 }
    else
      { r0 := r0 ||| put 32 e.mcPortmaskIndex 12 9
        r1 := get 32 e.mcGip 20 32
        r2 := put 32 e.mcGip 12 32 ||| put 32 e.rvid 0 16 }

/-- `rtl838x_fill_l2_entry`: what is not read stays. -/
def rtl838xFillL2Entry (r : Row) (e : Entry) : Entry :=
  let e := { e with isIpMc := r.r0.getLsbD 22, isIpv6Mc := r.r0.getLsbD 21, type := .invalid }
  let e :=
    if !e.isIpMc && !e.isIpv6Mc then
      let e := { e with
        mac :=
          { m0 := get 8 r.r1 20 8
            m1 := get 8 r.r1 12 8
            m2 := get 8 r.r1 4 8
            m3 := put 8 r.r1 4 4 ||| get 8 r.r2 28 8
            m4 := get 8 r.r2 20 8
            m5 := get 8 r.r2 12 8 }
        rvid := get 16 r.r2 0 12
        vid := get 16 r.r0 0 12 }
      if !e.mac.isMulticast then
        let e := { e with
          isStatic := r.r0.getLsbD 19
          port := get 8 r.r0 12 5
          blockDa := r.r1.getLsbD 30
          blockSa := r.r1.getLsbD 31
          suspended := r.r1.getLsbD 29
          nextHop := r.r1.getLsbD 28 }
        let e :=
          if e.nextHop then
            { e with
              nhVlanTarget := r.r0.getLsbD 9
              nhRouteId := get 16 r.r0 0 9
              vid := e.rvid }
          else e
        let e := { e with age := get 32 r.r0 17 2, valid := true }
        if r.r0 &&& 0x007c0000 = 0 ∧ r.r1 &&& 0xd0000000 = 0 then { e with valid := false }
        else { e with type := .unicast }
      else { e with valid := true, type := .multicast, mcPortmaskIndex := get 16 r.r0 12 9 }
    else
      { e with
        valid := true
        mcPortmaskIndex := get 16 r.r0 12 9
        mcGip := put 32 r.r1 20 32 ||| get 32 r.r2 12 32
        rvid := get 16 r.r2 0 12 }
  let e := if e.isIpMc then { e with type := .ip4Multicast } else e
  if e.isIpv6Mc then { e with type := .ip6Multicast } else e

/-- `rtl838x_l2_hash_seed` -/
def rtl838xL2HashSeed (mac : BitVec 64) (vid : BitVec 32) : BitVec 64 :=
  mac <<< 12 ||| vid.setWidth 64

/-- What `rtl838x_read_l2_entry_using_hash` returns for a valid entry. -/
def rtl838xKey (r : Row) : BitVec 64 := (r.r1.setWidth 64 <<< 32) ||| r.r2.setWidth 64

/-! ## RTL839x -/

/-- `rtl839x_fill_l2_row` -/
def rtl839xFillL2Row (e : Entry) : Row :=
  if !e.valid then ⟨0, 0, 0⟩
  else
    let r2 := flag 32 e.isIpMc 31 ||| flag 32 e.isIpv6Mc 30
    if !e.isIpMc && !e.isIpv6Mc then
      let r0 := put 32 e.mac.m0 12 8 ||| put 32 e.mac.m1 4 8 ||| get 32 e.mac.m2 4 8
      let r1 := put 32 e.mac.m2 28 8 ||| put 32 e.mac.m3 20 8 ||| put 32 e.mac.m4 12 8 |||
        put 32 e.mac.m5 4 8
      if !e.mac.isMulticast then
        let nh :=
          if e.nextHop then
            flag 32 true 16 ||| flag 32 e.nhVlanTarget 15 ||| put 32 e.nhRouteId 4 11
          else put 32 e.vid 4 16
        { r0 := r0 ||| put 32 e.rvid 20 16
          r1 := r1
          r2 := r2 ||| flag 32 e.isStatic 18 ||| put 32 e.port 24 8 ||| flag 32 e.blockDa 19 |||
            flag 32 e.blockSa 20 ||| flag 32 e.suspended 17 ||| put 32 e.age 21 32 ||| nh }
      else
        { r0 := r0 ||| put 32 e.rvid 20 16
          r1 := r1
          r2 := r2 ||| put 32 e.mcPortmaskIndex 6 16 }
    else
      { r0 := put 32 e.rvid 20 16
        r1 := e.mcGip
        r2 := r2 ||| put 32 e.mcPortmaskIndex 6 16 }

/-- `rtl839x_fill_l2_entry` -/
def rtl839xFillL2Entry (r : Row) (e : Entry) : Entry :=
  let e := { e with isIpMc := r.r2.getLsbD 31, isIpv6Mc := r.r2.getLsbD 30, type := .invalid }
  let e :=
    if !e.isIpMc && !e.isIpv6Mc then
      let e := { e with
        mac :=
          { m0 := get 8 r.r0 12 8
            m1 := get 8 r.r0 4 8
            m2 := get 8 r.r1 28 8 ||| put 8 r.r0 4 8
            m3 := get 8 r.r1 20 8
            m4 := get 8 r.r1 12 8
            m5 := get 8 r.r1 4 8 }
        vid := get 16 r.r2 4 12
        rvid := get 16 r.r0 20 12 }
      if !e.mac.isMulticast then
        let e := { e with
          isStatic := r.r2.getLsbD 18
          port := get 8 r.r2 24 6
          blockDa := r.r2.getLsbD 19
          blockSa := r.r2.getLsbD 20
          suspended := r.r2.getLsbD 17
          nextHop := r.r2.getLsbD 16 }
        let e :=
          if e.nextHop then
            { e with
              nhVlanTarget := r.r2.getLsbD 15
              nhRouteId := get 16 r.r2 4 9
              vid := e.rvid }
          else e
        let e := { e with age := get 32 r.r2 21 2, valid := true }
        if r.r2 &&& 0xc0fd0000 = 0 then { e with valid := false }
        else { e with type := .unicast }
      else
        { e with
          valid := true
          type := .multicast
          mcPortmaskIndex := get 16 r.r2 6 12
          vid := e.rvid }
    else
      -- `(r[0] << 20) & 0xfff` has no bit
      { e with
        vid := 0
        rvid := 0
        mcGip := r.r1
        mcPortmaskIndex := get 16 r.r2 6 12 }
  let e := if e.isIpMc then { e with valid := true, type := .ip4Multicast } else e
  if e.isIpv6Mc then { e with valid := true, type := .ip6Multicast } else e

/-- `rtl839x_l2_hash_seed` and `rtl930x_l2_hash_seed` -/
def rtl839xL2HashSeed (mac : BitVec 64) (vid : BitVec 32) : BitVec 64 :=
  (vid.setWidth 64 <<< 48) ||| mac

/-! ## RTL930x -/

/-- `rtl930x_fill_l2_row` -/
def rtl930xFillL2Row (e : Entry) : Row :=
  if !e.valid then ⟨0, 0, 0⟩
  else
    let r0 := put 32 e.mac.m0 24 8 ||| put 32 e.mac.m1 16 8 ||| put 32 e.mac.m2 8 8 |||
      put 32 e.mac.m3 0 8
    let r1 := put 32 e.mac.m4 24 8 ||| put 32 e.mac.m5 16 8
    let r2 := flag 32 true 31 ||| flag 32 e.nextHop 12
    if e.type = .unicast then
      let port :=
        if e.isTrunk then flag 32 true 30 ||| put 32 e.stackDev 29 8 ||| put 32 e.port 20 6
        else put 32 e.stackDev 26 4 ||| put 32 e.port 20 6
      let nh := if e.nextHop then put 32 e.nhRouteId 0 11 else put 32 e.vid 0 12
      { r0 := r0
        r1 := r1 ||| put 32 e.rvid 0 12
        r2 := r2 ||| flag 32 e.isStatic 14 ||| put 32 e.port 20 10 ||| port |||
          flag 32 e.blockDa 15 ||| flag 32 e.blockSa 17 ||| flag 32 e.suspended 13 |||
          put 32 e.age 17 2 ||| nh }
    else
      { r0 := r0
        r1 := r1
        r2 := r2 ||| put 32 e.mcPortmaskIndex 16 10 ||| put 32 e.mcMacIndex 0 11 }

/-- `rtl930x_fill_l2_entry` -/
def rtl930xFillL2Entry (r : Row) (e : Entry) : Entry :=
  let e := { e with valid := r.r2.getLsbD 31 }
  if !e.valid then e
  else
    let e := { e with
      isIpMc := false
      isIpv6Mc := false
      mac :=
        { m0 := get 8 r.r0 24 8
          m1 := get 8 r.r0 16 8
          m2 := get 8 r.r0 8 8
          m3 := get 8 r.r0 0 8
          m4 := get 8 r.r1 24 8
          m5 := get 8 r.r1 16 8 }
      nextHop := r.r2.getLsbD 12
      rvid := get 16 r.r1 0 12 }
    if !e.mac.isMulticast then
      -- `port` has eight bits, so the bits of `stack_dev` that lie behind them are lost
      let e := { e with
        type := .unicast
        isStatic := r.r2.getLsbD 14
        port := get 8 r.r2 20 10 }
      let e :=
        if r.r2.getLsbD 30 then
          { e with isTrunk := true, stackDev := 0, trunk := e.port &&& 0x3f }
        else
          { e with
            isTrunk := false
            stackDev := (e.port >>> 6) &&& 0xf
            port := e.port &&& 0x3f }
      let e := { e with
        blockDa := r.r2.getLsbD 15
        blockSa := r.r2.getLsbD 16
        suspended := r.r2.getLsbD 13
        age := get 32 r.r2 17 2
        valid := true }
      if e.nextHop then { e with nhRouteId := get 16 r.r2 0 11, vid := 0 }
      else { e with vid := get 16 r.r2 0 12, nhRouteId := 0 }
    else { e with valid := true, type := .multicast, mcPortmaskIndex := get 16 r.r2 16 10 }

/-! ## The families together -/

/-- The families whose layouts these are. -/
inductive Layout where
  | rtl838x
  | rtl839x
  | rtl930x
  deriving DecidableEq

def fillL2Row : Layout → Entry → Row
  | .rtl838x => rtl838xFillL2Row
  | .rtl839x => rtl839xFillL2Row
  | .rtl930x => rtl930xFillL2Row

def fillL2Entry : Layout → Row → Entry → Entry
  | .rtl838x => rtl838xFillL2Entry
  | .rtl839x => rtl839xFillL2Entry
  | .rtl930x => rtl930xFillL2Entry

def l2HashSeed : Layout → BitVec 64 → BitVec 32 → BitVec 64
  | .rtl838x => rtl838xL2HashSeed
  | .rtl839x => rtl839xL2HashSeed
  | .rtl930x => rtl839xL2HashSeed

/-- What `read_l2_entry_using_hash` returns, as the searches compare it with a seed. -/
def lookupKey (l : Layout) (r : Row) (e : Entry) : BitVec 64 :=
  let e := fillL2Entry l r e
  let key :=
    if !e.valid then 0
    else if l = .rtl838x then rtl838xKey r
    else l2HashSeed l e.mac.toU64 (e.rvid.setWidth 32)
  key &&& 0x0fffffffffffffff

def portBits : Layout → Nat
  | .rtl838x => 5
  | .rtl839x => 6
  | .rtl930x => 6

def routeIdBits : Layout → Nat
  | .rtl838x => 9
  | .rtl839x => 11
  | .rtl930x => 11

def mcPortmaskBits : Layout → Nat
  | .rtl838x => 9
  | .rtl839x => 12
  | .rtl930x => 10

/-- A valid entry that is no trunk, whose fields fit. Where there is no valid bit, a unicast entry
ages, blocks its address, is a next hop or is static. -/
structure Encodable (l : Layout) (e : Entry) : Prop where
  valid : e.valid = true
  noIp : e.isIpMc = false ∧ e.isIpv6Mc = false
  noTrunk : e.isTrunk = false
  type : e.type = if e.mac.isMulticast then .multicast else .unicast
  vid : e.vid.toNat < 2 ^ 12
  rvid : e.rvid.toNat < 2 ^ 12
  port : e.port.toNat < 2 ^ portBits l
  age : e.age.toNat < 2 ^ 2
  stackDev : e.stackDev.toNat < 2 ^ 4
  mcMacIndex : e.mcMacIndex.toNat < 2 ^ 11
  mcPortmaskIndex : e.mcPortmaskIndex.toNat < 2 ^ mcPortmaskBits l
  nhRouteId : e.nhRouteId.toNat < 2 ^ routeIdBits l
  shown : l ≠ .rtl930x → e.mac.isMulticast = false →
    e.age ≠ 0 ∨ e.blockDa = true ∨ e.blockSa = true ∨ e.nextHop = true ∨ e.isStatic = true

/-- The fields of a unicast entry that should come back. -/
structure SameUnicast (e e' : Entry) : Prop where
  port : e'.port = e.port
  isStatic : e'.isStatic = e.isStatic
  blockDa : e'.blockDa = e.blockDa
  blockSa : e'.blockSa = e.blockSa
  suspended : e'.suspended = e.suspended
  nextHop : e'.nextHop = e.nextHop
  age : e'.age = e.age
  vid : e.nextHop = false → e'.vid = e.vid
  nhRouteId : e.nextHop = true → e'.nhRouteId = e.nhRouteId

structure Same (l : Layout) (e e' : Entry) : Prop where
  valid : e'.valid = true
  type : e'.type = e.type
  mac : e'.mac = e.mac
  rvid : e'.rvid = e.rvid
  unicast : e.mac.isMulticast = false → SameUnicast e e'
  multicast : e.mac.isMulticast = true → e'.mcPortmaskIndex = e.mcPortmaskIndex

def RoundTrip (l : Layout) (e : Entry) : Prop :=
  ∀ e₀, Same l e (fillL2Entry l (fillL2Row l e) e₀) ∧
    lookupKey l (fillL2Row l e) e₀ = l2HashSeed l e.mac.toU64 (e.rvid.setWidth 32)

/-- On the RTL838x the mask that finds a valid entry misses the lower bit of the age, and a next hop
keeps its VID where the route id is. The RTL839x reads nine bits of a route id. The RTL930x writes
no relay VID of a multicast entry, and reads `block_sa` one bit below where it writes it. -/
def Kept : Layout → Entry → Prop
  | .rtl838x, e => e.mac.isMulticast = false →
      ¬ (e.age.toNat < 2 ∧ e.blockDa = false ∧ e.blockSa = false ∧ e.nextHop = false ∧
        e.isStatic = false) ∧
      (e.nextHop = true → (e.vid &&& ~~~e.nhRouteId) &&& 0x1ff = 0)
  | .rtl839x, e => e.mac.isMulticast = false → e.nextHop = true → e.nhRouteId.toNat < 2 ^ 9
  | .rtl930x, e => if e.mac.isMulticast then e.rvid = 0 else e.blockSa = false

theorem toU64_above {mac : Mac} {i : Nat} (hi : 48 ≤ i) : mac.toU64.getLsbD i = false := by
  simp (disch := omega) only [Mac.toU64, getLsbD_or, put_above, Bool.or_self]

theorem getLsbD_keyMask {i : Nat} (hi : i < 64) :
    (0x0fffffffffffffff : BitVec 64).getLsbD i = decide (i < 60) := by
  revert hi i
  decide

/-- The searches do not lose a bit of a seed. -/
theorem seed_and_mask {mac : Mac} {rvid : BitVec 16} (h : rvid.toNat < 2 ^ 12) :
    rtl839xL2HashSeed mac.toU64 (rvid.setWidth 32) &&& 0x0fffffffffffffff =
      rtl839xL2HashSeed mac.toU64 (rvid.setWidth 32) := by
  refine eq_of_getLsbD_eq fun i hi => ?_
  rw [getLsbD_and, getLsbD_keyMask hi]
  by_cases hi60 : i < 60
  · simp [hi60]
  · have hvid : rvid.getLsbD (i - 48) = false := getLsbD_of_toNat_lt h (by omega)
    rw [rtl839xL2HashSeed, getLsbD_or, toU64_above (by omega)]
    simp [hvid]

/-! ## RTL838x -/

section Rtl838x

variable {e : Entry}

section

variable (h : Encodable .rtl838x e)

include h

/-- The words with the address. -/
theorem rtl838x_words :
    (rtl838xFillL2Row e).r1 = get 32 e.mac.toU64 20 32 |||
        (if e.mac.isMulticast then 0 else
          flag 32 e.blockDa 30 ||| flag 32 e.blockSa 31 ||| flag 32 e.suspended 29 |||
            flag 32 e.nextHop 28) ∧
      (rtl838xFillL2Row e).r2 = put 32 e.mac.toU64 12 20 ||| put 32 e.rvid 0 12 := by
  obtain ⟨hip, hip6⟩ := h.noIp
  cases hmc : e.mac.isMulticast with
  | true => simp [rtl838xFillL2Row, h.valid, hip, hip6, hmc]
  | false => simp [rtl838xFillL2Row, h.valid, hip, hip6, hmc, BitVec.or_assoc]

theorem rtl838x_r1_at {i : Nat} (hi : i < 28) :
    (rtl838xFillL2Row e).r1.getLsbD i = e.mac.toU64.getLsbD (20 + i) := by
  have hlt : i < 32 := by omega
  rw [(rtl838x_words h).1, getLsbD_or, getLsbD_get]
  split
  · simp [hlt]
  · simp (disch := omega) only [getLsbD_or, flag_ne, Bool.or_false]
    simp [hlt]

theorem rtl838x_r2_at {i : Nat} (hi : 12 ≤ i) (hi' : i < 32) :
    (rtl838xFillL2Row e).r2.getLsbD i = e.mac.toU64.getLsbD (i - 12) := by
  rw [(rtl838x_words h).2, getLsbD_or, put_at hi' hi (by omega), put_above (by omega)]
  simp

theorem rtl838x_r2_low {i : Nat} (hi : i < 12) :
    (rtl838xFillL2Row e).r2.getLsbD i = e.rvid.getLsbD i := by
  rw [(rtl838x_words h).2, getLsbD_or, put_below hi, put_at (by omega) (Nat.zero_le i)
    (by omega)]
  simp

theorem rtl838x_rvid :
    get 16 (rtl838xFillL2Row e).r2 0 12 = e.rvid := by
  refine get_eq h.rvid fun i hi => ?_
  rw [Nat.zero_add]
  exact rtl838x_r2_low h hi

theorem rtl838x_m3 :
    put 8 (rtl838xFillL2Row e).r1 4 4 ||| get 8 (rtl838xFillL2Row e).r2 28 8 = e.mac.m3 := by
  refine eq_of_getLsbD_eq fun i hi => ?_
  by_cases hi4 : i < 4
  · have hsub : 28 + i - 12 - 16 = i := by omega
    rw [getLsbD_or, put_below hi4, getLsbD_get, rtl838x_r2_at h (by omega) (by omega)]
    simp (disch := omega) only [Mac.toU64, getLsbD_or, put_below, put_above, put_at,
      Bool.or_false, Bool.false_or, hsub]
    simp [hi]
  · have hsub : 20 + (i - 4) - 16 = i := by omega
    rw [getLsbD_or, get_above (by omega), put_at hi (by omega) (by omega),
      rtl838x_r1_at h (by omega)]
    simp (disch := omega) only [Mac.toU64, getLsbD_or, put_below, put_above, put_at,
      Bool.or_false, Bool.false_or, hsub]

theorem rtl838x_mac :
    (⟨get 8 (rtl838xFillL2Row e).r1 20 8, get 8 (rtl838xFillL2Row e).r1 12 8,
      get 8 (rtl838xFillL2Row e).r1 4 8,
      put 8 (rtl838xFillL2Row e).r1 4 4 ||| get 8 (rtl838xFillL2Row e).r2 28 8,
      get 8 (rtl838xFillL2Row e).r2 20 8, get 8 (rtl838xFillL2Row e).r2 12 8⟩ : Mac) =
        e.mac := by
  rw [rtl838x_m3 h]
  -- the upper bytes lie on the second word, the lower ones on the third
  have hupper : ∀ {x : BitVec 8} {lo : Nat}, lo ≤ 20 →
      (∀ i < 8, e.mac.toU64.getLsbD (20 + (lo + i)) = x.getLsbD i) →
        get 8 (rtl838xFillL2Row e).r1 lo 8 = x := by
    intro x lo hlo hx
    refine get_eq (isLt _) fun i hi => ?_
    rw [rtl838x_r1_at h (by omega), hx i hi]
  have hlower : ∀ {x : BitVec 8} {lo : Nat}, 12 ≤ lo → lo ≤ 24 →
      (∀ i < 8, e.mac.toU64.getLsbD (lo + i - 12) = x.getLsbD i) →
        get 8 (rtl838xFillL2Row e).r2 lo 8 = x := by
    intro x lo hlo hlo' hx
    refine get_eq (isLt _) fun i hi => ?_
    rw [rtl838x_r2_at h (by omega) (by omega), hx i hi]
  congr 1
  · refine hupper (by decide) fun i hi => ?_
    have hsub : 20 + (20 + i) - 40 = i := by omega
    simp (disch := omega) only [Mac.toU64, getLsbD_or, put_above, put_at,
      Bool.or_false, hsub]
  · refine hupper (by decide) fun i hi => ?_
    have hsub : 20 + (12 + i) - 32 = i := by omega
    simp (disch := omega) only [Mac.toU64, getLsbD_or, put_below, put_above, put_at,
      Bool.or_false, Bool.false_or, hsub]
  · refine hupper (by decide) fun i hi => ?_
    have hsub : 20 + (4 + i) - 24 = i := by omega
    simp (disch := omega) only [Mac.toU64, getLsbD_or, put_below, put_above, put_at,
      Bool.or_false, Bool.false_or, hsub]
  · refine hlower (by decide) (by decide) fun i hi => ?_
    have hsub : 20 + i - 12 - 8 = i := by omega
    simp (disch := omega) only [Mac.toU64, getLsbD_or, put_below, put_above, put_at,
      Bool.or_false, Bool.false_or, hsub]
  · refine hlower (by decide) (by decide) fun i hi => ?_
    have hsub : 12 + i - 12 - 0 = i := by omega
    simp (disch := omega) only [Mac.toU64, getLsbD_or, put_below, put_at,
      Bool.false_or, hsub]

/-- The two words, less the flags, are the seed. -/
theorem rtl838x_key :
    rtl838xKey (rtl838xFillL2Row e) &&& 0x0fffffffffffffff =
      rtl838xL2HashSeed e.mac.toU64 (e.rvid.setWidth 32) := by
  refine eq_of_getLsbD_eq fun i hi => ?_
  rw [getLsbD_and, getLsbD_keyMask hi, rtl838xKey, rtl838xL2HashSeed]
  simp only [getLsbD_or, getLsbD_shiftLeft, getLsbD_setWidth, hi,
    decide_true, Bool.true_and]
  rcases Nat.lt_or_ge i 12 with hi12 | hi12
  · have h32 : i < 32 ∧ i < 60 := by omega
    simp only [hi12, h32, rtl838x_r2_low h hi12, decide_true, Bool.not_true, Bool.false_and,
      Bool.false_or, Bool.true_and, Bool.and_true]
  have hrvid : e.rvid.getLsbD i = false := getLsbD_of_toNat_lt h.rvid hi12
  have hi12' : ¬ i < 12 := Nat.not_lt.mpr hi12
  rcases Nat.lt_or_ge i 32 with hi32 | hi32
  · have h60 : i < 60 := by omega
    simp only [hi12', hi32, h60, hrvid, rtl838x_r2_at h hi12 hi32, decide_true, decide_false,
      Bool.not_true, Bool.not_false, Bool.false_and, Bool.false_or, Bool.true_and, Bool.and_true,
      Bool.and_false, Bool.or_false]
  have hr2 : (rtl838xFillL2Row e).r2.getLsbD i = false := getLsbD_of_ge _ i hi32
  have hi32' : ¬ i < 32 := Nat.not_lt.mpr hi32
  rcases Nat.lt_or_ge i 60 with hi60 | hi60
  · have hlt : i - 32 < 28 ∧ i - 32 < 64 := by omega
    have hsub : 20 + (i - 32) = i - 12 := by omega
    simp only [hi12', hi32', hi60, hlt, hrvid, hr2, rtl838x_r1_at h hlt.1, hsub, decide_true,
      decide_false, Bool.not_false, Bool.true_and, Bool.and_true, Bool.and_false, Bool.or_false]
  · have hi60' : ¬ i < 60 := Nat.not_lt.mpr hi60
    simp only [hi60', hrvid, toU64_above (show 48 ≤ i - 12 by omega), decide_false,
      Bool.and_false, Bool.or_false]

section

variable (hmc : e.mac.isMulticast = false)

include hmc

/-- The first word of a unicast entry. -/
theorem rtl838x_r0 :
    (rtl838xFillL2Row e).r0 = flag 32 e.isStatic 19 ||| put 32 e.port 12 5 ||| put 32 e.vid 0 12 |||
      (if e.nextHop then flag 32 e.nhVlanTarget 9 ||| put 32 e.nhRouteId 0 9 else 0) |||
        put 32 e.age 17 2 := by
  obtain ⟨hip, hip6⟩ := h.noIp
  have hport : put 32 e.port 12 6 = put 32 e.port 12 5 := put_short h.port (by decide) 12
  have hvid : put 32 e.vid 0 16 = put 32 e.vid 0 12 := put_short h.vid (by decide) 0
  simp [rtl838xFillL2Row, h.valid, hip, hip6, hmc, hport, hvid, flag]

theorem rtl838x_r0_flags :
    (rtl838xFillL2Row e).r0.getLsbD 22 = false ∧ (rtl838xFillL2Row e).r0.getLsbD 21 = false ∧
      (rtl838xFillL2Row e).r0.getLsbD 19 = e.isStatic := by
  rw [rtl838x_r0 h hmc]
  split
  · simp (disch := omega) only [getLsbD_or, put_above, flag_ne, flag_at, Bool.or_false,
      Bool.or_self, and_self]
  · simp (disch := omega) only [getLsbD_or, put_above, flag_ne, flag_at,
      ofNat_eq_ofNat, getLsbD_zero, Bool.or_false, Bool.or_self, and_self]

theorem rtl838x_r1_flags :
    (rtl838xFillL2Row e).r1.getLsbD 28 = e.nextHop ∧
      (rtl838xFillL2Row e).r1.getLsbD 29 = e.suspended ∧
      (rtl838xFillL2Row e).r1.getLsbD 30 = e.blockDa ∧
      (rtl838xFillL2Row e).r1.getLsbD 31 = e.blockSa := by
  have hmac : ∀ i, 28 ≤ i → (get 32 e.mac.toU64 20 32).getLsbD i = false := by
    intro i hi
    rw [getLsbD_get, toU64_above (by omega)]
    simp
  rw [(rtl838x_words h).1, hmc]
  simp (disch := omega) only [getLsbD_or, hmac, flag_ne, flag_at, false_eq_true,
    if_false, Bool.or_false, Bool.false_or, and_self]

theorem rtl838x_port :
    get 8 (rtl838xFillL2Row e).r0 12 5 = e.port := by
  refine get_eq h.port fun i hi => ?_
  have hi : i < 5 := hi
  rw [rtl838x_r0 h hmc]
  split
  · simp (disch := omega) only [getLsbD_or, put_below, put_above, put_at, flag_ne,
      Nat.add_sub_cancel_left, Bool.or_false, Bool.false_or, Bool.or_self]
  · simp (disch := omega) only [getLsbD_or, put_below, put_above, put_at, flag_ne,
      ofNat_eq_ofNat, getLsbD_zero, Nat.add_sub_cancel_left, Bool.or_false,
      Bool.false_or]

theorem rtl838x_age :
    get 32 (rtl838xFillL2Row e).r0 17 2 = e.age := by
  refine get_eq h.age fun i hi => ?_
  rw [rtl838x_r0 h hmc]
  split
  · simp (disch := omega) only [getLsbD_or, put_above, put_at, flag_ne,
      Nat.add_sub_cancel_left, Bool.false_or, Bool.or_self]
  · simp (disch := omega) only [getLsbD_or, put_above, put_at, flag_ne,
      ofNat_eq_ofNat, getLsbD_zero, Nat.add_sub_cancel_left, Bool.false_or,
      Bool.or_self]

theorem rtl838x_vid (hnh : e.nextHop = false) : get 16 (rtl838xFillL2Row e).r0 0 12 = e.vid := by
  refine get_eq h.vid fun i hi => ?_
  rw [rtl838x_r0 h hmc, hnh]
  simp (disch := omega) only [getLsbD_or, put_below, put_at, flag_ne, false_eq_true,
    if_false, ofNat_eq_ofNat, getLsbD_zero, Nat.add_sub_cancel_left, Bool.or_false,
    Bool.false_or]

end

end

theorem getLsbD_routeMask {i : Nat} : (0x1ff : BitVec 16).getLsbD i = decide (i < 9) := by
  by_cases hi : i < 16
  · revert hi i
    decide
  · rw [getLsbD_of_ge _ i (Nat.not_lt.mp hi)]
    simp
    omega

section

variable (h : Encodable .rtl838x e)

include h

section

variable (hmc : e.mac.isMulticast = false)

include hmc

/-- The VID lies on the route id. -/
theorem rtl838x_nhRouteId_iff (hnh : e.nextHop = true) :
    get 16 (rtl838xFillL2Row e).r0 0 9 = e.nhRouteId ↔
      (e.vid &&& ~~~e.nhRouteId) &&& 0x1ff = 0 := by
  have hbit : ∀ i < 9, (rtl838xFillL2Row e).r0.getLsbD i =
      (e.vid.getLsbD i || e.nhRouteId.getLsbD i) := by
    intro i hi
    rw [rtl838x_r0 h hmc, hnh]
    simp (disch := omega) only [getLsbD_or, put_below, put_at, flag_ne, if_true,
      Nat.sub_zero, Bool.or_false, Bool.false_or]
  rw [and_eq_zero_iff]
  constructor
  · intro heq i hi
    rw [getLsbD_routeMask, decide_eq_true_eq] at hi
    have hread : (get 16 (rtl838xFillL2Row e).r0 0 9).getLsbD i = e.nhRouteId.getLsbD i := by
      rw [heq]
    rw [getLsbD_get, Nat.zero_add, hbit i hi] at hread
    have hi16 : i < 16 := by omega
    rw [getLsbD_and, getLsbD_not]
    cases hv : e.vid.getLsbD i with
    | false => rfl
    | true => simpa [hi, hi16, hv] using hread
  · intro hmask
    refine get_eq h.nhRouteId fun i hi => ?_
    have hi : i < 9 := hi
    have hi16 : i < 16 := by omega
    have hclear := hmask i (by rw [getLsbD_routeMask, decide_eq_true_eq]; exact hi)
    rw [getLsbD_and, getLsbD_not] at hclear
    rw [Nat.zero_add, hbit i hi]
    cases hv : e.vid.getLsbD i with
    | false => rfl
    | true => simpa [hi16, hv] using hclear

/-- The mask of the reader has one of the two bits of the age. -/
theorem rtl838x_hidden_iff :
    (rtl838xFillL2Row e).r0 &&& 0x007c0000 = 0 ∧ (rtl838xFillL2Row e).r1 &&& 0xd0000000 = 0 ↔
      e.age.toNat < 2 ∧ e.blockDa = false ∧ e.blockSa = false ∧ e.nextHop = false ∧
        e.isStatic = false := by
  obtain ⟨-, -, h19⟩ := rtl838x_r0_flags h hmc
  obtain ⟨h28, h29, h30, h31⟩ := rtl838x_r1_flags h hmc
  rw [and_eq_zero_iff, and_eq_zero_iff]
  constructor
  · rintro ⟨hr0, hr1⟩
    refine ⟨?_, ?_, ?_, ?_, ?_⟩
    · have hage : e.age = get 32 (rtl838xFillL2Row e).r0 17 1 := by
        refine (eq_of_getLsbD_eq fun i hi => ?_).symm
        rw [← rtl838x_age h hmc, getLsbD_get, getLsbD_get]
        by_cases hi1 : i = 1
        · subst hi1
          rw [hr0 (17 + 1) (by decide)]
          rfl
        · simp [show i < 1 ↔ i < 2 by omega]
      rw [hage]
      exact get_lt _ 17 1
    · rw [← h30]
      exact hr1 30 (by decide)
    · rw [← h31]
      exact hr1 31 (by decide)
    · rw [← h28]
      exact hr1 28 (by decide)
    · rw [← h19]
      exact hr0 19 (by decide)
  · rintro ⟨hage, hda, hsa, hnh, hstatic⟩
    refine ⟨fun i hi => ?_, fun i hi => ?_⟩
    · have hmask : ∀ i < 32, (0x007c0000 : BitVec 32).getLsbD i = true → 18 ≤ i := by decide
      have hlow := hmask i (lt_of_getLsbD hi) hi
      have hshort : put 32 e.age 17 2 = put 32 e.age 17 1 := put_short hage (by decide) 17
      rw [rtl838x_r0 h hmc, hnh, hstatic, hshort]
      simp (disch := omega) only [getLsbD_or, put_above, flag_off, false_eq_true,
        if_false, ofNat_eq_ofNat, getLsbD_zero, Bool.or_self]
    · have hmask : ∀ i < 32, (0xd0000000 : BitVec 32).getLsbD i = true →
          i = 28 ∨ i = 30 ∨ i = 31 := by decide
      rcases hmask i (lt_of_getLsbD hi) hi with rfl | rfl | rfl
      · rw [h28, hnh]
      · rw [h30, hda]
      · rw [h31, hsa]

/-- What a unicast row is read as. -/
theorem rtl838x_read_unicast (hshown : ¬ (e.age.toNat < 2 ∧ e.blockDa = false ∧ e.blockSa = false ∧ e.nextHop = false ∧
      e.isStatic = false)) (e₀ : Entry) : rtl838xFillL2Entry (rtl838xFillL2Row e) e₀ =
      { e₀ with
        valid := true, isIpMc := false, isIpv6Mc := false, mac := e.mac, nextHop := e.nextHop
        rvid := e.rvid, type := .unicast, isStatic := e.isStatic, port := e.port
        blockDa := e.blockDa, blockSa := e.blockSa, suspended := e.suspended, age := e.age
        nhVlanTarget :=
          if e.nextHop then (rtl838xFillL2Row e).r0.getLsbD 9 else e₀.nhVlanTarget
        nhRouteId := if e.nextHop then get 16 (rtl838xFillL2Row e).r0 0 9 else e₀.nhRouteId
        vid := if e.nextHop then e.rvid else e.vid } := by
  rw [← rtl838x_hidden_iff h hmc] at hshown
  obtain ⟨h22, h21, h19⟩ := rtl838x_r0_flags h hmc
  obtain ⟨h28, h29, h30, h31⟩ := rtl838x_r1_flags h hmc
  cases hnh : e.nextHop with
  | true =>
    simp only [rtl838xFillL2Entry, h22, h21, h19, h28, h29, h30, h31, rtl838x_mac h,
      rtl838x_rvid h, rtl838x_port h hmc, rtl838x_age h hmc, hshown, hmc, hnh,
      Bool.not_false, Bool.and_self, false_eq_true, if_false, if_true]
  | false =>
    simp only [rtl838xFillL2Entry, h22, h21, h19, h28, h29, h30, h31, rtl838x_mac h,
      rtl838x_rvid h, rtl838x_port h hmc, rtl838x_age h hmc, hshown, rtl838x_vid h hmc hnh,
      hmc, hnh, Bool.not_false, Bool.and_self, false_eq_true, if_false, if_true]

/-- An entry that only has an age of one is read as none. -/
theorem rtl838x_read_hidden (hhidden : e.age.toNat < 2 ∧ e.blockDa = false ∧ e.blockSa = false ∧ e.nextHop = false ∧
      e.isStatic = false) (e₀ : Entry) :
    (rtl838xFillL2Entry (rtl838xFillL2Row e) e₀).valid = false := by
  obtain ⟨h22, h21, h19⟩ := rtl838x_r0_flags h hmc
  have h28 : (rtl838xFillL2Row e).r1.getLsbD 28 = false := by
    rw [(rtl838x_r1_flags h hmc).1]
    exact hhidden.2.2.2.1
  rw [← rtl838x_hidden_iff h hmc] at hhidden
  simp only [rtl838xFillL2Entry, h22, h21, h28, rtl838x_mac h, hmc, hhidden, Bool.not_false,
    Bool.and_self, false_eq_true, if_false, if_true, and_self]

end

/-- What a multicast row is read as. -/
theorem rtl838x_read_multicast (hmc : e.mac.isMulticast = true)
    (e₀ : Entry) : rtl838xFillL2Entry (rtl838xFillL2Row e) e₀ =
      { e₀ with
        valid := true, isIpMc := false, isIpv6Mc := false, mac := e.mac, rvid := e.rvid
        vid := e.vid, type := .multicast, mcPortmaskIndex := e.mcPortmaskIndex } := by
  obtain ⟨hip, hip6⟩ := h.noIp
  have hr0 : (rtl838xFillL2Row e).r0 = put 32 e.mcPortmaskIndex 12 9 ||| put 32 e.vid 0 12 := by
    simp [rtl838xFillL2Row, h.valid, hip, hip6, hmc, flag]
  have hflags : (rtl838xFillL2Row e).r0.getLsbD 22 = false ∧
      (rtl838xFillL2Row e).r0.getLsbD 21 = false := by
    rw [hr0]
    simp (disch := omega) only [getLsbD_or, put_above, Bool.or_self, and_self]
  have hindex : get 16 (rtl838xFillL2Row e).r0 12 9 = e.mcPortmaskIndex := by
    refine get_eq h.mcPortmaskIndex fun i hi => ?_
    have hi : i < 9 := hi
    rw [hr0]
    simp (disch := omega) only [getLsbD_or, put_above, put_at, Nat.add_sub_cancel_left,
      Bool.or_false]
  have hvid : get 16 (rtl838xFillL2Row e).r0 0 12 = e.vid := by
    refine get_eq h.vid fun i hi => ?_
    rw [hr0]
    simp (disch := omega) only [getLsbD_or, put_below, put_at, Nat.add_sub_cancel_left,
      Bool.false_or]
  simp only [rtl838xFillL2Entry, hflags, hindex, hvid, rtl838x_mac h, rtl838x_rvid h, hmc,
    Bool.not_true, Bool.not_false, Bool.and_self, false_eq_true, if_false, if_true]

theorem rtl838x_roundTrip_iff : RoundTrip .rtl838x e ↔
    (e.mac.isMulticast = false →
      ¬ (e.age.toNat < 2 ∧ e.blockDa = false ∧ e.blockSa = false ∧ e.nextHop = false ∧
        e.isStatic = false) ∧
      (e.nextHop = true → (e.vid &&& ~~~e.nhRouteId) &&& 0x1ff = 0)) := by
  have hkey : ∀ e₀, (rtl838xFillL2Entry (rtl838xFillL2Row e) e₀).valid = true →
      lookupKey .rtl838x (rtl838xFillL2Row e) e₀ =
        rtl838xL2HashSeed e.mac.toU64 (e.rvid.setWidth 32) := by
    intro e₀ hvalid
    rw [lookupKey, fillL2Entry, ← rtl838x_key h]
    simp [hvalid]
  cases hmc : e.mac.isMulticast with
  | true =>
    refine ⟨fun _ hfalse => by simp at hfalse, fun _ e₀ => ?_⟩
    have hread := rtl838x_read_multicast h hmc e₀
    refine ⟨?_, hkey e₀ (by rw [hread])⟩
    rw [fillL2Row, fillL2Entry, hread]
    refine ⟨rfl, ?_, rfl, rfl, by simp [hmc], fun _ => rfl⟩
    rw [h.type, hmc]
    rfl
  | false =>
    constructor
    · intro hround _
      have hshown : ¬ (e.age.toNat < 2 ∧ e.blockDa = false ∧ e.blockSa = false ∧
          e.nextHop = false ∧ e.isStatic = false) := by
        intro hhidden
        have hvalid := (hround e).1.valid
        rw [fillL2Row, fillL2Entry, rtl838x_read_hidden h hmc hhidden] at hvalid
        simp at hvalid
      refine ⟨hshown, fun hnh => ?_⟩
      have hid := ((hround e).1.unicast hmc).nhRouteId hnh
      rw [fillL2Row, fillL2Entry, rtl838x_read_unicast h hmc hshown] at hid
      simp only [hnh, if_true] at hid
      exact (rtl838x_nhRouteId_iff h hmc hnh).mp hid
    · intro hkept e₀
      obtain ⟨hshown, hid⟩ := hkept rfl
      have hread := rtl838x_read_unicast h hmc hshown e₀
      refine ⟨?_, hkey e₀ (by rw [hread])⟩
      rw [fillL2Row, fillL2Entry, hread]
      refine ⟨rfl, ?_, rfl, rfl, fun _ => ⟨rfl, rfl, rfl, rfl, rfl, rfl, rfl, ?_, ?_⟩,
        by simp [hmc]⟩
      · rw [h.type, hmc]
        rfl
      · intro hnh
        simp [hnh]
      · intro hnh
        simpa [hnh] using (rtl838x_nhRouteId_iff h hmc hnh).mpr (hid hnh)

end

end Rtl838x

/-! ## RTL839x -/

section Rtl839x

variable {e : Entry}

section

variable (h : Encodable .rtl839x e)

include h

section

variable (hmc : e.mac.isMulticast = false)

include hmc

/-- The last word of a unicast entry. -/
theorem rtl839x_r2 :
    (rtl839xFillL2Row e).r2 = flag 32 e.isStatic 18 ||| put 32 e.port 24 6 |||
      flag 32 e.blockDa 19 ||| flag 32 e.blockSa 20 ||| flag 32 e.suspended 17 |||
        put 32 e.age 21 2 |||
          (if e.nextHop then
            flag 32 true 16 ||| flag 32 e.nhVlanTarget 15 ||| put 32 e.nhRouteId 4 11
          else put 32 e.vid 4 12) := by
  obtain ⟨hip, hip6⟩ := h.noIp
  have hport : put 32 e.port 24 8 = put 32 e.port 24 6 := put_short h.port (by decide) 24
  have hage : put 32 e.age 21 32 = put 32 e.age 21 2 := put_short h.age (by decide) 21
  have hvid : put 32 e.vid 4 16 = put 32 e.vid 4 12 := put_short h.vid (by decide) 4
  simp [rtl839xFillL2Row, h.valid, hip, hip6, hmc, hport, hage, hvid, flag]

theorem rtl839x_flags :
    (rtl839xFillL2Row e).r2.getLsbD 31 = false ∧ (rtl839xFillL2Row e).r2.getLsbD 30 = false ∧
      (rtl839xFillL2Row e).r2.getLsbD 16 = e.nextHop ∧
      (rtl839xFillL2Row e).r2.getLsbD 17 = e.suspended ∧
      (rtl839xFillL2Row e).r2.getLsbD 18 = e.isStatic ∧
      (rtl839xFillL2Row e).r2.getLsbD 19 = e.blockDa ∧
      (rtl839xFillL2Row e).r2.getLsbD 20 = e.blockSa := by
  rw [rtl839x_r2 h hmc]
  cases e.nextHop with
  | true =>
    simp (disch := omega) only [getLsbD_or, put_below, put_above, flag_ne, flag_at, if_true,
      Bool.or_false, Bool.false_or, Bool.or_self, and_self]
  | false =>
    simp (disch := omega) only [getLsbD_or, put_below, put_above, flag_ne, flag_at,
      false_eq_true, if_false, Bool.or_false, Bool.false_or, Bool.or_self, and_self]

theorem rtl839x_port :
    get 8 (rtl839xFillL2Row e).r2 24 6 = e.port := by
  refine get_eq h.port fun i hi => ?_
  rw [rtl839x_r2 h hmc]
  split
  · simp (disch := omega) only [getLsbD_or, put_above, put_at, flag_ne,
      Nat.add_sub_cancel_left, Bool.or_false, Bool.false_or]
  · simp (disch := omega) only [getLsbD_or, put_above, put_at, flag_ne,
      Nat.add_sub_cancel_left, Bool.or_false, Bool.false_or]

theorem rtl839x_age :
    get 32 (rtl839xFillL2Row e).r2 21 2 = e.age := by
  refine get_eq h.age fun i hi => ?_
  rw [rtl839x_r2 h hmc]
  split
  · simp (disch := omega) only [getLsbD_or, put_below, put_above, put_at, flag_ne,
      Nat.add_sub_cancel_left, Bool.or_false, Bool.false_or]
  · simp (disch := omega) only [getLsbD_or, put_below, put_above, put_at, flag_ne,
      Nat.add_sub_cancel_left, Bool.or_false, Bool.false_or]

theorem rtl839x_vid (hnh : e.nextHop = false) : get 16 (rtl839xFillL2Row e).r2 4 12 = e.vid := by
  refine get_eq h.vid fun i hi => ?_
  rw [rtl839x_r2 h hmc, hnh]
  simp (disch := omega) only [getLsbD_or, put_below, put_at, flag_ne, false_eq_true,
    if_false, Nat.add_sub_cancel_left, Bool.or_false, Bool.false_or]

/-- Nine of the eleven bits of a route id are read. -/
theorem rtl839x_nhRouteId_iff (hnh : e.nextHop = true) :
    get 16 (rtl839xFillL2Row e).r2 4 9 = e.nhRouteId ↔ e.nhRouteId.toNat < 2 ^ 9 := by
  constructor
  · intro heq
    rw [← heq]
    exact get_lt _ 4 9
  · intro hlt
    refine get_eq hlt fun i hi => ?_
    rw [rtl839x_r2 h hmc, hnh]
    simp (disch := omega) only [getLsbD_or, put_below, put_at, flag_ne, if_true,
      Nat.add_sub_cancel_left, Bool.or_false, Bool.false_or]

/-- The mask of the reader has the age, the block flags, the next hop and the static flag. -/
theorem rtl839x_shown :
    (rtl839xFillL2Row e).r2 &&& 0xc0fd0000 ≠ 0 := by
  intro hzero
  rw [and_eq_zero_iff] at hzero
  obtain ⟨-, -, h16, -, h18, h19, h20⟩ := rtl839x_flags h hmc
  have hage : e.age = 0 := by
    rw [← rtl839x_age h hmc]
    refine get_eq (by decide) fun i hi => ?_
    rw [hzero (21 + i) (by revert hi i; decide)]
    simp
  have hnh : e.nextHop = false := by rw [← h16]; exact hzero 16 (by decide)
  have hstatic : e.isStatic = false := by rw [← h18]; exact hzero 18 (by decide)
  have hda : e.blockDa = false := by rw [← h19]; exact hzero 19 (by decide)
  have hsa : e.blockSa = false := by rw [← h20]; exact hzero 20 (by decide)
  have hshown := h.shown (by decide) hmc
  simp [hage, hnh, hstatic, hda, hsa] at hshown

end

theorem rtl839x_words :
    (rtl839xFillL2Row e).r0 = put 32 e.mac.m0 12 8 ||| put 32 e.mac.m1 4 8 |||
        get 32 e.mac.m2 4 8 ||| put 32 e.rvid 20 12 ∧
      (rtl839xFillL2Row e).r1 = put 32 e.mac.m2 28 8 ||| put 32 e.mac.m3 20 8 |||
        put 32 e.mac.m4 12 8 ||| put 32 e.mac.m5 4 8 := by
  obtain ⟨hip, hip6⟩ := h.noIp
  have hrvid : put 32 e.rvid 20 16 = put 32 e.rvid 20 12 := put_short h.rvid (by decide) 20
  cases hmc : e.mac.isMulticast with
  | true => simp [rtl839xFillL2Row, h.valid, hip, hip6, hmc, hrvid]
  | false => simp [rtl839xFillL2Row, h.valid, hip, hip6, hmc, hrvid]

theorem rtl839x_m2 :
    get 8 (rtl839xFillL2Row e).r1 28 8 ||| put 8 (rtl839xFillL2Row e).r0 4 8 = e.mac.m2 := by
  obtain ⟨hr0, hr1⟩ := rtl839x_words h
  rw [hr0, hr1]
  refine eq_of_getLsbD_eq fun i hi => ?_
  by_cases hi4 : i < 4
  · rw [getLsbD_or, put_below hi4, getLsbD_get]
    simp (disch := omega) only [getLsbD_or, put_above, put_at, Nat.add_sub_cancel_left,
      Bool.or_false]
    simp [hi]
  · have hget : (get 8 (put 32 e.mac.m2 28 8 ||| put 32 e.mac.m3 20 8 |||
        put 32 e.mac.m4 12 8 ||| put 32 e.mac.m5 4 8) 28 8).getLsbD i = false :=
      get_above (by omega)
    rw [getLsbD_or, hget, put_at hi (by omega) (by omega)]
    simp (disch := omega) only [getLsbD_or, put_below, getLsbD_get, Bool.or_false,
      Bool.false_or]
    have hadd : 4 + (i - 4) = i := by omega
    have hlt : i - 4 < 32 ∧ i - 4 < 8 := by omega
    simp [hadd, hlt]

theorem rtl839x_mac :
    (⟨get 8 (rtl839xFillL2Row e).r0 12 8, get 8 (rtl839xFillL2Row e).r0 4 8,
      get 8 (rtl839xFillL2Row e).r1 28 8 ||| put 8 (rtl839xFillL2Row e).r0 4 8,
      get 8 (rtl839xFillL2Row e).r1 20 8, get 8 (rtl839xFillL2Row e).r1 12 8,
      get 8 (rtl839xFillL2Row e).r1 4 8⟩ : Mac) = e.mac := by
  rw [rtl839x_m2 h]
  obtain ⟨hr0, hr1⟩ := rtl839x_words h
  rw [hr0, hr1]
  congr 1
  all_goals
    refine get_eq (isLt _) fun i hi => ?_
    simp (disch := omega) only [getLsbD_or, put_below, put_above, put_at, get_above,
      Nat.add_sub_cancel_left, Bool.or_false, Bool.false_or]

theorem rtl839x_rvid :
    get 16 (rtl839xFillL2Row e).r0 20 12 = e.rvid := by
  rw [(rtl839x_words h).1]
  refine get_eq h.rvid fun i hi => ?_
  simp (disch := omega) only [getLsbD_or, put_above, put_at, get_above,
    Nat.add_sub_cancel_left, Bool.false_or]

/-- What a unicast row is read as. -/
theorem rtl839x_read_unicast (hmc : e.mac.isMulticast = false)
    (e₀ : Entry) : rtl839xFillL2Entry (rtl839xFillL2Row e) e₀ =
      { e₀ with
        valid := true, isIpMc := false, isIpv6Mc := false, mac := e.mac, nextHop := e.nextHop
        rvid := e.rvid, type := .unicast, isStatic := e.isStatic, port := e.port
        blockDa := e.blockDa, blockSa := e.blockSa, suspended := e.suspended, age := e.age
        nhVlanTarget :=
          if e.nextHop then (rtl839xFillL2Row e).r2.getLsbD 15 else e₀.nhVlanTarget
        nhRouteId := if e.nextHop then get 16 (rtl839xFillL2Row e).r2 4 9 else e₀.nhRouteId
        vid := if e.nextHop then e.rvid else e.vid } := by
  obtain ⟨h31, h30, h16, h17, h18, h19, h20⟩ := rtl839x_flags h hmc
  cases hnh : e.nextHop with
  | true =>
    simp only [rtl839xFillL2Entry, h31, h30, h16, h17, h18, h19, h20, rtl839x_mac h,
      rtl839x_rvid h, rtl839x_port h hmc, rtl839x_age h hmc, rtl839x_shown h hmc, hmc, hnh,
      Bool.not_false, Bool.and_self, false_eq_true, if_false, if_true]
  | false =>
    simp only [rtl839xFillL2Entry, h31, h30, h16, h17, h18, h19, h20, rtl839x_mac h,
      rtl839x_rvid h, rtl839x_port h hmc, rtl839x_age h hmc, rtl839x_shown h hmc,
      rtl839x_vid h hmc hnh, hmc, hnh, Bool.not_false, Bool.and_self, false_eq_true,
      if_false, if_true]

/-- What a multicast row is read as. -/
theorem rtl839x_read_multicast (hmc : e.mac.isMulticast = true)
    (e₀ : Entry) : rtl839xFillL2Entry (rtl839xFillL2Row e) e₀ =
      { e₀ with
        valid := true, isIpMc := false, isIpv6Mc := false, mac := e.mac, rvid := e.rvid
        vid := e.rvid, type := .multicast, mcPortmaskIndex := e.mcPortmaskIndex } := by
  obtain ⟨hip, hip6⟩ := h.noIp
  have hr2 : (rtl839xFillL2Row e).r2 = put 32 e.mcPortmaskIndex 6 12 := by
    have hshort : put 32 e.mcPortmaskIndex 6 16 = put 32 e.mcPortmaskIndex 6 12 :=
      put_short h.mcPortmaskIndex (by decide) 6
    simp [rtl839xFillL2Row, h.valid, hip, hip6, hmc, hshort, flag]
  have hflags : (rtl839xFillL2Row e).r2.getLsbD 31 = false ∧
      (rtl839xFillL2Row e).r2.getLsbD 30 = false := by
    rw [hr2]
    simp (disch := omega) only [put_above, and_self]
  have hindex : get 16 (rtl839xFillL2Row e).r2 6 12 = e.mcPortmaskIndex := by
    refine get_eq h.mcPortmaskIndex fun i hi => ?_
    have hi : i < 12 := hi
    rw [hr2]
    simp (disch := omega) only [put_at, Nat.add_sub_cancel_left]
  simp only [rtl839xFillL2Entry, hflags, hindex, rtl839x_mac h, rtl839x_rvid h, hmc,
    Bool.not_true, Bool.not_false, Bool.and_self, false_eq_true, if_false, if_true]

theorem rtl839x_roundTrip_iff : RoundTrip .rtl839x e ↔
    (e.mac.isMulticast = false → e.nextHop = true → e.nhRouteId.toNat < 2 ^ 9) := by
  cases hmc : e.mac.isMulticast with
  | true =>
    refine ⟨fun _ hfalse => by simp at hfalse, fun _ e₀ => ?_⟩
    simp only [lookupKey, fillL2Row, fillL2Entry, l2HashSeed, rtl839x_read_multicast h hmc]
    refine ⟨⟨rfl, ?_, rfl, rfl, by simp [hmc], fun _ => rfl⟩, seed_and_mask h.rvid⟩
    rw [h.type, hmc]
    rfl
  | false =>
    constructor
    · intro hround _ hnh
      have hid := ((hround e).1.unicast hmc).nhRouteId hnh
      rw [fillL2Row, fillL2Entry, rtl839x_read_unicast h hmc] at hid
      simp only [hnh, if_true] at hid
      exact (rtl839x_nhRouteId_iff h hmc hnh).mp hid
    · intro hid e₀
      simp only [lookupKey, fillL2Row, fillL2Entry, l2HashSeed, rtl839x_read_unicast h hmc]
      refine ⟨⟨rfl, ?_, rfl, rfl, fun _ => ⟨rfl, rfl, rfl, rfl, rfl, rfl, rfl, ?_, ?_⟩,
        by simp [hmc]⟩, seed_and_mask h.rvid⟩
      · rw [h.type, hmc]
        rfl
      · intro hnh
        simp [hnh]
      · intro hnh
        simpa [hnh] using (rtl839x_nhRouteId_iff h hmc hnh).mpr (hid rfl hnh)

end

end Rtl839x

/-! ## RTL930x -/

section Rtl930x

variable {e : Entry}

section

variable (h : Encodable .rtl930x e)

include h

section

variable (hmc : e.mac.isMulticast = false)

include hmc

/-- The last word of a unicast entry. -/
theorem rtl930x_r2 :
    (rtl930xFillL2Row e).r2 = flag 32 true 31 ||| flag 32 e.nextHop 12 |||
      flag 32 e.isStatic 14 ||| put 32 e.port 20 6 ||| (put 32 e.stackDev 26 4 |||
        put 32 e.port 20 6) ||| flag 32 e.blockDa 15 ||| flag 32 e.blockSa 17 |||
          flag 32 e.suspended 13 ||| put 32 e.age 17 2 |||
            (if e.nextHop then put 32 e.nhRouteId 0 11 else put 32 e.vid 0 12) := by
  have htype : e.type = .unicast := by rw [h.type, hmc]; rfl
  have hport : put 32 e.port 20 10 = put 32 e.port 20 6 := put_short h.port (by decide) 20
  simp only [rtl930xFillL2Row, h.valid, htype, h.noTrunk, hport, Bool.not_true,
    false_eq_true, if_false, if_true]

theorem rtl930x_flags :
    (rtl930xFillL2Row e).r2.getLsbD 31 = true ∧ (rtl930xFillL2Row e).r2.getLsbD 30 = false ∧
      (rtl930xFillL2Row e).r2.getLsbD 12 = e.nextHop ∧
      (rtl930xFillL2Row e).r2.getLsbD 13 = e.suspended ∧
      (rtl930xFillL2Row e).r2.getLsbD 14 = e.isStatic ∧
      (rtl930xFillL2Row e).r2.getLsbD 15 = e.blockDa ∧
      (rtl930xFillL2Row e).r2.getLsbD 16 = false := by
  rw [rtl930x_r2 h hmc]
  split
  · simp (disch := omega) only [getLsbD_or, put_below, put_above, flag_ne, flag_at,
      Bool.or_false, Bool.false_or, Bool.or_self, and_self]
  · simp (disch := omega) only [getLsbD_or, put_below, put_above, flag_ne, flag_at,
      Bool.or_false, Bool.false_or, Bool.or_self, and_self]

theorem rtl930x_port :
    get 8 (rtl930xFillL2Row e).r2 20 6 = e.port := by
  refine get_eq h.port fun i hi => ?_
  rw [rtl930x_r2 h hmc]
  split
  · simp (disch := omega) only [getLsbD_or, put_below, put_above, put_at, flag_ne,
      Nat.add_sub_cancel_left, Bool.or_false, Bool.false_or, Bool.or_self]
  · simp (disch := omega) only [getLsbD_or, put_below, put_above, put_at, flag_ne,
      Nat.add_sub_cancel_left, Bool.or_false, Bool.false_or, Bool.or_self]

theorem rtl930x_age (hsa : e.blockSa = false) : get 32 (rtl930xFillL2Row e).r2 17 2 = e.age := by
  refine get_eq h.age fun i hi => ?_
  rw [rtl930x_r2 h hmc, hsa]
  split
  · simp (disch := omega) only [getLsbD_or, put_below, put_above, put_at, flag_ne, flag_off,
      Nat.add_sub_cancel_left, Bool.or_false, Bool.false_or]
  · simp (disch := omega) only [getLsbD_or, put_below, put_above, put_at, flag_ne, flag_off,
      Nat.add_sub_cancel_left, Bool.or_false, Bool.false_or]

theorem rtl930x_vid (hnh : e.nextHop = false) : get 16 (rtl930xFillL2Row e).r2 0 12 = e.vid := by
  refine get_eq h.vid fun i hi => ?_
  rw [rtl930x_r2 h hmc, hnh]
  simp (disch := omega) only [getLsbD_or, put_below, put_at, flag_ne, false_eq_true,
    if_false, Nat.add_sub_cancel_left, Bool.or_false, Bool.false_or]

theorem rtl930x_nhRouteId (hnh : e.nextHop = true) : get 16 (rtl930xFillL2Row e).r2 0 11 = e.nhRouteId := by
  refine get_eq h.nhRouteId fun i hi => ?_
  have hi : i < 11 := hi
  rw [rtl930x_r2 h hmc, hnh]
  simp (disch := omega) only [getLsbD_or, put_below, put_at, flag_ne, if_true,
    Nat.add_sub_cancel_left, Bool.or_false, Bool.false_or]

end

/-- The words of the address; the lower half of the second one has the relay VID of a unicast
entry. -/
theorem rtl930x_words :
    (rtl930xFillL2Row e).r0 = put 32 e.mac.m0 24 8 ||| put 32 e.mac.m1 16 8 |||
        put 32 e.mac.m2 8 8 ||| put 32 e.mac.m3 0 8 ∧
      (rtl930xFillL2Row e).r1 = put 32 e.mac.m4 24 8 ||| put 32 e.mac.m5 16 8 |||
        (if e.mac.isMulticast then 0 else put 32 e.rvid 0 12) := by
  cases hmc : e.mac.isMulticast with
  | true =>
    have htype : e.type ≠ .unicast := by simp [h.type, hmc]
    simp [rtl930xFillL2Row, h.valid, htype]
  | false =>
    have htype : e.type = .unicast := by simp [h.type, hmc]
    simp [rtl930xFillL2Row, h.valid, htype]

theorem rtl930x_mac :
    (⟨get 8 (rtl930xFillL2Row e).r0 24 8, get 8 (rtl930xFillL2Row e).r0 16 8,
      get 8 (rtl930xFillL2Row e).r0 8 8, get 8 (rtl930xFillL2Row e).r0 0 8,
      get 8 (rtl930xFillL2Row e).r1 24 8, get 8 (rtl930xFillL2Row e).r1 16 8⟩ : Mac) = e.mac := by
  obtain ⟨hr0, hr1⟩ := rtl930x_words h
  have hlow : ∀ i, 16 ≤ i →
      (if e.mac.isMulticast then 0 else put 32 e.rvid 0 12).getLsbD i = false := by
    intro i hi
    split
    · simp
    · exact put_above (by omega)
  rw [hr0, hr1]
  congr 1
  all_goals
    refine get_eq (isLt _) fun i hi => ?_
    simp (disch := omega) only [getLsbD_or, put_below, put_above, put_at, hlow,
      Nat.add_sub_cancel_left, Bool.or_false, Bool.false_or]

theorem rtl930x_rvid :
    get 16 (rtl930xFillL2Row e).r1 0 12 = if e.mac.isMulticast then 0 else e.rvid := by
  rw [(rtl930x_words h).2]
  split
  · refine get_eq (by decide) fun i hi => ?_
    simp (disch := omega) only [getLsbD_or, put_below, Bool.false_or]
    simp
  · refine get_eq h.rvid fun i hi => ?_
    simp (disch := omega) only [getLsbD_or, put_below, put_at, Bool.false_or,
      Nat.add_sub_cancel_left]

end

theorem get_and_mask (r : BitVec 32) : get 8 r 20 10 &&& 0x3f = get 8 r 20 6 := by
  refine eq_of_getLsbD_eq fun i hi => ?_
  have hmask : (0x3f : BitVec 8).getLsbD i = decide (i < 6) := by
    revert hi i
    decide
  rw [getLsbD_and, getLsbD_get, getLsbD_get, hmask]
  by_cases hi6 : i < 6
  · simp [hi, hi6, show i < 10 by omega]
  · simp [hi6]

section

variable (h : Encodable .rtl930x e)

include h

/-- What a unicast row is read as. -/
theorem rtl930x_read_unicast (hmc : e.mac.isMulticast = false)
    (e₀ : Entry) : rtl930xFillL2Entry (rtl930xFillL2Row e) e₀ =
      { e₀ with
        valid := true, isIpMc := false, isIpv6Mc := false, mac := e.mac, nextHop := e.nextHop
        rvid := e.rvid, type := .unicast, isStatic := e.isStatic, isTrunk := false
        stackDev := (get 8 (rtl930xFillL2Row e).r2 20 10 >>> 6) &&& 0xf, port := e.port
        blockDa := e.blockDa, blockSa := false, suspended := e.suspended
        age := get 32 (rtl930xFillL2Row e).r2 17 2
        nhRouteId := if e.nextHop then e.nhRouteId else 0
        vid := if e.nextHop then 0 else e.vid } := by
  obtain ⟨h31, h30, h12, h13, h14, h15, h16⟩ := rtl930x_flags h hmc
  have hrvid : get 16 (rtl930xFillL2Row e).r1 0 12 = e.rvid := by
    rw [rtl930x_rvid h, hmc]
    rfl
  have hport : get 8 (rtl930xFillL2Row e).r2 20 10 &&& 0x3f = e.port := by
    rw [get_and_mask, rtl930x_port h hmc]
  cases hnh : e.nextHop with
  | true =>
    simp only [rtl930xFillL2Entry, h31, h30, h12, h13, h14, h15, h16, hrvid, hport,
      rtl930x_mac h, hmc, hnh, rtl930x_nhRouteId h hmc hnh, Bool.not_true, Bool.not_false,
      false_eq_true, if_false, if_true]
  | false =>
    simp only [rtl930xFillL2Entry, h31, h30, h12, h13, h14, h15, h16, hrvid, hport,
      rtl930x_mac h, hmc, hnh, rtl930x_vid h hmc hnh, Bool.not_true, Bool.not_false,
      false_eq_true, if_false, if_true]

/-- The last word of a multicast entry. -/
theorem rtl930x_r2_multicast (hmc : e.mac.isMulticast = true) :
    (rtl930xFillL2Row e).r2 = flag 32 true 31 ||| flag 32 e.nextHop 12 |||
      put 32 e.mcPortmaskIndex 16 10 ||| put 32 e.mcMacIndex 0 11 := by
  have htype : e.type ≠ .unicast := by simp [h.type, hmc]
  simp only [rtl930xFillL2Row, h.valid, htype, Bool.not_true, false_eq_true, if_false]

/-- What a multicast row is read as. -/
theorem rtl930x_read_multicast (hmc : e.mac.isMulticast = true)
    (e₀ : Entry) : rtl930xFillL2Entry (rtl930xFillL2Row e) e₀ =
      { e₀ with
        valid := true, isIpMc := false, isIpv6Mc := false, mac := e.mac, nextHop := e.nextHop
        rvid := 0, type := .multicast, mcPortmaskIndex := e.mcPortmaskIndex } := by
  have hflags : (rtl930xFillL2Row e).r2.getLsbD 31 = true ∧
      (rtl930xFillL2Row e).r2.getLsbD 12 = e.nextHop := by
    rw [rtl930x_r2_multicast h hmc]
    simp (disch := omega) only [getLsbD_or, put_below, put_above, flag_ne, flag_at,
      Bool.or_false, Bool.false_or, and_self]
  have hindex : get 16 (rtl930xFillL2Row e).r2 16 10 = e.mcPortmaskIndex := by
    refine get_eq h.mcPortmaskIndex fun i hi => ?_
    have hi : i < 10 := hi
    rw [rtl930x_r2_multicast h hmc]
    simp (disch := omega) only [getLsbD_or, put_above, put_at, flag_ne,
      Nat.add_sub_cancel_left, Bool.or_false, Bool.false_or]
  have hrvid : get 16 (rtl930xFillL2Row e).r1 0 12 = 0 := by
    rw [rtl930x_rvid h, hmc]
    rfl
  simp only [rtl930xFillL2Entry, hflags, hindex, hrvid, rtl930x_mac h, hmc, Bool.not_true,
    false_eq_true, if_false]

theorem rtl930x_roundTrip_iff : RoundTrip .rtl930x e ↔
    if e.mac.isMulticast then e.rvid = 0 else e.blockSa = false := by
  cases hmc : e.mac.isMulticast with
  | true =>
    rw [if_pos rfl]
    constructor
    · intro hround
      have hrvid := (hround e).1.rvid
      rw [fillL2Row, fillL2Entry, rtl930x_read_multicast h hmc] at hrvid
      exact hrvid.symm
    · intro hrvid e₀
      simp only [lookupKey, fillL2Row, fillL2Entry, l2HashSeed, rtl930x_read_multicast h hmc]
      refine ⟨⟨rfl, ?_, rfl, hrvid.symm, by simp [hmc], fun _ => rfl⟩, ?_⟩
      · rw [h.type, hmc]
        rfl
      · rw [← hrvid]
        exact seed_and_mask h.rvid
  | false =>
    rw [if_neg Bool.false_ne_true]
    constructor
    · intro hround
      have hsame := ((hround e).1.unicast hmc).blockSa
      rw [fillL2Row, fillL2Entry, rtl930x_read_unicast h hmc] at hsame
      exact hsame.symm
    · intro hsa e₀
      have hage := rtl930x_age h hmc hsa
      simp only [lookupKey, fillL2Row, fillL2Entry, l2HashSeed, rtl930x_read_unicast h hmc, hage]
      refine ⟨⟨rfl, ?_, rfl, rfl, fun _ => ⟨rfl, rfl, rfl, hsa.symm, rfl, rfl, rfl, ?_, ?_⟩,
        by simp [hmc]⟩, seed_and_mask h.rvid⟩
      · rw [h.type, hmc]
        rfl
      · intro hnh
        simp [hnh]
      · intro hnh
        simp [hnh]

end

end Rtl930x

/-- An entry comes back from its row, and its row has its key, if and only if no slip hits it. -/
theorem l2_row_iff {l : Layout} {e : Entry} (h : Encodable l e) : RoundTrip l e ↔ Kept l e := by
  cases l with
  | rtl838x => exact rtl838x_roundTrip_iff h
  | rtl839x => exact rtl839x_roundTrip_iff h
  | rtl930x => exact rtl930x_roundTrip_iff h

def host : Entry where
  mac := ⟨0x00, 0x1a, 0x2b, 0x3c, 0x4d, 0x5e⟩
  vid := 1
  rvid := 1
  port := 3
  type := .unicast
  valid := true
  isStatic := false
  isIpMc := false
  isIpv6Mc := false
  blockDa := false
  blockSa := false
  suspended := false
  nextHop := false
  isTrunk := false
  nhVlanTarget := false
  age := 3
  trunk := 0
  stackDev := 0
  mcPortmaskIndex := 0
  mcGip := 0
  mcMacIndex := 0
  nhRouteId := 0

theorem encodable_host (l : Layout) : Encodable l host := by
  cases l <;> exact ⟨rfl, ⟨rfl, rfl⟩, rfl, rfl, by decide, by decide, by decide, by decide,
    by decide, by decide, by decide, by decide, by decide⟩

theorem l2_row_host : Encodable .rtl839x host ∧ RoundTrip .rtl839x host :=
  ⟨encodable_host .rtl839x, (l2_row_iff (encodable_host .rtl839x)).mpr
    (fun _ hnh => absurd hnh (by decide))⟩

/-- A host about to age out, a next hop with a VID, a route id of ten bits, and a host whose address
is blocked. -/
theorem l2_row_lost :
    (Encodable .rtl838x { host with age := 1 } ∧
      ¬ RoundTrip .rtl838x { host with age := 1 }) ∧
    (Encodable .rtl838x { host with nextHop := true, nhRouteId := 2 } ∧
      ¬ RoundTrip .rtl838x { host with nextHop := true, nhRouteId := 2 }) ∧
    (Encodable .rtl839x { host with nextHop := true, nhRouteId := 0x200 } ∧
      ¬ RoundTrip .rtl839x { host with nextHop := true, nhRouteId := 0x200 }) ∧
    (Encodable .rtl930x { host with blockSa := true } ∧
      ¬ RoundTrip .rtl930x { host with blockSa := true }) := by
  have haged : Encodable .rtl838x { host with age := 1 } :=
    { encodable_host .rtl838x with age := by decide, shown := by decide }
  have hrouted : Encodable .rtl838x { host with nextHop := true, nhRouteId := 2 } :=
    { encodable_host .rtl838x with nhRouteId := by decide, shown := by decide }
  have hwide : Encodable .rtl839x { host with nextHop := true, nhRouteId := 0x200 } :=
    { encodable_host .rtl839x with nhRouteId := by decide, shown := by decide }
  have hblocked : Encodable .rtl930x { host with blockSa := true } :=
    { encodable_host .rtl930x with shown := by decide }
  refine ⟨⟨haged, ?_⟩, ⟨hrouted, ?_⟩, ⟨hwide, ?_⟩, ⟨hblocked, ?_⟩⟩
  · rw [rtl838x_roundTrip_iff haged]
    decide
  · rw [rtl838x_roundTrip_iff hrouted]
    decide
  · rw [rtl839x_roundTrip_iff hwide]
    decide
  · rw [rtl930x_roundTrip_iff hblocked]
    decide

end L2Row

end LibWrt.Rtl83xx
