/-
LibWrt.Rtl83xx.Mdb — the multicast database requests.

A group is a row of the port mask table and a bit of `mcGroupBm`. The entry
of an address in the L2 tables refers to the group that has its ports. An
addition that finds no entry allocates a group, a deletion of the last port
gives it back (`mdbAdd`, `mdbDel`).

`Sound` says that entries and groups belong together one to one and that a
group has the ports that were asked for. The searches are those of the
forwarding database, so an addition is right where no free slot comes
before the slot that holds the address (`NoGap`). `Sound.serve` is the step
lemma, `mdb_run` the run lemma, and the counterexample to it without the
condition needs a deletion between two additions in one bucket.
-/
import LibWrt.Rtl83xx.Fdb
import LibWrt.Rtl83xx.VlanTable

namespace LibWrt.Rtl83xx

open Function BitVec Option L2Tables Bool List

namespace Family

/-- `write_mcast_pmask`, the words it writes -/
def writeMcastPmask (f : Family) (portmask : BitVec 64) : List (BitVec 32) :=
  match f with
  | rtl838x => [portmask.setWidth 32 &&& lowMask 29]
  | rtl839x => [((portmask <<< 11) >>> 32).setWidth 32, (portmask <<< 11).setWidth 32 &&& ~~~lowMask 11]
  | rtl930x => [portmask.setWidth 32 <<< 3]
  | rtl931x => [((portmask <<< 7) >>> 32).setWidth 32, (portmask <<< 7).setWidth 32]

/-- `read_mcast_pmask` -/
def readMcastPmask (f : Family) (row : List (BitVec 32)) : BitVec 64 :=
  match f with
  | rtl838x => (row.getD 0 0).setWidth 64
  | rtl839x => (((row.getD 0 0).setWidth 64 <<< 32) ||| (row.getD 1 0).setWidth 64) >>> 11
  | rtl930x => (row.getD 0 0 >>> 3).setWidth 64
  | rtl931x => (((row.getD 0 0).setWidth 64 <<< 32) ||| (row.getD 1 0).setWidth 64) >>> 7

theorem readMcastPmask_writeMcastPmask (f : Family) {pm : BitVec 64} (hpm : f.Ports pm) :
    f.readMcastPmask (f.writeMcastPmask pm) = pm := by
  apply eq_of_getLsbD_eq
  intro i hi
  have hout := hpm i
  cases f with
  | rtl838x =>
    simp only [cpuPort] at hout
    simp only [readMcastPmask, writeMcastPmask, getD_cons_zero, getLsbD_setWidth,
      getLsbD_and, getLsbD_lowMask]
    by_cases h : 28 < i
    · simp [hout h]
    · have h29 : i < 29 := by omega
      have h32 : i < 32 := by omega
      simp [hi, h29, h32]
  | rtl839x =>
    simp only [cpuPort] at hout
    simp only [readMcastPmask, writeMcastPmask, getD_cons_zero, getD_cons_succ,
      getLsbD_or, getLsbD_setWidth, getLsbD_shiftLeft,
      getLsbD_ushiftRight, getLsbD_and, getLsbD_not, getLsbD_lowMask]
    by_cases h21 : i < 21
    · have h32 : 11 + i < 32 := by omega
      have h64 : 11 + i < 64 := by omega
      simp [h32, h64]
    · have hsub : 32 + (11 + i - 32) - 11 = i := by omega
      have h32 : ¬ (11 + i < 32) := by omega
      by_cases h : 52 < i
      · simp [hout h, hsub, h32]
      · have h64 : 11 + i < 64 := by omega
        have h32' : 11 + i - 32 < 32 := by omega
        have h64' : 32 + (11 + i - 32) < 64 := by omega
        have h11 : ¬ (32 + (11 + i - 32) < 11) := by omega
        have hlt : 11 + i - 32 < 64 := by omega
        simp [hsub, h32, h64, h32', h64', h11, hlt]
  | rtl930x =>
    simp only [cpuPort] at hout
    simp only [readMcastPmask, writeMcastPmask, getD_cons_zero, getLsbD_setWidth,
      getLsbD_shiftLeft, getLsbD_ushiftRight]
    by_cases h : 28 < i
    · simp [hout h]
    · have h32 : 3 + i < 32 := by omega
      have h32' : i < 32 := by omega
      simp [hi, h32, h32']
  | rtl931x =>
    simp only [cpuPort] at hout
    simp only [readMcastPmask, writeMcastPmask, getD_cons_zero, getD_cons_succ,
      getLsbD_or, getLsbD_setWidth, getLsbD_shiftLeft,
      getLsbD_ushiftRight]
    by_cases h25 : i < 25
    · have h32 : 7 + i < 32 := by omega
      have h64 : 7 + i < 64 := by omega
      simp [h32, h64]
    · have hsub : 32 + (7 + i - 32) - 7 = i := by omega
      have h32 : ¬ (7 + i < 32) := by omega
      by_cases h : 56 < i
      · simp [hout h, hsub, h32]
      · have h64 : 7 + i < 64 := by omega
        have h32' : 7 + i - 32 < 32 := by omega
        have h64' : 32 + (7 + i - 32) < 64 := by omega
        have h7 : ¬ (32 + (7 + i - 32) < 7) := by omega
        have hlt : 7 + i - 32 < 64 := by omega
        simp [hsub, h32, h64, h32', h64', h7, hlt]

end Family

namespace Mdb

/-- `MAX_MC_GROUPS`; the last one is `UNKNOWN_MC_PMASK`, for flooding. -/
def maxMcGroups : Nat := 512

inductive Errno where
  | eopnotsupp
  | einval
  | eaddrnotavail
  | enotsupp
  deriving DecidableEq

/-- The address of a group: its first byte has the multicast bit. -/
structure GroupAddress where
  address : Address
  multicast : address.mac.val.testBit 40 = true

structure State where
  tables : L2Tables
  lagNonPrimary : BitVec 64
  mcGroupBm : Nat → Bool
  mcPmask : Nat → List (BitVec 32)

/-- `rtl83xx_mac_is_unsnoop`: 01:00:5e:00:00:xx and 33:33:00:00:00:01 -/
def macIsUnsnoop (mac : Fin (2 ^ 48)) : Bool :=
  mac.val &&& 0xffffffffff00 == 0x01005e000000 || mac.val == 0x333300000001

namespace State

variable (f : Family) (s : State)

def groupPorts (group : Nat) : BitVec 64 := f.readMcastPmask (s.mcPmask group)

def setGroupPorts (group : Nat) (portmask : BitVec 64) : State :=
  { s with mcPmask := update s.mcPmask group (f.writeMcastPmask portmask) }

/-- `rtl83xx_mc_group_alloc` -/
def mcGroupAlloc (port : Nat) : Option (Nat × State) :=
  match (range (maxMcGroups - 1)).find? fun group => !s.mcGroupBm group with
  | none => none
  | some mcGroup =>
    some (mcGroup, { s with mcGroupBm := update s.mcGroupBm mcGroup true }.setGroupPorts f
      mcGroup (bitUll port))

/-- `rtl83xx_mc_group_add_port`; nobody looks at its result -/
def mcGroupAddPort (mcGroup port : Nat) : State :=
  s.setGroupPorts f mcGroup (s.groupPorts f mcGroup ||| bitUll port)

/-- `rtl83xx_mc_group_del_port` -/
def mcGroupDelPort (mcGroup port : Nat) : BitVec 64 × State :=
  let portmask := s.groupPorts f mcGroup &&& ~~~bitUll port
  let s := s.setGroupPorts f mcGroup portmask
  if portmask = 0 then
    (portmask, { s with mcGroupBm := update s.mcGroupBm mcGroup false })
  else (portmask, s)

end State

/-- `rtl83xx_setup_l2_mc_entry` -/
def setupL2McEntry (a : Address) (mcGroup : Nat) : L2Entry :=
  { type := .multicast, mcPortmaskIndex := mcGroup, rvid := a.vid, vid := a.vid, mac := a.mac }

/-- `priv->id >= 0x9300` -/
def isRtl93xx : Family → Bool
  | .rtl838x | .rtl839x => false
  | .rtl930x | .rtl931x => true

variable (soc : Soc)

/-- `rtl83xx_port_mdb_add` -/
def mdbAdd (s : State) (port : Nat) (a : GroupAddress) : Option Errno × State :=
  let f := soc.family
  let seed := f.l2HashSeed a.address
  if isRtl93xx f then (some .eopnotsupp, s)
  else if s.lagNonPrimary.getLsbD port then (some .einval, s)
  else if macIsUnsnoop a.address.mac then (some .eaddrnotavail, s)
  else
    match findL2HashEntry soc s.tables seed false with
    | some (_, some e) => (none, s.mcGroupAddPort f e.mcPortmaskIndex port)
    | some (idx, none) =>
      match s.mcGroupAlloc f port with
      | none => (some .enotsupp, s)
      | some (mcGroup, s) =>
        let e := setupL2McEntry a.address mcGroup
        (none, { s with tables := s.tables.writeL2EntryUsingHash (idx >>> 2) (idx &&& 3) (some e) })
    | none =>
      -- the bucket is full
      match findL2CamEntry soc s.tables seed false with
      | some (_, some e) => (none, s.mcGroupAddPort f e.mcPortmaskIndex port)
      | some (idx, none) =>
        match s.mcGroupAlloc f port with
        | none => (some .enotsupp, s)
        | some (mcGroup, s) =>
          let e := setupL2McEntry a.address mcGroup
          (none, { s with tables := s.tables.writeCam idx (some e) })
      | none => (some .enotsupp, s)

/-- `rtl83xx_port_mdb_del`. An invalid row is only found for the seed 0, which no group has. -/
def mdbDel (s : State) (port : Nat) (a : GroupAddress) : Option Errno × State :=
  let f := soc.family
  let seed := f.l2HashSeed a.address
  if s.lagNonPrimary.getLsbD port then (none, s)
  else if macIsUnsnoop a.address.mac then (none, s)
  else
    match findL2HashEntry soc s.tables seed true with
    | some (idx, e) =>
      let (portmask, s) := s.mcGroupDelPort f (e.elim 0 L2Entry.mcPortmaskIndex) port
      if portmask = 0 then
        (none, { s with tables := s.tables.writeL2EntryUsingHash (idx >>> 2) (idx &&& 3) none })
      else (none, s)
    | none =>
      match findL2CamEntry soc s.tables seed true with
      | some (idx, e) =>
        let (portmask, s) := s.mcGroupDelPort f (e.elim 0 L2Entry.mcPortmaskIndex) port
        if portmask = 0 then (none, { s with tables := s.tables.writeCam idx none }) else (none, s)
      | none => (none, s)

inductive Request (f : Family) where
  | add (port : Fin (f.cpuPort + 1)) (a : GroupAddress)
  | del (port : Fin (f.cpuPort + 1)) (a : GroupAddress)

def serve (s : State) : Request soc.family → Option Errno × State
  | .add port a => mdbAdd soc s port a
  | .del port a => mdbDel soc s port a

def Request.port {f : Family} : Request f → Nat
  | .add port _ | .del port _ => port

/-- Which ports were asked for, an address's last accepted request being an addition. -/
def noted {f : Family} (want : Address → Nat → Bool) (result : Option Errno) :
    Request f → Address → Nat → Bool
  | .add port a =>
    if result = none then
      update want a.address (update (want a.address) port true)
    else want
  | .del port a =>
    if result = none then
      update want a.address (update (want a.address) port false)
    else want

/-- No free slot comes before the slot that holds the address. -/
structure NoGap (t : L2Tables) (a : Address) : Prop where
  bucket : ∀ i k, i < k → k < soc.family.l2BucketSize →
    t.at (bucketRow soc a i) = none → ¬ t.Holds (bucketRow soc a k) a
  beforeCam : ∀ i < soc.family.l2BucketSize, t.at (bucketRow soc a i) = none →
    ∀ n, ¬ t.Holds (.cam n) a
  cam : ∀ n m, n < m → t.cam n = none → ¬ t.Holds (.cam m) a

def Tame (s : State) : Request soc.family → Prop
  | .add _ a => NoGap soc s.tables a.address
  | .del _ _ => True

def initial (lag : BitVec 64) (mcPmask : Nat → List (BitVec 32)) : State where
  tables := .empty
  lagNonPrimary := lag
  mcGroupBm _ := false
  mcPmask := mcPmask

/-- The states that tame requests of ports outside any LAG lead to from empty tables, with the
    ports that were asked for. -/
inductive Reached (lag : BitVec 64) (mcPmask : Nat → List (BitVec 32)) :
    State → (Address → Nat → Bool) → Prop where
  | initial : Reached lag mcPmask (initial lag mcPmask) fun _ _ => false
  | serve {s : State} {want : Address → Nat → Bool} (h : Reached lag mcPmask s want)
      (req : Request soc.family) (houtside : lag.getLsbD req.port = false)
      (htame : Tame soc s req) :
      Reached lag mcPmask (serve soc s req).2 (noted want (serve soc s req).1 req)

def Refers (s : State) (r : Row) (mcGroup : Nat) : Prop :=
  ∃ e, s.tables.at r = some e ∧ e.type = .multicast ∧ e.mcPortmaskIndex = mcGroup

/-- What entries and groups should be like. -/
structure Right (s : State) (want : Address → Nat → Bool) : Prop where
  /-- a group is in use when exactly one entry refers to it -/
  used : ∀ mcGroup, s.mcGroupBm mcGroup = true ↔ ∃! r, Refers s r mcGroup
  /-- it has the ports that were asked for, and some -/
  ports : ∀ r e, s.tables.at r = some e → e.type = .multicast →
    s.groupPorts soc.family e.mcPortmaskIndex ≠ 0 ∧ ∀ port,
      (s.groupPorts soc.family e.mcPortmaskIndex).getLsbD port = want e.address port
  apart : ∀ r r' e e', s.tables.at r = some e → s.tables.at r' = some e' →
    e.mcPortmaskIndex = e'.mcPortmaskIndex → e.address = e'.address
  /-- the group for flooding is left alone -/
  reserved : s.mcGroupBm (maxMcGroups - 1) = false

structure Sound (lag : BitVec 64) (s : State) (want : Address → Nat → Bool) : Prop where
  lagged : s.lagNonPrimary = lag
  only83xx : isRtl93xx soc.family = true → ∀ r, s.tables.at r = none
  unique : Unique s.tables
  placed : Placed soc s.tables
  entry : ∀ r e, s.tables.at r = some e → e.type = .multicast ∧
    e.mcPortmaskIndex < maxMcGroups - 1 ∧ s.mcGroupBm e.mcPortmaskIndex = true
  snooped : ∀ r e, s.tables.at r = some e → macIsUnsnoop e.mac = false
  owner : ∀ r r' e e', s.tables.at r = some e → s.tables.at r' = some e' →
    e.mcPortmaskIndex = e'.mcPortmaskIndex → r = r'
  used : ∀ mcGroup, s.mcGroupBm mcGroup = true →
    ∃ r e, s.tables.at r = some e ∧ e.mcPortmaskIndex = mcGroup
  ports : ∀ r e, s.tables.at r = some e → soc.family.Ports (s.groupPorts soc.family e.mcPortmaskIndex) ∧
    s.groupPorts soc.family e.mcPortmaskIndex ≠ 0 ∧ ∀ port,
      (s.groupPorts soc.family e.mcPortmaskIndex).getLsbD port = want e.address port
  absent : ∀ a, (∀ r, ¬ s.tables.Holds r a) → ∀ port, want a port = false

variable {soc} {lag : BitVec 64}

variable {s : State} {want : Address → Nat → Bool} {r : Row} {a : Address} {port : Nat}

theorem Sound.right (h : Sound soc lag s want) :
    Right soc s want where
  used mcGroup := by
    constructor
    · intro hbm
      obtain ⟨r, e, he, hgroup⟩ := h.used mcGroup hbm
      refine ⟨r, ⟨e, he, (h.entry r e he).1, hgroup⟩, ?_⟩
      rintro r' ⟨e', he', -, hgroup'⟩
      exact h.owner r' r e' e he' he (hgroup'.trans hgroup.symm)
    · rintro ⟨r, ⟨e, he, -, rfl⟩, -⟩
      exact (h.entry r e he).2.2
  ports r e he _ := (h.ports r e he).2
  apart r r' e e' he he' hgroup := by
    have hr := h.owner r r' e e' he he' hgroup
    subst hr
    rw [he] at he'
    cases he'
    rfl
  reserved := by
    cases hbm : s.mcGroupBm (maxMcGroups - 1) with
    | false => rfl
    | true =>
      obtain ⟨r, e, he, hgroup⟩ := h.used _ hbm
      have hlt := (h.entry r e he).2.1
      omega

/-! ## Groups -/

section Groups

variable {f : Family} {s : State}

@[simp] theorem setGroupPorts_tables (g : Nat) (pm : BitVec 64) :
    (s.setGroupPorts f g pm).tables = s.tables := rfl

@[simp] theorem setGroupPorts_mcGroupBm (g : Nat) (pm : BitVec 64) :
    (s.setGroupPorts f g pm).mcGroupBm = s.mcGroupBm := rfl

@[simp] theorem setGroupPorts_lagNonPrimary (g : Nat) (pm : BitVec 64) :
    (s.setGroupPorts f g pm).lagNonPrimary = s.lagNonPrimary := rfl

variable {pm : BitVec 64}

theorem groupPorts_setGroupPorts {g : Nat} (h : f.Ports pm) (g' : Nat) :
    (s.setGroupPorts f g pm).groupPorts f g' = if g' = g then pm else s.groupPorts f g' := by
  by_cases hg : g' = g
  · subst hg
    simp [State.groupPorts, State.setGroupPorts, f.readMcastPmask_writeMcastPmask h]
  · simp [State.groupPorts, State.setGroupPorts, hg]

theorem ports_bitUll {port : Nat} (hport : port ≤ f.cpuPort) : f.Ports (bitUll port) := by
  intro i hi
  have hne : port ≠ i := by omega
  simp [hne]

theorem ports_or {qm : BitVec 64} (h : f.Ports pm) (h' : f.Ports qm) : f.Ports (pm ||| qm) := by
  intro i hi
  simp [h i hi, h' i hi]

theorem ports_and {qm : BitVec 64} (h : f.Ports pm) : f.Ports (pm &&& qm) := by
  intro i hi
  simp [h i hi]

theorem bitUll_bit {port : Nat} (hport : port ≤ f.cpuPort) (i : Nat) :
    (bitUll port).getLsbD i = decide (port = i) := by
  have hlt : port < 64 := by
    have hcpu := f.cpuPort_lt
    omega
  simp [hlt]

theorem ne_zero_of_bit {i : Nat} (h : pm.getLsbD i = true) : pm ≠ 0 := by
  rintro rfl
  simp at h

end Groups

/-! ## One group changes -/

/-- The group of an address gets other ports. -/
theorem Sound.setPorts (h : Sound soc lag s want) {e : L2Entry} (he : s.tables.at r = some e)
    {pm : BitVec 64} (hpm : soc.family.Ports pm) (hne : pm ≠ 0) {w : Nat → Bool}
    (hw : ∀ port, pm.getLsbD port = w port) :
    Sound soc lag (s.setGroupPorts soc.family e.mcPortmaskIndex pm)
      (update want e.address w) := by
  have hgroup := groupPorts_setGroupPorts (s := s) (g := e.mcPortmaskIndex) hpm
  refine ⟨h.lagged, h.only83xx, h.unique, h.placed, h.entry, h.snooped, h.owner, h.used, ?_, ?_⟩
  · intro r' e' he'
    rw [hgroup]
    by_cases hidx : e'.mcPortmaskIndex = e.mcPortmaskIndex
    · have hr := h.owner r' r e' e he' he hidx
      subst hr
      have hsame : e' = e := some.inj (he'.symm.trans he)
      subst hsame
      rw [if_pos rfl, update_self]
      exact ⟨hpm, hne, hw⟩
    · have haddress : e'.address ≠ e.address := by
        intro ha
        have hr := h.unique r' r e.address ⟨e', he', ha⟩ ⟨e, he, rfl⟩
        subst hr
        exact hidx (congrArg L2Entry.mcPortmaskIndex (some.inj (he'.symm.trans he)))
      rw [if_neg hidx, update_of_ne haddress]
      exact h.ports r' e' he'
  · intro a ha port
    have haddress : a ≠ e.address := by
      rintro rfl
      exact ha r ⟨e, he, rfl⟩
    rw [update_of_ne haddress]
    exact h.absent a ha port

theorem Sound.newEntry (h : Sound soc lag s want) (h83xx : isRtl93xx soc.family = false)
    (hsnooped : macIsUnsnoop a.mac = false) (hmay : MayUse soc a r) (hr : RowFor s.tables a r)
    (hfree : s.tables.at r = none) {g : Nat} (hg : g < maxMcGroups - 1)
    (hbm : s.mcGroupBm g = false) (hport : port ≤ soc.family.cpuPort) :
    Sound soc lag { ({ s with mcGroupBm := update s.mcGroupBm g true } : State).setGroupPorts
        soc.family g (bitUll port) with
        tables := s.tables.set r (some (setupL2McEntry a g)) }
      (update want a (update (want a) port true)) := by
  have hentry : ∀ e, some (setupL2McEntry a g) = some e → e.address = a := by
    rintro e he
    cases he
    rfl
  have hnone : ∀ r', ¬ s.tables.Holds r' a := by
    intro r' hr'
    have hrow := hr.only r' hr'
    subst hrow
    exact not_holds_of_none hfree a hr'
  have hgroup := groupPorts_setGroupPorts
    (s := { s with mcGroupBm := update s.mcGroupBm g true }) (g := g)
    (ports_bitUll hport)
  -- an entry of before, which is of another address and another group
  have hold : ∀ r' e, (s.tables.set r (some (setupL2McEntry a g))).at r' = some e →
      (r' = r ∧ e = setupL2McEntry a g) ∨
      (r' ≠ r ∧ s.tables.at r' = some e ∧ e.address ≠ a ∧ e.mcPortmaskIndex ≠ g) := by
    intro r' e he
    by_cases hrow : r' = r
    · subst hrow
      rw [at_set_self] at he
      exact .inl ⟨rfl, (some.inj he).symm⟩
    · rw [at_set_of_ne _ _ hrow] at he
      refine .inr ⟨hrow, he, fun ha => hnone r' ⟨e, he, ha⟩, ?_⟩
      rintro rfl
      rw [(h.entry r' e he).2.2] at hbm
      cases hbm
  refine ⟨h.lagged, ?_, hr.unique h.unique hentry, ?_, ?_, ?_, ?_, ?_, ?_, ?_⟩
  · intro h93
    rw [h83xx] at h93
    cases h93
  · intro r' b hb
    rcases hr.holds_set hentry hb with ⟨rfl, rfl⟩ | ⟨-, hb'⟩
    · exact hmay
    · exact h.placed r' b hb'
  · intro r' e he
    rcases hold r' e he with ⟨-, rfl⟩ | ⟨-, he', -, hne⟩
    · exact ⟨rfl, hg, update_self _ _ _⟩
    · obtain ⟨htype, hlt, hused⟩ := h.entry r' e he'
      exact ⟨htype, hlt, by simpa [hne] using hused⟩
  · intro r' e he
    rcases hold r' e he with ⟨-, rfl⟩ | ⟨-, he', -, -⟩
    · exact hsnooped
    · exact h.snooped r' e he'
  · intro r₁ r₂ e₁ e₂ he₁ he₂ hidx
    rcases hold r₁ e₁ he₁ with ⟨rfl, rfl⟩ | ⟨-, he₁', -, hne₁⟩
    · rcases hold r₂ e₂ he₂ with ⟨rfl, rfl⟩ | ⟨-, -, -, hne₂⟩
      · rfl
      · exact absurd hidx.symm hne₂
    · rcases hold r₂ e₂ he₂ with ⟨rfl, rfl⟩ | ⟨-, he₂', -, -⟩
      · exact absurd hidx hne₁
      · exact h.owner r₁ r₂ e₁ e₂ he₁' he₂' hidx
  · intro g' hg'
    by_cases hgg : g' = g
    · subst hgg
      exact ⟨r, setupL2McEntry a g', at_set_self _ _ _, rfl⟩
    · have hg'' : s.mcGroupBm g' = true := by simpa [hgg] using hg'
      obtain ⟨r', e, he, hidx⟩ := h.used g' hg''
      have hrow : r' ≠ r := by
        rintro rfl
        rw [hfree] at he
        cases he
      exact ⟨r', e, by rw [at_set_of_ne _ _ hrow]; exact he, hidx⟩
  · intro r' e he
    have hports : ∀ g', ({ ({ s with mcGroupBm := update s.mcGroupBm g true } :
        State).setGroupPorts soc.family g (bitUll port) with
        tables := s.tables.set r (some (setupL2McEntry a g)) } : State).groupPorts soc.family g' =
        if g' = g then bitUll port else s.groupPorts soc.family g' := hgroup
    rw [hports]
    rcases hold r' e he with ⟨-, rfl⟩ | ⟨-, he', haddress, hne⟩
    · have hwant := h.absent a hnone
      have hself : (setupL2McEntry a g).address = a := rfl
      have hindex : (setupL2McEntry a g).mcPortmaskIndex = g := rfl
      rw [hself, hindex, update_self, if_pos rfl]
      refine ⟨ports_bitUll hport, ne_zero_of_bit (i := port) (by simp [bitUll_bit hport]), ?_⟩
      intro q
      rw [bitUll_bit hport]
      by_cases hq : q = port
      · subst hq
        simp
      · simp [hq, Ne.symm hq, hwant q]
    · rw [if_neg hne, update_of_ne haddress]
      exact h.ports r' e he'
  · intro b hb q
    have hba : b ≠ a := by
      rintro rfl
      exact hb r ⟨setupL2McEntry b g, at_set_self _ _ _, rfl⟩
    rw [update_of_ne hba]
    refine h.absent b ?_ q
    rintro r' ⟨e, he, rfl⟩
    have hrow : r' ≠ r := by
      rintro rfl
      rw [hfree] at he
      cases he
    exact hb r' ⟨e, by rw [at_set_of_ne _ _ hrow]; exact he, rfl⟩

/-- The last port of an address is gone, and with it the entry and the group. -/
theorem Sound.removeEntry (h : Sound soc lag s want) {e : L2Entry} (he : s.tables.at r = some e)
    {w : Nat → Bool} (hw : ∀ port, w port = false) :
    Sound soc lag { ({ s.setGroupPorts soc.family e.mcPortmaskIndex 0 with
        mcGroupBm := update s.mcGroupBm e.mcPortmaskIndex false } : State) with
        tables := s.tables.set r none }
      (update want e.address w) := by
  have hr : RowFor s.tables e.address r :=
    ⟨fun r' hr' => h.unique r' r _ hr' ⟨e, he, rfl⟩, .inr ⟨e, he, rfl⟩⟩
  have hentry : ∀ e', (none : Option L2Entry) = some e' → e'.address = e.address := by
    intro e' he'
    cases he'
  have hzero : soc.family.Ports 0 := fun i _ => by simp
  have hgroup := groupPorts_setGroupPorts (s := s) (g := e.mcPortmaskIndex) hzero
  have hold : ∀ r' e', (s.tables.set r none).at r' = some e' →
      r' ≠ r ∧ s.tables.at r' = some e' ∧ e'.address ≠ e.address ∧
        e'.mcPortmaskIndex ≠ e.mcPortmaskIndex := by
    intro r' e' he'
    by_cases hrow : r' = r
    · subst hrow
      rw [at_set_self] at he'
      cases he'
    · rw [at_set_of_ne _ _ hrow] at he'
      exact ⟨hrow, he', fun ha => hrow (hr.only r' ⟨e', he', ha⟩),
        fun hidx => hrow (h.owner r' r e' e he' he hidx)⟩
  refine ⟨h.lagged, ?_, hr.unique h.unique hentry, ?_, ?_, ?_, ?_, ?_, ?_, ?_⟩
  · intro h93 r'
    have hnone := h.only83xx h93 r
    rw [he] at hnone
    cases hnone
  · intro r' b hb
    rcases hr.holds_set hentry hb with ⟨rfl, rfl⟩ | ⟨-, hb'⟩
    · exact absurd hb (not_holds_of_none (at_set_self _ _ _) _)
    · exact h.placed r' b hb'
  · intro r' e' he'
    obtain ⟨-, he'', -, hne⟩ := hold r' e' he'
    obtain ⟨htype, hlt, hused⟩ := h.entry r' e' he''
    exact ⟨htype, hlt, by simpa [hne] using hused⟩
  · intro r' e' he'
    exact h.snooped r' e' (hold r' e' he').2.1
  · intro r₁ r₂ e₁ e₂ he₁ he₂ hidx
    exact h.owner r₁ r₂ e₁ e₂ (hold r₁ e₁ he₁).2.1 (hold r₂ e₂ he₂).2.1 hidx
  · intro g hg
    by_cases hgg : g = e.mcPortmaskIndex
    · subst hgg
      simp at hg
    · have hg' : s.mcGroupBm g = true := by simpa [hgg] using hg
      obtain ⟨r', e', he', hidx⟩ := h.used g hg'
      have hrow : r' ≠ r := by
        rintro rfl
        rw [he] at he'
        cases he'
        exact hgg hidx.symm
      exact ⟨r', e', by rw [at_set_of_ne _ _ hrow]; exact he', hidx⟩
  · intro r' e' he'
    obtain ⟨-, he'', haddress, hne⟩ := hold r' e' he'
    have hports : ∀ g, ({ ({ s.setGroupPorts soc.family e.mcPortmaskIndex 0 with
        mcGroupBm := update s.mcGroupBm e.mcPortmaskIndex false } : State) with
        tables := s.tables.set r none } : State).groupPorts soc.family g =
        if g = e.mcPortmaskIndex then 0 else s.groupPorts soc.family g := hgroup
    rw [hports, if_neg hne, update_of_ne haddress]
    exact h.ports r' e' he''
  · intro b hb q
    by_cases hba : b = e.address
    · subst hba
      rw [update_self]
      exact hw q
    · rw [update_of_ne hba]
      refine h.absent b ?_ q
      rintro r' ⟨e', he', rfl⟩
      have hrow : r' ≠ r := by
        rintro rfl
        rw [he] at he'
        cases he'
        exact hba rfl
      exact hb r' ⟨e', by rw [at_set_of_ne _ _ hrow]; exact he', rfl⟩

/-! ## The requests -/

theorem mcGroupAlloc_cases (f : Family) (s : State) (port : Nat) :
    (∃ g, g < maxMcGroups - 1 ∧ s.mcGroupBm g = false ∧ s.mcGroupAlloc f port =
      some (g, ({ s with mcGroupBm := update s.mcGroupBm g true } : State).setGroupPorts
        f g (bitUll port))) ∨
    s.mcGroupAlloc f port = none := by
  unfold State.mcGroupAlloc
  cases hfind : (range (maxMcGroups - 1)).find? fun group => !s.mcGroupBm group with
  | none => exact .inr rfl
  | some g =>
    obtain ⟨hfree, hg, -⟩ := List.find?_range_eq_some.mp hfind
    exact .inl ⟨g, by simpa using hg, by simpa using hfree, rfl⟩

/-- An addition by the row its search stops at. -/
theorem mdbAdd_eq {a : GroupAddress} (h83xx : isRtl93xx soc.family = false)
    (hlag : s.lagNonPrimary.getLsbD port = false) (hsnooped : macIsUnsnoop a.address.mac = false) :
    mdbAdd soc s port a =
      match findRow soc s.tables (soc.family.l2HashSeed a.address) false with
      | some (_, some e) => (none, s.mcGroupAddPort soc.family e.mcPortmaskIndex port)
      | some (r, none) =>
        match s.mcGroupAlloc soc.family port with
        | none => (some .enotsupp, s)
        | some (mcGroup, s) =>
          (none, { s with tables := s.tables.set r (some (setupL2McEntry a.address mcGroup)) })
      | none => (some .enotsupp, s) := by
  simp only [mdbAdd, h83xx, hlag, hsnooped, findRow, false_eq_true, if_false]
  cases findL2HashEntry soc s.tables (soc.family.l2HashSeed a.address) false with
  | some found =>
    obtain ⟨idx, e⟩ := found
    cases e with
    | some e => rfl
    | none => simp only [writeL2EntryUsingHash_eq_set]
  | none =>
    cases findL2CamEntry soc s.tables (soc.family.l2HashSeed a.address) false with
    | some found =>
      obtain ⟨idx, e⟩ := found
      cases e with
      | some e => rfl
      | none => simp only [map_some, writeCam_eq_set]
    | none => rfl

/-- A deletion by the row its search stops at. -/
theorem mdbDel_eq {a : GroupAddress} (hlag : s.lagNonPrimary.getLsbD port = false)
    (hsnooped : macIsUnsnoop a.address.mac = false) :
    mdbDel soc s port a =
      match findRow soc s.tables (soc.family.l2HashSeed a.address) true with
      | some (r, e) =>
        let (portmask, s) :=
          s.mcGroupDelPort soc.family (e.elim 0 L2Entry.mcPortmaskIndex) port
        if portmask = 0 then (none, { s with tables := s.tables.set r none }) else (none, s)
      | none => (none, s) := by
  simp only [mdbDel, hlag, hsnooped, findRow, false_eq_true, if_false]
  cases findL2HashEntry soc s.tables (soc.family.l2HashSeed a.address) true with
  | some found => simp only [writeL2EntryUsingHash_eq_set]
  | none =>
    cases findL2CamEntry soc s.tables (soc.family.l2HashSeed a.address) true with
    | some found => simp only [map_some, writeCam_eq_set]
    | none => rfl

/-! ## The searches -/

theorem l2BucketSize_of_83xx {f : Family} (h : isRtl93xx f = false) : f.l2BucketSize = 4 := by
  cases f with
  | rtl838x | rtl839x => rfl
  | rtl930x | rtl931x => cases h

/-- On the RTL83xx families a CAM row is recognised by the seed of its address. -/
theorem camKeysRight_of_83xx (h : isRtl93xx soc.family = false) (t : L2Tables) (a : Address) :
    CamKeysRight soc t a := by
  intro n _ e _
  have hkey : soc.family.camKey e = soc.family.l2HashSeed e.address := by
    cases hf : soc.family with
    | rtl838x | rtl839x => rfl
    | rtl930x | rtl931x =>
      rw [hf] at h
      cases h
  rw [hkey, and_keyMask (soc.family.l2HashSeed_lt _)]
  exact ⟨soc.family.l2HashSeed_inj, fun ha => by rw [ha]⟩

/-- A group address has a bit. -/
theorem GroupAddress.seed_ne_zero (f : Family) (a : GroupAddress) :
    f.l2HashSeed a.address ≠ 0 := by
  intro hzero
  have hseed : f.l2HashSeed ⟨0, 0⟩ = 0 := by cases f <;> rfl
  have ha := f.l2HashSeed_inj (hzero.trans hseed.symm)
  have hbit := a.multicast
  rw [ha] at hbit
  simp at hbit

theorem NoGap.orderlyAdd {t : L2Tables} (h : NoGap soc t a) (h83xx : isRtl93xx soc.family = false) :
    OrderlyAdd soc t a where
  noGapBucket := h.bucket
  noGapBeforeCam := h.beforeCam
  noGapCam := h.cam
  indexed i hi _ _ := by
    rw [l2BucketSize_of_83xx h83xx] at hi
    exact .inl hi
  camKeys _ := camKeysRight_of_83xx h83xx t a

/-- The search of a deletion is always orderly: on the RTL93xx families there is nothing to
    find. -/
theorem Sound.orderlyDel (h : Sound soc lag s want) (a : GroupAddress) :
    OrderlyDel soc s.tables a.address := by
  have hseed : soc.family.l2HashSeed a.address = 0 → False := a.seed_ne_zero soc.family
  cases h93 : isRtl93xx soc.family with
  | false =>
    refine ⟨?_, fun _ => camKeysRight_of_83xx h93 _ _, fun hzero => (hseed hzero).elim⟩
    intro i hi _
    rw [l2BucketSize_of_83xx h93] at hi
    exact .inl hi
  | true =>
    have hnone := h.only83xx h93
    refine ⟨?_, ?_, fun hzero => (hseed hzero).elim⟩
    · intro i _ hholds
      exact absurd hholds (not_holds_of_none (hnone _) _)
    · intro _ n _ e he
      have hcam : s.tables.cam n = none := hnone (.cam n)
      rw [hcam] at he
      cases he

/-! ## Every run -/

/-- A deletion of what was not asked for. -/
theorem update_absent (h : want a port = false) :
    update want a (update (want a) port false) = want := by
  rw [← h, update_eq_self, update_eq_self]

theorem Sound.add (h : Sound soc lag s want) (hport : port ≤ soc.family.cpuPort) {a : GroupAddress}
    (hport' : lag.getLsbD port = false) (hgap : NoGap soc s.tables a.address) :
    (∃ err, mdbAdd soc s port a = (some err, s)) ∨
    ((mdbAdd soc s port a).1 = none ∧ Sound soc lag (mdbAdd soc s port a).2
      (update want a.address (update (want a.address) port true))) := by
  have hlag : s.lagNonPrimary.getLsbD port = false := by rw [h.lagged, hport']
  cases h93 : isRtl93xx soc.family with
  | true => exact .inl ⟨.eopnotsupp, by simp [mdbAdd, h93]⟩
  | false =>
    cases hsnooped : macIsUnsnoop a.address.mac with
    | true =>
      refine .inl ⟨.eaddrnotavail, ?_⟩
      simp only [mdbAdd, h93, hlag, hsnooped, false_eq_true, if_false, if_true]
    | false =>
      rw [mdbAdd_eq h93 hlag hsnooped]
      rcases findRow_add h.unique h.placed (hgap.orderlyAdd h93) with
        ⟨r, hmay, hr, hfind⟩ | ⟨hfind, -⟩
      · cases hat : s.tables.at r with
        | some e =>
          -- the group of the address gets the port
          rw [hat] at hfind
          have ha : e.address = a.address := by
            rcases hr.free with hnone | hholds
            · rw [hat] at hnone
              cases hnone
            · exact (holds_iff hat _).mp hholds
          obtain ⟨hp, -, hbits⟩ := h.ports r e hat
          rw [hfind]
          refine .inr ⟨rfl, ?_⟩
          rw [← ha]
          refine h.setPorts hat (ports_or hp (ports_bitUll hport)) ?_ ?_
          · exact ne_zero_of_bit (i := port) (by simp [bitUll_bit hport])
          · intro q
            rw [getLsbD_or, bitUll_bit hport, hbits q]
            by_cases hq : q = port
            · subst hq
              simp
            · simp [hq, Ne.symm hq]
        | none =>
          rw [hat] at hfind
          rw [hfind]
          rcases mcGroupAlloc_cases soc.family s port with ⟨g, hg, hbm, halloc⟩ | halloc
          · rw [halloc]
            exact .inr ⟨rfl, h.newEntry h93 hsnooped hmay hr hat hg hbm hport⟩
          · rw [halloc]
            exact .inl ⟨.enotsupp, rfl⟩
      · rw [hfind]
        exact .inl ⟨.enotsupp, rfl⟩

theorem Sound.del (h : Sound soc lag s want) (hport : port ≤ soc.family.cpuPort) {a : GroupAddress}
    (hport' : lag.getLsbD port = false) :
    (mdbDel soc s port a).1 = none ∧ Sound soc lag (mdbDel soc s port a).2
      (update want a.address (update (want a.address) port false)) := by
  have hlag : s.lagNonPrimary.getLsbD port = false := by rw [h.lagged, hport']
  cases hsnooped : macIsUnsnoop a.address.mac with
  | true =>
    -- there is no such entry
    have hnone : ∀ r, ¬ s.tables.Holds r a.address := by
      rintro r ⟨e, he, ha⟩
      have hmac : e.mac = a.address.mac := congrArg Address.mac ha
      have he' := h.snooped r e he
      rw [hmac, hsnooped] at he'
      cases he'
    have hdel : mdbDel soc s port a = (none, s) := by
      simp only [mdbDel, hlag, hsnooped, false_eq_true, if_false, if_true]
    rw [hdel, update_absent (h.absent _ hnone port)]
    exact ⟨rfl, h⟩
  | false =>
    rw [mdbDel_eq hlag hsnooped]
    rcases findRow_del h.unique h.placed (h.orderlyDel a) with
      ⟨r, hr, hheld, hfind⟩ | ⟨hfind, hnone⟩
    · have hholds : s.tables.Holds r a.address :=
        hheld.resolve_right (a.seed_ne_zero soc.family)
      obtain ⟨e, hat, ha⟩ := hholds
      rw [hat] at hfind
      obtain ⟨hp, -, hbits⟩ := h.ports r e hat
      have hkept : ∀ q, (s.groupPorts soc.family e.mcPortmaskIndex &&& ~~~bitUll port).getLsbD q =
          update (want e.address) port false q := by
        intro q
        rw [getLsbD_and, getLsbD_not, bitUll_bit hport, hbits q]
        by_cases hq : q = port
        · subst hq
          simp
        · by_cases hlt : q < 64
          · simp [hq, Ne.symm hq, hlt]
          · have hout : want e.address q = false := by
              rw [← hbits q]
              exact getLsbD_of_ge _ _ (by omega)
            simp [hq, hout]
      rw [hfind, ← ha]
      by_cases hzero : s.groupPorts soc.family e.mcPortmaskIndex &&& ~~~bitUll port = 0
      · simp only [State.mcGroupDelPort, elim_some, hzero, if_true]
        refine ⟨trivial, h.removeEntry hat ?_⟩
        intro q
        rw [← hkept q, hzero]
        simp
      · simp only [State.mcGroupDelPort, elim_some, hzero, if_false]
        exact ⟨trivial, h.setPorts hat (ports_and hp) hzero hkept⟩
    · rw [hfind, update_absent (h.absent _ hnone port)]
      exact ⟨rfl, h⟩

theorem Sound.serve (h : Sound soc lag s want) (req : Request soc.family)
    (houtside : lag.getLsbD req.port = false) (htame : Tame soc s req) :
    Sound soc lag (serve soc s req).2 (noted want (serve soc s req).1 req) := by
  cases req with
  | add port a =>
    have hport : port.val ≤ soc.family.cpuPort := by omega
    rcases h.add hport houtside htame with ⟨err, hadd⟩ | ⟨hresult, hadd⟩
    · simp only [Mdb.serve, noted, hadd, reduceCtorEq, if_false]
      exact h
    · simp only [Mdb.serve, noted, hresult, if_true]
      exact hadd
  | del port a =>
    have hport : port.val ≤ soc.family.cpuPort := by omega
    obtain ⟨hresult, hdel⟩ := Sound.del h hport (a := a) houtside
    simp only [Mdb.serve, noted, hresult, if_true]
    exact hdel

theorem Sound.initial (soc : Soc) (mcPmask : Nat → List (BitVec 32)) :
    Sound soc lag (initial lag mcPmask) fun _ _ => false where
  lagged := rfl
  only83xx _ r := by cases r <;> rfl
  unique r _ _ hr _ := by
    obtain ⟨e, he, -⟩ := hr
    cases r <;> cases he
  placed r _ hr := by
    obtain ⟨e, he, -⟩ := hr
    cases r <;> cases he
  entry r _ he := by cases r <;> cases he
  snooped r _ he := by cases r <;> cases he
  owner r _ _ _ he := by cases r <;> cases he
  used _ h := by cases h
  ports r _ he := by cases r <;> cases he
  absent _ _ _ := rfl

theorem Reached.sound {mcPmask : Nat → List (BitVec 32)} (h : Reached soc lag mcPmask s want) :
    Sound soc lag s want := by
  induction h with
  | initial => exact Sound.initial soc mcPmask
  | serve _ req houtside htame ih => exact ih.serve req houtside htame

/-- For every family and every hash function, in every run of requests of ports outside any
    LAG from empty tables in which no addition is for an address that is held behind a free
    slot: entries and groups are as they should be. -/
theorem mdb_run (soc : Soc) {lag : BitVec 64} {mcPmask : Nat → List (BitVec 32)} {s : State}
    {want : Address → Nat → Bool} (h : Reached soc lag mcPmask s want) : Right soc s want :=
  h.sound.right

/-! ## Fixed runs -/

def serveAll (soc : Soc) (s : State) (want : Address → Nat → Bool) :
    List (Request soc.family) → State × (Address → Nat → Bool)
  | [] => (s, want)
  | req :: reqs => serveAll soc (serve soc s req).2 (noted want (serve soc s req).1 req) reqs

def firstGroup : GroupAddress := ⟨⟨0x01005e010001, 1⟩, by decide⟩

def secondGroup : GroupAddress := ⟨⟨0x01005e010002, 1⟩, by decide⟩

/-- Two groups in one bucket; the first is deleted and the second gets another port. -/
def gapRun : List (Request oneBucket.family) :=
  [.add 1 firstGroup, .add 1 secondGroup, .del 1 firstGroup, .add 2 secondGroup]

set_option maxRecDepth 4000 in
/-- The second group's port 1 is in one group of the table and its port 2 in another. -/
theorem mdb_group_split :
    ¬ ∀ (soc : Soc) (lag : BitVec 64) (mcPmask : Nat → List (BitVec 32))
      (reqs : List (Request soc.family)), (∀ req ∈ reqs, lag.getLsbD req.port = false) →
      Right soc (serveAll soc (initial lag mcPmask) (fun _ _ => false) reqs).1
        (serveAll soc (initial lag mcPmask) (fun _ _ => false) reqs).2 := by
  intro hall
  have h := hall oneBucket 0 (fun _ => []) gapRun fun req _ => by simp
  have hports := (h.ports (.hash 1) (setupL2McEntry secondGroup.address 1) rfl rfl).2 2
  exact absurd hports (by decide)

theorem NoGap.of_empty (soc : Soc) (a : Address) : NoGap soc .empty a where
  bucket _ _ _ _ _ := not_holds_of_none rfl a
  beforeCam _ _ _ _ := not_holds_of_none rfl a
  cam _ _ _ _ := not_holds_of_none rfl a

/-- Neither is one that is held in the first slot of a single bucket. -/
theorem NoGap.of_first {t : L2Tables} (hunique : Unique t) (h83xx : isRtl93xx soc.family = false)
    (hfirst : t.Holds (bucketRow soc a 0) a) :
    NoGap soc t a where
  bucket i k hik hk _ hholds := by
    have hrow : soc.family.readRow (soc.l2HashKey (soc.family.l2HashSeed a)) 0 =
        soc.family.readRow (soc.l2HashKey (soc.family.l2HashSeed a)) k :=
      Row.hash.inj (hunique _ _ a hfirst hholds)
    rw [l2BucketSize_of_83xx h83xx] at hk
    have hkey : ∀ key pos, soc.family.readRow key pos = key <<< 2 ||| pos := by
      intro key pos
      cases hf : soc.family with
      | rtl838x | rtl839x => rfl
      | rtl930x | rtl931x =>
        rw [hf] at h83xx
        cases h83xx
    rw [hkey, hkey] at hrow
    have hzero := (Family.shiftLeft_or_inj (by decide) (show k < 2 ^ 2 from hk) hrow).2
    omega
  beforeCam _ _ _ n hholds := by cases hunique _ _ a hfirst hholds
  cam _ m _ _ hholds := by cases hunique _ _ a hfirst hholds

set_option maxRecDepth 4000 in
/-- Two ports ask for a group, and one leaves it again. -/
theorem mdb_run_three_requests :
    Right oneBucket
      (serveAll oneBucket (initial 0 fun _ => []) (fun _ _ => false)
        [.add 1 firstGroup, .add 2 firstGroup, .del 1 firstGroup]).1
      (serveAll oneBucket (initial 0 fun _ => []) (fun _ _ => false)
        [.add 1 firstGroup, .add 2 firstGroup, .del 1 firstGroup]).2 := by
  have hinitial : Reached oneBucket 0 (fun _ => []) (initial 0 fun _ => []) fun _ _ => false :=
    .initial
  have hone := hinitial.serve (.add 1 firstGroup) (by decide) (NoGap.of_empty _ _)
  have hgap : Tame oneBucket (serve oneBucket (initial 0 fun _ => []) (.add 1 firstGroup)).2
      (.add 2 firstGroup) :=
    NoGap.of_first hone.sound.unique rfl ⟨setupL2McEntry firstGroup.address 0, rfl, rfl⟩
  have htwo := hone.serve (.add 2 firstGroup) (by decide) hgap
  exact mdb_run oneBucket (htwo.serve (.del 1 firstGroup) (by decide) trivial)

end Mdb

end LibWrt.Rtl83xx
