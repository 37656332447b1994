/-
LibWrt.Rtl83xx.Vlan — the VLAN requests.

A request reads the two rows of its VLAN, changes them and writes them back
(`vlanAdd`, `vlanDel`); an assignment of an MSTI changes the forwarding id
in the same way (`vlanMstiSet`). Next to the tables the driver keeps the
PVID of each port.

`Inv` says what the tables hold after any requests and assignments, whatever
the untag table held at boot: the members are the ports whose last request
was an addition, and the untagged ports are right from the first addition
on. `vlan_run` is the run lemma.
-/
import LibWrt.Rtl83xx.Mst

namespace LibWrt.Rtl83xx.Vlan

open Function List
open BitVec hiding not_not not_or
open Mst (DsaPort)

/-- `BRIDGE_VLAN_INFO_*` -/
structure Flags where
  pvid : Bool
  untagged : Bool

/-- There is a VLAN 0. -/
instance neZeroVlans : NeZero 4096 := ⟨by decide⟩

structure State where
  table : Fin 4096 → List (BitVec 32)
  untag : Fin 4096 → List (BitVec 32)
  pvid : Nat → Nat
  mst : Mst.State

namespace State

variable (f : Family) (s : State)

/-- `vlan_tables_read` -/
def vlanTablesRead (vid : Fin 4096) : VlanInfo :=
  { f.readTagged (s.table vid) with untaggedPorts := f.readUntag (s.untag vid) }

def vlanSetTagged (vid : Fin 4096) (info : VlanInfo) : State :=
  { s with table := update s.table vid (f.vlanSetTagged info) }

def vlanSetUntagged (vid : Fin 4096) (portmask : BitVec 64) : State :=
  { s with untag := update s.untag vid (f.vlanSetUntagged portmask) }

/-- `rtl83xx_vlan_set_pvid` -/
def vlanSetPvid (port pvid : Nat) : State := { s with pvid := update s.pvid port pvid }

end State

/-- What the switch has in the tables that the setup does not write. -/
structure Boot (f : Family) where
  untag : Fin 4096 → List (BitVec 32)
  stp : Nat → List (BitVec 32)
  stp_words : ∀ mstSlot, (stp mstSlot).length = f.stpWords

variable (cfg : Isolation.Config)

def emptyVlan (f : Family) : VlanInfo where
  untaggedPorts := 0
  memberPorts := 0
  profileId := 0
  hashMcFid := false
  hashUcFid := false
  fid := 0
  ifId := 0
  multicastGrpMask := 0
  l2TunnelListId := if f = .rtl931x then -1 else 0

/-- `rtl83xx_vlan_setup` -/
def vlanSetup (boot : Boot cfg.family) : State :=
  let info := emptyVlan cfg.family
  let ports := (range (cfg.family.cpuPort + 1)).foldl (fun pm i => pm ||| bitUll i) 0
  { table := fun vid =>
      cfg.family.vlanSetTagged (if vid = 0 then { info with memberPorts := ports } else info)
    untag := boot.untag
    pvid := fun _ => 0
    mst := { msts := fun _ => ⟨0, 0⟩, stp := boot.stp } }

/-- `rtl83xx_vlan_prepare` -/
def vlanPrepare (f : Family) (s : State) : State :=
  let info := s.vlanTablesRead f 1
  (s.vlanSetUntagged f 1 info.untaggedPorts).vlanSetTagged f 1 info

def infoAdd (port : Nat) (untagged : Bool) (info : VlanInfo) : VlanInfo :=
  -- new VLAN?
  let info :=
    if info.memberPorts = 0 then
      { info with fid := 0, hashMcFid := false, hashUcFid := false, profileId := 0 }
    else info
  -- untagged ports must be members
  let untaggedPorts := if info.untaggedPorts &&& ~~~info.memberPorts ≠ 0 then 0 else info.untaggedPorts
  { info with
    memberPorts := info.memberPorts ||| bitUll port
    untaggedPorts :=
      if untagged then untaggedPorts ||| bitUll port else untaggedPorts &&& ~~~bitUll port }

def infoDel (port : Nat) (info : VlanInfo) : VlanInfo :=
  { info with
    untaggedPorts := info.untaggedPorts &&& ~~~bitUll port
    memberPorts := info.memberPorts &&& ~~~bitUll port }

/-- The CPU port keeps PVID 0. -/
def pvidAdd (f : Family) (s : State) (port : Nat) (vid : Fin 4096) (flags : Flags) : State :=
  if port ≠ f.cpuPort then
    if flags.pvid then s.vlanSetPvid port vid
    else if s.pvid port = vid then s.vlanSetPvid port 0
    else s
  else s

/-- `rtl83xx_vlan_add` -/
def vlanAdd (f : Family) (s : State) (port vid : Nat) (flags : Flags) : Option Mst.Errno × State :=
  if vid = 0 then (none, s)
  else if h : 4095 < vid then (some .enotsupp, s)
  else
    let vid : Fin 4096 := ⟨vid, by omega⟩
    let s := pvidAdd f (vlanPrepare f s) port vid flags
    let info := infoAdd port flags.untagged (s.vlanTablesRead f vid)
    (none, (s.vlanSetUntagged f vid info.untaggedPorts).vlanSetTagged f vid info)

/-- The PVID is reset when the port leaves its VLAN. -/
def pvidDel (s : State) (port : Nat) (vid : Fin 4096) : State :=
  if vid = s.pvid port then s.vlanSetPvid port 0 else s

/-- VLANs without members are set back (implicitly) to CIST by DSA. -/
def infoEmptied (info : VlanInfo) : VlanInfo :=
  if info.memberPorts = 0 then { info with fid := 0 } else info

def mstEmptied (f : Family) (mst : Mst.State) (info : VlanInfo) : Mst.State :=
  if info.memberPorts = 0 then Mst.mstPutSlot f mst info.fid.toNat else mst

/-- `rtl83xx_vlan_del` -/
def vlanDel (f : Family) (s : State) (port vid : Nat) : Option Mst.Errno × State :=
  if vid = 0 then (none, s)
  else if h : 4095 < vid then (some .enotsupp, s)
  else
    let vid : Fin 4096 := ⟨vid, by omega⟩
    let s := pvidDel s port vid
    let info := infoDel port (s.vlanTablesRead f vid)
    let s := { s with mst := mstEmptied f s.mst info }
    let info := infoEmptied info
    (none, (s.vlanSetUntagged f vid info.untaggedPorts).vlanSetTagged f vid info)

/-- `rtldsa_vlan_msti_set` -/
def vlanMstiSet (s : State) (vid : Fin 4096) (msti : Nat) (dp : Nat → DsaPort) :
    Option Mst.Errno × State :=
  let info := s.vlanTablesRead cfg.family vid
  match Mst.mstReplace cfg dp s.mst msti info.fid.toNat with
  | (.error e, mst) => (some e, { s with mst := mst })
  | (.ok mstSlot, mst) =>
    (none, { s with mst := mst }.vlanSetTagged cfg.family vid
      { info with fid := BitVec.ofNat 8 mstSlot })

inductive Request (f : Family) where
  | add (port : Fin (f.cpuPort + 1)) (vid : Nat) (flags : Flags)
  | del (port : Fin (f.cpuPort + 1)) (vid : Nat)

def Request.vid {f : Family} : Request f → Nat
  | .add _ vid _ | .del _ vid => vid

def serve (f : Family) (s : State) : Request f → Option Mst.Errno × State
  | .add port vid flags => vlanAdd f s port vid flags
  | .del port vid => vlanDel f s port vid

/-- A request, or the assignment of an MSTI to a VLAN while the DSA core has the ports in some
    states. -/
inductive Op (f : Family) where
  | request (r : Request f)
  | mstiSet (vid : Fin 4096) (msti : Nat) (dp : Nat → DsaPort)

def step (s : State) : Op cfg.family → Option Mst.Errno × State
  | .request r => serve cfg.family s r
  | .mstiSet vid msti dp => vlanMstiSet cfg s vid msti dp

def run (s : State) (ops : List (Op cfg.family)) : State :=
  ops.foldl (fun s op => (step cfg s op).2) s

/-! ## The rows as they are read -/

namespace State

def tagged (f : Family) (s : State) (vid : Fin 4096) : VlanInfo := f.readTagged (s.table vid)

def untagged (f : Family) (s : State) (vid : Fin 4096) : BitVec 64 := f.readUntag (s.untag vid)

variable {f : Family} {s : State} {vid : Fin 4096}

theorem vlanTablesRead_eq (f : Family) (s : State) (vid : Fin 4096) :
    s.vlanTablesRead f vid = { s.tagged f vid with untaggedPorts := s.untagged f vid } := rfl

@[simp] theorem tagged_vlanSetUntagged (pm : BitVec 64) :
    (s.vlanSetUntagged f vid pm).tagged f = s.tagged f := rfl

@[simp] theorem tagged_vlanSetPvid (port pvid : Nat) :
    (s.vlanSetPvid port pvid).tagged f = s.tagged f := rfl

@[simp] theorem untagged_vlanSetTagged (info : VlanInfo) :
    (s.vlanSetTagged f vid info).untagged f = s.untagged f := rfl

@[simp] theorem untagged_vlanSetPvid (port pvid : Nat) :
    (s.vlanSetPvid port pvid).untagged f = s.untagged f := rfl

@[simp] theorem pvid_vlanSetTagged (info : VlanInfo) :
    (s.vlanSetTagged f vid info).pvid = s.pvid := rfl

@[simp] theorem pvid_vlanSetUntagged (pm : BitVec 64) :
    (s.vlanSetUntagged f vid pm).pvid = s.pvid := rfl

@[simp] theorem mst_vlanSetTagged (info : VlanInfo) :
    (s.vlanSetTagged f vid info).mst = s.mst := rfl

@[simp] theorem mst_vlanSetUntagged (pm : BitVec 64) :
    (s.vlanSetUntagged f vid pm).mst = s.mst := rfl

theorem tagged_vlanSetTagged {info : VlanInfo} (h : f.Fits info) :
    (s.vlanSetTagged f vid info).tagged f =
      update (s.tagged f) vid { info with untaggedPorts := 0 } := by
  funext u
  by_cases hu : u = vid
  · subst hu
    simp [tagged, vlanSetTagged, Family.readTagged_vlanSetTagged h]
  · simp [tagged, vlanSetTagged, hu]

theorem untagged_vlanSetUntagged {pm : BitVec 64} (h : f.Ports pm) :
    (s.vlanSetUntagged f vid pm).untagged f = update (s.untagged f) vid pm := by
  funext u
  by_cases hu : u = vid
  · subst hu
    simp [untagged, vlanSetUntagged, Family.readUntag_vlanSetUntagged f h]
  · simp [untagged, vlanSetUntagged, hu]

theorem untagged_vlanSetUntagged_of_ne {pm : BitVec 64} {u : Fin 4096} (hu : u ≠ vid) :
    (s.vlanSetUntagged f vid pm).untagged f u = s.untagged f u := by
  simp [untagged, vlanSetUntagged, hu]

theorem tagged_untaggedPorts : (s.tagged f vid).untaggedPorts = 0 :=
  Family.readTagged_untagged f _

end State

/-- Every row holds what its encoder can write. -/
def Wf (f : Family) (s : State) : Prop := ∀ vid, f.Fits (s.tagged f vid)

variable {f : Family} {s : State} {vid : Fin 4096} {info : VlanInfo} {ops : List (Op cfg.family)}
  {port : Nat}

theorem Wf.read (h : Wf f s) (vid : Fin 4096) :
    f.Fits (s.vlanTablesRead f vid) := by
  obtain ⟨h₁, h₂, h₃, h₄, h₅, h₆, h₇, h₈⟩ := h vid
  exact ⟨h₁, h₂, h₃, h₄, h₅, h₆, h₇, h₈⟩

theorem tagged_vlanPrepare (h : Wf f s) :
    (vlanPrepare f s).tagged f = s.tagged f := by
  unfold vlanPrepare
  rw [State.tagged_vlanSetTagged (h.read 1), State.tagged_vlanSetUntagged,
    update_eq_self_iff, State.vlanTablesRead_eq, ← State.tagged_untaggedPorts (f := f)]

/-- It changes nothing in a row of the untag table that has bits of ports only. -/
theorem untagged_vlanPrepare (h : vid = 1 → f.Ports (s.untagged f vid)) :
    (vlanPrepare f s).untagged f vid = s.untagged f vid := by
  unfold vlanPrepare
  rw [State.untagged_vlanSetTagged]
  by_cases hvid : vid = 1
  · subst hvid
    have hread : (s.vlanTablesRead f 1).untaggedPorts = s.untagged f 1 := rfl
    rw [hread, State.untagged_vlanSetUntagged (h rfl), update_self]
  · exact State.untagged_vlanSetUntagged_of_ne hvid

/-! ## One request -/

section Info

variable {f : Family} {info : VlanInfo} {port : Nat}

theorem Ports.or_bitUll {pm : BitVec 64} (h : f.Ports pm) (hport : port ≤ f.cpuPort) :
    f.Ports (pm ||| bitUll port) := by
  intro i hi
  have hne : port ≠ i := by omega
  simp [h i hi, hne]

theorem Ports.and {pm qm : BitVec 64} (h : f.Ports pm) : f.Ports (pm &&& qm) := by
  intro i hi
  simp [h i hi]

theorem infoAdd_memberPorts (untagged : Bool) :
    (infoAdd port untagged info).memberPorts = info.memberPorts ||| bitUll port := by
  simp only [infoAdd]
  split <;> rfl

theorem fits_infoAdd (h : f.Fits info) (hport : port ≤ f.cpuPort) (untagged : Bool) :
    f.Fits (infoAdd port untagged info) where
  members := by
    rw [infoAdd_memberPorts]
    exact Ports.or_bitUll h.members hport
  fid := by
    have hpos : 0 < f.nMst := by cases f <;> decide
    simp only [infoAdd]
    split
    · simpa using hpos
    · exact h.fid
  profile := by
    simp only [infoAdd]
    split
    · simp
    · exact h.profile
  mc hf := by
    simp only [infoAdd]
    split
    · rfl
    · exact h.mc hf
  uc hf := by
    simp only [infoAdd]
    split
    · rfl
    · exact h.uc hf
  ifId := by
    simp only [infoAdd]
    split <;> exact h.ifId
  grp hf := by
    simp only [infoAdd]
    split <;> exact h.grp hf
  tunnel := by
    simp only [infoAdd]
    split <;> exact h.tunnel

theorem fits_infoDel (h : f.Fits info) : f.Fits (infoDel port info) where
  members := Ports.and h.members
  fid := h.fid
  profile := h.profile
  mc := h.mc
  uc := h.uc
  ifId := h.ifId
  grp := h.grp
  tunnel := h.tunnel

theorem Fits.fid_eq (h : f.Fits info) {fid : BitVec 8} (hfid : fid.toNat < f.nMst) :
    f.Fits { info with fid := fid } where
  members := h.members
  fid := hfid
  profile := h.profile
  mc := h.mc
  uc := h.uc
  ifId := h.ifId
  grp := h.grp
  tunnel := h.tunnel

end Info

section Info

variable {f : Family} {info : VlanInfo} {port : Nat} {untagged : Bool}

theorem infoAdd_with (pm : BitVec 64) :
    { infoAdd port untagged { info with untaggedPorts := pm } with untaggedPorts := 0 } =
      { infoAdd port untagged info with untaggedPorts := 0 } := by
  simp only [infoAdd]
  split <;> rfl

/-- The untagged ports that an addition keeps: members only. -/
def keptUntagged (info : VlanInfo) : BitVec 64 :=
  if info.untaggedPorts &&& ~~~info.memberPorts ≠ 0 then 0 else info.untaggedPorts

theorem infoAdd_untaggedPorts :
    (infoAdd port untagged info).untaggedPorts =
      if untagged then keptUntagged info ||| bitUll port else keptUntagged info &&& ~~~bitUll port := by
  by_cases hempty : info.memberPorts = 0
  · simp only [infoAdd, keptUntagged, hempty, if_true]
  · simp only [infoAdd, keptUntagged, hempty, if_false]

theorem keptUntagged_member {i : Nat} (hi : (keptUntagged info).getLsbD i = true) :
    info.memberPorts.getLsbD i = true := by
  unfold keptUntagged at hi
  split at hi
  · simp at hi
  · rename_i hsub
    have hzero : info.untaggedPorts &&& ~~~info.memberPorts = 0 := not_not.mp hsub
    have hbit := congrArg (fun v => v.getLsbD i) hzero
    have hlt := lt_of_getLsbD hi
    simpa [hi, hlt] using hbit

/-- Untagged ports that are members are kept. -/
theorem keptUntagged_of_members (h : ∀ i, info.untaggedPorts.getLsbD i = true →
    info.memberPorts.getLsbD i = true) : keptUntagged info = info.untaggedPorts := by
  unfold keptUntagged
  rw [if_neg]
  rw [not_not]
  apply eq_of_getLsbD_eq
  intro i hi
  cases hbit : info.untaggedPorts.getLsbD i with
  | false => simp [hbit]
  | true => simp [hbit, h i hbit]

theorem keptUntagged_of_empty (h : info.memberPorts = 0) : keptUntagged info = 0 := by
  apply eq_of_getLsbD_eq
  intro i hi
  cases hbit : (keptUntagged info).getLsbD i with
  | false => simp
  | true =>
    have hmember := keptUntagged_member hbit
    simp [h] at hmember

theorem ports_infoAdd (h : f.Fits info) (hport : port ≤ f.cpuPort) :
    f.Ports (infoAdd port untagged info).untaggedPorts := by
  have hkept : f.Ports (keptUntagged info) := by
    intro i hi
    cases hbit : (keptUntagged info).getLsbD i with
    | false => rfl
    | true =>
      have hmember := keptUntagged_member hbit
      rw [h.members i hi] at hmember
      cases hmember
  rw [infoAdd_untaggedPorts]
  split
  · exact Ports.or_bitUll hkept hport
  · exact Ports.and hkept

end Info

variable {f : Family} {s : State} {vid : Fin 4096} {port : Nat}

@[simp] theorem tagged_pvidAdd (flags : Flags) :
    (pvidAdd f s port vid flags).tagged f = s.tagged f := by
  unfold pvidAdd
  split_ifs <;> rfl

@[simp] theorem untagged_pvidAdd (flags : Flags) :
    (pvidAdd f s port vid flags).untagged f = s.untagged f := by
  unfold pvidAdd
  split_ifs <;> rfl

@[simp] theorem tagged_pvidDel : (pvidDel s port vid).tagged f = s.tagged f := by
  unfold pvidDel
  split <;> rfl

@[simp] theorem untagged_pvidDel : (pvidDel s port vid).untagged f = s.untagged f := by
  unfold pvidDel
  split <;> rfl

@[simp] theorem mst_pvidDel : (pvidDel s port vid).mst = s.mst := by
  unfold pvidDel
  split <;> rfl

@[simp] theorem mst_pvidAdd (flags : Flags) : (pvidAdd f s port vid flags).mst = s.mst := by
  unfold pvidAdd
  split_ifs <;> rfl

/-- What an addition to a VLAN does. -/
theorem vlanAdd_spec (h : Wf f s) (hport : port ≤ f.cpuPort) (hvid : vid ≠ 0) (flags : Flags) :
    let s₁ := vlanPrepare f s
    let info := infoAdd port flags.untagged (s₁.vlanTablesRead f vid)
    let s' := (vlanAdd f s port vid flags).2
    s'.tagged f = update (s.tagged f) vid
        { infoAdd port flags.untagged (s.tagged f vid) with untaggedPorts := 0 } ∧
      s'.untagged f = update (s₁.untagged f) vid info.untaggedPorts ∧
      s'.pvid = (pvidAdd f s port vid flags).pvid ∧ s'.mst = s.mst := by
  intro s₁ info s'
  have hne : vid.val ≠ 0 := fun h0 => hvid (Fin.ext h0)
  have hle : ¬ 4095 < vid.val := by omega
  have htagged₁ : s₁.tagged f = s.tagged f := tagged_vlanPrepare h
  have hread : (pvidAdd f s₁ port vid flags).vlanTablesRead f vid = s₁.vlanTablesRead f vid := by
    simp only [State.vlanTablesRead_eq, tagged_pvidAdd, untagged_pvidAdd]
  have hfits : f.Fits (s₁.vlanTablesRead f vid) := by
    have hwf : Wf f s₁ := fun v => htagged₁ ▸ h v
    exact hwf.read vid
  have hs' : s' = ((pvidAdd f s₁ port vid flags).vlanSetUntagged f vid
      info.untaggedPorts).vlanSetTagged f vid info := by
    simp only [s', vlanAdd, hne, hle, if_false, dif_neg, not_false_eq_true]
    rw [hread]
  refine ⟨?_, ?_, ?_, ?_⟩
  · rw [hs', State.tagged_vlanSetTagged (fits_infoAdd hfits hport _),
      State.tagged_vlanSetUntagged, tagged_pvidAdd, htagged₁]
    congr 1
    simp only [State.vlanTablesRead_eq, htagged₁]
    exact infoAdd_with _
  · rw [hs', State.untagged_vlanSetTagged,
      State.untagged_vlanSetUntagged (ports_infoAdd hfits hport), untagged_pvidAdd]
  · rw [hs']
    have hpvid : s₁.pvid = s.pvid := rfl
    simp only [State.pvid_vlanSetTagged, State.pvid_vlanSetUntagged, pvidAdd, hpvid]
    split_ifs <;> simp only [State.vlanSetPvid, hpvid]
  · rw [hs']
    simp only [State.mst_vlanSetTagged, State.mst_vlanSetUntagged, mst_pvidAdd]
    rfl

theorem fits_infoEmptied (h : f.Fits info) : f.Fits (infoEmptied info) := by
  have hzero : (0 : BitVec 8).toNat < f.nMst := by cases f <;> decide
  unfold infoEmptied
  split
  · exact Fits.fid_eq h hzero
  · exact h

theorem infoEmptied_untaggedPorts (info : VlanInfo) :
    (infoEmptied info).untaggedPorts = info.untaggedPorts := by
  unfold infoEmptied
  split <;> rfl

theorem infoEmptied_memberPorts (info : VlanInfo) :
    (infoEmptied info).memberPorts = info.memberPorts := by
  unfold infoEmptied
  split <;> rfl

theorem infoEmptied_with (info : VlanInfo) (pm : BitVec 64) :
    { infoEmptied info with untaggedPorts := pm } =
      infoEmptied { info with untaggedPorts := pm } := by
  simp only [infoEmptied]
  split <;> rfl

/-- What a deletion from a VLAN does. -/
theorem vlanDel_spec (h : Wf f s) (port : Nat) (hvid : vid ≠ 0) :
    let info := infoDel port (s.tagged f vid)
    let s' := (vlanDel f s port vid).2
    s'.tagged f = update (s.tagged f) vid (infoEmptied info) ∧
      (∀ u, u ≠ vid → s'.untagged f u = s.untagged f u) ∧
      (f.Ports (s.untagged f vid) →
        s'.untagged f vid = s.untagged f vid &&& ~~~bitUll port) ∧
      s'.pvid = (pvidDel s port vid).pvid ∧ s'.mst = mstEmptied f s.mst info := by
  intro info s'
  have hne : vid.val ≠ 0 := fun h0 => hvid (Fin.ext h0)
  have hle : ¬ 4095 < vid.val := by omega
  have hread : (pvidDel s port vid).vlanTablesRead f vid = s.vlanTablesRead f vid := by
    simp only [State.vlanTablesRead_eq, tagged_pvidDel, untagged_pvidDel]
  have hfits : f.Fits (infoEmptied (infoDel port (s.vlanTablesRead f vid))) :=
    fits_infoEmptied (fits_infoDel (h.read vid))
  have huntagged : (infoEmptied (infoDel port (s.vlanTablesRead f vid))).untaggedPorts =
      s.untagged f vid &&& ~~~bitUll port := infoEmptied_untaggedPorts _
  have hs' : s' = (({ pvidDel s port vid with
      mst := mstEmptied f s.mst (infoDel port (s.vlanTablesRead f vid)) } :
      State).vlanSetUntagged f vid (s.untagged f vid &&& ~~~bitUll port)).vlanSetTagged f vid
      (infoEmptied (infoDel port (s.vlanTablesRead f vid))) := by
    simp only [s', vlanDel, hne, hle, if_false, dif_neg, not_false_eq_true]
    rw [hread, mst_pvidDel, huntagged]
  refine ⟨?_, ?_, ?_, ?_, ?_⟩
  · rw [hs', State.tagged_vlanSetTagged hfits, State.tagged_vlanSetUntagged]
    have htagged : ({ pvidDel s port vid with
        mst := mstEmptied f s.mst (infoDel port (s.vlanTablesRead f vid)) } : State).tagged f =
        s.tagged f := tagged_pvidDel
    rw [htagged]
    congr 1
    have hzero : (s.tagged f vid).untaggedPorts = 0 := State.tagged_untaggedPorts
    have hinfo : info = { infoDel port (s.vlanTablesRead f vid) with untaggedPorts := 0 } := by
      simp [info, infoDel, State.vlanTablesRead_eq, hzero]
    rw [hinfo]
    exact infoEmptied_with _ _
  · intro u hu
    rw [hs', State.untagged_vlanSetTagged, State.untagged_vlanSetUntagged_of_ne hu]
    exact congrFun untagged_pvidDel u
  · intro hports
    rw [hs', State.untagged_vlanSetTagged, State.untagged_vlanSetUntagged (Ports.and hports),
      update_self]
  · rw [hs']
    rfl
  · rw [hs']
    rfl

theorem Wf.vlanAdd (h : Wf f s) (hport : port ≤ f.cpuPort) (hvid : vid ≠ 0) (flags : Flags) :
    Wf f (vlanAdd f s port vid flags).2 := by
  obtain ⟨htagged, -⟩ := vlanAdd_spec h hport hvid flags
  intro u
  rw [htagged]
  by_cases hu : u = vid
  · subst hu
    rw [update_self]
    obtain ⟨h₁, h₂, h₃, h₄, h₅, h₆, h₇, h₈⟩ := fits_infoAdd (h u) hport flags.untagged
    exact ⟨h₁, h₂, h₃, h₄, h₅, h₆, h₇, h₈⟩
  · rw [update_of_ne hu]
    exact h u

theorem Wf.vlanDel (h : Wf f s) (port : Nat) (hvid : vid ≠ 0) : Wf f (vlanDel f s port vid).2 := by
  obtain ⟨htagged, -⟩ := vlanDel_spec h port hvid
  intro u
  rw [htagged]
  by_cases hu : u = vid
  · subst hu
    rw [update_self]
    exact fits_infoEmptied (fits_infoDel (h u))
  · rw [update_of_ne hu]
    exact h u

/-! ## What the requests ask for -/

/-- Whether the last addition of a port is untagged, and none after its deletion. -/
def noted (port vid : Nat) (last : Option Bool) : Op f → Option Bool
  | .request (.add p v flags) => if p.val = port ∧ v = vid then some flags.untagged else last
  | .request (.del p v) => if p.val = port ∧ v = vid then none else last
  | .mstiSet .. => last

def lastAdd (ops : List (Op f)) (port vid : Nat) : Option Bool := ops.foldl (noted port vid) none

def Added (ops : List (Op f)) (vid : Nat) : Prop :=
  ∃ port flags, Op.request (.add port vid flags) ∈ ops

theorem lastAdd_concat (ops : List (Op f)) (op : Op f) (port vid : Nat) :
    lastAdd (ops ++ [op]) port vid = noted port vid (lastAdd ops port vid) op := by
  simp [lastAdd]

theorem added_concat {ops : List (Op f)} {op : Op f} {vid : Nat} :
    Added (ops ++ [op]) vid ↔ Added ops vid ∨ ∃ port flags, op = .request (.add port vid flags) := by
  simp only [Added, mem_append, mem_singleton]
  constructor
  · rintro ⟨port, flags, h | h⟩
    · exact .inl ⟨port, flags, h⟩
    · exact .inr ⟨port, flags, h.symm⟩
  · rintro (⟨port, flags, h⟩ | ⟨port, flags, h⟩)
    · exact ⟨port, flags, .inl h⟩
    · exact ⟨port, flags, .inr h.symm⟩

theorem lastAdd_of_not_added {ops : List (Op f)} {vid : Nat} (h : ¬ Added ops vid) :
    lastAdd ops port vid = none := by
  induction ops using reverseRecOn with
  | nil => rfl
  | append_singleton ops op ih =>
    rw [added_concat, not_or] at h
    rw [lastAdd_concat, ih h.1]
    cases op with
    | mstiSet => rfl
    | request r =>
      cases r with
      | del p v => simp [noted]
      | add p v flags =>
        have hv : v ≠ vid := by
          rintro rfl
          exact h.2 ⟨p, flags, rfl⟩
        simp [noted, hv]

/-- What the tables hold after some requests and assignments. -/
structure Inv (ops : List (Op cfg.family)) (s : State) : Prop where
  wf : Wf cfg.family s
  members : ∀ vid : Fin 4096, vid ≠ 0 → ∀ port,
    (s.tagged cfg.family vid).memberPorts.getLsbD port = (lastAdd ops port vid).isSome
  zero : ∀ port, (s.tagged cfg.family 0).memberPorts.getLsbD port =
    decide (port ≤ cfg.family.cpuPort)
  untagged : ∀ vid : Fin 4096, vid ≠ 0 → Added ops vid → ∀ port,
    (s.untagged cfg.family vid).getLsbD port = (lastAdd ops port vid == some true)
  pvid : ∀ port, s.pvid port = 0 ∨ ∃ vid : Fin 4096, vid ≠ 0 ∧ s.pvid port = vid ∧
    (s.tagged cfg.family vid).memberPorts.getLsbD port = true

variable {cfg}

/-- The untagged ports are members. -/
theorem Inv.untagged_member (h : Inv cfg ops s) (hvid : vid ≠ 0) (hadded : Added ops vid) (i : Nat)
    (hi : (s.untagged cfg.family vid).getLsbD i = true) :
    (s.tagged cfg.family vid).memberPorts.getLsbD i = true := by
  rw [h.untagged vid hvid hadded, beq_iff_eq] at hi
  rw [h.members vid hvid, hi]
  rfl

theorem Inv.untagged_ports (h : Inv cfg ops s) (hvid : vid ≠ 0) (hadded : Added ops vid) :
    cfg.family.Ports (s.untagged cfg.family vid) := by
  intro i hi
  cases hbit : (s.untagged cfg.family vid).getLsbD i with
  | false => rfl
  | true =>
    have hmember := h.untagged_member hvid hadded i hbit
    rw [(h.wf vid).members i hi] at hmember
    cases hmember

/-- What an addition keeps of the untagged ports is right, also where the row held anything. -/
theorem Inv.kept (h : Inv cfg ops s) (hvid : vid ≠ 0) (port : Nat) :
    (keptUntagged ((vlanPrepare cfg.family s).vlanTablesRead cfg.family vid)).getLsbD port =
      (lastAdd ops port vid == some true) := by
  have hmembers : ((vlanPrepare cfg.family s).vlanTablesRead cfg.family vid).memberPorts =
      (s.tagged cfg.family vid).memberPorts := by
    rw [State.vlanTablesRead_eq, tagged_vlanPrepare h.wf]
  by_cases hadded : Added ops vid
  · have huntagged : ((vlanPrepare cfg.family s).vlanTablesRead cfg.family vid).untaggedPorts =
        s.untagged cfg.family vid :=
      untagged_vlanPrepare fun _ => h.untagged_ports hvid hadded
    rw [keptUntagged_of_members, huntagged, h.untagged vid hvid hadded]
    intro i hi
    rw [huntagged] at hi
    rw [hmembers]
    exact h.untagged_member hvid hadded i hi
  · have hnone : ∀ q, lastAdd ops q vid = none := fun q => lastAdd_of_not_added hadded
    rw [keptUntagged_of_empty, hnone]
    · simp
    · rw [hmembers]
      apply eq_of_getLsbD_eq
      intro i hi
      rw [h.members vid hvid, hnone]
      simp

theorem bitUll_bit {i : Nat} (hport : port < 64) :
    (bitUll port).getLsbD i = decide (port = i) := by
  simp [hport]

theorem port_lt (port : Fin (cfg.family.cpuPort + 1)) : port.val < 64 := by
  have := cfg.family.cpuPort_lt
  omega

theorem Inv.add (h : Inv cfg ops s) (port : Fin (cfg.family.cpuPort + 1)) (hvid : vid ≠ 0)
    (flags : Flags) :
    Inv cfg (ops ++ [.request (.add port vid flags)])
      (vlanAdd cfg.family s port vid flags).2 := by
  have hle : port.val ≤ cfg.family.cpuPort := by omega
  obtain ⟨htagged, huntagged, hpvid, -⟩ := vlanAdd_spec h.wf hle hvid flags
  -- the members of the VLAN, and those of the others
  have hself : ∀ q, ((vlanAdd cfg.family s port vid flags).2.tagged cfg.family vid).memberPorts.getLsbD
      q = ((s.tagged cfg.family vid).memberPorts.getLsbD q || decide (port.val = q)) := by
    intro q
    rw [htagged, update_self]
    simp only [infoAdd_memberPorts, getLsbD_or, bitUll_bit (port_lt port)]
  have hother : ∀ u, u ≠ vid → (vlanAdd cfg.family s port vid flags).2.tagged cfg.family u =
      s.tagged cfg.family u := by
    intro u hu
    rw [htagged, update_of_ne hu]
  have hgrow : ∀ u q, (s.tagged cfg.family u).memberPorts.getLsbD q = true →
      ((vlanAdd cfg.family s port vid flags).2.tagged cfg.family u).memberPorts.getLsbD q = true := by
    intro u q hq
    by_cases hu : u = vid
    · subst hu
      rw [hself, hq, Bool.true_or]
    · rw [hother u hu, hq]
  have hnoted : ∀ u : Fin 4096, u ≠ vid → ∀ q last,
      noted q u last (.request (.add port vid flags)) = last := by
    intro u hu q last
    have hne : vid.val ≠ u.val := fun hv => hu (Fin.ext hv.symm)
    simp [noted, hne]
  refine ⟨h.wf.vlanAdd hle hvid flags, ?_, ?_, ?_, ?_⟩
  · intro u hu0 q
    rw [lastAdd_concat]
    by_cases hu : u = vid
    · subst hu
      rw [hself, h.members u hu0]
      by_cases hq : port.val = q <;> simp [noted, hq]
    · rw [hother u hu, hnoted u hu]
      exact h.members u hu0 q
  · rw [hother 0 (Ne.symm hvid)]
    exact h.zero
  · intro u hu0 hadded q
    rw [lastAdd_concat, huntagged]
    by_cases hu : u = vid
    · subst hu
      have hkept := h.kept hu0 q
      rw [update_self, infoAdd_untaggedPorts]
      by_cases hq : port.val = q
      · subst hq
        cases hflag : flags.untagged with
        | false => simp [noted, hflag]
        | true => simp [noted, hflag, port_lt port]
      · cases hflag : flags.untagged with
        | false =>
          have hlt : lastAdd ops q u = some true → q < 64 := by
            intro hlast
            rw [hlast] at hkept
            exact lt_of_getLsbD (by simpa using hkept)
          simpa [noted, hq, hkept] using hlt
        | true => simp [noted, hq, hkept]
    · rw [update_of_ne hu, hnoted u hu]
      have hold : Added ops u := by
        rcases added_concat.mp hadded with hold | ⟨p, fl, hop⟩
        · exact hold
        · injection hop with hr
          injection hr with _ hv
          exact absurd (Fin.ext hv.symm) hu
      rw [untagged_vlanPrepare fun _ => h.untagged_ports hu0 hold]
      exact h.untagged u hu0 hold q
  · intro q
    rw [hpvid]
    have hsame : ∀ q, s.pvid q = 0 ∨ ∃ u : Fin 4096, u ≠ 0 ∧ s.pvid q = u ∧
        ((vlanAdd cfg.family s port vid flags).2.tagged cfg.family u).memberPorts.getLsbD q = true := by
      intro q
      rcases h.pvid q with h0 | ⟨u, hu0, hu, hq⟩
      · exact .inl h0
      · exact .inr ⟨u, hu0, hu, hgrow u q hq⟩
    unfold pvidAdd
    split_ifs with hcpu hflag hwas
    · by_cases hq : q = port.val
      · subst hq
        exact .inr ⟨vid, hvid, by simp [State.vlanSetPvid], by rw [hself]; simp⟩
      · simpa [State.vlanSetPvid, hq] using hsame q
    · by_cases hq : q = port.val
      · subst hq
        exact .inl (by simp [State.vlanSetPvid])
      · simpa [State.vlanSetPvid, hq] using hsame q
    · exact hsame q
    · exact hsame q

theorem Inv.del (h : Inv cfg ops s) (port : Fin (cfg.family.cpuPort + 1)) (hvid : vid ≠ 0) :
    Inv cfg (ops ++ [.request (.del port vid)]) (vlanDel cfg.family s port vid).2 := by
  obtain ⟨htagged, hother, huntagged, hpvid, -⟩ := vlanDel_spec h.wf port.val hvid
  have hself : ∀ q, ((vlanDel cfg.family s port vid).2.tagged cfg.family vid).memberPorts.getLsbD q =
      ((s.tagged cfg.family vid).memberPorts.getLsbD q && !decide (port.val = q)) := by
    intro q
    rw [htagged, update_self, infoEmptied_memberPorts]
    cases hbit : (s.tagged cfg.family vid).memberPorts.getLsbD q with
    | false => simp [infoDel, hbit]
    | true =>
      have hlt := lt_of_getLsbD hbit
      simp only [infoDel, getLsbD_and, getLsbD_not, hbit, hlt,
        bitUll_bit (port_lt port), decide_true, Bool.true_and]
  have htagged' : ∀ u, u ≠ vid → (vlanDel cfg.family s port vid).2.tagged cfg.family u =
      s.tagged cfg.family u := by
    intro u hu
    rw [htagged, update_of_ne hu]
  have hnoted : ∀ u : Fin 4096, u ≠ vid → ∀ q last,
      noted q u last (.request (.del port vid)) = last := by
    intro u hu q last
    have hne : vid.val ≠ u.val := fun hv => hu (Fin.ext hv.symm)
    simp [noted, hne]
  refine ⟨h.wf.vlanDel port hvid, ?_, ?_, ?_, ?_⟩
  · intro u hu0 q
    rw [lastAdd_concat]
    by_cases hu : u = vid
    · subst hu
      rw [hself, h.members u hu0]
      by_cases hq : port.val = q <;> simp [noted, hq]
    · rw [htagged' u hu, hnoted u hu]
      exact h.members u hu0 q
  · rw [htagged' 0 (Ne.symm hvid)]
    exact h.zero
  · intro u hu0 hadded q
    have hold : Added ops u := by
      rcases added_concat.mp hadded with hold | ⟨p, fl, hop⟩
      · exact hold
      · injection hop with hr
        cases hr
    rw [lastAdd_concat]
    by_cases hu : u = vid
    · subst hu
      have hbits := h.untagged u hu0 hold q
      rw [huntagged (h.untagged_ports hu0 hold), getLsbD_and, hbits]
      by_cases hq : port.val = q
      · subst hq
        simp [noted, port_lt port]
      · have hlt : lastAdd ops q u = some true → q < 64 := by
          intro hlast
          rw [hlast] at hbits
          exact lt_of_getLsbD (by simpa using hbits)
        simpa [noted, hq] using hlt
    · rw [hother u hu, hnoted u hu]
      exact h.untagged u hu0 hold q
  · intro q
    rw [hpvid]
    have hsame : q ≠ port.val ∨ s.pvid q ≠ vid → (s.pvid q = 0 ∨ ∃ u : Fin 4096, u ≠ 0 ∧
        s.pvid q = u ∧
        ((vlanDel cfg.family s port vid).2.tagged cfg.family u).memberPorts.getLsbD q = true) := by
      intro hne
      rcases h.pvid q with h0 | ⟨u, hu0, hu, hq⟩
      · exact .inl h0
      · refine .inr ⟨u, hu0, hu, ?_⟩
        by_cases huv : u = vid
        · subst huv
          have hport : port.val ≠ q := fun hc => hne.elim (fun hc' => hc' hc.symm) fun hc' => hc' hu
          rw [hself, hq]
          simp [hport]
        · rw [htagged' u huv]
          exact hq
    unfold pvidDel
    split_ifs with hpv
    · by_cases hq : q = port.val
      · subst hq
        exact .inl (by simp [State.vlanSetPvid])
      · simpa [State.vlanSetPvid, hq] using hsame (.inl hq)
    · by_cases hq : q = port.val
      · subst hq
        exact hsame (.inr (Ne.symm hpv))
      · exact hsame (.inl hq)

/-- An assignment changes the forwarding id of its VLAN at most. -/
theorem vlanMstiSet_spec (h : Wf cfg.family s) (vid : Fin 4096) (msti : Nat) (dp : Nat → DsaPort) :
    let replaced := Mst.mstReplace cfg dp s.mst msti (s.tagged cfg.family vid).fid.toNat
    let s' := (vlanMstiSet cfg s vid msti dp).2
    s'.untagged cfg.family = s.untagged cfg.family ∧ s'.pvid = s.pvid ∧
      ((∃ e, (vlanMstiSet cfg s vid msti dp).1 = some e ∧ replaced = (.error e, s'.mst) ∧
        s'.tagged cfg.family = s.tagged cfg.family) ∨
      ∃ mstSlot, mstSlot < cfg.family.nMst ∧
        (vlanMstiSet cfg s vid msti dp).1 = none ∧ replaced = (.ok mstSlot, s'.mst) ∧
        s'.tagged cfg.family = update (s.tagged cfg.family) vid
          { s.tagged cfg.family vid with fid := BitVec.ofNat 8 mstSlot }) := by
  have hfid : (s.vlanTablesRead cfg.family vid).fid = (s.tagged cfg.family vid).fid := rfl
  have hzero : (s.tagged cfg.family vid).untaggedPorts = 0 := State.tagged_untaggedPorts
  simp only [vlanMstiSet, hfid]
  cases hreplace : Mst.mstReplace cfg dp s.mst msti (s.tagged cfg.family vid).fid.toNat with
  | mk result mst =>
    cases result with
    | error e => exact ⟨rfl, rfl, .inl ⟨e, rfl, rfl, rfl⟩⟩
    | ok mstSlot =>
      have hlt := Mst.mstReplace_lt hreplace
      have hfits : cfg.family.Fits
          { s.vlanTablesRead cfg.family vid with fid := BitVec.ofNat 8 mstSlot } := by
        refine Fits.fid_eq (h.read vid) ?_
        exact Nat.lt_of_le_of_lt (Nat.mod_le _ _) hlt
      refine ⟨rfl, rfl, .inr ⟨mstSlot, hlt, rfl, rfl, ?_⟩⟩
      refine (State.tagged_vlanSetTagged hfits).trans ?_
      simp only [State.vlanTablesRead_eq, ← hzero]
      rfl

theorem Wf.vlanMstiSet (h : Wf cfg.family s) (vid : Fin 4096) (msti : Nat) (dp : Nat → DsaPort) :
    Wf cfg.family (vlanMstiSet cfg s vid msti dp).2 := by
  intro u
  obtain ⟨-, -, ⟨e, -, -, htagged⟩ | ⟨mstSlot, hlt, -, -, htagged⟩⟩ := vlanMstiSet_spec h vid msti dp
  · rw [htagged]
    exact h u
  · rw [htagged]
    by_cases hu : u = vid
    · subst hu
      rw [update_self]
      exact Fits.fid_eq (h u) (Nat.lt_of_le_of_lt (Nat.mod_le _ _) hlt)
    · rw [update_of_ne hu]
      exact h u

theorem Inv.mstiSet (h : Inv cfg ops s) (vid : Fin 4096) (msti : Nat) (dp : Nat → DsaPort) :
    Inv cfg (ops ++ [.mstiSet vid msti dp]) (vlanMstiSet cfg s vid msti dp).2 := by
  obtain ⟨huntagged, hpvid, htagged⟩ := vlanMstiSet_spec h.wf vid msti dp
  have hmembers : ∀ u, ((vlanMstiSet cfg s vid msti dp).2.tagged cfg.family u).memberPorts =
      (s.tagged cfg.family u).memberPorts := by
    intro u
    rcases htagged with ⟨e, -, -, htagged⟩ | ⟨mstSlot, -, -, -, htagged⟩
    · rw [htagged]
    · by_cases hu : u = vid
      · subst hu
        rw [htagged, update_self]
      · rw [htagged, update_of_ne hu]
  refine ⟨h.wf.vlanMstiSet vid msti dp, ?_, ?_, ?_, ?_⟩
  · intro u hu port
    rw [lastAdd_concat, hmembers]
    exact h.members u hu port
  · rw [hmembers]
    exact h.zero
  · intro u hu hadded port
    rw [lastAdd_concat, huntagged]
    rcases added_concat.mp hadded with hold | ⟨p, fl, hop⟩
    · exact h.untagged u hu hold port
    · cases hop
  · intro port
    simp only [hpvid, hmembers]
    exact h.pvid port

/-! ## Every run -/

theorem foldl_bitUll (n j : Nat) (hn : n ≤ 64) :
    ((range n).foldl (fun pm i => pm ||| bitUll i) 0).getLsbD j = decide (j < n) := by
  induction n with
  | zero => simp
  | succ n ih =>
    have hlt : n < 64 := by omega
    rw [range_succ, foldl_append, foldl_cons, foldl_nil, getLsbD_or,
      ih (by omega), bitUll_bit hlt, ← Bool.decide_or, decide_eq_decide]
    omega

theorem fits_emptyVlan (f : Family) {pm : BitVec 64} (h : f.Ports pm) :
    f.Fits { emptyVlan f with memberPorts := pm } where
  members := h
  fid := by simpa [emptyVlan] using Mst.nMst_pos f
  profile := by simp [emptyVlan]
  mc _ := rfl
  uc _ := rfl
  ifId := rfl
  grp _ := rfl
  tunnel := rfl

/-- The VLANs as the setup leaves them. -/
theorem tagged_vlanSetup (boot : Boot cfg.family) (vid : Fin 4096) :
    cfg.family.Fits ((vlanSetup cfg boot).tagged cfg.family vid) ∧
      ((vlanSetup cfg boot).tagged cfg.family vid).fid = 0 ∧
      ∀ port, ((vlanSetup cfg boot).tagged cfg.family vid).memberPorts.getLsbD port =
        decide (vid = 0 ∧ port ≤ cfg.family.cpuPort) := by
  have hcpu := cfg.family.cpuPort_lt
  have hbits : ∀ port, ((range (cfg.family.cpuPort + 1)).foldl
      (fun pm i => pm ||| bitUll i) 0).getLsbD port = decide (port ≤ cfg.family.cpuPort) := by
    intro port
    rw [foldl_bitUll _ _ (by omega), decide_eq_decide]
    omega
  by_cases hvid : vid = 0
  · subst hvid
    have hfits : cfg.family.Fits { emptyVlan cfg.family with
        memberPorts := (range (cfg.family.cpuPort + 1)).foldl (fun pm i => pm ||| bitUll i) 0 } := by
      refine fits_emptyVlan _ ?_
      intro i hi
      rw [hbits, decide_eq_false (by omega)]
    have hread : (vlanSetup cfg boot).tagged cfg.family 0 = _ :=
      Family.readTagged_vlanSetTagged hfits
    rw [hread]
    exact ⟨fits_emptyVlan _ hfits.members, rfl, by simpa using hbits⟩
  · have hports : cfg.family.Ports 0 := fun i _ => by simp
    have hread : (vlanSetup cfg boot).tagged cfg.family vid = emptyVlan cfg.family := by
      simp only [State.tagged, vlanSetup, hvid, if_false]
      exact Family.readTagged_vlanSetTagged (fits_emptyVlan cfg.family hports)
    rw [hread]
    exact ⟨fits_emptyVlan _ hports, rfl, by simp [emptyVlan, hvid]⟩

variable {r : Request cfg.family}

/-- VLAN 0 is left alone, and there is none above 4095. -/
theorem serve_ignored (h : r.vid = 0 ∨ 4095 < r.vid) :
    (serve cfg.family s r).2 = s := by
  rcases h with h0 | hbig
  · cases r <;> simp only [Request.vid] at h0 <;> simp [serve, vlanAdd, vlanDel, h0]
  · have hne : r.vid ≠ 0 := by omega
    cases r <;> simp only [Request.vid] at hbig hne <;> simp [serve, vlanAdd, vlanDel, hne, hbig]

/-- After the setup nothing was added, and VLAN 0 has all ports. -/
theorem Inv.setup (boot : Boot cfg.family) : Inv cfg [] (vlanSetup cfg boot) where
  wf vid := (tagged_vlanSetup boot vid).1
  members vid hvid port := by
    rw [(tagged_vlanSetup boot vid).2.2]
    simp [hvid, lastAdd]
  zero port := by
    rw [(tagged_vlanSetup boot 0).2.2]
    simp
  untagged vid hvid hadded := by
    obtain ⟨port, flags, hmem⟩ := hadded
    cases hmem
  pvid _ := .inl rfl

/-- A request about no VLAN changes nothing. -/
theorem Inv.ignored (h : Inv cfg ops s) (hr : r.vid = 0 ∨ 4095 < r.vid) :
    Inv cfg (ops ++ [.request r]) s := by
  have hne : ∀ vid : Fin 4096, vid ≠ 0 → r.vid ≠ vid.val := by
    intro vid hvid hc
    rcases hr with h0 | hbig
    · exact hvid (Fin.ext (hc ▸ h0))
    · omega
  have hnoted : ∀ vid : Fin 4096, vid ≠ 0 → ∀ port last,
      noted port vid last (.request r) = last := by
    intro vid hvid port last
    have hne := hne vid hvid
    cases r <;> simp only [Request.vid] at hne <;> simp [noted, hne]
  refine ⟨h.wf, ?_, h.zero, ?_, h.pvid⟩
  · intro vid hvid port
    rw [lastAdd_concat, hnoted vid hvid]
    exact h.members vid hvid port
  · intro vid hvid hadded port
    rw [lastAdd_concat, hnoted vid hvid]
    rcases added_concat.mp hadded with hold | ⟨p, flags, hop⟩
    · exact h.untagged vid hvid hold port
    · injection hop with hr'
      exact absurd (by rw [hr']; rfl) (hne vid hvid)

/-- One request or assignment keeps the tables right. -/
theorem Inv.step (h : Inv cfg ops s) (op : Op cfg.family) :
    Inv cfg (ops ++ [op]) (step cfg s op).2 := by
  cases op with
  | mstiSet vid msti dp => exact h.mstiSet vid msti dp
  | request r =>
    simp only [Vlan.step]
    by_cases hr : r.vid = 0 ∨ 4095 < r.vid
    · rw [serve_ignored hr]
      exact h.ignored hr
    · have hlt : r.vid < 4096 := by omega
      have hne : (⟨r.vid, hlt⟩ : Fin 4096) ≠ 0 := fun h0 => hr (.inl (congrArg Fin.val h0))
      cases r with
      | add port v flags => exact h.add port hne flags
      | del port v => exact h.del port hne

theorem Inv.of_run (boot : Boot cfg.family) (ops : List (Op cfg.family)) :
    Inv cfg ops (run cfg (vlanSetup cfg boot) ops) := by
  induction ops using reverseRecOn with
  | nil => exact Inv.setup boot
  | append_singleton ops op ih =>
    have hrun : run cfg (vlanSetup cfg boot) (ops ++ [op]) =
        (Vlan.step cfg (run cfg (vlanSetup cfg boot) ops) op).2 := by
      simp [run]
    rw [hrun]
    exact ih.step op

/-- The fields that are not about ports. -/
def SameRest (info info' : VlanInfo) : Prop :=
  { info with untaggedPorts := 0, memberPorts := 0 } =
    { info' with untaggedPorts := 0, memberPorts := 0 }

theorem sameRest_infoAdd (h : info.memberPorts ≠ 0) (port : Nat) (untagged : Bool) :
    SameRest info (infoAdd port untagged info) := by
  simp only [SameRest, infoAdd, h, if_false]

theorem sameRest_infoDel (h : (infoEmptied (infoDel port info)).memberPorts ≠ 0) :
    SameRest info (infoEmptied (infoDel port info)) := by
  rw [infoEmptied_memberPorts] at h
  simp only [SameRest, infoEmptied, if_neg h]
  rfl

theorem SameRest.of_tagged {s' : State}
    (h : SameRest (s.tagged cfg.family vid) (s'.tagged cfg.family vid)) :
    SameRest (s.vlanTablesRead cfg.family vid) (s'.vlanTablesRead cfg.family vid) := h

theorem sameRest_vlanAdd (h : Wf cfg.family s) (hport : port ≤ cfg.family.cpuPort) {u : Fin 4096}
    (hvid : vid ≠ 0) (flags : Flags) (hbefore : (s.tagged cfg.family u).memberPorts ≠ 0) :
    SameRest (s.tagged cfg.family u)
      ((vlanAdd cfg.family s port vid flags).2.tagged cfg.family u) := by
  obtain ⟨htagged, -⟩ := vlanAdd_spec h hport hvid flags
  rw [htagged]
  by_cases hu : u = vid
  · subst hu
    rw [update_self]
    exact sameRest_infoAdd hbefore port flags.untagged
  · rw [update_of_ne hu]
    rfl

theorem sameRest_vlanDel (h : Wf cfg.family s) {u : Fin 4096} (hvid : vid ≠ 0)
    (hafter : ((vlanDel cfg.family s port vid).2.tagged cfg.family u).memberPorts ≠ 0) :
    SameRest (s.tagged cfg.family u) ((vlanDel cfg.family s port vid).2.tagged cfg.family u) := by
  obtain ⟨htagged, -⟩ := vlanDel_spec h port hvid
  rw [htagged] at hafter ⊢
  by_cases hu : u = vid
  · subst hu
    rw [update_self] at hafter ⊢
    exact sameRest_infoDel hafter
  · rw [update_of_ne hu]
    rfl

/-- A request keeps the other fields of a VLAN that has members before and after. -/
theorem sameRest_serve {s : State} (h : Wf cfg.family s) (r : Request cfg.family)
    {u : Fin 4096} (hbefore : (s.tagged cfg.family u).memberPorts ≠ 0)
    (hafter : ((serve cfg.family s r).2.tagged cfg.family u).memberPorts ≠ 0) :
    SameRest (s.tagged cfg.family u) ((serve cfg.family s r).2.tagged cfg.family u) := by
  by_cases hr : r.vid = 0 ∨ 4095 < r.vid
  · rw [serve_ignored hr]
    rfl
  have hlt : r.vid < 4096 := by omega
  have hne : (⟨r.vid, hlt⟩ : Fin 4096) ≠ 0 := fun h0 => hr (.inl (congrArg Fin.val h0))
  cases r with
  | add port v flags => exact sameRest_vlanAdd h (by omega) hne flags hbefore
  | del port v => exact sameRest_vlanDel h hne hafter

/-- For every family, whatever the untag table held at boot, and after any requests and
    assignments of MSTIs: the members of a VLAN are the ports whose last request was an addition,
    from the first addition on its untagged ports are those added last as untagged, VLAN 0 keeps
    all ports, and a PVID is 0 or a VLAN that the port is a member of. A further request keeps the
    other fields of every VLAN that has members before and after it. -/
theorem vlan_run (cfg : Isolation.Config) (boot : Boot cfg.family) (ops : List (Op cfg.family)) :
    let f := cfg.family
    let s := run cfg (vlanSetup cfg boot) ops
    (∀ vid : Fin 4096, vid ≠ 0 → ∀ port,
      (s.vlanTablesRead f vid).memberPorts.getLsbD port = (lastAdd ops port vid).isSome) ∧
    (∀ vid : Fin 4096, vid ≠ 0 → Added ops vid → ∀ port,
      (s.vlanTablesRead f vid).untaggedPorts.getLsbD port = (lastAdd ops port vid == some true)) ∧
    (∀ port, (s.vlanTablesRead f 0).memberPorts.getLsbD port = decide (port ≤ f.cpuPort)) ∧
    (∀ port, s.pvid port = 0 ∨ ∃ vid : Fin 4096, s.pvid port = vid ∧
      (s.vlanTablesRead f vid).memberPorts.getLsbD port = true) ∧
    ∀ (r : Request f) (vid : Fin 4096),
      let s' := (serve f s r).2
      (s.vlanTablesRead f vid).memberPorts ≠ 0 → (s'.vlanTablesRead f vid).memberPorts ≠ 0 →
        SameRest (s.vlanTablesRead f vid) (s'.vlanTablesRead f vid) := by
  have h := Inv.of_run boot ops
  refine ⟨h.members, h.untagged, h.zero, ?_, ?_⟩
  · intro port
    rcases h.pvid port with h0 | ⟨vid, -, hvid, hmember⟩
    · exact .inl h0
    · exact .inr ⟨vid, hvid, hmember⟩
  · intro r vid s' hbefore hafter
    exact (sameRest_serve h.wf r hbefore hafter).of_tagged

/-! ## Before the first addition -/

def twoPorts : Isolation.Config where
  family := .rtl838x
  user := [8, 9]
  nodup := by decide
  below := by decide

/-- The untag table has bits of an earlier configuration. -/
def usedBefore : Boot twoPorts.family where
  untag _ := [0x300]
  stp _ := [0, 0]
  stp_words _ := rfl

/-- After the setup, without any request, port 8 is a member of VLAN 0 and an untagged port
    of VLAN 5. -/
theorem vlan_setup_not_empty :
    let s := run twoPorts (vlanSetup twoPorts usedBefore) []
    (s.vlanTablesRead .rtl838x 0).memberPorts.getLsbD 8 = true ∧
      (s.vlanTablesRead .rtl838x 5).untaggedPorts.getLsbD 8 = true ∧
      ∀ vid, lastAdd ([] : List (Op twoPorts.family)) 8 vid = none := by
  refine ⟨?_, ?_, fun _ => rfl⟩
  · decide
  · decide

end LibWrt.Rtl83xx.Vlan
