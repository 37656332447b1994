/-
LibWrt.Rtl83xx.VlanTable — the packed rows of the VLAN tables.

A VLAN has a row in the VLAN table (its members, its forwarding id, its
profile and two hash flags) and one in the untag table. Each family packs
them with encoders of its own. `readTagged_vlanSetTagged` and
`readUntag_vlanSetUntagged` say that what fits into a row is read back as
it was written.

On the RTL839x the hash flags are written into the second word and read from
the third one, so only rows without them come back unchanged; the interface
id of the RTL931x is lost on a write. Both are always clear here.
-/
import LibWrt.Rtl83xx.Isolation

namespace LibWrt.Rtl83xx

open BitVec List

/-- `struct rtl838x_vlan_info` -/
structure VlanInfo where
  untaggedPorts : BitVec 64
  memberPorts : BitVec 64
  profileId : BitVec 8
  hashMcFid : Bool
  hashUcFid : Bool
  fid : BitVec 8
  -- only the RTL931x has the rest
  ifId : BitVec 32
  multicastGrpMask : BitVec 16
  l2TunnelListId : BitVec 32
  deriving DecidableEq

/-- `b ? BIT(i) : 0` -/
def flagBit (b : Bool) (i : Nat) : BitVec 32 := if b then twoPow 32 i else 0

@[simp] theorem getLsbD_flagBit (b : Bool) (i j : Nat) :
    (flagBit b i).getLsbD j = (b && decide (i < 32) && decide (i = j)) := by
  cases b <;> simp [flagBit, getLsbD_twoPow]

@[simp] theorem getElem_flagBit (b : Bool) (i : Nat) {j : Nat} (hj : j < 32) :
    (flagBit b i)[j] = (b && decide (i < 32) && decide (i = j)) := by
  rw [← getLsbD_eq_getElem, getLsbD_flagBit]

/-- `GENMASK(n - 1, 0)` -/
def lowMask (n : Nat) : BitVec w := BitVec.ofNat w (2 ^ n - 1)

@[simp] theorem getLsbD_lowMask (n j : Nat) :
    (lowMask n : BitVec w).getLsbD j = (decide (j < w) && decide (j < n)) := by
  simp [lowMask, getLsbD_ofNat, Nat.testBit_two_pow_sub_one]

@[simp] theorem getElem_lowMask (n : Nat) {j : Nat} (hj : j < w) :
    (lowMask n : BitVec w)[j] = decide (j < n) := by
  rw [← getLsbD_eq_getElem, getLsbD_lowMask]
  simp [hj]

namespace Family

/-- `n_mst` -/
def nMst : Family → Nat
  | rtl838x => 64
  | rtl839x => 256
  | rtl930x => 64
  | rtl931x => 128

/-- What `vlan_tables_read` reads from the words of the VLAN table. -/
def readTagged (f : Family) (row : List (BitVec 32)) : VlanInfo :=
  match f with
  | rtl838x =>
    let v := row.getD 1 0
    { untaggedPorts := 0
      memberPorts := (row.getD 0 0).setWidth 64
      profileId := (v &&& lowMask 3).setWidth 8
      hashMcFid := v.getLsbD 3
      hashUcFid := v.getLsbD 4
      fid := ((v >>> 5) &&& lowMask 6).setWidth 8
      ifId := 0, multicastGrpMask := 0, l2TunnelListId := 0 }
  | rtl839x =>
    let u := row.getD 0 0
    let v := row.getD 1 0
    let w := row.getD 2 0
    { untaggedPorts := 0
      memberPorts := (u.setWidth 64 <<< 21) ||| ((v >>> 11) &&& lowMask 21).setWidth 64
      profileId := (w >>> 30 ||| ((v &&& lowMask 1) <<< 2)).setWidth 8
      hashMcFid := w.getLsbD 2
      hashUcFid := w.getLsbD 3
      fid := ((v >>> 3) &&& lowMask 8).setWidth 8
      ifId := 0, multicastGrpMask := 0, l2TunnelListId := 0 }
  | rtl930x =>
    let v := row.getD 0 0
    let w := row.getD 1 0
    { untaggedPorts := 0
      memberPorts := (v >>> 3).setWidth 64
      profileId := ((w >>> 24) &&& lowMask 3).setWidth 8
      hashMcFid := w.getLsbD 27
      hashUcFid := w.getLsbD 28
      fid := (((v &&& lowMask 3) <<< 3) ||| ((w >>> 29) &&& lowMask 3)).setWidth 8
      ifId := 0, multicastGrpMask := 0, l2TunnelListId := 0 }
  | rtl931x =>
    let v := row.getD 0 0
    let w := row.getD 1 0
    let x := row.getD 2 0
    let y := row.getD 3 0
    { untaggedPorts := 0
      memberPorts := (v.setWidth 64 <<< 25) ||| (w >>> 7).setWidth 64
      profileId := ((x >>> 16) &&& lowMask 4).setWidth 8
      fid := (w &&& lowMask 7).setWidth 8
      hashUcFid := x.getLsbD 31
      hashMcFid := x.getLsbD 30
      ifId := (x >>> 20) &&& lowMask 10
      multicastGrpMask := x.setWidth 16
      l2TunnelListId := if y.getLsbD 31 then y >>> 18 else -1 }

/-- What `vlan_tables_read` reads from the words of the untag table. -/
def readUntag (f : Family) (row : List (BitVec 32)) : BitVec 64 :=
  match f with
  | rtl838x => (row.getD 0 0).setWidth 64
  | rtl839x =>
    ((row.getD 0 0).setWidth 64 <<< 21) ||| ((row.getD 1 0 >>> 11) &&& lowMask 21).setWidth 64
  | rtl930x => (row.getD 0 0 >>> 3).setWidth 64
  | rtl931x => ((row.getD 0 0).setWidth 64 <<< 25) ||| (row.getD 1 0 >>> 7).setWidth 64

/-- `vlan_set_tagged`, the words it writes -/
def vlanSetTagged (f : Family) (info : VlanInfo) : List (BitVec 32) :=
  match f with
  | rtl838x =>
    [ info.memberPorts.setWidth 32,
      info.profileId.setWidth 32 ||| flagBit info.hashMcFid 3 ||| flagBit info.hashUcFid 4 |||
        (info.fid.setWidth 32 <<< 5) ]
  | rtl839x =>
    [ (info.memberPorts >>> 21).setWidth 32,
      (info.memberPorts <<< 11).setWidth 32 ||| (info.fid.setWidth 32 <<< 3) |||
        flagBit info.hashUcFid 2 ||| flagBit info.hashMcFid 1 |||
        flagBit (info.profileId.getLsbD 2) 0,
      setWidth 32 (info.profileId &&& lowMask 2) <<< 30 ]
  | rtl930x =>
    [ (info.memberPorts <<< 3).setWidth 32 ||| (info.fid.setWidth 32 >>> 3),
      (info.fid.setWidth 32 <<< 29) ||| flagBit info.hashMcFid 27 |||
        flagBit info.hashUcFid 28 ||| (info.profileId.setWidth 32 <<< 24) ]
  | rtl931x =>
    [ (info.memberPorts >>> 25).setWidth 32,
      setWidth 32 ((info.memberPorts &&& lowMask 25) <<< 7) |||
        setWidth 32 (info.fid &&& lowMask 7),
      -- `if_id & 0x3ff << 20` masks the id with bits it does not have
      flagBit info.hashUcFid 31 ||| flagBit info.hashMcFid 30 |||
        (info.ifId &&& (lowMask 10 <<< 20)) |||
        (setWidth 32 (info.profileId &&& lowMask 4) <<< 16) |||
        info.multicastGrpMask.setWidth 32,
      if 0 ≤ info.l2TunnelListId.toInt then
        (info.l2TunnelListId <<< 18) ||| twoPow 32 31
      else 0 ]

/-- `vlan_set_untagged`, the words it writes -/
def vlanSetUntagged (f : Family) (portmask : BitVec 64) : List (BitVec 32) :=
  match f with
  | rtl838x => [portmask.setWidth 32 &&& lowMask 29]
  | rtl839x => [(portmask >>> 21).setWidth 32, (portmask <<< 11).setWidth 32]
  | rtl930x => [(portmask <<< 3).setWidth 32]
  | rtl931x => [((portmask <<< 7) >>> 32).setWidth 32, (portmask <<< 7).setWidth 32]

end Family

/-- A mask of ports that the switch has. -/
def Family.Ports (f : Family) (pm : BitVec 64) : Prop := ∀ i, f.cpuPort < i → pm.getLsbD i = false

/-- What a row can hold, where the encoder and the decoder of the family agree. -/
structure Family.Fits (f : Family) (info : VlanInfo) : Prop where
  members : f.Ports info.memberPorts
  fid : info.fid.toNat < f.nMst
  profile : info.profileId.toNat < 8
  mc : f = .rtl839x → info.hashMcFid = false
  uc : f = .rtl839x → info.hashUcFid = false
  ifId : info.ifId = 0
  grp : f ≠ .rtl931x → info.multicastGrpMask = 0
  tunnel : info.l2TunnelListId = if f = .rtl931x then -1 else 0

theorem getLsbD_eq_false_of_lt {v : BitVec w} {n i : Nat} (h : v.toNat < 2 ^ n) (hi : n ≤ i) :
    v.getLsbD i = false := by
  rw [getLsbD, Nat.testBit_lt_two_pow]
  exact lt_of_lt_of_le h (Nat.pow_le_pow_right (by decide) hi)

namespace Family

theorem readUntag_vlanSetUntagged (f : Family) {pm : BitVec 64} (hpm : f.Ports pm) :
    f.readUntag (f.vlanSetUntagged pm) = pm := by
  apply eq_of_getLsbD_eq
  intro i hi
  have hout := hpm i
  cases f with
  | rtl838x =>
    simp only [cpuPort] at hout
    simp only [readUntag, vlanSetUntagged, getD_cons_zero, getLsbD_setWidth,
      getLsbD_and, getLsbD_lowMask]
    by_cases h : 28 < i
    · simp [hout h]
    · have h29 : i < 29 := by omega
      have h32 : i < 32 := by omega
      simp [hi, h29, h32]
  | rtl839x =>
    simp only [cpuPort] at hout
    simp only [readUntag, vlanSetUntagged, getD_cons_zero, getD_cons_succ,
      getLsbD_or, getLsbD_setWidth, getLsbD_shiftLeft,
      getLsbD_ushiftRight, getLsbD_and, getLsbD_lowMask]
    by_cases h21 : i < 21
    · have h32 : 11 + i < 32 := by omega
      have h64 : 11 + i < 64 := by omega
      have h32' : i < 32 := by omega
      simp [hi, h21, h32, h64, h32']
    · have hsub : 21 + (i - 21) = i := by omega
      by_cases h : 52 < i
      · simp [hout h, hsub, h21]
      · have h32 : i - 21 < 32 := by omega
        simp [hi, h21, hsub, h32]
        omega
  | rtl930x =>
    simp only [cpuPort] at hout
    simp only [readUntag, vlanSetUntagged, getD_cons_zero, getLsbD_setWidth,
      getLsbD_shiftLeft, getLsbD_ushiftRight]
    by_cases h : 28 < i
    · simp [hout h]
    · have h32 : 3 + i < 32 := by omega
      have h64 : 3 + i < 64 := by omega
      simp [hi, h32, h64]
  | rtl931x =>
    simp only [cpuPort] at hout
    simp only [readUntag, vlanSetUntagged, getD_cons_zero, getD_cons_succ,
      getLsbD_or, getLsbD_setWidth, getLsbD_shiftLeft,
      getLsbD_ushiftRight]
    by_cases h25 : i < 25
    · have h32 : 7 + i < 32 := by omega
      have h64 : 7 + i < 64 := by omega
      simp [hi, h25, h32, h64]
    · have hsub : 32 + (i - 25) - 7 = i := by omega
      have h32 : ¬ (7 + i < 32) := by omega
      by_cases h : 56 < i
      · simp [hout h, hsub, h25, h32]
      · have h32' : i - 25 < 32 := by omega
        have h64 : 32 + (i - 25) < 64 := by omega
        have h64' : i - 25 < 64 := by omega
        have h7 : ¬ (32 + (i - 25) < 7) := by omega
        simp [hi, h25, hsub, h32, h32', h64, h64', h7]

end Family

namespace Family

variable {f : Family} {info : VlanInfo}

theorem Fits.fid_bit (h : f.Fits info) {n i : Nat} (hn : f.nMst = 2 ^ n) (hi : n ≤ i) :
    info.fid.getLsbD i = false :=
  getLsbD_eq_false_of_lt (hn ▸ h.fid) hi

theorem Fits.profile_bit (h : f.Fits info) {i : Nat} (hi : 3 ≤ i) :
    info.profileId.getLsbD i = false :=
  getLsbD_eq_false_of_lt (show _ < 2 ^ 3 from h.profile) hi

theorem readTagged_members (h : f.Fits info) :
    (f.readTagged (f.vlanSetTagged info)).memberPorts = info.memberPorts := by
  apply eq_of_getLsbD_eq
  intro i hi
  have hout := h.members i
  cases f with
  | rtl838x =>
    simp only [cpuPort] at hout
    simp only [readTagged, vlanSetTagged, getD_cons_zero, getLsbD_setWidth]
    by_cases h28 : 28 < i
    · simp [hout h28]
    · have h32 : i < 32 := by omega
      simp [hi, h32]
  | rtl839x =>
    simp only [cpuPort] at hout
    simp only [readTagged, vlanSetTagged, getD_cons_zero, getD_cons_succ,
      getLsbD_or, getLsbD_setWidth, getLsbD_shiftLeft,
      getLsbD_ushiftRight, getLsbD_and, getLsbD_lowMask, getLsbD_flagBit]
    by_cases h21 : i < 21
    · have h32 : 11 + i < 32 := by omega
      have h64 : 11 + i < 64 := by omega
      have h32' : i < 32 := by omega
      have hfid : info.fid.getLsbD (11 + i - 3) = false := h.fid_bit (n := 8) rfl (by omega)
      have h2 : ¬ (2 = 11 + i) := by omega
      have h1 : ¬ (1 = 11 + i) := by omega
      have h0 : ¬ (0 = 11 + i) := by omega
      simp [hi, h21, h32, h64, h32', hfid, h2, h1, h0]
    · have hsub : 21 + (i - 21) = i := by omega
      by_cases h52 : 52 < i
      · simp [hout h52, hsub, h21]
      · have h32 : i - 21 < 32 := by omega
        simp [hi, h21, hsub, h32]
        omega
  | rtl930x =>
    simp only [cpuPort] at hout
    simp only [readTagged, vlanSetTagged, getD_cons_zero, getD_cons_succ,
      getLsbD_or, getLsbD_setWidth, getLsbD_shiftLeft,
      getLsbD_ushiftRight]
    have hfid : info.fid.getLsbD (3 + (3 + i)) = false := h.fid_bit (n := 6) rfl (by omega)
    by_cases h28 : 28 < i
    · simp [hout h28, hfid]
    · have h32 : 3 + i < 32 := by omega
      have h64 : 3 + i < 64 := by omega
      simp [hi, h32, h64, hfid]
  | rtl931x =>
    simp only [cpuPort] at hout
    simp only [readTagged, vlanSetTagged, getD_cons_zero, getD_cons_succ,
      getLsbD_or, getLsbD_setWidth, getLsbD_shiftLeft,
      getLsbD_ushiftRight, getLsbD_and, getLsbD_lowMask]
    have hfid : info.fid.getLsbD (7 + i) = false := h.fid_bit (n := 7) rfl (by omega)
    by_cases h25 : i < 25
    · have h32 : 7 + i < 32 := by omega
      have h64 : 7 + i < 64 := by omega
      simp [hi, h25, h32, h64, hfid]
    · have hsub : 25 + (i - 25) = i := by omega
      have h32 : ¬ (7 + i < 32) := by omega
      by_cases h56 : 56 < i
      · simp [hout h56, hsub, h25, h32]
      · have h32' : i - 25 < 32 := by omega
        simp [hi, h25, hsub, h32, h32']
        omega

theorem readTagged_fid (h : f.Fits info) :
    (f.readTagged (f.vlanSetTagged info)).fid = info.fid := by
  apply eq_of_getLsbD_eq
  intro i hi
  cases f with
  | rtl838x =>
    have hfid := fun hi => h.fid_bit (n := 6) (i := i) rfl hi
    have hprofile := h.profile_bit (i := 5 + i) (by omega)
    simp only [readTagged, vlanSetTagged, getD_cons_zero, getD_cons_succ,
      getLsbD_or, getLsbD_setWidth, getLsbD_shiftLeft,
      getLsbD_ushiftRight, getLsbD_and, getLsbD_lowMask, getLsbD_flagBit]
    by_cases h6 : i < 6
    · have h32 : 5 + i < 32 := by omega
      have h32' : i < 32 := by omega
      have h3 : ¬ (3 = 5 + i) := by omega
      have h4 : ¬ (4 = 5 + i) := by omega
      simp [hi, h6, h32, h32', hprofile, h3, h4]
    · simp [h6, hfid (by omega)]
  | rtl839x =>
    simp only [readTagged, vlanSetTagged, getD_cons_zero, getD_cons_succ,
      getLsbD_or, getLsbD_setWidth, getLsbD_shiftLeft,
      getLsbD_ushiftRight, getLsbD_and, getLsbD_lowMask, getLsbD_flagBit]
    have h32 : 3 + i < 32 := by omega
    have h32' : i < 32 := by omega
    have h11 : 3 + i < 11 := by omega
    have h2 : ¬ (2 = 3 + i) := by omega
    have h1 : ¬ (1 = 3 + i) := by omega
    have h0 : ¬ (0 = 3 + i) := by omega
    simp [hi, h32, h32', h11, h2, h1, h0]
  | rtl930x =>
    have hfid := fun hi => h.fid_bit (n := 6) (i := i) rfl hi
    simp only [readTagged, vlanSetTagged, getD_cons_zero, getD_cons_succ,
      getLsbD_or, getLsbD_setWidth, getLsbD_shiftLeft,
      getLsbD_ushiftRight, getLsbD_and, getLsbD_lowMask, getLsbD_flagBit]
    by_cases h3 : i < 3
    · have h27 : ¬ (27 = 29 + i) := by omega
      have h28 : ¬ (28 = 29 + i) := by omega
      have hprofile := h.profile_bit (i := 29 + i - 24) (by omega)
      have h32 : 29 + i < 32 := by omega
      have h32' : i < 32 := by omega
      simp [hi, h3, h32, h32', h27, h28, hprofile]
    · have hsub : 3 + (i - 3) = i := by omega
      by_cases h6 : 6 ≤ i
      · have h3' : ¬ (i - 3 < 3) := by omega
        simp [h3, h3', hsub, hfid h6]
      · have h3' : i - 3 < 3 := by omega
        have h32 : i < 32 := by omega
        have h32' : i - 3 < 32 := by omega
        simp [hi, h3, hsub, h3', h32, h32']
  | rtl931x =>
    have hfid := fun hi => h.fid_bit (n := 7) (i := i) rfl hi
    simp only [readTagged, vlanSetTagged, getD_cons_zero, getD_cons_succ,
      getLsbD_or, getLsbD_setWidth, getLsbD_shiftLeft,
      getLsbD_and, getLsbD_lowMask]
    by_cases h7 : i < 7
    · have h32 : i < 32 := by omega
      simp [hi, h7, h32]
    · simp [h7, hfid (by omega)]

end Family

namespace Family

variable {f : Family} {info : VlanInfo}

theorem readTagged_profile (h : f.Fits info) :
    (f.readTagged (f.vlanSetTagged info)).profileId = info.profileId := by
  have hprofile : ∀ {i : Nat}, 3 ≤ i → info.profileId.getLsbD i = false := h.profile_bit
  have hp3 : info.profileId[3] = false := hprofile (i := 3) (by decide)
  have hif := h.ifId
  apply eq_of_getLsbD_eq
  intro i hi
  by_cases h3 : i < 3
  · cases f <;> interval_cases i <;> simp [readTagged, vlanSetTagged, hif]
  · rw [hprofile (by omega)]
    have h3' : 3 ≤ i := by omega
    cases f <;> interval_cases i <;> simp [readTagged, vlanSetTagged, hif, hp3]

theorem readTagged_flags (h : f.Fits info) :
    (f.readTagged (f.vlanSetTagged info)).hashMcFid = info.hashMcFid ∧
      (f.readTagged (f.vlanSetTagged info)).hashUcFid = info.hashUcFid := by
  have hp3 : info.profileId[3] = false := h.profile_bit (i := 3) (by decide)
  have hp4 : info.profileId[4] = false := h.profile_bit (i := 4) (by decide)
  cases f with
  | rtl838x => simp [readTagged, vlanSetTagged, hp3, hp4]
  | rtl839x => simp [readTagged, vlanSetTagged, h.mc rfl, h.uc rfl]
  | rtl930x => simp [readTagged, vlanSetTagged, hp3, hp4]
  | rtl931x => simp [readTagged, vlanSetTagged, h.ifId]

theorem readTagged_rest (h : f.Fits info) :
    (f.readTagged (f.vlanSetTagged info)).ifId = info.ifId ∧
      (f.readTagged (f.vlanSetTagged info)).multicastGrpMask = info.multicastGrpMask ∧
      (f.readTagged (f.vlanSetTagged info)).l2TunnelListId = info.l2TunnelListId := by
  have hgrp := h.grp
  have htunnel := h.tunnel
  cases f with
  | rtl931x =>
    simp only [if_true] at htunnel
    refine ⟨?_, ?_, ?_⟩
    · rw [h.ifId]
      apply eq_of_getLsbD_eq
      intro i hi
      simp only [readTagged, vlanSetTagged, h.ifId, getD_cons_succ, getD_cons_zero,
        getLsbD_and, getLsbD_or, getLsbD_ushiftRight, getLsbD_flagBit,
        getLsbD_lowMask, getLsbD_setWidth, getLsbD_shiftLeft]
      by_cases h10 : i < 10
      · have hhigh : info.multicastGrpMask.getLsbD (20 + i) = false :=
          getLsbD_of_ge _ _ (by omega)
        have h31 : ¬ (31 = 20 + i) := by omega
        have h30 : ¬ (30 = 20 + i) := by omega
        have h4 : ¬ (20 + i - 16 < 4) := by omega
        simp [h10, h31, h30, hhigh, h4]
      · simp [h10]
    · apply eq_of_getLsbD_eq
      intro i hi
      have h31 : ¬ (31 = i) := by omega
      have h30 : ¬ (30 = i) := by omega
      have h32 : i < 32 := by omega
      simp [readTagged, vlanSetTagged, h.ifId, hi, h31, h30, h32]
    · simp [readTagged, vlanSetTagged, htunnel]
  | _ =>
    simp at hgrp htunnel
    simp [readTagged, vlanSetTagged, h.ifId, hgrp, htunnel]

end Family

namespace Family

variable {f : Family} {info : VlanInfo}

theorem readTagged_untagged (f : Family) (row : List (BitVec 32)) :
    (f.readTagged row).untaggedPorts = 0 := by cases f <;> rfl

/-- The VLAN table gives back what was written. -/
theorem readTagged_vlanSetTagged (h : f.Fits info) :
    f.readTagged (f.vlanSetTagged info) = { info with untaggedPorts := 0 } := by
  obtain ⟨hmc, huc⟩ := readTagged_flags h
  obtain ⟨hif, hgrp, htunnel⟩ := readTagged_rest h
  have hmembers := readTagged_members h
  have hprofile := readTagged_profile h
  have hfid := readTagged_fid h
  have huntagged := readTagged_untagged f (f.vlanSetTagged info)
  generalize f.readTagged (f.vlanSetTagged info) = r at *
  cases r
  simp_all

end Family

end LibWrt.Rtl83xx
