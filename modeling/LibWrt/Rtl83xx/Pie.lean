/-
LibWrt.Rtl83xx.Pie — the rules of the packet inspection engine and their
counters.

A rule takes a slot of the engine, in a block one of whose templates has the
fields the rule asks for, and a packet counter. Slots are found in
`pieUseBm`. The bits of `packetCntrUseBm` mean the opposite, a set bit is a
free counter: two packet counters share the place of an octet counter, and
both are made when the octet counter is taken.

`Kept p owners` says that the slots and counters of the rules `owners` are
held once each and are marked as in use. `Kept.takeCntr` and
`Kept.takeSlot` are the steps of a new rule, `Kept.give` that of a rule
which goes.
-/
import LibWrt.Lib.Held
import LibWrt.Rtl83xx.L2

namespace LibWrt.Rtl83xx.Offload

open List Function Nat

inductive Errno where
  | eopnotsupp
  | enodev
  | enoent
  | enospc
  | eexist
  | enomem
  | einval
  deriving DecidableEq

structure Chip where
  family : Family
  /-- `CONFIG_NET_DSA_RTL83XX_RTL930X_L3_OFFLOAD` -/
  l3Offload : Bool
  /-- the templates of a block, as its template control register has them -/
  tmplteCtrl : Nat → Nat → Fin 5

def nPieBlocks : Family → Nat
  | .rtl838x => 12
  | .rtl839x => 18
  | .rtl930x | .rtl931x => 16

def nCounters : Family → Nat
  | .rtl838x => 128
  | .rtl839x => 1024
  | .rtl930x | .rtl931x => 2048

/-- `PIE_BLOCK_SIZE` -/
def pieBlockSize : Nat := 128

/-- `MAX_COUNTERS` -/
def maxCounters : Nat := 2048

inductive TemplateField where
  | sip0
  | dip0
  | sip2
  | dip2
  | smac0
  | dmac0
  deriving DecidableEq

/-- Of `fixed_templates` those fields; all families have the same. -/
def fixedTemplates : Fin 5 → List TemplateField
  | 0 => [.smac0, .dmac0]
  | 1 => [.sip0, .dip0]
  | 2 => [.dmac0, .sip0, .dip0]
  | 3 => [.dip0, .dip2]
  | 4 => [.sip0, .sip2]

/-- `struct pie_rule`: its resources and what it asks of a template. An id or counter of -1 is
    `none`. -/
structure PieRule where
  id : Option Nat := some 0
  packetCntr : Option Nat := some 0
  isEgress : Bool := false
  isIpv6 : Bool := false
  tid : Nat := 0
  valid : Bool := false
  logSel : Bool := false
  logData : Nat := 0
  smac : BitVec 48 := 0
  dmac : BitVec 48 := 0
  dip : BitVec 32 := 0
  sipM : BitVec 32 := 0
  dipM : BitVec 32 := 0
  sip6M : BitVec 128 := 0
  dip6M : BitVec 128 := 0
  deriving DecidableEq

/-- What routes and flows take their resources from. -/
structure Pools where
  octetCntrUseBm : Nat → Bool
  packetCntrUseBm : Nat → Bool
  pieUseBm : Nat → Bool
  /-- `route_use_bm` with `host_route_use_bm` behind it, as they are in memory -/
  routeUseBm : Nat → Bool
  /-- the rules in the switch -/
  rules : Nat → Option PieRule
  routerMac : Nat → Option (BitVec 48)
  egressMac : Nat → BitVec 48
  /-- somebody holds `reg_mutex` and will not release it -/
  regMutex : Bool

variable (chip : Chip) (p : Pools)

/-! ## Packet counters -/

/-- `rtl83xx_packet_cntr_alloc` -/
def packetCntrAlloc : Option (Option Nat × Pools) :=
  if p.regMutex then none
  else
    let idx := findFirstBit p.packetCntrUseBm (maxCounters * 2)
    if idx ≥ nCounters chip.family * 2 then
      let j := findFirstZeroBit p.octetCntrUseBm maxCounters
      if j ≥ nCounters chip.family then some (none, p)
      else
        some (some (j * 2), { p with
          octetCntrUseBm := update p.octetCntrUseBm j true
          packetCntrUseBm := update p.packetCntrUseBm (j * 2 + 1) true })
    else
      some (some idx, { p with packetCntrUseBm := update p.packetCntrUseBm idx false })

/-! ## Rules -/

/-- `rtl838x_pie_templ_has` and the same of the other families -/
def pieTemplHas (t : Fin 5) (field : TemplateField) : Bool := (fixedTemplates t).contains field

def pieTemplateFits (pr : PieRule) (t : Fin 5) : Bool :=
  if !pr.isIpv6 && pr.sipM ≠ 0 && !pieTemplHas t .sip0 then false
  else if !pr.isIpv6 && pr.dipM ≠ 0 && !pieTemplHas t .dip0 then false
  else if pr.isIpv6 && pr.sip6M ≠ 0 && !pieTemplHas t .sip2 then false
  else if pr.isIpv6 && pr.dip6M ≠ 0 && !pieTemplHas t .dip2 then false
  else if pr.smac ≠ 0 && !pieTemplHas t .smac0 then false
  else if pr.dmac ≠ 0 && !pieTemplHas t .dmac0 then false
  else true

/-- `rtl838x_pie_verify_template` and the same of the other families -/
def pieVerifyTemplate (pr : PieRule) (t : Fin 5) (block : Nat) : Option Nat :=
  if !pieTemplateFits pr t then none
  else
    let i := findFirstZeroBit (fun i => p.pieUseBm (pieBlockSize * block + i)) pieBlockSize
    if i ≥ pieBlockSize then none else some (i + pieBlockSize * block)

def blockTemplates : Family → Nat
  | .rtl838x => 3
  | .rtl839x | .rtl930x | .rtl931x => 2

def pieBlocks (f : Family) (isEgress : Bool) : Nat × Nat :=
  match f with
  | .rtl838x => (0, nPieBlocks f)
  | .rtl839x | .rtl930x | .rtl931x =>
    if isEgress then (nPieBlocks f / 2, nPieBlocks f) else (0, nPieBlocks f / 2)

/-- The search of `rtl838x_pie_rule_add` and the same of the other families: a slot and the
    number of its template. -/
def pieFindSlot (pr : PieRule) : Option (Nat × Nat) :=
  let (minBlock, maxBlock) := pieBlocks chip.family pr.isEgress
  (range' minBlock (maxBlock - minBlock)).findSome? fun block =>
    (range (blockTemplates chip.family)).findSome? fun j =>
      (pieVerifyTemplate p pr (chip.tmplteCtrl block j) block).map fun idx => (idx, j)

/-- `rtl838x_pie_rule_add` and the same of the other families -/
def pieRuleAdd (pr : PieRule) : Option Errno × PieRule × Pools :=
  match pieFindSlot chip p pr with
  | some (idx, j) =>
    let pr := { pr with valid := true, tid := j, id := some idx }
    (none, pr, { p with
      pieUseBm := update p.pieUseBm idx true
      rules := update p.rules idx (some pr) })
  | none =>
    if (pieBlocks chip.family pr.isEgress).2 ≥ nPieBlocks chip.family then
      (some .eopnotsupp, pr, p)
    else
      -- the end of the loop goes unnoticed, and the rule is written to slot -1
      (none, { pr with valid := true, tid := blockTemplates chip.family, id := none }, p)

/-- `pie_rule_write`, of a rule that has its slot -/
def pieRuleWrite (idx : Nat) (pr : PieRule) : Pools :=
  { p with rules := update p.rules idx (some pr) }

/-- `pie_rule_rm`. There is no slot -1, and its bit is not one of the bitmap. -/
def pieRuleRm (pr : PieRule) : Option Pools :=
  if p.regMutex then none
  else
    match pr.id with
    | none => some p
    | some idx =>
      some { p with
        rules := update p.rules idx none
        pieUseBm := update p.pieUseBm idx false }

/-! ## Who holds what -/

namespace PieRule

def cntr (pr : PieRule) : Option Nat := pr.id.bind fun _ => pr.packetCntr

end PieRule

/-- A counter is neither free nor still part of an octet counter. -/
def CntrUsed (c : Nat) : Prop :=
  p.packetCntrUseBm c = false ∧ p.octetCntrUseBm (c / 2) = true

structure Kept (owners : List PieRule) : Prop where
  regMutex : p.regMutex = false
  slots : Held (fun n => p.pieUseBm n = true) (owners.filterMap PieRule.id)
  cntrs : Held (CntrUsed p) (owners.filterMap PieRule.cntr)
  /-- a counter comes free only after its octet counter was taken -/
  split : ∀ c, p.packetCntrUseBm c = true → p.octetCntrUseBm (c / 2) = true
  /-- the switch has the rules -/
  rules : ∀ pr ∈ owners, ∀ n, pr.id = some n → p.rules n = some pr

variable {chip p}

variable {owners : List PieRule} {pr : PieRule} {idx : Nat}

theorem Kept.perm {owners' : List PieRule} (h : Kept p owners) (hp : owners.Perm owners') :
    Kept p owners' where
  regMutex := h.regMutex
  slots := h.slots.perm (hp.filterMap _)
  cntrs := h.cntrs.perm (hp.filterMap _)
  split := h.split
  rules pr hpr := h.rules pr (hp.mem_iff.mpr hpr)

theorem Kept.congr {q : Pools} (h : Kept p owners) (hmutex : q.regMutex = p.regMutex)
    (hpie : q.pieUseBm = p.pieUseBm) (hpacket : q.packetCntrUseBm = p.packetCntrUseBm)
    (hoctet : q.octetCntrUseBm = p.octetCntrUseBm) (hrules : q.rules = p.rules) :
    Kept q owners where
  regMutex := by rw [hmutex, h.regMutex]
  slots := by rw [hpie]; exact h.slots
  cntrs := h.cntrs.mono fun c _ hc => by
    unfold CntrUsed at hc ⊢
    rw [hpacket, hoctet]
    exact hc
  split := by rw [hpacket, hoctet]; exact h.split
  rules := by rw [hrules]; exact h.rules

/-! ## Free slots -/

section Slots

variable (chip : Chip) (p : Pools)

/-- The slot is in a block that is tried for the rule and has a template for it. -/
def SlotFits (pr : PieRule) (n : Nat) : Prop :=
  (pieBlocks chip.family pr.isEgress).1 ≤ n / pieBlockSize ∧
  n / pieBlockSize < (pieBlocks chip.family pr.isEgress).2 ∧
  ∃ j < blockTemplates chip.family,
    pieTemplateFits pr (chip.tmplteCtrl (n / pieBlockSize) j) = true

noncomputable def freeSlots (pr : PieRule) : Finset Nat :=
  open Classical in
  (Finset.range (nPieBlocks chip.family * pieBlockSize)).filter fun n =>
    p.pieUseBm n = false ∧ SlotFits chip pr n

end Slots

theorem mem_freeSlots {n : Nat} : n ∈ freeSlots chip p pr ↔
    n < nPieBlocks chip.family * pieBlockSize ∧ p.pieUseBm n = false ∧ SlotFits chip pr n := by
  simp [freeSlots]

theorem pieVerifyTemplate_some {t : Fin 5} {block : Nat}
    (h : pieVerifyTemplate p pr t block = some idx) :
    pieTemplateFits pr t = true ∧ idx / pieBlockSize = block ∧ p.pieUseBm idx = false := by
  unfold pieVerifyTemplate at h
  split at h
  · cases h
  · rename_i hfits
    simp only at h
    split at h
    · cases h
    · rename_i hlt
      have hfree := findFirstZeroBit_of_lt (Nat.lt_of_not_le hlt)
      have hidx := Option.some.inj h
      refine ⟨by simpa using hfits, ?_, ?_⟩
      · rw [← hidx, add_mul_div_left _ _ (by decide), div_eq_of_lt (Nat.lt_of_not_le hlt),
          Nat.zero_add]
      · rw [← hidx, Nat.add_comm]
        exact hfree

theorem pieVerifyTemplate_isSome {t : Fin 5} {n : Nat} (hfits : pieTemplateFits pr t = true)
    (hfree : p.pieUseBm n = false) :
    ∃ idx, pieVerifyTemplate p pr t (n / pieBlockSize) = some idx := by
  have hmod : n % pieBlockSize < pieBlockSize := mod_lt _ (by decide)
  have hlt : findFirstZeroBit (fun i => p.pieUseBm (pieBlockSize * (n / pieBlockSize) + i))
      pieBlockSize < pieBlockSize :=
    findFirstZeroBit_lt hmod (by rw [div_add_mod]; exact hfree)
  refine ⟨findFirstZeroBit (fun i => p.pieUseBm (pieBlockSize * (n / pieBlockSize) + i))
    pieBlockSize + pieBlockSize * (n / pieBlockSize), ?_⟩
  simp only [pieVerifyTemplate, hfits, Bool.not_true, Bool.false_eq_true, if_false, ge_iff_le,
    Nat.not_le.mpr hlt]

theorem pieBlocks_le (f : Family) (isEgress : Bool) : (pieBlocks f isEgress).2 ≤ nPieBlocks f := by
  cases f <;> cases isEgress <;> decide

/-- The search gives a free slot that fits. -/
theorem pieFindSlot_some {j : Nat} (h : pieFindSlot chip p pr = some (idx, j)) :
    idx ∈ freeSlots chip p pr := by
  simp only [pieFindSlot] at h
  obtain ⟨block, hblock, hj⟩ := exists_of_findSome?_eq_some h
  obtain ⟨j', hj', hverify⟩ := exists_of_findSome?_eq_some hj
  obtain ⟨idx', hidx, heq⟩ := Option.map_eq_some_iff.mp hverify
  cases heq
  obtain ⟨hfits, hdiv, hfree⟩ := pieVerifyTemplate_some hidx
  obtain ⟨i, hi, hmin⟩ := mem_range'.mp hblock
  have hle := pieBlocks_le chip.family pr.isEgress
  have hlt : idx < nPieBlocks chip.family * pieBlockSize := by
    rw [← Nat.div_lt_iff_lt_mul (by decide), hdiv]
    omega
  refine mem_freeSlots.mpr ⟨hlt, hfree, by omega, by omega, j, mem_range.mp hj', ?_⟩
  rw [hdiv]
  exact hfits

theorem pieFindSlot_isSome (h : (freeSlots chip p pr).Nonempty) :
    ∃ idx j, pieFindSlot chip p pr = some (idx, j) := by
  obtain ⟨n, hn⟩ := h
  obtain ⟨-, hfree, hmin, hmax, j, hj, hfits⟩ := mem_freeSlots.mp hn
  cases hfind : pieFindSlot chip p pr with
  | some found => exact ⟨found.1, found.2, rfl⟩
  | none =>
    simp only [pieFindSlot, findSome?_eq_none_iff] at hfind
    have hblock : n / pieBlockSize ∈ range' (pieBlocks chip.family pr.isEgress).1
        ((pieBlocks chip.family pr.isEgress).2 - (pieBlocks chip.family pr.isEgress).1) :=
      mem_range'.mpr ⟨n / pieBlockSize - (pieBlocks chip.family pr.isEgress).1, by omega,
        by omega⟩
    have hnone := hfind _ hblock j (mem_range.mpr hj)
    obtain ⟨idx, hidx⟩ := pieVerifyTemplate_isSome hfits hfree
    rw [hidx] at hnone
    cases hnone

/-! ## A rule comes, changes and goes -/

/-- The marks of the counters change, those of the counters held do not. -/
theorem Kept.recount (h : Kept p owners) {octet packet : Nat → Bool}
    (hkeep : ∀ c, CntrUsed p c → packet c = false ∧ octet (c / 2) = true)
    (hsplit : ∀ c, packet c = true → octet (c / 2) = true) :
    Kept { p with octetCntrUseBm := octet, packetCntrUseBm := packet } owners where
  regMutex := h.regMutex
  slots := h.slots
  cntrs := h.cntrs.mono fun c _ => hkeep c
  split := hsplit
  rules := h.rules

/-- A counter is taken, or there is none. -/
theorem Kept.takeCntr (h : Kept p owners) (chip : Chip) :
    ∃ c octet packet,
      packetCntrAlloc chip p =
        some (c, { p with octetCntrUseBm := octet, packetCntrUseBm := packet }) ∧
      Kept { p with octetCntrUseBm := octet, packetCntrUseBm := packet } owners ∧
      Held (CntrUsed { p with octetCntrUseBm := octet, packetCntrUseBm := packet })
        (c.toList ++ owners.filterMap PieRule.cntr) := by
  have hn : nCounters chip.family ≤ maxCounters := by cases chip.family <;> decide
  rw [packetCntrAlloc, if_neg (by simp [h.regMutex])]
  simp only
  split
  · split
    · exact ⟨none, _, _, rfl, h, h.cntrs⟩
    · -- an octet counter is split: its first half is taken, its second half is free
      rename_i hj
      have hlt : findFirstZeroBit p.octetCntrUseBm maxCounters < maxCounters := by omega
      have hfree := findFirstZeroBit_of_lt hlt
      generalize findFirstZeroBit p.octetCntrUseBm maxCounters = j at hfree
      have hhalf : j * 2 / 2 = j := Nat.mul_div_cancel j (by decide)
      have hkeep : ∀ c, CntrUsed p c → update p.packetCntrUseBm (j * 2 + 1) true c = false ∧
          update p.octetCntrUseBm j true (c / 2) = true := by
        rintro c ⟨hpacket, hoctet⟩
        have hne : c / 2 ≠ j := by
          intro hc
          rw [hc, hfree] at hoctet
          cases hoctet
        have hne' : c ≠ j * 2 + 1 := by omega
        rw [update_of_ne hne', update_of_ne hne]
        exact ⟨hpacket, hoctet⟩
      have hsplit : ∀ c, update p.packetCntrUseBm (j * 2 + 1) true c = true →
          update p.octetCntrUseBm j true (c / 2) = true := by
        intro c hc
        by_cases hcj : c / 2 = j
        · rw [hcj, update_self]
        · have hne : c ≠ j * 2 + 1 := by omega
          rw [update_of_ne hne] at hc
          rw [update_of_ne hcj]
          exact h.split c hc
      refine ⟨some (j * 2), _, _, rfl, h.recount hkeep hsplit, ?_⟩
      refine h.cntrs.take ?_ hkeep ⟨?_, ?_⟩
      · rintro ⟨-, hoctet⟩
        rw [hhalf, hfree] at hoctet
        cases hoctet
      · have hne : j * 2 ≠ j * 2 + 1 := by omega
        show update p.packetCntrUseBm (j * 2 + 1) true (j * 2) = false
        rw [update_of_ne hne]
        cases hpacket : p.packetCntrUseBm (j * 2) with
        | false => rfl
        | true =>
          have hoctet := h.split _ hpacket
          rw [hhalf, hfree] at hoctet
          cases hoctet
      · show update p.octetCntrUseBm j true (j * 2 / 2) = true
        rw [hhalf, update_self]
  · rename_i hidx
    have hlt : findFirstBit p.packetCntrUseBm (maxCounters * 2) < maxCounters * 2 := by omega
    have hfree := findFirstBit_of_lt hlt
    generalize findFirstBit p.packetCntrUseBm (maxCounters * 2) = idx at hfree
    have hkeep : ∀ c, CntrUsed p c →
        update p.packetCntrUseBm idx false c = false ∧ p.octetCntrUseBm (c / 2) = true := by
      rintro c ⟨hpacket, hoctet⟩
      refine ⟨?_, hoctet⟩
      rw [update_apply]
      split
      · rfl
      · exact hpacket
    have hsplit : ∀ c, update p.packetCntrUseBm idx false c = true →
        p.octetCntrUseBm (c / 2) = true := by
      intro c hc
      rw [update_apply] at hc
      split at hc
      · cases hc
      · exact h.split c hc
    refine ⟨some idx, p.octetCntrUseBm, _, rfl, h.recount hkeep hsplit, ?_⟩
    refine h.cntrs.take ?_ hkeep ⟨update_self _ _ _, h.split idx hfree⟩
    rintro ⟨hpacket, -⟩
    rw [hfree] at hpacket
    cases hpacket

theorem Kept.takeSlot (h : Kept p owners) (hfree : p.pieUseBm idx = false) (hid : pr.id = some idx)
    (hcntr : Held (CntrUsed p) (pr.packetCntr.toList ++ owners.filterMap PieRule.cntr)) :
    Kept { p with
      pieUseBm := update p.pieUseBm idx true
      rules := update p.rules idx (some pr) } (pr :: owners) where
  regMutex := h.regMutex
  slots := by
    rw [filterMap_cons_some hid]
    refine h.slots.take (by simp [hfree]) ?_ (update_self _ _ _)
    intro n hn
    show update p.pieUseBm idx true n = true
    rw [update_apply]
    split
    · rfl
    · exact hn
  cntrs := by
    have hcons : (pr :: owners).filterMap PieRule.cntr =
        pr.packetCntr.toList ++ owners.filterMap PieRule.cntr := by
      cases hc : pr.packetCntr <;> simp [PieRule.cntr, hid, hc]
    rw [hcons]
    exact hcntr
  split := h.split
  rules pr' hpr' n hn := by
    rcases mem_cons.mp hpr' with rfl | hpr'
    · rw [hid] at hn
      cases hn
      exact update_self _ _ _
    · have hne : n ≠ idx := by
        rintro rfl
        have hused := h.slots.used n (mem_filterMap.mpr ⟨pr', hpr', hn⟩)
        rw [hfree] at hused
        cases hused
      show update p.rules idx (some pr) n = some pr'
      rw [update_of_ne hne]
      exact h.rules pr' hpr' n hn

theorem Kept.rewrite {pr' : PieRule} (h : Kept p (pr :: owners)) (hid : pr.id = some idx)
    (hid' : pr'.id = some idx) (hcntr : pr'.packetCntr = pr.packetCntr) :
    Kept (pieRuleWrite p idx pr') (pr' :: owners) where
  regMutex := h.regMutex
  slots := by
    have hslots := h.slots
    rw [filterMap_cons_some hid] at hslots
    rw [filterMap_cons_some hid']
    exact hslots
  cntrs := by
    have hsame : pr'.cntr = pr.cntr := by simp [PieRule.cntr, hid, hid', hcntr]
    have hcntrs := h.cntrs
    rw [filterMap_cons] at hcntrs ⊢
    rw [hsame]
    exact hcntrs
  split := h.split
  rules pr'' hpr'' n hn := by
    rcases mem_cons.mp hpr'' with rfl | hpr''
    · rw [hid'] at hn
      cases hn
      exact update_self _ _ _
    · have hnot : idx ∉ owners.filterMap PieRule.id := by
        have hnodup := h.slots.nodup
        rw [filterMap_cons_some hid] at hnodup
        exact (nodup_cons.mp hnodup).1
      have hne : n ≠ idx := by
        rintro rfl
        exact hnot (mem_filterMap.mpr ⟨pr'', hpr'', hn⟩)
      show update p.rules idx (some pr') n = some pr''
      rw [update_of_ne hne]
      exact h.rules pr'' (mem_cons_of_mem pr hpr'') n hn

/-- Exactly what a rule holds is given back. -/
def Pools.giveRule (p : Pools) (pr : PieRule) : Pools :=
  { p with
    rules := fun n => if pr.id = some n then none else p.rules n
    pieUseBm := fun n => if pr.id = some n then false else p.pieUseBm n
    packetCntrUseBm := fun c => if pr.cntr = some c then true else p.packetCntrUseBm c }

theorem Kept.giveRule (h : Kept p (pr :: owners)) :
    Kept (p.giveRule pr) owners where
  regMutex := h.regMutex
  slots := by
    have hslots := h.slots
    cases hid : pr.id with
    | none =>
      rw [filterMap_cons_none hid] at hslots
      exact hslots.mono fun n _ hn => by simpa [Pools.giveRule, hid] using hn
    | some idx =>
      rw [filterMap_cons_some hid] at hslots
      refine hslots.give fun n hne hn => ?_
      simpa [Pools.giveRule, hid, Ne.symm hne] using hn
  cntrs := by
    have hcntrs := h.cntrs
    cases hc : pr.cntr with
    | none =>
      rw [filterMap_cons_none hc] at hcntrs
      exact hcntrs.mono fun c _ hused => by simpa [CntrUsed, Pools.giveRule, hc] using hused
    | some c =>
      rw [filterMap_cons_some hc] at hcntrs
      refine hcntrs.give fun c' hne hused => ?_
      simpa [CntrUsed, Pools.giveRule, hc, Ne.symm hne] using hused
  split c hc := by
    simp only [Pools.giveRule] at hc
    split at hc
    · rename_i hcntr
      have hmem : c ∈ (pr :: owners).filterMap PieRule.cntr :=
        mem_filterMap.mpr ⟨pr, mem_cons_self, hcntr⟩
      exact (h.cntrs.used c hmem).2
    · exact h.split c hc
  rules pr' hpr' n hn := by
    have hne : pr.id ≠ some n := by
      intro hid
      have hnodup := h.slots.nodup
      rw [filterMap_cons_some hid] at hnodup
      exact (nodup_cons.mp hnodup).1 (mem_filterMap.mpr ⟨pr', hpr', hn⟩)
    simp only [Pools.giveRule, if_neg hne]
    exact h.rules pr' (mem_cons_of_mem pr hpr') n hn

end LibWrt.Rtl83xx.Offload
