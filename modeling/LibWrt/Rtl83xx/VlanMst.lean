/-
LibWrt.Rtl83xx.VlanMst — which spanning tree slot each VLAN is on.

`Right` says that the slots, their counts and the forwarding ids of the
VLANs fit the MSTIs last assigned to the VLANs. Two paths of the driver break
it, and `Tame` leaves them out:

* a request about a VLAN that has no member and is on a slot. An addition
  sets its forwarding id back without putting the slot;
* an assignment that finds no free slot and hands the VLAN's own slot over to
  the other MSTI. The states of the ports in it are not set anew.

`MstInv.step` is the step lemma. `mst_run` says that `Right` holds after any
tame requests and assignments, and that a slot that comes to stand for
another MSTI has its port states set.
-/
import LibWrt.Rtl83xx.Vlan

namespace LibWrt.Rtl83xx.Vlan

open Function (update update_self update_of_ne)
open Mst (DsaPort slotOf)

variable (cfg : Isolation.Config)

/-- The MSTI last assigned to each VLAN since it last lost its last member. -/
def assigned (s s' : State) (want : Fin 4096 → Option Nat) (result : Option Mst.Errno) :
    Op cfg.family → Fin 4096 → Option Nat
  | .mstiSet vid msti _ =>
    if result = none then update want vid (if msti = 0 then none else some msti) else want
  | .request _ => fun vid =>
    if (s.tagged cfg.family vid).memberPorts ≠ 0 ∧ (s'.tagged cfg.family vid).memberPorts = 0 then
      none
    else want vid

/-- A request is not about a VLAN that is on a slot and has no member, and an assignment does not
    hand a slot over. -/
def Tame (s : State) : Op cfg.family → Prop
  | .request r => ∀ vid : Fin 4096, vid.val = r.vid → vid ≠ 0 →
    (s.tagged cfg.family vid).memberPorts = 0 → (s.tagged cfg.family vid).fid = 0
  | .mstiSet vid msti _ =>
    ¬ Mst.Recycles cfg.family s.mst msti (s.tagged cfg.family vid).fid.toNat

/-- The states that tame requests and assignments lead to, with the MSTIs assigned. -/
inductive Reached (boot : Boot cfg.family) : State → (Fin 4096 → Option Nat) → Prop where
  | setup : Reached boot (vlanSetup cfg boot) fun _ => none
  | step {s : State} {want : Fin 4096 → Option Nat} (h : Reached boot s want)
      (op : Op cfg.family) (htame : Tame cfg s op) :
      Reached boot (step cfg s op).2
        (assigned cfg s (step cfg s op).2 want (step cfg s op).1 op)

/-- The slots and the forwarding ids fit the MSTIs assigned to the VLANs. Entry `i` is slot
    `i + 1`. -/
structure Right (s : State) (want : Fin 4096 → Option Nat) : Prop where
  unique : ∀ i < cfg.family.nMst - 1, ∀ j < cfg.family.nMst - 1, (s.mst.msts i).msti ≠ 0 →
    (s.mst.msts i).msti = (s.mst.msts j).msti → i = j
  counted : ∀ i < cfg.family.nMst - 1, (s.mst.msts i).msti ≠ 0 → (s.mst.msts i).refcount =
    (Finset.univ.filter fun vid => (s.tagged cfg.family vid).fid.toNat = i + 1).card
  free : ∀ i < cfg.family.nMst - 1,
    (s.mst.msts i).msti = 0 ↔ ∀ vid, (s.tagged cfg.family vid).fid.toNat ≠ i + 1
  none : ∀ vid, want vid = none → (s.tagged cfg.family vid).fid = 0
  some : ∀ vid msti, want vid = some msti → ∃ i < cfg.family.nMst - 1,
    (s.tagged cfg.family vid).fid.toNat = i + 1 ∧ (s.mst.msts i).msti = msti

/-- Where a slot comes to stand for another MSTI, its port states are set. -/
def Renewed (s s' : State) : Op cfg.family → Prop
  | .mstiSet _ _ dp => Mst.Fresh cfg dp s.mst s'.mst
  | .request _ => ∀ i, (s'.mst.msts i).msti ≠ 0 → (s'.mst.msts i).msti = (s.mst.msts i).msti

/-! ## The VLANs as users of the slots -/

def on (f : Family) (s : State) (vid : Fin 4096) : Option (Fin (f.nMst - 1)) :=
  slotOf f (s.tagged f vid).fid.toNat

structure MstInv (s : State) (want : Fin 4096 → Option Nat) : Prop where
  wf : Wf cfg.family s
  rows : Mst.Rows cfg.family s.mst
  shared : Shared want (on cfg.family s) none (s.mst.slots cfg.family)

variable {cfg}

variable {s : State} {vid : Fin 4096} {want : Fin 4096 → Option Nat}

theorem on_eq_some {f : Family} {i : Fin (f.nMst - 1)} :
    on f s vid = some i ↔ (s.tagged f vid).fid.toNat = i.val + 1 := Mst.slotOf_eq_some

theorem on_eq_none (h : Wf cfg.family s) :
    on cfg.family s vid = none ↔ (s.tagged cfg.family vid).fid = 0 := by
  have hlt := (h vid).fid
  constructor
  · intro hnone
    by_contra hne
    have hpos : (s.tagged cfg.family vid).fid.toNat ≠ 0 := fun h0 => hne (BitVec.eq_of_toNat_eq h0)
    have hsome : on cfg.family s vid = some ⟨(s.tagged cfg.family vid).fid.toNat - 1, by omega⟩ :=
      on_eq_some.mpr (by simp; omega)
    rw [hnone] at hsome
    cases hsome
  · intro h0
    simp [on, h0]

theorem MstInv.right (h : MstInv cfg s want) :
    Right cfg s want where
  unique i hi j hj hused heq := by
    have hkey := h.shared.unique ⟨i, hi⟩ ⟨j, hj⟩ (s.mst.msts i).msti
      (Mst.slots_key_eq_some.mpr ⟨rfl, hused⟩) (Mst.slots_key_eq_some.mpr ⟨heq.symm, hused⟩)
    exact congrArg Fin.val hkey
  counted i hi hused := by
    have hcounted := h.shared.counted ⟨i, hi⟩ (fun hnone => hused (Mst.slots_key_eq_none.mp hnone))
    simpa [uses, on_eq_some, Mst.State.slots] using hcounted
  free i hi := by
    have hfree := h.shared.free ⟨i, hi⟩
    rw [Mst.slots_key_eq_none] at hfree
    simpa [on_eq_some] using hfree
  none vid hwant := by
    refine (on_eq_none h.wf).mp ?_
    cases hon : on cfg.family s vid with
    | none => rfl
    | some i =>
      have hkey := h.shared.keyed vid i hon
      rw [hwant] at hkey
      exact absurd hon ((h.shared.free i).mp hkey |>.1 vid)
  some vid msti hwant := by
    cases hon : on cfg.family s vid with
    | none =>
      have hoff := h.shared.off vid hon
      rw [hwant] at hoff
      cases hoff
    | some i =>
      have hkey := h.shared.keyed vid i hon
      rw [hwant] at hkey
      exact ⟨i, i.isLt, on_eq_some.mp hon, (Mst.slots_key_eq_some.mp hkey).1⟩

/-! ## One step -/

theorem bitVec_ne_zero_of_bit {v : BitVec 64} {i : Nat} (h : v.getLsbD i = true) : v ≠ 0 := by
  rintro rfl
  simp at h

theorem on_congr {f : Family} {s' : State} (h : ∀ vid, (s'.tagged f vid).fid = (s.tagged f vid).fid) :
    on f s' = on f s := by
  funext vid
  simp only [on, h]

/-- An addition leaves every VLAN where it is, if it does not set one back. -/
theorem MstInv.add (h : MstInv cfg s want) (port : Fin (cfg.family.cpuPort + 1)) (hvid : vid ≠ 0)
    (flags : Flags)
    (htame : (s.tagged cfg.family vid).memberPorts = 0 → (s.tagged cfg.family vid).fid = 0) :
    MstInv cfg (vlanAdd cfg.family s port vid flags).2 want ∧
      (vlanAdd cfg.family s port vid flags).2.mst = s.mst ∧
      ∀ u, (s.tagged cfg.family u).memberPorts ≠ 0 →
        ((vlanAdd cfg.family s port vid flags).2.tagged cfg.family u).memberPorts ≠ 0 := by
  have hle : port.val ≤ cfg.family.cpuPort := by omega
  obtain ⟨htagged, -, -, hmst⟩ := vlanAdd_spec h.wf hle hvid flags
  have hfid : ∀ u, ((vlanAdd cfg.family s port vid flags).2.tagged cfg.family u).fid =
      (s.tagged cfg.family u).fid := by
    intro u
    rw [htagged]
    by_cases hu : u = vid
    · subst hu
      rw [update_self]
      by_cases hempty : (s.tagged cfg.family u).memberPorts = 0
      · simp only [infoAdd, hempty, if_true, htame hempty]
      · simp only [infoAdd, hempty, if_false]
    · rw [update_of_ne hu]
  refine ⟨⟨h.wf.vlanAdd hle hvid flags, ?_, ?_⟩, hmst, ?_⟩
  · rw [hmst]
    exact h.rows
  · rw [hmst, on_congr hfid]
    exact h.shared
  · intro u hu
    rw [htagged]
    by_cases huv : u = vid
    · subst huv
      rw [update_self]
      refine bitVec_ne_zero_of_bit (i := port.val) ?_
      simp [infoAdd_memberPorts, port_lt port]
    · rw [update_of_ne huv]
      exact hu

/-- A deletion moves a VLAN that lost its last member to the CIST and puts its slot. -/
theorem MstInv.del (h : MstInv cfg s want) (port : Fin (cfg.family.cpuPort + 1)) (hvid : vid ≠ 0)
    (htame : (s.tagged cfg.family vid).memberPorts = 0 → (s.tagged cfg.family vid).fid = 0) :
    MstInv cfg (vlanDel cfg.family s port vid).2
        (assigned cfg s (vlanDel cfg.family s port vid).2 want none (.request (.del port vid))) ∧
      ∀ i, ((vlanDel cfg.family s port vid).2.mst.msts i).msti ≠ 0 →
        ((vlanDel cfg.family s port vid).2.mst.msts i).msti = (s.mst.msts i).msti := by
  obtain ⟨htagged, -, -, -, hmst⟩ := vlanDel_spec h.wf port.val hvid
  have hother : ∀ u, u ≠ vid → (vlanDel cfg.family s port vid).2.tagged cfg.family u =
      s.tagged cfg.family u := by
    intro u hu
    rw [htagged, update_of_ne hu]
  have hself : (vlanDel cfg.family s port vid).2.tagged cfg.family vid =
      infoEmptied (infoDel port (s.tagged cfg.family vid)) := by
    rw [htagged, update_self]
  have hmembers : ((vlanDel cfg.family s port vid).2.tagged cfg.family vid).memberPorts =
      (infoDel port (s.tagged cfg.family vid)).memberPorts := by
    rw [hself, infoEmptied_memberPorts]
  have hwf := h.wf.vlanDel port.val hvid
  -- a VLAN that keeps its members, or had none, stays where it is
  have hstay : ((infoDel port (s.tagged cfg.family vid)).memberPorts ≠ 0 ∨
      (s.tagged cfg.family vid).memberPorts = 0) →
      (vlanDel cfg.family s port vid).2.mst = s.mst ∧
      on cfg.family (vlanDel cfg.family s port vid).2 = on cfg.family s ∧
      assigned cfg s (vlanDel cfg.family s port vid).2 want none (.request (.del port vid)) =
        want := by
    intro hcase
    have hkept : mstEmptied cfg.family s.mst (infoDel port (s.tagged cfg.family vid)) = s.mst ∧
        (infoEmptied (infoDel port (s.tagged cfg.family vid))).fid =
          (s.tagged cfg.family vid).fid := by
      rcases hcase with hne | hempty
      · refine ⟨if_neg hne, ?_⟩
        simp only [infoEmptied, if_neg hne]
        rfl
      · have hgone : (infoDel port (s.tagged cfg.family vid)).memberPorts = 0 := by
          simp [infoDel, hempty]
        have hfid : (infoDel port (s.tagged cfg.family vid)).fid = 0 := htame hempty
        refine ⟨?_, ?_⟩
        · simp [mstEmptied, hfid, Mst.mstPutSlot]
        · simp only [infoEmptied, if_pos hgone, htame hempty]
    refine ⟨hmst.trans hkept.1, ?_, ?_⟩
    · refine on_congr ?_
      intro u
      by_cases hu : u = vid
      · subst hu
        rw [hself, hkept.2]
      · rw [hother u hu]
    · funext u
      simp only [assigned]
      rw [if_neg]
      rintro ⟨hbefore, hafter⟩
      by_cases hu : u = vid
      · subst hu
        rw [hmembers] at hafter
        exact hcase.elim (fun hne => hne hafter) hbefore
      · rw [hother u hu] at hafter
        exact hbefore hafter
  by_cases hcase : (infoDel port (s.tagged cfg.family vid)).memberPorts ≠ 0 ∨
      (s.tagged cfg.family vid).memberPorts = 0
  · obtain ⟨hmst', hon, hwant⟩ := hstay hcase
    refine ⟨⟨hwf, ?_, ?_⟩, ?_⟩
    · rw [hmst']
      exact h.rows
    · rw [hmst', hon, hwant]
      exact h.shared
    · rw [hmst']
      exact fun _ _ => rfl
  · obtain ⟨hgone, hbefore⟩ := not_or.mp hcase
    rw [not_not] at hgone
    have hput : (vlanDel cfg.family s port vid).2.mst =
        Mst.mstPutSlot cfg.family s.mst (s.tagged cfg.family vid).fid.toNat := by
      rw [hmst, mstEmptied, if_pos hgone]
      rfl
    have hon : on cfg.family (vlanDel cfg.family s port vid).2 =
        update (on cfg.family s) vid none := by
      funext u
      by_cases hu : u = vid
      · subst hu
        rw [update_self, on_eq_none hwf, hself]
        simp only [infoEmptied, if_pos hgone]
      · rw [update_of_ne hu]
        simp only [on, hother u hu]
    have hwant : assigned cfg s (vlanDel cfg.family s port vid).2 want none
        (.request (.del port vid)) = update want vid none := by
      funext u
      simp only [assigned]
      by_cases hu : u = vid
      · subst hu
        rw [update_self, hmembers]
        exact if_pos ⟨hbefore, hgone⟩
      · rw [update_of_ne hu, hother u hu]
        exact if_neg fun hc => hc.1 hc.2
    have hmoved := h.shared.move vid
    have hslots : (Mst.mstPutSlot cfg.family s.mst (s.tagged cfg.family vid).fid.toNat).slots
        cfg.family = (s.mst.slots cfg.family).release (on cfg.family s vid) := by
      refine Mst.slots_mstPutSlot ?_
      intro i hi hnone
      exact ((hmoved.free i).mp hnone).2 hi
    refine ⟨⟨hwf, ?_, ?_⟩, ?_⟩
    · intro slot
      rw [hput, Mst.mstPutSlot_stp]
      exact h.rows slot
    · rw [hput, hslots, hon, hwant]
      exact hmoved.release
    · rw [hput]
      exact fun i => Mst.mstPutSlot_msti cfg.family s.mst _ i

/-- An assignment that hands no slot over moves its VLAN to the slot of the MSTI. -/
theorem MstInv.mstiSet (h : MstInv cfg s want) (vid : Fin 4096) (msti : Nat) (dp : Nat → DsaPort)
    (htame : ¬ Mst.Recycles cfg.family s.mst msti (s.tagged cfg.family vid).fid.toNat) :
    MstInv cfg (vlanMstiSet cfg s vid msti dp).2
        (assigned cfg s (vlanMstiSet cfg s vid msti dp).2 want
          (vlanMstiSet cfg s vid msti dp).1 (.mstiSet vid msti dp)) ∧
      Mst.Fresh cfg dp s.mst (vlanMstiSet cfg s vid msti dp).2.mst := by
  have hwf := h.wf.vlanMstiSet vid msti dp
  obtain ⟨-, -, htagged⟩ := vlanMstiSet_spec h.wf vid msti dp
  have hold : on cfg.family s vid = slotOf cfg.family (s.tagged cfg.family vid).fid.toNat := rfl
  rcases Mst.mstReplace_cases dp h.rows h.shared hold htame with
    ⟨e, hreplace⟩ | ⟨new, mst', hreplace, hnew, hrows, hfresh, hshared⟩
  · -- nothing changed
    rcases htagged with ⟨e', hresult, hmst, htagged⟩ | ⟨mstSlot, -, -, hmst, -⟩
    · rw [hreplace] at hmst
      have hmst' : s.mst = (vlanMstiSet cfg s vid msti dp).2.mst := congrArg Prod.snd hmst
      have hon : on cfg.family (vlanMstiSet cfg s vid msti dp).2 = on cfg.family s :=
        on_congr fun u => by rw [htagged]
      have hwant : assigned cfg s (vlanMstiSet cfg s vid msti dp).2 want
          (vlanMstiSet cfg s vid msti dp).1 (.mstiSet vid msti dp) = want := by
        simp [assigned, hresult]
      refine ⟨⟨hwf, ?_, ?_⟩, ?_⟩
      · rw [← hmst']
        exact h.rows
      · rw [← hmst', hwant, hon]
        exact h.shared
      · rw [← hmst']
        exact fun i k hi hne => absurd hi hne
    · rw [hreplace] at hmst
      cases hmst
  · rcases htagged with ⟨e, -, hmst, -⟩ | ⟨mstSlot, hlt, hresult, hmst, htagged⟩
    · rw [hreplace] at hmst
      cases hmst
    · rw [hreplace] at hmst
      have hmst' : mst' = (vlanMstiSet cfg s vid msti dp).2.mst := congrArg Prod.snd hmst
      have hslot : new = mstSlot := Except.ok.inj (congrArg Prod.fst hmst)
      subst hslot
      have hwant : assigned cfg s (vlanMstiSet cfg s vid msti dp).2 want
          (vlanMstiSet cfg s vid msti dp).1 (.mstiSet vid msti dp) =
          update want vid (if msti = 0 then none else some msti) := by
        simp [assigned, hresult]
      have hon : on cfg.family (vlanMstiSet cfg s vid msti dp).2 =
          update (on cfg.family s) vid (slotOf cfg.family new) := by
        have hmod : new % 256 = new := by
          have hle : cfg.family.nMst ≤ 256 := by cases cfg.family <;> decide
          omega
        funext u
        by_cases hu : u = vid
        · subst hu
          rw [update_self, on, htagged, update_self]
          simp [hmod]
        · rw [update_of_ne hu, on, htagged, update_of_ne hu]
          rfl
      rw [hwant]
      refine ⟨⟨hwf, ?_, ?_⟩, ?_⟩
      · rw [← hmst']
        exact hrows
      · rw [← hmst', hon]
        exact hshared
      · rw [← hmst']
        exact hfresh

theorem MstInv.setup (boot : Boot cfg.family) :
    MstInv cfg (vlanSetup cfg boot) fun _ => none where
  wf vid := (tagged_vlanSetup boot vid).1
  rows := boot.stp_words
  shared := by
    have hon : on cfg.family (vlanSetup cfg boot) = fun _ => none := by
      funext vid
      simp [on, (tagged_vlanSetup boot vid).2.1]
    rw [hon]
    exact Shared.empty

/-- One tame request or assignment keeps the slots right, and renews the port states of a slot
    that comes to stand for another MSTI. -/
theorem MstInv.step (h : MstInv cfg s want) (op : Op cfg.family) (htame : Tame cfg s op) :
    MstInv cfg (step cfg s op).2 (assigned cfg s (step cfg s op).2 want (step cfg s op).1 op) ∧
      Renewed cfg s (step cfg s op).2 op := by
  cases op with
  | mstiSet vid msti dp => exact h.mstiSet vid msti dp htame
  | request r =>
    simp only [Vlan.step]
    by_cases hr : r.vid = 0 ∨ 4095 < r.vid
    · have hsame : assigned cfg s (serve cfg.family s r).2 want (serve cfg.family s r).1
          (.request r) = want := by
        funext vid
        rw [serve_ignored hr]
        exact if_neg fun hc => hc.1 hc.2
      rw [hsame, serve_ignored hr]
      exact ⟨h, fun _ _ => rfl⟩
    · have hlt : r.vid < 4096 := by omega
      have hne : (⟨r.vid, hlt⟩ : Fin 4096) ≠ 0 := fun h0 => hr (.inl (congrArg Fin.val h0))
      have htame' := htame ⟨r.vid, hlt⟩ rfl hne
      cases r with
      | add port v flags =>
        obtain ⟨hinv, hmst, hmembers⟩ := h.add port hne flags htame'
        have hsame : assigned cfg s (serve cfg.family s (.add port v flags)).2 want
            (serve cfg.family s (.add port v flags)).1 (.request (.add port v flags)) = want := by
          funext vid
          exact if_neg fun hc => hmembers vid hc.1 hc.2
        rw [hsame]
        refine ⟨hinv, ?_⟩
        intro i _
        exact congrArg (fun mst : Mst.State => (mst.msts i).msti) hmst
      | del port v => exact h.del port hne htame'

theorem MstInv.of_reached {boot : Boot cfg.family} (h : Reached cfg boot s want) :
    MstInv cfg s want := by
  induction h with
  | setup => exact MstInv.setup boot
  | step _ op htame ih => exact (ih.step op htame).1

/-- In every run of tame requests and assignments, for every family and whatever was in the
    tables at boot: each MSTI has at most one slot, a slot's count is the number of VLANs on it, it
    is free exactly when none is, each VLAN is on the slot of the MSTI last assigned to it, and
    a further tame step sets the port states of a slot that comes to stand for another MSTI. -/
theorem mst_run {boot : Boot cfg.family} {s : State} {want : Fin 4096 → Option Nat}
    (h : Reached cfg boot s want) :
    Right cfg s want ∧ ∀ op, Tame cfg s op → Renewed cfg s (step cfg s op).2 op := by
  have hinv := MstInv.of_reached h
  exact ⟨hinv.right, fun op htame => (hinv.step op htame).2⟩

/-! ## Fixed runs -/

def addEight : Op twoPorts.family := .request (.add ⟨8, by decide⟩ 5 ⟨true, true⟩)

def assignSeven : Op twoPorts.family := .mstiSet 5 7 fun _ => ⟨false, .forwarding⟩

def steps (s : State) (ops : List (Op twoPorts.family)) : State × (Fin 4096 → Option Nat) :=
  ops.foldl (fun t op => ((step twoPorts t.1 op).2,
    assigned twoPorts t.1 (step twoPorts t.1 op).2 t.2 (step twoPorts t.1 op).1 op))
    (s, fun _ => none)

/-- The MSTI is assigned before the first port is added: the addition sets the VLAN back to the
    CIST, and the slot stays in use with no VLAN on it. -/
theorem mst_slot_leaks :
    let t := steps (vlanSetup twoPorts usedBefore) [assignSeven, addEight]
    (t.1.mst.msts 0).msti = 7 ∧ (∀ vid, (t.1.tagged .rtl838x vid).fid = 0) ∧
      t.2 5 = some 7 ∧ ¬ Right twoPorts t.1 t.2 := by
  intro t
  have hmsti : (t.1.mst.msts 0).msti = 7 := by decide
  have hwf₀ : Wf twoPorts.family (vlanSetup twoPorts usedBefore) :=
    fun vid => (tagged_vlanSetup usedBefore vid).1
  have hwf₁ : Wf twoPorts.family (step twoPorts (vlanSetup twoPorts usedBefore) assignSeven).2 :=
    hwf₀.vlanMstiSet _ _ _
  obtain ⟨htagged, -⟩ := @vlanAdd_spec twoPorts.family _ 5 8 hwf₁ (by decide) (by decide) ⟨true, true⟩
  obtain ⟨-, -, hassign⟩ :=
    vlanMstiSet_spec hwf₀ 5 7 fun _ => ⟨false, .forwarding⟩
  have hfid : ∀ vid, (t.1.tagged .rtl838x vid).fid = 0 := by
    intro vid
    by_cases hvid : vid = 5
    · subst hvid
      decide
    · have hadd : t.1.tagged .rtl838x vid =
          (step twoPorts (vlanSetup twoPorts usedBefore) assignSeven).2.tagged .rtl838x vid := by
        have h := congrFun htagged vid
        rw [update_of_ne hvid] at h
        exact h
      have hset : (step twoPorts (vlanSetup twoPorts usedBefore) assignSeven).2.tagged .rtl838x vid =
          (vlanSetup twoPorts usedBefore).tagged .rtl838x vid := by
        rcases hassign with ⟨e, -, -, h⟩ | ⟨n, -, -, -, h⟩
        · exact congrFun h vid
        · have h := congrFun h vid
          rw [update_of_ne hvid] at h
          exact h
      rw [hadd, hset]
      exact (tagged_vlanSetup usedBefore vid).2.1
  refine ⟨hmsti, hfid, by decide, ?_⟩
  intro hright
  have hfree := (hright.free 0 (by decide)).mpr fun vid => by
    rw [show (t.1.tagged twoPorts.family vid).fid = 0 from hfid vid]
    decide
  rw [hmsti] at hfree
  cases hfree

/-- The port is added first, and then the MSTI is assigned. -/
theorem mst_run_add_first :
    let t := steps (vlanSetup twoPorts usedBefore) [addEight, assignSeven]
    t.2 5 = some 7 ∧ Right twoPorts t.1 t.2 ∧
      ∀ op, Tame twoPorts t.1 op → Renewed twoPorts t.1 (step twoPorts t.1 op).2 op := by
  intro t
  have hadd : Tame twoPorts (vlanSetup twoPorts usedBefore) addEight :=
    fun vid _ _ _ => (tagged_vlanSetup usedBefore vid).2.1
  have hassign : Tame twoPorts (step twoPorts (vlanSetup twoPorts usedBefore) addEight).2
      assignSeven := by
    intro hrecycles
    exact (hrecycles.2.2.1 0 (by decide)).2 rfl
  exact ⟨by decide, mst_run ((Reached.setup.step addEight hadd).step assignSeven hassign)⟩

end LibWrt.Rtl83xx.Vlan
