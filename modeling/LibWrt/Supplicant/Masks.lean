/-
LibWrt.Supplicant.Masks — the masks of MLDs.

A radio in use can be used, one that can be used is one the MLD is for, and its
own phy has given a configuration for it and is not stopped. The requests of
hostapd go by the number of the radio only, so that they reach MLDs of other
phys with a radio of the same number; and a start does not ask for a
configuration. In a run without these all this holds.
-/
import LibWrt.Supplicant.Core
import Mathlib.Tactic

namespace LibWrt.Supplicant

open List hiding getElem?_eq_none
open Option hiding map map_map
open BitVec hiding not_and not_not

/-! ## Bits -/

section Bits

variable {a b : Mask} {r : Nat}

theorem getLsbD_bit (radio r : Nat) : (bit radio).getLsbD r = decide (r < 64 ∧ r = radio) := by
  rw [bit, getLsbD_shiftLeft, getLsbD_one]
  by_cases hr : r < 64
  · by_cases heq : r = radio
    · subst heq
      simp [hr]
    · by_cases hlt : r < radio
      · simp [heq, hlt]
      · have hne : r - radio ≠ 0 := by omega
        simp [heq, hne]
  · simp [hr]

theorem getLsbD_andNot : (a &&& ~~~b).getLsbD r = (a.getLsbD r && !b.getLsbD r) := by
  rw [getLsbD_and, getLsbD_not]
  by_cases hr : r < 64
  · simp [hr]
  · rw [getLsbD_of_ge a r (by omega)]
    simp

theorem eq_zero_iff : a = 0 ↔ ∀ r, a.getLsbD r = false := by
  constructor
  · rintro rfl r
    exact getLsbD_zero
  · intro h
    apply eq_of_getLsbD_eq
    intro r _
    rw [h r]
    exact getLsbD_zero.symm

def Within (a b : Mask) : Prop := ∀ r, a.getLsbD r = true → b.getLsbD r = true

theorem andNot_eq_zero_iff : a &&& ~~~b = 0 ↔ Within a b := by
  rw [eq_zero_iff]
  refine forall_congr' fun r => ?_
  rw [getLsbD_andNot]
  cases a.getLsbD r <;> cases b.getLsbD r <;> simp

theorem and_eq_zero_iff : a &&& b = 0 ↔ ∀ r, a.getLsbD r = true → b.getLsbD r = false := by
  rw [eq_zero_iff]
  refine forall_congr' fun r => ?_
  rw [getLsbD_and]
  cases a.getLsbD r <;> cases b.getLsbD r <;> simp

theorem within_zero : Within 0 a := fun r h => by
  rw [show (0 : Mask).getLsbD r = false from getLsbD_zero] at h
  cases h

theorem Within.refl : Within a a := fun _ h => h

end Bits

/-! ## What holds of an MLD -/

structure MldOk (stopped : PhyName → Bool) (data : Mld) : Prop where
  up : Within data.radioMaskUp data.radioMaskPresent
  present : Within data.radioMaskPresent data.radioMask
  usable : ∀ r, data.radioMaskPresent.getLsbD r = true →
    (∃ config, data.phyConfig[r]? = some (some config)) ∧
      stopped ⟨data.config.phy, some r⟩ = false

structure SameMasks (data data' : Mld) : Prop where
  up : data'.radioMaskUp = data.radioMaskUp
  present : data'.radioMaskPresent = data.radioMaskPresent
  mask : data'.radioMask = data.radioMask

/-- The MLDs of other phys keep their masks. -/
def Apart (name : PhyName) (s t : State) : Prop :=
  List.Forall₂ (fun e e' => e'.1 = e.1 ∧ (e.2.config.phy ≠ name.phy → SameMasks e.2 e'.2))
    s.mld t.mld

/-- A configuration for an MLD is for one of its radios, and the phy is not stopped. -/
def GivenAllowed (name : PhyName) (configs : List IfaceConfig) (s : State) : Prop :=
  ∀ e ∈ s.mld, e.2.config.phy = name.phy → (mloConfig configs e.1).isSome →
    ∃ r, name.radio = some r ∧ e.2.radioMask.getLsbD r = true ∧ s.stopped name = false

/-- No MLD of another phy can use the radio. -/
def StopAllowed (name : PhyName) (s : State) : Prop :=
  ∀ e ∈ s.mld, e.2.config.phy ≠ name.phy → e.2.radioMaskPresent &&& mask name = 0

/-- An MLD for the radio is one of the phy with a configuration for it, or can use it before; and
nothing is to be added to an MLD of another phy. -/
def StartAllowed (name : PhyName) (s : State) : Prop :=
  ∀ e ∈ s.mld,
    (∀ r, name.radio = some r → e.2.radioMask.getLsbD r = true →
      e.2.config.phy = name.phy ∧ (∃ config, e.2.phyConfig[r]? = some (some config)) ∨
        e.2.radioMaskPresent.getLsbD r = true) ∧
    (e.2.config.phy ≠ name.phy → s.mldPending = true ∨ mldStarts e.2 = false ∨
      ∀ e' ∈ s.mld, mldFor name e'.2 = false)

def Allowed (_ : Env) (e : Event) (s : State) : Prop :=
  match e with
  | .configSet name (some configs) _ => GivenAllowed name configs s
  | .phySetState name true => s.config name ≠ none → StopAllowed name s
  | .phySetState name false => s.config name ≠ none → StartAllowed name s
  | _ => True

/-- What is said of a step. -/
def Undisturbed (e : Event) (s t : State) : Prop :=
  match e with
  | .phySetState name _ => Apart name s t
  | _ => True

section Mld

variable {stopped stopped' : PhyName → Bool} {data : Mld} {r : Nat}

theorem MldOk.remove (h : MldOk stopped data) : MldOk stopped (mldRemove data) :=
  ⟨within_zero, h.present, h.usable⟩

theorem MldOk.new (stopped : PhyName → Bool) (config : MldConfig) :
    MldOk stopped (newMld config) := by
  refine ⟨within_zero, within_zero, fun r h => ?_⟩
  exact absurd (within_zero (a := 0) r h) (by
    rw [show (0 : Mask).getLsbD r = false from getLsbD_zero]
    exact Bool.false_ne_true)

theorem MldOk.add (h : MldOk stopped data) (env : Env) (s : State) (name : String) :
    MldOk stopped (mldAdd env s name data) := by
  rw [mldAdd]
  split_ifs
  · exact ⟨.refl, h.present, h.usable⟩
  · exact h

theorem MldOk.startOne (h : MldOk stopped data) (env : Env) (s : State) (name : String) :
    MldOk stopped (mldStartOne env s name data) := by
  rw [mldStartOne]
  split_ifs
  · exact h.add env s name
  · exact h.remove.add env s name
  · exact h

theorem MldOk.update (hpresent : Within data.radioMaskPresent data.radioMask)
    (husable : ∀ r, data.radioMaskPresent.getLsbD r = true →
      (∃ config, data.phyConfig[r]? = some (some config)) ∧
        stopped ⟨data.config.phy, some r⟩ = false) :
    MldOk stopped (mldUpdateIface data) := by
  rw [mldUpdateIface]
  split_ifs with hup hzero hwithin
  · refine ⟨?_, hpresent, husable⟩
    rw [hup]
    exact within_zero
  · exact ⟨within_zero, hpresent, husable⟩
  · exact ⟨andNot_eq_zero_iff.mp hwithin, hpresent, husable⟩
  · exact ⟨within_zero, hpresent, husable⟩

theorem getElem?_setPhyConfig_self (configs : List (Option IfaceConfig)) (radio : Nat)
    (config : Option IfaceConfig) : (setPhyConfig configs radio config)[radio]? = some config := by
  rw [setPhyConfig, getElem?_map, getElem?_range (by omega)]
  simp

theorem getElem?_setPhyConfig_ne (configs : List (Option IfaceConfig)) {radio i : Nat}
    (config : Option IfaceConfig) (hne : i ≠ radio) {c : IfaceConfig}
    (h : configs[i]? = some (some c)) : (setPhyConfig configs radio config)[i]? = some (some c) := by
  have hlt : i < configs.length := by
    by_contra hge
    rw [List.getElem?_eq_none (by omega)] at h
    cases h
  rw [setPhyConfig, getElem?_map, getElem?_range (by omega), map_some,
    if_neg hne, h]
  rfl

theorem MldOk.setIfaceConfig (h : MldOk stopped data) {radio : Option Nat}
    {config : Option IfaceConfig}
    (hgiven : config.isSome → ∃ r, radio = some r ∧ data.radioMask.getLsbD r = true ∧
      stopped ⟨data.config.phy, some r⟩ = false) :
    MldOk stopped (mldUpdateIface (mldSetIfaceConfig radio config data)) := by
  cases config with
  | none =>
    have hless (r : Nat)
        (hr : (mldSetIfaceConfig radio none data).radioMaskPresent.getLsbD r = true) :
        data.radioMaskPresent.getLsbD r = true ∧ (r < 64 → r ≠ radio.getD 0) := by
      have hr' : (data.radioMaskPresent &&& ~~~bit (radio.getD 0)).getLsbD r = true := hr
      rw [getLsbD_andNot, getLsbD_bit, Bool.and_eq_true, Bool.not_eq_true',
        decide_eq_false_iff_not, not_and] at hr'
      exact hr'
    refine .update (fun r hr => h.present r (hless r hr).1) fun r hr => ?_
    obtain ⟨hold, hne⟩ := hless r hr
    obtain ⟨⟨c, hc⟩, hfree⟩ := h.usable r hold
    refine ⟨⟨c, ?_⟩, hfree⟩
    cases radio with
    | none => exact hc
    | some radio =>
      have hlt : r < 64 := by
        by_contra hge
        rw [getLsbD_of_ge _ r (by omega)] at hold
        cases hold
      exact getElem?_setPhyConfig_ne _ _ (hne hlt) hc
  | some config =>
    obtain ⟨radio, rfl, hmask, hfree⟩ := hgiven rfl
    have hmore (r : Nat)
        (hr : (mldSetIfaceConfig (some radio) (some config) data).radioMaskPresent.getLsbD r =
          true) : r = radio ∨ r ≠ radio ∧ data.radioMaskPresent.getLsbD r = true := by
      have hr' : (data.radioMaskPresent ||| bit radio).getLsbD r = true := hr
      rw [getLsbD_or, getLsbD_bit, Bool.or_eq_true, decide_eq_true_eq] at hr'
      by_cases heq : r = radio
      · exact .inl heq
      · exact .inr ⟨heq, hr'.resolve_right fun h => heq h.2⟩
    refine .update (fun r hr => ?_) fun r hr => ?_
    · rcases hmore r hr with rfl | ⟨-, hold⟩
      · exact hmask
      · exact h.present r hold
    · rcases hmore r hr with rfl | ⟨hne, hold⟩
      · exact ⟨⟨config, getElem?_setPhyConfig_self _ _ _⟩, hfree⟩
      · obtain ⟨⟨c, hc⟩, hfree'⟩ := h.usable r hold
        exact ⟨⟨c, getElem?_setPhyConfig_ne _ _ hne hc⟩, hfree'⟩

end Mld

section Step

variable {env : Env} {s : State} {name : PhyName} {data : Mld}

theorem getLsbD_mask (name : PhyName) (r : Nat) :
    (mask name).getLsbD r = decide (r < 64 ∧ name.radio = some r) := by
  rw [mask]
  cases name.radio with
  | none => simp
  | some radio =>
    rw [elim_some, getLsbD_bit]
    simp only [some.injEq, eq_comm (a := r)]

theorem lt_of_getLsbD {m : Mask} {r : Nat} (h : m.getLsbD r = true) : r < 64 := by
  by_contra hge
  rw [getLsbD_of_ge m r (by omega)] at h
  cases h

/-- A phy that is stopped, seen from one of its MLDs. -/
theorem ne_of_present {r : Nat}
    (h : (data.radioMaskPresent &&& ~~~mask name).getLsbD r = true) :
    data.radioMaskPresent.getLsbD r = true ∧ (⟨data.config.phy, some r⟩ : PhyName) ≠ name := by
  rw [getLsbD_andNot, Bool.and_eq_true, Bool.not_eq_true', getLsbD_mask,
    decide_eq_false_iff_not, not_and] at h
  refine ⟨h.1, fun heq => h.2 (lt_of_getLsbD h.1) ?_⟩
  rw [← heq]

theorem MldOk.stop (h : MldOk s.stopped data) (name : PhyName) :
    MldOk (Function.update s.stopped name true) (mldStop name data) := by
  have husable (r : Nat) (hr : (data.radioMaskPresent &&& ~~~mask name).getLsbD r = true) :
      (∃ config, data.phyConfig[r]? = some (some config)) ∧
        Function.update s.stopped name true ⟨data.config.phy, some r⟩ = false := by
    obtain ⟨hold, hne⟩ := ne_of_present hr
    rw [Function.update_of_ne hne]
    exact h.usable r hold
  have hpresent : Within (data.radioMaskPresent &&& ~~~mask name) data.radioMask :=
    fun r hr => h.present r (ne_of_present hr).1
  rw [mldStop]
  split_ifs with hup
  · exact .update hpresent husable
  · rw [not_not, and_eq_zero_iff] at hup
    refine ⟨fun r hr => ?_, hpresent, husable⟩
    rw [getLsbD_andNot, h.up r hr, hup r hr]
    rfl

/-- The masks of an MLD without the radio are not changed. -/
theorem sameMasks_stop (h : MldOk s.stopped data) (hclear : data.radioMaskPresent &&& mask name = 0) :
    SameMasks data (mldStop name data) := by
  rw [and_eq_zero_iff] at hclear
  have hup : data.radioMaskUp &&& mask name = 0 := by
    rw [and_eq_zero_iff]
    exact fun r hr => hclear r (h.up r hr)
  have hsame : data.radioMaskPresent &&& ~~~mask name = data.radioMaskPresent := by
    apply eq_of_getLsbD_eq
    intro r _
    rw [getLsbD_andNot]
    cases hr : data.radioMaskPresent.getLsbD r with
    | false => rfl
    | true =>
      rw [hclear r hr]
      rfl
  rw [mldStop]
  rw [if_neg (not_not.mpr hup)]
  exact ⟨rfl, hsame, rfl⟩

theorem radio_of_mldFor (h : mldFor name data = true) :
    ∃ r, r < 64 ∧ name.radio = some r ∧ data.radioMask.getLsbD r = true := by
  rw [mldFor, decide_eq_true_eq, Ne, and_eq_zero_iff] at h
  push Not at h
  obtain ⟨r, hr, hmask⟩ := h
  rw [Bool.ne_false_iff, getLsbD_mask, decide_eq_true_eq] at hmask
  exact ⟨r, hmask.1, hmask.2, hr⟩

/-- A start lets a radio be used that has a configuration. -/
theorem MldOk.start (h : MldOk s.stopped data)
    (hallowed : ∀ r, name.radio = some r → data.radioMask.getLsbD r = true →
      data.config.phy = name.phy ∧ (∃ config, data.phyConfig[r]? = some (some config)) ∨
        data.radioMaskPresent.getLsbD r = true) :
    MldOk (Function.update s.stopped name false) (mldPresent name data) := by
  have hfree (n : PhyName) (hn : s.stopped n = false) :
      Function.update s.stopped name false n = false := by
    rw [Function.update_apply]
    split_ifs
    · rfl
    · exact hn
  rw [mldPresent]
  split_ifs with hfor
  · obtain ⟨radio, -, hradio, hmask⟩ := radio_of_mldFor hfor
    have hmore (r : Nat) (hr : (data.radioMaskPresent ||| mask name).getLsbD r = true) :
        data.radioMaskPresent.getLsbD r = true ∨ r = radio := by
      rw [getLsbD_or, Bool.or_eq_true, getLsbD_mask, decide_eq_true_eq, hradio] at hr
      exact hr.imp_right fun hboth => (some.inj hboth.2).symm
    refine ⟨fun r hr => ?_, fun r hr => ?_, fun r hr => ?_⟩
    · rw [getLsbD_or, h.up r hr, Bool.true_or]
    · rcases hmore r hr with hold | rfl
      · exact h.present r hold
      · exact hmask
    · rcases hmore r hr with hold | rfl
      · exact ⟨(h.usable r hold).1, hfree _ (h.usable r hold).2⟩
      · rcases hallowed r hradio hmask with ⟨hphy, hconfig⟩ | hold
        · have hname : (⟨data.config.phy, some r⟩ : PhyName) = name := by
            rw [hphy, ← hradio]
          refine ⟨hconfig, ?_⟩
          rw [hname, Function.update_self]
        · exact ⟨(h.usable r hold).1, hfree _ (h.usable r hold).2⟩
  · exact ⟨h.up, h.present, fun r hr => ⟨(h.usable r hr).1, hfree _ (h.usable r hr).2⟩⟩

/-- An MLD that can use the radio before. -/
theorem mldPresent_eq (h : ∀ r, name.radio = some r → data.radioMask.getLsbD r = true →
    data.radioMaskPresent.getLsbD r = true) : mldPresent name data = data := by
  rw [mldPresent]
  split_ifs with hfor
  · obtain ⟨radio, -, hradio, hmask⟩ := radio_of_mldFor hfor
    have hsame : data.radioMaskPresent ||| mask name = data.radioMaskPresent := by
      apply eq_of_getLsbD_eq
      intro r _
      rw [getLsbD_or, getLsbD_mask, hradio]
      by_cases heq : radio = r
      · subst heq
        rw [h radio hradio hmask]
        rfl
      · have hne : ¬(r < 64 ∧ some radio = some r) := fun hboth => heq (some.inj hboth.2)
        rw [decide_eq_false hne, Bool.or_false]
    rw [hsame]
  · rfl

/-! ## Steps -/

theorem mld_startPending (env : Env) (name : PhyName) (s : State) :
    (startPending env name s).mld = s.mld ∧
      (startPending env name s).stopped = s.stopped ∧
      (startPending env name s).mldPending = s.mldPending ∧
      (startPending env name s).told = s.told ∧
      (startPending env name s).timers = s.timers := by
  have hfold (ifaces : List (String × Iface)) (s : State) :
      (ifaces.foldl (ifaceStart name) s).mld = s.mld ∧
        (ifaces.foldl (ifaceStart name) s).stopped = s.stopped ∧
        (ifaces.foldl (ifaceStart name) s).mldPending = s.mldPending ∧
        (ifaces.foldl (ifaceStart name) s).told = s.told ∧
        (ifaces.foldl (ifaceStart name) s).timers = s.timers := by
    induction ifaces generalizing s with
    | nil => exact ⟨rfl, rfl, rfl, rfl, rfl⟩
    | cons e ifaces ih =>
      have hone : (ifaceStart name s e).mld = s.mld ∧
          (ifaceStart name s e).stopped = s.stopped ∧
          (ifaceStart name s e).mldPending = s.mldPending ∧
          (ifaceStart name s e).told = s.told ∧ (ifaceStart name s e).timers = s.timers := by
        rw [ifaceStart]
        split_ifs <;> exact ⟨rfl, rfl, rfl, rfl, rfl⟩
      obtain ⟨hmld, hstopped, hpending, htold, htimers⟩ := ih (ifaceStart name s e)
      rw [foldl_cons, hmld, hstopped, hpending, htold, htimers]
      exact hone
  rw [startPending]
  split
  · exact ⟨rfl, rfl, rfl, rfl, rfl⟩
  · split_ifs
    · exact hfold _ s
    · exact ⟨rfl, rfl, rfl, rfl, rfl⟩

def MasksOk (s : State) : Prop := ∀ e ∈ s.mld, MldOk s.stopped e.2

theorem MasksOk.map {t : State} {f : String × Mld → String × Mld} (h : MasksOk s)
    (hmld : t.mld = s.mld.map f)
    (hf : ∀ e ∈ s.mld, MldOk s.stopped e.2 → MldOk t.stopped (f e).2) : MasksOk t := by
  intro e he
  rw [hmld] at he
  obtain ⟨e', he', rfl⟩ := mem_map.mp he
  exact hf e' he' (h e' he')

theorem MasksOk.mldSet (h : MasksOk s) (config : List (String × MldConfig)) :
    ∀ e ∈ mldSetConfig config s.mld, MldOk s.stopped e.2 := by
  intro e he
  obtain ⟨c, -, rfl⟩ := mem_map.mp he
  rw [mldOf]
  split
  · rename_i prev hprev
    split_ifs
    · obtain ⟨front, rest, hsplit, -⟩ := lookup_eq_some_iff.mp hprev
      exact h (c.1, prev) (hsplit ▸ mem_append_right front mem_cons_self)
    · exact .new _ _
  · exact .new _ _

theorem MasksOk.mldStart (h : MasksOk s) (env : Env) : MasksOk (mldStart env s) := by
  rw [Supplicant.mldStart]
  split_ifs
  · exact h
  · exact h.map rfl fun e _ he => he.startOne env s e.1

theorem MasksOk.setConfig (h : MasksOk s) {configs : List IfaceConfig}
    (hgiven : GivenAllowed name configs s) : MasksOk (setConfig name configs s) := by
  refine h.map rfl fun e hmem he => ?_
  split_ifs with hphy
  · exact he
  · rw [ne_eq, not_not] at hphy
    refine he.setIfaceConfig fun hsome => ?_
    obtain ⟨r, hr, hmask, hfree⟩ := hgiven e hmem hphy hsome
    refine ⟨r, hr, hmask, ?_⟩
    rw [hphy, ← hr]
    exact hfree

theorem MasksOk.phySetState (h : MasksOk s) {stop : Bool}
    (hallowed : Allowed env (.phySetState name stop) s) :
    MasksOk (phySetState env name stop s) := by
  rw [Supplicant.phySetState]
  cases hconfig : s.config name with
  | none => exact h
  | some ifaces =>
    have hne : s.config name ≠ none := by
      rw [hconfig]
      exact some_ne_none _
    cases stop with
    | true => exact h.map rfl fun e _ he => he.stop name
    | false =>
      have hstart := hallowed hne
      obtain ⟨hmld, hstopped, -⟩ := mld_startPending env name (s.setStopped name false)
      have hpresent : MasksOk { startPending env name (s.setStopped name false) with
          mld := (startPending env name (s.setStopped name false)).mld.map fun e =>
            (e.1, mldPresent name e.2) } := by
        refine h.map (congrArg _ hmld) fun e hmem he => ?_
        dsimp only
        rw [hstopped]
        exact he.start (hstart e hmem).1
      dsimp only
      rw [if_neg Bool.false_ne_true]
      split_ifs
      · exact hpresent.mldStart env
      · exact hpresent

/-- What a step keeps. -/
theorem MasksOk.step (h : MasksOk s) {e : Event} (hallowed : Allowed env e s) :
    MasksOk (step env e s) := by
  cases e with
  | mldSet config => exact h.mldSet config
  | mldStart =>
    have hsame : MasksOk { s with mldPending := false } := h
    exact hsame.mldStart env
  | configSet name configs defer =>
    have hset : MasksOk (configs.elim s fun configs => Supplicant.setConfig name configs s) := by
      cases configs with
      | none => exact h
      | some configs => exact h.setConfig hallowed
    have hconfig : MasksOk (Supplicant.configSet name configs defer s) := by
      cases configs with
      | none =>
        rw [Supplicant.configSet.eq_def]
        split_ifs <;> exact hset
      | some configs =>
        rw [Supplicant.configSet.eq_def]
        split_ifs <;> exact hset
    exact hconfig
  | phySetState name stop =>
    have hsame : MasksOk { s with told := Function.update s.told name stop } := h
    exact hsame.phySetState hallowed
  | timer name =>
    rw [Supplicant.step]
    split_ifs
    · obtain ⟨hmld, hstopped, -⟩ :=
        mld_startPending env name { s with timers := s.timers.erase name }
      rw [MasksOk, hmld, hstopped]
      exact h
    · exact h

theorem forall₂_map {f : String × Mld → String × Mld} {l : List (String × Mld)}
    {rel : String × Mld → String × Mld → Prop} (h : ∀ e ∈ l, rel e (f e)) :
    List.Forall₂ rel l (l.map f) :=
  forall₂_map_right_iff.mpr (forall₂_same.mpr h)

theorem SameMasks.refl (data : Mld) : SameMasks data data := ⟨rfl, rfl, rfl⟩

theorem apart_refl (name : PhyName) (s : State) : Apart name s s :=
  forall₂_same.mpr fun _ _ => ⟨rfl, fun _ => .refl _⟩

theorem apart_phySetState (h : MasksOk s) {stop : Bool}
    (hallowed : Allowed env (.phySetState name stop) s) :
    Apart name s (phySetState env name stop s) := by
  rw [phySetState]
  cases hconfig : s.config name with
  | none => exact apart_refl name s
  | some ifaces =>
    have hne : s.config name ≠ none := by
      rw [hconfig]
      exact some_ne_none _
    cases stop with
    | true =>
      have hstop := hallowed hne
      exact forall₂_map fun e hmem =>
        ⟨rfl, fun hphy => sameMasks_stop (h e hmem) (hstop e hmem hphy)⟩
    | false =>
      have hstart := hallowed hne
      obtain ⟨hmld, -, hpending, -⟩ := mld_startPending env name (s.setStopped name false)
      have hkept (e : String × Mld) (hmem : e ∈ s.mld) (hphy : e.2.config.phy ≠ name.phy) :
          mldPresent name e.2 = e.2 := by
        refine mldPresent_eq fun r hr hmask => ?_
        exact ((hstart e hmem).1 r hr hmask).resolve_left fun hown => hphy hown.1
      have hsame (e : String × Mld) (hmem : e ∈ s.mld) (hphy : e.2.config.phy ≠ name.phy) :
          SameMasks e.2 (mldPresent name e.2) := by
        rw [hkept e hmem hphy]
        exact .refl _
      have hmap : (startPending env name (s.setStopped name false)).mld = s.mld := hmld
      dsimp only
      rw [if_neg Bool.false_ne_true, hmap]
      split_ifs with hany
      · rw [mldStart]
        split_ifs with hwait
        · exact forall₂_map fun e hmem => ⟨rfl, fun hphy => hsame e hmem hphy⟩
        · dsimp only
          rw [List.map_map]
          refine forall₂_map fun e hmem => ⟨rfl, fun hphy => ?_⟩
          have hnone : mldStarts e.2 = false := by
            rcases (hstart e hmem).2 hphy with hpend | hnone | hnot
            · exact absurd (hpending.trans hpend) hwait
            · exact hnone
            · obtain ⟨e', he', hfor⟩ := any_eq_true.mp hany
              rw [hnot e' he'] at hfor
              cases hfor
          dsimp only [Function.comp]
          rw [hkept e hmem hphy, mldStartOne, hnone, if_neg Bool.false_ne_true]
          exact .refl _
      · exact forall₂_map fun e hmem => ⟨rfl, fun hphy => hsame e hmem hphy⟩

/-- In every state of a run whose steps are allowed, and in every allowed step from there. -/
theorem masks_kept (h : Reachable Allowed s) :
    MasksOk s ∧ ∀ env e, Allowed env e s → Undisturbed e s (step env e s) := by
  have hok : MasksOk s := by
    induction h with
    | init =>
      intro e he
      cases he
    | step _ env e he ih => exact ih.step he
  refine ⟨hok, fun env e he => ?_⟩
  cases e with
  | phySetState name stop =>
    exact apart_phySetState (s := { s with told := Function.update s.told name stop }) hok he
  | mldSet config => trivial
  | mldStart => trivial
  | configSet name configs defer => trivial
  | timer name => trivial

end Step

/-! ## Two phys with a radio of one number -/

def envSample : Env where
  phyOpen _ := true
  added _ := true

def radioSample (phy : String) : PhyName where
  phy := phy
  radio := some 0

def linkSample : IfaceConfig where
  iface := "mld0"
  mlo := true
  freqList := some [2412]
  data := ""

def mldSample : MldConfig where
  phy := "phy0"
  radios := [some 0]
  data := ""

def stateMld : State := step envSample (.mldSet [("mld0", mldSample)]) .init

def stateGiven : State :=
  step envSample (.configSet (radioSample "phy0") (some [linkSample]) true) stateMld

def stateBoth : State :=
  step envSample (.configSet (radioSample "phy1") (some []) true) stateGiven

/-- A stop of the second phy reaches the MLD of the first. -/
theorem masks_fails : ¬∀ s, Reachable (fun _ _ _ => True) s →
    MasksOk s ∧ ∀ env e, Undisturbed e s (step env e s) := by
  intro h
  have hreach : Reachable (fun _ _ _ => True) stateBoth :=
    .step (.step (.step .init _ _ trivial) _ _ trivial) _ _ trivial
  have hapart : Apart (radioSample "phy1") stateBoth
      (step envSample (.phySetState (radioSample "phy1") true) stateBoth) :=
    (h stateBoth hreach).2 envSample (.phySetState (radioSample "phy1") true)
  have hbefore : stateBoth.mld.map (fun e => e.2.radioMaskPresent) = [1] := by decide
  have hafter : (step envSample (.phySetState (radioSample "phy1") true) stateBoth).mld.map
      (fun e => e.2.radioMaskPresent) = [0] := by decide
  have hphy : stateBoth.mld.map (fun e => e.2.config.phy) = ["phy0"] := by decide
  rw [Apart] at hapart
  generalize (step envSample (.phySetState (radioSample "phy1") true) stateBoth).mld = after
    at hapart hafter
  generalize stateBoth.mld = before at hapart hbefore hphy
  cases hapart with
  | nil => cases hbefore
  | @cons e e' l l' hfirst _ =>
    rw [map_cons] at hbefore hafter hphy
    have hsame := hfirst.2 (by
      rw [(List.cons.inj hphy).1]
      decide)
    have hmask := hsame.present
    rw [(List.cons.inj hbefore).1, (List.cons.inj hafter).1] at hmask
    exact absurd hmask (by decide)

theorem masks_kept_sample : MasksOk stateGiven ∧
    ∀ env e, Allowed env e stateGiven → Undisturbed e stateGiven (step env e stateGiven) := by
  refine masks_kept (.step (.step .init envSample _ trivial) envSample _ ?_)
  intro e he _ _
  obtain rfl := mem_singleton.mp he
  exact ⟨0, rfl, by decide, rfl⟩

end LibWrt.Supplicant
