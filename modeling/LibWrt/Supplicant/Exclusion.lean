/-
LibWrt.Supplicant.Exclusion — nothing is started on a phy that is stopped.

A stop takes a radio out of the masks of the MLDs, so that they are not started
with it, if they wait for all of their radios. Nothing is kept of it for the
other interfaces: the timer of a request that came before, or comes in between,
starts them. A configuration for an MLD, and a start of another phy, let a radio
be used again that is stopped; and a stop of a phy that is not known yet is
answered and forgotten. In a run without these nothing is started.
-/
import LibWrt.Supplicant.Masks

namespace LibWrt.Supplicant

open List

def Entry.stopped : Entry → Bool
  | .iface _ _ stopped => stopped
  | .link _ _ stopped => stopped

/-- Nothing was started on a phy that was stopped, no MLD can use one, and no timer is for one. -/
structure Excluded (s : State) : Prop where
  log : ∀ e ∈ s.log, e.stopped = false
  present : ∀ e ∈ s.mld, ∀ r, e.2.radioMaskPresent.getLsbD r = true →
    s.told ⟨e.2.config.phy, some r⟩ = false
  timers : ∀ name ∈ s.timers, s.told name = false

/-- A configuration for an MLD is for a phy that is not stopped. -/
def GivenStarted (name : PhyName) (configs : List IfaceConfig) (s : State) : Prop :=
  ∀ e ∈ s.mld, e.2.config.phy = name.phy → (mloConfig configs e.1).isSome →
    s.told ⟨name.phy, some (name.radio.getD 0)⟩ = false

/-- No timer is for the phy that is stopped, and if it is not known no MLD of it can use the
radio. -/
def StopHeard (name : PhyName) (s : State) : Prop :=
  name ∉ s.timers ∧ (s.config name = none →
    ∀ e ∈ s.mld, e.2.config.phy = name.phy → e.2.radioMaskPresent &&& mask name = 0)

/-- The phys of other MLDs for the radio are not stopped. -/
def OthersStarted (name : PhyName) (s : State) : Prop :=
  ∀ e ∈ s.mld, ∀ r, name.radio = some r → e.2.radioMask.getLsbD r = true →
    e.2.config.phy ≠ name.phy → s.told ⟨e.2.config.phy, some r⟩ = false

/-- An MLD with something to start can use all of its radios. -/
def Complete (data : Mld) : Prop :=
  mldStarts data = true → Within data.radioMask data.radioMaskPresent

def Started (_ : Env) (e : Event) (s : State) : Prop :=
  match e with
  | .mldStart => ∀ e ∈ s.mld, Complete e.2
  | .configSet name configs defer =>
    (∀ list ∈ configs, GivenStarted name list s) ∧ (defer = false → s.told name = false)
  | .phySetState name true => StopHeard name s
  | .phySetState name false => s.config name ≠ none → OthersStarted name s ∧
    (s.mldPending = false → (∃ e ∈ s.mld, mldFor name e.2 = true) →
      ∀ e ∈ s.mld, Complete (mldPresent name e.2))
  | _ => True

section Exclusion

variable {env : Env} {s : State} {name : PhyName}

/-- A radio that an MLD can use is that of a phy which is not stopped. -/
def Free (stopped : PhyName → Bool) (data : Mld) : Prop :=
  ∀ r, data.radioMaskPresent.getLsbD r = true → stopped ⟨data.config.phy, some r⟩ = false

theorem present_mldUpdateIface (data : Mld) :
    (mldUpdateIface data).radioMaskPresent = data.radioMaskPresent ∧
      (mldUpdateIface data).config = data.config := by
  rw [mldUpdateIface]
  split_ifs <;> exact ⟨rfl, rfl⟩

theorem present_mldAdd (env : Env) (s : State) (name : String) (data : Mld) :
    (mldAdd env s name data).radioMaskPresent = data.radioMaskPresent ∧
      (mldAdd env s name data).config = data.config := by
  rw [mldAdd]
  split_ifs <;> exact ⟨rfl, rfl⟩

theorem present_mldStartOne (env : Env) (s : State) (name : String) (data : Mld) :
    (mldStartOne env s name data).radioMaskPresent = data.radioMaskPresent ∧
      (mldStartOne env s name data).config = data.config := by
  rw [mldStartOne]
  split_ifs
  · exact present_mldAdd env s name data
  · exact present_mldAdd env s name (mldRemove data)
  · exact ⟨rfl, rfl⟩

theorem Free.of_eq {stopped : PhyName → Bool} {data data' : Mld} (h : Free stopped data)
    (heq : data'.radioMaskPresent = data.radioMaskPresent ∧ data'.config = data.config) :
    Free stopped data' := by
  intro r hr
  rw [heq.1] at hr
  rw [heq.2]
  exact h r hr

theorem free_newMld (stopped : PhyName → Bool) (config : MldConfig) :
    Free stopped (newMld config) := fun r hr => by
  have hzero : (0 : Mask).getLsbD r = true := hr
  rw [show (0 : Mask).getLsbD r = false from BitVec.getLsbD_zero] at hzero
  cases hzero

def AllFree (s : State) : Prop := ∀ e ∈ s.mld, Free s.told e.2

theorem AllFree.map {t : State} {f : String × Mld → String × Mld} (h : AllFree s)
    (hmld : t.mld = s.mld.map f)
    (hf : ∀ e ∈ s.mld, Free s.told e.2 → Free t.told (f e).2) : AllFree t := by
  intro e he
  rw [hmld] at he
  obtain ⟨e', he', rfl⟩ := mem_map.mp he
  exact hf e' he' (h e' he')

theorem quiet_mldLinks (name : String) {data : Mld} (h : Free s.told data)
    (hcomplete : Complete data) : ∀ e ∈ mldLinks env s name data, e.stopped = false := by
  intro e he
  rw [mldLinks] at he
  split_ifs at he with hstarts
  · obtain ⟨r, hr, rfl⟩ := mem_map.mp he
    exact h r (hcomplete (Bool.and_eq_true _ _ ▸ hstarts).1 r (mem_filter.mp hr).2)
  · cases he

theorem excluded_iff : Excluded s ↔ (∀ e ∈ s.log, e.stopped = false) ∧ AllFree s ∧
    ∀ name ∈ s.timers, s.told name = false :=
  ⟨fun h => ⟨h.log, h.present, h.timers⟩, fun h => ⟨h.1, h.2.1, h.2.2⟩⟩

theorem Excluded.mldStart (h : Excluded s) (env : Env)
    (hcomplete : s.mldPending = false → ∀ e ∈ s.mld, Complete e.2) :
    Excluded (mldStart env s) := by
  have hfree : AllFree s := h.present
  rw [Supplicant.mldStart]
  split_ifs with hpending
  · exact h
  · refine excluded_iff.mpr ⟨fun e he => ?_, ?_, h.timers⟩
    · rcases mem_append.mp he with he | he
      · obtain ⟨e', he', hlink⟩ := mem_flatMap.mp (mem_reverse.mp he)
        exact quiet_mldLinks e'.1 (hfree e' he')
          (hcomplete (Bool.eq_false_of_not_eq_true hpending) e' he') e hlink
      · exact h.log e he
    · exact hfree.map rfl fun e _ he => he.of_eq (present_mldStartOne env s e.1 e.2)

theorem log_startPending (env : Env) (name : PhyName) (s : State) (hfree : s.told name = false)
    (h : ∀ e ∈ s.log, e.stopped = false) :
    ∀ e ∈ (startPending env name s).log, e.stopped = false := by
  have hfold (ifaces : List (String × Iface)) (t : State) (ht : ∀ e ∈ t.log, e.stopped = false)
      (hfree : t.told name = false) :
      ∀ e ∈ (ifaces.foldl (ifaceStart name) t).log, e.stopped = false := by
    induction ifaces generalizing t with
    | nil => exact ht
    | cons e ifaces ih =>
      rw [foldl_cons]
      refine ih _ (fun e' he' => ?_) ?_
      · rw [ifaceStart] at he'
        split_ifs at he'
        · exact ht e' he'
        · rcases mem_cons.mp he' with rfl | he'
          · exact hfree
          · exact ht e' he'
      · rw [ifaceStart]
        split_ifs <;> exact hfree
  rw [startPending]
  split
  · exact h
  · split_ifs
    · exact hfold _ s h hfree
    · exact h

theorem Excluded.startPending (h : Excluded s) (env : Env) (hfree : s.told name = false) :
    Excluded (startPending env name s) := by
  obtain ⟨hmld, -, -, htold, htimers⟩ := mld_startPending env name s
  refine ⟨log_startPending env name s hfree h.log, ?_, ?_⟩
  · rw [hmld, htold]
    exact h.present
  · rw [htold, htimers]
    exact h.timers

theorem Excluded.setConfig (h : Excluded s) {configs : List IfaceConfig}
    (hgiven : GivenStarted name configs s) : Excluded (setConfig name configs s) := by
  have hfree : AllFree s := h.present
  refine excluded_iff.mpr ⟨h.log, hfree.map rfl fun e hmem he => ?_, h.timers⟩
  split_ifs with hphy
  · exact he
  · rw [ne_eq, not_not] at hphy
    have hset : Free s.told (mldSetIfaceConfig name.radio (mloConfig configs e.1) e.2) := by
      intro r hr
      dsimp only [mldSetIfaceConfig] at hr ⊢
      split_ifs at hr with hsome
      · rw [BitVec.getLsbD_or, Bool.or_eq_true, getLsbD_bit, decide_eq_true_eq] at hr
        rcases hr with hold | ⟨-, rfl⟩
        · exact he r hold
        · rw [hphy]
          exact hgiven e hmem hphy hsome
      · rw [getLsbD_andNot, Bool.and_eq_true] at hr
        exact he r hr.1
    exact hset.of_eq (present_mldUpdateIface _)

/-- A stop takes the radio out of the masks, if the phy is known. -/
theorem Excluded.stop (h : Excluded s) (env : Env) (hheard : StopHeard name s) :
    Excluded (phySetState env name true
      { s with told := Function.update s.told name true }) := by
  have hfree : AllFree s := h.present
  have htimers : ∀ n ∈ s.timers, Function.update s.told name true n = false := by
    intro n hn
    rw [Function.update_of_ne (ne_of_mem_of_not_mem hn hheard.1)]
    exact h.timers n hn
  rw [phySetState]
  cases hconfig : s.config name with
  | none =>
    refine excluded_iff.mpr ⟨h.log, fun e he r hr => ?_, htimers⟩
    have hne : (⟨e.2.config.phy, some r⟩ : PhyName) ≠ name := by
      rintro rfl
      have hclear := and_eq_zero_iff.mp (hheard.2 hconfig e he rfl) r hr
      rw [getLsbD_mask] at hclear
      simp [lt_of_getLsbD hr] at hclear
    dsimp only
    rw [Function.update_of_ne hne]
    exact hfree e he r hr
  | some ifaces =>
    refine excluded_iff.mpr ⟨h.log, hfree.map rfl fun e _ he => ?_, htimers⟩
    have hstopped : Free (Function.update s.told name true)
        { e.2 with radioMaskPresent := e.2.radioMaskPresent &&& ~~~mask name } := by
      intro r hr
      obtain ⟨hold, hne⟩ := ne_of_present hr
      rw [Function.update_of_ne hne]
      exact he r hold
    have hstop : Free (Function.update s.told name true) (mldStop name e.2) := by
      rw [mldStop]
      split_ifs
      · exact hstopped.of_eq (present_mldUpdateIface _)
      · exact hstopped
    exact hstop

theorem Excluded.start (h : Excluded s) (env : Env) (htold : s.told name = false)
    (hothers : OthersStarted name s) :
    Excluded { Supplicant.startPending env name (s.setStopped name false) with
      mld := (Supplicant.startPending env name (s.setStopped name false)).mld.map
        fun e => (e.1, mldPresent name e.2) } := by
  have hfree : AllFree s := h.present
  have hbase : Excluded (s.setStopped name false) := ⟨h.log, h.present, h.timers⟩
  have hstarted : Excluded (Supplicant.startPending env name (s.setStopped name false)) :=
    hbase.startPending env htold
  obtain ⟨hmld, -, -, hsame, -⟩ := mld_startPending env name (s.setStopped name false)
  refine excluded_iff.mpr ⟨hstarted.log, hfree.map (congrArg _ hmld) fun e hmem he => ?_,
    hstarted.timers⟩
  dsimp only
  rw [hsame, mldPresent]
  split_ifs with hfor
  · obtain ⟨radio, -, hradio, hmask⟩ := radio_of_mldFor hfor
    intro r hr
    rw [BitVec.getLsbD_or, Bool.or_eq_true, getLsbD_mask, decide_eq_true_eq, hradio] at hr
    rcases hr with hold | ⟨-, hr⟩
    · exact he r hold
    · obtain rfl := Option.some.inj hr
      by_cases hphy : e.2.config.phy = name.phy
      · have hname : (⟨e.2.config.phy, some radio⟩ : PhyName) = name := by
          rw [hphy, ← hradio]
        dsimp only [State.setStopped]
        rw [hname]
        exact htold
      · exact hothers e hmem radio hradio hmask hphy
  · exact he

theorem Excluded.release (h : Excluded s) {name : PhyName}
    (hstarted : Started env (.phySetState name false) s) :
    Excluded (phySetState env name false
      { s with told := Function.update s.told name false }) := by
  have hbase : Excluded { s with told := Function.update s.told name false } := by
    have hless (n : PhyName) (hn : s.told n = false) :
        Function.update s.told name false n = false := by
      rw [Function.update_apply]
      split_ifs
      · rfl
      · exact hn
    exact ⟨h.log, fun e he r hr => hless _ (h.present e he r hr),
      fun n hn => hless n (h.timers n hn)⟩
  rw [phySetState]
  cases hconfig : s.config name with
  | none => exact hbase
  | some ifaces =>
    obtain ⟨hothers, hcomplete⟩ := hstarted (by rw [hconfig]; exact Option.some_ne_none _)
    have hothers' : OthersStarted name
        { s with told := Function.update s.told name false } := by
      intro e he r hr hmask hphy
      have hne : (⟨e.2.config.phy, some r⟩ : PhyName) ≠ name := by
        rintro rfl
        exact hphy rfl
      dsimp only
      rw [Function.update_of_ne hne]
      exact hothers e he r hr hmask hphy
    have hstart := hbase.start env (Function.update_self _ _ _) hothers'
    obtain ⟨hmld, -, hpending, -⟩ := mld_startPending env name
      ({ s with told := Function.update s.told name false }.setStopped name false)
    dsimp only
    rw [if_neg Bool.false_ne_true]
    split_ifs with hany
    · refine hstart.mldStart env fun hready e he => ?_
      dsimp only at hready he
      rw [hpending] at hready
      rw [hmld] at he hany
      obtain ⟨e', he', rfl⟩ := mem_map.mp he
      exact hcomplete hready (any_eq_true.mp hany) e' he'
    · exact hstart

theorem Excluded.step (h : Excluded s) {e : Event} (hstarted : Started env e s) :
    Excluded (step env e s) := by
  have hfree : AllFree s := h.present
  cases e with
  | mldSet config =>
    refine excluded_iff.mpr ⟨h.log, fun e he => ?_, h.timers⟩
    obtain ⟨c, -, rfl⟩ := mem_map.mp he
    rw [mldOf]
    split
    · rename_i prev hprev
      split_ifs
      · obtain ⟨front, rest, hsplit, -⟩ := lookup_eq_some_iff.mp hprev
        exact hfree (c.1, prev) (hsplit ▸ mem_append_right front mem_cons_self)
      · exact free_newMld _ _
    · exact free_newMld _ _
  | mldStart =>
    have hsame : Excluded { s with mldPending := false } := ⟨h.log, h.present, h.timers⟩
    exact hsame.mldStart env fun _ => hstarted
  | configSet name configs defer =>
    obtain ⟨hgiven, hnow⟩ := hstarted
    have hset : ∀ t : State, Excluded t → t.told = s.told →
        Excluded (if defer then t else { t with timers := t.timers ++ [name] }) := by
      intro t ht htold
      split_ifs with hdefer
      · exact ht
      · refine ⟨ht.log, ht.present, fun n hn => ?_⟩
        rcases mem_append.mp hn with hn | hn
        · exact ht.timers n hn
        · rw [mem_singleton.mp hn]
          exact (congrFun htold name).trans (hnow (Bool.eq_false_of_not_eq_true hdefer))
    cases configs with
    | none => exact hset s h rfl
    | some configs => exact hset _ (h.setConfig (hgiven configs rfl)) rfl
  | phySetState name stop =>
    cases stop with
    | true => exact h.stop env hstarted
    | false => exact h.release hstarted
  | timer name =>
    rw [Supplicant.step]
    split_ifs with hmem
    · have hbase : Excluded { s with timers := s.timers.erase name } :=
        ⟨h.log, h.present, fun n hn => h.timers n (mem_of_mem_erase hn)⟩
      exact hbase.startPending env (h.timers name hmem)
    · exact h

/-- In a run whose steps are all allowed, nothing is started on a phy that is stopped. -/
theorem excluded_reachable (h : Reachable Started s) : Excluded s := by
  induction h with
  | init => exact ⟨by rintro e ⟨⟩, by rintro e ⟨⟩, by rintro e ⟨⟩⟩
  | step _ env e he ih => exact ih.step he

end Exclusion

end LibWrt.Supplicant
