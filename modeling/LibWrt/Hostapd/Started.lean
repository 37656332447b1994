/-
LibWrt.Hostapd.Started — a phy that was stopped is started again.

A sequence that has stopped its phy at wpa_supplicant is in the state from which
it starts the phy, and ends with that. A restart that aborts it there leaves the
phy stopped; its own sequence may end without a call.
-/
import LibWrt.Hostapd.Sequence

namespace LibWrt.Hostapd

open Function

def Entry.stops : Entry → Option (String × Bool)
  | .call phydev (.phySetState stop) => some (phydev.name, stop)
  | _ => none

/-- What was told of a phy last: that it is to be stopped, or started. -/
def stopState (name : String) (log : List Entry) : Option Bool :=
  (log.filterMap Entry.stops).lookup name

/-- A phy that was stopped has a sequence which starts it with its next step. -/
def Told (s : State) : Prop :=
  ∀ name, stopState name s.log = some true →
    ∃ i, s.pendingConfig name = some i ∧ (s.pending i).nextState = some .wpasStopped

def Filled (s : State) : Prop :=
  ∀ name i, s.pendingConfig name = some i → (s.pending i).config.bss ≠ []

/-- The configuration is not taken over in place. -/
def Restarts (env : Env) (name : String) (config : Config) (s : State) : Prop :=
  env.phyOpen = true ∧ (ifaceCheckMld env config).bss ≠ [] ∧
    ifaceReloadConfig env name (ifaceCheckMld env config) (s.config name) s ≠ some true

/-- No sequence of the phy is aborted that has stopped it. -/
def Unbroken (env : Env) (name : String) (config : Config) (s : State) : Prop :=
  Restarts env name config s → ∀ i, s.pendingConfig name = some i →
    (s.pending i).nextState ≠ some .wpasStopped

/-- What each request for the phy sets aborts no sequence that has stopped it. -/
def KeptOn (env : Env) (e : Event) (s : State) : Prop :=
  match e with
  | .configSet phy radio prevConfig config =>
    Unbroken env (phyName phy radio) (ifaceLoadConfig phy radio config)
      (withPrev phy radio prevConfig s)
  | .reload name radio bss => ∀ c, s.config name = some c →
    Unbroken env name (ifaceLoadConfig c.phy c.radioIdx
      { name := c.origFile, radio := radio, bss := bss }) s
  | .mldReload name => ∀ c bss, s.config name = some c → c.origBss = some bss →
    Unbroken env name { c with bss := bss } s
  | .reply _ _ => True

section StopState

variable {name : String} {e : Entry} {log es : List Entry}

theorem stopState_cons (h : e.stops = none) : stopState name (e :: log) = stopState name log := by
  rw [stopState, List.filterMap_cons_none h, ← stopState]

theorem stopState_call (phydev : Phydev) (stop : Bool) :
    stopState name (.call phydev (.phySetState stop) :: log) =
      if name = phydev.name then some stop else stopState name log := by
  have hlog : (Entry.call phydev (.phySetState stop) :: log).filterMap Entry.stops =
      (phydev.name, stop) :: log.filterMap Entry.stops := rfl
  rw [stopState, hlog, List.lookup_cons, ← stopState]
  by_cases hname : name = phydev.name
  · rw [if_pos hname, beq_iff_eq.mpr hname]
  · rw [if_neg hname, beq_eq_false_iff_ne.mpr hname]

end StopState

/-! ## A sequence -/

structure Tells (name : String) (s : State) (outcome : Outcome) (t : State) : Prop where
  others : ∀ m, m ≠ name → stopState m t.log = stopState m s.log
  goes : ∀ state, outcome = .next state → stopState name t.log = some true →
    state = .wpasStopped
  ends : outcome = .none → stopState name t.log ≠ some true
  raised : outcome ≠ .raised

section Loop

variable {env : Env} {i : Nat} {data : Option String} {s : State}

theorem Tells.quiet {name : String} {outcome : Outcome} {t : State}
    (hlog : ∀ m, stopState m t.log = stopState m s.log) (hdue : stopState name s.log ≠ some true)
    (hraised : outcome ≠ .raised) : Tells name s outcome t := by
  refine ⟨fun m _ => hlog m, fun state _ hstop => ?_, fun _ => ?_, hraised⟩
  · rw [hlog] at hstop
    exact absurd hstop hdue
  · rw [hlog]
    exact hdue

theorem tells_pendingStep (hbss : (s.pending i).config.bss ≠ []) {state : Option PendingState}
    (hdue : stopState (s.pending i).phydev.name s.log = some true → state = some .wpasStopped) :
    Tells (s.pending i).phydev.name s (pendingStep env i state data s).1
      (pendingStep env i state data s).2 := by
  have hclear (hne : state ≠ some .wpasStopped) :
      stopState (s.pending i).phydev.name s.log ≠ some true := fun h => hne (hdue h)
  cases state with
  | none => exact .quiet (fun _ => rfl) (hclear (by decide)) (by simp [pendingStep])
  | some state =>
    cases state with
    | init =>
      exact .quiet (fun _ => stopState_cons rfl) (hclear (by decide)) (by simp [pendingStep])
    | createBss =>
      have hquiet := hclear (by decide)
      simp only [pendingStep]
      split
      · rename_i hnil
        exact absurd hnil hbss
      · rename_i bss rest _
        cases hmld : bss.mldAp with
        | true =>
          refine .quiet (fun m => ?_) hquiet (by simp)
          exact stopState_cons rfl
        | false =>
          cases hwdev : env.wdevAdd with
          | true =>
            refine .quiet (fun m => ?_) hquiet (by simp)
            exact (stopState_cons rfl).trans (stopState_cons rfl)
          | false =>
            refine .quiet (fun m => ?_) hquiet (by simp)
            exact stopState_cons rfl
    | checkPhy =>
      have hquiet := hclear (by decide)
      simp only [pendingStep]
      have hcall (u : State) (hlog : ∀ m, stopState m u.log = stopState m s.log)
          (hphydev : (u.pending i).phydev = (s.pending i).phydev) :
          Tells (s.pending i).phydev.name s (.next .wpasStopped)
            (pendingCall env i (.phySetState true) u) := by
        refine ⟨fun m hm => ?_, fun state hstate _ => ?_, fun h => (by cases h), by simp⟩
        · refine (stopState_call _ true).trans ?_
          rw [if_neg (by rw [hphydev]; exact hm)]
          exact hlog m
        · exact (Outcome.next.inj hstate).symm
      have hphydev : ((s.put i { s.pending i with defer := false }).pending i).phydev =
          (s.pending i).phydev := by
        rw [State.pending_put_self]
      split_ifs with hdata hadded
      · exact .quiet (fun m => stopState_cons rfl) hquiet (by simp)
      · exact hcall _ (fun m => stopState_cons rfl) hphydev
      · exact hcall _ (fun m => rfl) hphydev
    | wpasStopped =>
      simp only [pendingStep]
      split_ifs with hadded
      · simp only [Bool.and_eq_true, decide_eq_true_eq] at hadded
        exact absurd hadded.2 hbss
      · have hphydev : ((s.put i { s.pending i with defer := false }).pending i).phydev =
            (s.pending i).phydev := by
          rw [State.pending_put_self]
        refine ⟨fun m hm => ?_, fun state hstate => (by cases hstate), fun _ => ?_, by simp⟩
        · refine (stopState_call _ false).trans ?_
          rw [if_neg]
          · exact stopState_cons rfl
          · intro heq
            exact hm (heq.trans (congrArg Phydev.name hphydev))
        · have hstart (log : List Entry) : stopState (s.pending i).phydev.name
              (.call ((s.put i { s.pending i with defer := false }).pending i).phydev
                (.phySetState false) :: log) = some false := by
            rw [stopState_call, if_pos (congrArg Phydev.name hphydev).symm]
          intro hstop
          cases (hstart _).symm.trans hstop
    | done => exact .quiet (fun _ => rfl) (hclear (by decide)) (by simp [pendingStep])

/-- A sequence has left the table and owes no start, or is as before, and starts its phy with its
next step if it owes that. -/
structure Owes (i : Nat) (s t : State) : Prop where
  others : ∀ m, m ≠ (s.pending i).phydev.name → stopState m t.log = stopState m s.log
  own : t.pendingConfig (s.pending i).phydev.name = none ∧
      stopState (s.pending i).phydev.name t.log ≠ some true ∨
    t.pendingConfig = s.pendingConfig ∧
      (stopState (s.pending i).phydev.name t.log = some true →
        (t.pending i).nextState = some .wpasStopped)

theorem owes_pendingLoop (env : Env) (i : Nat) (data : Option String) (n : Nat) {s : State}
    (hbss : (s.pending i).config.bss ≠ [])
    (hdue : stopState (s.pending i).phydev.name s.log = some true →
      (s.pending i).nextState = some .wpasStopped) :
    Owes i s (pendingLoop env i data n s) := by
  induction n generalizing s with
  | zero => exact ⟨fun _ _ => rfl, .inr ⟨rfl, hdue⟩⟩
  | succ n ih =>
    have htells : Tells (s.pending i).phydev.name s
        (pendingStep env i (s.pending i).nextState data s).1
        (pendingStep env i (s.pending i).nextState data s).2 := tells_pendingStep hbss hdue
    rw [pendingLoop]
    split
    · rename_i t heq
      rw [heq] at htells
      exact absurd rfl htells.raised
    · rename_i t heq
      rw [heq] at htells
      have hphydev := (ran_of_eq heq).phydev
      refine ⟨htells.others, .inl ⟨?_, htells.ends rfl⟩⟩
      have htable : (pendingStep env i (some .done) none
          (t.put i { t.pending i with nextState := none })).2.pendingConfig =
          update t.pendingConfig (s.pending i).phydev.name none := by
        simp [pendingStep, hphydev]
      rw [htable, update_self]
    · rename_i state t heq
      rw [heq] at htells
      have hran := ran_of_eq heq
      have hsame := pendingStep_table heq (by simp)
      have hgoes := htells.goes state rfl
      dsimp only
      split_ifs with hdefer
      · refine ⟨htells.others, .inr ⟨hsame, fun hstop => ?_⟩⟩
        rw [State.pending_put_self, hgoes hstop]
      · have hput : ((t.put i { t.pending i with nextState := some state }).pending i).phydev =
            (s.pending i).phydev := by
          rw [State.pending_put_self]
          exact hran.phydev
        have hrest := ih (s := t.put i { t.pending i with nextState := some state })
          (by rw [State.pending_put_self, hran.own]; exact hbss) (fun hstop => by
            rw [hput] at hstop
            rw [State.pending_put_self, hgoes hstop])
        have hothers := hrest.others
        have hown := hrest.own
        rw [hput] at hothers hown
        refine ⟨fun m hm => (hothers m hm).trans (htells.others m hm), ?_⟩
        exact hown.imp id fun hkept => ⟨hkept.1.trans hsame, hkept.2⟩

/-- What a sequence in the table leaves; before, other phys are all that is known of. -/
theorem Told.loop {t : State}
    (h : ∀ name, name ≠ (s.pending i).phydev.name → stopState name s.log = some true →
      ∃ j, s.pendingConfig name = some j ∧ (s.pending j).nextState = some .wpasStopped)
    (htabled : Tabled s) (hi : s.pendingConfig (s.pending i).phydev.name = some i)
    (hran : Ran i s t) (hwaits : Waits i s t) (howes : Owes i s t) : Told t := by
  intro name hstop
  by_cases hname : name = (s.pending i).phydev.name
  · subst hname
    rcases howes.own with ⟨-, hnot⟩ | ⟨hsame, hdue⟩
    · exact absurd hstop hnot
    · exact ⟨i, by rw [hsame, hi], hdue hstop⟩
  · rw [howes.others name hname] at hstop
    obtain ⟨j, hj, hnext⟩ := h name hname hstop
    have hji : j ≠ i := by
      rintro rfl
      exact hname (htabled.table name j hj).1.symm
    refine ⟨j, ?_, by rw [hran.others j hji, hnext]⟩
    rcases hwaits.table with hsame | ⟨-, hleft⟩
    · rw [hsame, hj]
    · rw [hleft, update_of_ne hname, hj]

theorem Filled.loop {t : State} (h : Filled s) (hran : Ran i s t) (hwaits : Waits i s t) :
    Filled t := by
  intro name j hj
  have hold : s.pendingConfig name = some j := by
    rcases hwaits.table with hsame | ⟨-, hleft⟩
    · rwa [hsame] at hj
    · rw [hleft, update_apply] at hj
      split_ifs at hj
      exact hj
  by_cases hji : j = i
  · subst hji
    rw [hran.own]
    exact h name j hold
  · rw [hran.others j hji]
    exact h name j hold

end Loop

/-! ## Requests -/

section Requests

variable {env : Env} {s t : State} {name : String} {config : Config}

/-- Nothing is told of a phy, and no sequence is changed. -/
structure Silent (s t : State) : Prop where
  table : t.pendingConfig = s.pendingConfig
  pending : t.pending = s.pending
  log : ∀ m, stopState m t.log = stopState m s.log

theorem Silent.told (h : Silent s t) (htold : Told s) : Told t := by
  intro name hstop
  rw [h.log] at hstop
  rw [h.table, h.pending]
  exact htold name hstop

theorem Silent.filled (h : Silent s t) (hfilled : Filled s) : Filled t := by
  intro name i hi
  rw [h.table] at hi
  rw [h.pending]
  exact hfilled name i hi

theorem Silent.trans {u : State} (h : Silent s t) (h' : Silent t u) : Silent s u :=
  ⟨h'.table.trans h.table, h'.pending.trans h.pending, fun m => (h'.log m).trans (h.log m)⟩

theorem silent_note {e : Entry} (h : e.stops = none) : Silent s (s.note e) :=
  ⟨rfl, rfl, fun _ => stopState_cons h⟩

theorem silent_setConfig (s : State) (name : String) (config : Config) :
    Silent s (s.setConfig name config) := ⟨rfl, rfl, fun _ => rfl⟩

theorem silent_ifaceRemove (config : Option Config) (s : State) :
    Silent s (ifaceRemove config s) := by
  have hfold (l : List Bss) (s : State) :
      Silent s (l.foldl (fun s bss => s.note (.wdevRemove bss.ifname)) s) := by
    induction l generalizing s with
    | nil => exact ⟨rfl, rfl, fun _ => rfl⟩
    | cons bss l ih =>
      exact (silent_note (e := .wdevRemove bss.ifname) rfl).trans
        (ih (s.note (.wdevRemove bss.ifname)))
  cases config with
  | none => exact ⟨rfl, rfl, fun _ => rfl⟩
  | some config =>
    rw [ifaceRemove]
    split_ifs
    · exact ⟨rfl, rfl, fun _ => rfl⟩
    · exact hfold _ s

structure Aborted (name : String) (s t : State) : Prop where
  table : t.pendingConfig = update s.pendingConfig name none
  pending : ∀ j, s.pendingConfig name ≠ some j → t.pending j = s.pending j
  log : ∀ m, stopState m t.log = stopState m s.log

def aborted (env : Env) (name : String) (s : State) : State :=
  match s.pendingConfig name with
  | none => s
  | some i => ifacePendingAbort env i s

theorem cleared_eq (env : Env) (phydev : Phydev) (config : Config) (oldConfig : Option Config)
    (s : State) : cleared env phydev config oldConfig s = ifaceRemove (some config)
      (ifaceRemove oldConfig ((aborted env phydev.name s).note (.removeIface phydev.name))) := rfl

theorem aborted_cleared (env : Env) (h : Tabled s) (phydev : Phydev) (config : Config)
    (oldConfig : Option Config) :
    Aborted phydev.name s (cleared env phydev config oldConfig s) := by
  have habort : Aborted phydev.name s (aborted env phydev.name s) := by
    rw [aborted]
    split
    · rename_i hnone
      refine ⟨?_, fun _ _ => rfl, fun _ => rfl⟩
      rw [← hnone, update_eq_self]
    · rename_i i hi
      rw [ifacePendingAbort_eq, (h.table _ i hi).1]
      refine ⟨rfl, fun j hj => s.pending_put_ne _ _ fun heq => hj (heq ▸ hi), fun _ => rfl⟩
  rw [cleared_eq]
  generalize aborted env phydev.name s = u at habort ⊢
  have hsilent : Silent u (ifaceRemove (some config)
      (ifaceRemove oldConfig (u.note (.removeIface phydev.name)))) :=
    (silent_note rfl).trans ((silent_ifaceRemove _ _).trans (silent_ifaceRemove _ _))
  exact ⟨hsilent.table.trans habort.table,
    fun j hj => (congrFun hsilent.pending j).trans (habort.pending j hj),
    fun m => (hsilent.log m).trans (habort.log m)⟩

/-- A restart aborts no sequence that owes a start. -/
theorem told_restart (h : Told s) (htabled : Tabled s) {phydev : Phydev}
    {oldConfig : Option Config} (hbss : config.bss ≠ [])
    (hkept : ∀ i, s.pendingConfig phydev.name = some i →
      (s.pending i).nextState ≠ some .wpasStopped) :
    Told (ifaceRestart env phydev config oldConfig s) := by
  obtain ⟨hran, hwaits⟩ := ifaceRestart_ran env s phydev oldConfig hbss
  have haborted := aborted_cleared env htabled phydev config oldConfig
  have hclear := cleared_spec env htabled phydev config oldConfig
  have hbegun : Tabled (begun phydev config (cleared env phydev config oldConfig s)) :=
    tabled_begun htabled hclear
  have heq : ifaceRestart env phydev config oldConfig s =
      ifacePendingInit env phydev config (cleared env phydev config oldConfig s) :=
    ifaceRestart_eq hbss
  generalize cleared env phydev config oldConfig s = u at haborted hclear hbegun hran hwaits heq
  have hphydev : ((begun phydev config u).pending u.next).phydev.name = phydev.name := by
    rw [begun_pending]
  have hnot : stopState phydev.name (begun phydev config u).log ≠ some true := by
    intro hstop
    have hold : stopState phydev.name s.log = some true := (haborted.log _).symm.trans hstop
    obtain ⟨i, hi, hnext⟩ := h phydev.name hold
    exact hkept i hi hnext
  refine Told.loop ?_ hbegun (begun_table _ _ _) hran hwaits ?_
  · intro name hname hstop
    rw [hphydev] at hname
    have hold : stopState name s.log = some true := (haborted.log _).symm.trans hstop
    obtain ⟨j, hj, hnext⟩ := h name hold
    have hlt : j ≠ u.next := by
      have hfresh := (htabled.table name j hj).2
      rw [hclear.next]
      omega
    have hother : s.pendingConfig phydev.name ≠ some j := by
      intro hsame
      exact hname ((htabled.table name j hj).1.symm.trans (htabled.table _ j hsame).1)
    refine ⟨j, ?_, ?_⟩
    · change update u.pendingConfig phydev.name (some u.next) name = some j
      rw [update_of_ne hname, haborted.table, update_of_ne hname, hj]
    · rw [begun_pending_ne _ _ _ hlt, haborted.pending j hother, hnext]
  · rw [heq]
    refine owes_pendingLoop env u.next none 5 ?_ ?_
    · rw [begun_pending]
      exact hbss
    · intro hstop
      rw [hphydev] at hstop
      exact absurd hstop hnot

theorem filled_restart (h : Filled s) (htabled : Tabled s) {phydev : Phydev}
    {oldConfig : Option Config} (hbss : config.bss ≠ []) :
    Filled (ifaceRestart env phydev config oldConfig s) := by
  obtain ⟨hran, hwaits⟩ := ifaceRestart_ran env s phydev oldConfig hbss
  have haborted := aborted_cleared env htabled phydev config oldConfig
  have hclear := cleared_spec env htabled phydev config oldConfig
  generalize cleared env phydev config oldConfig s = u at haborted hclear hran hwaits
  refine Filled.loop ?_ hran hwaits
  intro name j hj
  change update u.pendingConfig phydev.name (some u.next) name = some j at hj
  rw [update_apply] at hj
  split_ifs at hj with hname
  · rw [← Option.some.inj hj, begun_pending]
    exact hbss
  · rw [haborted.table, update_of_ne hname] at hj
    have hlt : j ≠ u.next := by
      have hfresh := (htabled.table name j hj).2
      rw [hclear.next]
      omega
    rw [begun_pending_ne _ _ _ hlt, (hclear.own j).2]
    exact h name j hj

def entered (env : Env) (name : String) (config : Config) (s : State) : State :=
  ((s.setConfig name config).note (.set name config)).setConfig name (ifaceCheckMld env config)

theorem silent_entered (env : Env) (name : String) (config : Config) (s : State) :
    Silent s (entered env name config s) :=
  (silent_setConfig s name config).trans ((silent_note rfl).trans (silent_setConfig _ _ _))

theorem tabled_entered (h : Tabled s) (hname : phyName config.phy config.radioIdx = name) :
    Tabled (entered env name config s) := by
  have hset : Tabled ((s.setConfig name config).note (.set name config)) :=
    h.frame rfl rfl rfl (keyed_setConfig h hname)
  exact hset.frame rfl rfl rfl (keyed_setConfig hset hname)

theorem told_ifaceSetConfig (h : Told s) (hfilled : Filled s) (htabled : Tabled s)
    (hname : phyName config.phy config.radioIdx = name) (hkept : Unbroken env name config s) :
    Told (ifaceSetConfig env name config s) ∧ Filled (ifaceSetConfig env name config s) := by
  have hphydev : (Phydev.mk config.phy config.radioIdx).name = name := hname
  have hsilent := silent_entered env name config s
  have hentered : Tabled (entered env name config s) := tabled_entered htabled hname
  unfold ifaceSetConfig
  dsimp only
  split_ifs with hopen hbss hreload
  · have hset : Silent s ((s.setConfig name config).note (.set name config)) :=
      (silent_setConfig s name config).trans (silent_note rfl)
    exact ⟨hset.told h, hset.filled hfilled⟩
  · have hremove : Silent s (ifaceConfigRemove name (s.config name)
        (entered env name config s)) :=
      hsilent.trans ((silent_note rfl).trans (silent_ifaceRemove _ _))
    exact ⟨hremove.told h, hremove.filled hfilled⟩
  · have hnote : Silent s ((entered env name config s).note
        (.macaddrList ⟨config.phy, config.radioIdx⟩)) := hsilent.trans (silent_note rfl)
    exact ⟨hnote.told h, hnote.filled hfilled⟩
  · have hrestarts : Restarts env name config s := ⟨by simpa using hopen, hbss, hreload⟩
    refine ⟨told_restart (hsilent.told h) hentered hbss fun i hi => ?_,
      filled_restart (hsilent.filled hfilled) hentered hbss⟩
    rw [hphydev] at hi
    exact hkept hrestarts i hi

theorem silent_withPrev (phy : String) (radio : Option Int) (prevConfig : Option File)
    (s : State) : Silent s (withPrev phy radio prevConfig s) := by
  unfold withPrev
  split
  · exact silent_setConfig _ _ _
  · exact ⟨rfl, rfl, fun _ => rfl⟩

theorem told_step (h : Told s) (hfilled : Filled s) (htabled : Tabled s) {e : Event}
    (hkept : KeptOn env e s) : Told (step env e s) ∧ Filled (step env e s) := by
  cases e with
  | configSet phy radio prevConfig config =>
    unfold step configSet
    dsimp only
    split_ifs
    · exact ⟨h, hfilled⟩
    · have hsilent := silent_withPrev phy radio prevConfig s
      exact told_ifaceSetConfig (hsilent.told h) (hsilent.filled hfilled)
        (withPrev_spec htabled phy radio prevConfig).1 (phyName_filter phy radio) hkept
  | reload name radio bss =>
    unfold step reload
    dsimp only
    split
    · exact ⟨h, hfilled⟩
    · rename_i c hc
      exact told_ifaceSetConfig h hfilled htabled
        ((phyName_filter _ _).trans (htabled.keyed name c hc)) (hkept c hc)
  | mldReload name =>
    unfold step mldReloadInterface
    dsimp only
    split
    · exact ⟨h, hfilled⟩
    · rename_i c hc
      split
      · rename_i bss horig
        exact told_ifaceSetConfig h hfilled htabled (htabled.keyed name c hc)
          (hkept c bss hc horig)
      · have hset : Silent s ((s.setConfig name { c with bss := [] }).note
            (.set name { c with bss := [] })) :=
          (silent_setConfig _ _ _).trans (silent_note rfl)
        exact ⟨hset.told h, hset.filled hfilled⟩
  | reply i data =>
    unfold step
    dsimp only
    split_ifs with hdefer
    · have hi := htabled.live i hdefer
      have hput : Ran i s (s.put i { s.pending i with defer := false }) := .put rfl rfl
      obtain ⟨hran, hwaits⟩ := answered_ran env i data s
      have howes : Owes i s
          (ifacePendingNext env i data (s.put i { s.pending i with defer := false })) := by
        have hloop := owes_pendingLoop env i data 5
          (s := s.put i { s.pending i with defer := false })
          (by rw [State.pending_put_self]; exact hfilled _ i hi) (fun hstop => by
            rw [State.pending_put_self] at hstop ⊢
            obtain ⟨j, hj, hnext⟩ := h _ hstop
            rw [hi] at hj
            obtain rfl := Option.some.inj hj
            exact hnext)
        have hothers := hloop.others
        have hown := hloop.own
        rw [State.pending_put_self] at hothers hown
        exact ⟨hothers, hown⟩
      exact ⟨Told.loop (fun name _ => h name) htabled hi hran hwaits howes,
        hfilled.loop hran hwaits⟩
    · exact ⟨h, hfilled⟩

/-- In a run that aborts no sequence which has stopped its phy, each of them starts it. -/
theorem told_reachable (h : Reachable KeptOn s) : Told s ∧ Filled s ∧ Tabled s := by
  induction h with
  | init =>
    refine ⟨fun name hstop => ?_, fun name i hi => ?_, ?_⟩
    · cases hstop
    · cases hi
    · exact ⟨fun _ _ => rfl, fun _ h => (by cases h), fun _ _ h => (by cases h),
        fun _ _ h => (by cases h)⟩
  | step _ env e he ih =>
    obtain ⟨htold, hfilled, htabled⟩ := ih
    obtain ⟨htold', hfilled'⟩ := told_step htold hfilled htabled he
    exact ⟨htold', hfilled', tabled_step htabled e⟩

end Requests

end LibWrt.Hostapd
