/-
LibWrt.Wireless.Steps — the calls are made of moves.

The calls are taken one by one; what the queue does after a call is an
induction on the starts that fail. At last, what each move keeps holds of the
states that runs reach.
-/
import LibWrt.Wireless.Moves

namespace LibWrt.Wireless

open List

/-! ## The calls are made of moves -/

section Calls

variable {R : Rules} {run : State → State} {env : Env} {s t : State} {i : Nat}

/-- Where the queue is not run, nothing is done. -/
theorem setup_cases (run : State → State) (env : Env) (i : Nat) (s : State) :
    setup run env i s = s ∨
    ((s.wdev i).state = .up ∨ (s.wdev i).state = .down) ∧ (s.wdev i).autostart = true ∧
      (s.wdev i).retrySetupFailed = false ∧
      setup run env i s = run ((s.put i (s.wdev i).toSetup).enqueue i .setup env.time) := by
  unfold setup
  dsimp only
  split_ifs with hstate hauto
  · exact .inl rfl
  · exact .inl rfl
  · refine .inr ⟨?_, ?_, ?_, rfl⟩
    · tauto
    · cases h : (s.wdev i).autostart <;> simp_all
    · cases h : (s.wdev i).retrySetupFailed <;> simp_all

theorem teardown_cases (run : State → State) (env : Env) (i : Nat) (s : State) :
    ((s.wdev i).state = .teardown ∨ (s.wdev i).state = .down) ∧
      teardown run env i s = s.put i { s.wdev i with cancelSetup := false } ∨
    ((s.wdev i).state = .setup ∨ (s.wdev i).state = .up) ∧
      teardown run env i s =
        run ((s.put i (s.wdev i).toTeardown).enqueue i .teardown env.time) := by
  unfold teardown
  dsimp only
  split_ifs with hstate
  · exact .inl ⟨hstate, rfl⟩
  · refine .inr ⟨?_, rfl⟩
    cases h : (s.wdev i).state <;> simp_all

theorem moves_edit {w : Wdev} (h : (s.wdev i).Same w) : Moves R s (s.put i w) :=
  .single (.edit h)

theorem moves_setup (hrun : ∀ s, s.raised = false → Moves R s (run s)) (hraised : s.raised = false)
    (hdown : (s.wdev i).state = .down → s.Listed i)
    (hup : (s.wdev i).state = .up → R.again i s.cur) : Moves R s (setup run env i s) := by
  rcases setup_cases run env i s with heq | ⟨hstate, hauto, hfailed, heq⟩
  · rw [heq]
  · rw [heq]
    have hmove : Move R s ((s.put i (s.wdev i).toSetup).enqueue i .setup env.time) := by
      refine .setup ?_ hauto hfailed env.time
      rcases hstate with h | h
      · exact .inr ⟨h, hup h⟩
      · exact .inl ⟨h, hdown h⟩
    exact (Relation.ReflTransGen.single hmove).trans (hrun _ hraised)

theorem moves_teardown (hrun : ∀ s, s.raised = false → Moves R s (run s))
    (hraised : s.raised = false) : Moves R s (teardown run env i s) := by
  rcases teardown_cases run env i s with ⟨-, heq⟩ | ⟨hstate, heq⟩
  · rw [heq]
    exact moves_edit ⟨rfl, rfl, rfl, rfl, rfl, id, .inl rfl, rfl⟩
  · rw [heq]
    exact (Relation.ReflTransGen.single (.teardown hstate env.time)).trans (hrun _ hraised)

theorem countFailure_state (w : Wdev) : w.countFailure.state = w.state := by
  unfold Wdev.countFailure
  split
  · split <;> rfl
  · rfl

variable {c : Script}

theorem moves_wdevSetupCb (hrun : ∀ s, s.raised = false → Moves R s (run s)) (hended : Ended c s t)
    (hraised : t.raised = false) (hop : c.op = .setup) (hagain : ∀ i, R.again i none) :
    Moves R s (wdevSetupCb run env c.wdev c.serial t) := by
  have hcur : t.cur = none := by cases hended <;> rfl
  unfold wdevSetupCb
  dsimp only
  split_ifs with hstate hchange
  · refine (Relation.ReflTransGen.single (.idle hended hop hstate)).trans ?_
    refine (Relation.ReflTransGen.single (.configInit c.wdev)).trans ?_
    refine moves_setup hrun hraised (fun hdown => ?_) fun _ => ?_
    · simp [wdevConfigInit, hchange.1] at hdown
    · simpa [wdevConfigInit, hcur] using hagain c.wdev
  · exact .single (.idle hended hop hstate)
  · have hsetup : (t.wdev c.wdev).state = .setup := not_not.mp hstate
    have heq : teardown run env c.wdev
        ((t.put c.wdev (t.wdev c.wdev).countFailure).note (.failure c.wdev c.serial)) =
        run (((t.put c.wdev (t.wdev c.wdev).countFailure.toTeardown).note
          (.failure c.wdev c.serial)).enqueue c.wdev .teardown env.time) := by
      simp [teardown, runHandler, countFailure_state, hsetup, State.enqueue, Wdev.toTeardown,
        wdevProcReset, State.put, State.note]
    rw [heq]
    exact (Relation.ReflTransGen.single (.failed hended hop hsetup env.time)).trans
      (hrun _ hraised)

theorem Reported.fields {up : Bool} {l : List HandlerData} (h : Reported up l s t) :
    ∃ es r, t = { s with log := es ++ s.log, raised := r } := by
  cases h with
  | all es => exact ⟨es, s.raised, rfl⟩
  | some es => exact ⟨es, true, rfl⟩

theorem moves_wdevTeardownCb (hrun : ∀ s, s.raised = false → Moves R s (run s))
    (hended : Ended c s t) (hraised : t.raised = false) (hop : c.op = .teardown) :
    Moves R s (wdevTeardownCb run env c.wdev t) := by
  have hlinks := reported_handleLinks (t.wdev c.wdev).sections false hraised
  have hw : (handleLinks (t.wdev c.wdev).sections false t).wdev = t.wdev := by
    obtain ⟨es, r, heq⟩ := hlinks.fields
    rw [heq]
  unfold wdevTeardownCb
  generalize handleLinks (t.wdev c.wdev).sections false t = u at hlinks hw ⊢
  dsimp only
  simp only [hw]
  split_ifs with hu hdelete
  · exact .single (.thrown hended hop hraised hlinks hu)
  · exact .single (.deleted hended hop hlinks (by simpa using hu) hdelete)
  · have hu : u.raised = false := by simpa using hu
    have hkeep : (t.wdev c.wdev).delete = false := by simpa using hdelete
    change Moves R s (setup run env c.wdev (u.put c.wdev (t.wdev c.wdev).toDown))
    rcases setup_cases run env c.wdev (u.put c.wdev (t.wdev c.wdev).toDown) with
      heq | ⟨-, hauto, hfailed, heq⟩
    · rw [heq]
      exact .single (.down hended hop hlinks hu hkeep)
    · rw [heq, State.wdev_put_self, State.put_put]
      rw [State.wdev_put_self] at hauto hfailed
      exact (Relation.ReflTransGen.single
        (.restart hended hop hlinks hu hkeep hauto hfailed env.time)).trans (hrun _ hu)

theorem moves_callback (hrun : ∀ s, s.raised = false → Moves R s (run s)) (hended : Ended c s t)
    (hraised : t.raised = false) (hagain : ∀ i, R.again i none) :
    Moves R s (callback run env c t) := by
  unfold callback
  split
  · rename_i hop
    exact moves_wdevSetupCb hrun hended hraised hop hagain
  · rename_i hop
    exact moves_wdevTeardownCb hrun hended hraised hop

theorem get?_of_pick {k : Nat} {handler : Dict String Slot} {e : String × Slot}
    (h : pick k handler = some e) : handler.get? e.1 = some e.2 := by
  have hmem := mem_of_getElem? h
  simp only [oldest, mem_map, mem_filter] at hmem
  obtain ⟨e', ⟨he', -⟩, rfl⟩ := hmem
  exact (handler.mem_entries_iff e'.1 e'.2).mp he'

theorem runHandlerCb_of_cur (hcur : s.cur = some c) :
    runHandlerCb run env c s = callback run env c (settled c s) := by
  simp [runHandlerCb, hcur]

theorem moves_configDone : Moves R s (configDone s) := by
  unfold configDone
  split
  · exact .single .configDone
  · exact .refl

section

variable (hagain : ∀ i, R.again i none)

include hagain

theorem moves_runNextHandler (failing : List Nat)
    (hraised : s.raised = false) : Moves R s (runNextHandler env failing s) := by
  induction failing generalizing s with
  | nil =>
    unfold runNextHandler
    split_ifs with hcur
    · exact .refl
    · have hcur : s.cur = none := by simpa using hcur
      split
      · exact moves_configDone
      · rename_i e he
        exact .single (.begin hcur (get?_of_pick he))
  | cons k failing ih =>
    unfold runNextHandler
    split_ifs with hcur
    · exact .refl
    · have hcur : s.cur = none := by simpa using hcur
      split
      · exact moves_configDone
      · rename_i e he
        dsimp only
        rw [runHandlerCb_of_cur (by rfl)]
        have hended : Ended ⟨e.2.op, e.2.wdev, s.serial⟩ s
            (settled ⟨e.2.op, e.2.wdev, s.serial⟩ (take e.1 e.2 s)) :=
          .unstarted hcur (get?_of_pick he) rfl rfl rfl
        have hmoves : Moves R s (callback (runNextHandler env failing) env _ _) :=
          moves_callback (fun s hs => ih hs) hended hraised hagain
        split_ifs with hafter
        · exact hmoves
        · exact hmoves.trans (ih (by simpa using hafter))

theorem moves_env_run (hraised : s.raised = false) :
    Moves R s (env.run s) :=
  moves_runNextHandler hagain _ hraised

theorem moves_check (hraised : s.raised = false)
    (hlisted : s.Listed i) (hup : (s.wdev i).state = .up →
      (wdevUpdateDisabledVifs env (s.wdev i)).configChange = true → R.again i s.cur) :
    Moves R s (check env i s) := by
  have hedit : Moves R s (s.put i (wdevUpdateDisabledVifs env (s.wdev i))) :=
    moves_edit ⟨rfl, rfl, rfl, rfl, rfl, id, .inl rfl, rfl⟩
  unfold check
  dsimp only
  split_ifs with hchange
  · refine (hedit.trans (.single (.configInit i))).trans ?_
    refine moves_setup (fun s hs => moves_env_run hagain hs) hraised (fun _ => hlisted) fun h => ?_
    refine hup ?_ hchange
    simpa [wdevConfigInit, wdevUpdateDisabledVifs] using h
  · exact hedit

theorem moves_update (hraised : s.raised = false)
    (hlisted : s.Listed i) {data : Option Data} (hname : ∀ d ∈ data, d.name = (s.wdev i).name)
    (hrule : data ≠ some (s.wdev i).data →
      (data ≠ none → R.renew i s) ∧ ((s.wdev i).state = .up → R.again i s.cur)) :
    Moves R s (update env i data s) := by
  unfold update
  dsimp only
  split_ifs with hsame
  · exact .refl
  · obtain ⟨hrenew, hup⟩ := hrule hsame
    cases data with
    | none =>
      have hedit : Moves R s (s.put i { wdevReset (s.wdev i) with configChange := true }) :=
        moves_edit ⟨rfl, rfl, rfl, rfl, rfl, by simp [wdevReset], .inr rfl, rfl⟩
      refine hedit.trans (moves_check hagain hraised hlisted fun h _ => hup ?_)
      simpa [wdevReset] using h
    | some d =>
      have hmove : Move R s (s.put i ((s.wdev i).renew d)) :=
        .renew hlisted (hname d rfl) (hrenew (by simp))
      have hedit : Moves R (s.put i ((s.wdev i).renew d))
          (s.put i { wdevReset ((s.wdev i).renew d) with configChange := true }) := by
        have := moves_edit (R := R) (s := s.put i ((s.wdev i).renew d)) (i := i)
          (w := { wdevReset ((s.wdev i).renew d) with configChange := true })
          ⟨by simp [wdevReset], by simp [wdevReset], by simp [wdevReset], by simp [wdevReset],
            by simp [wdevReset], by simp [wdevReset], .inr rfl, by simp [wdevReset]⟩
        simpa using this
      refine ((Relation.ReflTransGen.single hmove).trans hedit).trans
        (moves_check hagain hraised hlisted fun h _ => hup ?_)
      simpa [wdevReset, Wdev.renew] using h

theorem moves_start (hraised : s.raised = false)
    (hlisted : s.Listed i) (hauto : (s.wdev i).delete = false → (s.wdev i).autostart = true) :
    Moves R s (start env i s) := by
  unfold start
  dsimp only
  split_ifs with hdelete hstate hchange
  · exact .refl
  · have := hauto (by simpa using hdelete)
    exact moves_edit ⟨rfl, rfl, rfl, this.symm, rfl, by simp [wdevReset], .inr rfl, rfl⟩
  all_goals
    have hauto := hauto (by simpa using hdelete)
    have hedit : Moves R s (s.put i (wdevUpdateDisabledVifs env
        (wdevReset { s.wdev i with autostart := true }))) :=
      moves_edit ⟨rfl, rfl, rfl, hauto.symm, rfl, by simp [wdevReset, wdevUpdateDisabledVifs],
        .inr rfl, rfl⟩
    have hdown : (s.wdev i).state = .down := by simpa [wdevReset] using hstate
  · refine (hedit.trans (.single (.configInit i))).trans ?_
    refine moves_setup (fun s hs => moves_env_run hagain hs) hraised (fun _ => hlisted) fun h => ?_
    simp [wdevConfigInit, wdevUpdateDisabledVifs, wdevReset, hdown] at h
  · refine hedit.trans ?_
    refine moves_setup (fun s hs => moves_env_run hagain hs) hraised (fun _ => hlisted) fun h => ?_
    simp [wdevUpdateDisabledVifs, wdevReset, hdown] at h

end

theorem wanted_of_delete {w : Wdev} (h : w.delete = true) : w.wanted = w := by
  cases w
  simp_all [Wdev.wanted]

/-- A start has the wish for it noted first. -/
theorem start_wanted (env : Env) (i : Nat) (s : State) :
    start env i (s.put i (s.wdev i).wanted) = start env i s := by
  cases hdelete : (s.wdev i).delete with
  | true => rw [wanted_of_delete hdelete, State.put_self]
  | false => simp [start, Wdev.wanted, hdelete, wdevReset]

theorem moves_callStart (hagain : ∀ i, R.again i none) (hraised : s.raised = false)
    (hlisted : s.Listed i) (hrule : R.ask i .start s) :
    Moves R s (start env i (s.note (.request i .start))) := by
  rw [← start_wanted]
  refine (Relation.ReflTransGen.single (.want hlisted hrule)).trans
    (moves_start hagain hraised hlisted fun hdelete => ?_)
  have hdelete : (s.wdev i).delete = false := by simpa [Wdev.wanted] using hdelete
  simp [Wdev.wanted, hdelete]

theorem stop_halted (env : Env) (i : Nat) (s : State) :
    stop env i (halted i .stop (s.wdev i).delete (s.wdev i) s) =
      stop env i (s.note (.request i .stop)) := by
  cases h : (s.wdev i).state <;> simp [stop, halted, h]

theorem moves_stop (hagain : ∀ i, R.again i none) (hraised : s.raised = false)
    (hlisted : s.Listed i) {r : Request} {delete : Bool} (hrule : R.ask i r s)
    (hwish : Wish (s.wdev i) r delete)
    (hdown : r = .destroy → (s.wdev i).state ≠ .down) :
    Moves R s (stop env i (halted i r delete (s.wdev i) s)) := by
  have hhalt : (s.wdev i).state ≠ .up → Moves R s (halted i r delete (s.wdev i) s) :=
    fun h => .single (.halt hlisted hrule hwish h hdown)
  have hedit : ∀ cancel, Moves R (halted i r delete (s.wdev i) s)
      ((halted i r delete (s.wdev i) s).put i
        { s.wdev i with autostart := false, delete := delete, cancelSetup := cancel }) := by
    intro cancel
    exact moves_edit ⟨by simp [halted], by simp [halted], by simp [halted], by simp [halted],
      by simp [halted], by simp [halted], .inl (by simp [halted]), by simp [halted]⟩
  cases hstate : (s.wdev i).state with
  | setup =>
    have heq : stop env i (halted i r delete (s.wdev i) s) =
        (halted i r delete (s.wdev i) s).put i
          { s.wdev i with autostart := false, delete := delete, cancelSetup := true } := by
      simp [stop, halted, hstate]
    rw [heq]
    exact (hhalt (by simp [hstate])).trans (hedit true)
  | up =>
    have heq : stop env i (halted i r delete (s.wdev i) s) =
        env.run ((halted i r delete (s.wdev i).toTeardown s).enqueue i .teardown env.time) := by
      simp [stop, halted, hstate, teardown, runHandler, State.enqueue, Wdev.toTeardown,
        wdevProcReset]
    rw [heq]
    exact (Relation.ReflTransGen.single (.haltUp hlisted hrule hwish hstate env.time)).trans
      (moves_env_run hagain hraised)
  | down | teardown =>
    have heq : stop env i (halted i r delete (s.wdev i) s) =
        (halted i r delete (s.wdev i) s).put i
          { s.wdev i with autostart := false, delete := delete
                          cancelSetup := (s.wdev i).cancelSetup } := by
      simp [stop, halted, hstate]
    rw [heq]
    exact (hhalt (by simp [hstate])).trans (hedit _)

theorem moves_callStop (hagain : ∀ i, R.again i none) (hraised : s.raised = false)
    (hlisted : s.Listed i) (hrule : R.ask i .stop s) :
    Moves R s (stop env i (s.note (.request i .stop))) := by
  rw [← stop_halted]
  exact moves_stop hagain hraised hlisted hrule .stop (by simp)

theorem moves_callDestroy (hagain : ∀ i, R.again i none) (hraised : s.raised = false)
    (hlisted : s.Listed i) (hrule : R.ask i .destroy s) :
    Moves R s (destroy env i (s.note (.request i .destroy))) := by
  unfold destroy
  dsimp only
  split_ifs with hstate
  · exact moves_stop hagain hraised hlisted hrule .destroy fun _ => hstate
  · exact .single (.remove hlisted hrule (not_not.mp hstate))

/-! ## Messages -/

theorem moves_wdevMarkUp (hraised : s.raised = false) (hlisted : s.Listed i)
    (hstate : (s.wdev i).state = .setup) (hrule : R.up i s) : Moves R s (wdevMarkUp i s) := by
  have hlinks := reported_handleLinks (s.wdev i).sections true hraised
  have hfields := hlinks.fields
  unfold wdevMarkUp
  generalize handleLinks (s.wdev i).sections true s = u at hlinks hfields ⊢
  dsimp only
  rw [if_neg (by simp [hstate])]
  split_ifs with hu
  · cases hlinks with
    | all es => exact absurd hu (by simp [State.logs, hraised])
    | some es hreport =>
      exact (Relation.ReflTransGen.single (.report hlisted true hreport)).tail (.raised true)
  · have hmove := Move.markUp hlisted hstate hrule hlinks (by simpa using hu)
    obtain ⟨es, r, rfl⟩ := hfields
    exact .single hmove

theorem moves_notify (hraised : s.raised = false) (hlisted : s.Listed i) {req : Notify}
    (hup : req.MarksUp → (s.wdev i).state = .setup → R.up i s)
    (hretry : req.command = .setRetry → R.retry (some (req.retry.getD 3)))
    (hbare : req.command = .setData → req.interface = none → req.vlan = none →
      req.ifname.filter (· ≠ "") ≠ none → R.bare) : Moves R s (notify i req s) := by
  unfold notify
  dsimp only
  split
  · rename_i hcommand
    split_ifs with hargs
    · exact .refl
    · simp only [not_or, Option.not_isSome_iff_eq_none, not_not] at hargs
      obtain ⟨hinterface, hvlan, hstate⟩ := hargs
      exact moves_wdevMarkUp hraised hlisted hstate (hup ⟨hcommand, hinterface, hvlan⟩ hstate)
  · rename_i hcommand
    exact .single (.setData i _ _ _ (hbare hcommand))
  · split_ifs with hstate
    · exact .refl
    · unfold wdevProcAdd
      dsimp only
      split
      · exact .refl
      · exact moves_edit ⟨rfl, rfl, rfl, rfl, rfl, id, .inl rfl, rfl⟩
  · rename_i hcommand
    exact .single (.setRetry (hretry hcommand))
  · exact .refl

theorem moves_hotplug (hlisted : s.Listed i) (dev : String) (add : Bool) :
    Moves R s (hotplug i dev add s) := by
  unfold hotplug
  have hloop : ∀ (l : List HandlerData) (u : State), (∀ hd ∈ l, hd ∈ (u.wdev i).sections) →
      u.Listed i → Moves R u (l.foldl (fun s data =>
        if s.raised then s
        else if data.ifname ≠ some (hotplugName dev) ∨ data.type = .device then s
        else handleLink dev data add s) u) := by
    intro l
    induction l with
    | nil => exact fun u _ _ => .refl
    | cons hd l ih =>
      intro u hsub hlisted
      have hrest : ∀ hd ∈ l, hd ∈ (u.wdev i).sections :=
        fun hd hmem => hsub hd (mem_cons_of_mem _ hmem)
      rw [foldl_cons]
      split_ifs with hraised hname
      · exact ih u hrest hlisted
      · exact ih u hrest hlisted
      · have hifname : hd.ifname = some (hotplugName dev) := by tauto
        cases hconfig : hd.config with
        | none =>
          rw [handleLink_of_none add hconfig]
          exact (Relation.ReflTransGen.single (.raised true)).trans (ih u.raise hrest hlisted)
        | some config =>
          rw [handleLink_of_some add hconfig]
          have hreport : ∀ e ∈ linkEntries dev hd config add,
              ∃ hd ∈ (u.wdev i).sections, ReportOf add hd e := fun e he =>
            ⟨hd, hsub hd mem_cons_self, reportOf_linkEntries hconfig hifname he⟩
          exact (Relation.ReflTransGen.single (.report hlisted add hreport)).trans
            (ih (u.logs _) hrest hlisted)
  exact hloop _ s (fun _ h => h) hlisted

end Calls

/-! ## Steps -/

/-- The current script is the one that is run, and that is waited for. -/
structure Live (s : State) : Prop where
  running : s.running = s.cur.toList
  timeout : s.timeout = s.cur
  task : s.task = s.cur.map (·.serial)

variable {s t : State} {R : Rules}

theorem Live.ended {c : Script} (h : Live s) (hended : Ended c s t) :
    Live t ∧ t.cur = none := by
  cases hended with
  | exit => exact ⟨⟨rfl, rfl, rfl⟩, rfl⟩
  | unstarted hcur hslot hop hwdev hserial =>
    refine ⟨⟨?_, rfl, rfl⟩, rfl⟩
    have hrunning := h.running
    rw [hcur] at hrunning
    exact hrunning

theorem Live.of_eq (h : Live s) (hcur : t.cur = s.cur) (hrunning : t.running = s.running)
    (htimeout : t.timeout = s.timeout) (htask : t.task = s.task) : Live t :=
  ⟨by rw [hrunning, hcur, h.running], by rw [htimeout, hcur, h.timeout],
    by rw [htask, hcur, h.task]⟩

theorem live_move (h : Live s) (hmove : Move R s t) : Live t := by
  cases hmove with
  | setData i vif vlan ifname =>
    unfold wdevSetData
    dsimp only
    split
    · exact h
    · exact h.of_eq rfl rfl rfl rfl
  | markUp hlisted hstate hrule hlinks =>
    obtain ⟨es, r, rfl⟩ := hlinks.fields
    exact h.of_eq rfl rfl rfl rfl
  | begin hcur hslot =>
    have hrunning := h.running
    rw [hcur] at hrunning
    refine ⟨?_, rfl, rfl⟩
    change _ :: s.running = _
    rw [hrunning]
    rfl
  | idle hended => exact (h.ended hended).1
  | failed hended => exact (h.ended hended).1.of_eq rfl rfl rfl rfl
  | down hended _ hlinks | deleted hended _ hlinks | restart hended _ hlinks
  | thrown hended _ _ hlinks =>
    obtain ⟨es, r, rfl⟩ := hlinks.fields
    exact (h.ended hended).1.of_eq rfl rfl rfl rfl
  | _ => exact h.of_eq rfl rfl rfl rfl

/-- A property that each move keeps. -/
def Kept (R : Rules) (P : State → Prop) : Prop := ∀ s t, P s → Move R s t → P t

theorem Kept.moves {P : State → Prop} (h : Kept R P) (hs : P s) (hmoves : Moves R s t) : P t := by
  induction hmoves with
  | refl => exact hs
  | tail _ hmove ih => exact h _ _ ih hmove

theorem kept_live (R : Rules) : Kept R Live := fun _ _ => live_move

/-- What a call may only do by the rules. -/
def AllowsCall (R : Rules) (env : Env) (i : Nat) (m : Method) (s : State) : Prop :=
  match m with
  | .start => R.ask i .start s
  | .stop => R.ask i .stop s
  | .destroy => R.ask i .destroy s
  | .check => (s.wdev i).state = .up →
      (wdevUpdateDisabledVifs env (s.wdev i)).configChange = true → R.again i s.cur
  | .update data => data ≠ some (s.wdev i).data →
      (data ≠ none → R.renew i s) ∧ ((s.wdev i).state = .up → R.again i s.cur)
  | .notify req =>
      (req.MarksUp → (s.wdev i).state = .setup → R.up i s) ∧
      (req.command = .setRetry → R.retry (some (req.retry.getD 3))) ∧
      (req.command = .setData → req.interface = none → req.vlan = none →
        req.ifname.filter (· ≠ "") ≠ none → R.bare)
  | _ => True

def Allows (R : Rules) (env : Env) (e : Event) (s : State) : Prop :=
  match e with
  | .call name m => ∀ i, s.devices.get? name = some i → AllowsCall R env i m s
  | _ => True

section Steps

variable {R : Rules} {env : Env} {s : State}

theorem moves_call (hagain : ∀ i, R.again i none) (hraised : s.raised = false) {i : Nat}
    (hlisted : s.Listed i) {m : Method} (hallows : AllowsCall R env i m s) :
    Moves R s (call env i m s) := by
  cases m with
  | start => exact moves_callStart hagain hraised hlisted hallows
  | stop => exact moves_callStop hagain hraised hlisted hallows
  | destroy => exact moves_callDestroy hagain hraised hlisted hallows
  | retrySetup =>
    unfold call retrySetup
    dsimp only
    split_ifs with hdelete hstate
    · exact .refl
    · exact .refl
    · refine moves_start hagain hraised hlisted fun _ => ?_
      simp only [not_or, Bool.not_eq_false] at hstate
      exact hstate.2
  | update data =>
    unfold call
    dsimp only
    split_ifs with hname
    · refine moves_update hagain hraised hlisted (fun d hd => ?_) hallows
      simpa using (Option.all_eq_true _ _).mp hname d hd
    · exact .refl
  | check => exact moves_check hagain hraised hlisted hallows
  | notify req => exact moves_notify hraised hlisted hallows.1 hallows.2.1 hallows.2.2
  | hotplug name add => exact moves_hotplug hlisted name add

/-- The callback of the script that is run. -/
theorem moves_exit (hagain : ∀ i, R.again i none) (hraised : s.raised = false) (hlive : Live s)
    {c : Script} (hcur : s.cur = some c) {u : State}
    (hu : u.cur = some c) (hsettled : settled c u = settled c { s with running := [] }) :
    Moves R s (runHandlerCb env.run env c u) := by
  have hrunning : s.running = [c] := by rw [hlive.running, hcur]; rfl
  rw [runHandlerCb_of_cur hu, hsettled]
  exact moves_callback (fun s hs => moves_env_run hagain hs) (.exit hcur hrunning) hraised hagain

theorem moves_create {data : Data} (hnone : s.devices.get? data.name = none) :
    Moves R s (create env data s) := by
  have hmove : Move R s (created s.next (wdevUpdateDisabledVifs env (newWdev data)) s) :=
    .create hnone rfl rfl rfl rfl rfl rfl
  exact ((Relation.ReflTransGen.single hmove).tail (.configInit s.next)).tail (.timer true)

theorem moves_perform (hagain : ∀ i, R.again i none) (hraised : s.raised = false) (hlive : Live s)
    {e : Event} (hallows : Allows R env e s) : Moves R s (perform env e s) := by
  cases e with
  | create data =>
    unfold perform
    dsimp only
    split_ifs with hsome
    · exact .refl
    · exact moves_create (by simpa using hsome)
  | call name m =>
    unfold perform
    dsimp only
    split
    · exact .refl
    · rename_i i hi
      exact moves_call hagain hraised ⟨name, hi⟩ (hallows i hi)
  | procCheck i active =>
    unfold perform wdevProcCheck
    dsimp only
    split_ifs with htimer hactive
    · exact moves_teardown (fun s hs => moves_env_run hagain hs) hraised
    · exact .refl
    · exact .refl
  | exit c =>
    unfold perform
    dsimp only
    split_ifs with hmem
    · rw [hlive.running] at hmem
      have hcur : s.cur = some c := by simpa using hmem
      have hrunning : s.running.erase c = [] := by rw [hlive.running, hcur]; simp
      exact moves_exit hagain hraised hlive hcur hcur (by rw [hrunning])
    · exact .refl
  | scriptTimeout =>
    unfold perform
    dsimp only
    split
    · exact .refl
    · rename_i c hc
      have hcur : s.cur = some c := by rw [← hlive.timeout, hc]
      have hrunning : (s.running.filter fun d => s.task ≠ some d.serial) = [] := by
        rw [hlive.running, hlive.task, hcur]
        simp
      exact moves_exit hagain hraised hlive hcur hcur (by rw [hrunning]; rfl)
  | handlerTimer =>
    exact (Relation.ReflTransGen.single (.timer false)).trans (moves_env_run hagain hraised)

theorem moves_step (hagain : ∀ i, R.again i none) (hlive : Live s) {e : Event}
    (hallows : Allows R env e { s with raised := false }) : Moves R s (step env e s) :=
  have hlive : Live { s with raised := false } := hlive.of_eq rfl rfl rfl rfl
  (Relation.ReflTransGen.single (.raised false)).trans (moves_perform hagain rfl hlive hallows)

end Steps

/-- What is allowed in a run, and what all moves by it keep. -/
theorem Reachable.kept {ok : Env → Event → State → Prop} {P : State → Prop} (hkept : Kept R P)
    (hinit : P .init) (hagain : ∀ i, R.again i none)
    (hok : ∀ env e s, P s → ok env e s → Allows R env e { s with raised := false })
    (h : Reachable ok s) : Live s ∧ P s := by
  induction h with
  | init => exact ⟨⟨rfl, rfl, rfl⟩, hinit⟩
  | step _ env e he ih =>
    have hmoves := moves_step hagain ih.1 (hok env e _ ih.2 he)
    exact ⟨(kept_live R).moves ih.1 hmoves, hkept.moves ih.2 hmoves⟩

end LibWrt.Wireless
