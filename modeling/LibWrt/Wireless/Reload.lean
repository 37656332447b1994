/-
LibWrt.Wireless.Reload — the configuration is read again.

A reload destroys the devices that are configured no more, updates or creates
the others, and starts those that may start. A device that is destroyed while it
is up stays in the table until its teardown is done; if it is configured again
before, `update` does not undo what `destroy` has set. In a run without such a
reload, the configured devices of the table stay there and may start.
-/
import LibWrt.Wireless.Stop

namespace LibWrt.Wireless

open List State

/-! ## Reloads -/

/-- `new_devices`, an object. -/
structure Config where
  devs : List Data
  nodup : (devs.map (·.name)).Nodup

def Config.empty : Config := { devs := [], nodup := nodup_nil }

def forEach {α : Type} (f : α → State → State) : List α → State → State
  | [], s => s
  | a :: l, s => if s.raised then s else forEach f l (f a s)

def State.deviceNames (s : State) : List String := (s.devices.entries.map (·.1)).reverse

section Reload

variable (env : Env)

def destroyRemoved (config : Config) (name : String) (s : State) : State :=
  match s.devices.get? name with
  | none => s
  | some i => if name ∈ config.devs.map (·.name) then s else call env i .destroy s

def updateDevice (data : Data) (s : State) : State :=
  match s.devices.get? data.name with
  | some i => call env i (.update (some data)) s
  | none => create env data s

def updateConfig (config : Config) (s : State) : State :=
  forEach (updateDevice env) config.devs (forEach (destroyRemoved env config) s.deviceNames s)

def startDevice (name : String) (s : State) : State :=
  match s.devices.get? name with
  | none => s
  | some i => if (s.wdev i).autostart then call env i .start s else s

def configStart (s : State) : State := forEach (startDevice env) s.deviceNames s

def reload (config : Config) (s : State) : State :=
  configStart env (updateConfig env config { s with raised := false })

end Reload

/-- Devices are created, destroyed and given data by reloads only. -/
def Outside : Event → Prop
  | .create _ => False
  | .call _ .destroy => False
  | .call _ (.update (some _)) => False
  | _ => True

/-- The runs whose reloads are all allowed, with the configuration that was read last. -/
inductive Reloaded (ok : Config → State → Prop) : Config → State → Prop where
  | init : Reloaded ok .empty .init
  | step {config : Config} {s : State} (hs : Reloaded ok config s) (env : Env) {e : Event}
      (he : Outside e) : Reloaded ok config (step env e s)
  | reload {config : Config} {s : State} (hs : Reloaded ok config s) (env : Env)
      (config' : Config) (hok : ok config' s) : Reloaded ok config' (reload env config' s)

/-! ## What a move does to the flags -/

/-- What a caller wants of the device may be changed. -/
inductive Handled (R : Rules) (j : Nat) (s t : State) : Prop where
  | same (hauto : (t.wdev j).autostart = (s.wdev j).autostart)
      (hdelete : (t.wdev j).delete = (s.wdev j).delete)
      (hlog : lastRequest j t.log = lastRequest j s.log)
  | new (hauto : (t.wdev j).autostart = true) (hdelete : (t.wdev j).delete = false)
  | renewed (hrule : R.renew j s) (hauto : (t.wdev j).autostart = (s.wdev j).autostart)
      (hdelete : (t.wdev j).delete = false) (hlog : lastRequest j t.log = lastRequest j s.log)
  | wanted (hauto : (t.wdev j).autostart = true ∨ (t.wdev j).delete = true)
      (hdelete : (t.wdev j).delete = (s.wdev j).delete)
  | stopped (hdelete : (t.wdev j).delete = (s.wdev j).delete)
      (hlog : lastRequest j t.log = some .stop)
  | destroyed (hrule : R.ask j .destroy s) (hdelete : (t.wdev j).delete = true)

section Flags

variable {R : Rules} {s t u : State} {j : Nat}

theorem Handled.frame (es : List Entry) (hlog : t.log = es ++ s.log) (hes : ∀ e ∈ es, e.Other)
    (hauto : (t.wdev j).autostart = (s.wdev j).autostart)
    (hdelete : (t.wdev j).delete = (s.wdev j).delete) : Handled R j s t :=
  .same hauto hdelete (by rw [hlog, lastRequest_append hes])

/-- Only one device is changed. -/
theorem Handled.put {i : Nat} {w : Wdev} (es : List Entry) (hlog : t.log = es ++ s.log)
    (hes : ∀ e ∈ es, e.Other ∨ ∃ r, e = .request i r) (ht : t.wdev = (s.put i w).wdev)
    (h : j = i → Handled R i s t) : Handled R j s t := by
  by_cases hj : j = i
  · rw [hj]
    exact h hj
  · have hw : t.wdev j = s.wdev j := by rw [ht, wdev_put_ne _ _ _ hj]
    refine .same (by rw [hw]) (by rw [hw]) ?_
    rw [hlog]
    exact lastRequest_append_ne hes hj

theorem Handled.ended {c : Script} (hended : Ended c s t) : Handled R j s t := by
  obtain ⟨es, hlog, hes⟩ := hended.other_log
  exact .frame es hlog hes (hended.same j).autostart (hended.same j).delete

theorem handled_move (hmove : Move R s t) (j : Nat) : Handled R j s t := by
  have hnil : ∀ e ∈ ([] : List Entry), e.Other := by simp
  have hone : ∀ e : Entry, e.Other → ∀ e' ∈ [e], e'.Other := by simp
  have hrequest : ∀ i r, ∀ e ∈ [Entry.request i r], e.Other ∨ ∃ r, e = .request i r := by simp
  -- The device `c.wdev` is changed after its teardown, but for its flags.
  have htorn : ∀ {c : Script} {t u v : State} {w : Wdev}, Ended c s t →
      Reported false (t.wdev c.wdev).sections t u → v.wdev = (u.put c.wdev w).wdev →
      v.log = u.log → w.autostart = (t.wdev c.wdev).autostart →
      w.delete = (t.wdev c.wdev).delete → Handled R j s v := by
    intro c t u v w hended hlinks hv hlog hauto hdelete
    obtain ⟨es, hes, hother⟩ := hended.other_log
    obtain ⟨es', hes', hother'⟩ := hlinks.other
    refine .frame (es' ++ es) (by rw [hlog, hes', hes, append_assoc]) (fun e he => ?_) ?_ ?_
    · exact (mem_append.mp he).elim (hother' e) (hother e)
    · rw [hv, wdev_put, hlinks.same.1]
      split_ifs with hj
      · rw [hauto, hj, (hended.same _).autostart]
      · exact (hended.same j).autostart
    · rw [hv, wdev_put, hlinks.same.1]
      split_ifs with hj
      · rw [hdelete, hj, (hended.same _).delete]
      · exact (hended.same j).delete
  cases hmove with
  | @edit i w hsame =>
    refine .put [] rfl (by simp) rfl fun _ => .frame [] rfl hnil ?_ ?_
    · simpa using hsame.autostart
    · simpa using hsame.delete
  | setRetry | setup | teardown =>
    exact .put [] rfl (by simp) rfl fun _ => .frame [] rfl hnil
      (by simp [enqueue, Wdev.toSetup, Wdev.toTeardown, wdevProcReset])
      (by simp [enqueue, Wdev.toSetup, Wdev.toTeardown, wdevProcReset])
  | timer | raised => exact .frame [] rfl hnil rfl rfl
  | configDone => exact .frame [.configDone] rfl (hone _ trivial) rfl rfl
  | @renew i data hl hname hrule =>
    exact .put [] rfl (by simp) rfl fun _ =>
      .renewed hrule (by simp [Wdev.renew]) (by simp [Wdev.renew]) rfl
  | configInit i =>
    refine .put (dropOthers (s.wdev i)) rfl (fun e he => ?_) rfl fun _ =>
      .frame (dropOthers (s.wdev i)) rfl (fun e he => ?_) (by simp [wdevConfigInit])
        (by simp [wdevConfigInit])
    · obtain ⟨e', -, rfl⟩ := mem_map.mp he
      exact .inl trivial
    · obtain ⟨e', -, rfl⟩ := mem_map.mp he
      trivial
  | setData i =>
    unfold wdevSetData
    dsimp only
    split
    · exact .frame [] rfl hnil rfl rfl
    · rename_i key _ _ _
      have hdropped : ∀ e ∈ ((s.wdev i).handlerData.get? key).toList.map Entry.dropped,
          e.Other := by
        intro e he
        obtain ⟨e', -, rfl⟩ := mem_map.mp he
        trivial
      exact .put _ rfl (fun e he => .inl (hdropped e he)) rfl fun _ =>
        .frame _ rfl hdropped (by simp) (by simp)
  | report _ _ hreport =>
    refine .frame _ rfl (fun e he => ?_) rfl rfl
    obtain ⟨hd, -, hof⟩ := hreport e he
    exact hof.other
  | @create w hnone hdata hstate hauto hdelete =>
    exact .put [] rfl (by simp) rfl fun _ =>
      .new (by simpa [created] using hauto) (by simpa [created] using hdelete)
  | @want i hl hrule =>
    refine .put [.request i .start] rfl (hrequest i _) rfl fun _ => .wanted ?_ ?_
    · cases hdelete : (s.wdev i).delete <;> simp [Wdev.wanted, hdelete]
    · simp [Wdev.wanted]
  | @halt i r delete hl hrule hwish =>
    refine .put [.request i r] rfl (hrequest i _) rfl fun _ => ?_
    cases hwish with
    | stop => exact .stopped (by simp [halted]) (by simp [halted])
    | destroy => exact .destroyed hrule (by simp [halted])
  | @haltUp i r delete hl hrule hwish =>
    refine .put [.request i r] rfl (hrequest i _) rfl fun _ => ?_
    cases hwish with
    | stop =>
      exact .stopped (by simp [halted, enqueue, Wdev.toTeardown, wdevProcReset])
        (by simp [halted, enqueue])
    | destroy => exact .destroyed hrule (by simp [halted, enqueue])
  | @remove i hl hrule hstate =>
    refine .put ((s.wdev i).sections.map .dropped ++ [.request i .destroy])
      (by simp [State.logs, deleteWdev, halted]) (fun e he => ?_) rfl fun _ =>
      .destroyed hrule (by simp [deleteWdev, halted, State.logs])
    rcases mem_append.mp he with he | he
    · obtain ⟨e', -, rfl⟩ := mem_map.mp he
      exact .inl trivial
    · exact .inr ⟨_, mem_singleton.mp he⟩
  | @markUp i u hl hstate hrule hlinks =>
    obtain ⟨es, hlog, hother⟩ := hlinks.other
    have hmark : ∀ e ∈ Entry.markUp i ((s.cur.filter (·.wdev = i)).map (·.serial)) :: es,
        e.Other := forall_mem_cons.mpr ⟨trivial, hother⟩
    have hwdev := hlinks.same.1
    have hlog' : Entry.markUp i ((s.cur.filter (·.wdev = i)).map (·.serial)) :: u.log =
      (Entry.markUp i ((s.cur.filter (·.wdev = i)).map (·.serial)) :: es) ++ s.log := by
      rw [hlog, cons_append]
    exact .put _ hlog' (fun e he => .inl (hmark e he)) (wdev_put_congr _ _ _ hwdev) fun _ =>
      .frame _ hlog' hmark (by simp) (by simp)
  | @begin name slot hcur hslot =>
    have hsame := take_same name slot s j
    exact .frame [.started s.serial slot.op slot.wdev] rfl (hone _ trivial) hsame.autostart
      hsame.delete
  | idle hended => exact .ended hended
  | @failed c t hended =>
    obtain ⟨es, hlog, hother⟩ := hended.other_log
    have hlog' : Entry.failure c.wdev c.serial :: t.log =
        (Entry.failure c.wdev c.serial :: es) ++ s.log := by rw [hlog, cons_append]
    obtain ⟨hauto, hdelete⟩ := countFailure_flags (t.wdev c.wdev)
    refine .frame _ hlog' (forall_mem_cons.mpr ⟨trivial, hother⟩) ?_ ?_
    · simp only [enqueue, wdev_note, wdev_put]
      split_ifs with hj
      · rw [hauto, hj, (hended.same _).autostart]
      · exact (hended.same j).autostart
    · simp only [enqueue, wdev_note, wdev_put]
      split_ifs with hj
      · rw [hdelete, hj, (hended.same _).delete]
      · exact (hended.same j).delete
  | down hended _ hlinks | deleted hended _ hlinks | restart hended _ hlinks =>
    exact htorn hended hlinks rfl rfl rfl rfl
  | @thrown c v _ hended _ _ hlinks =>
    have hput : t.wdev = (t.put c.wdev (v.wdev c.wdev)).wdev := by simp [← hlinks.same.1]
    exact htorn hended hlinks hput rfl rfl rfl

end Flags

/-! ## What a move does to the table -/

/-- A device leaves the table only if it is marked, or if it is asked for. -/
inductive Entered (R : Rules) (s t : State) : Prop where
  | same (h : t.devices = s.devices)
  | created {name : String} {i : Nat} (hnone : s.devices.get? name = none)
      (h : t.devices = s.devices.set name i) (hauto : (t.wdev i).autostart = true)
      (hdelete : (t.wdev i).delete = false)
  | deleted {i : Nat} (hi : s.devices.get? (s.wdev i).name = some i)
      (h : t.devices = s.devices.del (s.wdev i).name)
      (hwhy : (s.wdev i).delete = true ∨ R.ask i .destroy s)

variable {s : State} {config : Config}

theorem entered_move {R : Rules} {t : State} {x : Set Nat} (hq : Queued x s) (hmove : Move R s t) :
    Entered R s t := by
  cases hmove with
  | setData i =>
    unfold wdevSetData
    dsimp only
    split <;> exact .same rfl
  | @create w hnone hdata hstate hauto hdelete =>
    exact .created hnone rfl (by simpa [created] using hauto) (by simpa [created] using hdelete)
  | @remove i hl hrule hstate =>
    refine .deleted (hq.get?_of_listed hl) ?_ (.inr hrule)
    simp [deleteWdev, State.logs, halted, hq.named]
  | markUp _ _ _ hlinks => exact .same hlinks.same.2.1
  | idle hended | failed hended => exact .same hended.table.1
  | down hended _ hlinks | restart hended _ hlinks | thrown hended _ _ hlinks =>
    exact .same (hlinks.same.2.1.trans hended.table.1)
  | @deleted c t u hended hop hlinks hraised hdelete =>
    have hsame := hended.same c.wdev
    have hdevices : u.devices = s.devices := hlinks.same.2.1.trans hended.table.1
    have hstate : (s.wdev c.wdev).state ≠ .down := hq.busy _ _ hended.was
    refine .deleted (hq.listed _ hstate) ?_ (.inl (by rw [← hsame.delete, hdelete]))
    rw [← hsame.name, ← (hq.ended hended).named]
    exact congrArg (fun d => Dict.del d _) hdevices
  | _ => exact .same rfl

/-! ## The invariant -/

/-- The devices of the configuration that are in the table are not to be deleted. -/
def Unmarked (config : Config) (s : State) : Prop :=
  ∀ data ∈ config.devs, ∀ i, s.devices.get? data.name = some i → (s.wdev i).delete = false

/-- A device may start, is to be deleted, or was stopped. -/
def Wished (s : State) : Prop :=
  ∀ i, s.Listed i → (s.wdev i).delete = true ∨ (s.wdev i).autostart = true ∨
    lastRequest i s.log = some .stop

/-- No device of the configuration is destroyed, and no other data are given to one that is. -/
def Rules.synced (config : Config) : Rules :=
  { up := fun _ _ => True
    again := fun _ _ => True
    renew := fun i s => (s.wdev i).delete = false
    ask := fun i r s => r = .destroy → ∀ data ∈ config.devs, s.devices.get? data.name ≠ some i
    retry := fun _ => True
    bare := True }

structure Synced (config : Config) (s : State) : Prop where
  queued : ∃ x, Queued x s
  wished : Wished s
  unmarked : Unmarked config s

section Synced

variable {config : Config} {s t : State}

theorem Unmarked.move (h : Unmarked config s) (hmove : Move (Rules.synced config) s t)
    (hentered : Entered (Rules.synced config) s t) : Unmarked config t := by
  intro data hdata i hi
  have hold : s.devices.get? data.name = some i → (t.wdev i).delete = false := by
    intro hi
    cases handled_move hmove i with
    | same _ hdelete | wanted _ hdelete | stopped hdelete => rw [hdelete, h data hdata i hi]
    | new _ hdelete | renewed _ _ hdelete => exact hdelete
    | destroyed hrule => exact absurd hi (hrule rfl data hdata)
  cases hentered with
  | same heq => exact hold (heq ▸ hi)
  | created hnone heq hauto hdelete =>
    rw [heq, Dict.get?_set] at hi
    split_ifs at hi
    · rw [← Option.some.inj hi]
      exact hdelete
    · exact hold hi
  | deleted _ heq =>
    rw [heq, Dict.get?_del] at hi
    split_ifs at hi
    exact hold hi

theorem Wished.move (h : Wished s) (hmove : Move (Rules.synced config) s t)
    (hentered : Entered (Rules.synced config) s t) : Wished t := by
  rintro i ⟨name, hi⟩
  have hold : s.devices.get? name = some i → (t.wdev i).delete = true ∨
      (t.wdev i).autostart = true ∨ lastRequest i t.log = some .stop := by
    intro hi
    have hwish := h i ⟨name, hi⟩
    cases handled_move hmove i with
    | same hauto hdelete hlog => rwa [hauto, hdelete, hlog]
    | new hauto => exact .inr (.inl hauto)
    | renewed hrule hauto hdelete hlog =>
      have hrule : (s.wdev i).delete = false := hrule
      rw [hrule] at hwish
      rw [hauto, hlog]
      exact .inr (hwish.resolve_left Bool.false_ne_true)
    | wanted hauto => tauto
    | stopped _ hlog => exact .inr (.inr hlog)
    | destroyed _ hdelete => exact .inl hdelete
  cases hentered with
  | same heq => exact hold (heq ▸ hi)
  | created hnone heq hauto hdelete =>
    rw [heq, Dict.get?_set] at hi
    split_ifs at hi
    · rw [← Option.some.inj hi]
      exact .inr (.inl hauto)
    · exact hold hi
  | deleted _ heq =>
    rw [heq, Dict.get?_del] at hi
    split_ifs at hi
    exact hold hi

theorem kept_synced (config : Config) : Kept (Rules.synced config) (Synced config) := by
  intro s t h hmove
  obtain ⟨x, hq⟩ := h.queued
  have hentered := entered_move hq hmove
  exact ⟨kept_stuck _ s t h.queued hmove, h.wished.move hmove hentered,
    h.unmarked.move hmove hentered⟩

/-- A device of the configuration stays in the table. -/
theorem kept_entered {data : Data} (hdata : data ∈ config.devs) (i : Nat) :
    Kept (Rules.synced config)
      (fun s => Synced config s ∧ s.devices.get? data.name = some i) := by
  rintro s t ⟨h, hi⟩ hmove
  obtain ⟨x, hq⟩ := h.queued
  refine ⟨kept_synced config s t h hmove, ?_⟩
  cases entered_move hq hmove with
  | same heq => rwa [heq]
  | @created name j hnone heq =>
    have hname : data.name ≠ name := by
      intro heq
      rw [heq, hnone] at hi
      cases hi
    rw [heq, Dict.get?_set_ne _ hname]
    exact hi
  | @deleted j hj heq hwhy =>
    have hname : data.name ≠ (s.wdev j).name := by
      intro hname
      obtain rfl : i = j := by rw [hname, hj] at hi; exact (Option.some.inj hi).symm
      rcases hwhy with hdelete | hrule
      · rw [h.unmarked data hdata i hi] at hdelete
        cases hdelete
      · exact hrule rfl data hdata hi
    rw [heq, Dict.get?_del_ne _ hname]
    exact hi

end Synced

/-! ## A reload -/

section Loops

variable {config : Config} (env : Env)

variable {s : State}

/-- What each turn keeps holds after the loop. -/
theorem forEach_keeps {α : Type} {P : State → Prop} {f : α → State → State} {l : List α}
    (hf : ∀ a ∈ l, ∀ s, s.raised = false → P s → P (f a s)) (hs : P s) :
    P (forEach f l s) := by
  induction l generalizing s with
  | nil => exact hs
  | cons a l ih =>
    unfold forEach
    split_ifs with hraised
    · exact hs
    · exact ih (fun b hb => hf b (mem_cons_of_mem _ hb))
        (hf a mem_cons_self s (by simpa using hraised) hs)

/-- A state of a run between the calls. -/
def Steady (config : Config) (s : State) : Prop := Live s ∧ Synced config s

theorem Steady.moves {t : State} (h : Steady config s) (hmoves : Moves (Rules.synced config) s t) :
    Steady config t :=
  ⟨(kept_live _).moves h.1 hmoves, (kept_synced config).moves h.2 hmoves⟩

theorem steady_destroyRemoved (name : String) (hraised : s.raised = false) (h : Steady config s) :
    Steady config (destroyRemoved env config name s) := by
  unfold destroyRemoved
  split
  · exact h
  · rename_i i hi
    split_ifs with hmem
    · exact h
    · obtain ⟨x, hq⟩ := h.2.queued
      refine h.moves (moves_call (fun _ => trivial) hraised ⟨name, hi⟩ fun _ data hdata hi' => ?_)
      have hname : data.name = name := ((hq.table _ _ hi').1.symm.trans (hq.table _ _ hi).1)
      exact hmem (mem_map.mpr ⟨data, hdata, hname⟩)

theorem steady_updateDevice {data : Data} (hdata : data ∈ config.devs) (hraised : s.raised = false)
    (h : Steady config s) :
    Steady config (updateDevice env data s) := by
  unfold updateDevice
  split
  · rename_i i hi
    exact h.moves (moves_call (fun _ => trivial) hraised ⟨_, hi⟩ fun _ =>
      ⟨fun _ => h.2.unmarked data hdata i hi, fun _ => trivial⟩)
  · rename_i hnone
    exact h.moves (moves_create hnone)

theorem steady_startDevice (name : String) (hraised : s.raised = false) (h : Steady config s) :
    Steady config (startDevice env name s) := by
  unfold startDevice
  split
  · exact h
  · rename_i i hi
    split_ifs
    · have hstart : AllowsCall (Rules.synced config) env i .start s :=
        fun hdestroy => Request.noConfusion hdestroy
      exact h.moves (moves_call (fun _ => trivial) hraised ⟨name, hi⟩ hstart)
    · exact h

theorem steady_reload (h : Steady config s) : Steady config (reload env config s) := by
  have hcalm : Steady config { s with raised := false } := h.moves (.single (.raised false))
  have hdestroyed := forEach_keeps (l := deviceNames { s with raised := false })
    (fun name _ s hraised hs => steady_destroyRemoved env name hraised hs) hcalm
  have hupdated := forEach_keeps (l := config.devs)
    (fun data hdata s hraised hs => steady_updateDevice env hdata hraised hs) hdestroyed
  exact forEach_keeps (fun name _ s hraised hs => steady_startDevice env name hraised hs)
    hupdated

end Loops

/-! ## Runs -/

/-- Each device of the configuration that is in the table comes back. -/
def ComesBack (config : Config) (s : State) : Prop :=
  ∀ data ∈ config.devs, ∀ i, s.devices.get? data.name = some i →
    (s.wdev i).delete = false ∧
    ((s.wdev i).autostart = true ∨ lastRequest i s.log = some .stop)

theorem allows_synced {env : Env} {e : Event} (he : Outside e) :
    Allows (Rules.synced config) env e s := by
  cases e with
  | call name m =>
    intro i hi
    cases m with
    | start | stop => exact fun hdestroy => Request.noConfusion hdestroy
    | destroy => exact absurd he id
    | notify req => exact ⟨fun _ _ => trivial, fun _ => trivial, fun _ _ _ _ => trivial⟩
    | check => exact fun _ _ => trivial
    | update data =>
      cases data with
      | none => exact fun _ => ⟨fun hne => absurd rfl hne, fun _ => trivial⟩
      | some data => exact absurd he id
    | _ => trivial
  | _ => trivial

theorem steady_of_reloaded (h : Reloaded Unmarked config s) :
    Steady config s := by
  induction h with
  | init =>
    refine ⟨⟨rfl, rfl, rfl⟩, ⟨∅, queued_init⟩, fun i hlisted => ?_, fun data hdata => ?_⟩
    · simp [Listed, State.init] at hlisted
    · exact absurd hdata not_mem_nil
  | step hs env he ih => exact ih.moves (moves_step (fun _ => trivial) ih.1 (allows_synced he))
  | reload hs env config' hok ih =>
    exact steady_reload env ⟨ih.1, ih.2.queued, ih.2.wished, hok⟩

/-- What is configured comes back, unless it is configured again while it is to be deleted. -/
theorem config_synced {config : Config} {s : State} (h : Reloaded Unmarked config s) :
    ComesBack config s ∧ ∀ env e, Outside e → ∀ data ∈ config.devs, ∀ i,
      s.devices.get? data.name = some i →
      (step env e s).devices.get? data.name = some i := by
  have hsteady := steady_of_reloaded h
  refine ⟨fun data hdata i hi => ?_, fun env e he data hdata i hi => ?_⟩
  · have hdelete := hsteady.2.unmarked data hdata i hi
    have hwish := hsteady.2.wished i ⟨_, hi⟩
    rw [hdelete] at hwish
    exact ⟨hdelete, hwish.resolve_left Bool.false_ne_true⟩
  · exact ((kept_entered hdata i).moves ⟨hsteady.2, hi⟩
      (moves_step (fun _ => trivial) hsteady.1 (allows_synced he))).2

def radio : Data := { name := "radio0", config := "", vif := [] }

def radioOnly : Config := { devs := [radio], nodup := nodup_singleton _ }

def upState : State :=
  (reload plain radioOnly .init).run [.call "radio0" (.notify notifyUp), .exit (script .setup 0)]

/-- The device is up when it is removed, and is configured again while it is torn down. -/
def readdedState : State := reload plain radioOnly (reload plain .empty upState)

theorem Reloaded.run {ok : Config → State → Prop} (h : Reloaded ok config s) (events : List Event)
    (hevents : ∀ e ∈ events, Outside e) :
    Reloaded ok config (s.run events) := by
  induction events using List.reverseRecOn with
  | nil => exact h
  | append_singleton before e ih =>
    rw [State.run, foldl_append]
    have hbefore := ih fun e' he' => hevents e' (mem_append_left _ he')
    exact .step hbefore plain (hevents e (by simp))

theorem config_synced_fails :
    ¬ ∀ config s, Reloaded (fun _ _ => True) config s → ComesBack config s := by
  intro h
  have hup : Reloaded (fun _ _ => True) radioOnly upState :=
    (Reloaded.reload .init plain radioOnly trivial).run _ (by simp [Outside])
  have hrun : Reloaded (fun _ _ => True) radioOnly readdedState :=
    .reload (.reload hup plain .empty trivial) plain radioOnly trivial
  have hlisted : readdedState.devices.get? "radio0" = some 0 := by decide
  have hdelete : (readdedState.wdev 0).delete = true := by decide
  have hback := (h _ _ hrun radio mem_cons_self 0 hlisted).1
  rw [hdelete] at hback
  cases hback

/-- The device is removed, torn down, and configured again. -/
def tornState : State := (reload plain .empty upState).run [.exit (script .teardown 1)]

theorem config_synced_readded :
    (reload plain radioOnly tornState).devices.get? "radio0" = some 1 ∧
      ComesBack radioOnly (reload plain radioOnly tornState) := by
  have hup : Reloaded Unmarked radioOnly upState :=
    (Reloaded.reload .init plain radioOnly fun _ _ _ hi => by simp [State.init] at hi).run _
      (by simp [Outside])
  have htorn : Reloaded Unmarked .empty tornState :=
    (Reloaded.reload hup plain .empty fun _ hdata => absurd hdata not_mem_nil).run _
      (by simp [Outside])
  have hgone : tornState.devices.get? "radio0" = none := by decide
  refine ⟨by decide, (config_synced (.reload htorn plain radioOnly fun data hdata i hi => ?_)).1⟩
  obtain rfl : data = radio := mem_singleton.mp hdata
  rw [show radio.name = "radio0" from rfl, hgone] at hi
  cases hi

end LibWrt.Wireless
