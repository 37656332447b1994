/-
LibWrt.Wireless.Scripts — every script that was started ends once.

| Property | Theorem |
|---|---|
| a script that is not run any more has ended once | `kept_counted` |
| the queue is run, now or by the timer | `armed_step` |
| no device is stuck, in each run without a named device | `served` |
| a named device is stuck | `served_fails` |
-/
import LibWrt.Wireless.Queue
import Mathlib.Data.List.MinMax

namespace LibWrt.Wireless

open List Nat

/-! ## The ends of the scripts -/

/-- Entries that are not about scripts. -/
def Entry.Quiet : Entry → Prop
  | .started .. => False
  | .completed _ => False
  | _ => True

/-- A script that was started has ended once, unless it is the current one. -/
structure Counted (s : State) : Prop where
  started : ∀ n op i, Entry.started n op i ∈ s.log → n < s.serial
  completed : ∀ n < s.serial,
    s.log.count (.completed n) = if s.cur.map (·.serial) = some n then 0 else 1
  fresh : ∀ n, s.serial ≤ n → s.log.count (.completed n) = 0
  cur : ∀ c, s.cur = some c → c.serial < s.serial

theorem count_append_quiet {es log : List Entry} (h : ∀ e ∈ es, e.Quiet) (n : Nat) :
    (es ++ log).count (.completed n) = log.count (.completed n) := by
  rw [count_append, count_eq_zero_of_not_mem, Nat.zero_add]
  exact fun hmem => h _ hmem

variable {s t : State} {up : Bool}

theorem Counted.frame (h : Counted s) (es : List Entry) (hserial : t.serial = s.serial)
    (hcur : t.cur = s.cur) (hlog : t.log = es ++ s.log) (hquiet : ∀ e ∈ es, e.Quiet) :
    Counted t := by
  constructor
  · intro n op i hmem
    rw [hlog] at hmem
    rcases mem_append.mp hmem with hmem | hmem
    · exact absurd (hquiet _ hmem) (by simp [Entry.Quiet])
    · exact hserial ▸ h.started n op i hmem
  · intro n hn
    rw [hlog, count_append_quiet hquiet, hcur]
    exact h.completed n (hserial ▸ hn)
  · intro n hn
    rw [hlog, count_append_quiet hquiet]
    exact h.fresh n (hserial ▸ hn)
  · simpa only [hcur, hserial] using h.cur

theorem ReportOf.quiet {hd : HandlerData} {e : Entry} (h : ReportOf up hd e) :
    e.Quiet := by
  cases e <;> trivial

theorem Reported.quiet {l : List HandlerData} (h : Reported up l s t) :
    ∃ es, t.log = es ++ s.log ∧ ∀ e ∈ es, e.Quiet := by
  cases h with
  | all es hreport | some es hreport =>
    refine ⟨es, rfl, fun e he => ?_⟩
    obtain ⟨hd, -, hof⟩ := hreport e he
    exact hof.quiet

theorem Counted.reported {l : List HandlerData} {u : State} (h : Counted s) (es : List Entry)
    (hlinks : Reported up l s t) (hserial : u.serial = t.serial) (hcur : u.cur = t.cur)
    (hlog : u.log = es ++ t.log) (hquiet : ∀ e ∈ es, e.Quiet) :
    Counted u := by
  obtain ⟨es', hlog', hquiet'⟩ := hlinks.quiet
  have ht : Counted t := h.frame es' hlinks.serial hlinks.same.2.2.2.2 hlog' hquiet'
  exact ht.frame es hserial hcur hlog hquiet

theorem Counted.ended {c : Script} (h : Counted s) (hended : Ended c s t) :
    Counted t := by
  cases hended with
  | exit hcur hrunning =>
    have hc := h.cur c hcur
    constructor
    · intro n op i hmem
      rcases mem_cons.mp hmem with hmem | hmem
      · cases hmem
      · exact h.started n op i hmem
    · intro n hn
      change (Entry.completed c.serial :: s.log).count _ = if none = some n then 0 else 1
      have hlog := h.completed n hn
      simp only [hcur, Option.map_some, Option.some.injEq] at hlog
      by_cases heq : c.serial = n
      · subst heq
        simpa using hlog
      · simpa [count_cons, heq] using hlog
    · intro n hn
      have hn : s.serial ≤ n := hn
      change (Entry.completed c.serial :: s.log).count _ = _
      have hne : c.serial ≠ n := by omega
      simpa [count_cons, hne] using h.fresh n hn
    · intro d hd
      cases hd
  | @unstarted name slot hcur hslot hop hwdev hserial =>
    have hlog : (settled c (take name slot s)).log =
        .completed c.serial :: .started s.serial slot.op slot.wdev :: s.log := rfl
    have hnext : (settled c (take name slot s)).serial = s.serial + 1 := rfl
    constructor
    · intro n op i hmem
      rw [hlog] at hmem
      rw [hnext]
      simp only [mem_cons, Entry.started.injEq, reduceCtorEq, false_or] at hmem
      rcases hmem with ⟨rfl, -⟩ | hmem
      · exact lt_succ_self _
      · exact lt_succ_of_lt (h.started n op i hmem)
    · intro n hn
      rw [hnext] at hn
      rw [hlog, hserial]
      change _ = if none = some n then 0 else 1
      by_cases heq : s.serial = n
      · subst heq
        simp [h.fresh s.serial le_rfl]
      · have := h.completed n (by omega)
        simpa [count_cons, heq, hcur] using this
    · intro n hn
      rw [hnext] at hn
      have hne : s.serial ≠ n := by omega
      rw [hlog, hserial]
      simpa [count_cons, hne] using h.fresh n (by omega)
    · intro d hd
      cases hd

/-- Each script ends once, whatever the moves are. -/
theorem kept_counted (R : Rules) : Kept R Counted := by
  intro s t h hmove
  have hnil : ∀ e ∈ ([] : List Entry), e.Quiet := by simp
  have hone : ∀ e : Entry, e.Quiet → ∀ e' ∈ [e], e'.Quiet := by simp
  cases hmove with
  | edit | setRetry | renew => exact h.frame [] rfl rfl rfl hnil
  | timer | raised | create => exact h.frame [] rfl rfl rfl hnil
  | setup | teardown => exact h.frame [] rfl rfl rfl hnil
  | configDone => exact h.frame [_] rfl rfl rfl (hone .configDone trivial)
  | configInit i =>
    refine h.frame (dropOthers (s.wdev i)) rfl rfl rfl fun e he => ?_
    obtain ⟨e', -, rfl⟩ := mem_map.mp he
    trivial
  | setData i =>
    unfold wdevSetData
    dsimp only
    split
    · exact h
    · rename_i key _ _ _
      refine h.frame (((s.wdev i).handlerData.get? key).toList.map .dropped) rfl rfl rfl
        fun e he => ?_
      obtain ⟨e', -, rfl⟩ := mem_map.mp he
      trivial
  | report _ _ hreport =>
    refine h.frame _ rfl rfl rfl fun e he => ?_
    obtain ⟨hd, -, hof⟩ := hreport e he
    exact hof.quiet
  | @want i => exact h.frame [_] rfl rfl rfl (hone (.request i .start) trivial)
  | @halt i r | @haltUp i r => exact h.frame [_] rfl rfl rfl (hone (.request i r) trivial)
  | @remove i =>
    refine h.frame ((s.wdev i).sections.map .dropped ++ [.request i .destroy]) rfl rfl
      (by simp [State.logs, deleteWdev, halted]) fun e he => ?_
    rcases mem_append.mp he with he | he
    · obtain ⟨e', -, rfl⟩ := mem_map.mp he
      trivial
    · rw [mem_singleton.mp he]
      trivial
  | @markUp i u _ _ _ hlinks =>
    exact h.reported [.markUp i ((s.cur.filter (·.wdev = i)).map (·.serial))] hlinks rfl
      rfl rfl (hone _ trivial)
  | @begin name slot hcur =>
    have hnext : (spawn ⟨slot.op, slot.wdev, s.serial⟩ (take name slot s)).serial = s.serial + 1 :=
      rfl
    constructor
    · intro n op i hmem
      rw [hnext]
      rcases mem_cons.mp hmem with hmem | hmem
      · cases hmem
        exact lt_succ_self _
      · exact lt_succ_of_lt (h.started n op i hmem)
    · intro n hn
      rw [hnext] at hn
      change (Entry.started s.serial slot.op slot.wdev :: s.log).count _ =
        if some s.serial = some n then 0 else 1
      by_cases heq : s.serial = n
      · subst heq
        simpa using h.fresh s.serial le_rfl
      · have := h.completed n (by omega)
        simpa [count_cons, heq, hcur] using this
    · intro n hn
      rw [hnext] at hn
      change (Entry.started s.serial slot.op slot.wdev :: s.log).count _ = 0
      simpa [count_cons] using h.fresh n (by omega)
    · intro d hd
      cases hd
      exact lt_succ_self _
  | idle hended => exact h.ended hended
  | failed hended =>
    exact (h.ended hended).frame [_] rfl rfl rfl (hone (.failure _ _) trivial)
  | down hended _ hlinks | deleted hended _ hlinks | restart hended _ hlinks
  | thrown hended _ _ hlinks =>
    exact (h.ended hended).reported [] hlinks rfl rfl rfl hnil

/-! ## The queue is run -/

/-- A script is run, none waits, or the timer is armed. -/
def Armed (s : State) : Prop := s.cur.isSome ∨ s.handler.size = 0 ∨ s.timer = true

theorem Armed.frame (h : Armed s) (hcur : t.cur = s.cur) (hhandler : t.handler = s.handler)
    (htimer : t.timer = s.timer) : Armed t := by
  rw [Armed, hcur, hhandler, htimer]
  exact h

theorem size_of_pick_none {k : Nat} {handler : Dict String Slot} (h : pick k handler = none) :
    handler.size = 0 := by
  by_contra hsize
  have hne : handler.entries ≠ [] := fun hnil => hsize (by simp [Dict.size, hnil])
  cases hmin : handler.entries.argmin (fun e => e.2.time) with
  | none => exact hne (argmin_eq_none.mp hmin)
  | some m =>
    have hmem : (m.1, m.2) ∈ oldest handler := by
      refine mem_map.mpr ⟨m, mem_filter.mpr ⟨argmin_mem hmin, ?_⟩, rfl⟩
      simp only [all_eq_true, decide_eq_true_eq]
      exact fun e he => le_of_mem_argmin (f := fun e => e.2.time) he hmin
    have hpos := length_pos_of_mem hmem
    have hlt := mod_lt k hpos
    rw [pick, List.getElem?_eq_none_iff] at h
    omega

section Armed

variable {run : State → State} {env : Env} {s : State} {i : Nat}

theorem armed_setup (hrun : ∀ s, Armed (run s)) (h : Armed s) : Armed (setup run env i s) := by
  rcases setup_cases run env i s with heq | ⟨-, -, -, heq⟩
  · rw [heq]
    exact h
  · rw [heq]
    exact hrun _

theorem armed_teardown (hrun : ∀ s, Armed (run s)) (h : Armed s) :
    Armed (teardown run env i s) := by
  rcases teardown_cases run env i s with ⟨-, heq⟩ | ⟨-, heq⟩
  · rw [heq]
    exact h.frame rfl rfl rfl
  · rw [heq]
    exact hrun _

theorem handleLinks_fields (l : List HandlerData) (up : Bool) (s : State) :
    ∃ es r, handleLinks l up s = { s with log := es ++ s.log, raised := r } := by
  cases h : s.raised with
  | true => exact ⟨[], true, by rw [handleLinks_raise l up h, ← h]; rfl⟩
  | false => exact (reported_handleLinks l up h).fields

theorem armed_callback (hrun : ∀ s, Armed (run s)) (h : Armed s) (c : Script) :
    Armed (callback run env c s) := by
  unfold callback
  split
  · unfold wdevSetupCb
    dsimp only
    split_ifs
    · exact armed_setup hrun (h.frame rfl rfl rfl)
    · exact h
    · exact armed_teardown hrun (h.frame rfl rfl rfl)
  · obtain ⟨es, r, heq⟩ := handleLinks_fields (s.wdev c.wdev).sections false s
    unfold wdevTeardownCb
    rw [heq]
    dsimp only
    split_ifs
    · exact h.frame rfl rfl rfl
    · exact h.frame rfl rfl rfl
    · exact armed_setup hrun (h.frame rfl rfl rfl)

theorem armed_runHandlerCb (hrun : ∀ s, Armed (run s)) (h : Armed s) (c : Script) :
    Armed (runHandlerCb run env c s) := by
  unfold runHandlerCb
  split
  · exact h.frame rfl rfl rfl
  · split_ifs
    · exact h
    · exact armed_callback hrun (.inr (.inr rfl)) c

theorem armed_configDone (h : s.handler.size = 0) : Armed (configDone s) := by
  unfold configDone
  split_ifs <;> exact .inr (.inl h)

theorem armed_runNextHandler (failing : List Nat) (s : State) :
    Armed (runNextHandler env failing s) := by
  induction failing generalizing s with
  | nil =>
    unfold runNextHandler
    split_ifs with hcur
    · exact .inl hcur
    · split
      · rename_i hpick
        exact armed_configDone (size_of_pick_none hpick)
      · exact .inl rfl
  | cons k failing ih =>
    unfold runNextHandler
    split_ifs with hcur
    · exact .inl hcur
    · split
      · rename_i hpick
        exact armed_configDone (size_of_pick_none hpick)
      · dsimp only
        split_ifs
        · exact armed_runHandlerCb ih (.inl rfl) _
        · exact ih _

theorem armed_run (s : State) : Armed (env.run s) := armed_runNextHandler _ s

theorem armed_check (h : Armed s) : Armed (check env i s) := by
  unfold check
  dsimp only
  split_ifs
  · exact armed_setup armed_run (h.frame rfl rfl rfl)
  · exact h.frame rfl rfl rfl

theorem armed_start (h : Armed s) : Armed (start env i s) := by
  unfold start
  dsimp only
  split_ifs
  · exact h
  · exact h.frame rfl rfl rfl
  · exact armed_setup armed_run (h.frame rfl rfl rfl)
  · exact armed_setup armed_run (h.frame rfl rfl rfl)

theorem armed_stop (h : Armed s) : Armed (stop env i s) := by
  unfold stop
  dsimp only
  split
  · exact h.frame rfl rfl rfl
  · exact armed_teardown armed_run (h.frame rfl rfl rfl)
  · exact h.frame rfl rfl rfl

theorem armed_notify (h : Armed s) (req : Notify) : Armed (notify i req s) := by
  unfold notify wdevMarkUp wdevSetData wdevProcAdd
  obtain ⟨es, r, heq⟩ := handleLinks_fields (s.wdev i).sections true s
  rw [heq]
  dsimp only
  repeat' split
  all_goals exact h.frame rfl rfl rfl

theorem handleLink_fields (dev : String) (hd : HandlerData) (up : Bool) (s : State) :
    ∃ es r, handleLink dev hd up s = { s with log := es ++ s.log, raised := r } := by
  cases hconfig : hd.config with
  | none => exact ⟨[], true, by rw [handleLink_of_none up hconfig]; rfl⟩
  | some config => exact ⟨_, s.raised, by rw [handleLink_of_some up hconfig]; rfl⟩

theorem armed_hotplug (h : Armed s) (dev : String) (add : Bool) : Armed (hotplug i dev add s) := by
  unfold hotplug
  generalize (s.wdev i).sections = l
  induction l generalizing s with
  | nil => exact h
  | cons hd l ih =>
    rw [foldl_cons]
    split_ifs
    · exact ih h
    · exact ih h
    · obtain ⟨es, r, heq⟩ := handleLink_fields dev hd add s
      rw [heq]
      exact ih (h.frame rfl rfl rfl)

theorem armed_step (h : Armed s) (e : Event) : Armed (step env e s) := by
  have h : Armed { s with raised := false } := h.frame rfl rfl rfl
  unfold step
  generalize ({ s with raised := false } : State) = s at h ⊢
  cases e with
  | create data =>
    unfold perform
    dsimp only
    split_ifs
    · exact h
    · exact .inr (.inr rfl)
  | call name m =>
    unfold perform
    dsimp only
    split
    · exact h
    · cases m with
      | start => exact armed_start (h.frame rfl rfl rfl)
      | stop => exact armed_stop (h.frame rfl rfl rfl)
      | destroy =>
        unfold call destroy
        dsimp only
        split_ifs
        · exact armed_stop (h.frame rfl rfl rfl)
        · exact h.frame rfl rfl rfl
      | retrySetup =>
        unfold call retrySetup
        dsimp only
        split_ifs
        · exact h
        · exact h
        · exact armed_start h
      | update data =>
        unfold call update
        dsimp only
        split_ifs
        · exact h
        · exact armed_check (h.frame rfl rfl rfl)
        · exact h
      | check => exact armed_check h
      | notify req => exact armed_notify h req
      | hotplug name add => exact armed_hotplug h name add
  | procCheck i active =>
    unfold perform wdevProcCheck
    dsimp only
    split_ifs
    · exact armed_teardown armed_run h
    · exact h
    · exact h
  | exit c =>
    unfold perform
    dsimp only
    split_ifs
    · have h' : Armed { s with running := s.running.erase c } := h.frame rfl rfl rfl
      exact armed_runHandlerCb armed_run h' c
    · exact h
  | scriptTimeout =>
    unfold perform
    dsimp only
    split
    · exact h
    · rename_i c _
      have h' : Armed { s with
          timeout := none
          running := s.running.filter fun d => s.task ≠ some d.serial } := h.frame rfl rfl rfl
      exact armed_runHandlerCb armed_run h' c
  | handlerTimer => exact armed_run _

end Armed

/-! ## Runs -/

def HasScript (s : State) (op : Op) (i : Nat) : Prop :=
  (∃ name slot, s.handler.get? name = some slot ∧ slot.wdev = i ∧ slot.op = op) ∨
    ∃ c ∈ s.running, c.wdev = i ∧ c.op = op

/-- One script is run at a time, no device is stuck, and every script ends once. -/
structure Served (s : State) : Prop where
  one : s.running.length ≤ 1
  setup : ∀ i, (s.wdev i).state = .setup → HasScript s .setup i
  teardown : ∀ i, (s.wdev i).state = .teardown → HasScript s .teardown i
  completed : ∀ n op i, Entry.started n op i ∈ s.log →
    s.log.count (.completed n) = if n ∈ s.running.map (·.serial) then 0 else 1
  waited : ∀ c ∈ s.running, s.timeout = some c
  woken : s.running ≠ [] ∨ s.handler.size = 0 ∨ s.timer = true

theorem Live.hasScript (h : Live s) {op : Op} {i : Nat} (hpending : Pending s op i) :
    HasScript s op i := by
  rcases hpending with hslot | ⟨c, hc, hcop⟩
  · exact .inl hslot
  · exact .inr ⟨c, by simp [h.running, hc], hcop⟩

theorem served_of_live (h : Live s) (hqueued : Queued ∅ s) (hcounted : Counted s) (harmed : Armed s) :
    Served s := by
  refine ⟨?_, fun i hi => ?_, fun i hi => ?_, fun n op i hmem => ?_, fun c hc => ?_, ?_⟩
  · rw [h.running]
    cases s.cur <;> simp
  · exact h.hasScript (hqueued.setup i (by simp) hi)
  · exact h.hasScript (hqueued.teardown i (by simp) hi)
  · rw [hcounted.completed n (hcounted.started n op i hmem), h.running]
    cases s.cur <;> simp [eq_comm]
  · rw [h.running, Option.mem_toList] at hc
    rw [h.timeout, hc]
  · rcases harmed with hcur | hrest
    · left
      rw [h.running]
      cases hc : s.cur <;> simp_all
    · exact .inr hrest

/-- The message gives no interface to the device itself. -/
def Named (e : Event) : Prop :=
  match e with
  | .call _ (.notify req) => req.command = .setData → req.interface = none → req.vlan = none →
      req.ifname.filter (· ≠ "") = none
  | _ => True

def Rules.named : Rules := { Rules.all with bare := False }

theorem allows_named {env : Env} {e : Event} (h : Named e) :
    Allows Rules.named env e s := by
  cases e with
  | call name m =>
    intro i hi
    cases m with
    | notify req => exact ⟨fun _ _ => trivial, fun _ => trivial, fun h1 h2 h3 h4 => h4 (h h1 h2 h3)⟩
    | check => exact fun _ _ => trivial
    | update data => exact fun _ => ⟨fun _ => trivial, fun _ => trivial⟩
    | _ => trivial
  | _ => trivial

theorem clean_init : Clean .init := fun _ _ hmem => absurd hmem not_mem_nil

theorem queued_init : Queued ∅ .init := by
  constructor
  · intro name slot hsome
    cases hsome
  · intro i _ hi
    cases hi
  · intro i _ hi
    cases hi
  · rintro i (⟨name, slot, hsome, -⟩ | ⟨c, hc, -⟩)
    · cases hsome
    · cases hc
  · rintro i op (⟨name, slot, hsome, -⟩ | ⟨c, hc, -⟩)
    · cases hsome
    · cases hc
  · intro c hc
    cases hc
  · intro name i hi
    cases hi
  · exact fun i hi => absurd rfl hi
  · exact fun i => rfl
  · exact fun i _ => rfl

theorem counted_init : Counted .init :=
  ⟨by simp [State.init], by simp [State.init], by simp [State.init], by simp [State.init]⟩

theorem armed_init : Armed .init := .inr (.inl rfl)

theorem served {s : State} (h : Reachable (fun _ e _ => Named e) s) : Served s := by
  have hkept : Kept Rules.named (fun s => (Clean s ∧ Queued ∅ s) ∧ Counted s) := fun s t hs hmove =>
    ⟨kept_queued id s t hs.1 hmove, kept_counted _ s t hs.2 hmove⟩
  obtain ⟨hlive, ⟨-, hqueued⟩, hcounted⟩ := h.kept hkept ⟨⟨clean_init, queued_init⟩, counted_init⟩
    (fun _ => trivial) fun env e s _ he => allows_named he
  have harmed : Armed s := by
    clear hlive hqueued hcounted
    induction h with
    | init => exact armed_init
    | step _ env e _ ih => exact armed_step ih e
  exact served_of_live hlive hqueued hcounted harmed

/-! ## A device that has an interface -/

def plain : Env := { time := 0, interfaceGetEnabled := fun _ => none, failing := [], last := 0 }

def script (op : Op) (serial : Nat) : Script := { op := op, wdev := 0, serial := serial }

/-- The setup script names an interface for the device and fails; then it is torn down. -/
def stuckEvents : List Event :=
  [.create { name := "radio0", config := "", vif := [] }, .call "radio0" .start,
    .call "radio0" (.notify { command := .setData, interface := none, vlan := none
                              ifname := some "wlan0", proc := none, retry := none }),
    .exit (script .setup 0), .handlerTimer, .exit (script .teardown 1)]

def State.run (s : State) (events : List Event) : State :=
  events.foldl (fun s e => step plain e s) s

theorem reachable_run (events : List Event) :
    Reachable (fun _ _ _ => True) (State.init.run events) := by
  induction events using List.reverseRecOn with
  | nil => exact .init
  | append_singleton before e ih =>
    rw [State.run, foldl_append]
    exact .step ih plain e trivial

theorem not_hasScript (hrunning : s.running = []) (hentries : s.handler.entries = []) (op : Op)
    (i : Nat) : ¬ HasScript s op i := by
  rintro (⟨name, slot, hsome, -⟩ | ⟨c, hc, -⟩)
  · have hmem := (Dict.mem_entries_iff _ name slot).mpr hsome
    rw [hentries] at hmem
    exact absurd hmem not_mem_nil
  · rw [hrunning] at hc
    exact absurd hc not_mem_nil

theorem served_fails : ¬ ∀ s, Reachable (fun _ _ _ => True) s → Served s := by
  intro h
  have hserved := h _ (reachable_run stuckEvents)
  have hstate : ((State.init.run stuckEvents).wdev 0).state = .teardown := by decide
  have hrunning : (State.init.run stuckEvents).running = [] := by decide
  have hentries : (State.init.run stuckEvents).handler.entries = [] := by decide
  exact not_hasScript hrunning hentries _ 0 (hserved.teardown 0 hstate)

/-- A device that is stopped before it is up. -/
theorem served_stopped :
    Served (step plain (.call "radio0" .stop) (step plain (.call "radio0" .start)
      (step plain (.create { name := "radio0", config := "", vif := [] }) .init))) :=
  served (.step (.step (.step .init plain _ trivial) plain _ trivial) plain _ trivial)

end LibWrt.Wireless
