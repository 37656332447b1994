/-
LibWrt.Wireless.Moves — what a step can do.

A step is made of moves. A script that ends, or that could not be started, is a
single move with what its callback does first. The rules say which moves are
allowed that a run may have to do without: to report a device up, to set up
again a device that is up, to give new data, and to name an interface for the
device itself.
-/
import LibWrt.Wireless.Device

namespace LibWrt.Wireless

open List

namespace State

variable (s : State) (i : Nat) (w : Wdev) (e : Entry)

@[simp] theorem wdev_put_self : (s.put i w).wdev i = w := by simp [put]

theorem wdev_put_ne {j : Nat} (h : j ≠ i) : (s.put i w).wdev j = s.wdev j := by simp [put, h]

theorem wdev_put_congr {t : State} (h : t.wdev = s.wdev) : (t.put i w).wdev = (s.put i w).wdev := by
  simp [put, h]

theorem wdev_put (j : Nat) : (s.put i w).wdev j = if j = i then w else s.wdev j := by
  simp [put, Function.update_apply]

@[simp] theorem put_put (w' : Wdev) : (s.put i w).put i w' = s.put i w' := by simp [put]

@[simp] theorem put_self : s.put i (s.wdev i) = s := by simp [put]

@[simp] theorem devices_put : (s.put i w).devices = s.devices := rfl
@[simp] theorem next_put : (s.put i w).next = s.next := rfl
@[simp] theorem handler_put : (s.put i w).handler = s.handler := rfl
@[simp] theorem cur_put : (s.put i w).cur = s.cur := rfl
@[simp] theorem task_put : (s.put i w).task = s.task := rfl
@[simp] theorem timeout_put : (s.put i w).timeout = s.timeout := rfl
@[simp] theorem timer_put : (s.put i w).timer = s.timer := rfl
@[simp] theorem running_put : (s.put i w).running = s.running := rfl
@[simp] theorem serial_put : (s.put i w).serial = s.serial := rfl
@[simp] theorem raised_put : (s.put i w).raised = s.raised := rfl
@[simp] theorem log_put : (s.put i w).log = s.log := rfl

@[simp] theorem devices_note : (s.note e).devices = s.devices := rfl
@[simp] theorem next_note : (s.note e).next = s.next := rfl
@[simp] theorem wdev_note : (s.note e).wdev = s.wdev := rfl
@[simp] theorem handler_note : (s.note e).handler = s.handler := rfl
@[simp] theorem cur_note : (s.note e).cur = s.cur := rfl
@[simp] theorem task_note : (s.note e).task = s.task := rfl
@[simp] theorem timeout_note : (s.note e).timeout = s.timeout := rfl
@[simp] theorem timer_note : (s.note e).timer = s.timer := rfl
@[simp] theorem running_note : (s.note e).running = s.running := rfl
@[simp] theorem serial_note : (s.note e).serial = s.serial := rfl
@[simp] theorem raised_note : (s.note e).raised = s.raised := rfl
@[simp] theorem log_note : (s.note e).log = e :: s.log := rfl

def logs (s : State) (es : List Entry) : State := { s with log := es ++ s.log }

/-- A script is queued for `i`. -/
def enqueue (s : State) (i : Nat) (op : Op) (time : Nat) : State :=
  { s with handler := s.handler.set (s.wdev i).name { op := op, wdev := i, time := time } }

end State

def State.Listed (s : State) (i : Nat) : Prop := ∃ name, s.devices.get? name = some i

/-- An entry of the device itself that has an interface. -/
def HandlerData.Bare (hd : HandlerData) : Prop := hd.named ≠ none ∧ hd.config = none

def Wdev.toSetup (w : Wdev) : Wdev :=
  { wdevProcReset w with configChange := false, state := .setup }

def Wdev.toTeardown (w : Wdev) : Wdev :=
  { wdevProcReset { w with cancelSetup := false } with state := .teardown }

def Wdev.toDown (w : Wdev) : Wdev := { w with handlerData := ∅, state := .down }

/-- Neither the state nor what a caller wants is changed. -/
structure Wdev.Same (w w' : Wdev) : Prop where
  name : w'.name = w.name
  data : w'.data = w.data
  state : w'.state = w.state
  autostart : w'.autostart = w.autostart
  delete : w'.delete = w.delete
  failed : w'.retrySetupFailed = true → w.retrySetupFailed = true
  retry : w'.retry = w.retry ∨ w'.retry = some 3
  handlerData : w'.handlerData = w.handlerData

theorem Wdev.Same.refl (w : Wdev) : w.Same w := ⟨rfl, rfl, rfl, rfl, rfl, id, .inl rfl, rfl⟩

/-! ## Reports -/

/-- What is reported of the entry `hd`. -/
def ReportOf (up : Bool) (hd : HandlerData) : Entry → Prop
  | .deviceSet .. => True
  | .link l =>
    l.up = up ∧ hd.ifname = some l.owner ∧
      ∃ config, hd.config = some config ∧ l.name ∈ config.network
  | _ => False

def Covers (es : List Entry) (up : Bool) (hd : HandlerData) : Prop :=
  ∀ dev, hd.named = some dev →
    ∃ config, hd.config = some config ∧
      ∀ net ∈ config.network, .link (linkOf dev hd config up net) ∈ es

variable {hd : HandlerData} {dev : String} {config : VifConfig} {up : Bool} {s : State}
  {es : List Entry}

theorem named_eq_some (h : hd.named = some dev) :
    hd.ifname = some dev := by
  obtain ⟨hsome, -⟩ := Option.filter_eq_some_iff.mp h
  exact hsome

theorem foldl_note (s : State) (nets : List String) (f : String → Entry) :
    nets.foldl (fun s net => s.note (f net)) s = s.logs ((nets.map f).reverse) := by
  induction nets generalizing s with
  | nil => rfl
  | cons net nets ih =>
    rw [foldl_cons, ih]
    simp [State.logs, State.note]

/-- What is said of an entry with options, the newest first. -/
def linkEntries (dev : String) (hd : HandlerData) (config : VifConfig) (up : Bool) : List Entry :=
  (config.network.map fun net => .link (linkOf dev hd config up net)).reverse ++
    if up then [.deviceSet dev (devData dev hd config)] else []

theorem handleLink_of_some (up : Bool) (hconfig : hd.config = some config) (s : State) :
    handleLink dev hd up s = s.logs (linkEntries dev hd config up) := by
  simp only [handleLink, hconfig, foldl_note]
  cases up <;> simp [linkEntries, State.logs, State.note]

theorem handleLink_of_none (up : Bool) (hconfig : hd.config = none) (s : State) :
    handleLink dev hd up s = s.raise := by
  simp [handleLink, hconfig]

theorem link_mem_linkEntries {l : Link} : .link l ∈ linkEntries dev hd config up ↔
      ∃ net ∈ config.network, l = linkOf dev hd config up net := by
  cases up <;> simp [linkEntries, eq_comm]

theorem reportOf_linkEntries {dev' : String} (hconfig : hd.config = some config)
    (hdev : hd.ifname = some dev') {e : Entry} (he : e ∈ linkEntries dev hd config up) :
    ReportOf up hd e := by
  simp only [linkEntries, mem_append, mem_reverse, mem_map] at he
  rcases he with ⟨net, hnet, rfl⟩ | he
  · exact ⟨rfl, by simp [linkOf, hdev], config, hconfig, hnet⟩
  · split at he
    · rw [mem_singleton.mp he]
      trivial
    · exact absurd he not_mem_nil

/-- What is reported goes to the log, up to the first entry that has no options. -/
inductive Reported (up : Bool) (l : List HandlerData) (s : State) : State → Prop where
  | all (es : List Entry) (hreport : ∀ e ∈ es, ∃ hd ∈ l, ReportOf up hd e)
      (hown : ∀ link, .link link ∈ es → link.ifname = link.owner)
      (hcovers : ∀ hd ∈ l, Covers es up hd) : Reported up l s (s.logs es)
  | some (es : List Entry) (hreport : ∀ e ∈ es, ∃ hd ∈ l, ReportOf up hd e)
      (hown : ∀ link, .link link ∈ es → link.ifname = link.owner)
      (hbare : ∃ hd ∈ l, hd.Bare) : Reported up l s (s.logs es).raise

@[simp] theorem State.logs_nil (s : State) : s.logs [] = s := rfl

theorem State.logs_logs (s : State) (es es' : List Entry) :
    (s.logs es).logs es' = s.logs (es' ++ es) := by simp [logs]

theorem Covers.of_none (h : hd.named = none) :
    Covers es up hd := by
  intro dev hdev
  rw [h] at hdev
  exact absurd hdev (by simp)

theorem Covers.mono {es' : List Entry} (h : Covers es up hd) (hsub : ∀ e ∈ es, e ∈ es') :
    Covers es' up hd := by
  intro dev hdev
  obtain ⟨config, hconfig, hlinks⟩ := h dev hdev
  exact ⟨config, hconfig, fun net hnet => hsub _ (hlinks net hnet)⟩

theorem Reported.cons {l : List HandlerData} {t : State} (hreport : ∀ e ∈ es, ReportOf up hd e)
    (hown : ∀ link, .link link ∈ es → link.ifname = link.owner) (hcovers : Covers es up hd)
    (h : Reported up l (s.logs es) t) : Reported up (hd :: l) s t := by
  have hreport' : ∀ es', (∀ e ∈ es', ∃ hd ∈ l, ReportOf up hd e) →
      ∀ e ∈ es' ++ es, ∃ hd' ∈ hd :: l, ReportOf up hd' e := by
    intro es' hes' e he
    rcases mem_append.mp he with he | he
    · obtain ⟨hd', hmem, hof⟩ := hes' e he
      exact ⟨hd', mem_cons_of_mem _ hmem, hof⟩
    · exact ⟨hd, mem_cons_self, hreport e he⟩
  have hown' : ∀ es', (∀ link, Entry.link link ∈ es' → link.ifname = link.owner) →
      ∀ link, Entry.link link ∈ es' ++ es → link.ifname = link.owner := by
    intro es' hes' link hlink
    exact (mem_append.mp hlink).elim (hes' link) (hown link)
  cases h with
  | all es' h1 h2 h3 =>
    rw [State.logs_logs]
    refine .all _ (hreport' es' h1) (hown' es' h2) fun hd' hmem => ?_
    rcases mem_cons.mp hmem with rfl | hmem
    · exact hcovers.mono fun e he => mem_append_right _ he
    · exact (h3 hd' hmem).mono fun e he => mem_append_left _ he
  | some es' h1 h2 h3 =>
    rw [State.logs_logs]
    obtain ⟨hd', hmem, hbare⟩ := h3
    exact .some _ (hreport' es' h1) (hown' es' h2) ⟨hd', mem_cons_of_mem _ hmem, hbare⟩

theorem handleLinks_raise (l : List HandlerData) (up : Bool) (h : s.raised = true) :
    handleLinks l up s = s := by
  unfold handleLinks
  induction l with
  | nil => rfl
  | cons hd l ih => simpa [h] using ih

theorem reported_handleLinks (l : List HandlerData) (up : Bool) (h : s.raised = false) :
    Reported up l s (handleLinks l up s) := by
  induction l generalizing s with
  | nil => exact .all [] (by simp) (by simp) (by simp)
  | cons hd l ih =>
    cases hnamed : hd.named with
    | none =>
      have heq : handleLinks (hd :: l) up s = handleLinks l up s := by
        simp [handleLinks, h, hnamed]
      rw [heq]
      have hnone : Covers [] up hd := .of_none hnamed
      exact .cons (by simp) (by simp) hnone (ih h)
    | some dev =>
      have heq : handleLinks (hd :: l) up s = handleLinks l up (handleLink dev hd up s) := by
        simp [handleLinks, h, hnamed]
      rw [heq]
      cases hconfig : hd.config with
      | none =>
        rw [handleLink_of_none up hconfig, handleLinks_raise l up rfl]
        exact .some [] (by simp) (by simp) ⟨hd, mem_cons_self, by simp [hnamed], hconfig⟩
      | some config =>
        have hifname := named_eq_some hnamed
        rw [handleLink_of_some up hconfig]
        refine .cons (fun e he => reportOf_linkEntries hconfig hifname he) ?_ ?_ (ih h)
        · intro link hlink
          obtain ⟨net, -, rfl⟩ := link_mem_linkEntries.mp hlink
          simp [linkOf, hifname]
        · intro dev' hdev'
          obtain rfl : dev = dev' := by rw [hnamed] at hdev'; exact Option.some.inj hdev'
          exact ⟨config, hconfig, fun net hnet => link_mem_linkEntries.mpr ⟨net, hnet, rfl⟩⟩

/-! ## Moves -/

/-- Which moves are allowed, for a device and the script that is run. -/
structure Rules where
  /-- It is reported up. -/
  up : Nat → State → Prop
  /-- It is set up again while it is up. -/
  again : Nat → Option Script → Prop
  /-- It has other data, and is deleted no more. -/
  renew : Nat → State → Prop
  /-- A caller asks for something. -/
  ask : Nat → Request → State → Prop
  /-- A script says how often to try. -/
  retry : Option Int → Prop
  /-- An entry of the device itself may have an interface. -/
  bare : Prop

def Rules.all : Rules :=
  { up := fun _ _ => True, again := fun _ _ => True, renew := fun _ _ => True
    ask := fun _ _ _ => True, retry := fun _ => True, bare := True }

/-- Script `c` is run no more, or it could not be started. -/
inductive Ended (c : Script) (s : State) : State → Prop where
  | exit (hcur : s.cur = some c) (hrunning : s.running = [c]) :
      Ended c s (settled c { s with running := [] })
  | unstarted {name : String} {slot : Slot} (hcur : s.cur = none)
      (hslot : s.handler.get? name = some slot) (hop : c.op = slot.op) (hwdev : c.wdev = slot.wdev)
      (hserial : c.serial = s.serial) : Ended c s (settled c (take name slot s))

/-- A caller's wish, that the device is not up any more. -/
inductive Wish (w : Wdev) : Request → Bool → Prop where
  | stop : Wish w .stop w.delete
  | destroy : Wish w .destroy true

def halted (i : Nat) (r : Request) (delete : Bool) (w : Wdev) (s : State) : State :=
  (s.note (.request i r)).put i { w with autostart := false, delete := delete }

def Wdev.wanted (w : Wdev) : Wdev := { w with autostart := w.autostart || !w.delete }

def created (i : Nat) (w : Wdev) (s : State) : State :=
  { s.put i w with next := i + 1, devices := s.devices.set w.name i }

inductive Move (R : Rules) (s : State) : State → Prop where
  | edit {i : Nat} {w : Wdev} (h : (s.wdev i).Same w) : Move R s (s.put i w)
  | setRetry {i : Nat} {retry : Option Int} (hrule : R.retry retry) :
      Move R s (s.put i { s.wdev i with retry := retry })
  | timer (timer : Bool) : Move R s { s with timer := timer }
  | raised (raised : Bool) : Move R s { s with raised := raised }
  | configDone : Move R s (s.note .configDone)
  | renew {i : Nat} {data : Data} (hlisted : s.Listed i) (hname : data.name = (s.wdev i).name)
      (hrule : R.renew i s) : Move R s (s.put i ((s.wdev i).renew data))
  | configInit (i : Nat) : Move R s (wdevConfigInit i s)
  | setData (i : Nat) (vif vlan ifname : Option String)
      (hrule : vif = none → vlan = none → ifname.filter (· ≠ "") ≠ none → R.bare) :
      Move R s (wdevSetData i vif vlan ifname s)
  | report {i : Nat} (hlisted : s.Listed i) (up : Bool) {es : List Entry}
      (h : ∀ e ∈ es, ∃ hd ∈ (s.wdev i).sections, ReportOf up hd e) : Move R s (s.logs es)
  | create {w : Wdev} (hnone : s.devices.get? w.name = none) (hdata : w.data.name = w.name)
      (hstate : w.state = .down) (hauto : w.autostart = true) (hdelete : w.delete = false)
      (hfailed : w.retrySetupFailed = false) (hhandler : w.handlerData = ∅) :
      Move R s (created s.next w s)
  | want {i : Nat} (hlisted : s.Listed i) (hrule : R.ask i .start s) :
      Move R s ((s.note (.request i .start)).put i (s.wdev i).wanted)
  | halt {i : Nat} {r : Request} {delete : Bool} (hlisted : s.Listed i) (hrule : R.ask i r s)
      (hwish : Wish (s.wdev i) r delete) (hstate : (s.wdev i).state ≠ .up)
      (hdown : r = .destroy → (s.wdev i).state ≠ .down) :
      Move R s (halted i r delete (s.wdev i) s)
  | haltUp {i : Nat} {r : Request} {delete : Bool} (hlisted : s.Listed i) (hrule : R.ask i r s)
      (hwish : Wish (s.wdev i) r delete) (hstate : (s.wdev i).state = .up) (time : Nat) :
      Move R s ((halted i r delete (s.wdev i).toTeardown s).enqueue i .teardown time)
  | remove {i : Nat} (hlisted : s.Listed i) (hrule : R.ask i .destroy s)
      (hstate : (s.wdev i).state = .down) :
      Move R s ((deleteWdev (s.wdev i).data.name (halted i .destroy true (s.wdev i) s)).logs
        ((s.wdev i).sections.map .dropped))
  | setup {i : Nat} (hstate : (s.wdev i).state = .down ∧ s.Listed i ∨
        (s.wdev i).state = .up ∧ R.again i s.cur) (hauto : (s.wdev i).autostart = true)
      (hfailed : (s.wdev i).retrySetupFailed = false) (time : Nat) :
      Move R s ((s.put i (s.wdev i).toSetup).enqueue i .setup time)
  | teardown {i : Nat} (hstate : (s.wdev i).state = .setup ∨ (s.wdev i).state = .up) (time : Nat) :
      Move R s ((s.put i (s.wdev i).toTeardown).enqueue i .teardown time)
  | markUp {i : Nat} {u : State} (hlisted : s.Listed i) (hstate : (s.wdev i).state = .setup)
      (hrule : R.up i s) (hlinks : Reported true (s.wdev i).sections s u)
      (hraised : u.raised = false) :
      Move R s ((u.put i { s.wdev i with state := .up }).note
        (.markUp i ((s.cur.filter (·.wdev = i)).map (·.serial))))
  | begin {name : String} {slot : Slot} (hcur : s.cur = none)
      (hslot : s.handler.get? name = some slot) :
      Move R s (spawn { op := slot.op, wdev := slot.wdev, serial := s.serial } (take name slot s))
  | idle {c : Script} {t : State} (hended : Ended c s t) (hop : c.op = .setup)
      (hstate : (t.wdev c.wdev).state ≠ .setup) : Move R s t
  | failed {c : Script} {t : State} (hended : Ended c s t) (hop : c.op = .setup)
      (hstate : (t.wdev c.wdev).state = .setup) (time : Nat) :
      Move R s (((t.put c.wdev (t.wdev c.wdev).countFailure.toTeardown).note
        (.failure c.wdev c.serial)).enqueue c.wdev .teardown time)
  | down {c : Script} {t u : State} (hended : Ended c s t) (hop : c.op = .teardown)
      (hlinks : Reported false (t.wdev c.wdev).sections t u) (hraised : u.raised = false)
      (hkeep : (t.wdev c.wdev).delete = false) :
      Move R s (u.put c.wdev (t.wdev c.wdev).toDown)
  | deleted {c : Script} {t u : State} (hended : Ended c s t) (hop : c.op = .teardown)
      (hlinks : Reported false (t.wdev c.wdev).sections t u) (hraised : u.raised = false)
      (hdelete : (t.wdev c.wdev).delete = true) :
      Move R s (deleteWdev (t.wdev c.wdev).data.name (u.put c.wdev (t.wdev c.wdev).toDown))
  | restart {c : Script} {t u : State} (hended : Ended c s t) (hop : c.op = .teardown)
      (hlinks : Reported false (t.wdev c.wdev).sections t u) (hraised : u.raised = false)
      (hkeep : (t.wdev c.wdev).delete = false) (hauto : (t.wdev c.wdev).autostart = true)
      (hfailed : (t.wdev c.wdev).retrySetupFailed = false) (time : Nat) :
      Move R s ((u.put c.wdev (t.wdev c.wdev).toDown.toSetup).enqueue c.wdev .setup time)
  | thrown {c : Script} {t u : State} (hended : Ended c s t) (hop : c.op = .teardown)
      (hcalm : t.raised = false) (hlinks : Reported false (t.wdev c.wdev).sections t u)
      (hraised : u.raised = true) : Move R s u

abbrev Moves (R : Rules) : State → State → Prop := Relation.ReflTransGen (Move R)

end LibWrt.Wireless
