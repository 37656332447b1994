/-
LibWrt.Wireless.Stop — a device that was stopped is down.

The last request is looked at. After a stop or a destroy the device does not
start on its own, and it is not up: what is up is torn down at once, and what is
set up is torn down when its script ends. The script may report the device up
before, which nothing looks out for; a run without such a report, and without
new data for a device that is to be destroyed, has it down in the end.
-/
import LibWrt.Wireless.Scripts

namespace LibWrt.Wireless

open List State

def lastRequest (i : Nat) (log : List Entry) : Option Request :=
  log.findSome? fun e =>
    match e with
    | .request j r => if j = i then some r else none
    | _ => none

@[simp] theorem lastRequest_nil (i : Nat) : lastRequest i [] = none := rfl

@[simp] theorem lastRequest_request (i j : Nat) (r : Request) (log : List Entry) :
    lastRequest i (.request j r :: log) = if j = i then some r else lastRequest i log := by
  by_cases h : j = i <;> simp [lastRequest, h]

def Entry.Other : Entry → Prop
  | .request .. => False
  | _ => True

theorem lastRequest_append {es log : List Entry} (h : ∀ e ∈ es, e.Other) (i : Nat) :
    lastRequest i (es ++ log) = lastRequest i log := by
  have hnone : lastRequest i es = none := by
    refine findSome?_eq_none_iff.mpr fun e he => ?_
    cases e <;> first | rfl | exact absurd (h _ he) (by simp [Entry.Other])
  simp only [lastRequest, findSome?_append] at hnone ⊢
  rw [hnone, Option.none_or]

variable {i : Nat} {s t : State} {up : Bool}

/-- The requests of another device do not matter. -/
theorem lastRequest_append_ne {es log : List Entry} {j : Nat}
    (h : ∀ e ∈ es, e.Other ∨ ∃ r, e = .request i r) (hj : j ≠ i) :
    lastRequest j (es ++ log) = lastRequest j log := by
  induction es with
  | nil => rfl
  | cons e es ih =>
    have hrest := ih fun e he => h e (mem_cons_of_mem _ he)
    rcases h e mem_cons_self with he | ⟨r, rfl⟩
    · rw [← hrest]
      change lastRequest j ([e] ++ (es ++ log)) = _
      exact lastRequest_append (by simpa using he) j
    · rw [cons_append, lastRequest_request, if_neg (Ne.symm hj), hrest]

/-- It was asked to stop or to be destroyed last. -/
def Halted (i : Nat) (s : State) : Prop :=
  lastRequest i s.log = some .stop ∨ lastRequest i s.log = some .destroy

/-- The device does not start and is not up; one that is destroyed leaves the table. -/
structure Stopping (i : Nat) (s : State) : Prop where
  halted : Halted i s → (s.wdev i).autostart = false ∧ (s.wdev i).state ≠ .up
  gone : lastRequest i s.log = some .destroy →
    ¬ s.Listed i ∨ (s.wdev i).delete = true ∧ (s.wdev i).state ≠ .down

/-- Reports are for those that are wanted, and new data for those that are not destroyed. -/
def Rules.heeded : Rules :=
  { up := fun i s => ¬ Halted i s
    again := fun _ _ => True
    renew := fun i s => lastRequest i s.log ≠ some .destroy
    ask := fun _ _ _ => True
    retry := fun _ => True
    bare := False }

/-- Devices that are not created yet were asked for nothing. -/
structure Stopped (s : State) : Prop where
  stopping : ∀ i, Stopping i s
  fresh : ∀ i, s.next ≤ i → lastRequest i s.log = none

section Frame

variable {s t : State} {i : Nat}

theorem Stopping.frame (h : Stopping i s) (hlog : lastRequest i t.log = lastRequest i s.log)
    (hauto : (t.wdev i).autostart = (s.wdev i).autostart)
    (hdelete : (t.wdev i).delete = (s.wdev i).delete)
    (hup : (t.wdev i).state = .up → (s.wdev i).state = .up)
    (hdown : (t.wdev i).state = .down → (s.wdev i).state = .down)
    (hlisted : t.Listed i → s.Listed i) : Stopping i t := by
  constructor
  · intro hhalted
    rw [Halted, hlog] at hhalted
    obtain ⟨h1, h2⟩ := h.halted hhalted
    exact ⟨hauto.trans h1, fun hstate => h2 (hup hstate)⟩
  · intro hdestroy
    rw [hlog] at hdestroy
    rcases h.gone hdestroy with h1 | ⟨h1, h2⟩
    · exact .inl fun hl => h1 (hlisted hl)
    · exact .inr ⟨hdelete.trans h1, fun hstate => h2 (hdown hstate)⟩

/-- Where a start was asked for last, nothing is said. -/
theorem Stopping.of_not_halted (h : ¬ Halted i s) : Stopping i s :=
  ⟨fun hh => absurd hh h, fun hd => absurd (.inr hd) h⟩

theorem Stopping.not_halted (h : Stopping i s) (hauto : (s.wdev i).autostart = true) :
    ¬ Halted i s := by
  intro hh
  rw [(h.halted hh).1] at hauto
  cases hauto

/-- What is torn down is neither up nor down. -/
theorem Stopping.toTeardown (h : Stopping i s) (hlog : lastRequest i t.log = lastRequest i s.log)
    (hauto : (t.wdev i).autostart = (s.wdev i).autostart)
    (hdelete : (t.wdev i).delete = (s.wdev i).delete) (hstate : (t.wdev i).state = .teardown)
    (hlisted : t.Listed i → s.Listed i) : Stopping i t :=
  h.frame hlog hauto hdelete (by simp [hstate]) (by simp [hstate]) hlisted

/-- No device but `i` is changed. -/
theorem Stopped.put (h : Stopped s) (w : Wdev) (es : List Entry)
    (ht : t.wdev = (s.put i w).wdev) (hlog : t.log = es ++ s.log)
    (hother : ∀ e ∈ es, e.Other ∨ ∃ r, e = .request i r)
    (hdevices : ∀ j, t.Listed j → s.Listed j) (hnext : t.next = s.next) (hlt : i < s.next)
    (hi : Stopping i t) : Stopped t := by
  have hlast : ∀ j, j ≠ i → lastRequest j t.log = lastRequest j s.log := by
    intro j hj
    rw [hlog]
    exact lastRequest_append_ne hother hj
  refine ⟨fun j => ?_, fun j hj => ?_⟩
  · by_cases hj : j = i
    · rw [hj]
      exact hi
    · have hw : t.wdev j = s.wdev j := by rw [ht, wdev_put_ne _ _ _ hj]
      exact (h.stopping j).frame (hlast j hj) (by rw [hw]) (by rw [hw]) (by rw [hw]; exact id)
        (by rw [hw]; exact id) (hdevices j)
  · rw [hlast j (by omega)]
    exact h.fresh j (hnext ▸ hj)

end Frame

/-! ## The moves -/

theorem Stopped.frame (h : Stopped s) (es : List Entry) (hlog : t.log = es ++ s.log)
    (hother : ∀ e ∈ es, e.Other) (hnext : t.next = s.next)
    (hsame : ∀ j, (t.wdev j).autostart = (s.wdev j).autostart ∧
      (t.wdev j).delete = (s.wdev j).delete ∧ (t.wdev j).state = (s.wdev j).state)
    (hlisted : ∀ j, t.Listed j → s.Listed j) : Stopped t := by
  have hlast : ∀ j, lastRequest j t.log = lastRequest j s.log := by
    intro j
    rw [hlog]
    exact lastRequest_append hother j
  refine ⟨fun j => ?_, fun j hj => ?_⟩
  · obtain ⟨hauto, hdelete, hstate⟩ := hsame j
    exact (h.stopping j).frame (hlast j) hauto hdelete (hstate ▸ id) (hstate ▸ id) (hlisted j)
  · rw [hlast j]
    exact h.fresh j (hnext ▸ hj)

theorem ReportOf.other {hd : HandlerData} {e : Entry} (h : ReportOf up hd e) :
    e.Other := by
  cases e <;> trivial

theorem Reported.other {l : List HandlerData} (h : Reported up l s t) :
    ∃ es, t.log = es ++ s.log ∧ ∀ e ∈ es, e.Other := by
  cases h with
  | all es hreport | some es hreport =>
    refine ⟨es, rfl, fun e he => ?_⟩
    obtain ⟨hd, -, hof⟩ := hreport e he
    exact hof.other

theorem Ended.other_log {c : Script} (h : Ended c s t) :
    ∃ es, t.log = es ++ s.log ∧ ∀ e ∈ es, e.Other := by
  cases h with
  | exit => exact ⟨[.completed c.serial], rfl, by simp [Entry.Other]⟩
  | @unstarted _ slot =>
    exact ⟨[.completed c.serial, .started s.serial slot.op slot.wdev], rfl, by simp [Entry.Other]⟩

theorem Stopped.ended {c : Script} (h : Stopped s) (hended : Ended c s t) :
    Stopped t := by
  obtain ⟨es, hlog, hother⟩ := hended.other_log
  obtain ⟨hdevices, hnext, -⟩ := hended.table
  refine h.frame es hlog hother hnext (fun j => ?_) fun j hj => ?_
  · have hsame := hended.same j
    exact ⟨hsame.autostart, hsame.delete, hsame.state⟩
  · rw [State.Listed, hdevices] at hj
    exact hj

theorem Listed.of_devices {j : Nat} (h : t.Listed j) (hdevices : t.devices = s.devices) :
    s.Listed j := by
  rw [State.Listed, hdevices] at h
  exact h

theorem Stopped.reported {l : List HandlerData} {u : State} (h : Stopped s) (w : Wdev)
    (es : List Entry) (hlinks : Reported up l s u) (ht : t.wdev = (u.put i w).wdev)
    (hlog : t.log = es ++ u.log) (hother : ∀ e ∈ es, e.Other)
    (hdevices : ∀ j, t.Listed j → s.Listed j) (hnext : t.next = u.next) (hlt : i < s.next)
    (hi : Stopping i t) : Stopped t := by
  obtain ⟨es', hlog', hother'⟩ := hlinks.other
  obtain ⟨hwdev, -, hnext', -⟩ := hlinks.same
  have hlog'' : t.log = (es ++ es') ++ s.log := by rw [hlog, hlog', append_assoc]
  refine h.put w (es ++ es') (by rw [ht, wdev_put_congr _ _ _ hwdev]) hlog'' (fun e he => ?_)
    hdevices (hnext.trans hnext') hlt hi
  exact .inl ((mem_append.mp he).elim (hother e) (hother' e))

theorem not_listed_del {x : Set Nat} (h : Queued x s) :
    ∀ name, (s.devices.del (s.wdev i).name).get? name ≠ some i := by
  intro name hname
  rw [Dict.get?_del] at hname
  split_ifs at hname with heq
  exact heq (h.table name i hname).1.symm

theorem countFailure_flags (w : Wdev) : w.countFailure.toTeardown.autostart = w.autostart ∧
    w.countFailure.toTeardown.delete = w.delete := by
  unfold Wdev.countFailure
  split
  · split <;> exact ⟨rfl, rfl⟩
  · exact ⟨rfl, rfl⟩

theorem kept_stopped : Kept Rules.heeded (fun s => (Clean s ∧ Queued ∅ s) ∧ Stopped s) := by
  rintro s t ⟨⟨hclean, hq⟩, h⟩ hmove
  refine ⟨kept_queued id s t ⟨hclean, hq⟩ hmove, ?_⟩
  have hlt : ∀ {i}, s.Listed i → i < s.next := fun hl => (hq.table _ _ (hq.get?_of_listed hl)).2
  have hlisted : ∀ {i}, (s.wdev i).state ≠ .down → s.Listed i := fun hs => ⟨_, hq.listed _ hs⟩
  have hnil : ∀ e ∈ ([] : List Entry), e.Other := by simp
  have hone : ∀ e : Entry, e.Other → ∀ e' ∈ [e], e'.Other := by simp
  have hrequest : ∀ i r, ∀ e ∈ [Entry.request i r], e.Other ∨ ∃ r, e = .request i r := by simp
  cases hmove with
  | @edit i w hsame =>
    refine h.frame [] rfl hnil rfl (fun j => ?_) fun j hj => hj
    rw [wdev_put]
    split_ifs with hj
    · rw [hj]
      exact ⟨hsame.autostart, hsame.delete, hsame.state⟩
    · exact ⟨rfl, rfl, rfl⟩
  | @setRetry i =>
    refine h.frame [] rfl hnil rfl (fun j => ?_) fun j hj => hj
    rw [wdev_put]
    split_ifs with hj
    · rw [hj]
      exact ⟨rfl, rfl, rfl⟩
    · exact ⟨rfl, rfl, rfl⟩
  | timer | raised => exact h.frame [] rfl hnil rfl (fun _ => ⟨rfl, rfl, rfl⟩) fun _ hj => hj
  | configDone =>
    exact h.frame [.configDone] rfl (hone _ trivial) rfl (fun _ => ⟨rfl, rfl, rfl⟩) fun _ hj => hj
  | @renew i data hl hname hrule =>
    refine h.put _ [] rfl rfl (by simp) (fun _ hj => hj) rfl (hlt hl) ⟨fun hh => ?_, fun hd => ?_⟩
    · simpa [Wdev.renew] using (h.stopping i).halted hh
    · exact absurd hd hrule
  | configInit i =>
    refine h.frame (dropOthers (s.wdev i)) rfl (fun e he => ?_) rfl (fun j => ?_) fun _ hj => hj
    · obtain ⟨e', -, rfl⟩ := mem_map.mp he
      trivial
    · simp only [wdevConfigInit, wdev_put]
      split_ifs with hj
      · rw [hj]
        exact ⟨rfl, rfl, rfl⟩
      · exact ⟨rfl, rfl, rfl⟩
  | setData i =>
    unfold wdevSetData
    dsimp only
    split
    · exact h
    · rename_i key _ _ _
      refine h.frame (((s.wdev i).handlerData.get? key).toList.map .dropped) rfl
        (fun e he => ?_) rfl
        (fun j => ?_) fun _ hj => hj
      · obtain ⟨e', -, rfl⟩ := mem_map.mp he
        trivial
      · simp only [wdev_put]
        split_ifs with hj
        · rw [hj]
          exact ⟨rfl, rfl, rfl⟩
        · exact ⟨rfl, rfl, rfl⟩
  | report _ _ hreport =>
    refine h.frame _ rfl (fun e he => ?_) rfl (fun _ => ⟨rfl, rfl, rfl⟩) fun _ hj => hj
    obtain ⟨hd, -, hof⟩ := hreport e he
    exact hof.other
  | @create w hnone hdata hstate hauto hdelete hfailed hhandler =>
    have hback : ∀ j, (created s.next w s).Listed j → j = s.next ∨ s.Listed j := by
      rintro j ⟨name, hname⟩
      have hname : (s.devices.set w.name s.next).get? name = some j := hname
      rw [Dict.get?_set] at hname
      split_ifs at hname
      · exact .inl (Option.some.inj hname).symm
      · exact .inr ⟨name, hname⟩
    refine ⟨fun j => ?_, fun j hj => h.fresh j (Nat.le_of_succ_le hj)⟩
    by_cases hj : j = s.next
    · have hnever := h.fresh j hj.ge
      exact .of_not_halted fun hh => by simp [Halted, created, hnever] at hh
    · have hw : (created s.next w s).wdev j = s.wdev j := wdev_put_ne _ _ _ hj
      exact (h.stopping j).frame rfl (by rw [hw]) (by rw [hw]) (by rw [hw]; exact id)
        (by rw [hw]; exact id) fun hl => (hback j hl).resolve_left hj
  | @want i hl hrule =>
    refine h.put _ [.request i .start] rfl rfl (hrequest i _) (fun _ hj => hj) rfl (hlt hl) ?_
    exact .of_not_halted (by simp [Halted])
  | @halt i r delete hl hrule hwish hstate hdown =>
    refine h.put _ [.request i r] rfl rfl (hrequest i _) (fun _ hj => hj) rfl (hlt hl) ?_
    constructor
    · intro _
      simpa [halted] using hstate
    · intro hdestroy
      obtain rfl : r = .destroy := by simpa [halted] using hdestroy
      cases hwish
      exact .inr ⟨by simp [halted], by simpa [halted] using hdown rfl⟩
  | @haltUp i r delete hl hrule hwish hstate time =>
    refine h.put _ [.request i r] rfl rfl (hrequest i _) (fun _ hj => hj) rfl (hlt hl) ?_
    constructor
    · intro _
      simp [halted, enqueue, Wdev.toTeardown]
    · intro hdestroy
      obtain rfl : r = .destroy := by simpa [halted, enqueue] using hdestroy
      cases hwish
      exact .inr (by simp [halted, enqueue, Wdev.toTeardown])
  | @remove i hl hrule hstate =>
    obtain ⟨hback, -⟩ := Queued.get?_del_listed (hq.get?_of_listed hl)
    rw [hq.named]
    refine h.put { s.wdev i with autostart := false, delete := true }
      ((s.wdev i).sections.map .dropped ++ [.request i .destroy]) rfl
      (by simp [State.logs, deleteWdev, halted]) (fun e he => ?_) (fun j hj => ?_) rfl (hlt hl)
      ⟨fun _ => ?_, fun _ => .inl ?_⟩
    · rcases mem_append.mp he with he | he
      · obtain ⟨e', -, rfl⟩ := mem_map.mp he
        exact .inl trivial
      · exact .inr ⟨_, mem_singleton.mp he⟩
    · obtain ⟨name, hname⟩ := hj
      exact ⟨name, hback name j hname⟩
    · simp [deleteWdev, halted, State.logs, hstate]
    · rintro ⟨name, hname⟩
      exact not_listed_del hq name hname
  | @setup i hstate hauto hfailed time =>
    have hl : s.Listed i := hstate.elim And.right fun hs => hlisted (by simp [hs.1])
    refine h.put _ [] rfl rfl (by simp) (fun _ hj => hj) rfl (hlt hl) ?_
    exact .of_not_halted ((h.stopping i).not_halted hauto)
  | @teardown i hstate time =>
    have hl : s.Listed i := hlisted (by rcases hstate with hs | hs <;> simp [hs])
    refine h.put _ [] rfl rfl (by simp) (fun _ hj => hj) rfl (hlt hl) ?_
    exact (h.stopping i).toTeardown rfl (by simp [enqueue, Wdev.toTeardown, wdevProcReset])
      (by simp [enqueue, Wdev.toTeardown, wdevProcReset])
      (by simp [enqueue, Wdev.toTeardown]) id
  | @markUp i u hl hstate hrule hlinks hraised =>
    obtain ⟨-, hdevices, -⟩ := hlinks.same
    obtain ⟨es, hlog, hother⟩ := hlinks.other
    refine h.reported _ [.markUp i ((s.cur.filter (·.wdev = i)).map (·.serial))] hlinks rfl rfl
      (hone _ trivial) (fun j hj => Listed.of_devices hj hdevices) rfl (hlt hl)
      (.of_not_halted ?_)
    have hlast : ∀ running, lastRequest i (.markUp i running :: u.log) = lastRequest i s.log := by
      intro running
      rw [hlog]
      have hmark : (Entry.markUp i running).Other := trivial
      exact lastRequest_append (forall_mem_cons.mpr ⟨hmark, hother⟩) i
    have hrule : ¬ Halted i s := hrule
    simpa only [Halted, log_note, log_put, hlast] using hrule
  | @begin name slot hcur hslot =>
    refine h.frame [.started s.serial slot.op slot.wdev] rfl (hone _ trivial) rfl (fun j => ?_)
      fun _ hj => hj
    have hsame := take_same name slot s j
    exact ⟨hsame.autostart, hsame.delete, hsame.state⟩
  | idle hended => exact h.ended hended
  | @failed c t hended hop hstate time =>
    have ht := h.ended hended
    have hqt := hq.ended hended
    have hl : t.Listed c.wdev := ⟨_, hqt.listed _ (by simp [hstate])⟩
    refine ht.put _ [.failure c.wdev c.serial] rfl rfl (by simp [Entry.Other]) (fun _ hj => hj) rfl
      (hqt.table _ _ (hqt.get?_of_listed hl)).2 ?_
    refine (ht.stopping c.wdev).toTeardown ?_ ?_ ?_ ?_ id
    · exact lastRequest_append (hone (.failure c.wdev c.serial) trivial) c.wdev
    · simp [enqueue, (countFailure_flags _).1]
    · simp [enqueue, (countFailure_flags _).2]
    · simp [enqueue, Wdev.toTeardown]
  | @down c t u hended hop hlinks hraised hkeep =>
    have ht := h.ended hended
    have hqt := hq.ended hended
    have hstate := hq.torn_ended hended hop
    have hl : t.Listed c.wdev := ⟨_, hqt.listed _ (by simp [hstate])⟩
    obtain ⟨-, hdevices, -⟩ := hlinks.same
    obtain ⟨es, hlog, hother⟩ := hlinks.other
    have hlast : lastRequest c.wdev u.log = lastRequest c.wdev t.log := by
      rw [hlog]
      exact lastRequest_append hother _
    refine ht.reported _ [] hlinks rfl rfl hnil (fun j hj => Listed.of_devices hj hdevices) rfl
      (hqt.table _ _ (hqt.get?_of_listed hl)).2 ⟨fun hh => ?_, fun hd => ?_⟩
    · simp only [Halted, log_put, hlast] at hh
      have hold := (ht.stopping c.wdev).halted hh
      simpa [Wdev.toDown] using hold.1
    · simp only [log_put, hlast] at hd
      rcases (ht.stopping c.wdev).gone hd with hgone | ⟨hdelete, -⟩
      · exact absurd hl hgone
      · rw [hkeep] at hdelete
        cases hdelete
  | @deleted c t u hended hop hlinks hraised hdelete =>
    have ht := h.ended hended
    have hqt := hq.ended hended
    have hstate := hq.torn_ended hended hop
    have hl : t.Listed c.wdev := ⟨_, hqt.listed _ (by simp [hstate])⟩
    obtain ⟨hback, -⟩ := Queued.get?_del_listed (hqt.get?_of_listed hl)
    obtain ⟨-, hdevices, -⟩ := hlinks.same
    obtain ⟨es, hlog, hother⟩ := hlinks.other
    have hlast : lastRequest c.wdev u.log = lastRequest c.wdev t.log := by
      rw [hlog]
      exact lastRequest_append hother _
    have hdel : (deleteWdev (t.wdev c.wdev).data.name
        (u.put c.wdev (t.wdev c.wdev).toDown)).devices = t.devices.del (t.wdev c.wdev).name := by
      rw [hqt.named]
      exact congrArg (fun d => Dict.del d _) hdevices
    refine ht.reported _ [] hlinks rfl rfl hnil (fun j hj => ?_) rfl
      (hqt.table _ _ (hqt.get?_of_listed hl)).2 ⟨fun hh => ?_, fun _ => .inl ?_⟩
    · obtain ⟨name, hname⟩ := hj
      exact ⟨name, hback name j (hdel ▸ hname)⟩
    · have hh : Halted c.wdev t := by
        simpa only [Halted, deleteWdev, log_put, hlast] using hh
      simpa [deleteWdev, Wdev.toDown] using ((ht.stopping c.wdev).halted hh).1
    · rintro ⟨name, hname⟩
      rw [hdel] at hname
      exact not_listed_del hqt name hname
  | @restart c t u hended hop hlinks hraised hkeep hauto hfailed time =>
    have ht := h.ended hended
    have hqt := hq.ended hended
    have hstate := hq.torn_ended hended hop
    have hl : t.Listed c.wdev := ⟨_, hqt.listed _ (by simp [hstate])⟩
    obtain ⟨-, hdevices, -⟩ := hlinks.same
    obtain ⟨es, hlog, hother⟩ := hlinks.other
    have hlast : lastRequest c.wdev u.log = lastRequest c.wdev t.log := by
      rw [hlog]
      exact lastRequest_append hother _
    refine ht.reported _ [] hlinks rfl rfl hnil (fun j hj => Listed.of_devices hj hdevices) rfl
      (hqt.table _ _ (hqt.get?_of_listed hl)).2 (.of_not_halted ?_)
    have hnot := (ht.stopping c.wdev).not_halted hauto
    simpa only [Halted, enqueue, log_put, hlast] using hnot
  | @thrown c t u hended hop hcalm hlinks hraised =>
    obtain ⟨es, hlog, hother⟩ := hlinks.other
    obtain ⟨hwdev, hdevices, hnext, -⟩ := hlinks.same
    exact (h.ended hended).frame es hlog hother hnext
      (fun j => by rw [hwdev]; exact ⟨rfl, rfl, rfl⟩) fun j hj => Listed.of_devices hj hdevices

/-! ## Runs -/

/-- A device without a script is down if it was asked to stop last. -/
def StopHonoured (s : State) : Prop :=
  ∀ i, (∀ op, ¬ HasScript s op i) →
    (lastRequest i s.log = some .stop → (s.wdev i).state = .down) ∧
    (lastRequest i s.log = some .destroy → (s.wdev i).state = .down ∧ ¬ s.Listed i)

/-- A device that is set up and was asked to stop is not reported up. One that was asked to be
destroyed is not given new data. -/
def Heeded (e : Event) (s : State) : Prop :=
  Named e ∧
  match e with
  | .call name (.notify req) => req.MarksUp → ∀ i, s.devices.get? name = some i →
      (s.wdev i).state = .setup → ¬ Halted i s
  | .call name (.update (some data)) => ∀ i, s.devices.get? name = some i →
      data ≠ (s.wdev i).data → lastRequest i s.log ≠ some .destroy
  | _ => True

theorem allows_heeded {env : Env} {e : Event} (h : Heeded e s) :
    Allows Rules.heeded env e { s with raised := false } := by
  obtain ⟨hnamed, hheeded⟩ := h
  cases e with
  | call name m =>
    intro i hi
    cases m with
    | notify req =>
      exact ⟨fun hmarks hstate => hheeded hmarks i hi hstate, fun _ => trivial,
        fun h1 h2 h3 h4 => h4 (hnamed h1 h2 h3)⟩
    | check => exact fun _ _ => trivial
    | update data =>
      refine fun hne => ⟨fun hsome => ?_, fun _ => trivial⟩
      cases data with
      | none => exact absurd rfl hsome
      | some data => exact hheeded i hi fun heq => hne (congrArg some heq)
    | _ => trivial
  | _ => trivial

theorem stopped_init : Stopped .init :=
  ⟨fun _ => .of_not_halted (by simp [Halted, State.init]), fun _ _ => rfl⟩

/-- What was asked to stop is down in the end, in each run that heeds it. -/
theorem stop_honoured {s : State} (h : Reachable (fun _ e s => Heeded e s) s) : StopHonoured s := by
  obtain ⟨hlive, ⟨-, hqueued⟩, hstopped⟩ := h.kept kept_stopped
    ⟨⟨clean_init, queued_init⟩, stopped_init⟩ (fun _ => trivial)
    fun env e s _ he => allows_heeded he
  intro i hnone
  have hdown : Halted i s → (s.wdev i).state = .down := by
    intro hh
    cases hstate : (s.wdev i).state with
    | down => rfl
    | up => exact absurd hstate ((hstopped.stopping i).halted hh).2
    | setup => exact absurd (hlive.hasScript (hqueued.setup i (by simp) hstate)) (hnone _)
    | teardown => exact absurd (hlive.hasScript (hqueued.teardown i (by simp) hstate)) (hnone _)
  refine ⟨fun hstop => hdown (.inl hstop), fun hdestroy => ⟨hdown (.inr hdestroy), ?_⟩⟩
  rcases (hstopped.stopping i).gone hdestroy with hgone | ⟨-, hstate⟩
  · exact hgone
  · exact absurd (hdown (.inr hdestroy)) hstate

def notifyUp : Notify :=
  { command := .up, interface := none, vlan := none, ifname := none, proc := none, retry := none }

def ignoredEvents : List Event :=
  [.create { name := "radio0", config := "", vif := [] }, .call "radio0" .start,
    .call "radio0" .stop, .call "radio0" (.notify notifyUp), .exit (script .setup 0)]

theorem stop_honoured_fails : ¬ ∀ s, Reachable (fun _ _ _ => True) s → StopHonoured s := by
  intro h
  have hrun : StopHonoured (State.init.run ignoredEvents) := h _ (reachable_run ignoredEvents)
  have hlast : lastRequest 0 (State.init.run ignoredEvents).log = some .stop := by decide
  have hstate : ((State.init.run ignoredEvents).wdev 0).state = .up := by decide
  have hrunning : (State.init.run ignoredEvents).running = [] := by decide
  have hentries : (State.init.run ignoredEvents).handler.entries = [] := by decide
  have hnone : ∀ op, ¬ HasScript (State.init.run ignoredEvents) op 0 :=
    fun op => not_hasScript hrunning hentries op 0
  have hdown := (hrun 0 hnone).1 hlast
  rw [hstate] at hdown
  cases hdown

/-- It is stopped while its setup script runs; the script ends without a report, and the device
is torn down. -/
def stoppedEvents : List Event :=
  [.create { name := "radio0", config := "", vif := [] }, .call "radio0" .start,
    .call "radio0" .stop, .exit (script .setup 0), .exit (script .teardown 1)]

theorem stop_honoured_stopped :
    (∀ op, ¬ HasScript (State.init.run stoppedEvents) op 0) ∧
      lastRequest 0 (State.init.run stoppedEvents).log = some .stop ∧
      StopHonoured (State.init.run stoppedEvents) := by
  refine ⟨fun op => not_hasScript (by decide) (by decide) op 0, by decide, ?_⟩
  have h0 : Reachable (fun _ e s => Heeded e s) .init := .init
  have h2 := (h0.step plain (.create { name := "radio0", config := "", vif := [] })
    ⟨trivial, trivial⟩).step plain (.call "radio0" .start) ⟨trivial, trivial⟩
  have h3 := h2.step plain (.call "radio0" .stop) ⟨trivial, trivial⟩
  exact stop_honoured ((h3.step plain (.exit (script .setup 0)) ⟨trivial, trivial⟩).step plain
    (.exit (script .teardown 1)) ⟨trivial, trivial⟩)

end LibWrt.Wireless
