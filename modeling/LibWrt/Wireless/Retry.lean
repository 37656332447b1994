/-
LibWrt.Wireless.Retry — what counts as a failed setup.

A setup script that ends while the device is in setup has failed. The script
that is run may have reported the device up before: then the device is not in
setup, unless it was set up again meanwhile. A run in which no device is set up
again while its setup script runs counts only those that were not reported up.

| Property | Theorem |
|---|---|
| a counted script was not reported up | `kept_fair` |
| nothing else takes a try away | `charged_step` |
| both, over a run | `retry_fair` |
| a script that has succeeded is counted | `retry_fair_fails` |
-/
import LibWrt.Wireless.Stop

namespace LibWrt.Wireless

open List Entry State Nat

/-- Entries that are neither failures nor reports. -/
def Entry.Fair : Entry → Prop
  | .failure .. => False
  | .markUp .. => False
  | _ => True

/-- A device is not set up again while its setup script is run. -/
def Rules.calm (retry : Option Int → Prop) : Rules :=
  { Rules.all with
    again := fun i cur => ∀ c, cur = some c → c.wdev = i → c.op ≠ .setup
    retry := retry }

/-- Setup script `n` was run for the device, and has ended. -/
def Tried (s : State) (i n : Nat) : Prop :=
  started n .setup i ∈ s.log ∧ completed n ∈ s.log

/-- A script that was counted as failed has not reported its device up, nor will it. -/
structure Fair (s : State) : Prop where
  tried : ∀ i n, failure i n ∈ s.log → Tried s i n
  begun : ∀ c, s.cur = some c → started c.serial c.op c.wdev ∈ s.log
  failures : ∀ i n, failure i n ∈ s.log → n < s.serial ∧
    (∀ c, s.cur = some c → c.serial ≠ n) ∧ ∀ j, Entry.markUp j (some n) ∉ s.log
  marks : ∀ j n, Entry.markUp j (some n) ∈ s.log → n < s.serial
  marked : ∀ c, s.cur = some c → c.op = .setup → ∀ j, Entry.markUp j (some c.serial) ∈ s.log →
    (s.wdev c.wdev).state ≠ .setup

section Fair

variable {s t : State}

theorem mem_append_fair {es log : List Entry} (h : ∀ e ∈ es, e.Fair) {e : Entry} (he : ¬ e.Fair) :
    e ∈ es ++ log ↔ e ∈ log := by
  rw [mem_append]
  exact or_iff_right fun hmem => he (h e hmem)

theorem Fair.frame (h : Fair s) (es : List Entry) (hlog : t.log = es ++ s.log)
    (hfair : ∀ e ∈ es, e.Fair) (hserial : t.serial = s.serial) (hcur : t.cur = s.cur)
    (hstate : ∀ c, s.cur = some c → ∀ i, (t.wdev i).state = .setup → (s.wdev i).state = .setup) :
    Fair t := by
  have hmem : ∀ e : Entry, ¬ e.Fair → (e ∈ t.log ↔ e ∈ s.log) := by
    intro e he
    rw [hlog]
    exact mem_append_fair hfair he
  have hmono : ∀ e ∈ s.log, e ∈ t.log := fun e he => hlog ▸ mem_append_right _ he
  constructor
  · intro i n hn
    obtain ⟨hstarted, hcompleted⟩ := h.tried i n ((hmem _ id).mp hn)
    exact ⟨hmono _ hstarted, hmono _ hcompleted⟩
  · exact fun c hc => hmono _ (h.begun c (hcur ▸ hc))
  · intro i n hn
    rw [hmem _ id] at hn
    obtain ⟨hlt, hne, hnone⟩ := h.failures i n hn
    exact ⟨hserial ▸ hlt, hcur ▸ hne, fun j hj => hnone j ((hmem _ id).mp hj)⟩
  · intro j n hn
    exact hserial ▸ h.marks j n ((hmem _ id).mp hn)
  · intro c hc hop j hj hsetup
    exact h.marked c (hcur ▸ hc) hop j ((hmem _ id).mp hj) (hstate c (hcur ▸ hc) _ hsetup)

theorem Fair.put (h : Fair s) {i : Nat} (w : Wdev) (es : List Entry)
    (ht : t.wdev = (s.put i w).wdev) (hlog : t.log = es ++ s.log) (hfair : ∀ e ∈ es, e.Fair)
    (hserial : t.serial = s.serial) (hcur : t.cur = s.cur)
    (hstate : w.state = .setup → (s.wdev i).state = .setup) : Fair t := by
  refine h.frame es hlog hfair hserial hcur fun _ _ j => ?_
  rw [ht, wdev_put]
  split_ifs with hj
  · rw [hj]
    exact hstate
  · exact id

theorem ReportOf.fair {up : Bool} {hd : HandlerData} {e : Entry} (h : ReportOf up hd e) :
    e.Fair := by
  cases e <;> trivial

theorem Reported.fair {up : Bool} {l : List HandlerData} (h : Reported up l s t) :
    ∃ es, t.log = es ++ s.log ∧ ∀ e ∈ es, e.Fair := by
  cases h with
  | all es hreport | some es hreport =>
    refine ⟨es, rfl, fun e he => ?_⟩
    obtain ⟨hd, -, hof⟩ := hreport e he
    exact hof.fair

/-- No script is run any more. -/
theorem Fair.ended {c : Script} (h : Fair s) (hended : Ended c s t) : Fair t := by
  cases hended with
  | exit hcur hrunning =>
    constructor
    · intro i n hn
      obtain ⟨hstarted, hcompleted⟩ := h.tried i n (by simpa [settled] using hn)
      exact ⟨mem_cons_of_mem _ hstarted, mem_cons_of_mem _ hcompleted⟩
    · intro d hd
      cases hd
    · intro i n hn
      obtain ⟨hlt, -, hnone⟩ := h.failures i n (by simpa [settled] using hn)
      exact ⟨hlt, by simp [settled], fun j hj => hnone j (by simpa [settled] using hj)⟩
    · intro j n hn
      exact h.marks j n (by simpa [settled] using hn)
    · intro d hd
      cases hd
  | @unstarted name slot hcur hslot hop hwdev hserial =>
    have hmem : ∀ e : Entry, ¬ e.Fair → (e ∈ (settled c (take name slot s)).log ↔ e ∈ s.log) := by
      intro e he
      have hes : ∀ e ∈ [completed c.serial, .started s.serial slot.op slot.wdev], e.Fair := by
        simp [Entry.Fair]
      exact mem_append_fair hes he
    have hmono : ∀ e ∈ s.log, e ∈ (settled c (take name slot s)).log := fun e he =>
      mem_cons_of_mem _ (mem_cons_of_mem _ he)
    constructor
    · intro i n hn
      obtain ⟨hstarted, hcompleted⟩ := h.tried i n ((hmem _ id).mp hn)
      exact ⟨hmono _ hstarted, hmono _ hcompleted⟩
    · intro d hd
      cases hd
    · intro i n hn
      obtain ⟨hlt, -, hnone⟩ := h.failures i n ((hmem _ id).mp hn)
      exact ⟨lt_succ_of_lt hlt, by simp [settled], fun j hj => hnone j ((hmem _ id).mp hj)⟩
    · intro j n hn
      exact lt_succ_of_lt (h.marks j n ((hmem _ id).mp hn))
    · intro d hd
      cases hd

/-- The script that ends was not reported up, if its device is still set up. -/
theorem Fair.unmarked {c : Script} (h : Fair s) (hcounted : Counted s) (hended : Ended c s t)
    (hop : c.op = .setup) (hstate : (t.wdev c.wdev).state = .setup) :
    c.serial < t.serial ∧ ∀ j, Entry.markUp j (some c.serial) ∉ t.log := by
  rw [(hended.same c.wdev).state] at hstate
  cases hended with
  | exit hcur =>
    refine ⟨hcounted.cur c hcur, fun j hj => ?_⟩
    exact h.marked c hcur hop j (by simpa [settled] using hj) hstate
  | @unstarted name slot hcur hslot hop' hwdev hserial =>
    refine ⟨hserial ▸ lt_succ_self _, fun j hj => ?_⟩
    have hj : Entry.markUp j (some c.serial) ∈ s.log := by
      have hlog : (settled c (take name slot s)).log =
        .completed c.serial :: .started s.serial slot.op slot.wdev :: s.log := rfl
      simpa [hlog] using hj
    exact absurd (h.marks j _ hj) (by omega)

/-- The script that ends was started. -/
theorem Fair.tried_ended {c : Script} (h : Fair s) (hended : Ended c s t) :
    started c.serial c.op c.wdev ∈ t.log ∧ completed c.serial ∈ t.log := by
  cases hended with
  | exit hcur => exact ⟨mem_cons_of_mem _ (h.begun c hcur), mem_cons_self⟩
  | @unstarted name slot hcur hslot hop hwdev hserial =>
    rw [hop, hwdev, hserial]
    exact ⟨mem_cons_of_mem _ mem_cons_self, by simp [settled, hserial]⟩

/-- A move by the calm rules counts no script that was reported up. -/
theorem fair_move {R : Rules} (hcalm : ∀ i cur, R.again i cur → ∀ c, cur = some c → c.wdev = i →
    c.op ≠ .setup) {x : Set Nat} (hq : Queued x s) (hcounted : Counted s) (h : Fair s)
    (hmove : Move R s t) : Fair t := by
  have hnil : ∀ e ∈ ([] : List Entry), e.Fair := by simp
  have hone : ∀ e : Entry, e.Fair → ∀ e' ∈ [e], e'.Fair := by simp
  have hdropped : ∀ l : List HandlerData, ∀ e ∈ l.map dropped, e.Fair := by
    intro l e he
    obtain ⟨e', -, rfl⟩ := mem_map.mp he
    trivial
  cases hmove with
  | @edit i w hsame => exact h.put w [] rfl rfl hnil rfl rfl (by rw [hsame.state]; exact id)
  | timer | raised => exact h.frame [] rfl hnil rfl rfl fun _ _ _ => id
  | configDone => exact h.frame [.configDone] rfl (hone _ trivial) rfl rfl fun _ _ _ => id
  | @setRetry i | @renew i => exact h.put _ [] rfl rfl hnil rfl rfl id
  | configInit i =>
    refine h.put _ (dropOthers (s.wdev i)) rfl rfl (fun e he => ?_) rfl rfl id
    obtain ⟨e', -, rfl⟩ := mem_map.mp he
    trivial
  | setData i =>
    unfold wdevSetData
    dsimp only
    split
    · exact h
    · exact h.put _ (map .dropped _) rfl rfl (hdropped _) rfl rfl id
  | report _ _ hreport =>
    refine h.frame _ rfl (fun e he => ?_) rfl rfl fun _ _ _ => id
    obtain ⟨hd, -, hof⟩ := hreport e he
    exact hof.fair
  | @create w _ _ hstate => exact h.put w [] rfl rfl hnil rfl rfl (by simp [hstate])
  | @want i => exact h.put _ [.request i .start] rfl rfl (hone _ trivial) rfl rfl id
  | @halt i r => exact h.put _ [.request i r] rfl rfl (hone _ trivial) rfl rfl id
  | @haltUp i r =>
    exact h.put _ [.request i r] rfl rfl (hone _ trivial) rfl rfl (by simp [Wdev.toTeardown])
  | @remove i hlisted hrule hstate =>
    refine h.put _ ((s.wdev i).sections.map .dropped ++ [.request i .destroy]) rfl
      (by simp [State.logs, deleteWdev, halted]) (fun e he => ?_) rfl rfl id
    exact (mem_append.mp he).elim (hdropped _ e) (hone (.request i .destroy) trivial e)
  | @setup i hstate hauto hfailed time =>
    have hbase : ∀ c, s.cur = some c → c.op = .setup → c.wdev ≠ i := by
      rintro c hc hop rfl
      rcases hstate with ⟨hdown, -⟩ | ⟨-, hagain⟩
      · exact hq.busy c.wdev c.op (.inr ⟨c, hc, rfl, rfl⟩) hdown
      · exact hcalm _ _ hagain c hc rfl hop
    refine ⟨h.tried, h.begun, h.failures, h.marks, fun c hc hop j hj => ?_⟩
    rw [enqueue, wdev_put_ne _ _ _ (hbase c hc hop)]
    exact h.marked c hc hop j hj
  | @teardown i => exact h.put _ [] rfl rfl hnil rfl rfl (by simp [Wdev.toTeardown])
  | @markUp i u hlisted hstate hrule hlinks hraised =>
    obtain ⟨es, hlog, hfair⟩ := hlinks.fair
    obtain ⟨hwdev, -, -, -, hcur⟩ := hlinks.same
    have hserial := hlinks.serial
    have hu : Fair u := h.frame es hlog hfair hserial hcur (by rw [hwdev]; exact fun _ _ _ => id)
    -- The script that is reported is the current one, which was not counted.
    have hmark : ∀ j n, Entry.markUp j (some n) ∈
        .markUp i ((s.cur.filter (·.wdev = i)).map (·.serial)) :: u.log →
        (∃ c, u.cur = some c ∧ c.wdev = i ∧ c.serial = n) ∨ Entry.markUp j (some n) ∈ u.log := by
      intro j n hj
      rcases mem_cons.mp hj with hj | hj
      · left
        simp only [Entry.markUp.injEq] at hj
        obtain ⟨c, hc, hn⟩ := Option.map_eq_some_iff.mp hj.2.symm
        obtain ⟨hc, hwdev⟩ := Option.filter_eq_some_iff.mp hc
        exact ⟨c, by rw [hcur, hc], by simpa using hwdev, hn⟩
      · exact .inr hj
    constructor
    · intro k n hn
      obtain ⟨hstarted, hcompleted⟩ := hu.tried k n (by simpa using hn)
      exact ⟨mem_cons_of_mem _ hstarted, mem_cons_of_mem _ hcompleted⟩
    · exact fun c hc => mem_cons_of_mem _ (hu.begun c hc)
    · intro k n hn
      obtain ⟨hlt, hne, hnone⟩ := hu.failures k n (by simpa using hn)
      refine ⟨hlt, hne, fun j hj => ?_⟩
      rcases hmark j n hj with ⟨c, hc, -, hn⟩ | hj
      · exact hne c hc hn
      · exact hnone j hj
    · intro j n hj
      rcases hmark j n hj with ⟨c, hc, -, rfl⟩ | hj
      · change c.serial < u.serial
        rw [hserial]
        exact hcounted.cur c (hcur ▸ hc)
      · exact hu.marks j n hj
    · intro c hc hop j hj
      have hc : u.cur = some c := hc
      rw [wdev_note, wdev_put]
      split_ifs with hi
      · simp
      · rcases hmark j _ hj with ⟨d, hd, hdi, -⟩ | hj
        · rw [hc, Option.some.injEq] at hd
          exact absurd (hd ▸ hdi) hi
        · exact hu.marked c hc hop j hj
  | @begin name slot hcur hslot =>
    have hlog : (spawn ⟨slot.op, slot.wdev, s.serial⟩ (take name slot s)).log =
      .started s.serial slot.op slot.wdev :: s.log := rfl
    have hcur' : (spawn ⟨slot.op, slot.wdev, s.serial⟩ (take name slot s)).cur =
      some ⟨slot.op, slot.wdev, s.serial⟩ := rfl
    constructor
    · intro i n hn
      obtain ⟨hstarted, hcompleted⟩ := h.tried i n (by simpa [hlog] using hn)
      exact ⟨mem_cons_of_mem _ hstarted, mem_cons_of_mem _ hcompleted⟩
    · intro c hc
      obtain rfl := Option.some.inj (hcur'.symm.trans hc)
      exact mem_cons_self
    · intro i n hn
      obtain ⟨hlt, -, hnone⟩ := h.failures i n (by simpa [hlog] using hn)
      refine ⟨lt_succ_of_lt hlt, fun c hc => ?_, fun j hj => ?_⟩
      · obtain rfl := Option.some.inj (hcur'.symm.trans hc)
        exact hlt.ne'
      · exact hnone j (by simpa [hlog] using hj)
    · intro j n hj
      exact lt_succ_of_lt (h.marks j n (by simpa [hlog] using hj))
    · intro c hc hop j hj
      obtain rfl := Option.some.inj (hcur'.symm.trans hc)
      exact absurd (h.marks j s.serial (by simpa [hlog] using hj)) (lt_irrefl _)
  | idle hended => exact h.ended hended
  | @failed c t hended hop hstate time =>
    have ht := h.ended hended
    obtain ⟨hlt, hnone⟩ := h.unmarked hcounted hended hop hstate
    have htcur : t.cur = none := hended.table.2.2
    have hlog : (((t.put c.wdev (t.wdev c.wdev).countFailure.toTeardown).note
      (.failure c.wdev c.serial)).enqueue c.wdev .teardown time).log =
        .failure c.wdev c.serial :: t.log := rfl
    have hcur : (((t.put c.wdev (t.wdev c.wdev).countFailure.toTeardown).note
      (.failure c.wdev c.serial)).enqueue c.wdev .teardown time).cur = none := htcur
    obtain ⟨hstarted, hcompleted⟩ := h.tried_ended hended
    rw [hop] at hstarted
    constructor
    · intro i n hn
      rw [hlog] at hn
      rcases mem_cons.mp hn with hn | hn
      · cases hn
        exact ⟨mem_cons_of_mem _ hstarted, mem_cons_of_mem _ hcompleted⟩
      · obtain ⟨hstarted, hcompleted⟩ := ht.tried i n hn
        exact ⟨mem_cons_of_mem _ hstarted, mem_cons_of_mem _ hcompleted⟩
    · intro d hd
      rw [hcur] at hd
      cases hd
    · intro i n hn
      rw [hlog] at hn
      rw [hlog, hcur]
      rcases mem_cons.mp hn with hn | hn
      · cases hn
        exact ⟨hlt, by simp, fun j hj => hnone j (by simpa using hj)⟩
      · obtain ⟨hlt, -, hno⟩ := ht.failures i n hn
        exact ⟨hlt, by simp, fun j hj => hno j (by simpa using hj)⟩
    · intro j n hj
      exact ht.marks j n (by simpa [hlog] using hj)
    · intro d hd
      rw [hcur] at hd
      cases hd
  | down hended hop hlinks | deleted hended hop hlinks | restart hended hop hlinks
  | thrown hended hop hcalm hlinks =>
    obtain ⟨es, hlog, hfair⟩ := hlinks.fair
    have hserial := hlinks.serial
    have hcur := hlinks.same.2.2.2.2
    refine (h.ended hended).frame es hlog hfair hserial hcur fun c hc => ?_
    rw [hended.table.2.2] at hc
    cases hc

end Fair

/-! ## What takes a try away -/

/-- Without a new failure no try is taken away; the counter may be assigned. -/
structure Spent (P : Option Int → Prop) (s t : State) : Prop where
  next : s.next ≤ t.next
  log : ∀ e ∈ s.log, e ∈ t.log
  charge : ∀ i < s.next, (∀ n, failure i n ∈ t.log → failure i n ∈ s.log) →
    ((t.wdev i).retrySetupFailed = true → (s.wdev i).retrySetupFailed = true) ∧
    ((t.wdev i).retry = (s.wdev i).retry ∨ P (t.wdev i).retry)

section Spent

variable {P : Option Int → Prop} {s t u : State}

theorem Spent.refl (P : Option Int → Prop) (s : State) : Spent P s s :=
  ⟨le_rfl, fun _ he => he, fun _ _ _ => ⟨id, .inl rfl⟩⟩

theorem Spent.trans (h : Spent P s t) (h' : Spent P t u) : Spent P s u := by
  refine ⟨h.next.trans h'.next, fun e he => h'.log e (h.log e he), fun i hi hnone => ?_⟩
  obtain ⟨hfailed, hretry⟩ := h.charge i hi fun n hn => hnone n (h'.log _ hn)
  obtain ⟨hfailed', hretry'⟩ := h'.charge i (hi.trans_le h.next) fun n hn => h.log _ (hnone n hn)
  refine ⟨fun hu => hfailed (hfailed' hu), ?_⟩
  rcases hretry' with hsame | hp
  · rw [hsame]
    exact hretry
  · exact .inr hp

theorem Spent.frame (es : List Entry) (hlog : t.log = es ++ s.log) (hnext : s.next ≤ t.next)
    (hfailed : ∀ i < s.next, (t.wdev i).retrySetupFailed = true →
      (s.wdev i).retrySetupFailed = true)
    (hretry : ∀ i < s.next, (t.wdev i).retry = (s.wdev i).retry ∨ P (t.wdev i).retry) :
    Spent P s t :=
  ⟨hnext, fun e he => by rw [hlog]; exact mem_append_right _ he,
    fun i hi _ => ⟨hfailed i hi, hretry i hi⟩⟩

theorem Spent.put {i : Nat} (w : Wdev) (es : List Entry) (ht : t.wdev = (s.put i w).wdev)
    (hlog : t.log = es ++ s.log) (hnext : s.next ≤ t.next)
    (hfailed : w.retrySetupFailed = true → (s.wdev i).retrySetupFailed = true)
    (hretry : w.retry = (s.wdev i).retry ∨ P w.retry) : Spent P s t := by
  refine .frame es hlog hnext (fun j _ => ?_) fun j _ => ?_ <;> rw [ht, wdev_put] <;>
    split_ifs with hj
  · rw [hj]
    exact hfailed
  · exact id
  · rw [hj]
    exact hretry
  · exact .inl rfl

theorem Same.spent {w w' : Wdev} (h : w.Same w') (hP : P (some 3)) :
    w'.retry = w.retry ∨ P w'.retry := by
  rcases h.retry with heq | heq
  · exact .inl heq
  · rw [heq]
    exact .inr hP

theorem Ended.log {c : Script} (h : Ended c s t) : ∃ es, t.log = es ++ s.log := by
  obtain ⟨es, hlog, -⟩ := h.other_log
  exact ⟨es, hlog⟩

theorem Spent.ended {c : Script} (hended : Ended c s t) (hP : P (some 3)) : Spent P s t := by
  obtain ⟨es, hlog⟩ := hended.log
  exact .frame es hlog hended.table.2.1.ge (fun i _ => (hended.same i).failed)
    fun i _ => Same.spent (hended.same i) hP

theorem Spent.reported {up : Bool} {l : List HandlerData} {i : Nat} (w : Wdev) (es : List Entry)
    (hlinks : Reported up l s u) (ht : t.wdev = (u.put i w).wdev) (hlog : t.log = es ++ u.log)
    (hnext : t.next = u.next)
    (hfailed : w.retrySetupFailed = true → (s.wdev i).retrySetupFailed = true)
    (hretry : w.retry = (s.wdev i).retry ∨ P w.retry) : Spent P s t := by
  obtain ⟨es', hlog', -⟩ := hlinks.other
  obtain ⟨hwdev, -, hnext', -⟩ := hlinks.same
  refine .put w (es ++ es') (by rw [ht, wdev_put_congr _ _ _ hwdev]) ?_
    (hnext.trans hnext').ge hfailed hretry
  rw [hlog, hlog', append_assoc]

/-- Only a setup that has failed takes a try away. -/
theorem spent_move {R : Rules} (hP : R.retry (some 3)) (h : Fair s) (hmove : Move R s t) :
    Spent R.retry s t := by
  cases hmove with
  | @edit i w hsame => exact .put w [] rfl rfl le_rfl hsame.failed (Same.spent hsame hP)
  | @setRetry i retry hrule => exact .put _ [] rfl rfl le_rfl id (.inr hrule)
  | timer | raised => exact .frame [] rfl le_rfl (fun _ _ => id) fun _ _ => .inl rfl
  | configDone => exact .frame [.configDone] rfl le_rfl (fun _ _ => id) fun _ _ => .inl rfl
  | @renew i => exact .put _ [] rfl rfl le_rfl (by simp [Wdev.renew]) (.inl rfl)
  | configInit i => exact .put _ (dropOthers (s.wdev i)) rfl rfl le_rfl id (.inl rfl)
  | setData i =>
    unfold wdevSetData
    dsimp only
    split
    · exact .refl _ _
    · exact .put _ (map .dropped _) rfl rfl le_rfl id (.inl rfl)
  | report _ _ hreport => exact .frame _ rfl le_rfl (fun _ _ => id) fun _ _ => .inl rfl
  | @create w =>
    have hw : ∀ i < s.next, (created s.next w s).wdev i = s.wdev i :=
      fun i hi => wdev_put_ne _ _ _ hi.ne
    exact .frame [] rfl (le_succ _) (fun i hi => by rw [hw i hi]; exact id)
      fun i hi => .inl (by rw [hw i hi])
  | @want i => exact .put _ [.request i .start] rfl rfl le_rfl id (.inl rfl)
  | @halt i r | @haltUp i r => exact .put _ [.request i r] rfl rfl le_rfl id (.inl rfl)
  | @remove i =>
    exact .put _ ((s.wdev i).sections.map .dropped ++ [.request i .destroy]) rfl
      (by simp [State.logs, deleteWdev, halted]) le_rfl id (.inl rfl)
  | @setup i | @teardown i => exact .put _ [] rfl rfl le_rfl id (.inl rfl)
  | @markUp i u _ _ _ hlinks =>
    exact .reported _ [.markUp i ((s.cur.filter (·.wdev = i)).map (·.serial))] hlinks rfl rfl rfl
      id (.inl rfl)
  | @begin name slot =>
    have hsame := take_same name slot s
    exact .frame [.started s.serial slot.op slot.wdev] rfl le_rfl (fun i _ => (hsame i).failed)
      fun i _ => Same.spent (hsame i) hP
  | idle hended => exact .ended hended hP
  | @failed c t hended hop hstate time =>
    have ht : Spent R.retry s t := .ended hended hP
    have hnew : failure c.wdev c.serial ∉ s.log := by
      intro hmem
      obtain ⟨hlt, hne, -⟩ := h.failures _ _ hmem
      cases hended with
      | exit hcur => exact hne c hcur rfl
      | unstarted _ _ _ _ hserial => omega
    refine ⟨ht.next, fun e he => mem_cons_of_mem _ (ht.log e he), fun i hi hnone => ?_⟩
    have hi' : i ≠ c.wdev := by
      rintro rfl
      exact hnew (hnone _ mem_cons_self)
    have hw : (((t.put c.wdev (t.wdev c.wdev).countFailure.toTeardown).note
        (.failure c.wdev c.serial)).enqueue c.wdev .teardown time).wdev i = t.wdev i :=
      wdev_put_ne t _ _ hi'
    rw [hw]
    exact ht.charge i hi fun n hn => hnone n (mem_cons_of_mem _ hn)
  | @down c t u hended _ hlinks | @deleted c t u hended _ hlinks
  | @restart c t u hended _ hlinks =>
    exact Spent.trans (.ended hended hP) (.reported _ [] hlinks rfl rfl rfl id (.inl rfl))
  | @thrown c u _ hended _ _ hlinks =>
    obtain ⟨es, hlog, -⟩ := hlinks.other
    obtain ⟨hwdev, -, hnext, -⟩ := hlinks.same
    refine Spent.trans (.ended hended hP) (.frame es hlog hnext.ge ?_ ?_)
    · rw [hwdev]
      exact fun _ _ => id
    · rw [hwdev]
      exact fun _ _ => .inl rfl

end Spent

/-! ## Runs -/

/-- The device is up while its setup script is still run. -/
def UpEarly (s : State) (i : Nat) : Prop :=
  (s.wdev i).state = .up ∧ ∃ c, s.cur = some c ∧ c.wdev = i ∧ c.op = .setup

/-- No device is reconfigured that is up while its setup script is still run. A device that is
stopped as well would not be set up again; it is left out too. -/
def Calm (env : Env) (e : Event) (s : State) : Prop :=
  match e with
  | .call name .check => ∀ i, s.devices.get? name = some i → UpEarly s i →
      (wdevUpdateDisabledVifs env (s.wdev i)).configChange = false
  | .call name (.update data) => ∀ i, s.devices.get? name = some i → UpEarly s i →
      data = some (s.wdev i).data
  | _ => True

/-- The retry counter is set to its default, or to what a script says. -/
def Assigned (e : Event) (retry : Option Int) : Prop :=
  retry = some 3 ∨ ∃ name req, e = .call name (.notify req) ∧ req.command = .setRetry ∧
    retry = some (req.retry.getD 3)

/-- Only completed setup scripts that never reported the device up are failures. -/
def FailuresFair (s : State) : Prop :=
  ∀ i n, failure i n ∈ s.log → Tried s i n ∧ ∀ j, Entry.markUp j (some n) ∉ s.log

/-- A step without a failure of the device takes no try away. -/
def Charged (e : Event) (s t : State) : Prop :=
  ∀ i < s.next, (∀ n, failure i n ∈ t.log → failure i n ∈ s.log) →
    ((t.wdev i).retrySetupFailed = true → (s.wdev i).retrySetupFailed = true) ∧
    ((t.wdev i).retry = (s.wdev i).retry ∨ Assigned e (t.wdev i).retry)

theorem allows_calm {env : Env} {e : Event} {s : State} {retry : Option Int → Prop}
    (h : Calm env e s) (hretry : ∀ name req, e = .call name (.notify req) →
      req.command = .setRetry → retry (some (req.retry.getD 3))) :
    Allows (Rules.calm retry) env e { s with raised := false } := by
  cases e with
  | call name m =>
    intro i hi
    cases m with
    | notify req => exact ⟨fun _ _ => trivial, hretry name req rfl, fun _ _ _ _ => trivial⟩
    | check =>
      intro hup hchange c hc hwdev hop
      have hno := h i hi ⟨hup, c, hc, hwdev, hop⟩
      rw [hno] at hchange
      cases hchange
    | update data =>
      intro hne
      refine ⟨fun _ => trivial, fun hup c hc hwdev hop => hne ?_⟩
      exact h i hi ⟨hup, c, hc, hwdev, hop⟩
    | _ => trivial
  | _ => trivial

theorem fair_init : Fair .init :=
  ⟨by simp [State.init], by simp [State.init], by simp [State.init], by simp [State.init],
    by simp [State.init]⟩

theorem kept_fair (retry : Option Int → Prop) : Kept (Rules.calm retry)
    (fun s => (∃ x, Queued x s) ∧ Counted s ∧ Fair s) := by
  rintro s t ⟨⟨x, hq⟩, hcounted, h⟩ hmove
  exact ⟨kept_stuck _ s t ⟨x, hq⟩ hmove, kept_counted _ s t hcounted hmove,
    fair_move (fun _ _ => id) hq hcounted h hmove⟩

/-- What a step takes away of the tries, where the rules are calm. -/
theorem charged_step {env : Env} {e : Event} {s : State} (hlive : Live s)
    (h : (∃ x, Queued x s) ∧ Counted s ∧ Fair s) (hcalm : Calm env e s) :
    Charged e s (step env e s) := by
  have hmoves : Moves (Rules.calm (Assigned e)) s (step env e s) :=
    moves_step (by simp [Rules.calm]) hlive
      (allows_calm hcalm fun name req he hcommand => .inr ⟨name, req, he, hcommand, rfl⟩)
  have hkept : Kept (Rules.calm (Assigned e)) (fun t =>
      ((∃ x, Queued x t) ∧ Counted t ∧ Fair t) ∧ Spent (Assigned e) s t) := fun t u ht hmove =>
    ⟨kept_fair _ t u ht.1 hmove, ht.2.trans (spent_move (Or.inl rfl) ht.1.2.2 hmove)⟩
  exact (hkept.moves ⟨h, .refl _ _⟩ hmoves).2.charge

/-- In a calm run a setup that reported success is never treated as a failure. -/
theorem retry_fair {s : State} (h : Reachable Calm s) :
    FailuresFair s ∧ ∀ env e, Calm env e s → Charged e s (step env e s) := by
  obtain ⟨hlive, hinv⟩ := h.kept (kept_fair fun _ => True)
    ⟨⟨∅, queued_init⟩, counted_init, fair_init⟩ (by simp [Rules.calm])
    fun env e s _ he => allows_calm he fun _ _ _ _ => trivial
  obtain ⟨-, -, hfair⟩ := id hinv
  exact ⟨fun i n hn => ⟨hfair.tried i n hn, (hfair.failures i n hn).2.2⟩,
    fun env e hcalm => charged_step hlive hinv hcalm⟩

/-- The device is reconfigured after its setup script has reported it up; then the script ends. -/
def confusedEvents : List Event :=
  [.create { name := "radio0", config := "", vif := [] }, .call "radio0" .start,
    .call "radio0" (.notify notifyUp), .call "radio0" (.update none), .exit (script .setup 0)]

theorem retry_fair_fails : ¬ ∀ s, Reachable (fun _ _ _ => True) s → FailuresFair s := by
  intro h
  have hfair : FailuresFair (State.init.run confusedEvents) := h _ (reachable_run confusedEvents)
  have hfailure : failure 0 0 ∈ (State.init.run confusedEvents).log := by decide
  have hmark : Entry.markUp 0 (some 0) ∈ (State.init.run confusedEvents).log := by decide
  exact (hfair 0 0 hfailure).2 0 hmark

/-- A device whose setup script fails. -/
theorem retry_fair_failed :
    let s := step plain (.call "radio0" .start)
      (step plain (.create { name := "radio0", config := "", vif := [] }) .init)
    FailuresFair s ∧ Charged (.exit (script .setup 0)) s (step plain (.exit (script .setup 0)) s) :=
  have h : Reachable Calm (step plain (.call "radio0" .start)
      (step plain (.create { name := "radio0", config := "", vif := [] }) .init)) :=
    .step (.step .init plain _ trivial) plain _ trivial
  ⟨(retry_fair h).1, (retry_fair h).2 plain _ trivial⟩

end LibWrt.Wireless
