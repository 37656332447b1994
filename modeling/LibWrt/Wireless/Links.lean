/-
LibWrt.Wireless.Links — what was reported up is held, or was reported down.

`handle_link` keeps no record: an interface is reported up each time its device
is marked up, and down by each teardown, also after a setup that failed. What is
kept is that a teardown reports down all that it drops. So an interface that was
reported up last is still in the handler data of a device, unless its entry was
dropped without a report since: by `wdev_config_init`, by a message that sets
other data in its place, or by a `destroy` of a device that is down. These three
note what they drop in the log. A report counts for the name of the entry that
it is of; what hotplug reports of the stations of an interface, which have no
entry, is left out.
-/
import LibWrt.Wireless.Scripts

namespace LibWrt.Wireless

open List State

/-- The network is one of those of the entry. -/
def HandlerData.In (hd : HandlerData) (net : String) : Prop :=
  ∃ config, hd.config = some config ∧ net ∈ config.network

instance (hd : HandlerData) (net : String) : Decidable (hd.In net) :=
  match h : hd.config with
  | none => isFalse fun hin => by
      obtain ⟨config, hconfig, -⟩ := hin
      rw [h] at hconfig
      cases hconfig
  | some config => decidable_of_iff (net ∈ config.network) (by simp [HandlerData.In, h])

/-- What an entry of the log says of the interface of a network: it is reported, or dropped. -/
def Entry.tells (net ifname : String) : Entry → Option Bool
  | .link l => if l.name = net ∧ l.ifname = ifname ∧ l.owner = ifname then some l.up else none
  | .dropped hd => if hd.ifname = some ifname ∧ hd.In net then some false else none
  | _ => none

/-- Whether the interface is up in its network, by what was said last. -/
def lastSaid (net ifname : String) (log : List Entry) : Option Bool :=
  log.findSome? (Entry.tells net ifname)

/-- A device of the table has an entry with the interface and the network. -/
def Held (s : State) (net ifname : String) : Prop :=
  ∃ i, s.Listed i ∧ ∃ hd ∈ (s.wdev i).sections, hd.ifname = some ifname ∧ hd.In net

/-- What is up is held; an interface has a name that is not empty. -/
def Followed (s : State) : Prop :=
  ∀ net ifname, ifname ≠ "" → lastSaid net ifname s.log = some true → Held s net ifname

theorem tells_true {net ifname : String} {e : Entry} (h : e.tells net ifname = some true) :
    ∃ l, e = .link l ∧ l.name = net ∧ l.ifname = ifname ∧ l.owner = ifname ∧ l.up = true := by
  cases e with
  | link l =>
    unfold Entry.tells at h
    dsimp only at h
    split_ifs at h with hl
    exact ⟨l, rfl, hl.1, hl.2.1, hl.2.2, Option.some.inj h⟩
  | dropped hd =>
    unfold Entry.tells at h
    dsimp only at h
    split_ifs at h
    simp at h
  | _ => cases h

section Frame

variable {s t : State}

/-- What is new in the log is held, and what is held no more was reported or dropped. -/
theorem Followed.frame (h : Followed s) (es : List Entry) (hlog : t.log = es ++ s.log)
    (hup : ∀ l, Entry.link l ∈ es → l.up = true → l.ifname = l.owner →
      Held t l.name l.owner)
    (hkeep : ∀ i, s.Listed i → ∀ hd ∈ (s.wdev i).sections,
      t.Listed i ∧ hd ∈ (t.wdev i).sections ∨
      ∀ net ifname, ifname ≠ "" → hd.ifname = some ifname → hd.In net →
        ∃ e ∈ es, e.tells net ifname ≠ none) : Followed t := by
  intro net ifname hne hsaid
  rw [lastSaid, hlog, findSome?_append, Option.or_eq_some_iff] at hsaid
  rcases hsaid with hnew | ⟨hnone, hold⟩
  · obtain ⟨e, he, htells⟩ := exists_of_findSome?_eq_some hnew
    obtain ⟨l, rfl, hname, hifname, howner, hl⟩ := tells_true htells
    rw [← hname, ← howner]
    exact hup l he hl (hifname.trans howner.symm)
  · obtain ⟨i, hlisted, hd, hmem, hifname, hin⟩ := h net ifname hne hold
    rcases hkeep i hlisted hd hmem with ⟨hlisted', hmem'⟩ | hgone
    · exact ⟨i, hlisted', hd, hmem', hifname, hin⟩
    · obtain ⟨e, he, htells⟩ := hgone net ifname hne hifname hin
      exact absurd (findSome?_eq_none_iff.mp hnone e he) htells

theorem Followed.same (h : Followed s) (es : List Entry) (hlog : t.log = es ++ s.log)
    (hup : ∀ l, Entry.link l ∈ es → l.up = false)
    (hlisted : ∀ i, s.Listed i → t.Listed i)
    (hsections : ∀ i, (t.wdev i).sections = (s.wdev i).sections) : Followed t := by
  refine h.frame es hlog (fun l hl hup' => ?_) fun i hi hd hmem => .inl ⟨hlisted i hi, ?_⟩
  · rw [hup l hl] at hup'
    cases hup'
  · rwa [hsections]

variable {hd : HandlerData} {ifname : String}

theorem held_of_reportOf {i : Nat} {l : Link} (hlisted : s.Listed i)
    (hmem : hd ∈ (s.wdev i).sections) (h : ReportOf true hd (.link l)) :
    Held s l.name l.owner := by
  obtain ⟨-, hifname, config, hconfig, hnet⟩ := h
  exact ⟨i, hlisted, hd, hmem, hifname, config, hconfig, hnet⟩

theorem named_of_ifname (hne : ifname ≠ "") (h : hd.ifname = some ifname) :
    hd.named = some ifname := by
  simp [HandlerData.named, h, hne]

/-- What is covered was reported. -/
theorem Covers.tells {es : List Entry} {up : Bool} (h : Covers es up hd) {net : String}
    (hne : ifname ≠ "") (hifname : hd.ifname = some ifname) (hin : hd.In net) :
    ∃ e ∈ es, e.tells net ifname ≠ none := by
  obtain ⟨config, hconfig, hlinks⟩ := h ifname (named_of_ifname hne hifname)
  obtain ⟨config', hconfig', hnet⟩ := hin
  obtain rfl : config = config' := by rw [hconfig] at hconfig'; exact Option.some.inj hconfig'
  refine ⟨_, hlinks net hnet, ?_⟩
  simp [Entry.tells, linkOf, hifname]

theorem tells_dropped {net : String} (hifname : hd.ifname = some ifname) (hin : hd.In net) :
    (Entry.dropped hd).tells net ifname ≠ none := by
  simp [Entry.tells, hifname, hin]

/-- A teardown script has ended: the links are reported down, and all of them if none throws. -/
theorem Reported.down {l : List HandlerData} (h : Reported false l s t) :
    ∃ es, t.log = es ++ s.log ∧ (∀ l, Entry.link l ∈ es → l.up = false) ∧
      (t.raised = false → ∀ hd ∈ l, Covers es false hd) := by
  cases h with
  | all es hreport hown hcovers =>
    refine ⟨es, rfl, fun l hl => ?_, fun _ => hcovers⟩
    obtain ⟨hd, -, hup, -⟩ := hreport _ hl
    exact hup
  | some es hreport =>
    refine ⟨es, rfl, fun l hl => ?_, fun hcalm => Bool.noConfusion hcalm⟩
    obtain ⟨hd, -, hup, -⟩ := hreport _ hl
    exact hup

theorem Ended.links {c : Script} (h : Ended c s t) :
    ∃ es, t.log = es ++ s.log ∧ ∀ l, Entry.link l ∉ es := by
  cases h with
  | exit => exact ⟨[.completed c.serial], rfl, by simp⟩
  | @unstarted _ slot =>
    exact ⟨[.completed c.serial, .started s.serial slot.op slot.wdev], rfl, by simp⟩

end Frame

/-! ## The moves -/

theorem mem_ownData {w : Wdev} {hd : HandlerData} (h : hd ∈ w.sections) :
    (∃ key, (ownData w).get? key = some hd) ∨ .dropped hd ∈ dropOthers w := by
  obtain ⟨key, hkey⟩ := mem_sections.mp h
  by_cases hname : key = w.name
  · subst hname
    exact .inl ⟨w.name, by simp [ownData, hkey]⟩
  · refine .inr (mem_map.mpr ⟨⟨key, hd⟩, mem_filter.mpr ⟨?_, by simpa using hname⟩, rfl⟩)
    exact (w.handlerData.mem_entries_iff key hd).mpr hkey

theorem followed_move {R : Rules} {s t : State} {x : Set Nat} (hq : Queued x s) (h : Followed s)
    (hmove : Move R s t) : Followed t := by
  have hnil : ∀ l, Entry.link l ∈ ([] : List Entry) → l.up = false := by simp
  -- One device is changed, but for its handler data.
  have hput : ∀ {i : Nat} {w : Wdev} {t : State} (es : List Entry), t.log = es ++ s.log →
      (∀ l, Entry.link l ∉ es) → t.wdev = (s.put i w).wdev → t.devices = s.devices →
      w.handlerData = (s.wdev i).handlerData → Followed t := by
    intro i w t es hlog hlinks ht hdevices hdata
    refine h.same es hlog (fun l hl => absurd hl (hlinks l)) (fun j hj => ?_) fun j => ?_
    · rwa [Listed, hdevices]
    · rw [ht, wdev_put]
      split_ifs with hj
      · rw [Wdev.sections, hdata, hj, Wdev.sections]
      · rfl
  -- The device `c.wdev` is torn down: its entries are reported down.
  have htorn : ∀ {c : Script} {t u v : State} {w : Wdev}, Ended c s t → c.op = .teardown →
      Reported false (t.wdev c.wdev).sections t u → u.raised = false →
      v.wdev = (u.put c.wdev w).wdev → v.log = u.log →
      (∀ i, i ≠ c.wdev → s.Listed i → v.Listed i) → Followed v := by
    intro c t u v w hended hop hlinks hraised hv hlog hlisted
    obtain ⟨es, hes, hnolinks⟩ := hended.links
    obtain ⟨es', hes', hdown, hcovers⟩ := hlinks.down
    have hsections : ∀ i, (t.wdev i).sections = (s.wdev i).sections := by
      intro i
      rw [Wdev.sections, (hended.same i).handlerData, Wdev.sections]
    have hall : v.log = (es' ++ es) ++ s.log := by rw [hlog, hes', hes, append_assoc]
    refine h.frame (es' ++ es) hall ?_ fun i hi hd hmem => ?_
    · intro l hl hup
      rcases mem_append.mp hl with hl | hl
      · rw [hdown l hl] at hup
        cases hup
      · exact absurd hl (hnolinks l)
    · by_cases hic : i = c.wdev
      · subst hic
        rw [← hsections] at hmem
        refine .inr fun net ifname hne hifname hin => ?_
        obtain ⟨e, he, htells⟩ := (hcovers hraised hd hmem).tells hne hifname hin
        exact ⟨e, mem_append_left _ he, htells⟩
      · refine .inl ⟨hlisted i hic hi, ?_⟩
        rw [hv, wdev_put_ne _ _ _ hic, hlinks.same.1, hsections]
        exact hmem
  cases hmove with
  | edit hsame => exact hput [] rfl (by simp) rfl rfl hsame.handlerData
  | setRetry | renew | setup | teardown => exact hput [] rfl (by simp) rfl rfl rfl
  | timer | raised => exact h.same [] rfl hnil (fun _ => id) fun _ => rfl
  | configDone => exact h.same [.configDone] rfl (by simp) (fun _ => id) fun _ => rfl
  | want => exact hput [.request _ .start] rfl (by simp) rfl rfl rfl
  | @halt _ r | @haltUp _ r => exact hput [.request _ r] rfl (by simp) rfl rfl rfl
  | configInit i =>
    refine h.frame (dropOthers (s.wdev i)) rfl (fun l hl => ?_) fun j hj hd hmem => ?_
    · obtain ⟨e, -, he⟩ := mem_map.mp hl
      cases he
    · by_cases hji : j = i
      · subst hji
        rcases mem_ownData hmem with hkey | hdropped
        · refine .inl ⟨hj, ?_⟩
          simp only [wdevConfigInit, wdev_put_self]
          exact mem_sections.mpr hkey
        · exact .inr fun net ifname _ hifname hin => ⟨_, hdropped, tells_dropped hifname hin⟩
      · refine .inl ⟨hj, ?_⟩
        rw [show (wdevConfigInit i s).wdev j = s.wdev j from wdev_put_ne _ _ _ hji]
        exact hmem
  | setData i =>
    unfold wdevSetData
    dsimp only
    split
    · exact h
    · rename_i key type config hsection
      refine h.frame (((s.wdev i).handlerData.get? key).toList.map .dropped) rfl (fun l hl => ?_)
        fun j hj hd hmem => ?_
      · obtain ⟨e, -, he⟩ := mem_map.mp hl
        cases he
      · by_cases hji : j = i
        · subst hji
          obtain ⟨key', hkey'⟩ := mem_sections.mp hmem
          by_cases hkey : key' = key
          · refine .inr fun net ifname _ hifname hin => ⟨_, ?_, tells_dropped hifname hin⟩
            exact mem_map_of_mem (Option.mem_toList.mpr (hkey ▸ hkey'))
          · refine .inl ⟨hj, ?_⟩
            simp only [wdev_put_self]
            exact mem_sections.mpr ⟨key', by rw [Dict.get?_set_ne _ hkey, hkey']⟩
        · refine .inl ⟨hj, ?_⟩
          simp only [wdev_put_ne _ _ _ hji]
          exact hmem
  | report hlisted up hreport =>
    refine h.frame _ rfl (fun l hl hup _ => ?_) fun j hj hd hmem => .inl ⟨hj, hmem⟩
    obtain ⟨hd, hmem, hof⟩ := hreport _ hl
    have htrue : up = true := by rw [← hof.1, hup]
    exact held_of_reportOf hlisted hmem (htrue ▸ hof)
  | @create w hnone =>
    refine h.frame [] rfl (by simp) fun j hj hd hmem => .inl ⟨?_, ?_⟩
    · obtain ⟨name, hname⟩ := hj
      refine ⟨name, ?_⟩
      change (s.devices.set w.name s.next).get? name = some j
      rw [Dict.get?_set_ne, hname]
      rintro rfl
      rw [hnone] at hname
      cases hname
    · have hlt : j < s.next := (hq.table _ _ (hq.get?_of_listed hj)).2
      rw [show (created s.next w s).wdev j = s.wdev j from wdev_put_ne _ _ _ hlt.ne]
      exact hmem
  | @remove i hl hrule hstate =>
    obtain ⟨-, hothers⟩ := Queued.get?_del_listed (hq.get?_of_listed hl)
    refine h.frame ((s.wdev i).sections.map .dropped ++ [.request i .destroy])
      (by simp [State.logs, deleteWdev, halted]) (fun l hl => ?_) fun j hj hd hmem => ?_
    · rcases mem_append.mp hl with hl | hl
      · obtain ⟨e, -, he⟩ := mem_map.mp hl
        cases he
      · simp at hl
    · by_cases hji : j = i
      · subst hji
        refine .inr fun net ifname _ hifname hin => ⟨_, ?_, tells_dropped hifname hin⟩
        exact mem_append_left _ (mem_map_of_mem hmem)
      · refine .inl ⟨⟨(s.wdev j).name, ?_⟩, ?_⟩
        · change (s.devices.del (s.wdev i).data.name).get? (s.wdev j).name = some j
          rw [hq.named]
          exact hothers j hji (hq.get?_of_listed hj)
        · change hd ∈
            ((s.put i { s.wdev i with autostart := false, delete := true }).wdev j).sections
          rw [wdev_put_ne _ _ _ hji]
          exact hmem
  | @markUp i u hl hstate hrule hlinks hraised =>
    obtain ⟨hwdev, hdevices, -⟩ := hlinks.same
    have hsections : ∀ j, (((u.put i { s.wdev i with state := .up }).note
        (.markUp i ((s.cur.filter (·.wdev = i)).map (·.serial)))).wdev j).sections =
          (s.wdev j).sections := by
      intro j
      rw [wdev_note, wdev_put, hwdev]
      split_ifs with hj
      · rw [hj]
        rfl
      · rfl
    have hlisted : ∀ j, s.Listed j → u.Listed j := fun j hj => by rwa [Listed, hdevices]
    obtain ⟨es, hlog, hreport⟩ : ∃ es, u.log = es ++ s.log ∧
        ∀ e ∈ es, ∃ hd ∈ (s.wdev i).sections, ReportOf true hd e := by
      cases hlinks with
      | all es hreport | some es hreport => exact ⟨es, rfl, hreport⟩
    refine h.frame (.markUp i ((s.cur.filter (·.wdev = i)).map (·.serial)) :: es)
      (by simp [hlog]) (fun l hmem _ _ => ?_) fun j hj hd hmem => .inl ⟨hlisted j hj, ?_⟩
    · have hmem : Entry.link l ∈ es := by simpa using hmem
      obtain ⟨hd, hhd, hof⟩ := hreport _ hmem
      exact held_of_reportOf (hlisted i hl) (by rw [hsections]; exact hhd) hof
    · rw [hsections]
      exact hmem
  | @begin name slot hcur hslot =>
    refine h.same [.started s.serial slot.op slot.wdev] rfl (by simp) (fun _ => id) fun j => ?_
    change ((take name slot s).wdev j).sections = _
    rw [Wdev.sections, (take_same name slot s j).handlerData, Wdev.sections]
  | idle hended =>
    obtain ⟨es, hes, hnolinks⟩ := hended.links
    refine h.same es hes (fun l hl => absurd hl (hnolinks l)) (fun j hj => ?_) fun j => ?_
    · rwa [Listed, hended.table.1]
    · rw [Wdev.sections, (hended.same j).handlerData, Wdev.sections]
  | @failed c t hended hop hstate time =>
    obtain ⟨es, hes, hnolinks⟩ := hended.links
    refine h.same (.failure c.wdev c.serial :: es) (by simp [hes, enqueue])
      (fun l hl => absurd (by simpa using hl) (hnolinks l)) (fun j hj => ?_) fun j => ?_
    · have hdevices := hended.table.1
      obtain ⟨name, hname⟩ := hj
      exact ⟨name, by rw [← hname, ← hdevices]; rfl⟩
    · simp only [enqueue, wdev_note, wdev_put]
      split_ifs with hj
      · rw [hj, countFailure_toTeardown_sections, Wdev.sections, (hended.same _).handlerData,
          Wdev.sections]
      · rw [Wdev.sections, (hended.same j).handlerData, Wdev.sections]
  | @down c t u hended hop hlinks hraised | @restart c t u hended hop hlinks hraised =>
    have hdevices : u.devices = s.devices := hlinks.same.2.1.trans hended.table.1
    refine htorn hended hop hlinks hraised rfl rfl fun i _ hi => ?_
    obtain ⟨name, hname⟩ := hi
    exact ⟨name, by rw [← hname, ← hdevices]; rfl⟩
  | @deleted c t u hended hop hlinks hraised =>
    have hdevices : u.devices = s.devices := hlinks.same.2.1.trans hended.table.1
    have hstate : (s.wdev c.wdev).state ≠ .down := hq.busy _ _ hended.was
    obtain ⟨-, hothers⟩ := Queued.get?_del_listed (hq.listed _ hstate)
    refine htorn hended hop hlinks hraised rfl rfl fun i hic hi => ⟨(s.wdev i).name, ?_⟩
    rw [← (hended.same c.wdev).name, ← (hq.ended hended).named, ← hdevices] at hothers
    exact hothers i hic (by rw [hdevices]; exact hq.get?_of_listed hi)
  | @thrown c v _ hended _ _ hlinks =>
    obtain ⟨es, hes, hnolinks⟩ := hended.links
    obtain ⟨es', hes', hdown, -⟩ := hlinks.down
    obtain ⟨hwdev, hdevices, -⟩ := hlinks.same
    refine h.same (es' ++ es) (by rw [hes', hes, append_assoc]) (fun l hl => ?_)
      (fun j hj => ?_) fun j => ?_
    · exact (mem_append.mp hl).elim (hdown l) fun hl => absurd hl (hnolinks l)
    · rwa [Listed, hdevices, hended.table.1]
    · rw [hwdev, Wdev.sections, (hended.same j).handlerData, Wdev.sections]

/-! ## Runs -/

theorem kept_followed (R : Rules) : Kept R (fun s => (∃ x, Queued x s) ∧ Followed s) := by
  rintro s t ⟨⟨x, hq⟩, h⟩ hmove
  exact ⟨kept_stuck R s t ⟨x, hq⟩ hmove, followed_move hq h hmove⟩

/-- What the end of a teardown does: all entries that have a name are reported down, and only
then dropped; or the call throws, and they stay. -/
def TeardownReports (i : Nat) (s : State) : Prop :=
  ∀ run env,
    (∃ es, (∀ hd ∈ (s.wdev i).sections, Covers es false hd) ∧
      wdevTeardownCb run env i s =
        let t := (s.logs es).put i (s.wdev i).toDown
        if (s.wdev i).delete then deleteWdev (s.wdev i).data.name t else setup run env i t) ∨
    ∃ es, wdevTeardownCb run env i s = (s.logs es).raise

theorem teardownReports {s : State} (h : s.raised = false) (i : Nat) : TeardownReports i s := by
  intro run env
  have hlinks := reported_handleLinks (s.wdev i).sections false h
  unfold wdevTeardownCb
  generalize handleLinks (s.wdev i).sections false s = t at hlinks ⊢
  cases hlinks with
  | all es _ _ hcovers => exact .inl ⟨es, hcovers, if_neg (by simp [State.logs, h])⟩
  | some es => exact .inr ⟨es, if_pos rfl⟩

/-- In every run, an interface that is up by what was said last is held. What the end of a
teardown drops is reported down, in any state. -/
theorem links_followed {s : State} (h : Reachable (fun _ _ _ => True) s) :
    Followed s ∧ ∀ t : State, t.raised = false → ∀ i, TeardownReports i t := by
  refine ⟨?_, fun t ht i => teardownReports ht i⟩
  have hinit : Followed .init := fun net ifname _ hsaid => by cases hsaid
  have hallows : ∀ env e s, Allows Rules.all env e s := by
    intro env e s
    cases e with
    | call name m =>
      intro i hi
      cases m with
      | notify req => exact ⟨fun _ _ => trivial, fun _ => trivial, fun _ _ _ _ => trivial⟩
      | check => exact fun _ _ => trivial
      | update data => exact fun _ => ⟨fun _ => trivial, fun _ => trivial⟩
      | _ => trivial
    | _ => trivial
  exact (h.kept (kept_followed Rules.all) ⟨⟨∅, queued_init⟩, hinit⟩ (fun _ => trivial)
    fun env e s _ _ => hallows env e _).2.2

/-! ## The reports do not alternate -/

/-- The reports of an interface in its network, the oldest first. -/
def reports (net ifname : String) (log : List Entry) : List Bool :=
  log.reverse.filterMap fun e =>
    match e with
    | .link l => (Entry.link l).tells net ifname
    | _ => none

/-- They alternate, `up` first. -/
def Alternate (up : Bool) : List Bool → Prop
  | [] => True
  | report :: rest => report = up ∧ Alternate (!up) rest

/-- Reports alternate, and what was reported up last is held. -/
def LinksAlternate (s : State) : Prop :=
  ∀ net ifname, ifname ≠ "" → Alternate true (reports net ifname s.log) ∧
    ((reports net ifname s.log).getLast? = some true → Held s net ifname)

def lan : VifConfig :=
  { network := ["lan"], networkVlan := [], bridgeIsolate := false, isolate := false
    proxyArp := false, multicastToUnicast := none, mode := "ap" }

def radioLan : Data :=
  { name := "radio0", config := ""
    vif := [{ name := "wifinet0", config := lan, vlan := [], sta := [] }] }

def notifyIfname : Notify :=
  { command := .setData, interface := some "01", vlan := none, ifname := some "wlan0", proc := none
    retry := none }

def unreportedEvents : List Event :=
  [.create radioLan, .call "radio0" .start, .call "radio0" (.notify notifyIfname),
    .exit (script .setup 0), .handlerTimer, .exit (script .teardown 1)]

theorem links_alternate_fails :
    ¬ ∀ s, Reachable (fun _ _ _ => True) s → LinksAlternate s := by
  intro h
  have hrun : LinksAlternate (State.init.run unreportedEvents) :=
    h _ (reachable_run unreportedEvents)
  have hreports : reports "lan" "wlan0" (State.init.run unreportedEvents).log = [false] := by decide
  have halternate := (hrun "lan" "wlan0" (by decide)).1
  rw [hreports] at halternate
  exact Bool.noConfusion halternate.1

def reportedEvents : List Event :=
  [.create radioLan, .call "radio0" .start, .call "radio0" (.notify notifyIfname),
    .call "radio0" (.notify { command := .up, interface := none, vlan := none, ifname := none
                              proc := none, retry := none })]

/-- The interface is reported up, and is held. -/
theorem links_followed_up : Held (State.init.run reportedEvents) "lan" "wlan0" ∧
    TeardownReports 0 (State.init.run reportedEvents) :=
  have h := links_followed (reachable_run reportedEvents)
  ⟨h.1 "lan" "wlan0" (by decide) (by decide), h.2 _ (by decide) 0⟩

end LibWrt.Wireless
