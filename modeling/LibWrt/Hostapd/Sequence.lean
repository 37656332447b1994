/-
LibWrt.Hostapd.Sequence — a sequence adds what is set for its phy.

A sequence that waits for an answer is the one in the table, so that there is at
most one for a phy. A restart aborts it. A configuration without a BSS, or for a
phy that cannot be opened, does not: the sequence goes on, and adds what was set
before. In a run without these, what a sequence adds is what is set.
-/
import LibWrt.Hostapd.Core
import Mathlib.Tactic

namespace LibWrt.Hostapd

open Function List Option State

namespace State

variable (s : State) (i : Nat) (p : Pending) (e : Entry)

@[simp] theorem pending_put_self : (s.put i p).pending i = p := by simp [put]

theorem pending_put_ne {j : Nat} (h : j ≠ i) : (s.put i p).pending j = s.pending j := by
  simp [put, h]

@[simp] theorem config_put : (s.put i p).config = s.config := rfl
@[simp] theorem pendingConfig_put : (s.put i p).pendingConfig = s.pendingConfig := rfl
@[simp] theorem next_put : (s.put i p).next = s.next := rfl
@[simp] theorem log_put : (s.put i p).log = s.log := rfl

@[simp] theorem config_note : (s.note e).config = s.config := rfl
@[simp] theorem pendingConfig_note : (s.note e).pendingConfig = s.pendingConfig := rfl
@[simp] theorem pending_note : (s.note e).pending = s.pending := rfl
@[simp] theorem next_note : (s.note e).next = s.next := rfl
@[simp] theorem log_note : (s.note e).log = e :: s.log := rfl

end State

/-! ## The loop -/

section Loop

variable {env : Env} {i : Nat} {data : Option String} {s t u : State}

structure Ran (i : Nat) (s t : State) : Prop where
  config : t.config = s.config
  next : t.next = s.next
  others : ∀ j, j ≠ i → t.pending j = s.pending j
  phydev : (t.pending i).phydev = (s.pending i).phydev
  own : (t.pending i).config = (s.pending i).config
  log : ∃ es, t.log = es ++ s.log ∧ ∀ phy config current, .addIface phy config current ∈ es →
    phy = (s.pending i).phydev.name ∧ config = (s.pending i).config ∧ current = s.config phy

/-- The sequence leaves the table, or waits and stays. -/
structure Waits (i : Nat) (s t : State) : Prop where
  table : t.pendingConfig = s.pendingConfig ∨ (t.pending i).defer = false ∧
    t.pendingConfig = update s.pendingConfig (s.pending i).phydev.name none

theorem Ran.trans (h : Ran i s t) (h' : Ran i t u) : Ran i s u := by
  obtain ⟨es, hes, hadd⟩ := h.log
  obtain ⟨es', hes', hadd'⟩ := h'.log
  refine ⟨h'.config.trans h.config, h'.next.trans h.next, fun j hj => ?_, h'.phydev.trans h.phydev,
    h'.own.trans h.own, es' ++ es, by rw [hes', hes, append_assoc], ?_⟩
  · rw [h'.others j hj, h.others j hj]
  · intro phy config current hmem
    rcases mem_append.mp hmem with hmem | hmem
    · have hnew := hadd' phy config current hmem
      rwa [h.phydev, h.own, h.config] at hnew
    · exact hadd phy config current hmem

theorem Ran.put {p : Pending} (hphydev : p.phydev = (s.pending i).phydev)
    (hconfig : p.config = (s.pending i).config) : Ran i s (s.put i p) :=
  ⟨rfl, rfl, fun _ hj => s.pending_put_ne i p hj, by simpa using hphydev, by simpa using hconfig,
    [], rfl, by simp⟩

theorem Ran.note {e : Entry} (he : ∀ phy config current, e = .addIface phy config current →
    phy = (s.pending i).phydev.name ∧ config = (s.pending i).config ∧ current = s.config phy) :
    Ran i s (s.note e) :=
  ⟨rfl, rfl, fun _ _ => rfl, rfl, rfl, [e], rfl, fun phy config current hmem =>
    he phy config current (mem_singleton.mp hmem).symm⟩

theorem Ran.refl : Ran i s s := ⟨rfl, rfl, fun _ _ => rfl, rfl, rfl, [], rfl, by simp⟩

theorem ran_pendingCall (request : Request) : Ran i s (pendingCall env i request s) := by
  have hput : Ran i s (s.put i { s.pending i with defer := env.defer request }) := .put rfl rfl
  exact hput.trans (.note (by simp))

theorem ran_ifaceAdd (env : Env) (i : Nat) (s : State) (status : Bool) :
    Ran i s (ifaceAdd env (s.pending i).phydev.name (s.pending i).config status s).2 := by
  refine .note fun phy config current h => ?_
  obtain ⟨rfl, rfl, rfl⟩ := Entry.addIface.inj h
  exact ⟨rfl, rfl, rfl⟩

theorem ran_pendingStep (state : Option PendingState) :
    Ran i s (pendingStep env i state data s).2 := by
  have hput : Ran i s (s.put i { s.pending i with defer := false }) := .put rfl rfl
  have hcall : ∀ {u : State} (request : Request), Ran i s u →
      Ran i s (pendingCall env i request u) := fun request hu => hu.trans (ran_pendingCall request)
  have hnote : ∀ {u : State} {e : Entry}, (∀ phy config current, e ≠ .addIface phy config current) →
      Ran i s u → Ran i s (u.note e) := fun he hu =>
    hu.trans (.note fun phy config current h => absurd h (he phy config current))
  have hadd : ∀ status, Ran i s (ifaceAdd env (s.pending i).phydev.name (s.pending i).config status
      (s.put i { s.pending i with defer := false })).2 := by
    intro status
    have hran := ran_ifaceAdd env i (s.put i { s.pending i with defer := false }) status
    rw [State.pending_put_self] at hran
    exact hput.trans hran
  cases state with
  | none => exact ⟨rfl, rfl, hput.others, hput.phydev, hput.own, [], rfl, by simp⟩
  | some state =>
    cases state with
    | init => exact hnote (by simp) hput
    | createBss =>
      simp only [pendingStep]
      split
      · exact hput
      · rename_i bss rest _
        cases bss.mldAp with
        | true => exact hcall _ hput
        | false =>
          have hwdev := hnote (e := .wdevAdd bss.ifname) (by simp) hput
          cases env.wdevAdd with
          | true => exact hcall _ hwdev
          | false => exact hwdev
    | checkPhy =>
      simp only [pendingStep]
      split_ifs
      · exact hadd true
      · exact hadd true
      · exact hcall _ (hadd true)
      · exact hcall _ hput
    | wpasStopped =>
      simp only [pendingStep]
      split_ifs
      · exact hadd false
      · exact hcall _ (hadd false)
    | done => exact ⟨rfl, rfl, hput.others, hput.phydev, hput.own, [], rfl, by simp⟩

theorem ran_of_eq {state : Option PendingState} {outcome : Outcome}
    (h : pendingStep env i state data s = (outcome, t)) : Ran i s t := by
  have hran : Ran i s (pendingStep env i state data s).2 := ran_pendingStep state
  rwa [h] at hran

theorem pendingStep_table {state : Option PendingState} {outcome : Outcome}
    (h : pendingStep env i state data s = (outcome, t)) (hne : outcome ≠ .none) :
    t.pendingConfig = s.pendingConfig := by
  have ht : t = (pendingStep env i state data s).2 := by rw [h]
  have houtcome : outcome = (pendingStep env i state data s).1 := by rw [h]
  rw [ht]
  rw [houtcome] at hne
  cases state with
  | none => exact absurd rfl hne
  | some state =>
    cases state with
    | init => rfl
    | createBss =>
      simp only [pendingStep]
      split
      · rfl
      · split_ifs <;> rfl
    | checkPhy =>
      simp only [pendingStep]
      split_ifs <;> rfl
    | wpasStopped =>
      simp only [pendingStep]
      split_ifs <;> rfl
    | done => exact absurd rfl hne

/-- A sequence that ends leaves the table at most. -/
theorem pendingStep_left {state : Option PendingState} {outcome : Outcome}
    (h : pendingStep env i state data s = (outcome, t)) :
    t.pendingConfig = s.pendingConfig ∨
      t.pendingConfig = update s.pendingConfig (s.pending i).phydev.name none := by
  by_cases hnone : outcome = .none
  · have ht : t = (pendingStep env i state data s).2 := by rw [h]
    rw [ht]
    cases state with
    | none => exact .inr rfl
    | some state =>
      cases state with
      | init => exact .inl rfl
      | createBss =>
        simp only [pendingStep]
        split
        · exact .inl rfl
        · split_ifs <;> exact .inl rfl
      | checkPhy =>
        simp only [pendingStep]
        split_ifs <;> exact .inl rfl
      | wpasStopped =>
        simp only [pendingStep]
        split_ifs <;> exact .inl rfl
      | done => exact .inr rfl
  · exact .inl (pendingStep_table h hnone)

theorem pendingLoop_spec (env : Env) (i : Nat) (data : Option String) {s : State} (n : Nat) :
    Ran i s (pendingLoop env i data n s) ∧ Waits i s (pendingLoop env i data n s) := by
  induction n generalizing s with
  | zero => exact ⟨.refl, ⟨.inl rfl⟩⟩
  | succ n ih =>
    rw [pendingLoop]
    split
    · rename_i t heq
      have hran := ran_of_eq heq
      exact ⟨hran, ⟨.inl (pendingStep_table heq (by simp))⟩⟩
    · rename_i t heq
      have hran := ran_of_eq heq
      have hput : Ran i s (t.put i { t.pending i with nextState := none }) :=
        hran.trans (.put rfl rfl)
      refine ⟨hput.trans (ran_pendingStep _), ⟨.inr ⟨by simp [pendingStep], ?_⟩⟩⟩
      have htable : (pendingStep env i (some .done) none
          (t.put i { t.pending i with nextState := none })).2.pendingConfig =
          update t.pendingConfig (s.pending i).phydev.name none := by
        simp [pendingStep, hran.phydev]
      rw [htable]
      rcases pendingStep_left heq with hsame | hleft
      · rw [hsame]
      · rw [hleft, update_idem]
    · rename_i state t heq
      have hran := ran_of_eq heq
      have hsame := pendingStep_table heq (by simp)
      have hput : Ran i s (t.put i { t.pending i with nextState := some state }) :=
        hran.trans (.put rfl rfl)
      dsimp only
      split_ifs with hdefer
      · exact ⟨hput, ⟨.inl hsame⟩⟩
      · obtain ⟨hrest, hwaits⟩ := ih (s := t.put i { t.pending i with nextState := some state })
        refine ⟨hput.trans hrest, ⟨?_⟩⟩
        have htable := hwaits.table
        rw [State.pendingConfig_put, hsame, State.pending_put_self, hran.phydev] at htable
        exact htable

theorem ifacePendingAbort_eq : ifacePendingAbort env i s =
    { s.put i { s.pending i with nextState := none, defer := false } with
      pendingConfig := update s.pendingConfig (s.pending i).phydev.name none } := by
  simp [ifacePendingAbort, ifacePendingNext, pendingLoop, pendingStep, State.put]

end Loop

/-! ## The table -/

/-- What waits for an answer is in the table, and is the last one of its phy. -/
structure Tabled (s : State) : Prop where
  fresh : ∀ i, s.next ≤ i → (s.pending i).defer = false
  live : ∀ i, (s.pending i).defer = true → s.pendingConfig (s.pending i).phydev.name = some i
  table : ∀ name i, s.pendingConfig name = some i →
    (s.pending i).phydev.name = name ∧ i < s.next
  keyed : ∀ name c, s.config name = some c → phyName c.phy c.radioIdx = name

/-- The entry is not that of an interface which is added. -/
def Entry.Plain (e : Entry) : Prop := ∀ phy config current, e ≠ .addIface phy config current

def Matches (s : State) (name : String) (config : Config) : Prop :=
  ∃ c, s.config name = some c ∧ c.radio = config.radio ∧ c.bss = config.bss ∧
    config.bss ≠ [] ∧ c.origBss ≠ none

/-- What is added is what is set, and so is what will be. -/
structure Current (s : State) : Prop where
  pending : ∀ name i, s.pendingConfig name = some i → Matches s name (s.pending i).config
  timely : ∀ phy config current, .addIface phy config current ∈ s.log →
    ∃ c, current = some c ∧ c.radio = config.radio ∧ c.bss = config.bss ∧ config.bss ≠ []

section Table

variable {env : Env} {s t u : State} {i : Nat}

theorem Tabled.ran (h : Tabled s) (hi : s.pendingConfig (s.pending i).phydev.name = some i)
    (hran : Ran i s t) (hwaits : Waits i s t) : Tabled t := by
  have hback : ∀ name j, t.pendingConfig name = some j → s.pendingConfig name = some j := by
    intro name j hj
    rcases hwaits.table with hsame | ⟨-, hleft⟩
    · rwa [hsame] at hj
    · rw [hleft, update_apply] at hj
      split_ifs at hj
      exact hj
  have hphydev : ∀ j, (t.pending j).phydev = (s.pending j).phydev := by
    intro j
    by_cases hj : j = i
    · rw [hj, hran.phydev]
    · rw [hran.others j hj]
  constructor
  · intro j hj
    rw [hran.next] at hj
    have hne : j ≠ i := by
      have := (h.table _ i hi).2
      omega
    rw [hran.others j hne]
    exact h.fresh j hj
  · intro j hdefer
    rw [hphydev]
    by_cases hj : j = i
    · subst hj
      rcases hwaits.table with hsame | ⟨hdone, -⟩
      · rw [hsame, hi]
      · rw [hdone] at hdefer
        cases hdefer
    · rw [hran.others j hj] at hdefer
      have hlive := h.live j hdefer
      rcases hwaits.table with hsame | ⟨-, hleft⟩
      · rw [hsame, hlive]
      · rw [hleft, update_of_ne, hlive]
        intro hname
        rw [hname, hi, some.injEq] at hlive
        exact hj hlive.symm
  · intro name j hj
    rw [hphydev, hran.next]
    exact h.table name j (hback name j hj)
  · rw [hran.config]
    exact h.keyed

theorem Current.ran (h : Current s) (hi : s.pendingConfig (s.pending i).phydev.name = some i)
    (hran : Ran i s t) (hwaits : Waits i s t) : Current t := by
  constructor
  · intro name j hj
    have hold : s.pendingConfig name = some j := by
      rcases hwaits.table with hsame | ⟨-, hleft⟩
      · rwa [hsame] at hj
      · rw [hleft, update_apply] at hj
        split_ifs at hj
        exact hj
    have hown : (t.pending j).config = (s.pending j).config := by
      by_cases hji : j = i
      · rw [hji, hran.own]
      · rw [hran.others j hji]
    rw [Matches, hran.config, hown]
    exact h.pending name j hold
  · intro phy config current hmem
    obtain ⟨es, hes, hadd⟩ := hran.log
    rw [hes] at hmem
    rcases mem_append.mp hmem with hmem | hmem
    · obtain ⟨rfl, rfl, rfl⟩ := hadd phy config current hmem
      obtain ⟨c, hc, hradio, hbss, hne, -⟩ := h.pending _ i hi
      exact ⟨c, hc, hradio, hbss, hne⟩
    · exact h.timely phy config current hmem

/-- Only the configurations are changed. -/
theorem Tabled.frame (h : Tabled s) (hpending : t.pending = s.pending)
    (htable : t.pendingConfig = s.pendingConfig) (hnext : t.next = s.next)
    (hkeyed : ∀ name c, t.config name = some c → phyName c.phy c.radioIdx = name) : Tabled t := by
  constructor
  · rw [hpending, hnext]
    exact h.fresh
  · rw [hpending, htable]
    exact h.live
  · rw [hpending, htable, hnext]
    exact h.table
  · exact hkeyed

/-- Only what concerns one phy is changed. -/
theorem Current.frame (h : Current s) (name : String)
    (hconfig : ∀ n, n ≠ name → t.config n = s.config n)
    (htable : ∀ n j, n ≠ name → t.pendingConfig n = some j →
      s.pendingConfig n = some j ∧ (t.pending j).config = (s.pending j).config)
    (hname : ∀ j, t.pendingConfig name = some j → Matches t name (t.pending j).config)
    (hlog : ∃ es, t.log = es ++ s.log ∧ ∀ e ∈ es, e.Plain) : Current t := by
  constructor
  · intro n j hj
    by_cases hn : n = name
    · subst hn
      exact hname j hj
    · obtain ⟨hold, hown⟩ := htable n j hn hj
      rw [Matches, hconfig n hn, hown]
      exact h.pending n j hold
  · intro phy config current hmem
    obtain ⟨es, hes, hplain⟩ := hlog
    rw [hes] at hmem
    rcases mem_append.mp hmem with hmem | hmem
    · exact absurd rfl (hplain _ hmem phy config current)
    · exact h.timely phy config current hmem

end Table

/-! ## Requests -/

structure Cleared (name : String) (s t : State) : Prop where
  config : t.config = s.config
  next : t.next = s.next
  table : t.pendingConfig = update s.pendingConfig name none
  own : ∀ j, (t.pending j).phydev = (s.pending j).phydev ∧
    (t.pending j).config = (s.pending j).config
  defer : ∀ j, (t.pending j).defer = true →
    (s.pending j).defer = true ∧ s.pendingConfig name ≠ some j
  log : ∃ es, t.log = es ++ s.log ∧ ∀ e ∈ es, e.Plain

section Requests

variable {env : Env} {s t : State}

theorem ifaceRemove_log (config : Option Config) (s : State) :
    ∃ es, ifaceRemove config s = { s with log := es ++ s.log } ∧ ∀ e ∈ es, e.Plain := by
  have hfold : ∀ (l : List Bss) (s : State), ∃ es,
      l.foldl (fun s bss => s.note (.wdevRemove bss.ifname)) s =
        { s with log := es ++ s.log } ∧ ∀ e ∈ es, e.Plain := by
    intro l
    induction l with
    | nil => exact fun s => ⟨[], rfl, by simp⟩
    | cons bss l ih =>
      intro s
      obtain ⟨es, hes, hplain⟩ := ih (s.note (.wdevRemove bss.ifname))
      refine ⟨es ++ [.wdevRemove bss.ifname], ?_, fun e he => ?_⟩
      · rw [foldl_cons, hes]
        simp [State.note]
      · rcases mem_append.mp he with he | he
        · exact hplain e he
        · rw [mem_singleton.mp he]
          simp [Entry.Plain]
  cases config with
  | none => exact ⟨[], rfl, by simp⟩
  | some config =>
    unfold ifaceRemove
    dsimp only
    split_ifs
    · exact ⟨[], rfl, by simp⟩
    · exact hfold _ s

/-- The part of `iface_restart` before the new sequence. -/
def cleared (env : Env) (phydev : Phydev) (config : Config) (oldConfig : Option Config)
    (s : State) : State :=
  let s := match s.pendingConfig phydev.name with
    | none => s
    | some i => ifacePendingAbort env i s
  ifaceRemove (some config) (ifaceRemove oldConfig (s.note (.removeIface phydev.name)))

theorem ifaceRestart_eq {phydev : Phydev} {config : Config} {oldConfig : Option Config}
    (hne : config.bss ≠ []) : ifaceRestart env phydev config oldConfig s =
      ifacePendingInit env phydev config (cleared env phydev config oldConfig s) := by
  unfold ifaceRestart cleared
  exact if_neg hne

theorem cleared_spec (env : Env) (h : Tabled s) (phydev : Phydev) (config : Config)
    (oldConfig : Option Config) :
    Cleared phydev.name s (cleared env phydev config oldConfig s) := by
  have habort : Cleared phydev.name s (match s.pendingConfig phydev.name with
      | none => s
      | some i => ifacePendingAbort env i s) := by
    split
    · rename_i hnone
      refine ⟨rfl, rfl, ?_, fun _ => ⟨rfl, rfl⟩, fun j hj => ⟨hj, by simp [hnone]⟩, [], rfl,
        by simp⟩
      rw [← hnone, update_eq_self]
    · rename_i i hi
      rw [ifacePendingAbort_eq, (h.table _ i hi).1]
      refine ⟨rfl, rfl, rfl, fun j => ?_, fun j hj => ?_, [], rfl, by simp⟩
      · by_cases hji : j = i
        · subst hji
          simp
        · have hput := s.pending_put_ne i { s.pending i with nextState := none, defer := false } hji
          exact ⟨congrArg Pending.phydev hput, congrArg Pending.config hput⟩
      · by_cases hji : j = i
        · subst hji
          simp at hj
        · simp only [State.pending_put_ne _ _ _ hji] at hj
          exact ⟨hj, by simpa [hi] using Ne.symm hji⟩
  unfold cleared
  dsimp only
  generalize (match s.pendingConfig phydev.name with
    | none => s
    | some i => ifacePendingAbort env i s) = u at habort ⊢
  obtain ⟨es, hes, hplain⟩ := ifaceRemove_log oldConfig (u.note (.removeIface phydev.name))
  obtain ⟨es', hes', hplain'⟩ := ifaceRemove_log (some config)
    (ifaceRemove oldConfig (u.note (.removeIface phydev.name)))
  rw [hes', hes]
  obtain ⟨es'', hlog, hplain''⟩ := habort.log
  refine ⟨habort.config, habort.next, habort.table, habort.own, habort.defer,
    es' ++ (es ++ .removeIface phydev.name :: es''), by simp [hlog], fun e he => ?_⟩
  simp only [mem_append, mem_cons] at he
  rcases he with he | he | rfl | he
  · exact hplain' e he
  · exact hplain e he
  · simp [Entry.Plain]
  · exact hplain'' e he

def begun (phydev : Phydev) (config : Config) (s : State) : State :=
  { s.put s.next
      { nextState := some .init, phydev := phydev, config := config, defer := false } with
    next := s.next + 1
    pendingConfig := update s.pendingConfig phydev.name (some s.next) }

theorem begun_pending (phydev : Phydev) (config : Config) (s : State) :
    (begun phydev config s).pending s.next =
      { nextState := some .init, phydev := phydev, config := config, defer := false } :=
  s.pending_put_self _ _

theorem begun_pending_ne (phydev : Phydev) (config : Config) (s : State) {j : Nat}
    (hj : j ≠ s.next) : (begun phydev config s).pending j = s.pending j :=
  s.pending_put_ne _ _ hj

theorem tabled_begun {phydev : Phydev} {config : Config} {u : State} (h : Tabled s)
    (hclear : Cleared phydev.name s u) : Tabled (begun phydev config u) := by
  have hown := hclear.own
  constructor
  · intro j hj
    have hlt : s.next < j := by
      rw [← hclear.next]
      exact hj
    rw [begun_pending_ne _ _ _ (by rw [hclear.next]; omega)]
    by_contra hdefer
    have hold := hclear.defer j (by simpa using hdefer)
    rw [h.fresh j hlt.le] at hold
    simp at hold
  · intro j hdefer
    by_cases hj : j = u.next
    · rw [hj, begun_pending] at hdefer
      cases hdefer
    · rw [begun_pending_ne _ _ _ hj] at hdefer ⊢
      obtain ⟨hold, hne⟩ := hclear.defer j hdefer
      have hlive := h.live j hold
      rw [(hown j).1]
      have hname : (s.pending j).phydev.name ≠ phydev.name := by
        intro hname
        rw [hname] at hlive
        exact hne hlive
      change update u.pendingConfig phydev.name (some u.next) _ = some j
      rw [update_of_ne hname, hclear.table, update_of_ne hname]
      exact hlive
  · intro name j hj
    change update u.pendingConfig phydev.name (some u.next) name = some j at hj
    change _ ∧ j < u.next + 1
    rw [update_apply] at hj
    split_ifs at hj with hname
    · rw [← some.inj hj, begun_pending]
      exact ⟨hname.symm, Nat.lt_succ_self _⟩
    · rw [hclear.table, update_of_ne hname] at hj
      obtain ⟨hphydev, hlt⟩ := h.table name j hj
      rw [begun_pending_ne _ _ _ (by rw [hclear.next]; omega), (hown j).1]
      exact ⟨hphydev, by rw [hclear.next]; omega⟩
  · intro name c hc
    have hc : u.config name = some c := hc
    rw [hclear.config] at hc
    exact h.keyed name c hc

theorem begun_table (phydev : Phydev) (config : Config) (s : State) :
    (begun phydev config s).pendingConfig
      ((begun phydev config s).pending s.next).phydev.name = some s.next := by
  rw [begun_pending]
  simp [begun]

/-- A restart begins a sequence. -/
theorem ifaceRestart_ran (env : Env) (s : State) (phydev : Phydev) {config : Config}
    (oldConfig : Option Config) (hne : config.bss ≠ []) :
    Ran (cleared env phydev config oldConfig s).next
        (begun phydev config (cleared env phydev config oldConfig s))
        (ifaceRestart env phydev config oldConfig s) ∧
      Waits (cleared env phydev config oldConfig s).next
        (begun phydev config (cleared env phydev config oldConfig s))
        (ifaceRestart env phydev config oldConfig s) := by
  rw [ifaceRestart_eq hne]
  exact pendingLoop_spec env _ none 5

theorem tabled_restart {phydev : Phydev} {config : Config} {oldConfig : Option Config}
    (h : Tabled s) (hne : config.bss ≠ []) :
    Tabled (ifaceRestart env phydev config oldConfig s) := by
  obtain ⟨hran, hwaits⟩ := ifaceRestart_ran env s phydev oldConfig hne
  exact (tabled_begun h (cleared_spec env h phydev config oldConfig)).ran (begun_table _ _ _) hran
    hwaits

/-- What is restarted is what was set in `t`, whatever was pending for the phy. -/
theorem current_restart {phydev : Phydev} {config : Config} {oldConfig : Option Config}
    (hs : Current s) (h : Tabled t) (hconfig : ∀ n, n ≠ phydev.name → t.config n = s.config n)
    (hpending : t.pending = s.pending) (htable : t.pendingConfig = s.pendingConfig)
    (hlog : ∃ es, t.log = es ++ s.log ∧ ∀ e ∈ es, e.Plain)
    (hset : t.config phydev.name = some config) (hne : config.bss ≠ [])
    (horig : config.origBss ≠ none) : Current (ifaceRestart env phydev config oldConfig t) := by
  obtain ⟨hran, hwaits⟩ := ifaceRestart_ran env t phydev oldConfig hne
  have hclear := cleared_spec env h phydev config oldConfig
  refine Current.ran ?_ (begun_table _ _ _) hran hwaits
  generalize cleared env phydev config oldConfig t = u at hclear
  refine hs.frame phydev.name (fun n hn => ?_) (fun n j hn hj => ?_) (fun j hj => ?_) ?_
  · change u.config n = _
    rw [hclear.config, hconfig n hn]
  · change update u.pendingConfig phydev.name (some u.next) n = some j at hj
    rw [update_of_ne hn, hclear.table, update_of_ne hn] at hj
    have hlt := (h.table n j hj).2
    rw [begun_pending_ne _ _ _ (by rw [hclear.next]; omega), (hclear.own j).2, ← htable, hpending]
    exact ⟨hj, rfl⟩
  · change update u.pendingConfig phydev.name (some u.next) phydev.name = some j at hj
    rw [update_self, some.injEq] at hj
    rw [← hj, begun_pending]
    refine ⟨config, ?_, rfl, rfl, hne, horig⟩
    change u.config phydev.name = _
    rw [hclear.config, hset]
  · obtain ⟨es, hes, hplain⟩ := hlog
    obtain ⟨es', hes', hplain'⟩ := hclear.log
    refine ⟨es' ++ es, ?_, fun e he => (mem_append.mp he).elim (hplain' e) (hplain e)⟩
    change u.log = _
    rw [hes', hes, append_assoc]

/-! ### Setting a configuration -/

theorem keyed_setConfig (h : Tabled s) {name : String} {config : Config}
    (hname : phyName config.phy config.radioIdx = name) :
    ∀ n c, (s.setConfig name config).config n = some c → phyName c.phy c.radioIdx = n := by
  intro n c hc
  simp only [setConfig, update_apply] at hc
  split_ifs at hc with hn
  · rw [← some.inj hc, hname, hn]
  · exact h.keyed n c hc

theorem tabled_ifaceSetConfig (h : Tabled s) {name : String} {config : Config}
    (hname : phyName config.phy config.radioIdx = name) :
    Tabled (ifaceSetConfig env name config s) := by
  have hset : Tabled ((s.setConfig name config).note (.set name config)) :=
    h.frame rfl rfl rfl (keyed_setConfig h hname)
  have hchecked : Tabled (((s.setConfig name config).note (.set name config)).setConfig name
      (ifaceCheckMld env config)) := hset.frame rfl rfl rfl (keyed_setConfig hset hname)
  unfold ifaceSetConfig
  dsimp only
  split_ifs with hopen hbss hreload
  · exact hset
  · unfold ifaceConfigRemove
    obtain ⟨es, hes, -⟩ := ifaceRemove_log (s.config name)
      ((((s.setConfig name config).note (.set name config)).setConfig name
        (ifaceCheckMld env config)).note (.removeIface name))
    rw [hes]
    exact hchecked.frame rfl rfl rfl hchecked.keyed
  · exact hchecked.frame rfl rfl rfl hchecked.keyed
  · exact tabled_restart hchecked hbss

/-- While a sequence of the phy is there, the phy can be opened, and there is a BSS. -/
def Settled (env : Env) (name : String) (config : Config) (s : State) : Prop :=
  s.pendingConfig name ≠ none → env.phyOpen = true ∧ (ifaceCheckMld env config).bss ≠ []

/-- A sequence that goes on is for what was set before, and that is equal. -/
theorem reloaded {name : String} {config : Config} {oldConfig : Option Config}
    (h : ifaceReloadConfig env name config oldConfig s = some true) {j : Nat}
    (hj : s.pendingConfig name = some j) :
    ∃ c, oldConfig = some c ∧ c.radio = config.radio ∧ c.bss = config.bss := by
  unfold ifaceReloadConfig at h
  split at h
  · simp at h
  · rename_i c
    split_ifs at h with hradio hsame hpending
    · simp at h
    · exact ⟨c, rfl, not_not.mp hradio, hsame.1⟩
    · simp at h
    · simp [hj] at hpending
    · simp [hj] at hpending

theorem current_ifaceSetConfig (h : Tabled s) (hc : Current s) {name : String} {config : Config}
    (hname : phyName config.phy config.radioIdx = name) (hok : Settled env name config s) :
    Current (ifaceSetConfig env name config s) := by
  have hne : ∀ n, n ≠ name → ∀ c : Config, update s.config name (some c) n = s.config n :=
    fun n hn c => update_of_ne hn _ _
  have hplain : ∀ e ∈ [Entry.set name config], e.Plain := by simp [Entry.Plain]
  unfold ifaceSetConfig
  dsimp only
  split_ifs with hopen hbss hreload
  · refine hc.frame name (fun n hn => hne n hn _) (fun n j _ hj => ⟨hj, rfl⟩) (fun j hj => ?_)
      ⟨_, rfl, hplain⟩
    have hj : s.pendingConfig name = some j := hj
    have := (hok (by simp [hj])).1
    simp [this] at hopen
  · unfold ifaceConfigRemove
    obtain ⟨es, hes, hes'⟩ := ifaceRemove_log (s.config name)
      ((((s.setConfig name config).note (.set name config)).setConfig name
        (ifaceCheckMld env config)).note (.removeIface name))
    rw [hes]
    refine hc.frame name (fun n hn => ?_) (fun n j _ hj => ⟨hj, rfl⟩) (fun j hj => ?_)
      ⟨es ++ [.removeIface name, .set name config], by simp [setConfig], fun e he => ?_⟩
    · simp [setConfig, update_of_ne hn]
    · have hj : s.pendingConfig name = some j := hj
      exact absurd hbss (hok (by simp [hj])).2
    · rcases mem_append.mp he with he | he
      · exact hes' e he
      · simp only [mem_cons, not_mem_nil, or_false] at he
        rcases he with rfl | rfl <;> simp [Entry.Plain]
  · refine hc.frame name (fun n hn => ?_) (fun n j _ hj => ⟨hj, rfl⟩) (fun j hj => ?_)
      ⟨[_, .set name config], rfl, by simp [Entry.Plain]⟩
    · simp [setConfig, update_of_ne hn]
    · have hj : s.pendingConfig name = some j := hj
      obtain ⟨c, hold, hradio, hsame⟩ := reloaded hreload (by simpa [setConfig] using hj)
      obtain ⟨c', hc', hradio', hsame', hsome, -⟩ := hc.pending name j hj
      obtain rfl : c = c' := by rw [hold] at hc'; exact some.inj hc'
      refine ⟨ifaceCheckMld env config, by simp [setConfig], ?_, ?_, hsome, ?_⟩
      · rw [← hradio, hradio']
        rfl
      · rw [← hsame, hsame']
        rfl
      · simp [ifaceCheckMld]
  · have hphydev : (Phydev.mk config.phy config.radioIdx).name = name := hname
    have hchecked : Tabled (((s.setConfig name config).note (.set name config)).setConfig name
        (ifaceCheckMld env config)) :=
      h.frame rfl rfl rfl (keyed_setConfig (s := (s.setConfig name config).note (.set name config))
        (h.frame rfl rfl rfl (keyed_setConfig h hname)) hname)
    refine current_restart hc hchecked (fun n hn => ?_) rfl rfl ⟨_, rfl, hplain⟩ ?_ hbss ?_
    · rw [hphydev] at hn
      simp [setConfig, update_of_ne hn]
    · rw [hphydev]
      simp [setConfig]
    · simp [ifaceCheckMld]

theorem phyName_filter (phy : String) (radio : Option Int) :
    phyName phy (radio.filter (0 ≤ ·)) = phyName phy radio := by
  cases radio with
  | none => rfl
  | some r => by_cases h : 0 ≤ r <;> simp [phyName, Option.filter, h]

/-- What each request for the phy sets is settled. -/
def Allowed (env : Env) (e : Event) (s : State) : Prop :=
  match e with
  | .configSet phy radio _ config =>
    Settled env (phyName phy radio) (ifaceLoadConfig phy radio config) s
  | .reload name radio bss => ∀ c, s.config name = some c →
    Settled env name (ifaceLoadConfig c.phy c.radioIdx
      { name := c.origFile, radio := radio, bss := bss }) s
  | .mldReload name => ∀ c bss, s.config name = some c → c.origBss = some bss →
    Settled env name { c with bss := bss } s
  | .reply _ _ => True

/-- The configuration of before is set first, where there is none. -/
def withPrev (phy : String) (radio : Option Int) (prevConfig : Option File) (s : State) : State :=
  match prevConfig, s.config (phyName phy radio) with
  | some file, none =>
    let prev := ifaceLoadConfig phy radio file
    s.setConfig (phyName phy radio) { prev with radio := { prev.radio with data := [] } }
  | _, _ => s

theorem withPrev_spec (h : Tabled s) (phy : String) (radio : Option Int)
    (prevConfig : Option File) :
    Tabled (withPrev phy radio prevConfig s) ∧
      (Current s → Current (withPrev phy radio prevConfig s)) ∧
      (withPrev phy radio prevConfig s).pendingConfig = s.pendingConfig := by
  unfold withPrev
  split
  · rename_i file hnone
    refine ⟨h.frame rfl rfl rfl (keyed_setConfig h (phyName_filter phy radio)), fun hc => ?_, rfl⟩
    refine hc.frame (phyName phy radio) (fun n hn => ?_) (fun n j _ hj => ⟨hj, rfl⟩)
      (fun j hj => ?_) ⟨[], rfl, by simp⟩
    · simp [setConfig, update_of_ne hn]
    · obtain ⟨c, hconfig, -⟩ := hc.pending _ j hj
      rw [hnone] at hconfig
      cases hconfig
  · exact ⟨h, id, rfl⟩

/-- A sequence whose call is answered goes on. -/
theorem answered_ran (env : Env) (i : Nat) (data : Option String) (s : State) :
    Ran i s (ifacePendingNext env i data (s.put i { s.pending i with defer := false })) ∧
      Waits i s (ifacePendingNext env i data (s.put i { s.pending i with defer := false })) := by
  have hput : Ran i s (s.put i { s.pending i with defer := false }) := .put rfl rfl
  obtain ⟨hran, hwaits⟩ := pendingLoop_spec env i data
    (s := s.put i { s.pending i with defer := false }) 5
  have htable := hwaits.table
  rw [State.pendingConfig_put, State.pending_put_self] at htable
  exact ⟨hput.trans hran, ⟨htable⟩⟩

theorem tabled_step (h : Tabled s) (e : Event) : Tabled (step env e s) := by
  cases e with
  | configSet phy radio prevConfig config =>
    unfold step configSet
    dsimp only
    split_ifs
    · exact h
    · exact tabled_ifaceSetConfig (withPrev_spec h phy radio prevConfig).1
        (phyName_filter phy radio)
  | reload name radio bss =>
    unfold step reload
    dsimp only
    split
    · exact h
    · rename_i c hc
      exact tabled_ifaceSetConfig h ((phyName_filter _ _).trans (h.keyed name c hc))
  | mldReload name =>
    unfold step mldReloadInterface
    dsimp only
    split
    · exact h
    · rename_i c hc
      split
      · exact tabled_ifaceSetConfig h (h.keyed name c hc)
      · exact h.frame rfl rfl rfl (keyed_setConfig h (h.keyed name c hc))
  | reply i data =>
    unfold step
    dsimp only
    split_ifs with hdefer
    · obtain ⟨hran, hwaits⟩ := answered_ran env i data s
      exact h.ran (h.live i hdefer) hran hwaits
    · exact h

theorem current_step (h : Tabled s) (hc : Current s) {e : Event} (hok : Allowed env e s) :
    Current (step env e s) := by
  cases e with
  | configSet phy radio prevConfig config =>
    unfold step configSet
    dsimp only
    split_ifs
    · exact hc
    · obtain ⟨htabled, hcurrent, htable⟩ := withPrev_spec h phy radio prevConfig
      refine current_ifaceSetConfig htabled (hcurrent hc) (phyName_filter phy radio) fun hne => ?_
      rw [htable] at hne
      exact hok hne
  | reload name radio bss =>
    unfold step reload
    dsimp only
    split
    · exact hc
    · rename_i c hconfig
      exact current_ifaceSetConfig h hc ((phyName_filter _ _).trans (h.keyed name c hconfig))
        (hok c hconfig)
  | mldReload name =>
    unfold step mldReloadInterface
    dsimp only
    split
    · exact hc
    · rename_i c hconfig
      split
      · rename_i bss horig
        exact current_ifaceSetConfig h hc (h.keyed name c hconfig) (hok c bss hconfig horig)
      · rename_i horig
        refine hc.frame name (fun n hn => ?_) (fun n j _ hj => ⟨hj, rfl⟩) (fun j hj => ?_)
          ⟨[_], rfl, by simp [Entry.Plain]⟩
        · simp [setConfig, update_of_ne hn]
        · obtain ⟨c', hc', -, -, -, hsome⟩ := hc.pending name j hj
          obtain rfl : c = c' := by rw [hconfig] at hc'; exact some.inj hc'
          exact absurd horig hsome
  | reply i data =>
    unfold step
    dsimp only
    split_ifs with hdefer
    · obtain ⟨hran, hwaits⟩ := answered_ran env i data s
      exact hc.ran (h.live i hdefer) hran hwaits
    · exact hc

end Requests

/-! ## Runs -/

/-- There is one sequence of a phy at most, and what is added is what is set at that time, by
    value: a configuration that was set, replaced and set again counts as the one. -/
structure Sequenced (s : State) : Prop where
  one : ∀ i j, (s.pending i).defer = true → (s.pending j).defer = true →
    (s.pending i).phydev.name = (s.pending j).phydev.name → i = j
  timely : ∀ phy config current, .addIface phy config current ∈ s.log →
    ∃ c, current = some c ∧ c.radio = config.radio ∧ c.bss = config.bss ∧ config.bss ≠ []

theorem Tabled.one {s : State} (h : Tabled s) {i j : Nat} (hi : (s.pending i).defer = true)
    (hj : (s.pending j).defer = true)
    (hname : (s.pending i).phydev.name = (s.pending j).phydev.name) : i = j := by
  have hlive := h.live i hi
  rw [hname, h.live j hj, some.injEq] at hlive
  exact hlive.symm

/-- There is one sequence at most in every run. -/
theorem tabled_reachable {ok : Env → Event → State → Prop} {s : State} (h : Reachable ok s) :
    Tabled s := by
  induction h with
  | init => exact ⟨fun _ _ => rfl, by simp [State.init], by simp [State.init], by simp [State.init]⟩
  | step hs env e he ih => exact tabled_step ih e

/-- In a run that is settled, nothing is added that is not set. -/
theorem sequenced {s : State} (h : Reachable Allowed s) : Sequenced s := by
  have hcurrent : Current s := by
    induction h with
    | init => exact ⟨by simp [State.init], by simp [State.init]⟩
    | step hs env e he ih => exact current_step (tabled_reachable hs) ih he
  exact ⟨fun i j => (tabled_reachable h).one, hcurrent.timely⟩

def willing : Env :=
  { phyOpen := true, checkMld := fun _ => false, sameAddresses := true, reload := some false
    wdevAdd := true, defer := fun _ => true, addIface := fun _ => true, start := true }

def apFile (bss : List Bss) : File :=
  { name := "hostapd-phy0.conf", radio := { channel := some "36", data := [] }, bss := bss }

def apBss : Bss := { ifname := "phy0-ap0", mldAp := false, data := ["ssid=lan"], hash := [] }

/-- Before wpa_supplicant answers, a configuration without a BSS is set. -/
def removedState : State :=
  step willing (.reply 0 (some "COMPLETED"))
    (step willing (.configSet "phy0" none none (apFile []))
      (step willing (.configSet "phy0" none none (apFile [apBss])) .init))

theorem sequenced_fails : ¬ ∀ s, Reachable (fun _ _ _ => True) s → Sequenced s := by
  intro h
  have hrun : Reachable (fun _ _ _ => True) removedState :=
    .step (.step (.step .init willing _ trivial) willing _ trivial) willing _ trivial
  have hadd : Entry.addIface "phy0" (ifaceCheckMld willing (ifaceLoadConfig "phy0" none
      (apFile [apBss]))) (some (ifaceCheckMld willing (ifaceLoadConfig "phy0" none (apFile [])))) ∈
      removedState.log := by decide
  obtain ⟨c, hc, -, hbss, -⟩ := (h _ hrun).timely _ _ _ hadd
  rw [← some.inj hc] at hbss
  exact absurd hbss (by decide)

/-- The interface of the only configuration is added. -/
theorem sequenced_added : Sequenced (step willing (.reply 0 (some "COMPLETED"))
    (step willing (.configSet "phy0" none none (apFile [apBss])) .init)) :=
  sequenced (.step (.step .init willing _ fun _ => ⟨rfl, by decide⟩) willing _ trivial)

end LibWrt.Hostapd
