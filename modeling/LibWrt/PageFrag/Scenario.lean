/-
LibWrt.PageFrag.Scenario — whole scenarios, from a configuration to the
sampled rows.

The three parts meet here: a generated stream is well formed
(`Generated`), a well-formed stream never gets the ledger stuck
(`WellFormed.run`), and the replay follows the ledger under every policy
with its books in order (`Audited.process`). From this: the aggregate is
right after every event, no policy raises, the number of posted buffers
stands still, and the logical columns do not depend on the policy.
-/
import LibWrt.PageFrag.AuditStep
import LibWrt.PageFrag.Sampling
import LibWrt.PageFrag.Stream

namespace LibWrt.PageFrag

open List Ledger
open EventBuilder (InRun)

/-! ## Runs of the replay -/

theorem Cached.initial {policy : Policy} (h : policy ≠ .nonPagefrag) :
    Cached { policy := policy } where
  policy := h
  accounted := Accounted.initial ∅ ∅
  packed := ⟨fun _ _ hp => (by cases hp), fun _ _ _ _ hc => (by cases hc)⟩
  settings := ⟨rfl, rfl⟩
  page_size := fun _ _ hp => by cases hp
  linked := fun _ _ hr => by cases hr
  distinct := fun _ _ _ _ hr => by cases hr
  bytes := fun _ => rfl

theorem Direct.initial : Direct { policy := .nonPagefrag } where
  policy := rfl
  pages := fun _ _ hp => by cases hp
  linked := fun _ _ hr => by cases hr
  distinct := fun _ _ _ _ hr => by cases hr

theorem Audited.initial (policy : Policy) : Audited { policy := policy } where
  tracked := tracked_empty
  total := by
    unfold ScenarioReplay.pages
    split <;> rfl
  posted := rfl
  reaped := rfl
  backed := by
    by_cases h : policy = .nonPagefrag
    · subst h
      exact Or.inr Direct.initial
    · exact Or.inl (Cached.initial h)

/-- **The run lemma**: the replay follows the ledger through any list of
events. -/
theorem Audited.processAll : ∀ {es : List Event} {r : ScenarioReplay} {l : Ledger},
    Audited r → (∀ e ∈ es, e.Sized) → r.ledger.run es = some l →
    ∃ r', r.processAll es = .ok r' ∧ Audited r' ∧ r'.policy = r.policy ∧ r'.ledger = l
  | [], r, l, h, _, hl => ⟨r, rfl, h, rfl, Option.some.inj hl⟩
  | e :: es, r, l, h, hsized, hl => by
    obtain ⟨l₁, hl₁, hl'⟩ := Option.bind_eq_some_iff.mp hl
    obtain ⟨r₁, hok₁, h₁, hpolicy₁, hledger₁⟩ :=
      h.process (hsized e mem_cons_self) hl₁
    obtain ⟨r', hok', h', hpolicy', hledger'⟩ :=
      Audited.processAll h₁ (fun e' he' => hsized e' (mem_cons_of_mem _ he'))
        (by rw [hledger₁]; exact hl')
    refine ⟨r', ?_, h', hpolicy'.trans hpolicy₁, hledger'⟩
    simp only [ScenarioReplay.processAll, hok₁, bind, Except.bind]
    exact hok'

section Streams

variable {config : SimulationConfig} {events : List Event}

/-- A well-formed stream replays under every policy. -/
theorem WellFormed.replays {durationNs : Int} (hw : WellFormed durationNs events)
    (hsized : ∀ e ∈ events, e.Sized) (policy : Policy) :
    ∃ r l, ScenarioReplay.processAll { policy := policy } events = .ok r ∧ Audited r ∧
      r.policy = policy ∧ ({} : Ledger).run events = some l ∧ r.ledger = l := by
  obtain ⟨l, hl, -⟩ := hw.run
  obtain ⟨r, hok, haud, hpolicy, hledger⟩ :=
    (Audited.initial policy).processAll hsized hl
  exact ⟨r, l, hok, haud, hpolicy, hl, hledger⟩

theorem WellFormed.replayable (hw : WellFormed config.durationNs events)
    (hsized : ∀ e ∈ events, e.Sized) (policy : Policy) :
    Replay.Replayable policy config events where
  sorted := hw.sorted
  times := hw.times
  goes := fun es es' hsplit => by
    subst hsplit
    obtain ⟨r, -, hok, -⟩ := hw.of_append.replays
      (fun e he => hsized e (mem_append_left _ he)) policy
    exact ⟨r, hok⟩

theorem WellFormed.upTo {durationNs : Int} (hw : WellFormed durationNs events) (t : Int) :
    WellFormed durationNs (events.filter (fun e => e.timeNs ≤ t)) := by
  have htake : ∀ es : List Event, es.Pairwise (fun e e' => e.timeNs ≤ e'.timeNs) →
      ∃ rest, es = es.filter (fun e => e.timeNs ≤ t) ++ rest := by
    intro es
    induction es with
    | nil => exact fun _ => ⟨[], rfl⟩
    | cons e es ih =>
      intro hsorted
      obtain ⟨hle, htail⟩ := pairwise_cons.mp hsorted
      by_cases he : e.timeNs ≤ t
      · obtain ⟨rest, hrest⟩ := ih htail
        refine ⟨rest, ?_⟩
        rw [filter_cons_of_pos (by simpa using he), cons_append, ← hrest]
      · refine ⟨e :: es, ?_⟩
        rw [filter_eq_nil_iff.mpr, nil_append]
        intro e' he'
        cases mem_cons.mp he' with
        | inl heq => rw [heq]; simpa using he
        | inr hmem => have := hle e' hmem; simp; omega
  obtain ⟨rest, hrest⟩ := htake events hw.sorted
  rw [hrest] at hw
  exact hw.of_append

/-- The state at a sample instant: in order, and the ledger's. -/
theorem WellFormed.replayAt {durationNs : Int} (hw : WellFormed durationNs events)
    (hsized : ∀ e ∈ events, e.Sized) (policy : Policy) (t : Int) :
    Audited (replayAt policy events t) ∧
      ({} : Ledger).run (events.filter (fun e => e.timeNs ≤ t))
        = some (PageFrag.replayAt policy events t).ledger := by
  obtain ⟨r, l, hok, haud, -, hl, hledger⟩ := (hw.upTo t).replays
    (fun e he => hsized e (mem_of_mem_filter he)) policy
  rw [PageFrag.replayAt, replayAfter_of_ok hok, hledger]
  exact ⟨haud, hl⟩

end Streams

/-! ## The aggregate -/

/-- The aggregate from scratch: what `_contribution` returns, over all pages. -/
def ScenarioReplay.contributions (r : ScenarioReplay) : Aggregate :=
  r.pages.sum fun pid _ =>
    match r.contribution pid with
    | .ok c => c
    | .error _ => 0

section Contributions

variable {r : ScenarioReplay}

theorem Audited.contribution (h : Audited r) {pid : Nat} {page : Page}
    (hpage : r.pages.get? pid = some page) :
    r.contribution pid = .ok (priced r.usage pid page) := by
  rw [ScenarioReplay.contribution_eq hpage (h.fits hpage), Dict.at?, hpage]

theorem Audited.aggregate_eq (h : Audited r) : r.aggregate = r.contributions := by
  rw [h.total, recomputed, ScenarioReplay.contributions]
  refine Dict.sum_congr fun pid page hpage => ?_
  rw [h.contribution hpage]

/-- A page's slack is never negative. -/
theorem Audited.slack_nonneg (h : Audited r) {pid : Nat} {page : Page}
    (hpage : r.pages.get? pid = some page) : 0 ≤ priced r.usage pid page .slackBytes := by
  have hfit := h.fits hpage
  unfold priced
  split
  · exact le_refl 0
  · show 0 ≤ page.size - (usageAt r.usage pid).alignedBytes
    omega

theorem Audited.column (h : Audited r) (field : AggregateField) :
    r.aggregate field = r.pages.sum fun pid page => priced r.usage pid page field := by
  rw [h.total, recomputed, Dict.sum_apply]

theorem Audited.backing (h : Audited r) :
    r.aggregate .backingBytes = r.aggregate .alignedBytes + r.aggregate .slackBytes := by
  rw [h.column, h.column, h.column, ← Dict.sum_add]
  refine Dict.sum_congr fun pid page _ => ?_
  unfold priced
  split
  · rfl
  · exact contribution_backing _ _

theorem Audited.total_slack_nonneg (h : Audited r) : 0 ≤ r.aggregate .slackBytes := by
  rw [h.column]
  exact Dict.sum_nonneg fun pid page hpage => h.slack_nonneg hpage

end Contributions

def smallConfig : SimulationConfig :=
  { durationNs := 1000000000, radios := 1, dataCapacity := 1, monitorCapacity := 1,
    dataRate := .finite 3, monitorRate := .finite 2, ceRate := .finite 1 }

theorem smallConfig_validate : smallConfig.validate = .ok () := by
  decide +kernel

theorem smallConfig_generates : ∃ events, generateEvents smallConfig = .ok events := by
  have hnd : eventCount smallConfig smallConfig.dataRate = .ok 3 := by decide +kernel
  have hnm : eventCount smallConfig smallConfig.monitorRate = .ok 2 := by decide +kernel
  have hnc : eventCount smallConfig smallConfig.ceRate = .ok 1 := by decide +kernel
  cases generateEvents_cases smallConfig_validate with
  | inr hok =>
    obtain ⟨_, _, _, events, -, -, -, hgen, -⟩ := hok
    exact ⟨events, hgen⟩
  | inl herr =>
    obtain ⟨err, -, h⟩ := herr
    simp [hnd, hnm, hnc] at h

/-- **The aggregate is never skewed**: after every event of a generated
stream, under every policy, the aggregate that is kept event by event is the
sum of what `_contribution` returns for each page. It never raises, and
backing is the live aligned bytes and the slack, which is not negative. -/
theorem aggregate_from_scratch {config : SimulationConfig} {events : List Event}
    (hgen : generateEvents config = .ok events) (policy : Policy) (n : Nat) :
    ∃ r, ScenarioReplay.processAll { policy := policy } (events.take n) = .ok r ∧
      r.aggregate = r.contributions ∧
      (∀ pid page, r.pages.get? pid = some page →
        ∃ c, r.contribution pid = .ok c ∧ 0 ≤ c .slackBytes) ∧
      r.aggregate .backingBytes = r.aggregate .alignedBytes + r.aggregate .slackBytes ∧
      r.aggregate .alignedBytes = (r.live.sum fun _ record => record.alignedBytes) ∧
      0 ≤ r.aggregate .slackBytes := by
  obtain ⟨-, nd, nm, nc, -, -, -, hgenerated⟩ := generated_of_ok hgen
  have hw : WellFormed config.durationNs (events.take n) := by
    have hall := hgenerated.wellFormed
    rw [← take_append_drop n events] at hall
    exact hall.of_append
  obtain ⟨r, l, hok, haud, -, -, -⟩ := hw.replays
    (fun e he => hgenerated.sized e (mem_of_mem_take he)) policy
  refine ⟨r, hok, haud.aggregate_eq, fun pid page hpage => ?_, haud.backing, ?_,
    haud.total_slack_nonneg⟩
  · exact ⟨_, haud.contribution hpage, haud.slack_nonneg hpage⟩
  · rw [haud.aligned, Ledger.alignedBytes, ScenarioReplay.ledger, Dict.sum_map]

theorem aggregate_from_scratch_small : ∃ events, generateEvents smallConfig = .ok events ∧
    ∃ r, ScenarioReplay.processAll { policy := .shared } (events.take 4) = .ok r ∧
      r.aggregate = r.contributions ∧
      r.aggregate .backingBytes = r.aggregate .alignedBytes + r.aggregate .slackBytes := by
  obtain ⟨events, hgen⟩ := smallConfig_generates
  obtain ⟨r, hok, htotal, -, hbacking, -⟩ := aggregate_from_scratch hgen .shared 4
  exact ⟨events, hgen, r, hok, htotal, hbacking⟩

/-! ## Posted buffers -/

/-- What an event does to the number of posted buffers. -/
def Action.postedDelta : Action → Int
  | .post => 1
  | .alloc => 0
  | .reap => -1
  | .free => 0

theorem Ledger.count_allocate {l l' : Ledger} {e : Event} {state : BufferState}
    (h : l.allocate e state = some l') :
    l'.count .posted = l.count .posted + if state = .posted then 1 else 0 := by
  unfold allocate at h
  cases hget : l.buffers.get? e.logicalId with
  | some b => simp [hget] at h
  | none =>
    rw [hget] at h
    cases h
    simp only [Ledger.count]
    rw [Dict.sum_set_new hget, add_comm]
    rfl

theorem Ledger.count_process {l l' : Ledger} {e : Event} (h : l.process e = some l') :
    l'.count .posted = l.count .posted + e.action.postedDelta := by
  unfold process at h
  cases ha : e.action with
  | post =>
    rw [ha] at h
    exact count_allocate h
  | alloc =>
    rw [ha] at h
    exact count_allocate h
  | reap =>
    simp only [ha] at h
    cases hget : l.buffers.get? e.logicalId with
    | none => simp [hget] at h
    | some b =>
      simp only [hget] at h
      split at h
      · rename_i hstate
        cases h
        simp only [Ledger.count]
        rw [Dict.sum_set_old hget]
        simp [hstate, Action.postedDelta]
        omega
      · cases h
  | free =>
    simp only [ha] at h
    cases hget : l.buffers.get? e.logicalId with
    | none => simp [hget] at h
    | some b =>
      simp only [hget] at h
      split at h
      · rename_i hstate
        cases h
        simp only [Ledger.count]
        rw [Dict.sum_del hget]
        simp [hstate, Action.postedDelta]
      · cases h

theorem Ledger.count_run : ∀ {es : List Event} {l l' : Ledger}, l.run es = some l' →
    l'.count .posted = l.count .posted + tally es fun _ a _ => a.postedDelta
  | [], l, l', h => by
    cases h
    simp [tally]
  | e :: es, l, l', h => by
    obtain ⟨l₁, hl₁, hrest⟩ := Option.bind_eq_some_iff.mp h
    rw [count_run hrest, count_process hl₁]
    simp [tally, add_assoc]

/-- A tally of the events up to a time. -/
theorem tally_upTo (es : List Event) (t : Int) (g : Int → Action → String → Int) :
    tally (es.filter (fun e => e.timeNs ≤ t)) g
      = tally es fun t' a s => if t' ≤ t then g t' a s else 0 := by
  induction es with
  | nil => rfl
  | cons e es ih =>
    by_cases he : e.timeNs ≤ t
    · rw [filter_cons_of_pos (by simpa using he)]
      simp only [tally, map_cons, sum_cons, if_pos he] at ih ⊢
      rw [ih]
    · rw [filter_cons_of_neg (by simpa using he)]
      simp only [tally, map_cons, sum_cons, if_neg he, zero_add] at ih ⊢
      exact ih

/-! ## Counting events of a stream -/

/-- The buffers of `source` that are reaped. -/
def reaps (es : List Event) (source : String) : Nat :=
  es.countP fun e => e.action = .reap ∧ e.source = source

/-- The buffers of `source` that are posted after the seeds. -/
def reposts (es : List Event) (source : String) : Nat :=
  es.countP fun e => e.action = .post ∧ e.source = source ∧ 0 < e.timeNs

theorem tally_countP (p : Int → Action → String → Prop) [∀ t a s, Decidable (p t a s)]
    (es : List Event) : (es.countP (fun e => p e.timeNs e.action e.source) : Int)
      = tally es fun t a s => if p t a s then 1 else 0 := by
  induction es with
  | nil => rfl
  | cons e es ih =>
    rw [countP_cons]
    push_cast
    rw [ih]
    simp [tally, add_comm]

theorem sum_map_const {l : List Int} {f : Int → Int} {c : Int} (h : ∀ t ∈ l, f t = c) :
    (l.map f).sum = l.length * c := by
  rw [map_congr_left h, map_const', sum_replicate, nsmul_eq_mul]

section Counts

variable {config : SimulationConfig} {nd nm nc : Int} {events : List Event}

/-- A tally whose weights are constant on each kind of event after the
start. -/
theorem Generated.tally_eq (h : Generated config nd nm nc events)
    {g : Int → Action → String → Int} (hg : IgnoresFree g) {d m c : Int}
    (hd : ∀ t, InRun config t → g t .reap "data" + g t .post "data" = d)
    (hm : ∀ t, InRun config t → g t .reap "monitor_status" + g t .post "monitor_status" = m)
    (hc : ∀ t, InRun config t → g t .alloc "ce" = c) :
    PageFrag.tally events g = config.radios * (config.dataCapacity * g 0 .post "data"
      + config.monitorCapacity * g 0 .post "monitor_status") + nd * d + nm * m + nc * c := by
  obtain ⟨td, tm, tc, rfl, rfl, rfl, hrun, htally⟩ := h.tally
  rw [htally g hg,
    sum_map_const fun t ht => hd t (hrun t (by simp [ht])),
    sum_map_const fun t ht => hm t (hrun t (by simp [ht])),
    sum_map_const fun t ht => hc t (hrun t (by simp [ht]))]

/-- Each turnover source replaces as many buffers as its count. -/
theorem Generated.replacements (h : Generated config nd nm nc events) :
    (reaps events "data" : Int) = nd ∧ (reposts events "data" : Int) = nd ∧
      (reaps events "monitor_status" : Int) = nm ∧
      (reposts events "monitor_status" : Int) = nm := by
  have hpos : ∀ t, InRun config t → 0 < t := fun t ht => by have := ht.1; omega
  refine ⟨?_, ?_, ?_, ?_⟩
  · rw [reaps, tally_countP fun _ a s => a = .reap ∧ s = "data",
      h.tally_eq (d := 1) (m := 0) (c := 0)] <;> simp [IgnoresFree]
  · rw [reposts, tally_countP fun t a s => a = .post ∧ s = "data" ∧ 0 < t,
      h.tally_eq (d := 1) (m := 0) (c := 0)] <;> simp [IgnoresFree]
    exact hpos
  · rw [reaps, tally_countP fun _ a s => a = .reap ∧ s = "monitor_status",
      h.tally_eq (d := 0) (m := 1) (c := 0)] <;> simp [IgnoresFree]
  · rw [reposts, tally_countP fun t a s => a = .post ∧ s = "monitor_status" ∧ 0 < t,
      h.tally_eq (d := 0) (m := 1) (c := 0)] <;> simp [IgnoresFree]
    exact hpos

/-- The rings stay full: the seeds are posted, and a replacement reaps one
buffer for each one it posts. -/
theorem Generated.posted (h : Generated config nd nm nc events) (policy : Policy) {t : Int}
    (ht : 0 ≤ t) : (replayAt policy events t).posted
      = config.radios * (config.dataCapacity + config.monitorCapacity) := by
  obtain ⟨haud, hl⟩ := h.wellFormed.replayAt h.sized policy t
  have hzero : ({} : Ledger).count .posted = 0 := rfl
  rw [haud.posted, count_run hl, hzero, zero_add, tally_upTo,
    h.tally_eq (d := 0) (m := 0) (c := 0)]
  · simp [Action.postedDelta, ht]
  · intro t' s
    simp [Action.postedDelta]
  all_goals
    intro t' _
    split <;> rfl

end Counts

/-! ## Generated streams -/

/-- A well-formed stream replays to the rows of `sampled`. -/
theorem WellFormed.replay_eq {config : SimulationConfig} {events : List Event}
    (hduration : 0 < config.durationNs) (hsample : 0 < config.sampleNs)
    (hw : WellFormed config.durationNs events) (hsized : ∀ e ∈ events, e.Sized)
    (policy : Policy) (eventHash : String) :
    ∃ result, replay policy config eventHash events = .ok result ∧
      result.timeline = sampled policy config (ScenarioReplay.stats eventHash) events ∧
      result.summary.allocations = (replayAfter policy events).allocations := by
  obtain ⟨p, hobserve, htimeline, hreplay⟩ := Replay.observe_eq hduration hsample
    (hw.replayable hsized policy) (ScenarioReplay.stats eventHash)
  simp only [replay, hobserve, bind, Except.bind]
  exact ⟨_, rfl, htimeline, congrArg ScenarioReplay.allocations hreplay⟩

/-- **Generated streams are well formed and replay**: for an accepted
configuration the stream exists where the three counts can be evaluated.
Each buffer goes through its life in order and within the run, no policy
raises, every row finds the rings full, and each turnover source replaces
exactly its count, which is rate times duration rounded half up wherever the
decimal context is exact. -/
theorem generated_stream_replays {config : SimulationConfig}
    (hvalidate : config.validate = .ok ()) :
    ((∃ events, generateEvents config = .ok events) ↔
      ∃ nd nm nc, eventCount config config.dataRate = .ok nd ∧
        eventCount config config.monitorRate = .ok nm ∧
        eventCount config config.ceRate = .ok nc) ∧
    (∀ rate q, rate = config.dataRate ∨ rate = config.monitorRate → rate = .finite q →
      Decimal.Representable (q * config.durationNs) →
      Decimal.Representable (q * config.durationNs / 1000000000) →
      eventCount config rate = .ok ⌊q * config.durationNs / 1000000000 + 1 / 2⌋) ∧
    ∀ events, generateEvents config = .ok events →
      WellFormed config.durationNs events ∧
      (∀ policy eventHash, ∃ result, replay policy config eventHash events = .ok result ∧
        result.timeline.length = sampleCount config ∧
        ∀ row ∈ result.timeline, row.postedFragments
          = config.radios * (config.dataCapacity + config.monitorCapacity)) ∧
      (∀ eventHash, ∃ results, replayAll config eventHash events = .ok results) ∧
      eventCount config config.dataRate = .ok (reaps events "data") ∧
      reposts events "data" = reaps events "data" ∧
      eventCount config config.monitorRate = .ok (reaps events "monitor_status") ∧
      reposts events "monitor_status" = reaps events "monitor_status" := by
  have hv := SimulationConfig.valid_of_validate hvalidate
  refine ⟨?_, ?_, fun events hgen => ?_⟩
  · constructor
    · rintro ⟨events, hgen⟩
      obtain ⟨-, nd, nm, nc, hnd, hnm, hnc, -⟩ := generated_of_ok hgen
      exact ⟨nd, nm, nc, hnd, hnm, hnc⟩
    · rintro ⟨nd, nm, nc, hnd, hnm, hnc⟩
      cases generateEvents_cases hvalidate with
      | inr hok =>
        obtain ⟨_, _, _, events, -, -, -, hgen, -⟩ := hok
        exact ⟨events, hgen⟩
      | inl herr =>
        obtain ⟨err, -, h⟩ := herr
        simp [hnd, hnm, hnc] at h
  · rintro rate q hrate rfl hproduct hquotient
    have hq : 0 ≤ q := by
      cases hrate with
      | inl hd => have := hv.rates.1; rwa [← hd] at this
      | inr hm => have := hv.rates.2.1; rwa [← hm] at this
    exact eventCount_exact hq hv.duration hproduct hquotient
  · obtain ⟨-, nd, nm, nc, hnd, hnm, -, hgenerated⟩ := generated_of_ok hgen
    have hreplay := fun policy eventHash =>
      hgenerated.wellFormed.replay_eq hv.duration hv.sample hgenerated.sized policy eventHash
    obtain ⟨hd, hd', hm, hm'⟩ := hgenerated.replacements
    refine ⟨hgenerated.wellFormed, fun policy eventHash => ?_, fun eventHash => ?_, ?_, ?_, ?_, ?_⟩
    · obtain ⟨result, hok, hrows, -⟩ := hreplay policy eventHash
      refine ⟨result, hok, by rw [hrows]; simp [sampled], fun row hrow => ?_⟩
      rw [hrows] at hrow
      obtain ⟨k, -, rfl⟩ := mem_map.mp hrow
      exact hgenerated.posted policy
        (Int.mul_nonneg (Int.natCast_nonneg k) (le_of_lt hv.sample))
    · obtain ⟨r₁, h₁, -⟩ := hreplay .shared eventHash
      obtain ⟨r₂, h₂, -⟩ := hreplay .perRing eventHash
      obtain ⟨r₃, h₃, -⟩ := hreplay .sameRingOnly eventHash
      obtain ⟨r₄, h₄, -⟩ := hreplay .nonPagefrag eventHash
      exact ⟨[r₁, r₂, r₃, r₄], by simp [replayAll, policies, h₁, h₂, h₃, h₄]; rfl⟩
    · rw [hd, hnd]
    · omega
    · rw [hm, hnm]
    · omega

theorem generated_stream_replays_small :
    smallConfig.validate = .ok () ∧ ∀ events, generateEvents smallConfig = .ok events →
      ∀ policy eventHash, ∃ result, replay policy smallConfig eventHash events = .ok result ∧
        ∀ row ∈ result.timeline, row.postedFragments = 2 :=
  ⟨smallConfig_validate, fun events hgen policy eventHash => by
    obtain ⟨result, hok, -, hrows⟩ :=
      ((generated_stream_replays smallConfig_validate).2.2 events hgen).2.1 policy eventHash
    exact ⟨result, hok, hrows⟩⟩

/-! ## Policy independence -/

/-- The columns that should not depend on the policy. -/
structure LogicalRow where
  timeNs : Int
  liveFragments : Nat
  postedFragments : Int
  reapedFragments : Int
  allocations : Nat
  alignedBytes : Int

def logicalRow (timeNs : Int) (r : ScenarioReplay) : LogicalRow :=
  { timeNs := timeNs
    liveFragments := r.live.size
    postedFragments := r.posted
    reapedFragments := r.reaped
    allocations := r.allocations
    alignedBytes := r.aggregate .alignedBytes }

def Ledger.row (timeNs : Int) (l : Ledger) : LogicalRow :=
  { timeNs := timeNs
    liveFragments := l.buffers.size
    postedFragments := l.count .posted
    reapedFragments := l.count .reaped
    allocations := l.allocations
    alignedBytes := l.alignedBytes }

/-- The logical columns are the ledger's. -/
theorem Audited.logicalRow_eq {r : ScenarioReplay} (h : Audited r) (timeNs : Int) :
    logicalRow timeNs r = r.ledger.row timeNs := by
  simp only [logicalRow, Ledger.row, h.posted, h.reaped, h.aligned]
  simp [ScenarioReplay.ledger]

/-- The logical columns of a row of `replay`, which has no allocation count. -/
def ScenarioReplay.Stats.logical (s : ScenarioReplay.Stats) : LogicalRow :=
  { timeNs := s.timeNs
    liveFragments := s.liveFragments
    postedFragments := s.postedFragments
    reapedFragments := s.reapedFragments
    allocations := 0
    alignedBytes := s.alignedBytes }

theorem stats_logical (eventHash : String) (timeNs : Int) (r : ScenarioReplay) :
    (ScenarioReplay.stats eventHash timeNs r).logical
      = { logicalRow timeNs r with allocations := 0 } := rfl

section Independence

variable {config : SimulationConfig} {events : List Event}

/-- At any time, two policies are in the same logical state. -/
theorem WellFormed.ledger_eq {durationNs : Int} (hw : WellFormed durationNs events)
    (hsized : ∀ e ∈ events, e.Sized) (policy policy' : Policy) (t : Int) :
    logicalRow t (PageFrag.replayAt policy events t)
      = logicalRow t (PageFrag.replayAt policy' events t) := by
  obtain ⟨haud, hl⟩ := hw.replayAt hsized policy t
  obtain ⟨haud', hl'⟩ := hw.replayAt hsized policy' t
  rw [haud.logicalRow_eq, haud'.logicalRow_eq, Option.some.inj (hl.symm.trans hl')]

/-- **Policy independence**: on a well-formed stream of allocations of 1 to
32768 bytes, all policies sample the same live, posted and reaped buffers,
allocations and live aligned bytes; `replay` succeeds under each and its rows
and its allocation count agree. -/
theorem logical_rows_policy_independent
    (hduration : 0 < config.durationNs) (hsample : 0 < config.sampleNs)
    (hw : WellFormed config.durationNs events) (hsized : ∀ e ∈ events, e.Sized)
    (policy policy' : Policy) (eventHash : String) :
    (∃ p p', Replay.observe policy config logicalRow events = .ok p ∧
      Replay.observe policy' config logicalRow events = .ok p' ∧
      p.timeline.length = sampleCount config ∧ p.timeline = p'.timeline) ∧
    ∃ result result', replay policy config eventHash events = .ok result ∧
      replay policy' config eventHash events = .ok result' ∧
      result.timeline.map (·.logical) = result'.timeline.map (·.logical) ∧
      result.summary.allocations = result'.summary.allocations := by
  constructor
  · obtain ⟨p, hok, hrows, -⟩ :=
      Replay.observe_eq hduration hsample (hw.replayable hsized policy) logicalRow
    obtain ⟨p', hok', hrows', -⟩ :=
      Replay.observe_eq hduration hsample (hw.replayable hsized policy') logicalRow
    refine ⟨p, p', hok, hok', by rw [hrows]; simp [sampled], ?_⟩
    rw [hrows, hrows', sampled, sampled]
    exact map_congr_left fun k _ => hw.ledger_eq hsized policy policy' _
  · obtain ⟨result, hok, hrows, halloc⟩ :=
      hw.replay_eq hduration hsample hsized policy eventHash
    obtain ⟨result', hok', hrows', halloc'⟩ :=
      hw.replay_eq hduration hsample hsized policy' eventHash
    refine ⟨result, result', hok, hok', ?_, ?_⟩
    · rw [hrows, hrows', sampled, sampled, map_map, map_map]
      refine map_congr_left fun k _ => ?_
      simp only [Function.comp_apply, stats_logical, hw.ledger_eq hsized policy policy']
    · obtain ⟨r, l, hr, -, -, hl, rfl⟩ := hw.replays hsized policy
      obtain ⟨r', l', hr', -, -, hl', rfl⟩ := hw.replays hsized policy'
      rw [halloc, halloc', replayAfter_of_ok hr, replayAfter_of_ok hr']
      exact congrArg Ledger.allocations (Option.some.inj (hl.symm.trans hl'))

theorem logical_rows_policy_independent_small :
    ∃ events, generateEvents smallConfig = .ok events ∧
      ∃ result result', replay .shared smallConfig "" events = .ok result ∧
        replay .nonPagefrag smallConfig "" events = .ok result' ∧
        result.timeline.map (·.logical) = result'.timeline.map (·.logical) := by
  obtain ⟨events, hgen⟩ := smallConfig_generates
  obtain ⟨-, nd, nm, nc, -, -, -, hgenerated⟩ := generated_of_ok hgen
  obtain ⟨-, result, result', hok, hok', hrows, -⟩ := logical_rows_policy_independent
    (show 0 < smallConfig.durationNs by decide) (by decide) hgenerated.wellFormed hgenerated.sized
    .shared .nonPagefrag ""
  exact ⟨events, hgen, result, result', hok, hok', hrows⟩

end Independence

end LibWrt.PageFrag
