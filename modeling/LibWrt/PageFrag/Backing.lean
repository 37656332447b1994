/-
LibWrt.PageFrag.Backing — the timeline's rows, and the integral of backing
bytes over time.

`_integrate_to` adds up aggregate times elapsed time, piece by piece.
`accrued` says the same page by page: a page counts its size from the event
that allocated it to the event that freed it, or to now. Between events the
two grow alike, because the aggregate's backing bytes are the sizes of the
pages not freed (`accrued_advance`); at an event `accrued` does not move,
since a page made or freed by it has existed for no time since
(`Dated.step`). `Accruing` is the invariant of the replay loop.
-/
import LibWrt.PageFrag.Pages

namespace LibWrt.PageFrag

open List Option ScenarioReplay

/-! ## When a page came and went -/

/-- The time of the first event after which `p` holds. -/
def firstTime (p : ScenarioReplay → Bool) : ScenarioReplay → List Event → Option Int
  | _, [] => none
  | r, e :: es =>
    match r.process e with
    | .error _ => none
    | .ok r => if p r then some e.timeNs else firstTime p r es

def allocatedAt (policy : Policy) (events : List Event) (pid : Nat) : Option Int :=
  firstTime (fun r => (r.pages.get? pid).isSome) { policy := policy } events

def freedAt (policy : Policy) (events : List Event) (pid : Nat) : Option Int :=
  firstTime (fun r => (r.pages.get? pid).any (·.freed)) { policy := policy } events

/-- Page size times time in use, over all pages, up to time `now`. -/
def accrued (policy : Policy) (events : List Event) (pages : Dict Nat Page) (now : Int) : Int :=
  pages.sum fun pid page => page.size *
    ((freedAt policy events pid).getD now - (allocatedAt policy events pid).getD 0)

/-- One more event. -/
theorem firstTime_append {p : ScenarioReplay → Bool} {e : Event} {r' : ScenarioReplay} :
    ∀ {es : List Event} {r r₁ : ScenarioReplay}, r.processAll es = .ok r₁ →
      r₁.process e = .ok r' →
      firstTime p r (es ++ [e]) =
        (firstTime p r es).or (if p r' then some e.timeNs else none)
  | [], r, r₁, hrun, hstep => by
    cases hrun
    simp [firstTime, hstep]
  | e₀ :: es, r, r₁, hrun, hstep => by
    simp only [processAll, bind, Except.bind] at hrun
    cases h₀ : r.process e₀ with
    | error err => simp [h₀] at hrun
    | ok r₀ =>
      rw [h₀] at hrun
      simp only [cons_append, firstTime, h₀]
      split
      · rfl
      · exact firstTime_append hrun hstep

/-! ## One event, or some time -/

/-- The dates are those of the pages in the books. -/
structure Dated (policy : Policy) (events : List Event) (r : ScenarioReplay) : Prop where
  run : processAll { policy := policy } events = .ok r
  allocated : ∀ pid, (allocatedAt policy events pid).isSome = (r.pages.get? pid).isSome
  freed : ∀ pid, (freedAt policy events pid).isSome = (r.pages.get? pid).any (·.freed)

section Dates

variable {policy : Policy} {events : List Event} {e : Event} {r r' : ScenarioReplay}

theorem Dated.start (policy : Policy) : Dated policy [] { policy := policy } where
  run := rfl
  allocated := fun pid => by cases policy <;> rfl
  freed := fun pid => by cases policy <;> rfl

theorem firstTime_isSome {p : ScenarioReplay → Bool} {es : List Event} {r₀ : ScenarioReplay}
    (hrun : r₀.processAll es = .ok r) (hstep : r.process e = .ok r')
    (h : (firstTime p r₀ es).isSome = p r) (hkeep : p r = true → p r' = true) :
    (firstTime p r₀ (es ++ [e])).isSome = p r' := by
  rw [firstTime_append hrun hstep, isSome_or, h]
  cases hp : p r with
  | true => simp [hkeep hp]
  | false => cases hp' : p r' <;> simp

variable {land : Option Nat}

/-- A page stays in the books, with its size. -/
theorem Evolves.kept {pages pages' : Dict Nat Page} (h : Evolves e land pages pages') {pid : Nat}
    {page : Page} (hpage : pages.get? pid = some page) :
    ∃ page', pages'.get? pid = some page' ∧ page'.size = page.size ∧
      (page.freed = true → page'.freed = true) := by
  obtain ⟨n, freed, hfreed, hget⟩ := h.old pid page hpage
  exact ⟨_, hget, rfl, hfreed⟩

theorem Dated.step (h : Dated policy events r) (hstep : r.process e = .ok r')
    (hev : Evolves e land r.pages r'.pages) :
    Dated policy (events ++ [e]) r' where
  run := by
    rw [processAll_append, h.run]
    simp [processAll, Except.bind, bind, hstep]
  allocated := fun pid => by
    refine firstTime_isSome h.run hstep (h.allocated pid) fun hsome => ?_
    obtain ⟨page, hpage⟩ := isSome_iff_exists.mp hsome
    obtain ⟨page', hpage', -⟩ := hev.kept hpage
    simp [hpage']
  freed := fun pid => by
    refine firstTime_isSome h.run hstep (h.freed pid) fun hany => ?_
    obtain ⟨page, hpage, hfreed⟩ := (any_eq_true _ _).mp hany
    obtain ⟨page', hpage', -, hkeep⟩ := hev.kept hpage
    simp [hpage', hkeep hfreed]

theorem Dated.accrued_step (h : Dated policy events r) (hstep : r.process e = .ok r')
    (hev : Evolves e land r.pages r'.pages) :
    accrued policy (events ++ [e]) r'.pages e.timeNs
      = accrued policy events r.pages e.timeNs := by
  have hafter := h.step hstep hev
  have hallocated : ∀ pid, allocatedAt policy (events ++ [e]) pid
      = (allocatedAt policy events pid).or
          (if (r'.pages.get? pid).isSome then some e.timeNs else none) :=
    fun pid => firstTime_append h.run hstep
  have hfreed : ∀ pid, freedAt policy (events ++ [e]) pid
      = (freedAt policy events pid).or
          (if (r'.pages.get? pid).any (·.freed) then some e.timeNs else none) :=
    fun pid => firstTime_append h.run hstep
  -- freed now or not freed yet, the page is in use up to this time
  have hnow : ∀ pid, (freedAt policy (events ++ [e]) pid).getD e.timeNs
      = (freedAt policy events pid).getD e.timeNs := by
    intro pid
    rw [hfreed]
    cases freedAt policy events pid with
    | some t => rfl
    | none => split <;> rfl
  refine Dict.sum_eq_of_at? _ rfl fun pid => ?_
  cases hpage : r.pages.get? pid with
  | some page =>
    obtain ⟨page', hpage', hsize, -⟩ := hev.kept hpage
    have hsome := h.allocated pid
    rw [hpage] at hsome
    obtain ⟨t, ht⟩ := isSome_iff_exists.mp hsome
    simp only [Dict.at?, hpage, hpage', hsize, hnow, hallocated, ht, some_or]
  | none =>
    cases hpage' : r'.pages.get? pid with
    | none => simp [Dict.at?, hpage, hpage']
    | some page' =>
      have hnone := h.allocated pid
      have hnotfreed := h.freed pid
      rw [hpage] at hnone hnotfreed
      have ha : allocatedAt policy events pid = none := by simpa using hnone
      have hf : freedAt policy events pid = none := by simpa using hnotfreed
      simp [Dict.at?, hpage, hpage', hnow, hallocated, ha, hf]

/-- As time goes by, `accrued` grows by the backing bytes. -/
theorem Dated.accrued_advance (h : Dated policy events r) (haud : Audited r) (now later : Int) :
    accrued policy events r.pages later
      = accrued policy events r.pages now + r.aggregate .backingBytes * (later - now) := by
  rw [haud.column, ← Dict.sum_mul, accrued, accrued, ← Dict.sum_add]
  refine Dict.sum_congr fun pid page hpage => ?_
  have hfreed := h.freed pid
  rw [hpage] at hfreed
  cases hf : page.freed with
  | true =>
    obtain ⟨t, ht⟩ := isSome_iff_exists.mp (hfreed.trans (by simp [hf]))
    simp [ht, priced, hf]
  | false =>
    have hnone : freedAt policy events pid = none := by
      simpa [hf] using hfreed
    simp only [hnone, getD_none, priced, hf, PageUsage.contribution]
    simp only [Bool.false_eq_true, if_false]
    rw [← mul_add]
    congr 1
    omega

end Dates

/-! ## The loop -/

/-- Between two rounds the integral is what has accrued. -/
structure Accruing {α : Type} (policy : Policy) (done : List Event) (p : Replay α) : Prop where
  dated : Dated policy done p.replay
  integral : p.integrals.backingByteNs
    = accrued policy done p.replay.pages p.integrals.lastIntegratedNs

section Loop

variable {α : Type} {config : SimulationConfig} {row : Int → ScenarioReplay → α}
  {policy : Policy} {events done rest : List Event} {p p' : Replay α}

variable {timeNs : Int}

theorem samplesBefore_frame : ∀ {fuel : Nat} {p p' : Replay α},
    Replay.samplesBefore config row timeNs fuel p = .ok p' →
      p'.replay = p.replay ∧ p'.integrals = p.integrals
  | 0, p, p', h => by
    simp only [Replay.samplesBefore] at h
    split at h
    · cases h
    · cases h
      exact ⟨rfl, rfl⟩
  | fuel + 1, p, p', h => by
    simp only [Replay.samplesBefore] at h
    split at h
    · have hframe := samplesBefore_frame h
      exact hframe
    · cases h
      exact ⟨rfl, rfl⟩

theorem Accruing.integrate (h : Accruing policy done p) (haud : Audited p.replay) {i : Integrals}
    (hi : p.integrals.to p.replay.aggregate timeNs = .ok i) :
    i.lastIntegratedNs = timeNs ∧
      i.backingByteNs = accrued policy done p.replay.pages i.lastIntegratedNs := by
  simp only [Integrals.to] at hi
  split at hi
  · cases hi
  · cases hi
    refine ⟨rfl, ?_⟩
    show p.integrals.backingByteNs + _ = _
    rw [h.integral, h.dated.accrued_advance haud p.integrals.lastIntegratedNs timeNs]

variable (haudited : ∀ es es' r, events = es ++ es' →
    processAll { policy := policy } es = .ok r → Audited r)
  (hsized : ∀ e ∈ events, e.Sized)

include haudited hsized

/-- The events of one instant. -/
theorem accrued_group : ∀ {group done rest : List Event} {r r' : ScenarioReplay},
    events = done ++ group ++ rest → (∀ e ∈ group, e.timeNs = timeNs) →
    Dated policy done r → r.processAll group = .ok r' →
    Dated policy (done ++ group) r' ∧
      accrued policy (done ++ group) r'.pages timeNs = accrued policy done r.pages timeNs
  | [], done, rest, r, r', _, _, hdated, hrun => by
    cases hrun
    rw [append_nil]
    exact ⟨hdated, rfl⟩
  | e :: group, done, rest, r, r', hsplit, htime, hdated, hrun => by
    simp only [processAll, bind, Except.bind] at hrun
    cases hstep : r.process e with
    | error err => simp [hstep] at hrun
    | ok r₁ =>
      rw [hstep] at hrun
      have haud : Audited r :=
        haudited done (e :: group ++ rest) r (by rw [hsplit, append_assoc]) hdated.run
      obtain ⟨land, hs⟩ := haud.stepped (hsized e (by rw [hsplit]; simp)) hstep
      have hassoc : done ++ e :: group = (done ++ [e]) ++ group := by simp
      obtain ⟨hdated', haccrued⟩ := accrued_group (by rw [hsplit, hassoc])
        (fun e' he' => htime e' (mem_cons_of_mem _ he')) (hdated.step hstep hs.evolves) hrun
      have hone := hdated.accrued_step hstep hs.evolves
      rw [htime e mem_cons_self] at hone
      rw [hassoc]
      exact ⟨hdated', haccrued.trans hone⟩

theorem Accruing.round {group : List Event} (h : Accruing policy done p)
    (hsplit : events = done ++ group ++ rest) (htime : ∀ e ∈ group, e.timeNs = timeNs)
    (hrun : Replay.round config row timeNs group p = .ok p') :
    Accruing policy (done ++ group) p' := by
  simp only [Replay.round, bind, Except.bind, pure, Except.pure] at hrun
  cases hsamples : Replay.samplesBefore config row timeNs (Replay.sampleFuel config) p with
  | error err => simp [hsamples] at hrun
  | ok p₁ =>
    obtain ⟨hreplay, hintegrals⟩ := samplesBefore_frame hsamples
    simp only [hsamples, hreplay, hintegrals] at hrun
    cases hi : p.integrals.to p.replay.aggregate timeNs with
    | error err => simp [hi] at hrun
    | ok i =>
      have haud : Audited p.replay :=
        haudited done (group ++ rest) _ (by rw [hsplit, append_assoc]) h.dated.run
      obtain ⟨hlast, hintegral⟩ := h.integrate haud hi
      simp only [hi] at hrun
      cases hgroup : p.replay.processAll group with
      | error err => simp [hgroup] at hrun
      | ok r' =>
        simp only [hgroup] at hrun
        obtain ⟨hdated, haccrued⟩ := accrued_group haudited hsized hsplit htime h.dated hgroup
        rw [← hlast] at haccrued
        have hafter : i.backingByteNs = accrued policy (done ++ group) r'.pages
            i.lastIntegratedNs := hintegral.trans haccrued.symm
        split at hrun
        · cases hrun
          exact ⟨hdated, hafter⟩
        · cases hrun
          exact ⟨hdated, hafter⟩

theorem Accruing.rounds : ∀ {fuel : Nat} {done rest : List Event} {p p' : Replay α},
    events = done ++ rest → Accruing policy done p →
    Replay.rounds config row fuel rest p = .ok p' → Accruing policy events p'
  | _, done, [], p, p', hsplit, h, hrun => by
    rw [Replay.rounds] at hrun
    cases hrun
    rw [hsplit, append_nil]
    exact h
  | 0, done, e :: es, p, p', _, _, hrun => by
    simp [Replay.rounds] at hrun
  | fuel + 1, done, e :: es, p, p', hsplit, h, hrun => by
    simp only [Replay.rounds, bind, Except.bind] at hrun
    cases hround : Replay.round config row e.timeNs
        (e :: es.takeWhile (fun e' => e'.timeNs = e.timeNs)) p with
    | error err => simp [hround] at hrun
    | ok p₁ =>
      rw [hround] at hrun
      have hsplit' : events = (done ++ e :: es.takeWhile (fun e' => e'.timeNs = e.timeNs))
          ++ es.dropWhile (fun e' => e'.timeNs = e.timeNs) := by
        rw [hsplit, append_assoc, cons_append, takeWhile_append_dropWhile]
      refine Accruing.rounds hsplit' (h.round haudited hsized hsplit' (fun e' he' => ?_) hround)
        hrun
      cases mem_cons.mp he' with
      | inl heq => rw [heq]
      | inr hmem => simpa using mem_takeWhile_imp hmem

/-- The integral the loop ends with. -/
theorem observe_integral (hrun : Replay.observe policy config row events = .ok p') :
    Dated policy events p'.replay ∧ p'.integrals.backingByteNs
      = accrued policy events p'.replay.pages config.durationNs := by
  have hstart : Accruing policy [] ({ replay := { policy := policy } } : Replay α) :=
    ⟨Dated.start policy, by cases policy <;> rfl⟩
  simp only [Replay.observe, bind, Except.bind] at hrun
  cases hrounds : Replay.rounds config row events.length events
      { replay := { policy := policy } } with
  | error err => simp [hrounds] at hrun
  | ok p₁ =>
    have h₁ := hstart.rounds haudited hsized (by simp) hrounds
    simp only [hrounds] at hrun
    cases hi : p₁.integrals.to p₁.replay.aggregate config.durationNs with
    | error err => simp [hi] at hrun
    | ok i =>
      simp only [hi] at hrun
      obtain ⟨hlast, hintegral⟩ :=
        h₁.integrate (haudited events [] _ (by simp) h₁.dated.run) hi
      obtain ⟨hreplay, hintegrals⟩ := samplesBefore_frame hrun
      rw [hreplay, hintegrals]
      exact ⟨h₁.dated, by rw [← hlast]; exact hintegral⟩

end Loop

/-! ## The timeline and the integral -/

section Timeline

variable {config : SimulationConfig} {events : List Event}

theorem WellFormed.audited {durationNs : Int} (hw : WellFormed durationNs events)
    (hsized : ∀ e ∈ events, e.Sized) (policy : Policy) (es es' : List Event)
    (r : ScenarioReplay) (hsplit : events = es ++ es')
    (hrun : processAll { policy := policy } es = .ok r) : Audited r := by
  subst hsplit
  obtain ⟨r', -, hok, haud, -⟩ := hw.of_append.replays
    (fun e he => hsized e (mem_append_left _ he)) policy
  rw [hok] at hrun
  cases hrun
  exact haud

theorem lt_sampleCount (hduration : 0 < config.durationNs) (hsample : 0 < config.sampleNs)
    (k : Nat) : k < sampleCount config ↔ (k : Int) * config.sampleNs ≤ config.durationNs := by
  have hdiv : 0 ≤ config.durationNs / config.sampleNs :=
    Int.ediv_nonneg (le_of_lt hduration) (le_of_lt hsample)
  rw [← Int.le_ediv_iff_mul_le hsample]
  unfold sampleCount
  omega

/-- **The timeline and the backing integral**: on a well-formed stream of
allocations of 1 to 32768 bytes `replay` returns under every policy. Its rows
stand at the multiples of the sample interval up to the duration, each the
statistics of the state after exactly the events up to its time. A page is in
the books from the event that allocated it on, and the integral of backing
bytes is the sum over all these pages of size times the time from allocation
to free, or to the end. -/
theorem timeline_and_backing (hduration : 0 < config.durationNs)
    (hsample : 0 < config.sampleNs) (hw : WellFormed config.durationNs events)
    (hsized : ∀ e ∈ events, e.Sized) (policy : Policy) (eventHash : String) :
    ∃ result r, replay policy config eventHash events = .ok result ∧
      processAll { policy := policy } events = .ok r ∧
      (∀ k : Nat, k < result.timeline.length ↔ k * config.sampleNs ≤ config.durationNs) ∧
      (∀ (k : Nat) row, result.timeline[k]? = some row → ∃ rk,
        processAll { policy := policy }
          (events.filter (fun e => e.timeNs ≤ k * config.sampleNs)) = .ok rk ∧
        row = ScenarioReplay.stats eventHash (k * config.sampleNs) rk) ∧
      (∀ pid, (allocatedAt policy events pid).isSome = (r.pages.get? pid).isSome ∧
        (freedAt policy events pid).isSome = (r.pages.get? pid).any (·.freed)) ∧
      result.summary.integrals.backingByteNs = r.pages.sum fun pid page => page.size *
        ((freedAt policy events pid).getD config.durationNs
          - (allocatedAt policy events pid).getD 0) := by
  obtain ⟨p, hobserve, hrows, -⟩ := Replay.observe_eq hduration hsample
    (hw.replayable hsized policy) (ScenarioReplay.stats eventHash)
  obtain ⟨hdated, hintegral⟩ := observe_integral (hw.audited hsized policy) hsized hobserve
  have hreplay : ∃ result, replay policy config eventHash events = .ok result ∧
      result.timeline = p.timeline ∧ result.summary.integrals = p.integrals := by
    simp only [replay, hobserve, bind, Except.bind]
    exact ⟨_, rfl, rfl, rfl⟩
  obtain ⟨result, hok, htimeline, hintegrals⟩ := hreplay
  have hlength : result.timeline.length = sampleCount config := by
    rw [htimeline, hrows]
    simp [sampled]
  refine ⟨result, p.replay, hok, hdated.run, fun k => ?_, fun k row hrow => ?_,
    fun pid => ⟨hdated.allocated pid, hdated.freed pid⟩, ?_⟩
  · rw [hlength, lt_sampleCount hduration hsample]
  · obtain ⟨rk, -, hrk, -⟩ := (hw.upTo (k * config.sampleNs)).replays
      (fun e he => hsized e (mem_of_mem_filter he)) policy
    refine ⟨rk, hrk, ?_⟩
    have hk : k < sampleCount config := by
      rw [← hlength]
      exact (List.getElem?_eq_some_iff.mp hrow).1
    rw [htimeline, hrows, sampled, getElem?_map, getElem?_range hk] at hrow
    rw [← replayAfter_of_ok hrk]
    exact (some.inj hrow).symm
  · rw [hintegrals]
    exact hintegral

theorem timeline_and_backing_one_ring : ∃ result,
    replay .shared smallConfig "" oneRing = .ok result ∧
      result.summary.integrals.backingByteNs = 32768 * 1000000000 := by
  have hsized : ∀ e ∈ oneRing, e.Sized := by
    simp [oneRing, Event.Sized, pageFragCacheMaxSize]
  obtain ⟨result, r, hok, hrun, -, -, -, hintegral⟩ := timeline_and_backing
    (by decide) (by decide) oneRing_wellFormed hsized .shared ""
  have hr : processAll { policy := .shared } oneRing = .ok r := hrun
  refine ⟨result, hok, ?_⟩
  rw [hintegral, ← replayAfter_of_ok hr]
  decide +kernel

end Timeline

end LibWrt.PageFrag
