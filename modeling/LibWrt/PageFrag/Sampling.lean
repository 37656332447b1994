/-
LibWrt.PageFrag.Sampling — what the replay loop computes.

`sampled` says it without a loop: a row for every multiple of `sample_ns`
up to the duration, taken in the state after all events up to that time.
`observe_eq` is that the loop of `replay` computes exactly this on a sorted
stream whose events all go through, and that its fuel suffices. The
invariant that carries the induction over the rounds is `At`: the rows so
far are the first `k` of `sampled`, and every event processed so far is
earlier than the next sample.
-/
import LibWrt.PageFrag.Replay
import Mathlib.Data.List.TakeWhile

namespace LibWrt.PageFrag

open List

/-! ## Runs of events -/

namespace ScenarioReplay

theorem processAll_append (r : ScenarioReplay) (es es' : List Event) :
    r.processAll (es ++ es') = (r.processAll es).bind (·.processAll es') := by
  induction es generalizing r with
  | nil => rfl
  | cons e es ih =>
    simp only [cons_append, processAll, bind, Except.bind]
    cases r.process e with
    | error err => rfl
    | ok r₁ => exact ih r₁

end ScenarioReplay

/-- The state after `es`, where they go through. -/
def replayAfter (policy : Policy) (es : List Event) : ScenarioReplay :=
  match ScenarioReplay.processAll { policy := policy } es with
  | .ok r => r
  | .error _ => { policy := policy }

/-- The state after all events up to time `t`. -/
def replayAt (policy : Policy) (events : List Event) (t : Int) : ScenarioReplay :=
  replayAfter policy (events.filter (fun e => e.timeNs ≤ t))

/-- How many multiples of the sample interval are within the duration. -/
def sampleCount (config : SimulationConfig) : Nat :=
  (config.durationNs / config.sampleNs + 1).toNat

def sampled {α : Type} (policy : Policy) (config : SimulationConfig)
    (row : Int → ScenarioReplay → α) (events : List Event) : List α :=
  (List.range (sampleCount config)).map fun (k : Nat) =>
    row (k * config.sampleNs) (replayAt policy events (k * config.sampleNs))

theorem replayAfter_of_ok {policy : Policy} {es : List Event} {r : ScenarioReplay}
    (h : ScenarioReplay.processAll { policy := policy } es = .ok r) :
    replayAfter policy es = r := by
  simp [replayAfter, h]

theorem replayAt_of_split {policy : Policy} {done rest : List Event} {t : Int}
    (hdone : ∀ e ∈ done, e.timeNs ≤ t) (hrest : ∀ e ∈ rest, t < e.timeNs) :
    replayAt policy (done ++ rest) t = replayAfter policy done := by
  have h₁ : done.filter (fun e => e.timeNs ≤ t) = done :=
    filter_eq_self.mpr fun e he => by simpa using hdone e he
  have h₂ : rest.filter (fun e => e.timeNs ≤ t) = [] :=
    filter_eq_nil_iff.mpr fun e he => by simpa using hrest e he
  rw [replayAt, filter_append, h₁, h₂, append_nil]

theorem lt_of_mem_dropWhile {e : Event} {es : List Event}
    (h : (e :: es).Pairwise (fun e e' => e.timeNs ≤ e'.timeNs)) :
    ∀ e' ∈ es.dropWhile (fun e' => e'.timeNs = e.timeNs), e.timeNs < e'.timeNs := by
  induction es with
  | nil => simp
  | cons e₁ es ih =>
    obtain ⟨hle, htail⟩ := pairwise_cons.mp h
    by_cases heq : e₁.timeNs = e.timeNs
    · rw [dropWhile_cons_of_pos (by simpa using heq)]
      exact ih (pairwise_cons.mpr
        ⟨fun e' he' => hle e' (mem_cons_of_mem _ he'), (pairwise_cons.mp htail).2⟩)
    · rw [dropWhile_cons_of_neg (by simpa using heq)]
      have hlt : e.timeNs < e₁.timeNs := by
        have := hle e₁ mem_cons_self
        omega
      intro e' he'
      cases mem_cons.mp he' with
      | inl hhead => rw [hhead]; exact hlt
      | inr hmem => exact lt_of_lt_of_le hlt ((pairwise_cons.mp htail).1 e' hmem)

namespace Replay

variable {α : Type} {config : SimulationConfig} {row : Int → ScenarioReplay → α}
  {policy : Policy} {events : List Event}

/-! ## The sampling loops -/

/-- The first `k` rows are in, and the next sample is number `k`. -/
structure At (config : SimulationConfig) (rowAt : Int → α) (k : Nat) (p : Replay α) : Prop where
  next : p.nextSample = k * config.sampleNs
  rows : p.timeline = (List.range k).map fun (j : Nat) => rowAt (j * config.sampleNs)
  within : ∀ j, j < k → (j : Int) * config.sampleNs ≤ config.durationNs

/-- One more row. -/
theorem At.push {rowAt : Int → α} {k : Nat} {p : Replay α} (h : At config rowAt k p)
    (hle : p.nextSample ≤ config.durationNs) (hrow : row p.nextSample p.replay = rowAt p.nextSample) :
    At config rowAt (k + 1) { p with
      timeline := p.timeline ++ [row p.nextSample p.replay]
      nextSample := p.nextSample + config.sampleNs } where
  next := by
    show p.nextSample + config.sampleNs = _
    rw [h.next]
    push_cast
    rw [Int.add_mul, Int.one_mul]
  rows := by
    show p.timeline ++ _ = _
    rw [range_succ, map_append, h.rows, hrow, h.next]
    rfl
  within := fun j hj => by
    cases Nat.lt_succ_iff_lt_or_eq.mp hj with
    | inl hlt => exact h.within j hlt
    | inr heq =>
      rw [heq, ← h.next]
      exact hle

/-- A sampling loop ends with its next sample out of range, and appends rows
of the one state it runs in. -/
theorem samplesBefore_spec (hsample : 0 < config.sampleNs) {rowAt : Int → α} {timeNs : Int} :
    ∀ (fuel : Nat) (k : Nat) (p : Replay α), At config rowAt k p →
      config.durationNs + 1 - p.nextSample ≤ fuel →
      (∀ n, p.nextSample ≤ n → n < timeNs → n ≤ config.durationNs →
        row n p.replay = rowAt n) →
      ∃ k' p', samplesBefore config row timeNs fuel p = .ok p' ∧ At config rowAt k' p' ∧
        p'.replay = p.replay ∧ p'.integrals = p.integrals ∧ p.nextSample ≤ p'.nextSample ∧
        ¬ (p'.nextSample < timeNs ∧ p'.nextSample ≤ config.durationNs)
  | 0, k, p, h, hfuel, _ => by
    have hout : ¬ (p.nextSample < timeNs ∧ p.nextSample ≤ config.durationNs) := by omega
    exact ⟨k, p, if_neg hout, h, rfl, rfl, le_refl _, hout⟩
  | fuel + 1, k, p, h, hfuel, hrow => by
    by_cases hin : p.nextSample < timeNs ∧ p.nextSample ≤ config.durationNs
    · have hpush := h.push hin.2 (hrow _ (le_refl _) hin.1 hin.2)
      obtain ⟨k', p', hrun, hat, hreplay, hint, hle, hout⟩ :=
        samplesBefore_spec hsample fuel (k + 1) _ hpush
          (by show _ - (p.nextSample + config.sampleNs) ≤ _; omega)
          (fun n hn => hrow n (by
            have : p.nextSample + config.sampleNs ≤ n := hn
            omega))
      have hle' : p.nextSample + config.sampleNs ≤ p'.nextSample := hle
      refine ⟨k', p', ?_, hat, hreplay, hint, by omega, hout⟩
      rw [samplesBefore, if_pos hin]
      exact hrun
    · exact ⟨k, p, if_neg hin, h, rfl, rfl, le_refl _, hin⟩

/-! ## The rounds -/

theorem integrals_to {i : Integrals} {a : Aggregate} {timeNs : Int}
    (h : i.lastIntegratedNs ≤ timeNs) :
    ∃ i', i.to a timeNs = .ok i' ∧ i'.lastIntegratedNs = timeNs := by
  have hnn : ¬ timeNs - i.lastIntegratedNs < 0 := by omega
  simp only [Integrals.to, if_neg hnn]
  exact ⟨_, rfl, rfl⟩

/-- Where the loop stands between two rounds: `done` is processed. -/
structure Between (policy : Policy) (config : SimulationConfig) (row : Int → ScenarioReplay → α)
    (events done rest : List Event) (k : Nat) (p : Replay α) : Prop where
  split : events = done ++ rest
  replay : ScenarioReplay.processAll { policy := policy } done = .ok p.replay
  sampled : At config (fun n => row n (replayAt policy events n)) k p
  past : ∀ e ∈ done, e.timeNs < p.nextSample
  integrated : p.integrals.lastIntegratedNs ≤ config.durationNs ∧
    ∀ e ∈ rest, p.integrals.lastIntegratedNs ≤ e.timeNs

/-- What the loop needs of a stream. -/
structure Replayable (policy : Policy) (config : SimulationConfig) (events : List Event) :
    Prop where
  sorted : events.Pairwise (fun e e' => e.timeNs ≤ e'.timeNs)
  times : ∀ e ∈ events, 0 ≤ e.timeNs ∧ e.timeNs ≤ config.durationNs
  goes : ∀ es es', events = es ++ es' →
    ∃ r, ScenarioReplay.processAll { policy := policy } es = .ok r

theorem Between.round (hsample : 0 < config.sampleNs) (hr : Replayable policy config events)
    {done es : List Event} {e : Event} {k : Nat} {p : Replay α}
    (h : Between policy config row events done (e :: es) k p) :
    ∃ k' p', Replay.round config row e.timeNs
        (e :: es.takeWhile (fun e' => e'.timeNs = e.timeNs)) p = .ok p' ∧
      Between policy config row events
        (done ++ e :: es.takeWhile (fun e' => e'.timeNs = e.timeNs))
        (es.dropWhile (fun e' => e'.timeNs = e.timeNs)) k' p' := by
  set group := e :: es.takeWhile (fun e' => e'.timeNs = e.timeNs) with hgroup
  set rest := es.dropWhile (fun e' => e'.timeNs = e.timeNs) with hrest
  have hsplit : events = (done ++ group) ++ rest := by
    rw [h.split, hgroup, hrest, append_assoc, cons_append,
      takeWhile_append_dropWhile]
  have hsorted : (e :: es).Pairwise (fun e e' => e.timeNs ≤ e'.timeNs) :=
    (pairwise_append.mp (h.split ▸ hr.sorted)).2.1
  have htime := hr.times e (by rw [h.split]; simp)
  have hnext := h.sampled.next
  have hnn : 0 ≤ p.nextSample := by
    rw [hnext]
    exact Int.mul_nonneg (Int.natCast_nonneg k) (le_of_lt hsample)
  -- the samples before the group's time
  have hbefore : ∀ n, p.nextSample ≤ n → n < e.timeNs → n ≤ config.durationNs →
      row n p.replay = row n (replayAt policy events n) := by
    intro n hn hlt _
    rw [h.split, replayAt_of_split (fun e' he' => by have := h.past e' he'; omega)
      (fun e' he' => ?_), replayAfter_of_ok h.replay]
    cases mem_cons.mp he' with
    | inl heq => rw [heq]; exact hlt
    | inr hmem => exact lt_of_lt_of_le hlt ((pairwise_cons.mp hsorted).1 e' hmem)
  obtain ⟨k₁, p₁, hrun₁, hat₁, hreplay₁, hint₁, hle₁, hout₁⟩ :=
    samplesBefore_spec hsample (sampleFuel config) k p h.sampled
      (by unfold sampleFuel; omega) hbefore
  obtain ⟨i₂, hint₂, hlast₂⟩ := integrals_to (a := p₁.replay.aggregate)
    (hint₁ ▸ h.integrated.2 e mem_cons_self : p₁.integrals.lastIntegratedNs ≤ e.timeNs)
  obtain ⟨r₂, hr₂⟩ := hr.goes (done ++ group) rest hsplit
  have hgo : p₁.replay.processAll group = .ok r₂ := by
    rw [ScenarioReplay.processAll_append, h.replay] at hr₂
    rw [hreplay₁]
    exact hr₂
  have hge : e.timeNs ≤ p₁.nextSample := by omega
  have hgrouptime : ∀ e' ∈ group, e'.timeNs = e.timeNs := by
    intro e' he'
    cases mem_cons.mp he' with
    | inl heq => rw [heq]
    | inr hmem => simpa using mem_takeWhile_imp hmem
  have hlater : ∀ e' ∈ rest, e.timeNs < e'.timeNs := lt_of_mem_dropWhile hsorted
  have hpast₁ : ∀ e' ∈ done ++ group, e'.timeNs ≤ p₁.nextSample := by
    intro e' he'
    cases mem_append.mp he' with
    | inl hd => have := h.past e' hd; omega
    | inr hg => rw [hgrouptime e' hg]; exact hge
  set p₂ : Replay α := { p₁ with integrals := i₂, replay := r₂ } with hp₂
  have hat₂ : At config (fun n => row n (replayAt policy events n)) k₁ p₂ :=
    ⟨hat₁.next, hat₁.rows, hat₁.within⟩
  have hintegrated : i₂.lastIntegratedNs ≤ config.durationNs ∧
      ∀ e' ∈ rest, i₂.lastIntegratedNs ≤ e'.timeNs := by
    rw [hlast₂]
    exact ⟨htime.2, fun e' he' => le_of_lt (hlater e' he')⟩
  have hround : Replay.round config row e.timeNs group p = .ok
      (if p₂.nextSample = e.timeNs then { p₂ with
        timeline := p₂.timeline ++ [row p₂.nextSample p₂.replay]
        nextSample := p₂.nextSample + config.sampleNs }
      else p₂) := by
    simp only [Replay.round, hrun₁, bind, Except.bind, hint₂, hgo, pure, Except.pure]
    split <;> rfl
  by_cases heq : p₂.nextSample = e.timeNs
  · rw [if_pos heq] at hround
    refine ⟨k₁ + 1, _, hround, hsplit, hr₂, hat₂.push (by rw [heq]; exact htime.2) ?_, ?_,
      hintegrated⟩
    · show row p₂.nextSample r₂ = row p₂.nextSample (replayAt policy events p₂.nextSample)
      rw [hsplit, replayAt_of_split (fun e' he' => hpast₁ e' he')
        (fun e' he' => by rw [heq]; exact hlater e' he'), replayAfter_of_ok hr₂]
    · intro e' he'
      show e'.timeNs < p₁.nextSample + config.sampleNs
      have := hpast₁ e' he'
      omega
  · rw [if_neg heq] at hround
    refine ⟨k₁, p₂, hround, hsplit, hr₂, hat₂, ?_, hintegrated⟩
    have hne : p₁.nextSample ≠ e.timeNs := heq
    intro e' he'
    show e'.timeNs < p₁.nextSample
    cases mem_append.mp he' with
    | inl hd => have := h.past e' hd; omega
    | inr hg => rw [hgrouptime e' hg]; omega

theorem Between.rounds (hsample : 0 < config.sampleNs) (hr : Replayable policy config events) :
    ∀ (fuel : Nat) (done rest : List Event) (k : Nat) (p : Replay α),
      rest.length ≤ fuel → Between policy config row events done rest k p →
      ∃ k' p', Replay.rounds config row fuel rest p = .ok p' ∧
        Between policy config row events events [] k' p'
  | _, done, [], k, p, _, h => by
    have hdone : events = done := by rw [h.split, append_nil]
    refine ⟨k, p, by unfold Replay.rounds; rfl, ?_⟩
    rw [← hdone] at h
    exact h
  | 0, _, _ :: _, _, _, hfuel, _ => by simp at hfuel
  | fuel + 1, done, e :: es, k, p, hfuel, h => by
    obtain ⟨k₁, p₁, hround, h₁⟩ := h.round hsample hr
    have hlen : (es.dropWhile (fun e' => e'.timeNs = e.timeNs)).length ≤ fuel := by
      have := (dropWhile_sublist (l := es) (fun e' => e'.timeNs = e.timeNs)).length_le
      simp only [length_cons] at hfuel
      omega
    obtain ⟨k', p', hrounds, h'⟩ := Between.rounds hsample hr fuel _ _ k₁ p₁ hlen h₁
    refine ⟨k', p', ?_, h'⟩
    simp only [Replay.rounds, hround, bind, Except.bind]
    exact hrounds

/-- **What the replay loop computes**: the rows of `sampled`, and the state
after all events. It does not raise and does not run out of fuel. -/
theorem observe_eq (hduration : 0 < config.durationNs) (hsample : 0 < config.sampleNs)
    (hr : Replayable policy config events) (row : Int → ScenarioReplay → α) :
    ∃ p, observe policy config row events = .ok p ∧
      p.timeline = sampled policy config row events ∧ p.replay = replayAfter policy events := by
  have hstart : Between policy config row events [] events 0
      { replay := { policy := policy } } := by
    refine ⟨rfl, rfl, ⟨by simp, rfl, fun j hj => absurd hj (Nat.not_lt_zero j)⟩, by simp, ?_⟩
    exact ⟨le_of_lt hduration, fun e he => (hr.times e he).1⟩
  obtain ⟨k₁, p₁, hrun₁, h₁⟩ := hstart.rounds hsample hr events.length [] events 0 _ (le_refl _)
  obtain ⟨i₂, hint₂, -⟩ := integrals_to (a := p₁.replay.aggregate) h₁.integrated.1
  have hstate : replayAfter policy events = p₁.replay := replayAfter_of_ok h₁.replay
  have hnn : 0 ≤ p₁.nextSample := by
    rw [h₁.sampled.next]
    exact Int.mul_nonneg (Int.natCast_nonneg k₁) (le_of_lt hsample)
  have hlast : ∀ n, p₁.nextSample ≤ n → n < config.durationNs + 1 → n ≤ config.durationNs →
      row n p₁.replay = row n (replayAt policy events n) := by
    intro n hn _ _
    have hall : replayAt policy (events ++ []) n = replayAfter policy events :=
      replayAt_of_split (fun e he => by have := h₁.past e he; omega) (by simp)
    rw [append_nil] at hall
    rw [hall, hstate]
  obtain ⟨k, p, hrun, hat, hreplay, -, -, hout⟩ :=
    samplesBefore_spec hsample (sampleFuel config) k₁ { p₁ with integrals := i₂ }
      ⟨h₁.sampled.next, h₁.sampled.rows, h₁.sampled.within⟩
      (by
        show config.durationNs + 1 - p₁.nextSample ≤ _
        unfold sampleFuel
        omega)
      hlast
  refine ⟨p, ?_, ?_, hreplay.trans hstate.symm⟩
  · simp only [observe, hrun₁, bind, Except.bind, hint₂]
    exact hrun
  · -- the last row is the last one within the duration
    have hk : k = sampleCount config := by
      have hover : config.durationNs < k * config.sampleNs := by
        have := hat.next
        omega
      have hlt : config.durationNs / config.sampleNs < k :=
        Int.ediv_lt_of_lt_mul hsample hover
      have hdiv : 0 ≤ config.durationNs / config.sampleNs :=
        Int.ediv_nonneg (le_of_lt hduration) (le_of_lt hsample)
      have hpred : (k : Int) - 1 ≤ config.durationNs / config.sampleNs := by
        obtain ⟨j, rfl⟩ : ∃ j, k = j + 1 := ⟨k - 1, by omega⟩
        have := hat.within j (Nat.lt_succ_self j)
        have := Int.le_ediv_of_mul_le hsample this
        push_cast
        omega
      unfold sampleCount
      omega
    rw [hat.rows, hk]
    rfl

end Replay

end LibWrt.PageFrag
