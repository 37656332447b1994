/-
LibWrt.PageFrag.BuilderSpec — one lemma for each method of the builder.

For an accepted configuration no method raises, and the random generator
is the only thing the drawing methods change. What is kept of a draw is its
range: a lane exists, a lifetime is at least 1, event times are sorted and
within the run, and there are exactly `count` of them.
-/
import LibWrt.PageFrag.Builder

namespace LibWrt.PageFrag

open List Decimal

/-! ## `SplitMix64` -/

namespace SplitMix64

theorem below_spec (g : SplitMix64) (bound : Int) (h : 0 < bound) :
    ∃ v g', g.below bound = .ok (v, g') ∧ 0 ≤ v ∧ v < bound :=
  ⟨_, _, if_neg (by omega), Int.emod_nonneg _ (by omega), Int.emod_lt_of_pos _ h⟩

theorem swap_perm {α : Type} (values : List α) (i j : Nat) : (swap values i j).Perm values := by
  unfold swap
  split
  · rename_i a b hi hj
    obtain ⟨hi', rfl⟩ := List.getElem?_eq_some_iff.mp hi
    obtain ⟨hj', rfl⟩ := List.getElem?_eq_some_iff.mp hj
    exact set_set_perm hi' hj'
  · exact List.Perm.refl _

theorem shuffleFrom_spec {α : Type} : ∀ (n : Nat) (g : SplitMix64) (values : List α),
    ∃ out g', shuffleFrom n g values = .ok (out, g') ∧ out.Perm values
  | 0, g, values => ⟨values, g, rfl, List.Perm.refl _⟩
  | n + 1, g, values => by
    obtain ⟨v, g₁, hv, -, -⟩ := below_spec g (n + 2) (by omega)
    obtain ⟨out, g₂, hout, hperm⟩ := shuffleFrom_spec n g₁ (swap values (n + 1) v.toNat)
    refine ⟨out, g₂, ?_, hperm.trans (swap_perm values _ _)⟩
    simp only [shuffleFrom, hv, bind, Except.bind]
    exact hout

theorem shuffle_spec {α : Type} (g : SplitMix64) (values : List α) :
    ∃ out g', g.shuffle values = .ok (out, g') ∧ out.Perm values :=
  shuffleFrom_spec _ g values

end SplitMix64

/-! ## Counts -/

open SimulationConfig (RateOk ofSignal_ok)

/-- A count is never negative. -/
theorem eventCount_nonneg {config : SimulationConfig} {rate : Decimal} {n : Int}
    (hduration : 0 < config.durationNs) (hrate : RateOk rate)
    (h : eventCount config rate = .ok n) : 0 ≤ n := by
  cases rate with
  | nan => exact absurd hrate id
  | infinity neg =>
    have hdur : ¬ (config.durationNs : ℚ) = 0 := by exact_mod_cast hduration.ne'
    simp [eventCount, Decimal.mul, Decimal.ofInt, hdur, ofSignal, bind, Except.bind,
      Decimal.div, toIntegralHalfUp] at h
  | finite q =>
    have hdur : (0 : ℚ) ≤ config.durationNs := by exact_mod_cast hduration.le
    simp only [eventCount, bind, Except.bind] at h
    cases hp : ofSignal (Decimal.mul (.finite q) (.ofInt config.durationNs)) with
    | error e => simp [hp] at h
    | ok p =>
      obtain ⟨p, rfl, hpn⟩ := fix_nonneg (mul_nonneg hrate hdur) (ofSignal_ok hp)
      simp only [hp] at h
      cases hx : ofSignal (Decimal.div (.finite p) (.ofInt 1000000000)) with
      | error e => simp [hx] at h
      | ok x =>
        have hx' := ofSignal_ok hx
        simp only [Decimal.div, Decimal.ofInt] at hx'
        rw [if_neg (by norm_num)] at hx'
        obtain ⟨x, rfl, hxn⟩ := fix_nonneg (div_nonneg hpn (by norm_num)) hx'
        simp only [hx, toIntegralHalfUp, roundHalfUp_nonneg hxn,
          truncate_intCast] at h
        cases h
        exact Int.floor_nonneg.mpr (by linarith)

/-- **The count is exact where the decimal context is**: a rate whose product
with the duration, and that over 10⁹, need no rounding. -/
theorem eventCount_exact {config : SimulationConfig} {q : ℚ} (hq : 0 ≤ q)
    (hduration : 0 < config.durationNs)
    (hproduct : Representable (q * config.durationNs))
    (hquotient : Representable (q * config.durationNs / 1000000000)) :
    eventCount config (.finite q)
      = .ok ⌊q * config.durationNs / 1000000000 + 1 / 2⌋ := by
  have hdur : (0 : ℚ) ≤ config.durationNs := by exact_mod_cast hduration.le
  have hnn : (0 : ℚ) ≤ q * config.durationNs / 1000000000 :=
    div_nonneg (mul_nonneg hq hdur) (by norm_num)
  have hmul : Decimal.mul (.finite q) (.ofInt config.durationNs)
      = .ok (.finite (q * config.durationNs)) :=
    fix_of_representable hproduct
  have hdiv : Decimal.div (.finite (q * config.durationNs)) (.ofInt 1000000000)
      = .ok (.finite (q * config.durationNs / 1000000000)) := by
    simp only [Decimal.div, Decimal.ofInt]
    rw [if_neg (by norm_num)]
    exact fix_of_representable hquotient
  simp only [eventCount, hmul, hdiv, ofSignal, bind, Except.bind, toIntegralHalfUp,
    roundHalfUp_nonneg hnn, truncate_intCast]

/-! ## Draws -/

namespace EventBuilder

variable {b : EventBuilder}

theorem below_spec (b : EventBuilder) (bound : Int) (h : 0 < bound) :
    ∃ v rng, b.below bound = .ok (v, { b with rng := rng }) ∧ 0 ≤ v ∧ v < bound := by
  obtain ⟨v, g, hv, hnn, hlt⟩ := SplitMix64.below_spec b.rng bound h
  exact ⟨v, g, by simp only [below, hv, bind, Except.bind]; rfl, hnn, hlt⟩

theorem laneFrom_spec : ∀ (weights : List Int) (index : Nat) (roll : Int),
    0 ≤ roll → roll < weights.sum → ∃ lane, laneFrom index roll weights = .ok lane
  | [], _, _, hnn, hlt => by simp at hlt; omega
  | w :: ws, index, roll, hnn, hlt => by
    rw [sum_cons] at hlt
    by_cases h : roll < w
    · exact ⟨_, by rw [laneFrom, if_pos h]⟩
    · obtain ⟨lane, hlane⟩ := laneFrom_spec ws (index + 1) (roll - w) (by omega) (by omega)
      exact ⟨lane, by rw [laneFrom, if_neg h, hlane]⟩

theorem sum_pos {weights : List Int} (hne : weights ≠ []) (hpos : ∀ w ∈ weights, 0 < w) :
    0 < weights.sum := by
  cases weights with
  | nil => exact absurd rfl hne
  | cons w ws =>
    have hrest : 0 ≤ ws.sum :=
      List.sum_nonneg fun x hx => le_of_lt (hpos x (mem_cons_of_mem _ hx))
    have := hpos w mem_cons_self
    rw [sum_cons]
    omega

theorem lane_spec (hv : b.config.Valid) :
    ∃ lane rng, b.lane = .ok (lane, { b with rng := rng }) := by
  obtain ⟨roll, rng, hroll, hnn, hlt⟩ := b.below_spec _ (sum_pos hv.weights.1 hv.weights.2)
  obtain ⟨lane, hlane⟩ := laneFrom_spec b.config.laneWeights 0 roll hnn hlt
  exact ⟨lane, rng, by simp only [EventBuilder.lane, hroll, hlane, bind, Except.bind]; rfl⟩

/-- A lifetime is at least one nanosecond. -/
theorem lifetime_spec (hv : b.config.Valid) {baseNs : Int} (hbase : 0 < baseNs) :
    ∃ held rng, b.lifetime baseNs = .ok (held, { b with rng := rng }) ∧ 1 ≤ held := by
  have hspread : 0 ≤ baseNs * b.config.lifetimeJitterPercent / 100 :=
    Int.ediv_nonneg (Int.mul_nonneg (le_of_lt hbase) hv.jitter.1) (by norm_num)
  unfold lifetime
  by_cases hzero : baseNs * b.config.lifetimeJitterPercent / 100 = 0
  · refine ⟨baseNs, b.rng, ?_, by omega⟩
    simp only [hzero, if_true]
    rfl
  · obtain ⟨extra, rng, hextra, -, -⟩ := b.below_spec
      (2 * (baseNs * b.config.lifetimeJitterPercent / 100) + 1) (by omega)
    simp only [hzero, if_false, hextra, bind, Except.bind]
    exact ⟨_, rng, rfl, le_max_left _ _⟩

theorem jitter_spec (b : EventBuilder) (anchor : Int) (span : Int) (h : 0 ≤ span) :
    ∃ anchor' rng, b.jitter anchor span = .ok (anchor', { b with rng := rng }) := by
  unfold jitter
  by_cases hzero : span = 0
  · exact ⟨anchor, b.rng, by rw [if_pos hzero]⟩
  · obtain ⟨offset, rng, hoffset, -, -⟩ := b.below_spec (2 * span + 1) (by omega)
    simp only [hzero, if_false, hoffset, bind, Except.bind]
    exact ⟨_, rng, rfl⟩

/-! ## Event times -/

/-- A time within the run, and after its start. -/
def InRun (config : SimulationConfig) (timeNs : Int) : Prop :=
  1 ≤ timeNs ∧ timeNs ≤ config.durationNs

theorem burst_spec {config : SimulationConfig} (hduration : 0 < config.durationNs)
    (anchor spacing n : Int) :
    (burst config anchor spacing n).length = n.toNat ∧
      ∀ t ∈ burst config anchor spacing n, InRun config t := by
  refine ⟨by simp [burst], fun t ht => ?_⟩
  obtain ⟨within, -, rfl⟩ := mem_map.mp ht
  constructor
  · exact le_min (by omega) (le_max_left _ _)
  · exact min_le_left _ _

/-- The burst loop emits what is still missing and never runs out of fuel: a
burst emits at least one event and at most the rest. -/
theorem bursts_spec (hv : b.config.Valid) (count : Int) {gap : Int} (hgap : 0 ≤ gap) :
    ∀ (fuel : Nat) (emitted : Int) (times : List Int) (rng : SplitMix64),
      emitted ≤ count → count - emitted ≤ fuel →
      ∃ more rng', bursts count gap fuel emitted times { b with rng := rng }
          = .ok (times ++ more, { b with rng := rng' }) ∧
        (more.length : Int) = count - emitted ∧ ∀ t ∈ more, InRun b.config t
  | 0, emitted, times, rng, hle, hfuel => by
    have hdone : ¬ emitted < count := by omega
    refine ⟨[], rng, by simp [bursts, hdone], ?_, by simp⟩
    simp
    omega
  | fuel + 1, emitted, times, rng, hle, hfuel => by
    by_cases hmore : emitted < count
    · have hburst := hv.burst
      obtain ⟨v, rng₁, hdraw, hnn, hlt⟩ := below_spec { b with rng := rng }
        (min b.config.burstMax (count - emitted)) (by omega)
      obtain ⟨anchor, rng₂, hjitter⟩ := jitter_spec { b with rng := rng₁ }
        ((emitted + 1) * b.config.durationNs / (count + 1)) (gap / 3) (by omega)
      set ts := burst b.config anchor (max 1 (min 100000 (gap / 100))) (1 + v) with hts
      obtain ⟨hlen, hrun⟩ := burst_spec hv.duration anchor
        (max 1 (min 100000 (gap / 100))) (1 + v)
      obtain ⟨more, rng', hrest, hmorelen, hmorerun⟩ :=
        bursts_spec hv count hgap fuel (emitted + (1 + v)) (times ++ ts) rng₂ (by omega) (by omega)
      refine ⟨ts ++ more, rng', ?_, ?_, ?_⟩
      · simp only [bursts, if_pos hmore, hdraw, hjitter, bind, Except.bind]
        rw [← append_assoc]
        exact hrest
      · rw [length_append, hlen]
        push_cast
        omega
      · intro t ht
        cases mem_append.mp ht with
        | inl h => exact hrun t h
        | inr h => exact hmorerun t h
    · refine ⟨[], rng, by simp [bursts, hmore], ?_, by simp⟩
      simp
      omega

/-- `_event_times`: as many times as the count, sorted and within the run. -/
theorem eventTimes_spec (hv : b.config.Valid) {rate : Decimal} {count : Int}
    (hcount : eventCount b.config rate = .ok count) (hnn : 0 ≤ count) :
    ∃ times rng, b.eventTimes rate = .ok (times, { b with rng := rng }) ∧
      (times.length : Int) = count ∧ times.Pairwise (· ≤ ·) ∧
      ∀ t ∈ times, InRun b.config t := by
  by_cases hzero : count = 0
  · refine ⟨[], b.rng, ?_, by simp [hzero], List.Pairwise.nil, by simp⟩
    simp only [eventTimes, hcount, hzero, if_true, bind, Except.bind]
    rfl
  · obtain ⟨ts, rng, hrun, hlen, hin⟩ := bursts_spec hv count
      (show 0 ≤ max 1 (b.config.durationNs / (count + 1)) by omega) count.toNat 0 [] b.rng
      hnn (by omega)
    refine ⟨ts.mergeSort (· ≤ ·), rng, ?_, ?_, ?_, ?_⟩
    · simp only [eventTimes, hcount, hzero, if_false, bind, Except.bind]
      have hrun' : bursts count (max 1 (b.config.durationNs / (count + 1))) count.toNat 0 [] b
          = .ok (ts, { b with rng := rng }) := hrun
      rw [hrun']
      rfl
    · rw [length_mergeSort]
      omega
    · have hsorted : (ts.mergeSort (· ≤ ·)).Pairwise fun a b => decide (a ≤ b) = true :=
        pairwise_mergeSort (by simp only [decide_eq_true_eq]; intros; omega)
          (by simp only [Bool.or_eq_true, decide_eq_true_eq]; intros; omega) ts
      simpa using hsorted
    · intro t ht
      exact hin t (mem_mergeSort.mp ht)

/-! ## Posting -/

theorem post_spec (hv : b.config.Valid) (timeNs : Int) (source ring life : String)
    (requested aligned slot : Int) :
    ∃ lane rng, b.post timeNs source ring life requested aligned slot =
      .ok (b.nextLogicalId,
        EventBuilder.add { b with nextLogicalId := b.nextLogicalId + 1, rng := rng }
          timeNs .post b.nextLogicalId
          { source := source, ring := ring, lane := lane, lifetime := life,
            requestedBytes := requested, alignedBytes := aligned, slot := slot }) := by
  obtain ⟨lane, rng, hlane⟩ :=
    lane_spec (b := { b with nextLogicalId := b.nextLogicalId + 1 }) hv
  refine ⟨lane, rng, ?_⟩
  simp only [post, newLogicalId, hlane, bind, Except.bind]
  rfl

theorem before_iff {e e' : Event} :
    before e e' ↔ e.timeNs < e'.timeNs ∨ (e.timeNs = e'.timeNs ∧ e.seq ≤ e'.seq) := by
  simp [before]

theorem setSlot_spec {ring : String} {ids : List Nat} {slot : Nat} (id : Nat)
    (hids : b.slots.get? ring = some ids) (hlt : slot < ids.length) :
    b.setSlot ring slot id = .ok { b with slots := b.slots.set ring (ids.set slot id) } := by
  simp [setSlot, hids, hlt]

end EventBuilder

end LibWrt.PageFrag
