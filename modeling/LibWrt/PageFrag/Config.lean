/-
LibWrt.PageFrag.Config — `SimulationConfig` and what its `validate` accepts.

`valid_of_validate` turns an accepted configuration into named facts; they
are all that the rest of the development uses of `validate`.
-/
import LibWrt.PageFrag.Cache

namespace LibWrt.PageFrag

def laneWeights : List Int := [745, 468, 182, 130]

structure SimulationConfig where
  seed : Int := 1
  durationNs : Int := 30000000000
  sampleNs : Int := 1000000000
  radios : Int := 3
  dataCapacity : Int := 4095
  monitorCapacity : Int := 1024
  dataRate : Decimal := .finite (253 / 10)
  monitorRate : Decimal := .finite (1836 / 10)
  ceRate : Decimal := .finite (1736 / 10)
  dataHoldNs : Int := 12000000000
  monitorHoldNs : Int := 20000000
  ceHoldNs : Int := 5000000
  lifetimeJitterPercent : Int := 50
  burstMax : Int := 8
  laneWeights : List Int := PageFrag.laneWeights

def ofSignal {α : Type} : Except Decimal.Signal α → Except PyError α
  | .error s => .error (.decimal s)
  | .ok a => .ok a

namespace SimulationConfig

/-- `min(data_rate, monitor_rate, ce_rate) < 0`. -/
def ratesNegative (c : SimulationConfig) : Except PyError Bool :=
  match ofSignal (Decimal.min c.dataRate c.monitorRate) with
  | .error e => .error e
  | .ok low =>
    match ofSignal (Decimal.min low c.ceRate) with
    | .error e => .error e
    | .ok low => ofSignal (Decimal.lt low (.ofInt 0))

def validate (c : SimulationConfig) : Except PyError Unit :=
  if c.durationNs ≤ 0 then
    .error (.valueError "duration must be positive")
  else if c.sampleNs ≤ 0 then
    .error (.valueError "sample interval must be positive")
  else if c.radios ≤ 0 ∨ c.dataCapacity ≤ 0 ∨ c.monitorCapacity ≤ 0 then
    .error (.valueError "ring counts and capacities must be positive")
  else
    match c.ratesNegative with
    | .error e => .error e
    | .ok true => .error (.valueError "rates cannot be negative")
    | .ok false =>
      if min (min c.dataHoldNs c.monitorHoldNs) c.ceHoldNs ≤ 0 then
        .error (.valueError "lifetimes must be positive")
      else if ¬ (0 ≤ c.lifetimeJitterPercent ∧ c.lifetimeJitterPercent ≤ 100) then
        .error (.valueError "lifetime jitter must be between 0 and 100 percent")
      else if c.burstMax ≤ 0 then
        .error (.valueError "burst-max must be positive")
      else if c.laneWeights.min?.all (· ≤ 0) then
        .error (.valueError "lane weights must all be positive")
      else
        .ok ()

/-- A rate that is a non-negative number or positive infinity. -/
def RateOk : Decimal → Prop
  | .finite q => 0 ≤ q
  | .infinity neg => neg = false
  | .nan => False

structure Valid (c : SimulationConfig) : Prop where
  duration : 0 < c.durationNs
  sample : 0 < c.sampleNs
  radios : 0 < c.radios
  data_capacity : 0 < c.dataCapacity
  monitor_capacity : 0 < c.monitorCapacity
  rates : RateOk c.dataRate ∧ RateOk c.monitorRate ∧ RateOk c.ceRate
  data_hold : 0 < c.dataHoldNs
  monitor_hold : 0 < c.monitorHoldNs
  ce_hold : 0 < c.ceHoldNs
  jitter : 0 ≤ c.lifetimeJitterPercent ∧ c.lifetimeJitterPercent ≤ 100
  burst : 0 < c.burstMax
  weights : c.laneWeights ≠ [] ∧ ∀ w ∈ c.laneWeights, 0 < w

/-- The smaller of two is acceptable only if both are. -/
theorem rateOk_of_min {a b m : Decimal} (h : Decimal.min a b = .ok m) (hm : RateOk m) :
    RateOk a ∧ RateOk b := by
  unfold Decimal.min at h
  cases a <;> cases b <;> simp only [Decimal.lt] at h <;> cases h
  case finite.finite p q =>
    simp only [decide_eq_true_eq] at hm
    split at hm <;> simp only [RateOk] at hm ⊢
    · exact ⟨le_of_lt (lt_of_le_of_lt hm ‹_›), hm⟩
    · exact ⟨hm, le_trans hm (not_lt.mp ‹_›)⟩
  case finite.infinity p neg => cases neg <;> simp_all [RateOk]
  case infinity.finite neg q => cases neg <;> simp_all [RateOk]
  case infinity.infinity neg neg' => cases neg <;> cases neg' <;> simp_all [RateOk]

theorem rateOk_of_lt {m : Decimal} (h : Decimal.lt m (.ofInt 0) = .ok false) : RateOk m := by
  cases m with
  | finite q => simpa [Decimal.lt, Decimal.ofInt, RateOk] using h
  | infinity neg => simpa [Decimal.lt, Decimal.ofInt, RateOk] using h
  | nan => simp [Decimal.lt] at h

theorem ofSignal_ok {α : Type} {x : Except Decimal.Signal α} {a : α}
    (h : ofSignal x = .ok a) : x = .ok a := by
  cases x with
  | error s => cases h
  | ok b => cases h; rfl

theorem rates_of_ratesNegative {c : SimulationConfig} (h : c.ratesNegative = .ok false) :
    RateOk c.dataRate ∧ RateOk c.monitorRate ∧ RateOk c.ceRate := by
  unfold ratesNegative at h
  split at h
  · cases h
  · rename_i low hlow
    split at h
    · cases h
    · rename_i low' hlow'
      have hm := rateOk_of_lt (ofSignal_ok h)
      obtain ⟨hl, hce⟩ := rateOk_of_min (ofSignal_ok hlow') hm
      obtain ⟨hd, hmon⟩ := rateOk_of_min (ofSignal_ok hlow) hl
      exact ⟨hd, hmon, hce⟩

/-- **What `validate` accepts.** -/
theorem valid_of_validate {c : SimulationConfig} (h : c.validate = .ok ()) : c.Valid := by
  unfold validate at h
  split at h
  · cases h
  rename_i hduration
  split at h
  · cases h
  rename_i hsample
  split at h
  · cases h
  rename_i hrings
  split at h
  · cases h
  · cases h
  rename_i hrates
  split at h
  · cases h
  rename_i hhold
  split at h
  · cases h
  rename_i hjitter
  split at h
  · cases h
  rename_i hburst
  split at h
  · cases h
  rename_i hweights
  have hmin : ∃ m, c.laneWeights.min? = some m ∧ 0 < m := by
    cases hm : c.laneWeights.min? with
    | none => simp [hm] at hweights
    | some m => exact ⟨m, rfl, by simpa [hm] using hweights⟩
  obtain ⟨m, hm, hpos⟩ := hmin
  obtain ⟨hmem, hle⟩ := List.min?_eq_some_iff.mp hm
  exact
    { duration := by omega
      sample := by omega
      radios := by omega
      data_capacity := by omega
      monitor_capacity := by omega
      rates := rates_of_ratesNegative hrates
      data_hold := by omega
      monitor_hold := by omega
      ce_hold := by omega
      jitter := not_not.mp hjitter
      burst := by omega
      weights := ⟨List.ne_nil_of_mem hmem, fun w hw => lt_of_lt_of_le hpos (hle w hw)⟩ }

end SimulationConfig

end LibWrt.PageFrag
