/-
LibWrt.PageFrag.Builder — `EventBuilder`, which generates the traffic.

The methods take the builder before and return the builder after, with the
calls of the random generator in the order of the source. A Python loop
over a list is a recursion on the list; the one `while` loop, in
`_event_times`, has a unit of fuel for each event it still has to emit.
-/
import LibWrt.PageFrag.Config
import LibWrt.PageFrag.Event

namespace LibWrt.PageFrag

/-! ## `SplitMix64` -/

structure SplitMix64 where
  state : UInt64

namespace SplitMix64

def ofSeed (seed : Int) : SplitMix64 :=
  { state := UInt64.ofNat (seed % 2 ^ 64).toNat }

def nextU64 (g : SplitMix64) : UInt64 × SplitMix64 :=
  let state := g.state + 0x9E3779B97F4A7C15
  let value := (state ^^^ (state >>> 30)) * 0xBF58476D1CE4E5B9
  let value := (value ^^^ (value >>> 27)) * 0x94D049BB133111EB
  (value ^^^ (value >>> 31), { state := state })

def below (g : SplitMix64) (bound : Int) : Except PyError (Int × SplitMix64) :=
  if bound ≤ 0 then
    .error (.valueError "bound must be positive")
  else
    .ok ((g.nextU64.1.toNat : Int) % bound, g.nextU64.2)

/-- `values[i], values[j] = values[j], values[i]`. -/
def swap {α : Type} (values : List α) (i j : Nat) : List α :=
  match values[i]?, values[j]? with
  | some a, some b => (values.set i b).set j a
  | _, _ => values

/-- `for index in range(n, 0, -1)` of `shuffle`. -/
def shuffleFrom {α : Type} : Nat → SplitMix64 → List α → Except PyError (List α × SplitMix64)
  | 0, g, values => .ok (values, g)
  | index + 1, g, values => do
    let (other, g) ← g.below (index + 2)
    shuffleFrom index g (swap values (index + 1) other.toNat)

def shuffle {α : Type} (g : SplitMix64) (values : List α) :
    Except PyError (List α × SplitMix64) :=
  shuffleFrom (values.length - 1) g values

end SplitMix64

/-! ## The builder -/

structure EventBuilder where
  config : SimulationConfig
  rng : SplitMix64
  events : List Event := []
  nextSeq : Nat := 0
  nextLogicalId : Nat := 1
  slots : Dict String (List Nat) := ∅

/-- The keyword arguments of `_add`. -/
structure EventFields where
  source : String
  ring : String
  lane : String
  lifetime : String
  requestedBytes : Int
  alignedBytes : Int
  slot : Int

namespace EventBuilder

def init (config : SimulationConfig) : EventBuilder :=
  { config := config, rng := SplitMix64.ofSeed config.seed }

/-- The `Event` that `_add` constructs. -/
def event (b : EventBuilder) (timeNs : Int) (action : Action) (logicalId : Nat)
    (fields : EventFields) : Event :=
  { timeNs := timeNs
    seq := b.nextSeq
    action := action
    logicalId := logicalId
    source := fields.source
    ring := fields.ring
    lane := fields.lane
    lifetime := fields.lifetime
    requestedBytes := fields.requestedBytes
    alignedBytes := fields.alignedBytes
    slot := fields.slot }

/-- `_add`: an event after the end of the run is dropped. -/
def add (b : EventBuilder) (timeNs : Int) (action : Action) (logicalId : Nat)
    (fields : EventFields) : EventBuilder :=
  if timeNs > b.config.durationNs then b
  else
    { b with
      events := b.events ++ [b.event timeNs action logicalId fields]
      nextSeq := b.nextSeq + 1 }

def newLogicalId (b : EventBuilder) : Nat × EventBuilder :=
  (b.nextLogicalId, { b with nextLogicalId := b.nextLogicalId + 1 })

/-- `self.rng.below(bound)`. -/
def below (b : EventBuilder) (bound : Int) : Except PyError (Int × EventBuilder) := do
  let (value, rng) ← b.rng.below bound
  return (value, { b with rng := rng })

/-- The loop of `_lane`. -/
def laneFrom : Nat → Int → List Int → Except PyError String
  | _, _, [] => .error (.assertionError "unreachable weighted lane selection")
  | index, roll, weight :: weights =>
    if roll < weight then .ok s!"lane{index}" else laneFrom (index + 1) (roll - weight) weights

def lane (b : EventBuilder) : Except PyError (String × EventBuilder) := do
  let (roll, b) ← b.below b.config.laneWeights.sum
  let lane ← laneFrom 0 roll b.config.laneWeights
  return (lane, b)

def lifetime (b : EventBuilder) (baseNs : Int) : Except PyError (Int × EventBuilder) := do
  let spread := baseNs * b.config.lifetimeJitterPercent / 100
  if spread = 0 then
    return (baseNs, b)
  else
    let (extra, b) ← b.below (2 * spread + 1)
    return (max 1 (baseNs - spread + extra), b)

end EventBuilder

/-! ## Event times -/

/-- `count` of `_event_times`: rate times duration, half up. -/
def eventCount (config : SimulationConfig) (rate : Decimal) : Except PyError Int := do
  let product ← ofSignal (rate.mul (.ofInt config.durationNs))
  let exact ← ofSignal (product.div (.ofInt 1000000000))
  match exact.toIntegralHalfUp with
  | .finite q => .ok (Decimal.truncate q)
  | .infinity _ => .error (.overflowError "cannot convert Infinity to integer")
  | .nan => .error (.valueError "cannot convert NaN to integer")

namespace EventBuilder

def burst (config : SimulationConfig) (anchor spacing : Int) (n : Int) : List Int :=
  (List.range n.toNat).map fun (within : Nat) =>
    min config.durationNs (max 1 (anchor + within * spacing))

/-- `if jitter_span: anchor += …`. -/
def jitter (b : EventBuilder) (anchor jitterSpan : Int) : Except PyError (Int × EventBuilder) :=
  if jitterSpan = 0 then .ok (anchor, b)
  else do
    let (offset, b) ← b.below (2 * jitterSpan + 1)
    return (anchor + (offset - jitterSpan), b)

/-- `while emitted < count` of `_event_times`. -/
def bursts (count nominalGap : Int) : Nat → Int → List Int → EventBuilder →
    Except PyError (List Int × EventBuilder)
  | 0, emitted, times, b => if emitted < count then .error .timeout else .ok (times, b)
  | fuel + 1, emitted, times, b =>
    if emitted < count then do
      let remaining := count - emitted
      let (more, b) ← b.below (min b.config.burstMax remaining)
      let n := 1 + more
      let anchor := (emitted + 1) * b.config.durationNs / (count + 1)
      let (anchor, b) ← b.jitter anchor (nominalGap / 3)
      let spacing := max 1 (min 100000 (nominalGap / 100))
      bursts count nominalGap fuel (emitted + n) (times ++ burst b.config anchor spacing n) b
    else .ok (times, b)

def eventTimes (b : EventBuilder) (rate : Decimal) :
    Except PyError (List Int × EventBuilder) := do
  let count ← eventCount b.config rate
  if count = 0 then
    return ([], b)
  else
    let nominalGap := max 1 (b.config.durationNs / (count + 1))
    let (times, b) ← bursts count nominalGap count.toNat 0 [] b
    return (times.mergeSort (· ≤ ·), b)

/-! ## Rings -/

/-- `_post`. -/
def post (b : EventBuilder) (timeNs : Int) (source ring lifetime : String)
    (requested aligned slot : Int) : Except PyError (Nat × EventBuilder) := do
  let (logicalId, b) := b.newLogicalId
  let (lane, b) ← b.lane
  return (logicalId, b.add timeNs .post logicalId
    { source := source, ring := ring, lane := lane, lifetime := lifetime,
      requestedBytes := requested, alignedBytes := aligned, slot := slot })

/-- `self.slots[ring][slot] = logical_id`. -/
def setSlot (b : EventBuilder) (ring : String) (slot : Nat) (logicalId : Nat) :
    Except PyError EventBuilder :=
  match b.slots.get? ring with
  | none => .error .keyError
  | some ids =>
    if slot < ids.length then
      .ok { b with slots := b.slots.set ring (ids.set slot logicalId) }
    else .error .indexError

end EventBuilder

/-- One tuple of `seeds`. -/
structure Seed where
  source : String
  ring : String
  lifetime : String
  requested : Int
  aligned : Int
  slot : Nat

def dataRing (radio : Int) : String := s!"data{radio}"

def monitorRing (radio : Int) : String := s!"monitor{radio}"

/-- What `seed_rings` extends `seeds` by for one radio. -/
def seedsOf (config : SimulationConfig) (radio : Int) : List Seed :=
  (List.range config.dataCapacity.toNat).map (fun slot =>
    { source := "data", ring := dataRing radio, lifetime := "long",
      requested := 2176, aligned := 2560, slot := slot })
  ++ (List.range config.monitorCapacity.toNat).map (fun slot =>
    { source := "monitor_status", ring := monitorRing radio, lifetime := "short",
      requested := 2176, aligned := 2560, slot := slot })

namespace EventBuilder

/-- `range(self.config.radios)`. -/
def radioRange (config : SimulationConfig) : List Int :=
  (List.range config.radios.toNat).map fun (radio : Nat) => (radio : Int)

def emptySlots (config : SimulationConfig) (slots : Dict String (List Nat)) (radio : Int) :
    Dict String (List Nat) :=
  (slots.set (dataRing radio) (List.replicate config.dataCapacity.toNat 0)).set
    (monitorRing radio) (List.replicate config.monitorCapacity.toNat 0)

/-- The second loop of `seed_rings`. -/
def postSeeds : List Seed → EventBuilder → Except PyError EventBuilder
  | [], b => .ok b
  | s :: seeds, b => do
    let (logicalId, b) ← b.post 0 s.source s.ring s.lifetime s.requested s.aligned s.slot
    let b ← b.setSlot s.ring s.slot logicalId
    postSeeds seeds b

def seedRings (b : EventBuilder) : Except PyError EventBuilder := do
  let radios := radioRange b.config
  let b := { b with slots := radios.foldl (emptySlots b.config) b.slots }
  let (seeds, rng) ← b.rng.shuffle (radios.flatMap (seedsOf b.config))
  postSeeds seeds { b with rng := rng }

/-- The keyword arguments of `add_ring_turnover`, the rate apart. -/
structure Turnover where
  source : String
  ringPrefix : String
  lifetime : String
  requested : Int
  aligned : Int
  holdNs : Int

/-- `f"{ring_prefix}{radio}"`. -/
def Turnover.ring (t : Turnover) (radio : Int) : String := s!"{t.ringPrefix}{radio}"

/-- One replacement: reap the slot's buffer, post a new one in its place, and
free the old one a lifetime later. -/
def replace (t : Turnover) (timeNs : Int) (b : EventBuilder) : Except PyError EventBuilder := do
  let (radio, b) ← b.below b.config.radios
  let ring := t.ring radio
  match b.slots.get? ring with
  | none => .error .keyError
  | some ids =>
    let (slot, b) ← b.below ids.length
    match ids[slot.toNat]? with
    | none => .error .indexError
    | some oldId =>
      let common : EventFields :=
        { source := t.source, ring := ring, lane := "", lifetime := t.lifetime,
          requestedBytes := 0, alignedBytes := 0, slot := slot }
      let b := b.add timeNs .reap oldId common
      let (newId, b) ← b.post timeNs t.source ring t.lifetime t.requested t.aligned slot
      let b ← b.setSlot ring slot.toNat newId
      let (held, b) ← b.lifetime t.holdNs
      return b.add (timeNs + held) .free oldId common

def replaceAll (t : Turnover) : List Int → EventBuilder → Except PyError EventBuilder
  | [], b => .ok b
  | timeNs :: times, b => do
    let b ← replace t timeNs b
    replaceAll t times b

def addRingTurnover (b : EventBuilder) (t : Turnover) (rate : Decimal) :
    Except PyError EventBuilder := do
  let (times, b) ← b.eventTimes rate
  replaceAll t times b

/-! ## Transients -/

def transient (timeNs : Int) (b : EventBuilder) : Except PyError EventBuilder := do
  let (logicalId, b) := b.newLogicalId
  let (lane, b) ← b.lane
  let (radio, b) ← b.below b.config.radios
  let common : EventFields :=
    { source := "ce", ring := s!"ce{radio}", lane := lane, lifetime := "short",
      requestedBytes := 0, alignedBytes := 0, slot := -1 }
  let b := b.add timeNs .alloc logicalId
    { common with requestedBytes := 2048, alignedBytes := 2432 }
  let (held, b) ← b.lifetime b.config.ceHoldNs
  return b.add (timeNs + held) .free logicalId common

def transients : List Int → EventBuilder → Except PyError EventBuilder
  | [], b => .ok b
  | timeNs :: times, b => do
    let b ← transient timeNs b
    transients times b

def addCeTransients (b : EventBuilder) : Except PyError EventBuilder := do
  let (times, b) ← b.eventTimes b.config.ceRate
  transients times b

/-! ## The stream -/

def dataTurnover (config : SimulationConfig) : Turnover :=
  { source := "data", ringPrefix := "data", lifetime := "long",
    requested := 2176, aligned := 2560, holdNs := config.dataHoldNs }

def monitorTurnover (config : SimulationConfig) : Turnover :=
  { source := "monitor_status", ringPrefix := "monitor", lifetime := "short",
    requested := 2176, aligned := 2560, holdNs := config.monitorHoldNs }

/-- The order of `Event` dataclasses; `seq` is never shared, so no later field
is looked at. -/
def before (e e' : Event) : Bool :=
  e.timeNs < e'.timeNs || (e.timeNs == e'.timeNs && e.seq ≤ e'.seq)

def build (b : EventBuilder) : Except PyError (List Event) := do
  let b ← b.seedRings
  let b ← b.addRingTurnover (dataTurnover b.config) b.config.dataRate
  let b ← b.addRingTurnover (monitorTurnover b.config) b.config.monitorRate
  let b ← b.addCeTransients
  return b.events.mergeSort before

end EventBuilder

def generateEvents (config : SimulationConfig) : Except PyError (List Event) := do
  config.validate
  (EventBuilder.init config).build

end LibWrt.PageFrag
