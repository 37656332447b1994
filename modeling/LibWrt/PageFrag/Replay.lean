/-
LibWrt.PageFrag.Replay — `ScenarioReplay`, one policy's replay of a frozen
event stream.

The class is split in two records: `ScenarioReplay` holds what `_process`
reads and writes, `Integrals` what `_integrate_to` keeps, so that it is
visible in the types that neither touches the other. A record names its
cache by key where the source holds a reference. `Replay.observe` is the
loop of `replay` with the appended row left open; `replay` appends
`_stats`.
-/
import LibWrt.PageFrag.Config
import LibWrt.PageFrag.Event
import Mathlib.Data.Finset.Card

namespace LibWrt.PageFrag

/-! ## Data -/

inductive Policy where
  | shared
  | perRing
  | sameRingOnly
  | nonPagefrag
  deriving DecidableEq, Repr

/-- `POLICIES`, in order. -/
def policies : List Policy := [.shared, .perRing, .sameRingOnly, .nonPagefrag]

def mechanismWarning : String :=
  "MECHANISM VALIDATION ONLY; not proof of live ath11k ownership or firmware behaviour"

def sensitivityWarning : String :=
  "SENSITIVITY ASSIGNMENT; owner ring and lifetime mapping is inferred from right-censored captures"

/-- `POLICY_DESCRIPTIONS`. -/
def Policy.description : Policy → String
  | .shared => "one existing-style cache per CPU lane shared by every source and ring"
  | .perRing => "one private cache per RXDMA ring while CE stays on per-lane caches"
  | .sameRingOnly =>
    "one isolated cache per owner and ring including CE independent of CPU lane"
  | .nonPagefrag => "one independently freed page-rounded backing allocation per fragment"

structure PageUsage where
  requestedBytes : Int := 0
  alignedBytes : Int := 0
  fragments : Int := 0
  rings : Dict String Int := ∅
  lifetimes : Dict String Int := ∅

/-- The fields of `Aggregate`. -/
inductive AggregateField where
  | uniquePages
  | requestedBytes
  | alignedBytes
  | backingBytes
  | slackBytes
  | currentMixedPages
  | historicalCrossLifetimePages
  | sameRingOnlyPages
  | historicalCrossLifetimeSlackBytes
  | sameRingOnlySlackBytes
  deriving DecidableEq, Repr

/-- One integer per field; `Aggregate.add` is the pointwise sum. -/
abbrev Aggregate := AggregateField → Int

/-- The fragment and the cache it came from, `none` for a direct allocation,
and what the event said of the buffer. -/
structure LiveRecord extends Buffer where
  fragment : Fragment
  cache : Option (List String)

structure ScenarioReplay where
  policy : Policy
  allocator : PhysicalAllocator := {}
  caches : Dict (List String) PageFragCache := ∅
  directPages : Dict Nat Page := ∅
  nextDirectPage : Nat := 1
  live : Dict Nat LiveRecord := ∅
  usage : Dict Nat PageUsage := ∅
  aggregate : Aggregate := 0
  posted : Int := 0
  reaped : Int := 0
  allocations : Nat := 0
  directFrees : Nat := 0

/-- `_cache_key`. -/
def Policy.cacheKey (p : Policy) (event : Event) : Except PyError (List String) :=
  match p with
  | .shared => .ok ["lane", event.lane]
  | .perRing =>
    if event.source = "ce" then .ok ["ce-lane", event.lane] else .ok ["ring", event.ring]
  | .sameRingOnly => .ok ["owner-ring", event.source, event.ring]
  | .nonPagefrag => .error (.assertionError "non-page-frag has no cache")

/-! ## Usage and contributions -/

/-- `usage.rings[key] += 1` and its like, a missing key counting as 0. -/
def bump (d : Dict String Int) (key : String) (n : Int) : Dict String Int :=
  d.set key ((d.get? key).getD 0 + n)

def unbump (d : Dict String Int) (key : String) : Dict String Int :=
  let d := bump d key (-1)
  if d.get? key = some 0 then d.del key else d

/-- The additions of `_usage_add`. -/
def PageUsage.add (usage : PageUsage) (event : Event) : PageUsage :=
  { requestedBytes := usage.requestedBytes + event.requestedBytes
    alignedBytes := usage.alignedBytes + event.alignedBytes
    fragments := usage.fragments + 1
    rings := bump usage.rings event.ring 1
    lifetimes := bump usage.lifetimes event.lifetime 1 }

/-- The subtractions of `_usage_remove`. -/
def PageUsage.remove (usage : PageUsage) (record : LiveRecord) : PageUsage :=
  { requestedBytes := usage.requestedBytes - record.requestedBytes
    alignedBytes := usage.alignedBytes - record.alignedBytes
    fragments := usage.fragments - 1
    rings := unbump usage.rings record.ring
    lifetimes := unbump usage.lifetimes record.lifetime }

/-- What a page with `usage` contributes when it is not freed. -/
def PageUsage.contribution (usage : PageUsage) (page : Page) : Aggregate :=
  let slack := page.size - usage.alignedBytes
  let currentMixed := 0 < usage.fragments ∧ (1 < usage.rings.size ∨ 1 < usage.lifetimes.size)
  let historicalCross := 0 < usage.fragments ∧ 1 < page.everLifetimes.card
  let sameRingOnly := 0 < usage.fragments ∧ page.everRings.card = 1
  fun
  | .uniquePages => 1
  | .requestedBytes => usage.requestedBytes
  | .alignedBytes => usage.alignedBytes
  | .backingBytes => page.size
  | .slackBytes => slack
  | .currentMixedPages => if currentMixed then 1 else 0
  | .historicalCrossLifetimePages => if historicalCross then 1 else 0
  | .sameRingOnlyPages => if sameRingOnly then 1 else 0
  | .historicalCrossLifetimeSlackBytes => if historicalCross then slack else 0
  | .sameRingOnlySlackBytes => if sameRingOnly then slack else 0

namespace ScenarioReplay

def pages (r : ScenarioReplay) : Dict Nat Page :=
  if r.policy = .nonPagefrag then r.directPages else r.allocator.pages

/-- Write a page back to where `pages` reads it. -/
def setPage (r : ScenarioReplay) (pid : Nat) (page : Page) : ScenarioReplay :=
  if r.policy = .nonPagefrag then
    { r with directPages := r.directPages.set pid page }
  else
    { r with allocator := { r.allocator with pages := r.allocator.pages.set pid page } }

def usageOf (r : ScenarioReplay) (pid : Nat) : PageUsage := (r.usage.get? pid).getD {}

/-- `_contribution`. -/
def contribution (r : ScenarioReplay) (pid : Nat) : Except PyError Aggregate :=
  match r.pages.get? pid with
  | none => .error .keyError
  | some page =>
    if page.freed then
      .ok 0
    else if page.size - (r.usageOf pid).alignedBytes < 0 then
      .error (.assertionError "live fragments exceed backing page")
    else
      .ok ((r.usageOf pid).contribution page)

def removeContribution (r : ScenarioReplay) (pid : Nat) : Except PyError ScenarioReplay := do
  let c ← r.contribution pid
  return { r with aggregate := r.aggregate - c }

def addContribution (r : ScenarioReplay) (pid : Nat) : Except PyError ScenarioReplay := do
  let c ← r.contribution pid
  return { r with aggregate := r.aggregate + c }

def usageAdd (r : ScenarioReplay) (pid : Nat) (event : Event) :
    Except PyError ScenarioReplay :=
  let r := { r with usage := r.usage.set pid ((r.usageOf pid).add event) }
  match r.pages.get? pid with
  | none => .error .keyError
  | some page =>
    .ok (r.setPage pid { page with
      everRings := insert event.ring page.everRings
      everLifetimes := insert event.lifetime page.everLifetimes })

def usageRemove (r : ScenarioReplay) (record : LiveRecord) : Except PyError ScenarioReplay :=
  match r.usage.get? record.fragment.pageId with
  | none => .error .keyError
  | some usage =>
    let usage := usage.remove record
    if usage.fragments = 0 ∧ (usage.requestedBytes ≠ 0 ∨ usage.alignedBytes ≠ 0 ∨
        usage.rings.size ≠ 0 ∨ usage.lifetimes.size ≠ 0) then
      .error (.assertionError "empty page usage retains accounting")
    else
      .ok { r with usage := r.usage.set record.fragment.pageId usage }

/-! ## Events -/

def addContributions (r : ScenarioReplay) : List Nat → Except PyError ScenarioReplay
  | [] => .ok r
  | pid :: pids => do
    let r ← r.addContribution pid
    r.addContributions pids

/-- `if old_page_id is not None: self._remove_contribution(old_page_id)`. -/
def removeOld (r : ScenarioReplay) : Option Nat → Except PyError ScenarioReplay
  | none => .ok r
  | some pid => r.removeContribution pid

/-- The first half of `_allocate_pagefrag`: the cache's page comes out of the
aggregate and the cache is asked for a fragment. -/
def requestFragment (r : ScenarioReplay) (key : List String) (event : Event) :
    Except PyError (ScenarioReplay × Option Fragment × Option Nat × Option Nat) := do
  let cache := (r.caches.get? key).getD {}
  let oldPageId := cache.page
  let r ← r.removeOld oldPageId
  let (fragment, allocator, cache) ← cache.allocate r.allocator event.alignedBytes
  return ({ r with allocator := allocator, caches := r.caches.set key cache },
    fragment, oldPageId, cache.page)

/-- The set `affected` of `_allocate_pagefrag`. -/
def affected (old : Option Nat) (new : Nat) : List Nat :=
  ([old.getD 0, new].filter (· ≠ 0)).dedup

def allocatePagefrag (r : ScenarioReplay) (event : Event) :
    Except PyError (ScenarioReplay × Option (List String) × Fragment) := do
  let key ← r.policy.cacheKey event
  let (r, fragment, oldPageId, newPageId) ← r.requestFragment key event
  match newPageId with
  | none => .error .attributeError
  | some newPageId =>
    let affected := affected oldPageId newPageId
    match fragment with
    | none =>
      let _ ← r.addContributions affected
      .error (.memoryError "capture-sized allocation unexpectedly failed")
    | some fragment =>
      let r ← r.usageAdd fragment.pageId event
      let r ← r.addContributions affected
      return (r, some key, fragment)

def allocateDirect (r : ScenarioReplay) (event : Event) :
    Except PyError (ScenarioReplay × Option (List String) × Fragment) := do
  let pid := r.nextDirectPage
  let page : Page :=
    { pageId := pid
      size := (event.alignedBytes + pageSize - 1) / pageSize * pageSize
      pfmemalloc := false }
  let r := { r with
    nextDirectPage := pid + 1
    directPages := r.directPages.set pid page }
  let fragment : Fragment :=
    { fragmentId := event.logicalId, pageId := pid, offset := 0, size := event.alignedBytes }
  let r ← r.usageAdd pid event
  let r ← r.addContribution pid
  return (r, none, fragment)

/-- The tail of `_allocate`: record the buffer and count it. -/
def record (r : ScenarioReplay) (event : Event) (state : BufferState)
    (cache : Option (List String)) (fragment : Fragment) : ScenarioReplay :=
  { r with
    live := r.live.set event.logicalId
      { event.buffer state with fragment := fragment, cache := cache }
    allocations := r.allocations + 1
    posted := if state = .posted then r.posted + 1 else r.posted
    reaped := if state = .posted then r.reaped else r.reaped + 1 }

def allocate (r : ScenarioReplay) (event : Event) (state : BufferState) :
    Except PyError ScenarioReplay := do
  match r.live.get? event.logicalId with
  | some _ => .error (.assertionError "logical allocation ID reused")
  | none =>
    let (r, cache, fragment) ←
      if r.policy = .nonPagefrag then r.allocateDirect event else r.allocatePagefrag event
    return r.record event state cache fragment

def reap (r : ScenarioReplay) (event : Event) : Except PyError ScenarioReplay :=
  match r.live.get? event.logicalId with
  | none => .error .keyError
  | some record =>
    if record.state ≠ .posted then
      .error (.assertionError "reap did not target a posted buffer")
    else
      .ok { r with
        live := r.live.set event.logicalId { record with state := .reaped }
        posted := r.posted - 1
        reaped := r.reaped + 1 }

/-- The backing memory of a freed record: a direct page, or a fragment of a
cache. -/
def freeBacking (r : ScenarioReplay) (record : LiveRecord) : Except PyError ScenarioReplay :=
  match record.cache with
  | none =>
    match r.directPages.get? record.fragment.pageId with
    | none => .error .keyError
    | some page =>
      .ok { r with
        directPages := r.directPages.set record.fragment.pageId
          { page with refcount := 0, freed := true }
        directFrees := r.directFrees + 1 }
  | some key =>
    match r.caches.get? key with
    | none => .error .keyError
    | some cache =>
      match cache.free r.allocator record.fragment with
      | .error e => .error e
      | .ok (allocator, cache) =>
        .ok { r with allocator := allocator, caches := r.caches.set key cache }

def free (r : ScenarioReplay) (event : Event) : Except PyError ScenarioReplay := do
  match r.live.get? event.logicalId with
  | none => .error .keyError
  | some record =>
    let r := { r with live := r.live.del event.logicalId }
    if record.state ≠ .reaped then
      .error (.assertionError "free did not follow reap/allocation")
    else
      let r ← r.removeContribution record.fragment.pageId
      let r ← r.usageRemove record
      let r ← r.freeBacking record
      let r ← r.addContribution record.fragment.pageId
      return { r with reaped := r.reaped - 1 }

def process (r : ScenarioReplay) (event : Event) : Except PyError ScenarioReplay :=
  match event.action with
  | .post => r.allocate event .posted
  | .alloc => r.allocate event .reaped
  | .reap => r.reap event
  | .free => r.free event

def processAll (r : ScenarioReplay) : List Event → Except PyError ScenarioReplay
  | [] => .ok r
  | e :: es => do
    let r ← r.process e
    r.processAll es

/-! ## Statistics -/

structure Stats where
  policy : Policy
  timeNs : Int
  liveFragments : Nat
  postedFragments : Int
  reapedFragments : Int
  globalUniquePages : Int
  requestedBytes : Int
  alignedBytes : Int
  backingBytes : Int
  slackBytes : Int
  currentMixedPages : Int
  historicalCrossLifetimePages : Int
  sameRingOnlyPages : Int
  historicalCrossLifetimeSlackBytes : Int
  sameRingOnlySlackBytes : Int
  refills : Int
  reuses : Int
  frees : Nat
  warning : String
  sensitivity : String
  eventSha256 : String

def refills (r : ScenarioReplay) : Int := r.caches.sum fun _ c => (c.refills : Int)

def reuses (r : ScenarioReplay) : Int := r.caches.sum fun _ c => (c.reuses : Int)

def frees (r : ScenarioReplay) : Nat :=
  if r.policy = .nonPagefrag then r.directFrees else r.allocator.frees

def stats (eventHash : String) (timeNs : Int) (r : ScenarioReplay) : Stats :=
  { policy := r.policy
    timeNs := timeNs
    liveFragments := r.live.size
    postedFragments := r.posted
    reapedFragments := r.reaped
    globalUniquePages := r.aggregate .uniquePages
    requestedBytes := r.aggregate .requestedBytes
    alignedBytes := r.aggregate .alignedBytes
    backingBytes := r.aggregate .backingBytes
    slackBytes := r.aggregate .slackBytes
    currentMixedPages := r.aggregate .currentMixedPages
    historicalCrossLifetimePages := r.aggregate .historicalCrossLifetimePages
    sameRingOnlyPages := r.aggregate .sameRingOnlyPages
    historicalCrossLifetimeSlackBytes := r.aggregate .historicalCrossLifetimeSlackBytes
    sameRingOnlySlackBytes := r.aggregate .sameRingOnlySlackBytes
    refills := r.refills
    reuses := r.reuses
    frees := r.frees
    warning := mechanismWarning
    sensitivity := sensitivityWarning
    eventSha256 := eventHash }

end ScenarioReplay

/-! ## The replay loop -/

/-- What `_integrate_to` keeps. -/
structure Integrals where
  lastIntegratedNs : Int := 0
  backingByteNs : Int := 0
  slackByteNs : Int := 0
  crossLifetimeSlackByteNs : Int := 0
  sameRingOnlySlackByteNs : Int := 0

/-- `_integrate_to`. -/
def Integrals.to (i : Integrals) (a : Aggregate) (timeNs : Int) : Except PyError Integrals :=
  let delta := timeNs - i.lastIntegratedNs
  if delta < 0 then
    .error (.assertionError "event time moved backwards")
  else
    .ok
      { lastIntegratedNs := timeNs
        backingByteNs := i.backingByteNs + a .backingBytes * delta
        slackByteNs := i.slackByteNs + a .slackBytes * delta
        crossLifetimeSlackByteNs :=
          i.crossLifetimeSlackByteNs + a .historicalCrossLifetimeSlackBytes * delta
        sameRingOnlySlackByteNs :=
          i.sameRingOnlySlackByteNs + a .sameRingOnlySlackBytes * delta }

/-- The state of the loop of `replay`. -/
structure Replay (α : Type) where
  replay : ScenarioReplay
  integrals : Integrals := {}
  timeline : List α := []
  nextSample : Int := 0

namespace Replay

variable {α : Type}

/-- `while next_sample …: timeline.append(…)`, as long as `next_sample` is
before `timeNs` (at it, for the last samples) and within the duration. -/
def samplesBefore (config : SimulationConfig) (row : Int → ScenarioReplay → α) (timeNs : Int) :
    Nat → Replay α → Except PyError (Replay α)
  | 0, p =>
    if p.nextSample < timeNs ∧ p.nextSample ≤ config.durationNs then .error .timeout else .ok p
  | fuel + 1, p =>
    if p.nextSample < timeNs ∧ p.nextSample ≤ config.durationNs then
      samplesBefore config row timeNs fuel { p with
        timeline := p.timeline ++ [row p.nextSample p.replay]
        nextSample := p.nextSample + config.sampleNs }
    else .ok p

/-- Iterations enough for every `while next_sample` loop of a run. -/
def sampleFuel (config : SimulationConfig) : Nat := config.durationNs.toNat + 1

def round (config : SimulationConfig) (row : Int → ScenarioReplay → α) (timeNs : Int)
    (group : List Event) (p : Replay α) : Except PyError (Replay α) := do
  let p ← samplesBefore config row timeNs (sampleFuel config) p
  let integrals ← p.integrals.to p.replay.aggregate timeNs
  let replay ← p.replay.processAll group
  let p := { p with integrals := integrals, replay := replay }
  if p.nextSample = timeNs then
    return { p with
      timeline := p.timeline ++ [row p.nextSample p.replay]
      nextSample := p.nextSample + config.sampleNs }
  else
    return p

/-- `while index < len(events)`, with one unit of fuel for each event. -/
def rounds (config : SimulationConfig) (row : Int → ScenarioReplay → α) :
    Nat → List Event → Replay α → Except PyError (Replay α)
  | _, [], p => .ok p
  | 0, _ :: _, _ => .error .timeout
  | fuel + 1, e :: es, p => do
    let p ← round config row e.timeNs
      (e :: es.takeWhile (fun e' => e'.timeNs = e.timeNs)) p
    rounds config row fuel (es.dropWhile (fun e' => e'.timeNs = e.timeNs)) p

/-- The loop of `replay`, appending `row next_sample state` for a sample. -/
def observe (policy : Policy) (config : SimulationConfig) (row : Int → ScenarioReplay → α)
    (events : List Event) : Except PyError (Replay α) := do
  let p ← rounds config row events.length events { replay := { policy := policy } }
  let integrals ← p.integrals.to p.replay.aggregate config.durationNs
  samplesBefore config row (config.durationNs + 1) (sampleFuel config)
    { p with integrals := integrals }

end Replay

/-- The last row and the columns `replay` adds to it. The rates stand as
numbers where the source renders them with `str`. -/
structure Summary where
  stats : ScenarioReplay.Stats
  seed : Int
  durationNs : Int
  events : Nat
  allocations : Nat
  integrals : Integrals
  dataRatePerSecond : Decimal
  monitorRatePerSecond : Decimal
  ceRatePerSecond : Decimal
  dataCapacityTotal : Int
  monitorCapacityTotal : Int
  laneWeights : String
  burstMax : Int
  dataHoldNs : Int
  monitorHoldNs : Int
  ceHoldNs : Int
  lifetimeJitterPercent : Int
  policyCacheScope : String

structure ScenarioResult where
  policy : Policy
  timeline : List ScenarioReplay.Stats
  summary : Summary

/-- `ScenarioReplay(policy, config, event_hash).replay(events)`. -/
def replay (policy : Policy) (config : SimulationConfig) (eventHash : String)
    (events : List Event) : Except PyError ScenarioResult := do
  let p ← Replay.observe policy config (ScenarioReplay.stats eventHash) events
  return {
    policy := policy
    timeline := p.timeline
    summary := {
      stats := ScenarioReplay.stats eventHash config.durationNs p.replay
      seed := config.seed
      durationNs := config.durationNs
      events := events.length
      allocations := p.replay.allocations
      integrals := p.integrals
      dataRatePerSecond := config.dataRate
      monitorRatePerSecond := config.monitorRate
      ceRatePerSecond := config.ceRate
      dataCapacityTotal := config.dataCapacity * config.radios
      monitorCapacityTotal := config.monitorCapacity * config.radios
      laneWeights := ":".intercalate (config.laneWeights.map toString)
      burstMax := config.burstMax
      dataHoldNs := config.dataHoldNs
      monitorHoldNs := config.monitorHoldNs
      ceHoldNs := config.ceHoldNs
      lifetimeJitterPercent := config.lifetimeJitterPercent
      policyCacheScope := policy.description } }

/-- `replay_all`: every policy replays the one stream, and the first error
ends it. -/
def replayAll (config : SimulationConfig) (eventHash : String) (events : List Event) :
    Except PyError (List ScenarioResult) :=
  policies.mapM fun policy => replay policy config eventHash events

end LibWrt.PageFrag
