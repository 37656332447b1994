/-
LibWrt.PageFrag.Stream — what `generate_events` returns.

`generateEvents_spec`: an accepted configuration whose three event counts
can be evaluated gives a well-formed stream, and the stream's tally is the
seeds, one reap and one post for each replacement, and one allocation for
each transient. The sort at the end cannot disturb a buffer's own events:
they are in order already, and a stable sort keeps a sorted sublist.
-/
import LibWrt.PageFrag.BuilderLife

namespace LibWrt.PageFrag

open List Or
open EventBuilder

/-! ## Ring names -/

@[simp] theorem dataTurnover_ring (config : SimulationConfig) (radio : Int) :
    (dataTurnover config).ring radio = dataRing radio := rfl

@[simp] theorem monitorTurnover_ring (config : SimulationConfig) (radio : Int) :
    (monitorTurnover config).ring radio = monitorRing radio := rfl

theorem dataRing_ne_monitorRing (radio radio' : Int) : dataRing radio ≠ monitorRing radio' := by
  intro h
  have hhead := congrArg (fun s => s.toList.head?) h
  simp [dataRing, monitorRing, toString] at hhead

/-! ## Seeding -/

/-- The slots before any buffer is posted. -/
theorem emptySlots_get? (config : SimulationConfig) (ring : String) :
    ∀ (radios : List Int) (slots : Dict String (List Nat)),
      (radios.foldl (emptySlots config) slots).get? ring =
        if ring ∈ radios.map monitorRing then
          some (replicate config.monitorCapacity.toNat 0)
        else if ring ∈ radios.map dataRing then
          some (replicate config.dataCapacity.toNat 0)
        else slots.get? ring
  | [], slots => by simp
  | radio :: radios, slots => by
    rw [foldl_cons, emptySlots_get? config ring radios]
    simp only [map_cons, mem_cons, emptySlots, Dict.get?_set]
    by_cases hm : ring ∈ radios.map monitorRing
    · simp [hm]
    · by_cases hd : ring ∈ radios.map dataRing
      · obtain ⟨radio', -, rfl⟩ := mem_map.mp hd
        simp only [hm, hd, if_false, if_true, or_true, or_false,
          if_neg (dataRing_ne_monitorRing radio' radio)]
      · simp only [hm, hd, if_false, or_false]

theorem postSeeds_spec : ∀ (seeds : List Seed) {b : EventBuilder},
    b.config.Valid → Sound b →
    Slotted b (fun _ => 0) (seeds.map fun s => (s.ring, s.slot)) →
    (∀ s ∈ seeds, (∃ n, ringLength b.slots s.ring = some n ∧ s.slot < n) ∧
      0 < s.aligned ∧ s.aligned ≤ pageFragCacheMaxSize) →
    ∃ b', postSeeds seeds b = .ok b' ∧ b'.config = b.config ∧ Sound b' ∧
      Slotted b' (fun _ => 0) [] ∧ (∀ ring, ringLength b'.slots ring = ringLength b.slots ring) ∧
      ∀ g, tally b'.events g = tally b.events g + (seeds.map fun s => g 0 .post s.source).sum
  | [], b, _, hsound, hslotted, _ => ⟨b, rfl, rfl, hsound, hslotted, fun _ => rfl, by simp⟩
  | s :: seeds, b, hv, hsound, hslotted, hseeds => by
    obtain ⟨⟨n, hlen, hlt⟩, hsized⟩ := hseeds s mem_cons_self
    obtain ⟨ids, hids, rfl⟩ := Option.map_eq_some_iff.mp hlen
    obtain ⟨lane, rng, hpost⟩ := post_spec hv 0 s.source s.ring s.lifetime s.requested s.aligned
      s.slot
    set fields : EventFields :=
      { source := s.source, ring := s.ring, lane := lane, lifetime := s.lifetime,
        requestedBytes := s.requested, alignedBytes := s.aligned, slot := s.slot } with hfields
    set b₀ : EventBuilder := { b with nextLogicalId := b.nextLogicalId + 1, rng := rng } with hb₀
    set b₁ := b₀.add 0 .post b.nextLogicalId fields with hb₁
    have hend : 0 ≤ b₀.config.durationNs := le_of_lt hv.duration
    have hfresh : ofId b₀.events b.nextLogicalId = [] := hsound.ofId_fresh (le_refl _)
    have hsound₀ : Sound b₀ := hsound.congr rfl rfl rfl (by simp [hb₀])
    have hsound₁ : Sound b₁ := by
      refine hsound₀.add (le_refl _) ⟨hsound.nonzero, Nat.lt_succ_self _⟩ (fun _ => hsized) ?_ ?_
      · simp [hfresh]
      · show Life ((ofId _ _).map _ ++ _)
        rw [hfresh]
        decide
    have hslots₁ : b₁.slots = b.slots := by simp [hb₁, hb₀]
    have hconfig₁ : b₁.config = b.config := by simp [hb₁, hb₀]
    set b₂ : EventBuilder :=
      { b₁ with slots := b₁.slots.set s.ring (ids.set s.slot b.nextLogicalId) } with hb₂
    have hset : b₁.setSlot s.ring s.slot b.nextLogicalId = .ok b₂ :=
      setSlot_spec _ (by rw [hslots₁, hids]) hlt
    have hslotted₂ : Slotted b₂ (fun _ => 0) (seeds.map fun s => (s.ring, s.slot)) := by
      refine hslotted.set hsound hids hlt rfl ?_ ?_ ?_ (fun _ => le_refl _) ?_
      · simp [hb₂, hslots₁]
      · refine ⟨b₀.event 0 .post b.nextLogicalId fields, ?_, rfl, le_refl _⟩
        show ofId b₁.events _ = _
        rw [hb₁, ofId_add_self hend, hfresh, nil_append]
      · intro id hne _
        exact ofId_add_ne hne
      · simp
    have hlengths₂ : ∀ ring, ringLength b₂.slots ring = ringLength b.slots ring := by
      intro ring
      simp only [hb₂, hslots₁]
      exact ringLength_set hids _ _ _
    obtain ⟨b', hok, hconfig, hsound', hslotted', hlengths, htally⟩ :=
      postSeeds_spec seeds (b := b₂) (by show b₁.config.Valid; rw [hconfig₁]; exact hv)
        (hsound₁.congr rfl rfl rfl (le_refl _)) hslotted₂
        (fun s' hs' => by
          rw [hlengths₂]
          exact hseeds s' (mem_cons_of_mem _ hs'))
    refine ⟨b', ?_, hconfig.trans hconfig₁, hsound', hslotted',
      fun ring => (hlengths ring).trans (hlengths₂ ring), fun g => ?_⟩
    · simp only [postSeeds, hpost, bind, Except.bind]
      rw [hset]
      exact hok
    · rw [htally]
      show tally b₁.events g + _ = _
      rw [hb₁, tally_add hend, map_cons, sum_cons, add_assoc]

section SeedRings

variable {config : SimulationConfig}

variable {radio : Int}

theorem mem_radioRange :
    radio ∈ radioRange config ↔ 0 ≤ radio ∧ radio < config.radios := by
  simp only [radioRange, mem_map, mem_range]
  constructor
  · rintro ⟨n, hn, rfl⟩
    omega
  · rintro ⟨h0, hlt⟩
    exact ⟨radio.toNat, by omega, by omega⟩

theorem mem_seedsOf {s : Seed} (h : s ∈ seedsOf config radio) :
    s.aligned = 2560 ∧ ((s.ring = dataRing radio ∧ s.slot < config.dataCapacity.toNat) ∨
      (s.ring = monitorRing radio ∧ s.slot < config.monitorCapacity.toNat)) := by
  cases mem_append.mp h with
  | inl hd =>
    obtain ⟨slot, hslot, rfl⟩ := mem_map.mp hd
    exact ⟨rfl, inl ⟨rfl, mem_range.mp hslot⟩⟩
  | inr hm =>
    obtain ⟨slot, hslot, rfl⟩ := mem_map.mp hm
    exact ⟨rfl, inr ⟨rfl, mem_range.mp hslot⟩⟩

/-- Each slot of a ring is seeded. -/
theorem seedsOf_covers {slot : Nat} :
    (slot < config.dataCapacity.toNat →
      (dataRing radio, slot) ∈ (seedsOf config radio).map fun s => (s.ring, s.slot)) ∧
    (slot < config.monitorCapacity.toNat →
      (monitorRing radio, slot) ∈ (seedsOf config radio).map fun s => (s.ring, s.slot)) := by
  simp [seedsOf]
  exact ⟨inl, inr⟩

theorem sum_seedsOf (radio : Int) (hv : config.Valid) (f : String → Int) :
    ((seedsOf config radio).map fun s => f s.source).sum
      = config.dataCapacity * f "data" + config.monitorCapacity * f "monitor_status" := by
  have hd := hv.data_capacity
  have hm := hv.monitor_capacity
  simp [seedsOf, Function.comp_def]
  rw [max_eq_left hd.le, max_eq_left hm.le]

theorem sum_flatMap_const {α β : Type} (f : β → Int) (g : α → List β) (n : Int) :
    ∀ l : List α, (∀ a ∈ l, ((g a).map f).sum = n) →
      ((l.flatMap g).map f).sum = l.length * n
  | [], _ => by simp
  | a :: l, h => by
    rw [flatMap_cons, map_append, sum_append, h a mem_cons_self,
      sum_flatMap_const f g n l fun a' ha' => h a' (mem_cons_of_mem _ ha')]
    rw [length_cons]
    push_cast
    ring

theorem getElem?_replicate_some {n k id : Nat} (h : (replicate n 0)[k]? = some id) :
    k < n ∧ id = 0 := by
  rw [getElem?_replicate] at h
  split at h
  · exact ⟨‹_›, (Option.some.inj h).symm⟩
  · cases h

/-- What `seed_rings` leaves: every slot holds a buffer posted at time 0. -/
theorem seedRings_spec (hv : config.Valid) :
    ∃ b, (EventBuilder.init config).seedRings = .ok b ∧ b.config = config ∧ Sound b ∧
      Slotted b (fun _ => 0) [] ∧
      (∀ radio, 0 ≤ radio → radio < config.radios →
        ringLength b.slots (dataRing radio) = some config.dataCapacity.toNat ∧
        ringLength b.slots (monitorRing radio) = some config.monitorCapacity.toNat) ∧
      ∀ g, tally b.events g = config.radios *
        (config.dataCapacity * g 0 .post "data" + config.monitorCapacity * g 0 .post "monitor_status")
    := by
  set radios := radioRange config with hradios
  set slots := radios.foldl (emptySlots config) ∅ with hslots
  obtain ⟨seeds, rng, hshuffle, hperm⟩ :=
    SplitMix64.shuffle_spec (SplitMix64.ofSeed config.seed) (radios.flatMap (seedsOf config))
  set b₀ : EventBuilder := { EventBuilder.init config with slots := slots, rng := rng } with hb₀
  have hmem : ∀ s ∈ seeds, ∃ radio ∈ radios, s ∈ seedsOf config radio := fun s hs =>
    mem_flatMap.mp (hperm.mem_iff.mp hs)
  have hlengths : ∀ radio ∈ radios,
      ringLength slots (dataRing radio) = some config.dataCapacity.toNat ∧
      ringLength slots (monitorRing radio) = some config.monitorCapacity.toNat := by
    intro radio hradio
    have hd : dataRing radio ∉ radios.map monitorRing := by
      intro h
      obtain ⟨radio', -, heq⟩ := mem_map.mp h
      exact dataRing_ne_monitorRing radio radio' heq.symm
    constructor
    · rw [ringLength, hslots, emptySlots_get?, if_neg hd, if_pos (mem_map_of_mem hradio)]
      simp
    · rw [ringLength, hslots, emptySlots_get?, if_pos (mem_map_of_mem hradio)]
      simp
  have hslotted : Slotted b₀ (fun _ => 0) (seeds.map fun s => (s.ring, s.slot)) := by
    have hzero : ∀ ring k id, SlotIs slots ring k id →
        id = 0 ∧ (ring, k) ∈ seeds.map fun s => (s.ring, s.slot) := by
      rintro ring k id ⟨ids, hids, hid⟩
      have hall : ∀ radio ∈ radios,
          (ring, k) ∈ (seedsOf config radio).map (fun s => (s.ring, s.slot)) →
          (ring, k) ∈ seeds.map fun s => (s.ring, s.slot) := by
        intro radio hradio hin
        obtain ⟨s, hs, heq⟩ := mem_map.mp hin
        exact heq ▸ mem_map_of_mem
          (hperm.mem_iff.mpr (mem_flatMap.mpr ⟨radio, hradio, hs⟩))
      rw [hslots, emptySlots_get?] at hids
      split at hids
      · rename_i hm
        obtain ⟨radio, hradio, rfl⟩ := mem_map.mp hm
        cases hids
        obtain ⟨hk, rfl⟩ := getElem?_replicate_some hid
        exact ⟨rfl, hall radio hradio (seedsOf_covers.2 hk)⟩
      · split at hids
        · rename_i hd
          obtain ⟨radio, hradio, rfl⟩ := mem_map.mp hd
          cases hids
          obtain ⟨hk, rfl⟩ := getElem?_replicate_some hid
          exact ⟨rfl, hall radio hradio (seedsOf_covers.1 hk)⟩
        · simp at hids
    exact ⟨fun ring k id hid => inl (hzero ring k id hid),
      fun ring k _ _ id hne hid _ => absurd (hzero ring k id hid).1 hne⟩
  have hsound : Sound b₀ := (Sound.init config).congr rfl rfl rfl (le_refl _)
  obtain ⟨b, hok, hconfig, hsound', hslotted', hlengths', htally⟩ :=
    postSeeds_spec seeds (b := b₀) hv hsound hslotted fun s hs => by
      obtain ⟨radio, hradio, hs'⟩ := hmem s hs
      obtain ⟨haligned, hring⟩ := mem_seedsOf hs'
      refine ⟨?_, by rw [haligned]; decide⟩
      cases hring with
      | inl hd => exact ⟨_, by rw [hd.1]; exact (hlengths radio hradio).1, hd.2⟩
      | inr hm => exact ⟨_, by rw [hm.1]; exact (hlengths radio hradio).2, hm.2⟩
  refine ⟨b, ?_, hconfig, hsound', hslotted', fun radio h0 hlt => ?_, fun g => ?_⟩
  · simp only [EventBuilder.seedRings, EventBuilder.init] at hshuffle ⊢
    simp only [← hradios, hshuffle, bind, Except.bind]
    exact hok
  · rw [hlengths', hlengths']
    exact hlengths radio (mem_radioRange.mpr ⟨h0, hlt⟩)
  · have hnil : tally b₀.events g = 0 := rfl
    have hlen : (radios.length : Int) = config.radios := by
      have := hv.radios
      simp [hradios, radioRange]
      omega
    rw [htally, hnil, zero_add, (hperm.map _).sum_eq, sum_flatMap_const _ _ _ _
      fun radio _ => sum_seedsOf radio hv (g 0 .post), hlen]

end SeedRings

/-! ## Transients -/

variable {b : EventBuilder}

/-- One copy-engine buffer, allocated and freed. -/
theorem transient_spec {timeNs : Int} (hv : b.config.Valid) (hsound : Sound b)
    (hrun : InRun b.config timeNs) :
    ∃ b', transient timeNs b = .ok b' ∧ b'.config = b.config ∧ Sound b' ∧
      ∀ g, IgnoresFree g → tally b'.events g = tally b.events g + g timeNs .alloc "ce" := by
  have hpos := hrun.1
  obtain ⟨lane, rng₁, hlane⟩ :=
    lane_spec (b := { b with nextLogicalId := b.nextLogicalId + 1 }) hv
  obtain ⟨radio, rng₂, hradio, -, -⟩ := below_spec
    { b with nextLogicalId := b.nextLogicalId + 1, rng := rng₁ } b.config.radios hv.radios
  set common : EventFields :=
    { source := "ce", ring := s!"ce{radio}", lane := lane, lifetime := "short",
      requestedBytes := 0, alignedBytes := 0, slot := -1 } with hcommon
  set fields : EventFields :=
    { common with requestedBytes := 2048, alignedBytes := 2432 } with hfields
  set b₀ : EventBuilder := { b with nextLogicalId := b.nextLogicalId + 1, rng := rng₂ } with hb₀
  set b₁ := b₀.add timeNs .alloc b.nextLogicalId fields with hb₁
  have hconfig₁ : b₁.config = b.config := by simp [hb₁, hb₀]
  have hhold : 0 < b₁.config.ceHoldNs := by rw [hconfig₁]; exact hv.ce_hold
  obtain ⟨held, rng₃, hheld, hheld1⟩ :=
    lifetime_spec (b := b₁) (by rw [hconfig₁]; exact hv) hhold
  set b₂ : EventBuilder := { b₁ with rng := rng₃ } with hb₂
  have hend : timeNs ≤ b₀.config.durationNs := hrun.2
  have hfresh : ofId b₀.events b.nextLogicalId = [] := hsound.ofId_fresh (le_refl _)
  have hown : ofId b₁.events b.nextLogicalId
      = [b₀.event timeNs .alloc b.nextLogicalId fields] := by
    rw [hb₁, ofId_add_self hend, hfresh, nil_append]
  have hsound₁ : Sound b₁ := by
    have hsound₀ : Sound b₀ := hsound.congr rfl rfl rfl (by simp [hb₀])
    refine hsound₀.add (by omega) ⟨hsound.nonzero, Nat.lt_succ_self _⟩ (fun _ => ?_) ?_ ?_
    · simp only [hfields]
      decide
    · simp [hfresh]
    · show Life ((ofId _ _).map _ ++ _)
      rw [hfresh]
      decide
  have hsound₂ : Sound b₂ := hsound₁.congr rfl rfl rfl (le_refl _)
  refine ⟨b₂.add (timeNs + held) .free b.nextLogicalId common, ?_, ?_, ?_, fun g hg => ?_⟩
  · simp only [transient, newLogicalId, hlane, bind, Except.bind, hradio]
    rw [← hcommon, ← hfields]
    have hheld' : lifetime (EventBuilder.add b₀ timeNs .alloc b.nextLogicalId fields)
        (EventBuilder.add b₀ timeNs .alloc b.nextLogicalId fields).config.ceHoldNs
        = .ok (held, b₂) := hheld
    simp only [hheld']
    rfl
  · simp [hb₂, hconfig₁]
  · refine hsound₂.add (by omega) ⟨hsound.nonzero, ?_⟩ (by simp) ?_ ?_
    · simp [hb₂, hb₁, hb₀]
    · show ∀ e ∈ ofId b₁.events _, _
      rw [hown]
      simp [EventBuilder.event]
      omega
    · show Life ((ofId b₁.events _).map _ ++ _)
      rw [hown]
      show Life [.alloc, .free]
      decide
  · rw [tally_add_free hg]
    show tally b₁.events g = _
    rw [hb₁, tally_add hend]

theorem transients_spec : ∀ (times : List Int) {b : EventBuilder}, b.config.Valid → Sound b →
    (∀ t ∈ times, InRun b.config t) →
    ∃ b', transients times b = .ok b' ∧ Sound b' ∧ b'.config = b.config ∧
      ∀ g, IgnoresFree g →
        tally b'.events g = tally b.events g + (times.map fun t => g t .alloc "ce").sum
  | [], b, _, hsound, _ => ⟨b, rfl, hsound, rfl, fun g _ => by simp⟩
  | t :: times, b, hv, hsound, hrun => by
    obtain ⟨b₁, hok₁, hconfig₁, hsound₁, htally₁⟩ :=
      transient_spec hv hsound (hrun t mem_cons_self)
    obtain ⟨b₂, hok₂, hsound₂, hconfig₂, htally₂⟩ :=
      transients_spec times (b := b₁) (by rw [hconfig₁]; exact hv) hsound₁
        (fun t' ht => by rw [hconfig₁]; exact hrun t' (mem_cons_of_mem _ ht))
    refine ⟨b₂, ?_, hsound₂, hconfig₂.trans hconfig₁, fun g hg => ?_⟩
    · simp only [transients, hok₁, bind, Except.bind]
      exact hok₂
    · rw [htally₂ g hg, htally₁ g hg, map_cons, sum_cons, add_assoc]

/-! ## The final sort -/

theorem before_trans (a b c : Event) (h : before a b) (h' : before b c) : before a c := by
  rw [before_iff] at *
  omega

theorem before_total (a b : Event) : before a b || before b a := by
  rw [Bool.or_eq_true, before_iff, before_iff]
  omega

/-- The sort keeps each buffer's own events as they are. -/
theorem ofId_mergeSort {es : List Event} {id : Nat}
    (h : (ofId es id).Pairwise (fun e e' => before e e')) :
    ofId (es.mergeSort before) id = ofId es id := by
  have hsub : (ofId es id).Sublist (es.mergeSort before) :=
    sublist_mergeSort before_trans before_total h filter_sublist
  have hsub' : (ofId es id).Sublist (ofId (es.mergeSort before) id) := by
    have hfilter := hsub.filter (fun e => e.logicalId = id)
    simpa [ofId, filter_filter] using hfilter
  have hperm : (ofId (es.mergeSort before) id).Perm (ofId es id) :=
    (mergeSort_perm es before).filter _
  exact (hsub'.eq_of_length hperm.length_eq.symm).symm

/-- Sound events make a well-formed stream. -/
theorem Sound.wellFormed (h : Sound b) :
    WellFormed b.config.durationNs (b.events.mergeSort before) where
  sorted := by
    refine (pairwise_mergeSort before_trans before_total b.events).imp fun hle => ?_
    rw [before_iff] at hle
    omega
  times := fun e he => h.times e (mem_mergeSort.mp he)
  life := fun id => by
    show Life ((ofId _ _).map _)
    rw [ofId_mergeSort (h.ordered id)]
    exact h.life id

/-! ## The stream -/

theorem addRingTurnover_spec {t : Turnover} {clock : String → Int} {rate : Decimal} {n : Int}
    (hv : b.config.Valid) (hhold : 0 < t.holdNs)
    (hsized : 0 < t.aligned ∧ t.aligned ≤ pageFragCacheMaxSize) (h : Turning t 0 b clock)
    (hcount : eventCount b.config rate = .ok n) (hnn : 0 ≤ n) :
    ∃ (times : List Int) (b' : EventBuilder) (clock' : String → Int),
      b.addRingTurnover t rate = .ok b' ∧ Sound b' ∧ Slotted b' clock' [] ∧
      Kept t b b' clock clock' ∧ (times.length : Int) = n ∧ (∀ t' ∈ times, InRun b.config t') ∧
      ∀ g, IgnoresFree g → tally b'.events g = tally b.events g +
        (times.map fun t' => g t' .reap t.source + g t' .post t.source).sum := by
  obtain ⟨times, rng, htimes, hlen, hsorted, hrun⟩ := eventTimes_spec hv hcount hnn
  have hstart : Turning t 0 { b with rng := rng } clock :=
    ⟨h.sound.congr rfl rfl rfl (le_refl _), ⟨h.slotted.posted, h.slotted.distinct⟩, h.due,
      h.rings⟩
  have hpairs : ((0 : Int) :: times).Pairwise (· ≤ ·) :=
    pairwise_cons.mpr ⟨fun t' ht => by have := (hrun t' ht).1; omega, hsorted⟩
  obtain ⟨b', clock', hok, hsound, hslotted, hkept, htally⟩ :=
    Turning.replaceAll hhold hsized times (b := { b with rng := rng }) hv hstart hpairs hrun
  refine ⟨times, b', clock', ?_, hsound, hslotted, ⟨hkept.config, hkept.lengths, hkept.clocks⟩,
    hlen, hrun, htally⟩
  simp only [addRingTurnover, htimes, bind, Except.bind]
  exact hok

/-- What a generated stream is made of: the seeds, `nd` and `nm` replacements
and `nc` transients. -/
structure Generated (config : SimulationConfig) (nd nm nc : Int) (events : List Event) : Prop where
  wellFormed : WellFormed config.durationNs events
  sized : ∀ e ∈ events, e.Sized
  tally : ∃ td tm tc : List Int,
    (td.length : Int) = nd ∧ (tm.length : Int) = nm ∧ (tc.length : Int) = nc ∧
    (∀ t ∈ td ++ tm ++ tc, InRun config t) ∧ ∀ g, IgnoresFree g →
      tally events g = config.radios * (config.dataCapacity * g 0 .post "data"
          + config.monitorCapacity * g 0 .post "monitor_status")
        + (td.map fun t => g t .reap "data" + g t .post "data").sum
        + (tm.map fun t => g t .reap "monitor_status" + g t .post "monitor_status").sum
        + (tc.map fun t => g t .alloc "ce").sum

theorem eventTimes_error {rate : Decimal} {err : PyError}
    (h : eventCount b.config rate = .error err) : b.eventTimes rate = .error err := by
  simp [eventTimes, h, bind, Except.bind]

/-- **Generation**: an accepted configuration fails where one of its three
counts does, and nowhere else. -/
theorem generateEvents_cases {config : SimulationConfig} (hvalidate : config.validate = .ok ()) :
    (∃ err, generateEvents config = .error err ∧
      (eventCount config config.dataRate = .error err ∨
        eventCount config config.monitorRate = .error err ∨
        eventCount config config.ceRate = .error err)) ∨
    ∃ nd nm nc events, eventCount config config.dataRate = .ok nd ∧
      eventCount config config.monitorRate = .ok nm ∧ eventCount config config.ceRate = .ok nc ∧
      generateEvents config = .ok events ∧ Generated config nd nm nc events := by
  have hv := SimulationConfig.valid_of_validate hvalidate
  obtain ⟨b₁, hok₁, hc₁, hsound₁, hslotted₁, hlengths₁, htally₁⟩ := seedRings_spec hv
  have hsized : (0 : Int) < 2560 ∧ (2560 : Int) ≤ pageFragCacheMaxSize := by decide
  have hturn₁ : Turning (dataTurnover config) 0 b₁ (fun _ => 0) := by
    refine ⟨hsound₁, hslotted₁, fun _ => le_refl _, fun radio h0 hlt => ?_⟩
    rw [hc₁] at hlt
    have := hv.data_capacity
    exact ⟨_, (hlengths₁ radio h0 hlt).1, by omega⟩
  have hstep₁ : generateEvents config = (do
      let b ← b₁.addRingTurnover (dataTurnover b₁.config) b₁.config.dataRate
      let b ← b.addRingTurnover (monitorTurnover b.config) b.config.monitorRate
      let b ← b.addCeTransients
      return b.events.mergeSort before) := by
    simp only [generateEvents, hvalidate, EventBuilder.build, hok₁, bind, Except.bind]
  rw [hc₁] at hstep₁
  cases hnd : eventCount config config.dataRate with
  | error err =>
    refine inl ⟨err, ?_, inl rfl⟩
    rw [hstep₁, addRingTurnover, eventTimes_error (by rw [hc₁]; exact hnd)]
    rfl
  | ok nd =>
  obtain ⟨td, b₂, clock₂, hok₂, hsound₂, hslotted₂, hkept₂, htd, htdrun, htally₂⟩ :=
    addRingTurnover_spec (by rw [hc₁]; exact hv) hv.data_hold hsized hturn₁
      (by rw [hc₁]; exact hnd) (eventCount_nonneg hv.duration hv.rates.1 hnd)
  have hc₂ : b₂.config = config := hkept₂.config.trans hc₁
  have hturn₂ : Turning (monitorTurnover config) 0 b₂ clock₂ := by
    refine ⟨hsound₂, hslotted₂, fun radio => ?_, fun radio h0 hlt => ?_⟩
    · exact le_of_eq (hkept₂.clocks _ fun radio' heq =>
        dataRing_ne_monitorRing radio' radio heq.symm)
    · rw [hc₂] at hlt
      have := hv.monitor_capacity
      exact ⟨_, (hkept₂.lengths _).trans (hlengths₁ radio h0 hlt).2, by omega⟩
  have hstep₂ : generateEvents config = (do
      let b ← b₂.addRingTurnover (monitorTurnover config) config.monitorRate
      let b ← b.addCeTransients
      return b.events.mergeSort before) := by
    rw [hstep₁, hok₂]
    simp only [hc₂, bind, Except.bind]
  cases hnm : eventCount config config.monitorRate with
  | error err =>
    refine inl ⟨err, ?_, inr (inl rfl)⟩
    rw [hstep₂, addRingTurnover, eventTimes_error (by rw [hc₂]; exact hnm)]
    rfl
  | ok nm =>
  obtain ⟨tm, b₃, clock₃, hok₃, hsound₃, -, hkept₃, htm, htmrun, htally₃⟩ :=
    addRingTurnover_spec (by rw [hc₂]; exact hv) hv.monitor_hold hsized hturn₂
      (by rw [hc₂]; exact hnm) (eventCount_nonneg hv.duration hv.rates.2.1 hnm)
  have hc₃ : b₃.config = config := hkept₃.config.trans hc₂
  have hstep₃ : generateEvents config = (do
      let b ← b₃.addCeTransients
      return b.events.mergeSort before) := by
    rw [hstep₂, hok₃]
    rfl
  cases hnc : eventCount config config.ceRate with
  | error err =>
    refine inl ⟨err, ?_, inr (inr rfl)⟩
    rw [hstep₃, addCeTransients, eventTimes_error (by rw [hc₃]; exact hnc)]
    rfl
  | ok nc =>
  obtain ⟨tc, rng, htimes, htc, -, htcrun⟩ := eventTimes_spec (b := b₃) (by rw [hc₃]; exact hv)
    (by rw [hc₃]; exact hnc) (eventCount_nonneg hv.duration hv.rates.2.2 hnc)
  obtain ⟨b₄, hok₄, hsound₄, hc₄, htally₄⟩ :=
    transients_spec tc (b := { b₃ with rng := rng }) (by rw [hc₃]; exact hv)
      (hsound₃.congr rfl rfl rfl (le_refl _)) htcrun
  have hc : b₄.config = config := hc₄.trans hc₃
  have hadd₄ : b₃.addCeTransients = .ok b₄ := by
    have hrate : b₃.config.ceRate = config.ceRate := by rw [hc₃]
    simp only [addCeTransients, hrate, htimes, bind, Except.bind]
    exact hok₄
  refine inr ⟨nd, nm, nc, b₄.events.mergeSort before, rfl, rfl, rfl, ?_, ?_, fun e he => ?_,
    td, tm, tc, htd, htm, htc, ?_, ?_⟩
  · rw [hstep₃, hadd₄]
    rfl
  · rw [← hc]
    exact hsound₄.wellFormed
  · exact hsound₄.sized e (mem_mergeSort.mp he)
  · rw [hc₁] at htdrun
    rw [hc₂] at htmrun
    have htcrun' : ∀ t ∈ tc, InRun config t := by rw [← hc₃]; exact htcrun
    intro t ht
    simp only [mem_append] at ht
    obtain (hd | hm) | hc := ht
    · exact htdrun t hd
    · exact htmrun t hm
    · exact htcrun' t hc
  · intro g hg
    have hperm : tally (b₄.events.mergeSort before) g = tally b₄.events g :=
      ((mergeSort_perm b₄.events before).map _).sum_eq
    rw [hperm, htally₄ g hg]
    show tally b₃.events g + _ = _
    rw [htally₃ g hg, htally₂ g hg, htally₁ g]
    rfl

/-- What a stream that was generated is made of. -/
theorem generated_of_ok {config : SimulationConfig} {events : List Event}
    (h : generateEvents config = .ok events) :
    config.validate = .ok () ∧ ∃ nd nm nc, eventCount config config.dataRate = .ok nd ∧
      eventCount config config.monitorRate = .ok nm ∧ eventCount config config.ceRate = .ok nc ∧
      Generated config nd nm nc events := by
  have hvalidate : config.validate = .ok () := by
    cases hv : config.validate with
    | ok u => rfl
    | error err => simp [generateEvents, hv, bind, Except.bind] at h
  refine ⟨hvalidate, ?_⟩
  cases generateEvents_cases hvalidate with
  | inl herr =>
    obtain ⟨err, hgen, -⟩ := herr
    rw [hgen] at h
    cases h
  | inr hok =>
    obtain ⟨nd, nm, nc, events', hnd, hnm, hnc, hgen, hgenerated⟩ := hok
    rw [hgen] at h
    cases h
    exact ⟨nd, nm, nc, hnd, hnm, hnc, hgenerated⟩

end LibWrt.PageFrag
