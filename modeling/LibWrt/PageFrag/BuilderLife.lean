/-
LibWrt.PageFrag.BuilderLife — the generated stream is well formed.

Three invariants carry the proof. `Sound` is about the events so far: each
buffer's own events are in time order already as they are generated, and
are the start of a life. `Slotted` is about the slots: each holds a buffer
that is posted and not yet reaped, posted no later than `clock` of its
ring, and no buffer sits in two slots. `tally` counts: any weight of events
that ignores frees moves by a known amount at each step.

`Turning.replaceAll` is the main result: a turnover keeps all three.
-/
import LibWrt.PageFrag.BuilderSpec

namespace LibWrt.PageFrag

open EventBuilder Or Function Nat

/-- The events of buffer `id`. -/
def ofId (es : List Event) (id : Nat) : List Event :=
  es.filter (fun e => e.logicalId = id)

/-! ## What `add` does -/

namespace EventBuilder

variable {b : EventBuilder} {timeNs : Int} {action : Action} {id : Nat} {fields : EventFields}

theorem add_eq (h : timeNs ≤ b.config.durationNs) : b.add timeNs action id fields =
    { b with
      events := b.events ++ [b.event timeNs action id fields]
      nextSeq := b.nextSeq + 1 } :=
  if_neg (by omega)

@[simp] theorem add_config : (b.add timeNs action id fields).config = b.config := by
  unfold add
  split <;> rfl

@[simp] theorem add_nextLogicalId :
    (b.add timeNs action id fields).nextLogicalId = b.nextLogicalId := by
  unfold add
  split <;> rfl

@[simp] theorem add_slots : (b.add timeNs action id fields).slots = b.slots := by
  unfold add
  split <;> rfl

theorem ofId_add_ne {id' : Nat} (h : id' ≠ id) :
    ofId (b.add timeNs action id fields).events id' = ofId b.events id' := by
  unfold add
  split
  · rfl
  · simp [ofId, event, Ne.symm h]

theorem ofId_add_self (h : timeNs ≤ b.config.durationNs) :
    ofId (b.add timeNs action id fields).events id
      = ofId b.events id ++ [b.event timeNs action id fields] := by
  rw [add_eq h]
  simp [ofId, event]

end EventBuilder

/-! ## Counting events -/

def tally (es : List Event) (g : Int → Action → String → Int) : Int :=
  (es.map fun e => g e.timeNs e.action e.source).sum

/-- A weight that does not count frees, which may fall off the end of a run. -/
def IgnoresFree (g : Int → Action → String → Int) : Prop := ∀ t s, g t .free s = 0

section Tally

variable {b : EventBuilder} {timeNs : Int} {action : Action} {id : Nat} {fields : EventFields}
  {g : Int → Action → String → Int}

theorem tally_add (h : timeNs ≤ b.config.durationNs) :
    tally (b.add timeNs action id fields).events g
      = tally b.events g + g timeNs action fields.source := by
  rw [add_eq h]
  simp [tally, event]

theorem tally_add_free (hg : IgnoresFree g) :
    tally (b.add timeNs .free id fields).events g = tally b.events g := by
  by_cases h : timeNs ≤ b.config.durationNs
  · rw [tally_add h, hg, add_zero]
  · rw [EventBuilder.add, if_pos (by omega)]

end Tally

/-! ## Sound events -/

/-- What the events so far satisfy. -/
structure Sound (b : EventBuilder) : Prop where
  seqs : ∀ e ∈ b.events, e.seq < b.nextSeq
  ids : ∀ e ∈ b.events, 0 < e.logicalId ∧ e.logicalId < b.nextLogicalId
  nonzero : 0 < b.nextLogicalId
  times : ∀ e ∈ b.events, 0 ≤ e.timeNs ∧ e.timeNs ≤ b.config.durationNs
  ordered : ∀ id, (ofId b.events id).Pairwise (fun e e' => before e e')
  life : ∀ id, Life (history b.events id)
  sized : ∀ e ∈ b.events, e.Sized

namespace Sound

variable {b : EventBuilder}

theorem init (config : SimulationConfig) : Sound (EventBuilder.init config) := by
  refine ⟨?_, ?_, Nat.one_pos, ?_, fun id => List.Pairwise.nil, fun id => ?_, ?_⟩
  case refine_4 => exact inl (List.nil_prefix)
  all_goals simp [EventBuilder.init]

theorem congr (h : Sound b) {b' : EventBuilder} (hconfig : b'.config = b.config)
    (hevents : b'.events = b.events) (hseq : b'.nextSeq = b.nextSeq)
    (hid : b.nextLogicalId ≤ b'.nextLogicalId) : Sound b' where
  seqs := by rw [hevents, hseq]; exact h.seqs
  ids := by
    rw [hevents]
    intro e he
    have := h.ids e he
    omega
  nonzero := by have := h.nonzero; omega
  times := by rw [hevents, hconfig]; exact h.times
  ordered := by rw [hevents]; exact h.ordered
  life := by rw [hevents]; exact h.life
  sized := by rw [hevents]; exact h.sized

variable {id : Nat}

theorem add (h : Sound b) {timeNs : Int} {action : Action} {fields : EventFields}
    (htime : 0 ≤ timeNs) (hid : 0 < id ∧ id < b.nextLogicalId)
    (hsized : action = .post ∨ action = .alloc →
      0 < fields.alignedBytes ∧ fields.alignedBytes ≤ pageFragCacheMaxSize)
    (hlate : ∀ e ∈ ofId b.events id, e.timeNs ≤ timeNs)
    (hlife : Life (history b.events id ++ [action])) :
    Sound (b.add timeNs action id fields) := by
  by_cases hend : timeNs ≤ b.config.durationNs
  · have hmem : ∀ e ∈ (b.add timeNs action id fields).events,
        e ∈ b.events ∨ e = b.event timeNs action id fields := by
      intro e he
      rw [add_eq hend] at he
      simpa using he
    constructor
    case seqs =>
      intro e he
      rw [add_eq hend]
      cases hmem e he with
      | inl hold => exact lt_succ_of_lt (h.seqs e hold)
      | inr hnew => rw [hnew]; exact lt_succ_self _
    case ids =>
      intro e he
      rw [add_nextLogicalId]
      cases hmem e he with
      | inl hold => exact h.ids e hold
      | inr hnew => rw [hnew]; exact hid
    case nonzero =>
      rw [add_nextLogicalId]
      exact h.nonzero
    case times =>
      intro e he
      rw [add_config]
      cases hmem e he with
      | inl hold => exact h.times e hold
      | inr hnew => rw [hnew]; exact ⟨htime, hend⟩
    case ordered =>
      intro id'
      by_cases heq : id' = id
      · subst heq
        rw [ofId_add_self hend]
        refine List.pairwise_append.mpr ⟨h.ordered _, List.pairwise_singleton _ _, ?_⟩
        intro e he e' he'
        rw [List.mem_singleton.mp he']
        have hseq := h.seqs e (List.mem_of_mem_filter he)
        have hle := hlate e he
        rw [before_iff]
        show e.timeNs < timeNs ∨ e.timeNs = timeNs ∧ e.seq ≤ b.nextSeq
        omega
      · rw [ofId_add_ne heq]
        exact h.ordered id'
    case life =>
      intro id'
      by_cases heq : id' = id
      · subst heq
        show Life ((ofId _ _).map _)
        rw [ofId_add_self hend, List.map_append]
        exact hlife
      · show Life ((ofId _ _).map _)
        rw [ofId_add_ne heq]
        exact h.life id'
    case sized =>
      intro e he
      cases hmem e he with
      | inl hold => exact h.sized e hold
      | inr hnew => rw [hnew]; exact hsized
  · rw [EventBuilder.add, if_pos (by omega)]
    exact h

/-- A number that was not given out yet has no events. -/
theorem ofId_fresh (h : Sound b) (hid : b.nextLogicalId ≤ id) :
    ofId b.events id = [] := by
  refine List.filter_eq_nil_iff.mpr fun e he => ?_
  have := h.ids e he
  simp
  omega

/-- A number with an event was given out. -/
theorem ids_of (h : Sound b) {e : Event} (he : ofId b.events id = [e]) :
    0 < id ∧ id < b.nextLogicalId := by
  have hmem : e ∈ ofId b.events id := by simp [he]
  obtain ⟨hin, heq⟩ := List.mem_filter.mp hmem
  have := h.ids e hin
  simp at heq
  omega

end Sound

/-! ## Slots -/

/-- Buffer `id` is posted, no later than `timeNs`, and nothing else happened
to it. -/
def PostedBy (es : List Event) (id : Nat) (timeNs : Int) : Prop :=
  ∃ e, ofId es id = [e] ∧ e.action = .post ∧ e.timeNs ≤ timeNs

/-- Entry `k` of the slots of `ring` is `id`. -/
def SlotIs (slots : Dict String (List Nat)) (ring : String) (k id : Nat) : Prop :=
  ∃ ids, slots.get? ring = some ids ∧ ids[k]? = some id

/-- Every slot holds a posted buffer, or 0 while it is still `pending`. -/
structure Slotted (b : EventBuilder) (clock : String → Int) (pending : List (String × Nat)) :
    Prop where
  posted : ∀ ring k id, SlotIs b.slots ring k id →
    (id = 0 ∧ (ring, k) ∈ pending) ∨ PostedBy b.events id (clock ring)
  distinct : ∀ ring k ring' k' id, id ≠ 0 → SlotIs b.slots ring k id →
    SlotIs b.slots ring' k' id → ring = ring' ∧ k = k'

namespace Slotted

variable {b b' : EventBuilder} {clock clock' : String → Int}
  {pending pending' : List (String × Nat)}

/-- A slot's number was given out before. -/
theorem lt_next (h : Slotted b clock pending) (hb : Sound b) {ring : String} {k id : Nat}
    (hid : SlotIs b.slots ring k id) : id < b.nextLogicalId := by
  cases h.posted ring k id hid with
  | inl hzero => rw [hzero.1]; exact hb.nonzero
  | inr hposted =>
    obtain ⟨e, he, -⟩ := hposted
    exact (hb.ids_of he).2

/-- Slot `k` of `ring` gets a new buffer, and the one it held may go on. -/
theorem set (h : Slotted b clock pending) (hb : Sound b) {ring : String} {ids : List Nat}
    {k : Nat} (hids : b.slots.get? ring = some ids) (hk : k < ids.length)
    {newId : Nat} (hnew : newId = b.nextLogicalId)
    (hslots : b'.slots = b.slots.set ring (ids.set k newId))
    (hposted : PostedBy b'.events newId (clock' ring))
    (hother : ∀ id, id ≠ newId → ¬ SlotIs b.slots ring k id →
      ofId b'.events id = ofId b.events id)
    (hclock : ∀ r, clock r ≤ clock' r)
    (hpending : ∀ p ∈ pending, p = (ring, k) ∨ p ∈ pending') : Slotted b' clock' pending' := by
  -- a slot afterwards is the one set, or another one that was there
  have hcases : ∀ ring' k' id, SlotIs b'.slots ring' k' id →
      (ring' = ring ∧ k' = k ∧ id = newId) ∨
        ((ring', k') ≠ (ring, k) ∧ SlotIs b.slots ring' k' id) := by
    rintro ring' k' id ⟨ids', hids', hid⟩
    rw [hslots, Dict.get?_set] at hids'
    split at hids'
    · rename_i heq
      cases hids'
      subst heq
      rw [List.getElem?_set] at hid
      split at hid
      · rename_i hkk
        exact inl ⟨rfl, hkk.symm, (Option.some.inj hid).symm⟩
      · rename_i hkk
        exact inr ⟨fun h => hkk (Prod.mk.inj h).2.symm, ids, hids, hid⟩
    · rename_i hne
      exact inr ⟨fun h => hne (Prod.mk.inj h).1, ids', hids', hid⟩
  have hfresh : ∀ ring' k', ¬ SlotIs b.slots ring' k' newId := by
    intro ring' k' hin
    have := h.lt_next hb hin
    omega
  constructor
  case posted =>
    intro ring' k' id hid
    cases hcases ring' k' id hid with
    | inl hset =>
      obtain ⟨rfl, rfl, rfl⟩ := hset
      exact inr hposted
    | inr hold =>
      obtain ⟨hne, hold⟩ := hold
      cases h.posted ring' k' id hold with
      | inl hp =>
        cases hpending _ hp.2 with
        | inl heq => exact absurd heq hne
        | inr hin => exact inl ⟨hp.1, hin⟩
      | inr hp =>
        obtain ⟨e, he, hpost, hle⟩ := hp
        refine inr ⟨e, ?_, hpost, hle.trans (hclock ring')⟩
        rw [hother id (fun heq => hfresh ring' k' (heq ▸ hold)) fun hin => ?_, he]
        obtain ⟨h₁, h₂⟩ := h.distinct ring' k' ring k id (hb.ids_of he).1.ne' hold hin
        exact hne (by rw [h₁, h₂])
  case distinct =>
    intro r₁ k₁ r₂ k₂ id hzero h₁ h₂
    cases hcases r₁ k₁ id h₁ with
    | inl hset₁ =>
      obtain ⟨rfl, rfl, rfl⟩ := hset₁
      cases hcases r₂ k₂ _ h₂ with
      | inl hset₂ => exact ⟨hset₂.1.symm, hset₂.2.1.symm⟩
      | inr hold₂ => exact absurd hold₂.2 (hfresh r₂ k₂)
    | inr hold₁ =>
      cases hcases r₂ k₂ id h₂ with
      | inl hset₂ =>
        obtain ⟨-, -, rfl⟩ := hset₂
        exact absurd hold₁.2 (hfresh r₁ k₁)
      | inr hold₂ => exact h.distinct r₁ k₁ r₂ k₂ id hzero hold₁.2 hold₂.2

end Slotted

/-! ## Turnover -/

def ringLength (slots : Dict String (List Nat)) (ring : String) : Option Nat :=
  (slots.get? ring).map List.length

theorem ringLength_set {slots : Dict String (List Nat)} {ring : String} {ids : List Nat}
    (h : slots.get? ring = some ids) (k id : Nat) (ring' : String) :
    ringLength (slots.set ring (ids.set k id)) ring' = ringLength slots ring' := by
  by_cases heq : ring' = ring
  · subst heq
    simp [ringLength, h]
  · simp [ringLength, Dict.get?_set_ne _ heq]

/-- A turnover of `t` can go on at `timeNs`. -/
structure Turning (t : Turnover) (timeNs : Int) (b : EventBuilder) (clock : String → Int) :
    Prop where
  sound : Sound b
  slotted : Slotted b clock []
  due : ∀ radio, clock (t.ring radio) ≤ timeNs
  rings : ∀ radio, 0 ≤ radio → radio < b.config.radios →
    ∃ n, ringLength b.slots (t.ring radio) = some n ∧ 0 < n

structure Kept (t : Turnover) (b b' : EventBuilder) (clock clock' : String → Int) : Prop where
  config : b'.config = b.config
  lengths : ∀ ring, ringLength b'.slots ring = ringLength b.slots ring
  clocks : ∀ ring, (∀ radio, ring ≠ t.ring radio) → clock' ring = clock ring

/-- Slot `k` of `ring` handed from `oldId` to a new buffer: the two events of a
replacement that share its time. -/
def EventBuilder.hand (b : EventBuilder) (timeNs : Int) (ring : String) (ids : List Nat) (k : Nat)
    (oldId : Nat) (reaped posted : EventFields) : EventBuilder :=
  let b₁ := b.add timeNs .reap oldId reaped
  let b₂ := { b₁ with nextLogicalId := b.nextLogicalId + 1 }.add timeNs .post b.nextLogicalId posted
  { b₂ with slots := b.slots.set ring (ids.set k b.nextLogicalId) }

section Hand

variable {b : EventBuilder} {timeNs : Int} {ring : String} {ids : List Nat} {k oldId : Nat}
  {reaped posted : EventFields} {e : Event}

@[simp] theorem hand_config :
    (b.hand timeNs ring ids k oldId reaped posted).config = b.config := by
  simp [EventBuilder.hand]

@[simp] theorem hand_nextLogicalId :
    (b.hand timeNs ring ids k oldId reaped posted).nextLogicalId = b.nextLogicalId + 1 := by
  simp [EventBuilder.hand]

@[simp] theorem hand_slots : (b.hand timeNs ring ids k oldId reaped posted).slots
    = b.slots.set ring (ids.set k b.nextLogicalId) := rfl

theorem ofId_hand_ne {id : Nat} (hold : id ≠ oldId) (hnew : id ≠ b.nextLogicalId) :
    ofId (b.hand timeNs ring ids k oldId reaped posted).events id = ofId b.events id := by
  show ofId (EventBuilder.add _ _ _ _ _).events id = _
  rw [ofId_add_ne hnew]
  exact ofId_add_ne hold

theorem ofId_hand_old (hend : timeNs ≤ b.config.durationNs) (hlt : oldId < b.nextLogicalId) :
    ofId (b.hand timeNs ring ids k oldId reaped posted).events oldId
      = ofId b.events oldId ++ [b.event timeNs .reap oldId reaped] := by
  show ofId (EventBuilder.add _ _ _ _ _).events oldId = _
  rw [ofId_add_ne (by omega)]
  exact ofId_add_self hend

theorem postedBy_hand (h : Sound b) (hend : timeNs ≤ b.config.durationNs)
    (hlt : oldId < b.nextLogicalId) :
    PostedBy (b.hand timeNs ring ids k oldId reaped posted).events b.nextLogicalId timeNs := by
  have hfresh : ofId (b.add timeNs .reap oldId reaped).events b.nextLogicalId = [] := by
    rw [ofId_add_ne (by omega), h.ofId_fresh (le_refl _)]
  refine ⟨EventBuilder.event { b.add timeNs .reap oldId reaped with
    nextLogicalId := b.nextLogicalId + 1 } timeNs .post b.nextLogicalId posted, ?_, rfl,
    le_refl timeNs⟩
  show ofId (EventBuilder.add _ _ _ _ _).events _ = _
  rw [ofId_add_self (by simpa using hend)]
  exact congrArg (· ++ _) hfresh

theorem tally_hand (hend : timeNs ≤ b.config.durationNs) (g : Int → Action → String → Int) :
    tally (b.hand timeNs ring ids k oldId reaped posted).events g
      = tally b.events g + g timeNs .reap reaped.source + g timeNs .post posted.source := by
  show tally (EventBuilder.add _ _ _ _ _).events g = _
  rw [tally_add (by simpa using hend)]
  show tally (b.add timeNs .reap oldId reaped).events g + _ = _
  rw [tally_add hend]

/-- Handing a slot on keeps the events sound, if the old buffer is posted. -/
theorem Sound.hand (h : Sound b) (htime : 0 ≤ timeNs)
    (he : ofId b.events oldId = [e]) (hpost : e.action = .post) (hle : e.timeNs ≤ timeNs)
    (hsized : 0 < posted.alignedBytes ∧ posted.alignedBytes ≤ pageFragCacheMaxSize) :
    Sound (b.hand timeNs ring ids k oldId reaped posted) := by
  have hid := h.ids_of he
  have h₁ : Sound (b.add timeNs .reap oldId reaped) := by
    refine h.add htime hid (by simp) ?_ ?_
    · rw [he]
      intro e' he'
      rw [List.mem_singleton.mp he']
      exact hle
    · show Life ((ofId b.events oldId).map _ ++ _)
      rw [he, List.map_singleton, hpost]
      decide
  have h₂ : Sound { b.add timeNs .reap oldId reaped with
      nextLogicalId := b.nextLogicalId + 1 } :=
    h₁.congr rfl rfl rfl (by simp)
  have hfresh : ofId (b.add timeNs .reap oldId reaped).events b.nextLogicalId = [] := by
    rw [ofId_add_ne (by omega), h.ofId_fresh (le_refl _)]
  have h₃ : Sound (EventBuilder.add { b.add timeNs .reap oldId reaped with
      nextLogicalId := b.nextLogicalId + 1 } timeNs .post b.nextLogicalId posted) := by
    refine h₂.add htime ⟨h.nonzero, lt_succ_self _⟩ (fun _ => hsized) ?_ ?_
    · rw [hfresh]
      simp
    · show Life ((ofId _ _).map _ ++ _)
      rw [hfresh]
      decide
  exact h₃.congr rfl rfl rfl (le_refl _)

end Hand

variable {t : Turnover} {timeNs : Int} {b : EventBuilder} {clock : String → Int}

/-- What the draws of a replacement come to. -/
theorem replace_eq (hv : b.config.Valid) (hhold : 0 < t.holdNs) (h : Turning t timeNs b clock) :
    ∃ radio ids k, ∃ hk : k < ids.length, b.slots.get? (t.ring radio) = some ids ∧
      ∃ reaped posted rng held, reaped.source = t.source ∧ posted.source = t.source ∧
        posted.alignedBytes = t.aligned ∧ 1 ≤ held ∧
        replace t timeNs b = .ok (EventBuilder.add
          { b.hand timeNs (t.ring radio) ids k ids[k] reaped posted with rng := rng }
          (timeNs + held) .free ids[k] reaped) := by
  obtain ⟨radio, rng₁, hradio, hradio0, hradion⟩ := b.below_spec b.config.radios hv.radios
  obtain ⟨n, hlen, hn⟩ := h.rings radio hradio0 hradion
  obtain ⟨ids, hids, rfl⟩ := Option.map_eq_some_iff.mp hlen
  obtain ⟨slot, rng₂, hslot, hslot0, hslotn⟩ :=
    below_spec { b with rng := rng₁ } ids.length (by omega)
  have hk : slot.toNat < ids.length := by omega
  set common : EventFields :=
    { source := t.source, ring := t.ring radio, lane := "", lifetime := t.lifetime,
      requestedBytes := 0, alignedBytes := 0, slot := slot } with hcommon
  obtain ⟨lane, rng₃, hpost⟩ := post_spec
    (b := EventBuilder.add { b with rng := rng₂ } timeNs .reap ids[slot.toNat] common)
    (by rw [add_config]; exact hv)
    timeNs t.source (t.ring radio) t.lifetime t.requested t.aligned slot
  set posted : EventFields :=
    { source := t.source, ring := t.ring radio, lane := lane, lifetime := t.lifetime,
      requestedBytes := t.requested, alignedBytes := t.aligned, slot := slot } with hposted
  set b₂ := EventBuilder.add { b.add timeNs .reap ids[slot.toNat] common with
    nextLogicalId := b.nextLogicalId + 1 } timeNs .post b.nextLogicalId posted with hb₂
  have hpost₂ : EventBuilder.post
      (EventBuilder.add { b with rng := rng₂ } timeNs .reap ids[slot.toNat] common)
      timeNs t.source (t.ring radio) t.lifetime t.requested t.aligned slot
      = .ok (b.nextLogicalId, { b₂ with rng := rng₃ }) := by
    rw [hpost, hb₂]
    by_cases hend : timeNs > b.config.durationNs
    · simp [EventBuilder.add, hend]
    · simp [EventBuilder.add, hend, EventBuilder.event, hposted]
  have hslots₂ : b₂.slots = b.slots := by simp [hb₂]
  have hset : EventBuilder.setSlot { b₂ with rng := rng₃ } (t.ring radio) slot.toNat
      b.nextLogicalId = .ok { b.hand timeNs (t.ring radio) ids slot.toNat ids[slot.toNat]
        common posted with rng := rng₃ } := by
    rw [EventBuilder.setSlot, hslots₂, hids]
    exact if_pos hk
  obtain ⟨held, rng₄, hheld, hheld1⟩ := lifetime_spec
    (b := { b.hand timeNs (t.ring radio) ids slot.toNat ids[slot.toNat] common posted with
      rng := rng₃ })
    (by simpa using hv) hhold
  refine ⟨radio, ids, slot.toNat, hk, hids, common, posted, rng₄, held, rfl, rfl, rfl, hheld1, ?_⟩
  simp only [replace, hradio, bind, Except.bind, hids, hslot, List.getElem?_eq_getElem hk]
  rw [hpost₂]
  simp only [hset, hheld]
  rfl

/-- One replacement. -/
theorem Turning.replace (h : Turning t timeNs b clock) (hv : b.config.Valid) (hhold : 0 < t.holdNs)
    (hsized : 0 < t.aligned ∧ t.aligned ≤ pageFragCacheMaxSize) (hrun : InRun b.config timeNs) :
    ∃ b' clock', EventBuilder.replace t timeNs b = .ok b' ∧ Turning t timeNs b' clock' ∧
      Kept t b b' clock clock' ∧ ∀ g, IgnoresFree g →
        tally b'.events g
          = tally b.events g + (g timeNs .reap t.source + g timeNs .post t.source) := by
  obtain ⟨radio, ids, k, hk, hids, reaped, posted, rng, held, hreaped, hposted, haligned, hheld,
    hok⟩ := replace_eq hv hhold h
  have hend := hrun.2
  have hpos := hrun.1
  -- the buffer in the slot is posted, and that is all that happened to it
  have hin : SlotIs b.slots (t.ring radio) k ids[k] := ⟨ids, hids, List.getElem?_eq_getElem hk⟩
  have hold : PostedBy b.events ids[k] (clock (t.ring radio)) := by
    cases h.slotted.posted _ _ _ hin with
    | inl hp => simp at hp
    | inr hp => exact hp
  obtain ⟨e, he, hpost, hle⟩ := hold
  have hlate : e.timeNs ≤ timeNs := hle.trans (h.due radio)
  have hid := h.sound.ids_of he
  set b₀ := b.hand timeNs (t.ring radio) ids k ids[k] reaped posted with hb₀
  set b₁ : EventBuilder := { b₀ with rng := rng } with hb₁
  have hsound₀ : Sound b₀ :=
    h.sound.hand (by omega) he hpost hlate (by rw [haligned]; exact hsized)
  have hsound₁ : Sound b₁ := hsound₀.congr rfl rfl rfl (le_refl _)
  have hold₁ : ofId b₁.events ids[k] = [e, b.event timeNs .reap ids[k] reaped] := by
    show ofId b₀.events _ = _
    rw [hb₀, ofId_hand_old hend hid.2, he]
    rfl
  have hsound : Sound (b₁.add (timeNs + held) .free ids[k] reaped) := by
    refine hsound₁.add (by omega) ⟨hid.1, ?_⟩ (by simp) ?_ ?_
    · simp only [hb₁, hb₀, hand_nextLogicalId]
      omega
    · rw [hold₁]
      intro e' he'
      simp only [List.mem_cons, List.not_mem_nil, or_false] at he'
      cases he' with
      | inl heq => rw [heq]; omega
      | inr heq => rw [heq]; show timeNs ≤ _; omega
    · show Life ((ofId _ _).map _ ++ _)
      rw [hold₁]
      show Life [e.action, .reap, .free]
      rw [hpost]
      decide
  refine ⟨_, update clock (t.ring radio) timeNs, hok, ⟨hsound, ?_, ?_, ?_⟩,
    ⟨?_, ?_, ?_⟩, fun g hg => ?_⟩
  · refine h.slotted.set h.sound hids hk rfl ?_ ?_ ?_ ?_ (by simp)
    · simp [hb₁, hb₀]
    · rw [update_self]
      have hnew : PostedBy b₀.events b.nextLogicalId timeNs :=
        postedBy_hand h.sound hend hid.2
      obtain ⟨e', he', hrest⟩ := hnew
      exact ⟨e', (ofId_add_ne (by omega)).trans he', hrest⟩
    · intro id hne hout
      have hneold : id ≠ ids[k] := fun heq => hout (heq ▸ hin)
      have hhand : ofId b₀.events id = ofId b.events id := ofId_hand_ne hneold hne
      exact (ofId_add_ne hneold).trans hhand
    · intro ring
      by_cases hring : ring = t.ring radio
      · subst hring
        rw [update_self]
        exact h.due radio
      · rw [update_of_ne hring]
  · intro radio'
    by_cases hring : t.ring radio' = t.ring radio
    · rw [hring, update_self]
    · rw [update_of_ne hring]
      exact h.due radio'
  · intro radio' h0 hlt
    obtain ⟨n, hn, hpos⟩ := h.rings radio' h0 (by simpa [hb₁, hb₀] using hlt)
    refine ⟨n, ?_, hpos⟩
    simp only [add_slots, hb₁, hb₀, hand_slots]
    rw [ringLength_set hids, hn]
  · simp [hb₁, hb₀]
  · intro ring
    simp only [add_slots, hb₁, hb₀, hand_slots]
    exact ringLength_set hids _ _ _
  · intro ring hring
    exact update_of_ne (hring radio) _ _
  · rw [tally_add_free hg]
    show tally b₀.events g = _
    rw [hb₀, tally_hand hend, hreaped, hposted, add_assoc]

/-- The turnover can go on at a later time. -/
theorem Turning.later {timeNs' : Int} (h : Turning t timeNs b clock) (hle : timeNs ≤ timeNs') :
    Turning t timeNs' b clock :=
  { h with due := fun radio => (h.due radio).trans hle }

theorem Kept.trans {b' b'' : EventBuilder} {clock' clock'' : String → Int}
    (h : Kept t b b' clock clock') (h' : Kept t b' b'' clock' clock'') :
    Kept t b b'' clock clock'' where
  config := h'.config.trans h.config
  lengths := fun ring => (h'.lengths ring).trans (h.lengths ring)
  clocks := fun ring hring => (h'.clocks ring hring).trans (h.clocks ring hring)

/-- All replacements of one source, in the order of time. -/
theorem Turning.replaceAll (hhold : 0 < t.holdNs)
    (hsized : 0 < t.aligned ∧ t.aligned ≤ pageFragCacheMaxSize) :
    ∀ (times : List Int) {timeNs : Int} {b : EventBuilder} {clock : String → Int},
      b.config.Valid → Turning t timeNs b clock → (timeNs :: times).Pairwise (· ≤ ·) →
      (∀ t' ∈ times, InRun b.config t') →
      ∃ b' clock', EventBuilder.replaceAll t times b = .ok b' ∧ Sound b' ∧
        Slotted b' clock' [] ∧ Kept t b b' clock clock' ∧ ∀ g, IgnoresFree g →
          tally b'.events g = tally b.events g +
            (times.map fun t' => g t' .reap t.source + g t' .post t.source).sum
  | [], _, b, clock, _, h, _, _ =>
    ⟨b, clock, rfl, h.sound, h.slotted, ⟨rfl, fun _ => rfl, fun _ _ => rfl⟩, fun g _ => by simp⟩
  | t' :: times, timeNs, b, clock, hv, h, hsorted, hrun => by
    obtain ⟨hle, hsorted'⟩ := List.pairwise_cons.mp hsorted
    obtain ⟨b₁, clock₁, hok₁, h₁, hkept₁, htally₁⟩ :=
      (h.later (hle t' List.mem_cons_self)).replace hv hhold hsized (hrun t' List.mem_cons_self)
    obtain ⟨b₂, clock₂, hok₂, hsound, hslotted, hkept₂, htally₂⟩ :=
      Turning.replaceAll hhold hsized times (by rw [hkept₁.config]; exact hv) h₁ hsorted'
        (fun t'' ht => by rw [hkept₁.config]; exact hrun t'' (List.mem_cons_of_mem _ ht))
    refine ⟨b₂, clock₂, ?_, hsound, hslotted, hkept₁.trans hkept₂, fun g hg => ?_⟩
    · simp only [EventBuilder.replaceAll, hok₁, bind, Except.bind]
      exact hok₂
    · rw [htally₂ g hg, htally₁ g hg, List.map_cons, List.sum_cons, add_assoc]

end LibWrt.PageFrag
