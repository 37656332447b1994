/-
LibWrt.PageFrag.History — what a page's histories say of the fragments it
has held.

`ever_rings` and `ever_lifetimes` grow for as long as a page is in the books,
through every refill, every in-place reuse and after its free. `Recorded` is
the invariant: they are the rings and lifetimes of exactly the allocations
that landed on the page (`HeldOn`), and all of these came through one cache
key, since a fragment lands on a new page or on the current page of its own
key's cache. From it the classification of `_contribution` is read off.
-/
import LibWrt.PageFrag.Pages

namespace LibWrt.PageFrag

open List EventBuilder ScenarioReplay Or

/-- The fragment of allocation `e` of the stream landed on page `pid`. -/
def HeldOn (policy : Policy) (events : List Event) (pid : Nat) (e : Event) : Prop :=
  ∃ before after, events = before ++ e :: after ∧ e.Allocates ∧
    ((replayAfter policy (before ++ [e])).live.get? e.logicalId).map (·.fragment.pageId)
      = some pid

variable {policy : Policy} {events : List Event} {pid : Nat} {e : Event}

theorem HeldOn.mem (h : HeldOn policy events pid e) : e ∈ events ∧ e.Allocates := by
  obtain ⟨before, after, hsplit, ha, -⟩ := h
  exact ⟨by rw [hsplit]; simp, ha⟩

theorem not_heldOn_nil :
    ¬ HeldOn policy [] pid e := fun h => by simpa using h.mem.1

theorem heldOn_append {e' : Event} :
    HeldOn policy (events ++ [e]) pid e' ↔ HeldOn policy events pid e' ∨
      (e' = e ∧ e.Allocates ∧ ((replayAfter policy (events ++ [e])).live.get? e.logicalId).map
        (·.fragment.pageId) = some pid) := by
  constructor
  · rintro ⟨before, after, hsplit, ha, hland⟩
    rcases eq_nil_or_concat after with rfl | ⟨after, x, rfl⟩
    · obtain ⟨rfl, heq⟩ := append_inj' hsplit rfl
      cases heq
      exact inr ⟨rfl, ha, hland⟩
    · rw [concat_eq_append, ← cons_append, ← append_assoc] at hsplit
      obtain ⟨hevents, -⟩ := append_inj' hsplit rfl
      exact inl ⟨before, after, hevents, ha, hland⟩
  · rintro (⟨before, after, rfl, ha, hland⟩ | ⟨rfl, ha, hland⟩)
    · exact ⟨before, after ++ [e], by simp, ha, hland⟩
    · exact ⟨events, [], rfl, ha, hland⟩

/-! ## The invariant -/

structure Recorded (policy : Policy) (events : List Event) (r : ScenarioReplay) : Prop where
  run : processAll { policy := policy } events = .ok r
  rings : ∀ pid page, r.pages.get? pid = some page → ∀ ring,
    ring ∈ page.everRings ↔ ∃ e, HeldOn policy events pid e ∧ e.ring = ring
  lifetimes : ∀ pid page, r.pages.get? pid = some page → ∀ lifetime,
    lifetime ∈ page.everLifetimes ↔ ∃ e, HeldOn policy events pid e ∧ e.lifetime = lifetime
  held : ∀ pid page, r.pages.get? pid = some page → ∃ e, HeldOn policy events pid e
  absent : ∀ pid, r.pages.get? pid = none → ∀ e, ¬ HeldOn policy events pid e
  current : policy ≠ .nonPagefrag → ∀ key c pid, r.caches.get? key = some c →
    c.page = some pid → ∀ e, HeldOn policy events pid e → policy.cacheKey e = .ok key
  alike : ∀ pid e e', HeldOn policy events pid e → HeldOn policy events pid e' →
    e = e' ∨ ∃ key, policy.cacheKey e = .ok key ∧ policy.cacheKey e' = .ok key

section Recording

variable {policy : Policy} {events : List Event} {e : Event} {r r' : ScenarioReplay}
  {land : Option Nat}

theorem Recorded.start (policy : Policy) : Recorded policy [] { policy := policy } where
  run := rfl
  rings := fun pid page hpage => by cases policy <;> cases hpage
  lifetimes := fun pid page hpage => by cases policy <;> cases hpage
  held := fun pid page hpage => by cases policy <;> cases hpage
  absent := fun pid _ e => not_heldOn_nil
  current := fun _ key c pid hc => by cases hc
  alike := fun pid e e' h => absurd h not_heldOn_nil

theorem insert_image {pid : Nat} {f : Event → String} {ever : Finset String}
    (hheld : ∀ e', HeldOn policy (events ++ [e]) pid e' ↔
      HeldOn policy events pid e' ∨ (e' = e ∧ land = some pid))
    (hever : ∀ s, s ∈ ever ↔ ∃ e', HeldOn policy events pid e' ∧ f e' = s) (s : String) :
    s ∈ (if land = some pid then insert (f e) ever else ever) ↔
      ∃ e', HeldOn policy (events ++ [e]) pid e' ∧ f e' = s := by
  simp only [hheld]
  by_cases hland : land = some pid
  · rw [if_pos hland, Finset.mem_insert, hever]
    constructor
    · rintro (rfl | ⟨e', he', rfl⟩)
      · exact ⟨e, inr ⟨rfl, hland⟩, rfl⟩
      · exact ⟨e', inl he', rfl⟩
    · rintro ⟨e', he' | ⟨rfl, -⟩, rfl⟩
      · exact inr ⟨e', he', rfl⟩
      · exact inl rfl
  · rw [if_neg hland, hever]
    simp [hland]

theorem Recorded.step (h : Recorded policy events r) (hpolicy : r.policy = policy)
    (haud' : Audited r') (hstep : r.process e = .ok r')
    (hs : Stepped e land r r') : Recorded policy (events ++ [e]) r' := by
  have hrun : processAll { policy := policy } (events ++ [e]) = .ok r' := by
    rw [processAll_append, h.run]
    simp [processAll, Except.bind, bind, hstep]
  have hheld : ∀ pid e', HeldOn policy (events ++ [e]) pid e' ↔
      HeldOn policy events pid e' ∨ (e' = e ∧ land = some pid) := by
    intro pid e'
    rw [heldOn_append, replayAfter_of_ok hrun, hs.landed]
  -- the fragment is on a page that was not there, or its cache's own
  have hsource : ∀ pid e', land = some pid → HeldOn policy events pid e' →
      ∃ key, policy.cacheKey e = .ok key ∧ policy.cacheKey e' = .ok key := by
    intro pid e' hland he'
    cases hs.source pid hland with
    | inl hnone => exact absurd he' (h.absent pid hnone e')
    | inr hcur =>
      obtain ⟨key, c₀, hkey, hc₀, hpage⟩ := hcur
      rw [hpolicy] at hkey
      have hne : policy ≠ .nonPagefrag := by
        rintro rfl
        cases hkey
      exact ⟨key, hkey, h.current hne key c₀ pid hc₀ hpage e' he'⟩
  constructor
  case run => exact hrun
  case rings =>
    intro pid page' hpage' ring
    cases hpage : r.pages.get? pid with
    | some page =>
      obtain ⟨n, freed, -, hget⟩ := hs.evolves.old pid page hpage
      rw [hpage'] at hget
      cases hget
      exact insert_image (hheld pid) (h.rings pid page hpage) ring
    | none =>
      obtain ⟨hland, hrings, -⟩ := hs.evolves.new pid page' hpage hpage'
      rw [hrings]
      simp [hheld, hland, h.absent pid hpage, eq_comm]
  case lifetimes =>
    intro pid page' hpage' lifetime
    cases hpage : r.pages.get? pid with
    | some page =>
      obtain ⟨n, freed, -, hget⟩ := hs.evolves.old pid page hpage
      rw [hpage'] at hget
      cases hget
      exact insert_image (hheld pid) (h.lifetimes pid page hpage) lifetime
    | none =>
      obtain ⟨hland, -, hlifetimes⟩ := hs.evolves.new pid page' hpage hpage'
      rw [hlifetimes]
      simp [hheld, hland, h.absent pid hpage, eq_comm]
  case held =>
    intro pid page' hpage'
    cases hpage : r.pages.get? pid with
    | some page =>
      obtain ⟨e', he'⟩ := h.held pid page hpage
      exact ⟨e', (hheld pid e').mpr (inl he')⟩
    | none =>
      obtain ⟨hland, -⟩ := hs.evolves.new pid page' hpage hpage'
      exact ⟨e, (hheld pid e).mpr (inr ⟨rfl, hland⟩)⟩
  case absent =>
    intro pid hnone e' he'
    cases (hheld pid e').mp he' with
    | inl hold =>
      cases hpage : r.pages.get? pid with
      | none => exact h.absent pid hpage e' hold
      | some page =>
        obtain ⟨n, freed, -, hget⟩ := hs.evolves.old pid page hpage
        rw [hnone] at hget
        cases hget
    | inr hnew =>
      obtain ⟨-, hlive⟩ := (hs.landed pid).mp hnew.2
      obtain ⟨record, hrecord, rfl⟩ := Option.map_eq_some_iff.mp hlive
      obtain ⟨page, hpage, -⟩ := haud'.home hrecord
      rw [hnone] at hpage
      cases hpage
  case current =>
    intro hne key c pid hc hpage e' he'
    cases hs.current (by rw [hpolicy]; exact hne) key c pid hc hpage with
    | inl hnew =>
      obtain ⟨hland, hkey⟩ := hnew
      rw [hpolicy] at hkey
      cases (hheld pid e').mp he' with
      | inl hold =>
        obtain ⟨key', hkey', he'key⟩ := hsource pid e' hland hold
        rw [hkey] at hkey'
        cases hkey'
        exact he'key
      | inr hself => rw [hself.1]; exact hkey
    | inr hold =>
      obtain ⟨hland, c₀, hc₀, hpage₀⟩ := hold
      cases (hheld pid e').mp he' with
      | inl hbefore => exact h.current hne key c₀ pid hc₀ hpage₀ e' hbefore
      | inr hself => exact absurd hself.2 hland
  case alike =>
    intro pid e₁ e₂ h₁ h₂
    cases (hheld pid e₁).mp h₁ with
    | inl hold₁ =>
      cases (hheld pid e₂).mp h₂ with
      | inl hold₂ => exact h.alike pid e₁ e₂ hold₁ hold₂
      | inr hnew₂ =>
        obtain ⟨key, hkey, hkey₁⟩ := hsource pid e₁ hnew₂.2 hold₁
        exact inr ⟨key, hkey₁, by rw [hnew₂.1]; exact hkey⟩
    | inr hnew₁ =>
      cases (hheld pid e₂).mp h₂ with
      | inl hold₂ =>
        obtain ⟨key, hkey, hkey₂⟩ := hsource pid e₂ hnew₁.2 hold₂
        exact inr ⟨key, by rw [hnew₁.1]; exact hkey, hkey₂⟩
      | inr hnew₂ => exact inl (hnew₁.1.trans hnew₂.1.symm)

theorem Recorded.replay {durationNs : Int} (hw : WellFormed durationNs events)
    (hsized : ∀ e ∈ events, e.Sized) (policy : Policy) :
    ∃ r, Recorded policy events r ∧ Audited r := by
  induction events using List.reverseRecOn with
  | nil => exact ⟨_, Recorded.start policy, Audited.initial policy⟩
  | append_singleton events e ih =>
    have hsized₀ : ∀ e ∈ events, e.Sized := fun e he => hsized e (mem_append_left _ he)
    obtain ⟨r, hrec, haud⟩ := ih hw.of_append hsized₀
    obtain ⟨r₀, -, hok₀, -, hpolicy, -⟩ := hw.of_append.replays hsized₀ policy
    rw [hrec.run] at hok₀
    cases hok₀
    obtain ⟨r', -, hok, haud', -⟩ := hw.replays hsized policy
    have hstep : r.process e = .ok r' := by
      rw [processAll_append, hrec.run] at hok
      simp only [processAll, Except.bind, bind] at hok
      cases h : r.process e with
      | error err => simp [h] at hok
      | ok r₁ =>
        rw [h] at hok
        cases hok
        rfl
    obtain ⟨land, hs⟩ := haud.stepped (hsized e (by simp)) hstep
    exact ⟨r', hrec.step hpolicy haud' hstep hs, haud'⟩

end Recording

/-! ## Classification -/

/-- Allocations that `policy` sends to one cache agree in `f`. -/
def SharesKey (policy : Policy) (events : List Event) (f : Event → String) : Prop :=
  ∀ e ∈ events, ∀ e' ∈ events, e.Allocates → e'.Allocates → ∀ key,
    policy.cacheKey e = .ok key → policy.cacheKey e' = .ok key → f e = f e'

section Classes

variable {policy : Policy} {events : List Event} {r : ScenarioReplay} {pid : Nat} {page : Page}

/-- Then the allocations of one page agree too. -/
theorem Recorded.agree (h : Recorded policy events r) {f : Event → String}
    (hf : SharesKey policy events f) {e e' : Event} (he : HeldOn policy events pid e)
    (he' : HeldOn policy events pid e') : f e = f e' := by
  cases h.alike pid e e' he he' with
  | inl heq => rw [heq]
  | inr hkeys =>
    obtain ⟨key, hkey, hkey'⟩ := hkeys
    exact hf e he.mem.1 e' he'.mem.1 he.mem.2 he'.mem.2 key hkey hkey'

theorem Recorded.card_lifetimes (h : Recorded policy events r)
    (hf : SharesKey policy events (·.lifetime)) (hpage : r.pages.get? pid = some page) :
    page.everLifetimes.card ≤ 1 := by
  rw [Finset.card_le_one]
  intro a ha b hb
  obtain ⟨e, he, rfl⟩ := (h.lifetimes pid page hpage a).mp ha
  obtain ⟨e', he', rfl⟩ := (h.lifetimes pid page hpage b).mp hb
  exact h.agree hf he he'

theorem Recorded.card_rings (h : Recorded policy events r)
    (hf : SharesKey policy events (·.ring)) (hpage : r.pages.get? pid = some page) :
    page.everRings.card = 1 := by
  obtain ⟨e, he⟩ := h.held pid page hpage
  refine Finset.card_eq_one.mpr ⟨e.ring, ?_⟩
  ext ring
  rw [h.rings pid page hpage, Finset.mem_singleton]
  constructor
  · rintro ⟨e', he', rfl⟩
    exact h.agree hf he' he
  · rintro rfl
    exact ⟨e, he, rfl⟩

theorem Audited.fragments_pos (h : Audited r) (pid : Nat) :
    0 < (usageAt r.usage pid).fragments ↔
      ∃ id record, r.live.get? id = some record ∧ record.fragment.pageId = pid := by
  rw [(h.tracked pid).fragments]
  constructor
  · intro hpos
    by_contra hnone
    rw [recSum_eq_zero fun id record hid heq => hnone ⟨id, record, hid, heq⟩] at hpos
    exact lt_irrefl _ hpos
  · rintro ⟨id, record, hid, hpid⟩
    have := le_recSum (w := fun _ => 1) hid hpid fun _ _ _ => by omega
    omega

end Classes

/-! ## Generated streams -/

theorem bind_ok {α β : Type} {x : Except PyError α} {f : α → Except PyError β} {b : β}
    (h : x >>= f = .ok b) : ∃ a, x = .ok a ∧ f a = .ok b := by
  cases x with
  | error err => simp [bind, Except.bind] at h
  | ok a => exact ⟨a, rfl, h⟩

/-- The three kinds of buffers the builder makes. -/
def Shaped (radios : Int) (source ring lifetime : String) : Prop :=
  (source = "data" ∧ lifetime = "long" ∧ ∃ radio, ring = dataRing radio) ∨
  (source = "monitor_status" ∧ lifetime = "short" ∧ ∃ radio, ring = monitorRing radio) ∨
  (source = "ce" ∧ lifetime = "short" ∧ ∃ radio : Int, 0 ≤ radio ∧ radio < radios ∧
    ring = s!"ce{radio}")

namespace EventBuilder

def AllShaped (b : EventBuilder) : Prop :=
  ∀ e ∈ b.events, Shaped b.config.radios e.source e.ring e.lifetime

/-- Only the random generator and the slots differ. -/
def SameEvents (b b' : EventBuilder) : Prop := b'.events = b.events ∧ b'.config = b.config

variable {b b' : EventBuilder}

theorem SameEvents.shaped (h : SameEvents b b') (hb : b.AllShaped) : b'.AllShaped := by
  intro e he
  rw [h.1] at he
  rw [h.2]
  exact hb e he

theorem AllShaped.add (hb : b.AllShaped) (timeNs : Int) (action : Action) (id : Nat)
    {fields : EventFields}
    (hfields : Shaped b.config.radios fields.source fields.ring fields.lifetime) :
    (b.add timeNs action id fields).AllShaped := by
  intro e he
  rw [add_config]
  unfold EventBuilder.add at he
  split at he
  · exact hb e he
  · cases mem_append.mp he with
    | inl hold => exact hb e hold
    | inr hnew =>
      rw [mem_singleton.mp hnew]
      exact hfields

theorem below_same {bound v : Int} (h : b.below bound = .ok (v, b')) :
    SameEvents b b' ∧ 0 ≤ v ∧ v < bound := by
  obtain ⟨⟨v', rng⟩, hrng, hret⟩ := bind_ok h
  cases hret
  refine ⟨⟨rfl, rfl⟩, ?_⟩
  unfold SplitMix64.below at hrng
  split at hrng
  · cases hrng
  · cases hrng
    exact ⟨Int.emod_nonneg _ (by omega), Int.emod_lt_of_pos _ (by omega)⟩

theorem lane_same {lane : String} (h : b.lane = .ok (lane, b')) : SameEvents b b' := by
  obtain ⟨⟨roll, b₁⟩, hroll, h⟩ := bind_ok h
  obtain ⟨lane', -, hret⟩ := bind_ok h
  cases hret
  exact (below_same hroll).1

theorem lifetime_same {base held : Int} (h : b.lifetime base = .ok (held, b')) :
    SameEvents b b' := by
  simp only [EventBuilder.lifetime, pure, Except.pure] at h
  split at h
  · cases h
    exact ⟨rfl, rfl⟩
  · obtain ⟨⟨extra, b₁⟩, hextra, hret⟩ := bind_ok h
    cases hret
    exact (below_same hextra).1

theorem jitter_same {anchor span anchor' : Int} (h : b.jitter anchor span = .ok (anchor', b')) :
    SameEvents b b' := by
  unfold jitter at h
  split at h
  · cases h
    exact ⟨rfl, rfl⟩
  · obtain ⟨⟨offset, b₁⟩, hoffset, hret⟩ := bind_ok h
    cases hret
    exact (below_same hoffset).1

theorem bursts_same {count gap : Int} : ∀ {fuel : Nat} {emitted : Int} {times times' : List Int}
    {b b' : EventBuilder}, bursts count gap fuel emitted times b = .ok (times', b') →
    SameEvents b b'
  | 0, emitted, times, times', b, b', h => by
    simp only [bursts] at h
    split at h
    · cases h
    · cases h
      exact ⟨rfl, rfl⟩
  | fuel + 1, emitted, times, times', b, b', h => by
    simp only [bursts] at h
    split at h
    · obtain ⟨⟨more, b₁⟩, hmore, h⟩ := bind_ok h
      obtain ⟨⟨anchor, b₂⟩, hanchor, h⟩ := bind_ok h
      have h₁ := (below_same hmore).1
      have h₂ := jitter_same hanchor
      have h₃ := bursts_same h
      exact ⟨h₃.1.trans (h₂.1.trans h₁.1), h₃.2.trans (h₂.2.trans h₁.2)⟩
    · cases h
      exact ⟨rfl, rfl⟩

theorem eventTimes_same {rate : Decimal} {times : List Int}
    (h : b.eventTimes rate = .ok (times, b')) : SameEvents b b' := by
  obtain ⟨count, -, h⟩ := bind_ok h
  simp only [pure, Except.pure] at h
  split at h
  · cases h
    exact ⟨rfl, rfl⟩
  · obtain ⟨⟨times', b₁⟩, hbursts, hret⟩ := bind_ok h
    cases hret
    exact bursts_same hbursts

theorem setSlot_same {ring : String} {slot id : Nat} (h : b.setSlot ring slot id = .ok b') :
    SameEvents b b' := by
  unfold setSlot at h
  split at h
  · cases h
  · split at h
    · cases h
      exact ⟨rfl, rfl⟩
    · cases h

variable {timeNs : Int} {t : Turnover}

theorem AllShaped.post (hb : b.AllShaped) {requested aligned slot : Int}
    {source ring lifetime : String} {id : Nat}
    (hshape : Shaped b.config.radios source ring lifetime)
    (h : b.post timeNs source ring lifetime requested aligned slot = .ok (id, b')) :
    b'.AllShaped ∧ b'.config = b.config := by
  obtain ⟨⟨lane, b₁⟩, hlane, hret⟩ := bind_ok h
  have hsame := lane_same hlane
  cases hret
  have hconfig : b₁.config = b.config := hsame.2
  refine ⟨?_, by rw [add_config, hconfig]⟩
  refine AllShaped.add (hsame.shaped hb) _ _ _ ?_
  rw [hconfig]
  exact hshape

theorem AllShaped.postSeeds : ∀ {seeds : List Seed} {b b' : EventBuilder}, b.AllShaped →
    (∀ s ∈ seeds, Shaped b.config.radios s.source s.ring s.lifetime) →
    postSeeds seeds b = .ok b' → b'.AllShaped ∧ b'.config = b.config
  | [], b, b', hb, _, h => by
    cases h
    exact ⟨hb, rfl⟩
  | s :: seeds, b, b', hb, hseeds, h => by
    obtain ⟨⟨id, b₁⟩, hpost, h⟩ := bind_ok h
    obtain ⟨b₂, hset, h⟩ := bind_ok h
    obtain ⟨h₁, hconfig₁⟩ := hb.post (hseeds s mem_cons_self) hpost
    have hsame := setSlot_same hset
    have hconfig₂ : b₂.config = b.config := hsame.2.trans hconfig₁
    obtain ⟨h₃, hconfig₃⟩ := AllShaped.postSeeds (hsame.shaped h₁)
      (fun s' hs' => by rw [hconfig₂]; exact hseeds s' (mem_cons_of_mem _ hs')) h
    exact ⟨h₃, hconfig₃.trans hconfig₂⟩

theorem AllShaped.seedRings (hb : b.AllShaped) (h : b.seedRings = .ok b') :
    b'.AllShaped ∧ b'.config = b.config := by
  obtain ⟨⟨seeds, rng⟩, hshuffle, h⟩ := bind_ok h
  obtain ⟨out, g', hout, hperm⟩ :=
    SplitMix64.shuffle_spec b.rng ((radioRange b.config).flatMap (seedsOf b.config))
  have hsame : b.rng.shuffle ((radioRange b.config).flatMap (seedsOf b.config))
      = .ok (seeds, rng) := hshuffle
  rw [hout] at hsame
  cases hsame
  have hb₀ : EventBuilder.AllShaped { b with
    slots := (radioRange b.config).foldl (emptySlots b.config) b.slots, rng := rng } := hb
  refine hb₀.postSeeds (fun s hs => ?_) h
  obtain ⟨radio, -, hs⟩ := mem_flatMap.mp (hperm.mem_iff.mp hs)
  simp only [seedsOf, mem_append, mem_map] at hs
  rcases hs with ⟨slot, -, rfl⟩ | ⟨slot, -, rfl⟩
  · exact inl ⟨rfl, rfl, radio, rfl⟩
  · exact inr (inl ⟨rfl, rfl, radio, rfl⟩)

theorem AllShaped.replace (hb : b.AllShaped)
    (ht : ∀ radio, Shaped b.config.radios t.source (t.ring radio) t.lifetime)
    (h : replace t timeNs b = .ok b') : b'.AllShaped ∧ b'.config = b.config := by
  obtain ⟨⟨radio, b₁⟩, hradio, h⟩ := bind_ok h
  have h₁ := (below_same hradio).1
  simp only at h
  split at h
  · cases h
  · obtain ⟨⟨slot, b₂⟩, hslot, h⟩ := bind_ok h
    have h₂ := (below_same hslot).1
    have hb₂ := h₂.shaped (h₁.shaped hb)
    have hc₂ : b₂.config = b.config := h₂.2.trans h₁.2
    simp only at h
    split at h
    · cases h
    · rename_i oldId hold
      obtain ⟨⟨newId, b₃⟩, hpost, h⟩ := bind_ok h
      obtain ⟨b₄, hset, h⟩ := bind_ok h
      obtain ⟨⟨held, b₅⟩, hheld, hret⟩ := bind_ok h
      cases hret
      have hreap := hb₂.add timeNs .reap oldId
        (show Shaped b₂.config.radios (EventFields.source
            { source := t.source, ring := t.ring radio, lane := "", lifetime := t.lifetime,
              requestedBytes := 0, alignedBytes := 0, slot := slot }) (t.ring radio) t.lifetime by
          rw [hc₂]; exact ht radio)
      obtain ⟨hb₃, hc₃⟩ := hreap.post (by rw [add_config, hc₂]; exact ht radio) hpost
      have h₄ := setSlot_same hset
      have h₅ := lifetime_same hheld
      have hc₅ : b₅.config = b.config := by
        rw [h₅.2, h₄.2, hc₃, add_config, hc₂]
      refine ⟨(h₅.shaped (h₄.shaped hb₃)).add _ _ _ (by rw [hc₅]; exact ht radio), ?_⟩
      rw [add_config, hc₅]

theorem AllShaped.replaceAll : ∀ {times : List Int} {b b' : EventBuilder},
    b.AllShaped → (∀ radio, Shaped b.config.radios t.source (t.ring radio) t.lifetime) →
    replaceAll t times b = .ok b' → b'.AllShaped ∧ b'.config = b.config
  | [], b, b', hb, _, h => by
    cases h
    exact ⟨hb, rfl⟩
  | timeNs :: times, b, b', hb, ht, h => by
    obtain ⟨b₁, hreplace, h⟩ := bind_ok h
    obtain ⟨h₁, hc₁⟩ := hb.replace ht hreplace
    obtain ⟨h₂, hc₂⟩ := AllShaped.replaceAll h₁ (by rw [hc₁]; exact ht) h
    exact ⟨h₂, hc₂.trans hc₁⟩

theorem AllShaped.addRingTurnover {rate : Decimal} (hb : b.AllShaped)
    (ht : ∀ radio, Shaped b.config.radios t.source (t.ring radio) t.lifetime)
    (h : b.addRingTurnover t rate = .ok b') : b'.AllShaped ∧ b'.config = b.config := by
  obtain ⟨⟨times, b₁⟩, htimes, h⟩ := bind_ok h
  have h₁ := eventTimes_same htimes
  obtain ⟨h₂, hc₂⟩ := (h₁.shaped hb).replaceAll (by rw [h₁.2]; exact ht) h
  exact ⟨h₂, hc₂.trans h₁.2⟩

theorem AllShaped.transient (hb : b.AllShaped) (h : transient timeNs b = .ok b') :
    b'.AllShaped ∧ b'.config = b.config := by
  obtain ⟨⟨lane, b₁⟩, hlane, h⟩ := bind_ok h
  obtain ⟨⟨radio, b₂⟩, hradio, h⟩ := bind_ok h
  obtain ⟨⟨held, b₃⟩, hheld, hret⟩ := bind_ok h
  cases hret
  have h₁ := lane_same hlane
  obtain ⟨h₂, hnn, hlt⟩ := below_same hradio
  have hc₁ : b₁.config = b.config := h₁.2
  have hc₂ : b₂.config = b.config := h₂.2.trans hc₁
  have hshape : Shaped b.config.radios "ce" s!"ce{radio}" "short" :=
    inr (inr ⟨rfl, rfl, radio, hnn, by rw [← hc₁]; exact hlt, rfl⟩)
  have hb₂ : b₂.AllShaped := h₂.shaped (h₁.shaped hb)
  have h₃ := lifetime_same hheld
  have hc₃ : b₃.config = b.config := by rw [h₃.2, add_config, hc₂]
  refine ⟨?_, by rw [add_config, hc₃]⟩
  refine AllShaped.add (h₃.shaped (hb₂.add _ _ _ ?_)) _ _ _ ?_
  · rw [hc₂]
    exact hshape
  · rw [hc₃]
    exact hshape

theorem AllShaped.transients : ∀ {times : List Int} {b b' : EventBuilder}, b.AllShaped →
    transients times b = .ok b' → b'.AllShaped ∧ b'.config = b.config
  | [], b, b', hb, h => by
    cases h
    exact ⟨hb, rfl⟩
  | timeNs :: times, b, b', hb, h => by
    obtain ⟨b₁, htransient, h⟩ := bind_ok h
    obtain ⟨h₁, hc₁⟩ := hb.transient htransient
    obtain ⟨h₂, hc₂⟩ := h₁.transients h
    exact ⟨h₂, hc₂.trans hc₁⟩

end EventBuilder

/-- The events of a generated stream are of the three kinds. -/
theorem generated_shaped {config : SimulationConfig} (hgen : generateEvents config = .ok events) :
    ∀ e ∈ events, Shaped config.radios e.source e.ring e.lifetime := by
  obtain ⟨-, -, hbuild⟩ := bind_ok hgen
  obtain ⟨b₁, hseed, h⟩ := bind_ok hbuild
  obtain ⟨b₂, hdata, h⟩ := bind_ok h
  obtain ⟨b₃, hmonitor, h⟩ := bind_ok h
  obtain ⟨b₄, hce, hret⟩ := bind_ok h
  cases hret
  have hstart : (EventBuilder.init config).AllShaped := by
    intro e he
    cases he
  obtain ⟨h₁, hc₁⟩ := hstart.seedRings hseed
  obtain ⟨h₂, hc₂⟩ := h₁.addRingTurnover
    (fun radio => inl ⟨rfl, rfl, radio, dataTurnover_ring _ _⟩) hdata
  obtain ⟨h₃, hc₃⟩ := h₂.addRingTurnover
    (fun radio => inr (inl ⟨rfl, rfl, radio, monitorTurnover_ring _ _⟩)) hmonitor
  obtain ⟨⟨times, b₅⟩, htimes, htransients⟩ := bind_ok hce
  have h₅ := EventBuilder.eventTimes_same htimes
  obtain ⟨h₄, hc₄⟩ := (h₅.shaped h₃).transients htransients
  intro e he
  have hshape := h₄ e (mem_mergeSort.mp he)
  rw [hc₄, h₅.2, hc₃, hc₂, hc₁] at hshape
  exact hshape

/-- The key of the per-ring policy. -/
theorem perRing_key {key : List String} (h : Policy.perRing.cacheKey e = .ok key) :
    (e.source = "ce" ∧ key = ["ce-lane", e.lane]) ∨
      (e.source ≠ "ce" ∧ key = ["ring", e.ring]) := by
  simp only [Policy.cacheKey] at h
  split at h
  · exact inl ⟨‹_›, (Except.ok.inj h).symm⟩
  · exact inr ⟨‹_›, (Except.ok.inj h).symm⟩

/-- Two buffers of one ring have one lifetime. -/
theorem Shaped.lifetime_eq {radios : Int} {source source' ring life life' : String}
    (h : Shaped radios source ring life) (h' : Shaped radios source' ring life')
    (hne : source ≠ "ce") (hne' : source' ≠ "ce") : life = life' := by
  rcases h with ⟨-, rfl, radio, hring⟩ | ⟨-, rfl, radio, hring⟩ | ⟨hce, -⟩
  · rcases h' with ⟨-, rfl, -⟩ | ⟨-, rfl, radio', hring'⟩ | ⟨hce', -⟩
    · rfl
    · exact absurd (hring.symm.trans hring') (dataRing_ne_monitorRing radio radio')
    · exact absurd hce' hne'
  · rcases h' with ⟨-, rfl, radio', hring'⟩ | ⟨-, rfl, -⟩ | ⟨hce', -⟩
    · exact absurd (hring'.symm.trans hring) (dataRing_ne_monitorRing radio' radio)
    · rfl
    · exact absurd hce' hne'
  · exact absurd hce hne

theorem Shaped.ce {radios : Int} {ring life : String} (h : Shaped radios "ce" ring life) :
    life = "short" ∧ ∃ radio : Int, 0 ≤ radio ∧ radio < radios ∧ ring = s!"ce{radio}" := by
  rcases h with ⟨hs, -⟩ | ⟨hs, -⟩ | ⟨-, hlife, hradio⟩
  · simp at hs
  · simp at hs
  · exact ⟨hlife, hradio⟩

/-- Under the per-ring policy the allocations of one key share their lifetime,
and with one radio their ring. -/
theorem generated_sharesKey {config : SimulationConfig} (hgen : generateEvents config = .ok events) :
    SharesKey .perRing events (·.lifetime) ∧
      (config.radios = 1 → SharesKey .perRing events (·.ring)) := by
  have hshape := generated_shaped hgen
  -- a key of one kind is no key of the other
  have hkeys : ∀ e ∈ events, ∀ e' ∈ events, ∀ key, Policy.perRing.cacheKey e = .ok key →
      Policy.perRing.cacheKey e' = .ok key → (e.source = "ce" ∧ e'.source = "ce") ∨
        (e.source ≠ "ce" ∧ e'.source ≠ "ce" ∧ e.ring = e'.ring) := by
    intro e he e' he' key hk hk'
    rcases perRing_key hk with ⟨h, rfl⟩ | ⟨h, rfl⟩
    · rcases perRing_key hk' with ⟨h', -⟩ | ⟨-, heq⟩
      · exact inl ⟨h, h'⟩
      · simp at heq
    · rcases perRing_key hk' with ⟨-, heq⟩ | ⟨h', heq⟩
      · simp at heq
      · exact inr ⟨h, h', by simpa using heq⟩
  constructor
  · intro e he e' he' _ _ key hk hk'
    rcases hkeys e he e' he' key hk hk' with ⟨h, h'⟩ | ⟨h, h', hring⟩
    · have hlife := (h ▸ hshape e he).ce.1
      have hlife' := (h' ▸ hshape e' he').ce.1
      exact hlife.trans hlife'.symm
    · exact (hshape e he).lifetime_eq (hring ▸ hshape e' he') h h'
  · intro hone e he e' he' _ _ key hk hk'
    rcases hkeys e he e' he' key hk hk' with ⟨h, h'⟩ | ⟨-, -, hring⟩
    · obtain ⟨-, radio, hnn, hlt, hring⟩ := (h ▸ hshape e he).ce
      obtain ⟨-, radio', hnn', hlt', hring'⟩ := (h' ▸ hshape e' he').ce
      have hradio : radio = radio' := by omega
      subst hradio
      exact hring.trans hring'.symm
    · exact hring

/-- **Page histories follow the cache keys.** In every state of the replay of
a well-formed stream of allocations of 1 to 32768 bytes: if the allocations of
one key share their lifetime, no page and no slack is cross-lifetime; if they
share their ring, a page not freed is same-ring-only exactly while one of its
fragments is live; and a page is cross-lifetime only if it has held fragments
of two lifetimes. Generated streams share lifetimes under the per-ring policy,
and rings if there is one radio: the transients of a lane mix the radios'. -/
theorem histories_follow_keys {durationNs : Int} {events es es' : List Event}
    (hw : WellFormed durationNs events) (hsized : ∀ e ∈ events, e.Sized) (policy : Policy)
    (hsplit : events = es ++ es') :
    ∃ r, processAll { policy := policy } es = .ok r ∧
      (SharesKey policy events (·.lifetime) →
        r.aggregate .historicalCrossLifetimePages = 0 ∧
        r.aggregate .historicalCrossLifetimeSlackBytes = 0) ∧
      (SharesKey policy events (·.ring) → ∀ pid page, r.pages.get? pid = some page →
        page.freed = false → ∃ c, r.contribution pid = .ok c ∧
          (c .sameRingOnlyPages = 1 ↔ ∃ id record, r.live.get? id = some record ∧
            record.fragment.pageId = pid)) ∧
      (∀ pid c, r.contribution pid = .ok c → c .historicalCrossLifetimePages ≠ 0 →
        ∃ e e', HeldOn policy es pid e ∧ HeldOn policy es pid e' ∧
          e.lifetime ≠ e'.lifetime) ∧
      ∀ config : SimulationConfig, generateEvents config = .ok events →
        SharesKey .perRing events (·.lifetime) ∧
          (config.radios = 1 → SharesKey .perRing events (·.ring)) := by
  subst hsplit
  obtain ⟨r, hrec, haud⟩ := Recorded.replay hw.of_append
    (fun e he => hsized e (mem_append_left _ he)) policy
  have hshare : ∀ f : Event → String, SharesKey policy (es ++ es') f → SharesKey policy es f :=
    fun f hf e he e' he' => hf e (mem_append_left _ he) e' (mem_append_left _ he')
  refine ⟨r, hrec.run, fun hf => ?_, fun hf pid page hpage hfreed => ?_,
    fun pid c hc hcross => ?_, fun config hgen => generated_sharesKey hgen⟩
  · have hnot : ∀ pid page, r.pages.get? pid = some page →
        ¬ (0 < (usageAt r.usage pid).fragments ∧ 1 < page.everLifetimes.card) := by
      intro pid page hpage hcross
      have := hrec.card_lifetimes (hshare _ hf) hpage
      omega
    constructor
    · rw [haud.column]
      refine Dict.sum_eq_zero fun pid page hpage => ?_
      unfold priced
      split
      · rfl
      · exact if_neg (hnot pid page hpage)
    · rw [haud.column]
      refine Dict.sum_eq_zero fun pid page hpage => ?_
      unfold priced
      split
      · rfl
      · exact if_neg (hnot pid page hpage)
  · refine ⟨_, haud.contribution hpage, ?_⟩
    have hcard := hrec.card_rings (hshare _ hf) hpage
    rw [← haud.fragments_pos pid]
    simp [priced, hfreed, PageUsage.contribution, hcard]
  · cases hpage : r.pages.get? pid with
    | none => simp [contribution, hpage] at hc
    | some page =>
      rw [haud.contribution hpage] at hc
      cases hc
      have hmany : 1 < page.everLifetimes.card := by
        by_contra hle
        refine hcross ?_
        unfold priced
        split
        · rfl
        · exact if_neg fun h => hle h.2
      obtain ⟨a, ha, b, hb, hne⟩ := Finset.one_lt_card.mp hmany
      obtain ⟨e, he, rfl⟩ := (hrec.lifetimes pid page hpage a).mp ha
      obtain ⟨e', he', rfl⟩ := (hrec.lifetimes pid page hpage b).mp hb
      exact ⟨e, e', he, he', hne⟩

/-- A page its cache keeps, its one fragment freed. -/
theorem histories_follow_keys_fails :
    WellFormed smallConfig.durationNs oneRing ∧ (∀ e ∈ oneRing, e.Sized) ∧
      SharesKey .perRing oneRing (·.lifetime) ∧ SharesKey .perRing oneRing (·.ring) ∧
      oneRing = oneRing.take 2 ++ oneRing.drop 2 ∧
      ∃ r, processAll { policy := .perRing } (oneRing.take 2) = .ok r ∧
        (r.pages.get? 1).map (·.freed) = some false ∧
        (∃ e, HeldOn .perRing (oneRing.take 2) 1 e) ∧
        (r.contribution 1).toOption.map (· .sameRingOnlyPages) = some 0 := by
  have hsized : ∀ e ∈ oneRing, e.Sized := by
    simp [oneRing, Event.Sized, pageFragCacheMaxSize]
  have htake : WellFormed smallConfig.durationNs (oneRing.take 2) := by
    have hall := oneRing_wellFormed
    rw [← take_append_drop 2 oneRing] at hall
    exact hall.of_append
  obtain ⟨r, hrec, haud⟩ := Recorded.replay htake
    (fun e he => hsized e (mem_of_mem_take he)) .perRing
  have hr : replayAfter .perRing (oneRing.take 2) = r := replayAfter_of_ok hrec.run
  have hpage : ((replayAfter .perRing (oneRing.take 2)).pages.get? 1).map (·.freed)
      = some false := by decide +kernel
  have hclass : ((replayAfter .perRing (oneRing.take 2)).contribution 1).toOption.map
      (· .sameRingOnlyPages) = some 0 := by decide +kernel
  rw [hr] at hpage hclass
  refine ⟨oneRing_wellFormed, hsized, ?_, ?_, rfl, r, hrec.run, hpage, ?_, hclass⟩
  · intro e he e' he' _ _ key _ _
    revert e e'
    simp [oneRing]
  · intro e he e' he' _ _ key _ _
    revert e e'
    simp [oneRing]
  · obtain ⟨page, hget, -⟩ := Option.map_eq_some_iff.mp hpage
    exact hrec.held 1 page hget

theorem histories_follow_keys_one_ring : ∃ r,
    processAll { policy := .shared } oneRing = .ok r ∧
      r.aggregate .historicalCrossLifetimePages = 0 ∧
      r.aggregate .historicalCrossLifetimeSlackBytes = 0 := by
  have hsized : ∀ e ∈ oneRing, e.Sized := by
    simp [oneRing, Event.Sized, pageFragCacheMaxSize]
  obtain ⟨r, hrun, hcross, -⟩ := histories_follow_keys oneRing_wellFormed hsized .shared
    (append_nil oneRing).symm
  refine ⟨r, hrun, hcross ?_⟩
  intro e he e' he' _ _ key _ _
  revert e e'
  simp [oneRing]

end LibWrt.PageFrag
