/-
LibWrt.PageFrag.Lockstep — policies that partition the allocations alike
are physically the same.

Two page-frag policies replay one stream. If they give two allocations one
cache in the same cases, the runs go in lockstep (`Lock`): the allocators,
the usage and the aggregate are equal, and the cache of every allocation of
the stream is the same object under two keys. The page numbering needs no
renaming, because both runs ask the shared allocator in the same order.

Nothing is assumed of the stream: where one replay raises, the other raises
the same error.
-/
import LibWrt.Lib.Agree
import LibWrt.PageFrag.Scenario

namespace LibWrt.PageFrag

open List ScenarioReplay

/-! ## The relation -/

def Event.Allocates (e : Event) : Prop := e.action = .post ∨ e.action = .alloc

/-- Two policies give any two allocations of a stream the same cache in the
same cases. -/
def SamePartition (p q : Policy) (events : List Event) : Prop :=
  ∀ e ∈ events, ∀ e' ∈ events, e.Allocates → e'.Allocates →
    (p.cacheKey e = p.cacheKey e' ↔ q.cacheKey e = q.cacheKey e')

/-- `k` and `k'` are the keys of one allocation. -/
def Keys (p q : Policy) (events : List Event) (k k' : List String) : Prop :=
  ∃ e ∈ events, e.Allocates ∧ p.cacheKey e = .ok k ∧ q.cacheKey e = .ok k'

structure SameRecord (p q : Policy) (events : List Event) (a b : LiveRecord) : Prop where
  buffer : a.toBuffer = b.toBuffer
  fragment : a.fragment = b.fragment
  caches : ∃ k k', Keys p q events k k' ∧ a.cache = some k ∧ b.cache = some k'

structure Lock (p q : Policy) (events : List Event) (r s : ScenarioReplay) : Prop where
  left : r.policy = p
  right : s.policy = q
  allocator : r.allocator = s.allocator
  usage : r.usage = s.usage
  aggregate : r.aggregate = s.aggregate
  caches : ∀ k k', Keys p q events k k' → r.caches.get? k = s.caches.get? k'
  live : ∀ id, Option.Rel (SameRecord p q events) (r.live.get? id) (s.live.get? id)
  refills : r.refills = s.refills
  reuses : r.reuses = s.reuses

/-- The policies are page-frag policies and partition the stream alike. -/
structure Matched (p q : Policy) (events : List Event) : Prop where
  left : p ≠ .nonPagefrag
  right : q ≠ .nonPagefrag
  partition : SamePartition p q events

variable {p q : Policy} {events : List Event}

theorem Policy.cacheKey_ok (h : p ≠ .nonPagefrag) (e : Event) : ∃ k, p.cacheKey e = .ok k := by
  cases p with
  | shared => exact ⟨_, rfl⟩
  | perRing =>
    by_cases hce : e.source = "ce"
    · exact ⟨_, if_pos hce⟩
    · exact ⟨_, if_neg hce⟩
  | sameRingOnly => exact ⟨_, rfl⟩
  | nonPagefrag => exact absurd rfl h

/-- Keys of two allocations are equal on one side when they are on the
other. -/
theorem Matched.keys_iff (h : Matched p q events) {k₁ k₁' k₂ k₂' : List String}
    (h₁ : Keys p q events k₁ k₁') (h₂ : Keys p q events k₂ k₂') : k₁ = k₂ ↔ k₁' = k₂' := by
  obtain ⟨e₁, hin₁, ha₁, hk₁, hk₁'⟩ := h₁
  obtain ⟨e₂, hin₂, ha₂, hk₂, hk₂'⟩ := h₂
  have hiff := h.partition e₁ hin₁ e₂ hin₂ ha₁ ha₂
  rw [hk₁, hk₂, hk₁', hk₂', Except.ok.injEq, Except.ok.injEq] at hiff
  exact hiff

/-! ## Steps that touch no cache -/

namespace Lock

variable {r s : ScenarioReplay}

section

variable (h : Lock p q events r s) (hm : Matched p q events)

include h hm

theorem pages : r.pages = s.pages := by
  rw [ScenarioReplay.pages, ScenarioReplay.pages, h.left, h.right, if_neg hm.left,
    if_neg hm.right, h.allocator]

theorem contribution (pid : Nat) :
    r.contribution pid = s.contribution pid := by
  simp only [ScenarioReplay.contribution, usageOf, h.pages hm, h.usage]
  rfl

theorem removeContribution (pid : Nat) :
    Agree (Lock p q events) (r.removeContribution pid) (s.removeContribution pid) := by
  rw [ScenarioReplay.removeContribution, ScenarioReplay.removeContribution,
    h.contribution hm]
  refine .bind_same fun c => .ok ?_
  exact { h with aggregate := by rw [h.aggregate] }

theorem addContribution (pid : Nat) :
    Agree (Lock p q events) (r.addContribution pid) (s.addContribution pid) := by
  rw [ScenarioReplay.addContribution, ScenarioReplay.addContribution, h.contribution hm]
  refine .bind_same fun c => .ok ?_
  exact { h with aggregate := by rw [h.aggregate] }

end

theorem addContributions (hm : Matched p q events) :
    ∀ (pids : List Nat) {r s : ScenarioReplay}, Lock p q events r s →
      Agree (Lock p q events) (r.addContributions pids) (s.addContributions pids)
  | [], _, _, h => .ok h
  | pid :: pids, _, _, h =>
    (h.addContribution hm pid).bind fun _ _ h' => addContributions hm pids h'

theorem removeOld (h : Lock p q events r s) (hm : Matched p q events) (old : Option Nat) :
    Agree (Lock p q events) (r.removeOld old) (s.removeOld old) := by
  cases old with
  | none => exact .ok h
  | some pid => exact h.removeContribution hm pid

theorem usageAdd (h : Lock p q events r s) (hm : Matched p q events) (pid : Nat) (e : Event) :
    Agree (Lock p q events) (r.usageAdd pid e) (s.usageAdd pid e) := by
  have hpages : ∀ (r : ScenarioReplay) (u : Dict Nat PageUsage),
      ScenarioReplay.pages { r with usage := u } = r.pages := fun _ _ => rfl
  simp only [ScenarioReplay.usageAdd, hpages, h.pages hm]
  cases s.pages.get? pid with
  | none => exact .error _
  | some page =>
    refine .ok ?_
    have hleft : r.policy ≠ .nonPagefrag := by rw [h.left]; exact hm.left
    have hright : s.policy ≠ .nonPagefrag := by rw [h.right]; exact hm.right
    simp only [setPage, if_neg hleft, if_neg hright, usageOf,
      h.usage, h.allocator]
    exact { h with
      allocator := rfl
      usage := rfl }

theorem usageRemove (h : Lock p q events r s) {a b : LiveRecord} (hab : a.toBuffer = b.toBuffer)
    (hfrag : a.fragment = b.fragment) :
    Agree (Lock p q events) (r.usageRemove a) (s.usageRemove b) := by
  have hremove : ∀ u : PageUsage, u.remove a = u.remove b := fun u => by
    simp only [PageUsage.remove, hab]
  simp only [ScenarioReplay.usageRemove, h.usage, hfrag, hremove]
  cases s.usage.get? b.fragment.pageId with
  | none => exact .error _
  | some u =>
    simp only
    split
    · exact .error _
    · exact .ok { h with usage := rfl }

variable {k k' : List String} {e : Event}

/-- A cache replaced in both runs. -/
theorem setCache (h : Lock p q events r s) (hm : Matched p q events) (hk : Keys p q events k k')
    (a : PhysicalAllocator) (c : PageFragCache) :
    Lock p q events { r with allocator := a, caches := r.caches.set k c }
      { s with allocator := a, caches := s.caches.set k' c } := by
  have hsum : ∀ f : PageFragCache → Int,
      (r.caches.sum fun _ c => f c) = (s.caches.sum fun _ c => f c) →
      ((r.caches.set k c).sum fun _ c => f c) = ((s.caches.set k' c).sum fun _ c => f c) := by
    intro f heq
    have hget := h.caches k k' hk
    cases hold : s.caches.get? k' with
    | none =>
      rw [hold] at hget
      rw [Dict.sum_set_new hget, Dict.sum_set_new hold, heq]
    | some c₀ =>
      rw [hold] at hget
      rw [Dict.sum_set_old hget, Dict.sum_set_old hold, heq]
  refine ⟨h.left, h.right, rfl, h.usage, h.aggregate, fun k₁ k₁' hk₁ => ?_, h.live,
    hsum _ h.refills, hsum _ h.reuses⟩
  show (r.caches.set k c).get? k₁ = (s.caches.set k' c).get? k₁'
  rw [Dict.get?_set, Dict.get?_set]
  by_cases heq : k₁ = k
  · rw [if_pos heq, if_pos ((hm.keys_iff hk₁ hk).mp heq)]
  · rw [if_neg heq, if_neg fun heq' => heq ((hm.keys_iff hk₁ hk).mpr heq'), h.caches k₁ k₁' hk₁]

/-! ## Events -/

section

variable (h : Lock p q events r s) (hm : Matched p q events)

include h hm

theorem requestFragment (hk : Keys p q events k k') (e : Event) :
    Agree (fun x y => Lock p q events x.1 y.1 ∧ x.2 = y.2)
      (r.requestFragment k e) (s.requestFragment k' e) := by
  simp only [ScenarioReplay.requestFragment, h.caches k k' hk]
  refine (h.removeOld hm _).bind fun r₁ s₁ h₁ => ?_
  rw [h₁.allocator]
  refine .bind_same fun result => ?_
  exact .ok ⟨h₁.setCache hm hk result.2.1 result.2.2, rfl⟩

theorem allocatePagefrag (hin : e ∈ events)
    (ha : e.Allocates) :
    Agree (fun x y => Lock p q events x.1 y.1 ∧ x.2.2 = y.2.2 ∧
        ∃ k k', Keys p q events k k' ∧ x.2.1 = some k ∧ y.2.1 = some k')
      (r.allocatePagefrag e) (s.allocatePagefrag e) := by
  obtain ⟨k, hk⟩ := Policy.cacheKey_ok hm.left e
  obtain ⟨k', hk'⟩ := Policy.cacheKey_ok hm.right e
  have hkeys : Keys p q events k k' := ⟨e, hin, ha, hk, hk'⟩
  simp only [ScenarioReplay.allocatePagefrag, h.left, h.right, hk, hk', bind, Except.bind]
  refine (h.requestFragment hm hkeys e).bind fun x y hxy => ?_
  obtain ⟨r₁, fragment, old, new⟩ := x
  obtain ⟨s₁, fragment', old', new'⟩ := y
  obtain ⟨h₁, heq⟩ := hxy
  cases heq
  cases new with
  | none => exact .error _
  | some new =>
    cases fragment with
    | none => exact (addContributions hm _ h₁).bind fun _ _ _ => .error _
    | some fragment =>
      refine (h₁.usageAdd hm _ e).bind fun r₂ s₂ h₂ => ?_
      refine (addContributions hm _ h₂).bind fun r₃ s₃ h₃ => ?_
      exact .ok ⟨h₃, rfl, k, k', hkeys, rfl, rfl⟩

omit hm in
/-- A buffer recorded in both runs. -/
theorem record (e : Event) (state : BufferState)
    (hk : Keys p q events k k') (fragment : Fragment) :
    Lock p q events (r.record e state (some k) fragment)
      (s.record e state (some k') fragment) := by
  refine { h with live := fun id => ?_ }
  show Option.Rel _ ((r.live.set _ _).get? id) ((s.live.set _ _).get? id)
  rw [Dict.get?_set, Dict.get?_set]
  split
  · exact .some ⟨rfl, rfl, k, k', hk, rfl, rfl⟩
  · exact h.live id

theorem allocate (hin : e ∈ events)
    (ha : e.Allocates) (state : BufferState) :
    Agree (Lock p q events) (r.allocate e state) (s.allocate e state) := by
  have hleft : r.policy ≠ .nonPagefrag := by rw [h.left]; exact hm.left
  have hright : s.policy ≠ .nonPagefrag := by rw [h.right]; exact hm.right
  have hlive := h.live e.logicalId
  unfold ScenarioReplay.allocate
  cases hr : r.live.get? e.logicalId with
  | some a =>
    cases hs : s.live.get? e.logicalId with
    | none => rw [hr, hs] at hlive; cases hlive
    | some b => exact .error _
  | none =>
    cases hs : s.live.get? e.logicalId with
    | some b => rw [hr, hs] at hlive; cases hlive
    | none =>
      simp only [if_neg hleft, if_neg hright]
      refine (h.allocatePagefrag hm hin ha).bind fun x y hxy => ?_
      obtain ⟨r₁, cache, fragment⟩ := x
      obtain ⟨s₁, cache', fragment'⟩ := y
      obtain ⟨h₁, hfrag, k, k', hk, hcache, hcache'⟩ := hxy
      cases hfrag
      cases hcache
      cases hcache'
      exact .ok (h₁.record e state hk fragment)

omit hm in
theorem live_cases (id : Nat) : (r.live.get? id = none ∧ s.live.get? id = none) ∨
    ∃ a b, r.live.get? id = some a ∧ s.live.get? id = some b ∧ SameRecord p q events a b ∧
      a.state = b.state := by
  have hlive := h.live id
  generalize r.live.get? id = x at hlive ⊢
  generalize s.live.get? id = y at hlive ⊢
  cases hlive with
  | none => exact .inl ⟨rfl, rfl⟩
  | some hab => exact .inr ⟨_, _, rfl, rfl, hab, congrArg Buffer.state hab.buffer⟩

omit hm in
theorem reap (e : Event) :
    Agree (Lock p q events) (r.reap e) (s.reap e) := by
  obtain ⟨hr, hs⟩ | ⟨a, b, hr, hs, hab, hstate⟩ := h.live_cases e.logicalId
  · rw [ScenarioReplay.reap, ScenarioReplay.reap, hr, hs]
    exact .error _
  · rw [ScenarioReplay.reap, ScenarioReplay.reap, hr, hs]
    simp only [hstate]
    split
    · exact .error _
    · refine .ok { h with live := fun id => ?_ }
      show Option.Rel _ ((r.live.set _ _).get? id) ((s.live.set _ _).get? id)
      rw [Dict.get?_set, Dict.get?_set]
      split
      · have hbuffer := congrArg (fun u : Buffer => { u with state := .reaped }) hab.buffer
        exact .some ⟨hbuffer, hab.fragment, hab.caches⟩
      · exact h.live id

theorem freeBacking {a b : LiveRecord}
    (hab : SameRecord p q events a b) :
    Agree (Lock p q events) (r.freeBacking a) (s.freeBacking b) := by
  obtain ⟨k, k', hk, ha, hb⟩ := hab.caches
  simp only [ScenarioReplay.freeBacking, ha, hb, h.caches k k' hk, h.allocator, hab.fragment]
  cases s.caches.get? k' with
  | none => exact .error _
  | some c =>
    simp only
    cases c.free s.allocator b.fragment with
    | error err => exact .error _
    | ok result => exact .ok (h.setCache hm hk result.1 result.2)

theorem free (e : Event) :
    Agree (Lock p q events) (r.free e) (s.free e) := by
  obtain ⟨hr, hs⟩ | ⟨a, b, hr, hs, hab, hstate⟩ := h.live_cases e.logicalId
  · rw [ScenarioReplay.free, ScenarioReplay.free, hr, hs]
    exact .error _
  · rw [ScenarioReplay.free, ScenarioReplay.free, hr, hs]
    have h₁ : Lock p q events { r with live := r.live.del e.logicalId }
        { s with live := s.live.del e.logicalId } := by
      refine { h with live := fun id => ?_ }
      show Option.Rel _ ((r.live.del _).get? id) ((s.live.del _).get? id)
      rw [Dict.get?_del, Dict.get?_del]
      split
      · exact .none
      · exact h.live id
    simp only [hstate, hab.fragment]
    split
    · exact .error _
    · refine (h₁.removeContribution hm _).bind fun r₂ s₂ h₂ => ?_
      refine (h₂.usageRemove hab.buffer hab.fragment).bind fun r₃ s₃ h₃ => ?_
      refine (h₃.freeBacking hm hab).bind fun r₄ s₄ h₄ => ?_
      refine (h₄.addContribution hm _).bind fun r₅ s₅ h₅ => ?_
      exact .ok { h₅ with }

/-- **One event** keeps the runs in lockstep, or ends both alike. -/
theorem process (hin : e ∈ events) :
    Agree (Lock p q events) (r.process e) (s.process e) := by
  unfold ScenarioReplay.process
  cases ha : e.action with
  | post => exact h.allocate hm hin (Or.inl ha) .posted
  | alloc => exact h.allocate hm hin (Or.inr ha) .reaped
  | reap => exact h.reap e
  | free => exact h.free hm e

end

theorem processAll (hm : Matched p q events) : ∀ (es : List Event) {r s : ScenarioReplay},
    Lock p q events r s → (∀ e ∈ es, e ∈ events) →
    Agree (Lock p q events) (r.processAll es) (s.processAll es)
  | [], _, _, h, _ => .ok h
  | e :: es, _, _, h, hin =>
    (h.process hm (hin e mem_cons_self)).bind fun _ _ h' =>
      processAll hm es h' fun e' he' => hin e' (mem_cons_of_mem _ he')

end Lock

/-! ## The replay loop -/

/-- The loops of two replays in lockstep, with rows related by `Q` so far. -/
structure LockReplay {α β : Type} (p q : Policy) (events : List Event) (Q : α → β → Prop)
    (x : Replay α) (y : Replay β) : Prop where
  replay : Lock p q events x.replay y.replay
  integrals : x.integrals = y.integrals
  timeline : List.Forall₂ Q x.timeline y.timeline
  nextSample : x.nextSample = y.nextSample

namespace LockReplay

variable {α β : Type} {Q : α → β → Prop} {x : Replay α} {y : Replay β}
  {config : SimulationConfig} {row : Int → ScenarioReplay → α} {row' : Int → ScenarioReplay → β}

/-- One more row. -/
theorem push (h : LockReplay p q events Q x y)
    (hrow : ∀ t r s, Lock p q events r s → Q (row t r) (row' t s)) :
    LockReplay p q events Q
      { x with
        timeline := x.timeline ++ [row x.nextSample x.replay]
        nextSample := x.nextSample + config.sampleNs }
      { y with
        timeline := y.timeline ++ [row' y.nextSample y.replay]
        nextSample := y.nextSample + config.sampleNs } where
  replay := h.replay
  integrals := h.integrals
  timeline := by
    refine rel_append h.timeline (.cons ?_ .nil)
    rw [h.nextSample]
    exact hrow _ _ _ h.replay
  nextSample := by
    show x.nextSample + _ = y.nextSample + _
    rw [h.nextSample]

theorem samplesBefore (hrow : ∀ t r s, Lock p q events r s → Q (row t r) (row' t s))
    (timeNs : Int) :
    ∀ (fuel : Nat) {x : Replay α} {y : Replay β}, LockReplay p q events Q x y →
      Agree (LockReplay p q events Q) (Replay.samplesBefore config row timeNs fuel x)
        (Replay.samplesBefore config row' timeNs fuel y)
  | 0, x, y, h => by
    simp only [Replay.samplesBefore, h.nextSample]
    split
    · exact .error _
    · exact .ok h
  | fuel + 1, x, y, h => by
    by_cases hin : y.nextSample < timeNs ∧ y.nextSample ≤ config.durationNs
    · rw [Replay.samplesBefore, Replay.samplesBefore, if_pos hin, if_pos (h.nextSample ▸ hin)]
      exact samplesBefore hrow timeNs fuel (h.push hrow)
    · rw [Replay.samplesBefore, Replay.samplesBefore, if_neg hin, if_neg (h.nextSample ▸ hin)]
      exact .ok h

/-- `_integrate_to` reads the aggregate only. -/
theorem integrate (h : LockReplay p q events Q x y) (timeNs : Int) :
    x.integrals.to x.replay.aggregate timeNs = y.integrals.to y.replay.aggregate timeNs := by
  rw [h.integrals, h.replay.aggregate]

theorem round (h : LockReplay p q events Q x y) (hm : Matched p q events)
    (hrow : ∀ t r s, Lock p q events r s → Q (row t r) (row' t s)) (timeNs : Int)
    {group : List Event} (hin : ∀ e ∈ group, e ∈ events) :
    Agree (LockReplay p q events Q) (Replay.round config row timeNs group x)
      (Replay.round config row' timeNs group y) := by
  unfold Replay.round
  refine (h.samplesBefore hrow timeNs _).bind fun x₁ y₁ h₁ => ?_
  rw [h₁.integrate]
  refine .bind_same fun i => ?_
  refine (Lock.processAll hm group h₁.replay hin).bind fun r s hrs => ?_
  have h₂ : LockReplay p q events Q { x₁ with integrals := i, replay := r }
      { y₁ with integrals := i, replay := s } := ⟨hrs, rfl, h₁.timeline, h₁.nextSample⟩
  show Agree _ (if x₁.nextSample = timeNs then _ else _) (if y₁.nextSample = timeNs then _ else _)
  by_cases heq : y₁.nextSample = timeNs
  · rw [if_pos heq, if_pos (h₁.nextSample.trans heq)]
    exact .ok (h₂.push hrow)
  · rw [if_neg heq, if_neg fun h => heq (h₁.nextSample.symm.trans h)]
    exact .ok h₂

theorem rounds (hm : Matched p q events)
    (hrow : ∀ t r s, Lock p q events r s → Q (row t r) (row' t s)) :
    ∀ (fuel : Nat) (es : List Event) {x : Replay α} {y : Replay β},
      LockReplay p q events Q x y → (∀ e ∈ es, e ∈ events) →
      Agree (LockReplay p q events Q) (Replay.rounds config row fuel es x)
        (Replay.rounds config row' fuel es y)
  | fuel, [], _, _, h, _ => by
    rw [Replay.rounds, Replay.rounds]
    exact .ok h
  | 0, _ :: _, _, _, _, _ => .error _
  | fuel + 1, e :: es, _, _, h, hin => by
    have hdrop := (dropWhile_suffix (l := es) (fun e' => e'.timeNs = e.timeNs))
    have htake := (List.takeWhile_prefix (l := es) (fun e' => e'.timeNs = e.timeNs))
    rw [Replay.rounds, Replay.rounds]
    refine (h.round hm hrow e.timeNs fun e' he' => ?_).bind fun _ _ h' =>
      rounds hm hrow fuel _ h' fun e' he' =>
        hin e' (mem_cons_of_mem _ (hdrop.subset he'))
    cases mem_cons.mp he' with
    | inl heq => rw [heq]; exact hin e mem_cons_self
    | inr hmem => exact hin e' (mem_cons_of_mem _ (htake.subset hmem))

theorem initial (p q : Policy) (events : List Event) (Q : α → β → Prop) :
    LockReplay p q events Q { replay := { policy := p } } { replay := { policy := q } } where
  replay := ⟨rfl, rfl, rfl, rfl, rfl, fun _ _ _ => rfl, fun _ => .none, rfl, rfl⟩
  integrals := rfl
  timeline := .nil
  nextSample := rfl

/-- **The whole replay** runs in lockstep. -/
theorem observe (hm : Matched p q events)
    (hrow : ∀ t r s, Lock p q events r s → Q (row t r) (row' t s)) :
    Agree (LockReplay p q events Q) (Replay.observe p config row events)
      (Replay.observe q config row' events) := by
  unfold Replay.observe
  refine (rounds hm hrow _ events (initial p q events Q) fun _ he => he).bind fun x₁ y₁ h₁ => ?_
  rw [h₁.integrate]
  refine .bind_same fun i => ?_
  exact samplesBefore hrow _ _ ⟨h₁.replay, rfl, h₁.timeline, h₁.nextSample⟩

end LockReplay

/-! ## Physical statistics -/

/-- The physical statistics of a state. -/
structure PhysicalRow where
  timeNs : Int
  pagesAllocated : Nat
  pagesFreed : Nat
  backingBytes : Int
  slackBytes : Int
  refills : Int
  reuses : Int

def physicalRow (timeNs : Int) (r : ScenarioReplay) : PhysicalRow :=
  { timeNs := timeNs
    pagesAllocated := r.allocator.pages.size
    pagesFreed := r.frees
    backingBytes := r.aggregate .backingBytes
    slackBytes := r.aggregate .slackBytes
    refills := r.refills
    reuses := r.reuses }

/-- Two rows of `replay` with the same physical columns. -/
structure SamePhysical (a b : ScenarioReplay.Stats) : Prop where
  timeNs : a.timeNs = b.timeNs
  globalUniquePages : a.globalUniquePages = b.globalUniquePages
  backingBytes : a.backingBytes = b.backingBytes
  slackBytes : a.slackBytes = b.slackBytes
  refills : a.refills = b.refills
  reuses : a.reuses = b.reuses
  frees : a.frees = b.frees

variable {r s : ScenarioReplay}

section

variable (h : Lock p q events r s) (hm : Matched p q events)

include h hm

theorem Lock.frees :
    r.frees = s.frees := by
  rw [ScenarioReplay.frees, ScenarioReplay.frees, h.left, h.right, if_neg hm.left,
    if_neg hm.right, h.allocator]

theorem Lock.physicalRow (t : Int) :
    PageFrag.physicalRow t r = PageFrag.physicalRow t s := by
  simp only [PageFrag.physicalRow, h.allocator, h.frees hm, h.aggregate, h.refills, h.reuses]

theorem Lock.stats (eventHash : String)
    (t : Int) :
    SamePhysical (ScenarioReplay.stats eventHash t r) (ScenarioReplay.stats eventHash t s) where
  timeNs := rfl
  globalUniquePages := congrFun h.aggregate _
  backingBytes := congrFun h.aggregate _
  slackBytes := congrFun h.aggregate _
  refills := h.refills
  reuses := h.reuses
  frees := h.frees hm

end

/-- **Equal partitions, equal physics**: two page-frag policies that
partition the allocations of a stream alike raise the same error, or sample
equal physical statistics, in `replay`'s rows and summary too. On a
well-formed stream of allocations of 1 to 32768 bytes both succeed. -/
theorem physical_rows_lockstep {config : SimulationConfig} (hp : p ≠ .nonPagefrag)
    (hq : q ≠ .nonPagefrag) (hpartition : SamePartition p q events) (eventHash : String) :
    Agree (fun x y => x.timeline = y.timeline)
      (Replay.observe p config physicalRow events)
      (Replay.observe q config physicalRow events) ∧
    Agree (fun a b => List.Forall₂ SamePhysical a.timeline b.timeline ∧
        SamePhysical a.summary.stats b.summary.stats)
      (replay p config eventHash events) (replay q config eventHash events) ∧
    (0 < config.durationNs → 0 < config.sampleNs → WellFormed config.durationNs events →
      (∀ e ∈ events, e.Sized) →
      ∃ x y, Replay.observe p config physicalRow events = .ok x ∧
        Replay.observe q config physicalRow events = .ok y ∧
        x.timeline.length = sampleCount config ∧ x.timeline = y.timeline) := by
  have hm : Matched p q events := ⟨hp, hq, hpartition⟩
  have hobserve : Agree (fun x y => x.timeline = y.timeline)
      (Replay.observe p config physicalRow events)
      (Replay.observe q config physicalRow events) :=
    (LockReplay.observe hm fun t r s h => h.physicalRow hm t).mono fun x y h =>
      forall₂_eq_eq_eq ▸ h.timeline
  refine ⟨hobserve, ?_, fun hduration hsample hw hsized => ?_⟩
  · refine (LockReplay.observe hm fun t r s h => h.stats hm eventHash t).bind fun x y h => ?_
    exact .ok ⟨h.timeline, h.replay.stats hm eventHash _⟩
  · obtain ⟨x, hx, hrows, -⟩ :=
      Replay.observe_eq hduration hsample (hw.replayable hsized p) physicalRow
    rw [hx] at hobserve
    obtain ⟨y, hy, heq⟩ := hobserve.of_ok
    exact ⟨x, y, hx, hy, by rw [hrows]; simp [sampled], heq⟩

/-- With one source, ring and lane, all page-frag policies have one cache. -/
theorem SamePartition.of_one_ring (p q : Policy)
    (h : ∀ e ∈ events, ∀ e' ∈ events, e.source = e'.source ∧ e.ring = e'.ring ∧
      e.lane = e'.lane) : SamePartition p q events := by
  intro e he e' he' _ _
  obtain ⟨hsource, hring, hlane⟩ := h e he e' he'
  have hkey : ∀ policy : Policy, policy.cacheKey e = policy.cacheKey e' := by
    intro policy
    cases policy <;> simp [Policy.cacheKey, hsource, hring, hlane]
  exact ⟨fun _ => hkey q, fun _ => hkey p⟩

def oneRing : List Event :=
  [⟨0, 0, .alloc, 1, "ce", "ce0", "lane0", "short", 2048, 2432, -1⟩,
   ⟨5, 1, .free, 1, "ce", "ce0", "lane0", "short", 0, 0, -1⟩,
   ⟨7, 2, .alloc, 2, "ce", "ce0", "lane0", "short", 2048, 2432, -1⟩]

theorem oneRing_wellFormed : WellFormed smallConfig.durationNs oneRing where
  sorted := by decide
  times := by decide
  life := fun id => by
    by_cases h₁ : id = 1
    · subst h₁
      decide
    · by_cases h₂ : id = 2
      · subst h₂
        decide
      · have hnone : history oneRing id = [] := by
          simp [history, oneRing, Ne.symm h₁, Ne.symm h₂]
        rw [hnone]
        decide

theorem physical_rows_lockstep_one_ring : ∃ x y,
    Replay.observe .shared smallConfig physicalRow oneRing = .ok x ∧
    Replay.observe .perRing smallConfig physicalRow oneRing = .ok y ∧
    x.timeline = y.timeline := by
  have hsized : ∀ e ∈ oneRing, e.Sized := by
    simp [oneRing, Event.Sized, pageFragCacheMaxSize]
  obtain ⟨x, y, hx, hy, -, heq⟩ := (physical_rows_lockstep (by decide) (by decide)
    (SamePartition.of_one_ring .shared .perRing (by decide)) "").2.2
    (by decide) (by decide) oneRing_wellFormed hsized
  exact ⟨x, y, hx, hy, heq⟩

end LibWrt.PageFrag
