/-
LibWrt.PageFrag.Event — logical events, and the ledger they keep.

An `Event` posts, allocates, reaps or frees one buffer, named by its
`logical_id`. `Ledger` is what a stream of events means without any
allocation policy: which buffers are live, whether each is still posted,
and how many were allocated. A stream is `WellFormed` when time does not
run backwards and each buffer goes through its life in order.

The one result is `WellFormed.run`: a well-formed stream never gets the
ledger stuck. The proof reads a buffer's entry in the ledger off its own
history, which the stream's order with respect to other buffers cannot
change.
-/
import LibWrt.PageFrag.Cache

namespace LibWrt.PageFrag

open List

/-! ## Events -/

inductive Action where
  | post
  | alloc
  | reap
  | free
  deriving DecidableEq, Repr

structure Event where
  timeNs : Int
  seq : Nat
  action : Action
  logicalId : Nat
  source : String
  ring : String
  lane : String
  lifetime : String
  requestedBytes : Int := 0
  alignedBytes : Int := 0
  slot : Int := -1
  deriving DecidableEq, Repr

/-- A buffer's state in `LiveRecord.state`. -/
inductive BufferState where
  | posted
  | reaped
  deriving DecidableEq, Repr

/-! ## The ledger -/

structure Buffer where
  source : String
  ring : String
  lifetime : String
  requestedBytes : Int
  alignedBytes : Int
  state : BufferState
  deriving DecidableEq, Repr

def Event.buffer (e : Event) (state : BufferState) : Buffer :=
  { source := e.source
    ring := e.ring
    lifetime := e.lifetime
    requestedBytes := e.requestedBytes
    alignedBytes := e.alignedBytes
    state := state }

/-- The logical state after some events: the live buffers and the number of
allocations so far. -/
structure Ledger where
  buffers : Dict Nat Buffer := ∅
  allocations : Nat := 0

namespace Ledger

def allocate (l : Ledger) (e : Event) (state : BufferState) : Option Ledger :=
  match l.buffers.get? e.logicalId with
  | some _ => none
  | none =>
    some
      { buffers := l.buffers.set e.logicalId (e.buffer state)
        allocations := l.allocations + 1 }

/-- One event, `none` where it makes no sense. -/
def process (l : Ledger) (e : Event) : Option Ledger :=
  match e.action with
  | .post => l.allocate e .posted
  | .alloc => l.allocate e .reaped
  | .reap =>
    match l.buffers.get? e.logicalId with
    | some b =>
      if b.state = .posted then
        some { l with buffers := l.buffers.set e.logicalId { b with state := .reaped } }
      else none
    | none => none
  | .free =>
    match l.buffers.get? e.logicalId with
    | some b =>
      if b.state = .reaped then some { l with buffers := l.buffers.del e.logicalId }
      else none
    | none => none

def run (l : Ledger) : List Event → Option Ledger
  | [] => some l
  | e :: es => (l.process e).bind (·.run es)

/-- The number of buffers in state `state`. -/
def count (l : Ledger) (state : BufferState) : Int :=
  l.buffers.sum fun _ b => if b.state = state then 1 else 0

def alignedBytes (l : Ledger) : Int := l.buffers.sum fun _ b => b.alignedBytes

theorem run_append (l : Ledger) (es es' : List Event) :
    l.run (es ++ es') = (l.run es).bind (·.run es') := by
  induction es generalizing l with
  | nil => rfl
  | cons e es ih =>
    simp only [cons_append, run, Option.bind_assoc]
    exact congrArg _ (funext fun l' => ih l')

end Ledger

/-! ## Well-formed streams -/

/-- What happens to buffer `id`, in order. -/
def history (es : List Event) (id : Nat) : List Action :=
  (es.filter (fun e => e.logicalId = id)).map (·.action)

/-- The life of a ring buffer, or of a transient; it may be cut short. -/
def Life (h : List Action) : Prop :=
  h <+: [.post, .reap, .free] ∨ h <+: [.alloc, .free]

instance (h : List Action) : Decidable (Life h) := inferInstanceAs (Decidable (_ ∨ _))

/-- Sorted by time within `[0, duration]`, and each buffer's events are the
start of a life: allocated once, reaped while posted, freed once after. -/
structure WellFormed (durationNs : Int) (es : List Event) : Prop where
  sorted : es.Pairwise (fun e e' => e.timeNs ≤ e'.timeNs)
  times : ∀ e ∈ es, 0 ≤ e.timeNs ∧ e.timeNs ≤ durationNs
  life : ∀ id, Life (history es id)

def Event.Sized (e : Event) : Prop :=
  e.action = .post ∨ e.action = .alloc →
    0 < e.alignedBytes ∧ e.alignedBytes ≤ pageFragCacheMaxSize

def stateAfter : List Action → Option BufferState
  | [.post] => some .posted
  | [.post, .reap] => some .reaped
  | [.alloc] => some .reaped
  | _ => none

theorem history_append (es es' : List Event) (id : Nat) :
    history (es ++ es') id = history es id ++ history es' id := by
  simp [history]

theorem history_single_self (e : Event) : history [e] e.logicalId = [e.action] := by
  simp [history]

theorem history_single_ne {e : Event} {id : Nat} (h : id ≠ e.logicalId) :
    history [e] id = [] := by
  simp [history, Ne.symm h]

theorem Life.of_append {h h' : List Action} (hl : Life (h ++ h')) : Life h := by
  cases hl with
  | inl hp => exact Or.inl ((prefix_append h h').trans hp)
  | inr hp => exact Or.inr ((prefix_append h h').trans hp)

theorem WellFormed.of_append {durationNs : Int} {es es' : List Event}
    (h : WellFormed durationNs (es ++ es')) : WellFormed durationNs es where
  sorted := (List.pairwise_append.mp h.sorted).1
  times := fun e he => h.times e (mem_append_left _ he)
  life := fun id => by
    have hl := h.life id
    rw [history_append] at hl
    exact hl.of_append

def Action.before : Action → Option BufferState
  | .post => none
  | .alloc => none
  | .reap => some .posted
  | .free => some .reaped

def Action.after : Action → Option BufferState
  | .post => some .posted
  | .alloc => some .reaped
  | .reap => some .reaped
  | .free => none

/-- What one more action requires of the life before it. -/
theorem Life.next {h : List Action} {a : Action} (hl : Life (h ++ [a])) :
    stateAfter h = a.before ∧ stateAfter (h ++ [a]) = a.after := by
  have hlen : h.length < 3 := by
    cases hl with
    | inl hp => have := hp.length_le; simp at this; omega
    | inr hp => have := hp.length_le; simp at this; omega
  cases h with
  | nil => cases a <;> revert hl <;> decide
  | cons b h =>
    cases h with
    | nil => cases a <;> cases b <;> revert hl <;> decide
    | cons c h =>
      cases h with
      | nil => cases a <;> cases b <;> cases c <;> revert hl <;> decide
      | cons d h => simp at hlen; omega

/-! ## The ledger follows the histories -/

/-- An event that finds its buffer in the right state goes through and
changes no other buffer. -/
theorem Ledger.process_of_before {l : Ledger} {e : Event}
    (h : (l.buffers.get? e.logicalId).map (·.state) = e.action.before) :
    ∃ l', l.process e = some l' ∧
      (∀ id, id ≠ e.logicalId → l'.buffers.get? id = l.buffers.get? id) ∧
      (l'.buffers.get? e.logicalId).map (·.state) = e.action.after := by
  unfold Ledger.process
  cases ha : e.action with
  | post =>
    rw [ha, Action.before, Option.map_eq_none_iff] at h
    simp only [Ledger.allocate, h]
    refine ⟨_, rfl, fun id hid => Dict.get?_set_ne _ hid _, ?_⟩
    rw [Dict.get?_set_self]
    rfl
  | alloc =>
    rw [ha, Action.before, Option.map_eq_none_iff] at h
    simp only [Ledger.allocate, h]
    refine ⟨_, rfl, fun id hid => Dict.get?_set_ne _ hid _, ?_⟩
    rw [Dict.get?_set_self]
    rfl
  | reap =>
    rw [ha] at h
    obtain ⟨b, hb, hstate⟩ := Option.map_eq_some_iff.mp h
    simp only [hb, hstate, if_true]
    refine ⟨_, rfl, fun id hid => Dict.get?_set_ne _ hid _, ?_⟩
    rw [Dict.get?_set_self]
    rfl
  | free =>
    rw [ha] at h
    obtain ⟨b, hb, hstate⟩ := Option.map_eq_some_iff.mp h
    simp only [hb, hstate, if_true]
    refine ⟨_, rfl, fun id hid => Dict.get?_del_ne _ hid, ?_⟩
    rw [Dict.get?_del_self]
    rfl

/-- Every buffer's entry is the one its history leaves. -/
def Ledger.Follows (l : Ledger) (es : List Event) : Prop :=
  ∀ id, (l.buffers.get? id).map (·.state) = stateAfter (history es id)

/-- One more event of a well-formed stream. -/
theorem Ledger.Follows.step {l : Ledger} {es : List Event} {e : Event}
    (h : l.Follows es) (hl : Life (history (es ++ [e]) e.logicalId)) :
    ∃ l', l.process e = some l' ∧ l'.Follows (es ++ [e]) := by
  rw [history_append, history_single_self] at hl
  obtain ⟨hbefore, hafter⟩ := hl.next
  obtain ⟨l', hstep, hother, hself⟩ :=
    Ledger.process_of_before ((h e.logicalId).trans hbefore)
  refine ⟨l', hstep, fun id => ?_⟩
  by_cases hid : id = e.logicalId
  · subst hid
    rw [history_append, history_single_self, hself, hafter]
  · rw [history_append, history_single_ne hid, append_nil, hother id hid, h id]

/-- **A well-formed stream runs**: every event finds its buffer in the state
it needs. -/
theorem WellFormed.run {durationNs : Int} {es : List Event} (h : WellFormed durationNs es) :
    ∃ l, ({} : Ledger).run es = some l ∧ l.Follows es := by
  induction es using reverseRecOn with
  | nil => exact ⟨{}, rfl, fun id => rfl⟩
  | append_singleton es e ih =>
    obtain ⟨l, hrun, hfollow⟩ := ih h.of_append
    obtain ⟨l', hstep, hfollow'⟩ := hfollow.step (h.life e.logicalId)
    refine ⟨l', ?_, hfollow'⟩
    rw [Ledger.run_append, hrun]
    simp [Ledger.run, hstep]

end LibWrt.PageFrag
