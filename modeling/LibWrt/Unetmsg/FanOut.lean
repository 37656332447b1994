/-
LibWrt.Unetmsg.FanOut — a request goes to every handle of its name.

The handles are selected once, and each of them is asked in turn, if it has a
channel. A handle that is asked gives data and completes, at once or later and
in any order; one without a channel counts as complete. What is pending goes
down by one with each of them, and the last one replies (`request_replied`).

A step of `Step` is one handle of the loop, or one thing that a handle does that
was asked. The daemon that answers a deferred request completes it once, and
sends no data for it afterwards.
-/
import LibWrt.Unetmsg.Core

namespace LibWrt.Unetmsg

open List

/-! ## The handles -/

inductive Handle where
  | client (id client : Nat)
  | host (name network : String)
  deriving DecidableEq

def Handle.client? : Handle → Option Nat
  | .client _ cl => some cl
  | .host _ _ => none

/-- `get_handles` over the handles of a name. -/
def getHandles (d : Daemon) (kind : Kind) (name : String) (sender : Option Nat) (remote : Bool)
    (host : Option String) : List Handle :=
  let toLocal :=
    if host.isSome ∧ host ≠ some "" then []
    else
      (((d.handles kind).get? name).getD ∅).entries.filterMap fun e =>
        if sender = some e.2 then none else some (Handle.client e.1 e.2)
  let toRemote :=
    if remote ∧ host ≠ some "" then
      (((d.remote kind).get? name).getD ∅).entries.filterMap fun e =>
        if host.isSome ∧ host ≠ some e.1 then none else some (Handle.host e.1 e.2)
    else []
  toLocal ++ toRemote

/-! ## The request -/

inductive Reply where
  /-- Data of a handle. -/
  | data (handle : Nat)
  | final
  deriving DecidableEq

/-- The loop over the handles, and `context`. -/
structure Request where
  /-- The handle that is next. -/
  next : Nat
  /-- The handles that have been asked and have not completed. -/
  asked : List Nat
  pending : Int
  /-- What has been replied, the newest first. -/
  log : List Reply
  deriving DecidableEq

/-- `cb` -/
def Request.cb (r : Request) : Request :=
  let pending := r.pending - 1
  if pending > 0 then { r with pending } else { r with pending, log := .final :: r.log }

/-- `handle_request` up to its loop; without a handle the return value is the reply. -/
def handleRequest (handles : List Handle) : Option Request :=
  if handles.length = 0 then none
  else some { next := 0, asked := [], pending := handles.length, log := [] }

/-- A step of a request to `n` handles. -/
inductive Step (n : Nat) : Request → Request → Prop where
  /-- A handle has no channel. -/
  | dead {r : Request} : r.next < n → Step n r { r with next := r.next + 1 }.cb
  | ask {r : Request} :
    r.next < n → Step n r { r with next := r.next + 1, asked := r.next :: r.asked }
  /-- `data_cb` -/
  | data {r : Request} {i : Nat} : i ∈ r.asked → Step n r { r with log := .data i :: r.log }
  | complete {r : Request} {i : Nat} :
    i ∈ r.asked → Step n r { r with asked := r.asked.erase i }.cb

def Run (n : Nat) : Request → Request → Prop := Relation.ReflTransGen (Step n)

/-- The final reply has been sent. -/
def Request.Replied (r : Request) : Prop := Reply.final ∈ r.log

/-- Every handle has been asked or passed over, and those that were asked have completed. -/
def Request.Complete (n : Nat) (r : Request) : Prop := r.next = n ∧ r.asked = []

/-- What holds of a request that goes on. -/
structure Request.Sound (n : Nat) (r : Request) : Prop where
  replied : r.Replied ↔ r.Complete n
  once : r.log.count .final ≤ 1
  /-- Nothing is sent after the final reply. -/
  last : r.Replied → r.log.head? = some .final
  /-- It can come to its final reply from here. -/
  ends : ∃ r', Run n r r' ∧ r'.Replied

/-! ## What a step keeps -/

/-- What is pending is what is left of the loop, and what has not completed. -/
structure Request.Inv (n : Nat) (r : Request) : Prop where
  next : r.next ≤ n
  pending : r.pending = (n - r.next : Nat) + r.asked.length
  open_ : 0 < r.pending → Reply.final ∉ r.log
  closed : r.pending = 0 → ∃ rest, r.log = .final :: rest ∧ Reply.final ∉ rest

section Steps

variable {n : Nat} {r r' : Request}

theorem handleRequest_inv {handles : List Handle} (h : handleRequest handles = some r) :
    r.Inv handles.length := by
  unfold handleRequest at h
  split at h
  · cases h
  · obtain rfl := Option.some.inj h
    refine ⟨Nat.zero_le _, by simp, fun _ => not_mem_nil, fun hzero => ?_⟩
    dsimp only at hzero
    omega

/-- A handle that is done with is one less. -/
theorem Request.Inv.cb {less : Request} (hlog : Reply.final ∉ r.log) (hless : less.log = r.log)
    (hnext : less.next ≤ n) (hpending : less.pending - 1 = (n - less.next : Nat) + less.asked.length) :
    less.cb.Inv n := by
  unfold Request.cb
  dsimp only
  split
  · rename_i hpos
    refine ⟨hnext, hpending, fun _ => ?_, fun hzero => ?_⟩
    · rw [hless]
      exact hlog
    · dsimp only at hzero
      omega
  · rename_i hpos
    refine ⟨hnext, hpending, fun hpos' => absurd hpos' hpos, fun _ => ⟨r.log, ?_, hlog⟩⟩
    rw [hless]

theorem Step.inv (h : Step n r r') (hr : r.Inv n) : r'.Inv n := by
  have hpending := hr.pending
  cases h with
  | dead hlt =>
    refine Request.Inv.cb (hr.open_ (by omega)) rfl ?_ ?_
    · dsimp only
      omega
    · dsimp only
      omega
  | ask hlt =>
    have hopen := hr.open_ (by omega)
    refine ⟨?_, ?_, fun _ => hopen, fun hzero => ?_⟩
    · dsimp only
      omega
    · dsimp only
      rw [length_cons]
      omega
    · dsimp only at hzero
      omega
  | data hi =>
    have hlen := length_pos_of_mem hi
    refine ⟨hr.next, hpending, fun hpos => ?_, fun hzero => ?_⟩
    · rw [mem_cons, not_or]
      exact ⟨by simp, hr.open_ hpos⟩
    · dsimp only at hzero
      omega
  | complete hi =>
    have hlen := length_pos_of_mem hi
    refine Request.Inv.cb (hr.open_ (by omega)) rfl hr.next ?_
    dsimp only
    rw [length_erase_of_mem hi]
    omega

theorem Run.inv (h : Run n r r') (hr : r.Inv n) : r'.Inv n := by
  induction h with
  | refl => exact hr
  | tail _ hstep ih => exact hstep.inv ih

theorem Request.Inv.pending_eq_zero (h : r.Inv n) : r.pending = 0 ↔ r.Complete n := by
  have hpending := h.pending
  have hnext := h.next
  unfold Request.Complete
  rw [← length_eq_zero_iff]
  omega

theorem Request.Inv.replied (h : r.Inv n) : r.Replied ↔ r.Complete n := by
  rw [← h.pending_eq_zero]
  constructor
  · intro hreplied
    by_contra hne
    have hpending := h.pending
    exact h.open_ (by omega) hreplied
  · intro hzero
    obtain ⟨rest, hlog, -⟩ := h.closed hzero
    unfold Request.Replied
    rw [hlog]
    exact mem_cons_self

/-- Passing over what is left, and completing what was asked, comes to the final reply. -/
theorem Request.Inv.ends (h : r.Inv n) : ∃ r', Run n r r' ∧ r'.Replied := by
  generalize hk : n - r.next + r.asked.length = k
  induction k generalizing r with
  | zero =>
    refine ⟨r, .refl, h.replied.mpr ?_⟩
    have hnext := h.next
    exact ⟨by omega, length_eq_zero_iff.mp (by omega)⟩
  | succ k ih =>
    by_cases hlt : r.next < n
    · have hstep : Step n r { r with next := r.next + 1 }.cb := .dead hlt
      have hless : n - ({ r with next := r.next + 1 } : Request).cb.next +
          ({ r with next := r.next + 1 } : Request).cb.asked.length = k := by
        unfold Request.cb
        dsimp only
        split <;> dsimp only <;> omega
      obtain ⟨r', hrun, hreplied⟩ := ih (hstep.inv h) hless
      exact ⟨r', .head hstep hrun, hreplied⟩
    · obtain ⟨i, rest, hasked⟩ : ∃ i rest, r.asked = i :: rest :=
        exists_cons_of_length_pos (by omega)
      have hi : i ∈ r.asked := by
        rw [hasked]
        exact mem_cons_self
      have hstep : Step n r { r with asked := r.asked.erase i }.cb := .complete hi
      have hlen := length_erase_of_mem hi
      have hpos := length_pos_of_mem hi
      have hless : n - ({ r with asked := r.asked.erase i } : Request).cb.next +
          ({ r with asked := r.asked.erase i } : Request).cb.asked.length = k := by
        unfold Request.cb
        dsimp only
        split <;> dsimp only <;> omega
      obtain ⟨r', hrun, hreplied⟩ := ih (hstep.inv h) hless
      exact ⟨r', .head hstep hrun, hreplied⟩

theorem Request.Inv.sound (h : r.Inv n) : r.Sound n where
  replied := h.replied
  once := by
    by_cases hzero : r.pending = 0
    · obtain ⟨rest, hlog, hrest⟩ := h.closed hzero
      rw [hlog, count_cons_self, count_eq_zero_of_not_mem hrest]
    · have hpending := h.pending
      rw [count_eq_zero_of_not_mem (h.open_ (by omega))]
      exact Nat.zero_le 1
  last hreplied := by
    obtain ⟨rest, hlog, -⟩ := h.closed (h.pending_eq_zero.mpr (h.replied.mp hreplied))
    rw [hlog]
    rfl
  ends := h.ends

end Steps

/-! ## The selection -/

variable {d : Daemon} {kind : Kind} {name : String} {sender : Option Nat} {remote : Bool}
  {host : Option String}

theorem mem_getHandles {h : Handle} (hmem : h ∈ getHandles d kind name sender remote host) :
    h.client?.isSome → h.client? ≠ sender := by
  intro hsome heq
  rcases mem_append.mp hmem with hmem | hmem
  · split at hmem
    · cases hmem
    · obtain ⟨e, -, he⟩ := mem_filterMap.mp hmem
      split at he
      · cases he
      · rename_i hne
        obtain rfl := Option.some.inj he
        exact hne heq.symm
  · split at hmem
    · obtain ⟨e, -, he⟩ := mem_filterMap.mp hmem
      split at he
      · cases he
      · obtain rfl := Option.some.inj he
        cases hsome
    · cases hmem

/-- A request is not sent to its own client, is answered at once if there is no handle, and is
otherwise replied to once, when every handle has completed, and last of all. -/
theorem request_replied (d : Daemon) (name : String) (sender : Option Nat) (remote : Bool)
    (host : Option String) :
    (∀ h ∈ getHandles d .publish name sender remote host, h.client?.isSome → h.client? ≠ sender) ∧
    (handleRequest (getHandles d .publish name sender remote host) = none ↔
      getHandles d .publish name sender remote host = []) ∧
    ∀ r ∈ handleRequest (getHandles d .publish name sender remote host), ∀ r',
      Run (getHandles d .publish name sender remote host).length r r' →
        r'.Sound (getHandles d .publish name sender remote host).length := by
  refine ⟨fun h hmem => mem_getHandles hmem, ?_, fun r hr r' hrun => ?_⟩
  · unfold handleRequest
    split
    · rename_i hlen
      simpa using length_eq_zero_iff.mp hlen
    · rename_i hlen
      simpa [length_eq_zero_iff] using hlen
  · exact (hrun.inv (handleRequest_inv hr)).sound

/-- A broker with a publisher of a name, and a host that publishes it without a channel. -/
def fanOutDaemon : Daemon :=
  { Daemon.init with
    clients := (∅ : Dict Nat Client).set 1 { lists := fun _ => ∅ }
    handles := fun _ => (∅ : Dict String (Dict Nat Nat)).set "a" ((∅ : Dict Nat Nat).set 2 1)
    remote := fun _ =>
      (∅ : Dict String (Dict String String)).set "a" ((∅ : Dict String String).set "h" "n")
    next := 3 }

/-- The publisher gives data and completes at once, the host is passed over. -/
theorem request_fanOutDaemon :
    getHandles fanOutDaemon .publish "a" (some 0) true none = [.client 2 1, .host "h" "n"] ∧
    Request.Sound 2 { next := 2, asked := [], pending := 0, log := [.final, .data 0] } := by
  have hhandles : getHandles fanOutDaemon .publish "a" (some 0) true none =
      [.client 2 1, .host "h" "n"] := by decide
  have h := (request_replied fanOutDaemon "a" (some 0) true none).2.2
  rw [hhandles] at h
  refine ⟨hhandles, h _ rfl _ ?_⟩
  have hask : Step 2 { next := 0, asked := [], pending := 2, log := [] }
      { next := 1, asked := [0], pending := 2, log := [] } := .ask (by decide)
  have hdata : Step 2 { next := 1, asked := [0], pending := 2, log := [] }
      { next := 1, asked := [0], pending := 2, log := [.data 0] } := .data (by decide)
  have hcomplete : Step 2 { next := 1, asked := [0], pending := 2, log := [.data 0] }
      { next := 1, asked := [], pending := 1, log := [.data 0] } :=
    .complete (i := 0) (by decide)
  have hdead : Step 2 { next := 1, asked := [], pending := 1, log := [.data 0] }
      { next := 2, asked := [], pending := 0, log := [.final, .data 0] } := .dead (by decide)
  exact .tail (.tail (.tail (.single hask) hdata) hcomplete) hdead

end LibWrt.Unetmsg
