/-
LibWrt.SkbRecycler.System — the recycler and everything that holds a buffer.

A buffer is held by a list of the recycler or by an owner outside it: a
caller that got it from an allocation, or a flush worker that has spliced a
CPU's lists onto a list head of its own and not freed it yet. `allocated`
is what the slab allocator has handed out and not got back.

One `Op` is one critical section, a call with none, or a change of hands
between outside owners; `exec` is its effect. `Legal` is what callers
promise: nobody gives away a buffer it does not have, and the slab allocator
hands out only what is free. A buffer passed to a consumer that answers
`true` is no longer the caller's, whatever the caller's list head still
shows. `Reachable ok` are the states that runs of `ok` operations lead to.
-/
import LibWrt.SkbRecycler.Recycler
import Mathlib.Data.Finset.Basic

namespace LibWrt.SkbRecycler

inductive Owner (ι ω : Type) where
  | caller (o : ω)
  | flusher (cpu : ι)
  deriving DecidableEq

inductive Place (ι ω : Type) where
  | hot (cpu : ι)
  | spare (cpu : ι)
  | slot (k : Nat)
  | outside (o : Owner ι ω)
  deriving DecidableEq

variable {ι ω : Type} [DecidableEq ι] [DecidableEq ω]

structure System (ι ω : Type) where
  recycler : Recycler ι
  held : Owner ι ω → List Skb
  allocated : Finset Skb

inductive Op (ι ω : Type) where
  /-- `__alloc_skb`: a new buffer for a caller -/
  | adopt (o : ω) (skb : Skb)
  /-- a caller frees a buffer -/
  | release (o : ω) (skb : Skb)
  /-- a caller gives a buffer to another -/
  | pass (o o' : ω) (skb : Skb)
  | alloc (enable : Bool) (cpu : ι) (length : Nat) (o : ω)
  | consume (seen : Seen) (canRecycle : Bool) (cpu : ι) (o : ω) (skb : Skb)
  | consumeListFast (seen : Seen) (cpu : ι) (o : ω) (skbList : List Skb)
  /-- `skb_cpu_callback`, first and second list -/
  | cpuDeadHot (cpu : ι)
  | cpuDeadSpare (cpu : ι)
  /-- `skb_recycler_flush_task`: splice the hot list, splice the spare list, free -/
  | flushHot (cpu : ι)
  | flushSpare (cpu : ι)
  | flushFree (cpu : ι)
  /-- `proc_skb_flush_write` under the ring's lock -/
  | flushGlobal
  | setMaxSkbs (cpu : ι) (max : Nat)
  | setMaxSpareSkbs (cpu : ι) (max : Nat)

namespace System

def contents (s : System ι ω) : Place ι ω → List Skb
  | .hot cpu => s.recycler.recycleList cpu
  | .spare cpu => s.recycler.recycleSpareList cpu
  | .slot k => s.recycler.glob.pool[k]?.getD []
  | .outside o => s.held o

def setHeld (s : System ι ω) (o : Owner ι ω) (q : List Skb) : System ι ω :=
  { s with held := Function.update s.held o q }

/-- `kfree_skbmem` of every buffer of a list (`skb_recycler_free_skb`). -/
def free (s : System ι ω) (q : List Skb) : System ι ω :=
  { s with allocated := s.allocated \ q.toFinset }

def setRecycler (s : System ι ω) (r : Recycler ι) : System ι ω := { s with recycler := r }

end System

/-- The effect of an operation; `none` where the C code has no defined one. -/
def exec (cfg : Config) (s : System ι ω) : Op ι ω → Option (System ι ω)
  | .adopt o skb =>
    some { (s.setHeld (.caller o) (skb :: s.held (.caller o))) with
      allocated := insert skb s.allocated }
  | .release o skb =>
    some ((s.setHeld (.caller o) ((s.held (.caller o)).erase skb)).free [skb])
  | .pass o o' skb =>
    let s' := s.setHeld (.caller o) ((s.held (.caller o)).erase skb)
    some (s'.setHeld (.caller o') (skb :: s'.held (.caller o')))
  | .alloc enable cpu length o =>
    match skbRecyclerAlloc cfg enable cpu length s.recycler with
    | none => none
    | some (none, r) => some (s.setRecycler r)
    | some (some skb, r) =>
      some ((s.setRecycler r).setHeld (.caller o) (skb :: s.held (.caller o)))
  | .consume seen canRecycle cpu o skb =>
    match skbRecyclerConsume cfg seen canRecycle cpu skb s.recycler with
    | none => none
    | some (false, r) => some (s.setRecycler r)
    | some (true, r) =>
      some ((s.setRecycler r).setHeld (.caller o) ((s.held (.caller o)).erase skb))
  | .consumeListFast seen cpu o skbList =>
    match skbRecyclerConsumeListFast cfg seen cpu skbList s.recycler with
    | none => none
    | some (false, _, r) => some (s.setRecycler r)
    | some (true, _, r) =>
      some ((s.setRecycler r).setHeld (.caller o) ((s.held (.caller o)).diff skbList))
  | .cpuDeadHot cpu =>
    some ((s.setRecycler (s.recycler.setHot cpu [])).free (s.recycler.recycleList cpu))
  | .cpuDeadSpare cpu =>
    some ((s.setRecycler (s.recycler.setSpare cpu [])).free (s.recycler.recycleSpareList cpu))
  | .flushHot cpu =>
    some ((s.setRecycler (s.recycler.setHot cpu [])).setHeld (.flusher cpu)
      (s.recycler.recycleList cpu ++ s.held (.flusher cpu)))
  | .flushSpare cpu =>
    some ((s.setRecycler (s.recycler.setSpare cpu [])).setHeld (.flusher cpu)
      (s.recycler.recycleSpareList cpu ++ s.held (.flusher cpu)))
  | .flushFree cpu => some ((s.setHeld (.flusher cpu) []).free (s.held (.flusher cpu)))
  | .flushGlobal =>
    let glob := s.recycler.glob
    some ((s.setRecycler { s.recycler with
      glob := { pool := glob.pool.map fun _ => [], head := 0, tail := 0 } }).free
        glob.pool.flatten)
  | .setMaxSkbs cpu max => some (s.setRecycler (s.recycler.setMaxSkbs cpu max))
  | .setMaxSpareSkbs cpu max => some (s.setRecycler (s.recycler.setMaxSpareSkbs cpu max))

/-- What callers and the slab allocator promise. -/
def Legal (s : System ι ω) : Op ι ω → Prop
  | .adopt _ skb => skb ∉ s.allocated
  | .release o skb => skb ∈ s.held (.caller o)
  | .pass o _ skb => skb ∈ s.held (.caller o)
  | .consume _ _ _ o skb => skb ∈ s.held (.caller o)
  | .consumeListFast _ _ o skbList => skbList.Subperm (s.held (.caller o))
  | _ => True

instance (s : System ι ω) : (op : Op ι ω) → Decidable (Legal s op)
  | .adopt _ skb => inferInstanceAs (Decidable (skb ∉ s.allocated))
  | .release o skb | .pass o _ skb | .consume _ _ _ o skb =>
    inferInstanceAs (Decidable (skb ∈ s.held (.caller o)))
  | .consumeListFast _ _ o skbList =>
    inferInstanceAs (Decidable (skbList.Subperm (s.held (.caller o))))
  | .alloc .. | .cpuDeadHot _ | .cpuDeadSpare _ | .flushHot _ | .flushSpare _ | .flushFree _
  | .flushGlobal | .setMaxSkbs .. | .setMaxSpareSkbs .. => .isTrue trivial

/-- After `skb_recycler_init`, with some limits. -/
def initial (cfg : Config) (maxSkbs maxSpareSkbs : ι → Nat) : System ι ω :=
  { recycler := skbRecyclerInit cfg maxSkbs maxSpareSkbs, held := fun _ => [], allocated := ∅ }

/-- The states runs of `ok` operations lead to. -/
inductive Reachable (cfg : Config) (ok : System ι ω → Op ι ω → Prop) (start : System ι ω) :
    System ι ω → Prop where
  | start : Reachable cfg ok start start
  | step {s s' : System ι ω} {op : Op ι ω} (h : Reachable cfg ok start s) (hok : ok s op)
      (hexec : exec cfg s op = some s') : Reachable cfg ok start s'

/-- What holds at the start and is kept by every allowed operation holds always. -/
theorem Reachable.invariant {cfg : Config} {ok : System ι ω → Op ι ω → Prop}
    {start s : System ι ω} {I : System ι ω → Prop} (h : Reachable cfg ok start s)
    (hstart : I start)
    (hstep : ∀ s s' op, I s → ok s op → exec cfg s op = some s' → I s') : I s := by
  induction h with
  | start => exact hstart
  | step _ hok hexec ih => exact hstep _ _ _ ih hok hexec

def run (cfg : Config) (ok : System ι ω → Op ι ω → Prop) [∀ s op, Decidable (ok s op)] :
    System ι ω → List (Op ι ω) → Option (System ι ω)
  | s, [] => some s
  | s, op :: ops => if ok s op then (exec cfg s op).bind (run cfg ok · ops) else none

theorem Reachable.of_run {cfg : Config} {ok : System ι ω → Op ι ω → Prop}
    [∀ s op, Decidable (ok s op)] {start s s' : System ι ω} {ops : List (Op ι ω)}
    (h : Reachable cfg ok start s) (hrun : run cfg ok s ops = some s') :
    Reachable cfg ok start s' := by
  induction ops generalizing s with
  | nil =>
    cases hrun
    exact h
  | cons op ops ih =>
    unfold run at hrun
    split at hrun
    · rename_i hok
      obtain ⟨s₁, hexec, hrest⟩ := Option.bind_eq_some_iff.mp hrun
      exact ih (h.step hok hexec) hrest
    · cases hrun

end LibWrt.SkbRecycler
