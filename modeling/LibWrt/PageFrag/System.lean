/-
LibWrt.PageFrag.System — any number of caches over one allocator.

The simulator keeps its `PageFragCache` objects in a dictionary and creates
them on demand, all over one `PhysicalAllocator`. `System` is that pair,
`System.step` one method call on it, and `System.Reachable` the states any
sequence of legal calls leads to. A call is legal when it is one the
simulator makes: the cache exists, a request is positive, and a fragment is
freed on the cache that handed it out while it is live. Requests larger
than the page are legal; they return no fragment.
-/
import LibWrt.PageFrag.Moves

namespace LibWrt.PageFrag

structure System (ι : Type) where
  allocator : PhysicalAllocator
  caches : Dict ι PageFragCache

inductive Op (ι : Type) where
  | create (i : ι)
  | allocate (i : ι) (size : Int)
  | free (i : ι) (fragment : Fragment)
  | drain (i : ι)

namespace System

variable {ι : Type} [DecidableEq ι]

/-- No cache, no page; the refill properties are fixed for the whole run. -/
def initial (fallbackRefills pfmemallocRefills : Finset Nat) : System ι :=
  { allocator :=
      { fallbackRefills := fallbackRefills, pfmemallocRefills := pfmemallocRefills }
    caches := ∅ }

/-- Replace cache `i` and the allocator. -/
def put (s : System ι) (i : ι) (a : PhysicalAllocator) (c : PageFragCache) : System ι :=
  { allocator := a, caches := s.caches.set i c }

@[simp] theorem put_put (s : System ι) (i : ι) (a a' : PhysicalAllocator)
    (c c' : PageFragCache) : (s.put i a c).put i a' c' = s.put i a' c' := by
  simp [put, Dict.set_set]

@[simp] theorem put_get? (s : System ι) (i : ι) (a : PhysicalAllocator)
    (c : PageFragCache) : (s.put i a c).caches.get? i = some c :=
  Dict.get?_set_self _ _ _

@[simp] theorem put_allocator (s : System ι) (i : ι) (a : PhysicalAllocator)
    (c : PageFragCache) : (s.put i a c).allocator = a := rfl

theorem put_cases {s : System ι} {i j : ι} {a : PhysicalAllocator} {c cj : PageFragCache}
    (hj : (s.put i a c).caches.get? j = some cj) :
    (j = i ∧ cj = c) ∨ (j ≠ i ∧ s.caches.get? j = some cj) := by
  rw [put, Dict.get?_set] at hj
  split at hj
  · exact Or.inl ⟨‹_›, (Option.some.inj hj).symm⟩
  · exact Or.inr ⟨‹_›, hj⟩

/-- `dict.setdefault(key, PageFragCache(allocator))`. -/
def create (s : System ι) (i : ι) : System ι :=
  match s.caches.get? i with
  | some _ => s
  | none => { s with caches := s.caches.set i {} }

theorem create_cases {s : System ι} {i j : ι} {cj : PageFragCache}
    (hj : (s.create i).caches.get? j = some cj) :
    cj = {} ∨ s.caches.get? j = some cj := by
  unfold create at hj
  split at hj
  · exact Or.inr hj
  · rw [Dict.get?_set] at hj
    split at hj
    · exact Or.inl (Option.some.inj hj).symm
    · exact Or.inr hj

theorem create_put (s : System ι) (i : ι) (a : PhysicalAllocator) (c : PageFragCache) :
    (s.create i).put i a c = s.put i a c := by
  unfold create
  split
  · rfl
  · simp [put, Dict.set_set]

theorem create_get? (s : System ι) (i : ι) :
    (s.create i).caches.get? i = some ((s.caches.get? i).getD {}) := by
  unfold create
  split
  · rename_i h
    rw [h]
    rfl
  · rename_i h
    rw [h]
    exact Dict.get?_set_self _ _ _

@[simp] theorem create_allocator (s : System ι) (i : ι) :
    (s.create i).allocator = s.allocator := by
  unfold create
  split <;> rfl

def step (s : System ι) : Op ι → Except PyError (System ι)
  | .create i => .ok (s.create i)
  | .allocate i size =>
    match s.caches.get? i with
    | none => .error .keyError
    | some c =>
      match c.allocate s.allocator size with
      | .error e => .error e
      | .ok (_, a, c) => .ok (s.put i a c)
  | .free i fragment =>
    match s.caches.get? i with
    | none => .error .keyError
    | some c =>
      match c.free s.allocator fragment with
      | .error e => .error e
      | .ok (a, c) => .ok (s.put i a c)
  | .drain i =>
    match s.caches.get? i with
    | none => .error .keyError
    | some c =>
      match c.drain s.allocator with
      | .error e => .error e
      | .ok (a, c) => .ok (s.put i a c)

def Legal (s : System ι) : Op ι → Prop
  | .create _ => True
  | .allocate i size => (s.caches.get? i).isSome = true ∧ 0 < size
  | .free i f => (s.caches.get? i).bind (fun c => c.live.get? f.fragmentId) = some f
  | .drain i => (s.caches.get? i).isSome = true

instance (s : System ι) (op : Op ι) : Decidable (s.Legal op) :=
  match op with
  | .create _ => isTrue trivial
  | .allocate _ _ => inferInstanceAs (Decidable (_ ∧ _))
  | .free _ _ => inferInstanceAs (Decidable (_ = _))
  | .drain _ => inferInstanceAs (Decidable (_ = _))

inductive Reachable (fallbackRefills pfmemallocRefills : Finset Nat) : System ι → Prop where
  | initial : Reachable fallbackRefills pfmemallocRefills
      (initial fallbackRefills pfmemallocRefills)
  | step {s s' : System ι} {op : Op ι}
      (hs : Reachable fallbackRefills pfmemallocRefills s)
      (hlegal : s.Legal op) (hstep : s.step op = .ok s') :
      Reachable fallbackRefills pfmemallocRefills s'

/-- A sequence of calls, `none` if one of them is not legal or raises. -/
def run (s : System ι) : List (Op ι) → Option (System ι)
  | [] => some s
  | op :: ops =>
    if s.Legal op then
      match s.step op with
      | .error _ => none
      | .ok s => run s ops
    else none

theorem Reachable.run {fallback pfmemalloc : Finset Nat} {s s' : System ι}
    (hs : Reachable fallback pfmemalloc s) {ops : List (Op ι)} (h : s.run ops = some s') :
    Reachable fallback pfmemalloc s' := by
  induction ops generalizing s with
  | nil =>
    cases h
    exact hs
  | cons op ops ih =>
    unfold System.run at h
    split at h
    · rename_i hlegal
      cases hstep : s.step op with
      | error e => simp [hstep] at h
      | ok s₁ =>
        simp only [hstep] at h
        exact ih (hs.step hlegal hstep) h
    · cases h

/-- The changes calls are made of. -/
inductive Micro : System ι → System ι → Prop where
  | create (s : System ι) (i : ι) : Micro s (s.create i)
  | keep {s : System ι} {i : ι} {c : PageFragCache} (hc : s.caches.get? i = some c) :
      Micro s (s.put i s.allocator c)
  | move {s : System ι} {i : ι} {c : PageFragCache} {p : PhysicalAllocator × PageFragCache}
      (hc : s.caches.get? i = some c) (hm : Move (s.allocator, c) p) :
      Micro s (s.put i p.1 p.2)
  | carve {s : System ι} {i : ι} {c : PageFragCache} {pid : Nat} {size : Int}
      (hc : s.caches.get? i = some c) (hcur : c.page = some pid)
      (hsize : 0 < size) (hfit : size ≤ c.offset) :
      Micro s (s.put i s.allocator (c.carve pid (c.offset - size) size).2)
  | free {s : System ι} {i : ι} {c : PageFragCache} {k : Nat} {f : Fragment} {page : Page}
      (hc : s.caches.get? i = some c) (hf : c.live.get? k = some f)
      (hpage : s.allocator.pages.get? f.pageId = some page) (hlive : page.freed = false) :
      Micro s (s.put i (s.allocator.dropRefs f.pageId page 1)
        { c with live := c.live.del k })

/-- Moves of one cache, seen from the system. -/
theorem micro_of_moves {s : System ι} {i : ι} {c : PageFragCache}
    {p : PhysicalAllocator × PageFragCache} (hc : s.caches.get? i = some c)
    (hm : Moves (s.allocator, c) p) : Relation.ReflTransGen Micro s (s.put i p.1 p.2) := by
  induction hm with
  | refl => exact .single (.keep hc)
  | tail _ hlast ih =>
    have hstep := Micro.move (put_get? s i _ _) hlast
    rw [put_put] at hstep
    exact ih.tail hstep

end System

end LibWrt.PageFrag
