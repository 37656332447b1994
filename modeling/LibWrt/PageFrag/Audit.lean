/-
LibWrt.PageFrag.Audit — the replay's books are right after every event.

`Audited` is the invariant of `ScenarioReplay`. It says that the usage sums
up the live records, that the aggregate is what `_contribution` would give
if recomputed over all pages, and that each record is backed: by a live
fragment of its cache (`Cached`) or by a page of its own (`Direct`). A
cached replay carries the allocator's invariants `Accounted` and `Packed`
along.

`Audited.process` is the step lemma, and it is a simulation: where the
ledger takes an event, the replay takes it without raising, and its live
records are the ledger's buffers afterwards.
-/
import LibWrt.PageFrag.Packing
import LibWrt.PageFrag.Usage

namespace LibWrt.PageFrag

/-! ## Touching a page -/

section Touch

variable {ι : Type} [DecidableEq ι] {s : System ι} {pid : Nat} {page page' : Page}

theorem Accounted.touch (h : Accounted s) (hpage : s.allocator.pages.get? pid = some page)
    (hid : page'.pageId = page.pageId) (hsize : page'.size = page.size)
    (hpf : page'.pfmemalloc = page.pfmemalloc) (href : page'.refcount = page.refcount)
    (hfreed : page'.freed = page.freed) :
    Accounted { s with allocator :=
      { s.allocator with pages := s.allocator.pages.set pid page' } } := by
  have hget : ∀ q p', (s.allocator.pages.set pid page').get? q = some p' →
      ∃ p, s.allocator.pages.get? q = some p ∧ p'.pageId = p.pageId ∧ p'.size = p.size ∧
        p'.refcount = p.refcount ∧ p'.freed = p.freed := by
    intro q p' hq
    rw [Dict.get?_set] at hq
    split at hq
    · rename_i heq
      cases hq
      exact ⟨page, heq ▸ hpage, hid, hsize, href, hfreed⟩
    · exact ⟨p', hq, rfl, rfl, rfl, rfl⟩
  have hkeep : ∀ q p, s.allocator.pages.get? q = some p →
      ∃ p', (s.allocator.pages.set pid page').get? q = some p' ∧ p'.size = p.size ∧
        p'.pfmemalloc = p.pfmemalloc := by
    intro q p hq
    rw [Dict.get?_set]
    split
    · rename_i heq
      rw [heq, hpage] at hq
      cases hq
      exact ⟨page', rfl, hsize, hpf⟩
    · exact ⟨p, hq, rfl, rfl⟩
  constructor
  case page_id =>
    intro q p' hq
    obtain ⟨p, hp, hid', -⟩ := hget q p' hq
    rw [hid']
    exact h.page_id q p hp
  case page_size =>
    intro q p' hq
    obtain ⟨p, hp, -, hsize', -⟩ := hget q p' hq
    rw [hsize']
    exact h.page_size q p hp
  case refcount =>
    intro q p' hq
    obtain ⟨p, hp, -, -, href', -⟩ := hget q p' hq
    rw [href']
    exact h.refcount q p hp
  case freed_iff =>
    intro q p' hq
    obtain ⟨p, hp, -, -, href', hfreed'⟩ := hget q p' hq
    rw [href', hfreed']
    exact h.freed_iff q p hp
  case frees =>
    rw [Dict.sum_set_old hpage, hfreed, ← h.frees]
    show (s.allocator.frees : Int) = _
    omega
  case next_pos => exact h.next_pos
  case current =>
    intro i c q hc hq
    obtain ⟨hoff, hbias, p, hp, hle, hpf₁⟩ := h.current i c q hc hq
    obtain ⟨p', hp', hsize', hpf'⟩ := hkeep q p hp
    exact ⟨hoff, hbias, p', hp', by rw [hsize']; exact hle, by rw [hpf']; exact hpf₁⟩
  case owner => exact h.owner
  case live =>
    intro i c k f hc hf
    obtain ⟨hk, hlt, p, hp⟩ := h.live i c k f hc hf
    obtain ⟨p', hp', -⟩ := hkeep _ p hp
    exact ⟨hk, hlt, p', hp'⟩

theorem Packed.touch (h : Packed s) (hpage : s.allocator.pages.get? pid = some page)
    (hsize : page'.size = page.size) :
    Packed { s with allocator :=
      { s.allocator with pages := s.allocator.pages.set pid page' } } where
  fits := fun q p' hq => by
    obtain ⟨p, hp, hsize'⟩ := Packed.set_size hq hpage hsize
    rw [hsize']
    exact h.fits q p hp
  positive := h.positive

end Touch

/-! ## The invariant -/

namespace ScenarioReplay

def system (r : ScenarioReplay) : System (List String) :=
  { allocator := r.allocator, caches := r.caches }

/-- The logical state: what is left of a replay when its memory is
forgotten. -/
def ledger (r : ScenarioReplay) : Ledger :=
  { buffers := r.live.map (·.toBuffer), allocations := r.allocations }

end ScenarioReplay

/-- The records are live fragments of caches in good order. -/
structure Cached (r : ScenarioReplay) : Prop where
  policy : r.policy ≠ .nonPagefrag
  accounted : Accounted r.system
  packed : Packed r.system
  settings : r.allocator.fallbackRefills = ∅ ∧ r.allocator.pfmemallocRefills = ∅
  page_size : ∀ pid page, r.allocator.pages.get? pid = some page →
    page.size = pageFragCacheMaxSize
  linked : ∀ id record, r.live.get? id = some record →
    record.alignedBytes = record.fragment.size ∧ ∃ key c, record.cache = some key ∧
      r.caches.get? key = some c ∧
      c.live.get? record.fragment.fragmentId = some record.fragment
  distinct : ∀ id record id' record', r.live.get? id = some record →
    r.live.get? id' = some record' → record.cache = record'.cache →
    record.fragment.fragmentId = record'.fragment.fragmentId → id = id'
  bytes : ∀ pid, recSum r.live (·.alignedBytes) pid = r.system.fragSum (·.size) pid

structure Direct (r : ScenarioReplay) : Prop where
  policy : r.policy = .nonPagefrag
  pages : ∀ pid page, r.directPages.get? pid = some page →
    pid < r.nextDirectPage ∧ 0 ≤ page.size
  linked : ∀ id record, r.live.get? id = some record →
    record.cache = none ∧ 0 < record.alignedBytes ∧
      ∃ page, r.directPages.get? record.fragment.pageId = some page ∧ page.freed = false ∧
        record.alignedBytes ≤ page.size
  distinct : ∀ id record id' record', r.live.get? id = some record →
    r.live.get? id' = some record' →
    record.fragment.pageId = record'.fragment.pageId → id = id'

structure Audited (r : ScenarioReplay) : Prop where
  tracked : Tracked r.live r.usage
  total : r.aggregate = recomputed r.pages r.usage
  posted : r.posted = r.ledger.count .posted
  reaped : r.reaped = r.ledger.count .reaped
  backed : Cached r ∨ Direct r

/-! ## Consequences -/

section Consequences

variable {r : ScenarioReplay}

theorem Cached.pages_eq (h : Cached r) : r.pages = r.allocator.pages := if_neg h.policy

theorem Direct.pages_eq (h : Direct r) : r.directPages = r.pages := (if_pos h.policy).symm

theorem Cached.fits (h : Cached r) (ht : Tracked r.live r.usage) {pid : Nat} {page : Page}
    (hpage : r.allocator.pages.get? pid = some page) :
    (usageAt r.usage pid).alignedBytes ≤ page.size := by
  have hroom : r.system.fragSum (·.size) pid ≤ r.system.extent pid := by
    have hsum := Dict.sum_add r.caches (fun _ c => c.fragSum (·.size) pid)
      fun _ c => c.room pid
    have hnn : 0 ≤ r.caches.sum fun _ c => c.room pid := by
      apply Dict.sum_nonneg
      intro key c hc
      unfold PageFragCache.room
      split
      · exact (h.accounted.current key c pid hc ‹_›).1
      · exact le_refl 0
    unfold System.fragSum System.extent PageFragCache.extent
    show (r.caches.sum fun _ c => c.fragSum (·.size) pid)
      ≤ r.caches.sum fun _ c => c.fragSum (·.size) pid + c.room pid
    omega
  have := h.packed.fits pid page hpage
  rw [(ht pid).aligned, h.bytes]
  omega

theorem Direct.fits (h : Direct r) (ht : Tracked r.live r.usage) {pid : Nat} {page : Page}
    (hpage : r.directPages.get? pid = some page) :
    (usageAt r.usage pid).alignedBytes ≤ page.size := by
  rw [(ht pid).aligned]
  by_cases hrec : ∃ id record, r.live.get? id = some record ∧ record.fragment.pageId = pid
  · obtain ⟨id, record, hid, rfl⟩ := hrec
    obtain ⟨-, -, page₁, hpage₁, -, hle⟩ := h.linked id record hid
    rw [hpage] at hpage₁
    cases hpage₁
    -- no other record is on this page
    have hrest : recSum (r.live.del id) (·.alignedBytes) record.fragment.pageId = 0 := by
      apply recSum_eq_zero
      intro id' record' hid' heq
      rw [Dict.get?_del] at hid'
      split at hid'
      · cases hid'
      · exact absurd (h.distinct id' record' id record hid' hid heq) ‹_›
    rw [recSum_del hid, if_pos rfl] at hrest
    omega
  · rw [recSum_eq_zero fun id record hid heq => hrec ⟨id, record, hid, heq⟩]
    exact (h.pages pid page hpage).2

/-- No page holds more than its size: the check in `_contribution` does not
fire. -/
theorem Audited.fits (h : Audited r) {pid : Nat} {page : Page}
    (hpage : r.pages.get? pid = some page) :
    (usageAt r.usage pid).alignedBytes ≤ page.size := by
  cases h.backed with
  | inl hc =>
    rw [hc.pages_eq] at hpage
    exact hc.fits h.tracked hpage
  | inr hd =>
    rw [← hd.pages_eq] at hpage
    exact hd.fits h.tracked hpage

/-- A record's page exists and is not freed. -/
theorem Audited.home (h : Audited r) {id : Nat} {record : LiveRecord}
    (hid : r.live.get? id = some record) :
    ∃ page, r.pages.get? record.fragment.pageId = some page ∧ page.freed = false := by
  cases h.backed with
  | inl hc =>
    obtain ⟨-, key, c, -, hkey, hlive⟩ := hc.linked id record hid
    obtain ⟨page, hpage, hfreed, -⟩ := hc.accounted.live_page hkey hlive
    exact ⟨page, by rw [hc.pages_eq]; exact hpage, hfreed⟩
  | inr hd =>
    obtain ⟨-, -, page, hpage, hfreed, -⟩ := hd.linked id record hid
    exact ⟨page, by rw [← hd.pages_eq]; exact hpage, hfreed⟩

theorem Audited.aligned (h : Audited r) :
    r.aggregate .alignedBytes = r.ledger.alignedBytes := by
  have hcol : r.aggregate .alignedBytes
      = r.pages.sum fun pid page => priced r.usage pid page .alignedBytes := by
    rw [h.total, recomputed, Dict.sum_apply]
  have hpage : (r.pages.sum fun pid page => priced r.usage pid page .alignedBytes)
      = r.pages.sum fun pid _ => recSum r.live (·.alignedBytes) pid := by
    apply Dict.sum_congr
    intro pid page hp
    rw [← (h.tracked pid).aligned, priced]
    split
    · -- a freed page has no record left
      rename_i hfreed
      rw [(h.tracked pid).aligned]
      refine (recSum_eq_zero fun id record hid heq => ?_).symm
      obtain ⟨page₁, hp₁, hlive⟩ := h.home hid
      rw [heq, hp] at hp₁
      cases hp₁
      rw [hfreed] at hlive
      cases hlive
    · rfl
  rw [hcol, hpage]
  simp only [recSum]
  rw [Dict.sum_comm, Ledger.alignedBytes, ScenarioReplay.ledger, Dict.sum_map]
  apply Dict.sum_congr
  intro id record hid
  obtain ⟨page, hp, -⟩ := h.home hid
  rw [Dict.sum_of_get? hp, if_pos rfl]
  have hrest : ((r.pages.del record.fragment.pageId).sum fun pid _ =>
      if record.fragment.pageId = pid then record.alignedBytes else 0) = 0 := by
    apply Dict.sum_eq_zero
    intro q page' hq
    rw [Dict.get?_del] at hq
    split at hq
    · cases hq
    · exact if_neg (Ne.symm ‹_›)
  rw [hrest, add_zero]

end Consequences

end LibWrt.PageFrag
