/-
LibWrt.PageFrag.Moves — the methods of `PageFragCache` as sequences of
small moves.

`allocate` is some `refill`, `release` and `reuse` moves and then at most
one `carve`; `drain` is a `release`. `release` shares with `free` the one
operation that can free a page, `dropRefs`. The equation lemmas say which
moves a call makes; they hold as long as the page a cache names exists, is
not freed and has at least the references being dropped. That side
condition is exactly the assertions of the source, so it is where an
invariant has to be supplied.
-/
import LibWrt.PageFrag.Cache

namespace LibWrt.PageFrag

open PhysicalAllocator

/-! ## Dropping references -/

/-- Take `n` references off page `pid`, and free it if none is left. -/
def PhysicalAllocator.dropRefs (a : PhysicalAllocator) (pid : Nat) (page : Page)
    (n : Int) : PhysicalAllocator :=
  if page.refcount - n = 0 then
    { a with
      pages := a.pages.set pid { page with refcount := page.refcount - n, freed := true }
      frees := a.frees + 1 }
  else
    { a with pages := a.pages.set pid { page with refcount := page.refcount - n } }

/-- The page the next refill brings, with the references a refill adds. -/
def PhysicalAllocator.refillPage (a : PhysicalAllocator) : Page :=
  { pageId := a.nextPageId
    size := if a.refillAttempts + 1 ∈ a.fallbackRefills then pageSize else pageFragCacheMaxSize
    pfmemalloc := a.refillAttempts + 1 ∈ a.pfmemallocRefills
    refcount := pageFragCacheBias }

def PageFragCache.idle (c : PageFragCache) : PageFragCache :=
  { c with page := none, offset := 0, pagecntBias := 0, pfmemalloc := false }

/-- A cache that took its page again, with `offset` where the next request
counts down from. -/
def PageFragCache.reused (c : PageFragCache) (offset : Int) : PageFragCache :=
  { c with pagecntBias := pageFragCacheBias, reuses := c.reuses + 1, offset := offset }

theorem freePage_set {a : PhysicalAllocator} {pid : Nat} {page : Page} {n : Int}
    (hzero : page.refcount - n = 0) (hlive : page.freed = false) :
    freePage
        { a with pages := a.pages.set pid { page with refcount := page.refcount - n } } pid
      = .ok (a.dropRefs pid page n) := by
  simp [freePage, dropRefs, hzero, hlive, Dict.set_set]

namespace PageFragCache

variable {c : PageFragCache} {a : PhysicalAllocator} {pid : Nat} {page : Page}

theorem drain_eq (hcur : c.page = some pid) (hpage : a.pages.get? pid = some page)
    (hlive : page.freed = false) (hbias : c.pagecntBias ≤ page.refcount) :
    c.drain a = .ok (a.dropRefs pid page c.pagecntBias, c.idle) := by
  have hneg : ¬ page.refcount - c.pagecntBias < 0 := by omega
  simp only [drain, hcur, hpage, if_neg hneg]
  by_cases hzero : page.refcount - c.pagecntBias = 0
  · rw [if_pos hzero, freePage_set hzero hlive]
    rfl
  · rw [if_neg hzero, dropRefs, if_neg hzero]
    rfl

theorem drain_idle (hcur : c.page = none) : c.drain a = .ok (a, c) := by
  simp [drain, hcur]

theorem free_eq {f : Fragment} (hf : c.live.get? f.fragmentId = some f)
    (hpage : a.pages.get? f.pageId = some page) (hlive : page.freed = false)
    (href : 1 ≤ page.refcount) :
    c.free a f = .ok (a.dropRefs f.pageId page 1,
      { c with live := c.live.del f.fragmentId }) := by
  have hneg : ¬ page.refcount - 1 < 0 := by omega
  simp only [free, hf, hpage, ne_eq, not_true_eq_false, if_false, if_neg hneg]
  by_cases hzero : page.refcount - 1 = 0
  · rw [if_pos hzero, freePage_set hzero hlive]
  · rw [if_neg hzero, dropRefs, if_neg hzero]

theorem refill_eq (c : PageFragCache) (a : PhysicalAllocator) :
    c.refill a =
      ({ a with
          refillAttempts := a.refillAttempts + 1
          nextPageId := a.nextPageId + 1
          pages := a.pages.set a.nextPageId a.refillPage },
        { c with
          page := some a.nextPageId
          offset := a.refillPage.size
          pagecntBias := pageFragCacheBias
          pfmemalloc := a.refillPage.pfmemalloc
          refills := c.refills + 1 }) := by
  simp [refill, PhysicalAllocator.allocate, refillPage, Dict.set_set,
    pageFragCacheBias, add_comm]

theorem rollover_fresh {size : Int} (hcur : c.page = some pid)
    (hpage : a.pages.get? pid = some page) (hlive : page.freed = false)
    (hbias : c.pagecntBias ≤ page.refcount)
    (hleave : page.refcount ≠ c.pagecntBias ∨ c.pfmemalloc = true) :
    c.rollover a size =
      .ok ((c.refill (a.dropRefs pid page c.pagecntBias)).2.offset - size,
        c.refill (a.dropRefs pid page c.pagecntBias)) := by
  have hneg : ¬ page.refcount - c.pagecntBias < 0 := by omega
  simp only [rollover, hcur, hpage, if_neg hneg]
  by_cases hzero : page.refcount - c.pagecntBias = 0
  · have hpf : c.pfmemalloc = true := by
      rcases hleave with h | h
      · omega
      · exact h
    rw [if_neg (not_not.mpr hzero), if_pos hpf, freePage_set hzero hlive]
  · rw [if_pos hzero, dropRefs, if_neg hzero]

theorem rollover_reuse {size : Int} (hcur : c.page = some pid)
    (hpage : a.pages.get? pid = some page)
    (hbias : page.refcount = c.pagecntBias) (hpf : c.pfmemalloc = false) :
    c.rollover a size =
      .ok (page.size - size,
        { a with pages := a.pages.set pid { page with refcount := pageFragCacheBias } },
        c.reused c.offset) := by
  have hzero : page.refcount - c.pagecntBias = 0 := by omega
  simp [rollover, hcur, hpage, hzero, hpf, Dict.set_set, reused]

end PageFragCache

/-! ## Moves -/

inductive Move : PhysicalAllocator × PageFragCache → PhysicalAllocator × PageFragCache → Prop where
  | refill {a : PhysicalAllocator} {c : PageFragCache} (hcur : c.page = none) :
      Move (a, c) (c.refill a)
  | release {a : PhysicalAllocator} {c : PageFragCache} {pid : Nat} {page : Page}
      (hcur : c.page = some pid) (hpage : a.pages.get? pid = some page) :
      Move (a, c) (a.dropRefs pid page c.pagecntBias, c.idle)
  | reuse {a : PhysicalAllocator} {c : PageFragCache} {pid : Nat} {page : Page} {offset : Int}
      (hcur : c.page = some pid) (hpage : a.pages.get? pid = some page)
      (hbias : page.refcount = c.pagecntBias)
      (hoff : offset = c.offset ∨ offset = page.size) :
      Move (a, c)
        ({ a with pages := a.pages.set pid { page with refcount := pageFragCacheBias } },
          c.reused offset)

abbrev Moves := Relation.ReflTransGen Move

/-- What the methods assume of a cache's current page: it exists, it is not
freed, and it has at least the cache's own references. -/
def CurrentOk (a : PhysicalAllocator) (c : PageFragCache) : Prop :=
  ∀ pid, c.page = some pid → ∃ page, a.pages.get? pid = some page ∧
    page.freed = false ∧ c.pagecntBias ≤ page.refcount ∧ c.pfmemalloc = page.pfmemalloc

namespace PageFragCache

variable {c : PageFragCache} {a : PhysicalAllocator} {pid : Nat} {size : Int}

/-- The page a refill brings: fresh, and every reference the cache's own. -/
theorem refill_page (c : PageFragCache) (a : PhysicalAllocator) :
    ∃ page, (c.refill a).1.pages.get? a.nextPageId = some page ∧
      (c.refill a).2.page = some a.nextPageId ∧ page.freed = false ∧
      page.refcount = pageFragCacheBias ∧ (c.refill a).2.pagecntBias = pageFragCacheBias ∧
      (c.refill a).2.offset = page.size ∧ (c.refill a).2.pfmemalloc = page.pfmemalloc := by
  rw [refill_eq]
  exact ⟨a.refillPage, Dict.get?_set_self _ _ _, rfl, rfl, rfl, rfl, rfl, rfl⟩

theorem currentOk_refill (c : PageFragCache) (a : PhysicalAllocator) :
    CurrentOk (c.refill a).1 (c.refill a).2 := by
  obtain ⟨page, hget, hpage, hlive, href, hbias, _, hpf⟩ := refill_page c a
  intro pid hpid
  rw [hpage] at hpid
  cases hpid
  exact ⟨page, hget, hlive, by omega, hpf⟩

/-- The rollover block never raises on a sound cache. A negative offset
means the page it ended on is too small; otherwise the request is carved
off the top of that page. -/
theorem rollover_moves (size : Int) (h : CurrentOk a c) (hcur : c.page = some pid) :
    ∃ offset a₁ c₁ pid₁ page₁, c.rollover a size = .ok (offset, a₁, c₁) ∧
      c₁.page = some pid₁ ∧ a₁.pages.get? pid₁ = some page₁ ∧
      offset = page₁.size - size ∧
      (offset < 0 → Moves (a, c) (a₁, c₁)) ∧
      (0 ≤ offset → Moves (a, c) (a₁, { c₁ with offset := page₁.size })) := by
  obtain ⟨page, hget, hlive, hbias, hpf⟩ := h pid hcur
  by_cases hleave : page.refcount ≠ c.pagecntBias ∨ c.pfmemalloc = true
  · -- the old page is given up; a refill follows
    have hrelease : Moves (a, c) (a.dropRefs pid page c.pagecntBias, c.idle) :=
      .single (.release hcur hget)
    have hmoves : Moves (a, c) (c.refill (a.dropRefs pid page c.pagecntBias)) :=
      hrelease.tail (.refill rfl)
    obtain ⟨page₁, hget₁, hcur₁, -, -, -, hoff, -⟩ :=
      refill_page c (a.dropRefs pid page c.pagecntBias)
    refine ⟨_, _, _, _, page₁, rollover_fresh hcur hget hlive hbias hleave, hcur₁, hget₁,
      by rw [hoff], fun _ => hmoves, fun _ => ?_⟩
    rw [← hoff]
    exact hmoves
  · -- nothing else holds the page: it is taken again
    obtain ⟨href, hpf'⟩ := not_or.mp hleave
    have href' : page.refcount = c.pagecntBias := not_not.mp href
    refine ⟨_, _, _, pid, { page with refcount := pageFragCacheBias },
      rollover_reuse hcur hget href' (by simpa using hpf'), hcur, Dict.get?_set_self _ _ _,
      rfl, fun _ => .single (.reuse hcur hget href' (Or.inl rfl)), fun _ => ?_⟩
    exact .single (.reuse hcur hget href' (Or.inr rfl))

/-- A request that fits below the offset. -/
theorem allocate_fit (hcur : c.page = some pid) (hpos : 0 < size) (hfit : size ≤ c.offset) :
    c.allocate a size = .ok (some (c.carve pid (c.offset - size) size).1, a,
      (c.carve pid (c.offset - size) size).2) := by
  have hsize : ¬ size ≤ 0 := by omega
  have hnn : ¬ c.offset - size < 0 := by omega
  simp [allocate, hsize, hcur, hnn]

/-- A request that does not, on the page the rollover ends on. -/
theorem allocate_rollover {offset : Int} {a₁ : PhysicalAllocator} {c₁ : PageFragCache}
    {pid₁ : Nat} (hcur : c.page = some pid) (hpos : 0 < size) (hfit : c.offset < size)
    (hroll : c.rollover a size = .ok (offset, a₁, c₁)) (hcur₁ : c₁.page = some pid₁) :
    c.allocate a size =
      if offset < 0 then .ok (none, a₁, c₁)
      else .ok (some (c₁.carve pid₁ offset size).1, a₁, (c₁.carve pid₁ offset size).2) := by
  have hsize : ¬ size ≤ 0 := by omega
  have hneg : c.offset - size < 0 := by omega
  simp [allocate, hsize, hcur, hneg, hroll, hcur₁]

/-- `allocate` on a cache that has a page. -/
theorem allocate_of_page (hcur : c.page = some pid) (hsize : 0 < size) (h : CurrentOk a c) :
    ∃ r a₁ c₁ pid₁, c.allocate a size = .ok (r, a₁, c₁) ∧ c₁.page = some pid₁ ∧
      ((r = none ∧ Moves (a, c) (a₁, c₁) ∧
          ∃ page₁, a₁.pages.get? pid₁ = some page₁ ∧ page₁.size < size) ∨
       ∃ c₂, Moves (a, c) (a₁, c₂) ∧ c₂.page = some pid₁ ∧ size ≤ c₂.offset ∧
          r = some (c₂.carve pid₁ (c₂.offset - size) size).1 ∧
          c₁ = (c₂.carve pid₁ (c₂.offset - size) size).2) := by
  by_cases hfit : size ≤ c.offset
  · exact ⟨_, a, (c.carve pid (c.offset - size) size).2, pid, allocate_fit hcur hsize hfit,
      hcur, Or.inr ⟨c, .refl, hcur, hfit, rfl, rfl⟩⟩
  · obtain ⟨offset, a₁, c₁, pid₁, page₁, hroll, hcur₁, hget₁, hoff, hneg, hnn⟩ :=
      rollover_moves size h hcur
    have halloc := allocate_rollover hcur hsize (by omega) hroll hcur₁
    by_cases hoff₁ : offset < 0
    · rw [if_pos hoff₁] at halloc
      exact ⟨none, a₁, c₁, pid₁, halloc, hcur₁,
        Or.inl ⟨rfl, hneg hoff₁, page₁, hget₁, by omega⟩⟩
    · rw [if_neg hoff₁, hoff] at halloc
      refine ⟨_, a₁, _, pid₁, halloc, hcur₁,
        Or.inr ⟨{ c₁ with offset := page₁.size }, hnn (by omega), hcur₁, ?_, rfl, rfl⟩⟩
      show size ≤ page₁.size
      omega

/-- `allocate` first refills a cache that has no page. -/
theorem allocate_of_none (hcur : c.page = none) :
    c.allocate a size = (c.refill a).2.allocate (c.refill a).1 size := by
  have hsome : (c.refill a).2.page.isNone = false := rfl
  simp [allocate, hcur, hsome]

/-- **`allocate` as moves.** On a sound cache a positive request never
raises: some moves, and then either the request is carved off the current
page or that page is smaller than the request. -/
theorem allocate_moves (hsize : 0 < size) (h : CurrentOk a c) :
    ∃ r a₁ c₁ pid₁, c.allocate a size = .ok (r, a₁, c₁) ∧ c₁.page = some pid₁ ∧
      ((r = none ∧ Moves (a, c) (a₁, c₁) ∧
          ∃ page₁, a₁.pages.get? pid₁ = some page₁ ∧ page₁.size < size) ∨
       ∃ c₂, Moves (a, c) (a₁, c₂) ∧ c₂.page = some pid₁ ∧ size ≤ c₂.offset ∧
          r = some (c₂.carve pid₁ (c₂.offset - size) size).1 ∧
          c₁ = (c₂.carve pid₁ (c₂.offset - size) size).2) := by
  cases hcur : c.page with
  | some pid => exact allocate_of_page hcur hsize h
  | none =>
    obtain ⟨r, a₁, c₁, pid₁, halloc, hcur₁, hout⟩ :=
      allocate_of_page (c := (c.refill a).2) (a := (c.refill a).1) rfl hsize
        (currentOk_refill c a)
    refine ⟨r, a₁, c₁, pid₁, by rw [allocate_of_none hcur, halloc], hcur₁, ?_⟩
    have hfirst : Moves (a, c) ((c.refill a).1, (c.refill a).2) :=
      .single (.refill hcur)
    rcases hout with ⟨hr, hm, hpage⟩ | ⟨c₂, hm, hcur₂, hfit, hr, hc⟩
    · exact Or.inl ⟨hr, hfirst.trans hm, hpage⟩
    · exact Or.inr ⟨c₂, hfirst.trans hm, hcur₂, hfit, hr, hc⟩

end PageFragCache

end LibWrt.PageFrag
