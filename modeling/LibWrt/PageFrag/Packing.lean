/-
LibWrt.PageFrag.Packing — the fragments of a page fit in it.

`Packed` is the counting side of `Carved`: on every page the sizes of the
live fragments and the offset of the cache it is current in add up to at
most the page. `Handed` is what a request that fits gets: which fragment,
and which pages changed. Both are about one allocator and its caches; the
replay uses them to show that a page's slack is never negative and that it
revalues every page a request touched.
-/
import LibWrt.PageFrag.Ranges

namespace LibWrt.PageFrag

open Dict PageFragCache

/-- The bytes of page `pid` the cache has not carved yet. -/
def PageFragCache.room (c : PageFragCache) (pid : Nat) : Int :=
  if c.page = some pid then c.offset else 0

/-- Bytes of page `pid` taken or still to be taken through cache `c`. -/
def PageFragCache.extent (c : PageFragCache) (pid : Nat) : Int :=
  c.fragSum (·.size) pid + c.room pid

namespace System

variable {ι : Type} [DecidableEq ι]

def extent (s : System ι) (pid : Nat) : Int := s.caches.sum fun _ c => c.extent pid

theorem extent_put {s : System ι} {i : ι} {c : PageFragCache}
    (hc : s.caches.get? i = some c) (a : PhysicalAllocator) (c' : PageFragCache) (pid : Nat) :
    (s.put i a c').extent pid = s.extent pid - c.extent pid + c'.extent pid :=
  sum_set_old hc c' _

end System

/-- What every reachable state satisfies besides `Accounted`. -/
structure Packed {ι : Type} [DecidableEq ι] (s : System ι) : Prop where
  fits : ∀ pid page, s.allocator.pages.get? pid = some page → s.extent pid ≤ page.size
  positive : ∀ i c k f, s.caches.get? i = some c → c.live.get? k = some f → 0 < f.size

variable {ι : Type} [DecidableEq ι] {s : System ι} {i : ι} {c : PageFragCache}

theorem PageFragCache.extent_eq_zero {pid : Nat}
    (hlive : ∀ k f, c.live.get? k = some f → f.pageId ≠ pid) (hcur : c.page ≠ some pid) :
    c.extent pid = 0 := by
  simp [extent, room, hcur, fragSum_eq_zero hlive]

/-- A page without live fragments extends only as far as its cache's room. -/
theorem Accounted.extent_of_current (h : Accounted s) (hc : s.caches.get? i = some c)
    {pid : Nat} (hcur : c.page = some pid)
    (hnone : ∀ j k f, s.LiveAt j k f → f.pageId ≠ pid) : s.extent pid = c.extent pid := by
  have hrest : ((s.caches.del i).sum fun _ c => c.extent pid) = 0 := by
    apply sum_eq_zero
    intro j cj hj
    rw [get?_del] at hj
    split at hj
    · cases hj
    · rename_i hne
      exact extent_eq_zero (fun k f hf => hnone j k f ⟨cj, hj, hf⟩)
        fun hq => hne (h.owner j i cj c pid hj hc hq hcur)
  rw [System.extent, sum_of_get? hc, hrest, add_zero]

theorem Accounted.extent_of_missing (h : Accounted s) {pid : Nat}
    (hpage : s.allocator.pages.get? pid = none) {j : ι} {cj : PageFragCache}
    (hj : s.caches.get? j = some cj) : cj.extent pid = 0 := by
  apply extent_eq_zero
  · intro k f hf heq
    obtain ⟨-, -, page, hp⟩ := h.live j cj k f hj hf
    rw [heq, hpage] at hp
    cases hp
  · intro hq
    obtain ⟨-, -, page, hp, -⟩ := h.current j cj pid hj hq
    rw [hpage] at hp
    cases hp

namespace Packed

/-- Replacing one cache. A page keeps its size and the cache extends no
further over it, or nothing but this cache extends over it at all. -/
theorem put (h : Packed s) (hc : s.caches.get? i = some c) {a' : PhysicalAllocator}
    {c' : PageFragCache}
    (hfits : ∀ q page', a'.pages.get? q = some page' →
      (∃ page, s.allocator.pages.get? q = some page ∧ page'.size = page.size ∧
        c'.extent q ≤ c.extent q) ∨
      (s.extent q = c.extent q ∧ c'.extent q ≤ page'.size))
    (hpos : ∀ k f, c'.live.get? k = some f → 0 < f.size) : Packed (s.put i a' c') where
  fits := fun q page' hq => by
    rw [System.extent_put hc]
    cases hfits q page' hq with
    | inl hold =>
      obtain ⟨page, hpage, hsize, hle⟩ := hold
      have := h.fits q page hpage
      omega
    | inr hnew => omega
  positive := fun j cj k f hj hf => by
    cases System.put_cases hj with
    | inl heq => exact hpos k f (heq.2 ▸ hf)
    | inr hold => exact h.positive j cj k f hold.2 hf

/-- Pages that keep their sizes, and a cache that extends no further. -/
theorem put_le (h : Packed s) (hc : s.caches.get? i = some c) {a' : PhysicalAllocator}
    {c' : PageFragCache}
    (hpages : ∀ q page', a'.pages.get? q = some page' →
      ∃ page, s.allocator.pages.get? q = some page ∧ page'.size = page.size)
    (hle : ∀ q, c'.extent q ≤ c.extent q)
    (hpos : ∀ k f, c'.live.get? k = some f → 0 < f.size) : Packed (s.put i a' c') :=
  h.put hc (fun q page' hq => by
    obtain ⟨page, hpage, hsize⟩ := hpages q page' hq
    exact Or.inl ⟨page, hpage, hsize, hle q⟩) hpos

theorem set_size {pages : Dict Nat Page} {pid q : Nat} {page new page' : Page}
    (hq : (pages.set pid new).get? q = some page')
    (hpage : pages.get? pid = some page) (hsize : new.size = page.size) :
    ∃ page, pages.get? q = some page ∧ page'.size = page.size := by
  rw [get?_set] at hq
  split at hq
  · rename_i heq
    cases hq
    exact ⟨page, heq ▸ hpage, hsize⟩
  · exact ⟨page', hq, rfl⟩

theorem dropRefs_pages {a : PhysicalAllocator} {pid : Nat} {page : Page} {n : Int}
    (hpage : a.pages.get? pid = some page) (q : Nat) (page' : Page)
    (hq : (a.dropRefs pid page n).pages.get? q = some page') :
    ∃ page, a.pages.get? q = some page ∧ page'.size = page.size := by
  unfold PhysicalAllocator.dropRefs at hq
  split at hq
  · exact set_size hq hpage rfl
  · exact set_size hq hpage rfl

/-- Every change keeps the pages packed. -/
theorem micro (h : Packed s) (hacc : Accounted s) {s' : System ι}
    (hm : System.Micro s s') : Packed s' := by
  cases hm with
  | create i =>
    unfold System.create
    split
    · exact h
    · rename_i hi
      refine ⟨fun q page hq => ?_, fun j cj k f hj hf => ?_⟩
      · have hsum : ({ s with caches := s.caches.set i {} } : System ι).extent q
            = ({} : PageFragCache).extent q + s.extent q := sum_set_new hi _ _
        rw [hsum]
        simpa [PageFragCache.extent, fragSum, PageFragCache.room]
          using h.fits q page hq
      · rw [get?_set] at hj
        split at hj
        · cases hj
          simp at hf
        · exact h.positive j cj k f hj hf
  | keep hc =>
    exact h.put_le hc (fun q page hq => ⟨page, hq, rfl⟩) (fun _ => le_refl _)
      (h.positive _ _ · · hc)
  | @move i c p hc hm =>
    have hpos : ∀ k f, c.live.get? k = some f → 0 < f.size := (h.positive _ _ · · hc)
    cases hm with
    | refill hcur =>
      rw [PageFragCache.refill_eq]
      refine h.put hc (fun q page' hq => ?_) hpos
      rw [get?_set] at hq
      split at hq
      · -- the new page: nothing extends over it yet
        rename_i heq
        subst heq
        cases hq
        have hzero : s.extent s.allocator.nextPageId = 0 :=
          sum_eq_zero fun _ _ hj => hacc.extent_of_missing hacc.fresh_page hj
        have hfrag := hacc.extent_of_missing hacc.fresh_page hc
        refine Or.inr ⟨by omega, ?_⟩
        simp only [PageFragCache.extent, PageFragCache.room, hcur, fragSum,
          if_true] at hfrag ⊢
        simp at hfrag
        omega
      · rename_i hne
        refine Or.inl ⟨page', hq, rfl, le_of_eq ?_⟩
        have hne' : ¬ s.allocator.nextPageId = q := fun heq => hne heq.symm
        simp [PageFragCache.extent, PageFragCache.room, hcur, fragSum, hne']
    | @release _ _ pid page hcur hpage =>
      refine h.put_le hc (dropRefs_pages hpage) (fun q => ?_) hpos
      show c.fragSum _ q + 0 ≤ c.fragSum _ q + c.room q
      have hroom : 0 ≤ c.room q := by
        unfold PageFragCache.room
        split
        · exact (hacc.current _ c q hc ‹_›).1
        · exact le_refl 0
      omega
    | @reuse _ _ pid page offset hcur hpage hbias hoff =>
      refine h.put hc (fun q page' hq => ?_) hpos
      rw [get?_set] at hq
      split at hq
      · -- the page is taken again: it has no live fragment
        rename_i heq
        subst heq
        cases hq
        have hnone := hacc.no_live hc hcur hpage hbias
        refine Or.inr ⟨hacc.extent_of_current hc hcur hnone, ?_⟩
        have hzero : c.fragSum (·.size) q = 0 :=
          PageFragCache.fragSum_eq_zero fun k f hf => hnone _ k f ⟨c, hc, hf⟩
        obtain ⟨-, -, page₁, hpage₁, hle, -⟩ := hacc.current _ c q hc hcur
        rw [hpage] at hpage₁
        cases hpage₁
        show c.fragSum _ q + (if c.page = some q then offset else 0) ≤ page.size
        rw [hzero, if_pos hcur]
        cases hoff <;> omega
      · rename_i hne
        refine Or.inl ⟨page', hq, rfl, le_of_eq ?_⟩
        have hne' : ¬ pid = q := fun heq => hne heq.symm
        simp [PageFragCache.extent, PageFragCache.room, reused, hcur, hne',
          fragSum]
  | @carve i c pid size hc hcur hsize hfit =>
    refine h.put_le hc (fun q page hq => ⟨page, hq, rfl⟩) (fun q => ?_) fun k f hf => ?_
    · rw [PageFragCache.extent, fragSum_carve (hacc.fresh_fragment hc)]
      show (if pid = q then size else 0) + _ + (if c.page = some q then c.offset - size else 0)
        ≤ _ + (if c.page = some q then c.offset else 0)
      rw [hcur]
      by_cases hq : pid = q
      · simp [hq]
        omega
      · simp [hq]
    · simp only [PageFragCache.carve, get?_set] at hf
      split at hf
      · cases hf
        exact hsize
      · exact h.positive _ c k f hc hf
  | @free i c k f page hc hf hpage hlive =>
    refine h.put_le hc (dropRefs_pages hpage) (fun q => ?_) fun k' g hg => ?_
    · have hpos := h.positive _ c k f hc hf
      rw [PageFragCache.extent, fragSum_del hf]
      show _ - _ + c.room q ≤ _ + c.room q
      split <;> omega
    · rw [get?_del] at hg
      split at hg
      · cases hg
      · exact h.positive _ c k' g hc hg

theorem micros (h : Packed s) (hacc : Accounted s) {s' : System ι}
    (hm : Relation.ReflTransGen System.Micro s s') : Packed s' := by
  induction hm with
  | refl => exact h
  | tail hprev hlast ih => exact ih.micro (hacc.micros hprev) hlast

end Packed

/-! ## What a request that fits gets -/

/-- The result of a request of `size` on cache `c`: fragment `f`, carved off
the page that is current afterwards. That page is the one current before
or a new one; besides it only the page current before can have changed, and
only in its count. -/
structure Handed (a : PhysicalAllocator) (c : PageFragCache) (size : Int) (f : Fragment)
    (a' : PhysicalAllocator) (c' : PageFragCache) : Prop where
  allocate : c.allocate a size = .ok (some f, a', c')
  page : c'.page = some f.pageId
  size : f.size = size
  fragmentId : f.fragmentId = c.nextFragmentId
  live : c'.live = c.live.set f.fragmentId f
  same : ∀ q, c.page ≠ some q → q ≠ f.pageId → a'.pages.get? q = a.pages.get? q
  old : ∀ q p, c.page = some q → a.pages.get? q = some p → ∃ n freed,
    a'.pages.get? q = some { p with refcount := n, freed := freed } ∧
      (q = f.pageId → freed = p.freed)
  fresh : c.page ≠ some f.pageId → a.pages.get? f.pageId = none ∧
    a'.pages.get? f.pageId = some a.refillPage
  settings : a'.fallbackRefills = a.fallbackRefills ∧
    a'.pfmemallocRefills = a.pfmemallocRefills

namespace PageFragCache

variable {a : PhysicalAllocator} {pid : Nat} {page : Page} {size : Int}

theorem refillPage_dropRefs (pid : Nat) (page : Page) (n : Int) :
    (a.dropRefs pid page n).refillPage = a.refillPage ∧
      (a.dropRefs pid page n).nextPageId = a.nextPageId ∧
      (a.dropRefs pid page n).fallbackRefills = a.fallbackRefills ∧
      (a.dropRefs pid page n).pfmemallocRefills = a.pfmemallocRefills := by
  unfold PhysicalAllocator.dropRefs PhysicalAllocator.refillPage
  split <;> exact ⟨rfl, rfl, rfl, rfl⟩

theorem dropRefs_get? (pid : Nat) (n : Int) (hlive : page.freed = false) :
    (∃ freed, (a.dropRefs pid page n).pages.get? pid
      = some { page with refcount := page.refcount - n, freed := freed }) ∧
    ∀ q, q ≠ pid → (a.dropRefs pid page n).pages.get? q = a.pages.get? q := by
  unfold PhysicalAllocator.dropRefs
  split
  · exact ⟨⟨true, get?_set_self _ _ _⟩, fun q hq => get?_set_ne _ hq _⟩
  · refine ⟨⟨false, ?_⟩, fun q hq => get?_set_ne _ hq _⟩
    rw [get?_set_self, ← hlive]

/-- A fragment carved by a cache `c₂` that differs from `c` in its page only. -/
theorem handed_of_carve {a' : PhysicalAllocator} {c₂ : PageFragCache} {offset : Int}
    (halloc : c.allocate a size = .ok (some (c₂.carve pid offset size).1, a',
      (c₂.carve pid offset size).2))
    (hcur₂ : c₂.page = some pid) (hlive : c₂.live = c.live)
    (hid : c₂.nextFragmentId = c.nextFragmentId)
    (hsame : ∀ q, c.page ≠ some q → q ≠ pid → a'.pages.get? q = a.pages.get? q)
    (hold : ∀ q p, c.page = some q → a.pages.get? q = some p → ∃ n freed,
      a'.pages.get? q = some { p with refcount := n, freed := freed } ∧
        (q = pid → freed = p.freed))
    (hfresh : c.page ≠ some pid → a.pages.get? pid = none ∧
      a'.pages.get? pid = some a.refillPage)
    (hset : a'.fallbackRefills = a.fallbackRefills ∧
      a'.pfmemallocRefills = a.pfmemallocRefills) :
    Handed a c size (c₂.carve pid offset size).1 a' (c₂.carve pid offset size).2 where
  allocate := halloc
  page := hcur₂
  size := rfl
  fragmentId := hid
  live := by rw [← hlive]; rfl
  same := hsame
  old := hold
  fresh := hfresh
  settings := hset

theorem refill_pages (c : PageFragCache) (a : PhysicalAllocator) :
    (c.refill a).1.pages = a.pages.set a.nextPageId a.refillPage := by
  rw [refill_eq]

/-- A fragment carved right after a refill, from an allocator `a₁` that
differs from `a` in the old page's count only. -/
theorem handed_of_refill {a₁ : PhysicalAllocator} {offset : Int}
    (halloc : c.allocate a size =
      .ok (some ((c.refill a₁).2.carve a.nextPageId offset size).1, (c.refill a₁).1,
        ((c.refill a₁).2.carve a.nextPageId offset size).2))
    (hrefill : a₁.refillPage = a.refillPage) (hnext : a₁.nextPageId = a.nextPageId)
    (hset : a₁.fallbackRefills = a.fallbackRefills ∧
      a₁.pfmemallocRefills = a.pfmemallocRefills)
    (hnew : a.pages.get? a.nextPageId = none)
    (hsame : ∀ q, c.page ≠ some q → a₁.pages.get? q = a.pages.get? q)
    (hold : ∀ q p, c.page = some q → a.pages.get? q = some p → ∃ n freed,
      a₁.pages.get? q = some { p with refcount := n, freed := freed }) :
    ∃ f a' c', Handed a c size f a' c' := by
  have hpages : ∀ q, (c.refill a₁).1.pages.get? q
      = if q = a.nextPageId then some a.refillPage else a₁.pages.get? q := by
    intro q
    rw [refill_pages, get?_set, hnext, hrefill]
  have hcur : (c.refill a₁).2.page = some a.nextPageId := by rw [refill_eq, hnext]
  refine ⟨_, _, _, handed_of_carve halloc hcur (by rw [refill_eq]) (by rw [refill_eq])
    (fun q hq hqn => ?_) (fun q p hq hp => ?_) (fun _ => ⟨hnew, ?_⟩) ?_⟩
  · rw [hpages, if_neg hqn, hsame q hq]
  · have hne : q ≠ a.nextPageId := by
      rintro rfl
      rw [hp] at hnew
      cases hnew
    obtain ⟨n, freed, hget⟩ := hold q p hq hp
    exact ⟨n, freed, by rw [hpages, if_neg hne, hget], fun heq => absurd heq hne⟩
  · rw [hpages, if_pos rfl]
  · rw [refill_eq]
    exact hset

theorem handed_of_none (hcur : c.page = none) (hpos : 0 < size)
    (hfit : size ≤ a.refillPage.size) (hnew : a.pages.get? a.nextPageId = none) :
    ∃ f a' c', Handed a c size f a' c' := by
  have hcur' : (c.refill a).2.page = some a.nextPageId := rfl
  have halloc : (c.refill a).2.allocate (c.refill a).1 size = _ :=
    allocate_fit hcur' hpos hfit
  rw [← allocate_of_none hcur] at halloc
  refine handed_of_refill halloc rfl rfl ⟨rfl, rfl⟩ hnew (fun _ _ => rfl) fun q p hq _ => ?_
  rw [hcur] at hq
  cases hq

/-- On a cache whose page is full the fragment comes off the next page, or
off the same one if nothing else holds it. -/
theorem handed_of_rollover (hcur : c.page = some pid) (h : CurrentOk a c) (hpos : 0 < size)
    (hfull : c.offset < size) (hfit : size ≤ a.refillPage.size)
    (hpage : a.pages.get? pid = some page) (hcurfit : size ≤ page.size)
    (hnew : a.pages.get? a.nextPageId = none) :
    ∃ f a' c', Handed a c size f a' c' := by
  obtain ⟨page₁, hget, hlive, hbias, hpf⟩ := h pid hcur
  rw [hpage] at hget
  cases hget
  by_cases hleave : page.refcount ≠ c.pagecntBias ∨ c.pfmemalloc = true
  · -- the page is given up and a new one taken
    obtain ⟨hrefill, hnext, hset⟩ :=
      refillPage_dropRefs (a := a) pid page c.pagecntBias
    obtain ⟨⟨freed, hold⟩, hother⟩ := dropRefs_get? (a := a) pid c.pagecntBias hlive
    have hcur₁ : (c.refill (a.dropRefs pid page c.pagecntBias)).2.page
        = some a.nextPageId := by rw [refill_eq, hnext]
    have halloc := allocate_rollover hcur hpos hfull
      (rollover_fresh hcur hpage hlive hbias hleave) hcur₁
    have hoff : (c.refill (a.dropRefs pid page c.pagecntBias)).2.offset
        = a.refillPage.size := by rw [refill_eq, hrefill]
    rw [if_neg (by omega)] at halloc
    refine handed_of_refill halloc hrefill hnext hset hnew (fun q hq => ?_) fun q p hq hp => ?_
    · apply hother
      rintro rfl
      exact hq hcur
    · rw [hcur] at hq
      cases hq
      rw [hpage] at hp
      cases hp
      exact ⟨_, freed, hold⟩
  · -- nothing else holds the page: it is taken again
    obtain ⟨href, hpf'⟩ := not_or.mp hleave
    have hcur₁ : (c.reused c.offset).page = some pid := hcur
    have halloc := allocate_rollover hcur hpos hfull
      (rollover_reuse hcur hpage (not_not.mp href) (by simpa using hpf')) hcur₁
    rw [if_neg (by omega)] at halloc
    refine ⟨_, _, _, handed_of_carve halloc hcur₁ rfl rfl (fun q _ hq => ?_)
      (fun q p hq hp => ?_) (fun hq => absurd hcur hq) ⟨rfl, rfl⟩⟩
    · exact get?_set_ne _ hq _
    · rw [hcur] at hq
      cases hq
      rw [hpage] at hp
      cases hp
      exact ⟨pageFragCacheBias, page.freed, get?_set_self _ _ _, fun _ => rfl⟩

/-- **A request that fits is served**: on a sound cache whose page and next
page can hold it. -/
theorem handed (h : CurrentOk a c) (hpos : 0 < size) (hfit : size ≤ a.refillPage.size)
    (hcurfit : ∀ pid page, c.page = some pid → a.pages.get? pid = some page → size ≤ page.size)
    (hnew : a.pages.get? a.nextPageId = none) : ∃ f a' c', Handed a c size f a' c' := by
  cases hcur : c.page with
  | none => exact handed_of_none hcur hpos hfit hnew
  | some pid =>
    obtain ⟨page, hpage, -⟩ := h pid hcur
    by_cases hfull : size ≤ c.offset
    · have halloc := allocate_fit (a := a) hcur hpos hfull
      refine ⟨_, _, _, handed_of_carve halloc hcur rfl rfl (fun _ _ _ => rfl) ?_ ?_ ⟨rfl, rfl⟩⟩
      · intro q p _ hp
        exact ⟨p.refcount, p.freed, hp, fun _ => rfl⟩
      · exact fun hq => absurd hcur hq
    · exact handed_of_rollover hcur h hpos (by omega) hfit hpage (hcurfit pid page hcur hpage)
        hnew

end PageFragCache

end LibWrt.PageFrag
