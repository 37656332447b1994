/-
LibWrt.PageFrag.Conservation — reference conservation.

`Accounted` is the invariant: each page's `refcount` is the number of live
fragments on it plus the bias of the cache it is current in, a page is
freed exactly at zero, and a current page's bias stays above its offset.
The last part is what keeps the bias positive: a request takes at least one
byte off the offset and exactly one off the bias, and every refill and
reuse starts with `bias > size`.

`Accounted.exchange` is the one accounting argument, for a cache and a page
that change together. The moves are its instances.
-/
import LibWrt.PageFrag.System
import Mathlib.Data.Finset.Card

namespace LibWrt.PageFrag

open Option Dict PageFragCache PhysicalAllocator LibWrt.PageFrag.System

/-! ## Counting references -/

/-- The sum of `w` over the live fragments of `c` on page `pid`. -/
def PageFragCache.fragSum (c : PageFragCache) (w : Fragment → Int) (pid : Nat) : Int :=
  c.live.sum fun _ f => if f.pageId = pid then w f else 0

/-- The cache's own references to page `pid`. -/
def PageFragCache.biasOn (c : PageFragCache) (pid : Nat) : Int :=
  if c.page = some pid then c.pagecntBias else 0

/-- All references cache `c` accounts for on page `pid`. -/
def PageFragCache.refsOn (c : PageFragCache) (pid : Nat) : Int :=
  c.fragSum (fun _ => 1) pid + c.biasOn pid

namespace System

variable {ι : Type} [DecidableEq ι]

/-- The sum of `w` over the live fragments on page `pid`, over all caches. -/
def fragSum (s : System ι) (w : Fragment → Int) (pid : Nat) : Int :=
  s.caches.sum fun _ c => c.fragSum w pid

/-- The number of live fragments on page `pid`. -/
def liveFragments (s : System ι) (pid : Nat) : Int :=
  s.fragSum (fun _ => 1) pid

def refsOn (s : System ι) (pid : Nat) : Int :=
  s.caches.sum fun _ c => c.refsOn pid

/-- The bias of the cache page `pid` is current in, 0 if there is none. -/
def currentBias (s : System ι) (pid : Nat) : Int :=
  match s.caches.entries.find? fun e => e.2.page = some pid with
  | some e => e.2.pagecntBias
  | none => 0

end System

namespace PageFragCache

variable {c : PageFragCache} {pid : Nat} {w : Fragment → Int}

theorem fragSum_nonneg (hw : ∀ k f, c.live.get? k = some f → 0 ≤ w f) :
    0 ≤ c.fragSum w pid := by
  apply sum_nonneg
  intro k f hf
  split
  · exact hw k f hf
  · exact le_refl 0

theorem fragSum_del {k : Nat} {f : Fragment} (hf : c.live.get? k = some f) :
    ({ c with live := c.live.del k } : PageFragCache).fragSum w pid
      = c.fragSum w pid - if f.pageId = pid then w f else 0 :=
  sum_del hf _

theorem fragSum_carve {q : Nat} {offset size : Int}
    (hfresh : c.live.get? c.nextFragmentId = none) :
    (c.carve q offset size).2.fragSum w pid
      = (if q = pid then w (c.carve q offset size).1 else 0) + c.fragSum w pid :=
  sum_set_new hfresh _ _

theorem fragSum_eq_zero (h : ∀ k f, c.live.get? k = some f → f.pageId ≠ pid) :
    c.fragSum w pid = 0 :=
  sum_eq_zero fun k f hf => if_neg (h k f hf)

end PageFragCache

namespace System

variable {ι : Type} [DecidableEq ι] {s : System ι} {i : ι} {c : PageFragCache}

theorem fragSum_put (hc : s.caches.get? i = some c) (a : PhysicalAllocator)
    (c' : PageFragCache) (w : Fragment → Int) (pid : Nat) :
    (s.put i a c').fragSum w pid = s.fragSum w pid - c.fragSum w pid + c'.fragSum w pid :=
  sum_set_old hc c' _

theorem refsOn_put (hc : s.caches.get? i = some c) (a : PhysicalAllocator)
    (c' : PageFragCache) (pid : Nat) :
    (s.put i a c').refsOn pid = s.refsOn pid - c.refsOn pid + c'.refsOn pid :=
  sum_set_old hc c' _

end System

/-! ## The invariant -/

structure Accounted {ι : Type} [DecidableEq ι] (s : System ι) : Prop where
  page_id : ∀ pid page, s.allocator.pages.get? pid = some page →
    page.pageId = pid ∧ 0 < pid ∧ pid < s.allocator.nextPageId
  page_size : ∀ pid page, s.allocator.pages.get? pid = some page →
    0 < page.size ∧ page.size ≤ pageFragCacheMaxSize
  refcount : ∀ pid page, s.allocator.pages.get? pid = some page →
    page.refcount = s.refsOn pid
  freed_iff : ∀ pid page, s.allocator.pages.get? pid = some page →
    (page.freed = true ↔ page.refcount = 0)
  frees : (s.allocator.frees : Int)
    = s.allocator.pages.sum fun _ page => if page.freed then 1 else 0
  next_pos : 0 < s.allocator.nextPageId
  current : ∀ i c pid, s.caches.get? i = some c → c.page = some pid →
    0 ≤ c.offset ∧ c.offset + 1 ≤ c.pagecntBias ∧
    ∃ page, s.allocator.pages.get? pid = some page ∧ c.offset ≤ page.size ∧
      c.pfmemalloc = page.pfmemalloc
  owner : ∀ i j ci cj pid, s.caches.get? i = some ci → s.caches.get? j = some cj →
    ci.page = some pid → cj.page = some pid → i = j
  live : ∀ i c k f, s.caches.get? i = some c → c.live.get? k = some f →
    f.fragmentId = k ∧ k < c.nextFragmentId ∧
    ∃ page, s.allocator.pages.get? f.pageId = some page

namespace Accounted

variable {ι : Type} [DecidableEq ι] {s : System ι} {i : ι} {c : PageFragCache}
  {pid : Nat} {page : Page}

/-! ## Consequences -/

theorem biasOn_nonneg (h : Accounted s) (hc : s.caches.get? i = some c) (pid : Nat) :
    0 ≤ c.biasOn pid := by
  unfold biasOn
  split
  · rename_i hcur
    have := h.current i c pid hc hcur
    omega
  · exact le_refl 0

theorem fragSum_nonneg (c : PageFragCache) (pid : Nat) :
    0 ≤ c.fragSum (fun _ => 1) pid :=
  PageFragCache.fragSum_nonneg fun _ _ _ => by omega

section

variable (h : Accounted s)

include h

theorem refsOn_nonneg (hc : s.caches.get? i = some c) (pid : Nat) :
    0 ≤ c.refsOn pid := by
  have h₁ := h.biasOn_nonneg hc pid
  have h₂ := fragSum_nonneg c pid
  unfold PageFragCache.refsOn
  omega

theorem refsOn_le (hc : s.caches.get? i = some c)
    (hpage : s.allocator.pages.get? pid = some page) : c.refsOn pid ≤ page.refcount := by
  rw [h.refcount pid page hpage]
  exact le_sum hc fun j cj hj => h.refsOn_nonneg hj pid

theorem not_freed (hpage : s.allocator.pages.get? pid = some page)
    (hpos : 0 < page.refcount) : page.freed = false := by
  cases hfreed : page.freed with
  | false => rfl
  | true =>
    have := (h.freed_iff pid page hpage).mp hfreed
    omega

section

variable (hc : s.caches.get? i = some c)

include hc

/-- The current page of a cache is alive and covers the cache's bias. -/
theorem current_page (hcur : c.page = some pid) :
    ∃ page, s.allocator.pages.get? pid = some page ∧ page.freed = false ∧
      c.pagecntBias ≤ page.refcount ∧ c.pfmemalloc = page.pfmemalloc := by
  obtain ⟨hoff, hbias, page, hpage, -, hpf⟩ := h.current i c pid hc hcur
  have hle := h.refsOn_le hc hpage
  have hfrag := fragSum_nonneg c pid
  have hown : c.biasOn pid = c.pagecntBias := if_pos hcur
  unfold PageFragCache.refsOn at hle
  exact ⟨page, hpage, h.not_freed hpage (by omega), by omega, hpf⟩

theorem currentOk :
    CurrentOk s.allocator c :=
  fun _ hcur => h.current_page hc hcur

/-- A live fragment's page is alive. -/
theorem live_page {k : Nat} {f : Fragment}
    (hf : c.live.get? k = some f) :
    ∃ page, s.allocator.pages.get? f.pageId = some page ∧ page.freed = false ∧
      1 ≤ page.refcount := by
  obtain ⟨-, -, page, hpage⟩ := h.live i c k f hc hf
  have hle := h.refsOn_le hc hpage
  have hbias := h.biasOn_nonneg hc f.pageId
  have hone : (1 : Int) ≤ c.fragSum (fun _ => 1) f.pageId := by
    have := le_sum (f := fun _ g => if g.pageId = f.pageId then (1 : Int) else 0) hf
      (fun _ _ _ => by split <;> omega)
    simpa [PageFragCache.fragSum] using this
  unfold PageFragCache.refsOn at hle
  exact ⟨page, hpage, h.not_freed hpage (by omega), by omega⟩

theorem fresh_fragment :
    c.live.get? c.nextFragmentId = none := by
  cases hf : c.live.get? c.nextFragmentId with
  | none => rfl
  | some f =>
    have := (h.live i c _ f hc hf).2.1
    omega

end

theorem fresh_page :
    s.allocator.pages.get? s.allocator.nextPageId = none := by
  cases hp : s.allocator.pages.get? s.allocator.nextPageId with
  | none => rfl
  | some page =>
    have := (h.page_id _ page hp).2.2
    omega

/-- A page is current in at most one cache, so that cache's bias is all the
bias held on it. -/
theorem sum_biasOn_of_current (hc : s.caches.get? i = some c)
    (hcur : c.page = some pid) : (s.caches.sum fun _ c => c.biasOn pid) = c.pagecntBias := by
  have hrest : ((s.caches.del i).sum fun _ c => c.biasOn pid) = 0 := by
    apply sum_eq_zero
    intro j cj hj
    rw [get?_del] at hj
    split at hj
    · cases hj
    · rename_i hne
      exact if_neg fun hq => hne (h.owner j i cj c pid hj hc hq hcur)
  rw [sum_of_get? hc, hrest]
  simp [biasOn, hcur]

theorem sum_biasOn (pid : Nat) :
    (s.caches.sum fun _ c => c.biasOn pid) = s.currentBias pid := by
  unfold System.currentBias
  cases hfind : s.caches.entries.find? fun e => e.2.page = some pid with
  | none =>
    apply sum_eq_zero
    intro j cj hj
    have hmem := (mem_entries_iff _ _ _).mpr hj
    have := List.find?_eq_none.mp hfind _ hmem
    exact if_neg (by simpa using this)
  | some e =>
    have hcur : e.2.page = some pid := by
      have := List.find?_some hfind
      simpa using this
    have hget : s.caches.get? e.1 = some e.2 :=
      (mem_entries_iff _ _ _).mp (List.mem_of_find?_eq_some hfind)
    exact h.sum_biasOn_of_current hget hcur

theorem refcount_eq (hpage : s.allocator.pages.get? pid = some page) :
    page.refcount = s.liveFragments pid + s.currentBias pid := by
  rw [h.refcount pid page hpage, ← h.sum_biasOn pid]
  exact sum_add _ _ _

end

/-! ## One page and one cache change -/

/-- The accounting argument. Page `pid` and cache `i` change together; the
page's count moves by exactly what the cache's references to it move, and
the cache keeps at most the page and the fragments it had. -/
theorem exchange (h : Accounted s) (hc : s.caches.get? i = some c)
    (hpage : s.allocator.pages.get? pid = some page)
    {a' : PhysicalAllocator} {page' : Page} {c' : PageFragCache}
    (hpages : a'.pages = s.allocator.pages.set pid page')
    (hnext : a'.nextPageId = s.allocator.nextPageId)
    (hid : page'.pageId = page.pageId) (hsize : page'.size = page.size)
    (hpf : page'.pfmemalloc = page.pfmemalloc)
    (href : page'.refcount = page.refcount - c.refsOn pid + c'.refsOn pid)
    (hother : ∀ q, q ≠ pid → c'.refsOn q = c.refsOn q)
    (hfreed : page'.freed = true ↔ page'.refcount = 0)
    (hfrees : (a'.frees : Int) = s.allocator.frees
      - (if page.freed then 1 else 0) + (if page'.freed then 1 else 0))
    (hcur : ∀ q, c'.page = some q → c.page = some q ∧ 0 ≤ c'.offset ∧
      c'.offset + 1 ≤ c'.pagecntBias ∧ c'.pfmemalloc = c.pfmemalloc ∧
      ∀ page₁, s.allocator.pages.get? q = some page₁ → c'.offset ≤ page₁.size)
    (hlive : ∀ k f, c'.live.get? k = some f → c.live.get? k = some f)
    (hfrag : c'.nextFragmentId = c.nextFragmentId) :
    Accounted (s.put i a' c') := by
  have hget : ∀ q page₁, a'.pages.get? q = some page₁ →
      (q = pid ∧ page₁ = page') ∨ (q ≠ pid ∧ s.allocator.pages.get? q = some page₁) := by
    intro q page₁ hq
    rw [hpages, get?_set] at hq
    split at hq
    · exact Or.inl ⟨‹_›, (some.inj hq).symm⟩
    · exact Or.inr ⟨‹_›, hq⟩
  have hkeep : ∀ q page₁, s.allocator.pages.get? q = some page₁ →
      ∃ page₂, a'.pages.get? q = some page₂ ∧ page₂.size = page₁.size ∧
        page₂.pfmemalloc = page₁.pfmemalloc := by
    intro q page₁ hq
    rw [hpages, get?_set]
    split
    · rename_i heq
      subst heq
      rw [hpage] at hq
      cases hq
      exact ⟨page', rfl, hsize, hpf⟩
    · exact ⟨page₁, hq, rfl, rfl⟩
  constructor
  case page_id =>
    intro q page₁ hq
    rw [put_allocator, hnext]
    rcases hget q page₁ hq with ⟨rfl, rfl⟩ | ⟨-, hq⟩
    · rw [hid]
      exact h.page_id _ _ hpage
    · exact h.page_id _ _ hq
  case page_size =>
    intro q page₁ hq
    rcases hget q page₁ hq with ⟨rfl, rfl⟩ | ⟨-, hq⟩
    · rw [hsize]
      exact h.page_size _ _ hpage
    · exact h.page_size _ _ hq
  case refcount =>
    intro q page₁ hq
    rw [System.refsOn_put hc]
    rcases hget q page₁ hq with ⟨rfl, rfl⟩ | ⟨hne, hq⟩
    · rw [href, h.refcount _ _ hpage]
    · rw [h.refcount _ _ hq, hother q hne]
      omega
  case freed_iff =>
    intro q page₁ hq
    rcases hget q page₁ hq with ⟨rfl, rfl⟩ | ⟨-, hq⟩
    · exact hfreed
    · exact h.freed_iff _ _ hq
  case frees =>
    rw [put_allocator, hpages, sum_set_old hpage, ← h.frees, hfrees]
  case next_pos =>
    rw [put_allocator, hnext]
    exact h.next_pos
  case current =>
    intro j cj q hj hq
    rcases put_cases hj with ⟨rfl, rfl⟩ | ⟨-, hj⟩
    · obtain ⟨hcq, hoff, hbias, hcpf, hle⟩ := hcur q hq
      obtain ⟨-, -, page₁, hq₁, -, hpf₁⟩ := h.current _ c q hc hcq
      obtain ⟨page₂, hq₂, hs₂, hpf₂⟩ := hkeep q page₁ hq₁
      exact ⟨hoff, hbias, page₂, hq₂, by rw [hs₂]; exact hle page₁ hq₁, by rw [hcpf, hpf₁, hpf₂]⟩
    · obtain ⟨hoff, hbias, page₁, hq₁, hle, hpf₁⟩ := h.current j cj q hj hq
      obtain ⟨page₂, hq₂, hs₂, hpf₂⟩ := hkeep q page₁ hq₁
      exact ⟨hoff, hbias, page₂, hq₂, by rw [hs₂]; exact hle, by rw [hpf₂]; exact hpf₁⟩
  case owner =>
    intro j k cj ck q hj hk hjq hkq
    rcases put_cases hj with ⟨rfl, rfl⟩ | ⟨-, hj₁⟩ <;>
      rcases put_cases hk with ⟨rfl, rfl⟩ | ⟨-, hk₁⟩
    · rfl
    · exact h.owner _ _ c ck q hc hk₁ (hcur q hjq).1 hkq
    · exact h.owner _ _ cj c q hj₁ hc hjq (hcur q hkq).1
    · exact h.owner _ _ cj ck q hj₁ hk₁ hjq hkq
  case live =>
    intro j cj k f hj hf
    have hold : ∃ c₁, s.caches.get? j = some c₁ ∧ c₁.live.get? k = some f ∧
        c₁.nextFragmentId = cj.nextFragmentId := by
      rcases put_cases hj with ⟨rfl, rfl⟩ | ⟨-, hj⟩
      · exact ⟨c, hc, hlive k f hf, hfrag.symm⟩
      · exact ⟨cj, hj, hf, rfl⟩
    obtain ⟨c₁, hj₁, hf₁, hn₁⟩ := hold
    obtain ⟨hk, hlt, page₁, hq₁⟩ := h.live j c₁ k f hj₁ hf₁
    obtain ⟨page₂, hq₂, -, -⟩ := hkeep _ page₁ hq₁
    exact ⟨hk, by omega, page₂, hq₂⟩

theorem put_self (h : Accounted s) (hc : s.caches.get? i = some c) :
    Accounted (s.put i s.allocator c) := by
  have hcaches : ∀ j, (s.put i s.allocator c).caches.get? j = s.caches.get? j := by
    intro j
    rw [System.put, get?_set]
    split
    · rename_i heq
      rw [heq, hc]
    · rfl
  constructor
  case page_id => exact h.page_id
  case page_size => exact h.page_size
  case refcount =>
    intro q page₁ hq
    rw [System.refsOn_put hc, h.refcount q page₁ hq]
    omega
  case freed_iff => exact h.freed_iff
  case frees => exact h.frees
  case next_pos => exact h.next_pos
  case current => exact fun j cj q hj => h.current j cj q (hcaches j ▸ hj)
  case owner => exact fun j k cj ck q hj hk => h.owner j k cj ck q (hcaches j ▸ hj) (hcaches k ▸ hk)
  case live => exact fun j cj k f hj => h.live j cj k f (hcaches j ▸ hj)

/-! ## The moves -/

section

variable (h : Accounted s)

include h

section

variable (hc : s.caches.get? i = some c)

include hc

theorem dropRefs_exchange (hpage : s.allocator.pages.get? pid = some page) (hlive : page.freed = false)
    {n : Int} {c' : PageFragCache}
    (href : c'.refsOn pid = c.refsOn pid - n)
    (hother : ∀ q, q ≠ pid → c'.refsOn q = c.refsOn q)
    (hcur : ∀ q, c'.page = some q → c.page = some q ∧ 0 ≤ c'.offset ∧
      c'.offset + 1 ≤ c'.pagecntBias ∧ c'.pfmemalloc = c.pfmemalloc ∧
      ∀ page₁, s.allocator.pages.get? q = some page₁ → c'.offset ≤ page₁.size)
    (hsub : ∀ k f, c'.live.get? k = some f → c.live.get? k = some f)
    (hfrag : c'.nextFragmentId = c.nextFragmentId) :
    Accounted (s.put i (s.allocator.dropRefs pid page n) c') := by
  by_cases hzero : page.refcount - n = 0
  · rw [dropRefs, if_pos hzero]
    refine h.exchange hc hpage rfl rfl rfl rfl rfl ?_ hother ?_ ?_ hcur hsub hfrag
    · show page.refcount - n = _
      omega
    · simp [hzero]
    · simp [hlive]
  · rw [dropRefs, if_neg hzero]
    refine h.exchange hc hpage rfl rfl rfl rfl rfl ?_ hother ?_ ?_ hcur hsub hfrag
    · show page.refcount - n = _
      omega
    · simp [hlive, hzero]
    · simp [hlive]

theorem release (hcur : c.page = some pid) (hpage : s.allocator.pages.get? pid = some page)
    (hlive : page.freed = false) :
    Accounted (s.put i (s.allocator.dropRefs pid page c.pagecntBias) c.idle) := by
  apply h.dropRefs_exchange hc hpage hlive
  · show c.fragSum _ pid + 0 = _
    simp [PageFragCache.refsOn, biasOn, hcur]
  · intro q hq
    show c.fragSum _ q + 0 = _
    have hne : ¬ pid = q := fun heq => hq heq.symm
    simp [PageFragCache.refsOn, biasOn, hcur, hne]
  · intro q hq
    cases hq
  · exact fun _ _ hf => hf
  · rfl

theorem reuse (hcur : c.page = some pid) (hpage : s.allocator.pages.get? pid = some page)
    (hbias : page.refcount = c.pagecntBias) {offset : Int}
    (hoff : offset = c.offset ∨ offset = page.size) :
    Accounted (s.put i
      { s.allocator with
        pages := s.allocator.pages.set pid { page with refcount := pageFragCacheBias } }
      (c.reused offset)) := by
  obtain ⟨page₁, hpage₁, hlive, -, -⟩ := h.current_page hc hcur
  rw [hpage] at hpage₁
  cases hpage₁
  obtain ⟨hnn, -, page₂, hpage₂, hle, -⟩ := h.current i c pid hc hcur
  rw [hpage] at hpage₂
  cases hpage₂
  obtain ⟨hpos, hmax⟩ := h.page_size pid page hpage
  refine h.exchange hc hpage rfl rfl rfl rfl rfl ?_ ?_ ?_ ?_ ?_ ?_ ?_
  · show pageFragCacheBias = _
    have hown : (c.reused offset).refsOn pid
        = c.fragSum (fun _ => 1) pid + pageFragCacheBias := by
      simp [PageFragCache.refsOn, biasOn, reused, hcur,
        PageFragCache.fragSum]
    have hold : c.refsOn pid = c.fragSum (fun _ => 1) pid + c.pagecntBias := by
      simp [PageFragCache.refsOn, biasOn, hcur]
    rw [hown, hold]
    omega
  · intro q hq
    have hne : ¬ pid = q := fun heq => hq heq.symm
    simp [PageFragCache.refsOn, biasOn, reused, hcur, hne,
      PageFragCache.fragSum]
  · simp [hlive, pageFragCacheBias, pageFragCacheMaxSize]
  · simp
  · intro q hq
    have heq : pid = q := some.inj (hcur.symm.trans hq)
    subst heq
    refine ⟨hcur, ?_, ?_, rfl, fun page₁ hq₁ => ?_⟩
    · show 0 ≤ offset
      rcases hoff with rfl | rfl <;> omega
    · show offset + 1 ≤ pageFragCacheBias
      unfold pageFragCacheBias
      rcases hoff with rfl | rfl <;> omega
    · rw [hpage] at hq₁
      cases hq₁
      show offset ≤ page.size
      rcases hoff with rfl | rfl <;> omega
  · exact fun _ _ hf => hf
  · rfl

theorem free {k : Nat} {f : Fragment}
    (hf : c.live.get? k = some f) (hpage : s.allocator.pages.get? f.pageId = some page)
    (hlive : page.freed = false) :
    Accounted (s.put i (s.allocator.dropRefs f.pageId page 1)
      { c with live := c.live.del k }) := by
  apply h.dropRefs_exchange hc hpage hlive
  · simp only [PageFragCache.refsOn, biasOn]
    rw [PageFragCache.fragSum_del hf, if_pos rfl]
    omega
  · intro q hq
    have hne : ¬ f.pageId = q := fun heq => hq heq.symm
    simp only [PageFragCache.refsOn, biasOn]
    rw [PageFragCache.fragSum_del hf, if_neg hne]
    omega
  · intro q hq
    obtain ⟨hoff, hbias, page₁, hq₁, hle, -⟩ := h.current i c q hc hq
    refine ⟨hq, hoff, hbias, rfl, fun page₂ hq₂ => ?_⟩
    rw [hq₁] at hq₂
    cases hq₂
    exact hle
  · intro k' g hg
    rw [get?_del] at hg
    split at hg
    · cases hg
    · exact hg
  · rfl

theorem carve (hcur : c.page = some pid) {size : Int} (hsize : 0 < size) (hfit : size ≤ c.offset) :
    Accounted (s.put i s.allocator (c.carve pid (c.offset - size) size).2) := by
  obtain ⟨hoff, hbias, page, hpage, hle, hpf⟩ := h.current i c pid hc hcur
  have hfresh := h.fresh_fragment hc
  have hrefs : ∀ q, (c.carve pid (c.offset - size) size).2.refsOn q = c.refsOn q := by
    intro q
    simp only [PageFragCache.refsOn]
    rw [PageFragCache.fragSum_carve hfresh]
    simp only [biasOn, PageFragCache.carve, hcur]
    by_cases hq : pid = q
    · subst hq
      simp
      omega
    · simp [hq]
  constructor
  case page_id => exact h.page_id
  case page_size => exact h.page_size
  case refcount =>
    intro q page₁ hq
    rw [System.refsOn_put hc, hrefs q, h.refcount q page₁ hq]
    omega
  case freed_iff => exact h.freed_iff
  case frees => exact h.frees
  case next_pos => exact h.next_pos
  case current =>
    intro j cj q hj hq
    rcases put_cases hj with ⟨rfl, rfl⟩ | ⟨-, hj₁⟩
    · have heq : pid = q := some.inj (hcur.symm.trans hq)
      subst heq
      refine ⟨?_, ?_, page, hpage, ?_, hpf⟩
      · show 0 ≤ c.offset - size
        omega
      · show c.offset - size + 1 ≤ c.pagecntBias - 1
        omega
      · show c.offset - size ≤ page.size
        omega
    · exact h.current j cj q hj₁ hq
  case owner =>
    intro j k cj ck q hj hk hjq hkq
    rcases put_cases hj with ⟨rfl, rfl⟩ | ⟨-, hj₁⟩ <;>
      rcases put_cases hk with ⟨rfl, rfl⟩ | ⟨-, hk₁⟩
    · rfl
    · exact h.owner _ _ c ck q hc hk₁ hjq hkq
    · exact h.owner _ _ cj c q hj₁ hc hjq hkq
    · exact h.owner _ _ cj ck q hj₁ hk₁ hjq hkq
  case live =>
    intro j cj k f hj hf
    rcases put_cases hj with ⟨rfl, rfl⟩ | ⟨-, hj₁⟩
    · simp only [PageFragCache.carve, get?_set] at hf ⊢
      split at hf
      · rename_i hk
        cases hf
        exact ⟨hk.symm, by omega, page, hpage⟩
      · obtain ⟨hk, hlt, hex⟩ := h.live _ c k f hc hf
        exact ⟨hk, by omega, hex⟩
    · exact h.live j cj k f hj₁ hf

theorem refill (hcur : c.page = none) :
    Accounted (s.put i (c.refill s.allocator).1 (c.refill s.allocator).2) := by
  rw [refill_eq]
  have hfresh := h.fresh_page
  have hrefs : ∀ q, q ≠ s.allocator.nextPageId →
      (c.refill s.allocator).2.refsOn q = c.refsOn q := by
    intro q hq
    have hne : ¬ s.allocator.nextPageId = q := fun heq => hq heq.symm
    simp [PageFragCache.refsOn, biasOn, refill_eq, hcur, hne,
      PageFragCache.fragSum]
  -- nothing refers to the new page before the refill
  have hnone : ∀ j cj, s.caches.get? j = some cj →
      cj.refsOn s.allocator.nextPageId = 0 := by
    intro j cj hj
    have hfrag : cj.fragSum (fun _ => 1) s.allocator.nextPageId = 0 := by
      apply PageFragCache.fragSum_eq_zero
      intro k f hf heq
      obtain ⟨-, -, page, hpage⟩ := h.live j cj k f hj hf
      rw [heq, hfresh] at hpage
      cases hpage
    have hbias : cj.biasOn s.allocator.nextPageId = 0 := by
      apply if_neg
      intro hq
      obtain ⟨-, -, page, hpage, -⟩ := h.current j cj _ hj hq
      rw [hfresh] at hpage
      cases hpage
    rw [PageFragCache.refsOn, hfrag, hbias]
    rfl
  have hnew : (c.refill s.allocator).2.refsOn s.allocator.nextPageId = pageFragCacheBias := by
    have hold := hnone i c hc
    simp only [PageFragCache.refsOn, biasOn, hcur, refill_eq,
      PageFragCache.fragSum, if_true] at hold ⊢
    simp at hold
    omega
  rw [refill_eq] at hrefs hnew
  have hget : ∀ q page, (s.allocator.pages.set s.allocator.nextPageId
      s.allocator.refillPage).get? q = some page →
      (q = s.allocator.nextPageId ∧ page = s.allocator.refillPage) ∨
        (q ≠ s.allocator.nextPageId ∧ s.allocator.pages.get? q = some page) := by
    intro q page hq
    rw [get?_set] at hq
    split at hq
    · exact Or.inl ⟨‹_›, (some.inj hq).symm⟩
    · exact Or.inr ⟨‹_›, hq⟩
  have hkeep : ∀ q page, s.allocator.pages.get? q = some page →
      (s.allocator.pages.set s.allocator.nextPageId s.allocator.refillPage).get? q
        = some page := by
    intro q page hq
    rw [get?_set_ne, hq]
    intro heq
    rw [heq, hfresh] at hq
    cases hq
  have hsize : 0 < s.allocator.refillPage.size ∧
      s.allocator.refillPage.size ≤ pageFragCacheMaxSize := by
    simp only [refillPage]
    split <;> simp [pageSize, pageFragCacheMaxSize]
  constructor
  case page_id =>
    intro q page hq
    rcases hget q page hq with ⟨rfl, rfl⟩ | ⟨-, hq⟩
    · exact ⟨rfl, h.next_pos, Nat.lt_succ_self _⟩
    · obtain ⟨hid, hpos, hlt⟩ := h.page_id q page hq
      exact ⟨hid, hpos, Nat.lt_succ_of_lt hlt⟩
  case page_size =>
    intro q page hq
    rcases hget q page hq with ⟨rfl, rfl⟩ | ⟨-, hq⟩
    · exact hsize
    · exact h.page_size q page hq
  case refcount =>
    intro q page hq
    rw [System.refsOn_put hc]
    rcases hget q page hq with ⟨rfl, rfl⟩ | ⟨hne, hq⟩
    · have hzero : s.refsOn s.allocator.nextPageId = 0 :=
        sum_eq_zero hnone
      rw [hnew, hzero, hnone i c hc]
      rfl
    · rw [hrefs q hne, h.refcount q page hq]
      omega
  case freed_iff =>
    intro q page hq
    rcases hget q page hq with ⟨rfl, rfl⟩ | ⟨-, hq⟩
    · simp [refillPage, pageFragCacheBias, pageFragCacheMaxSize]
    · exact h.freed_iff q page hq
  case frees =>
    show (s.allocator.frees : Int) = _
    rw [put_allocator, sum_set_new hfresh, h.frees]
    simp [refillPage]
  case next_pos => exact Nat.succ_pos _
  case current =>
    intro j cj q hj hq
    rcases put_cases hj with ⟨rfl, rfl⟩ | ⟨-, hj₁⟩
    · have heq : s.allocator.nextPageId = q := some.inj hq
      subst heq
      refine ⟨by exact le_of_lt hsize.1, ?_, s.allocator.refillPage,
        get?_set_self _ _ _, by exact le_refl _, rfl⟩
      show s.allocator.refillPage.size + 1 ≤ pageFragCacheBias
      unfold pageFragCacheBias
      omega
    · obtain ⟨hoff, hbias, page, hpage, hrest⟩ := h.current j cj q hj₁ hq
      exact ⟨hoff, hbias, page, hkeep q page hpage, hrest⟩
  case owner =>
    -- the new page is current in no other cache: it did not exist
    have hother : ∀ j cj, s.caches.get? j = some cj →
        cj.page ≠ some s.allocator.nextPageId := by
      intro j cj hj hq
      obtain ⟨-, -, page, hpage, -⟩ := h.current j cj _ hj hq
      rw [hfresh] at hpage
      cases hpage
    intro j k cj ck q hj hk hjq hkq
    rcases put_cases hj with ⟨rfl, rfl⟩ | ⟨-, hj₁⟩ <;>
      rcases put_cases hk with ⟨rfl, rfl⟩ | ⟨-, hk₁⟩
    · rfl
    · exact absurd (hkq.trans hjq.symm) (hother k ck hk₁)
    · exact absurd (hjq.trans hkq.symm) (hother j cj hj₁)
    · exact h.owner j k cj ck q hj₁ hk₁ hjq hkq
  case live =>
    intro j cj k f hj hf
    have hold : ∃ c₁, s.caches.get? j = some c₁ ∧ c₁.live.get? k = some f ∧
        c₁.nextFragmentId = cj.nextFragmentId := by
      rcases put_cases hj with ⟨rfl, rfl⟩ | ⟨-, hj₁⟩
      · exact ⟨c, hc, hf, rfl⟩
      · exact ⟨cj, hj₁, hf, rfl⟩
    obtain ⟨c₁, hj₁, hf₁, hn₁⟩ := hold
    obtain ⟨hk, hlt, page, hpage⟩ := h.live j c₁ k f hj₁ hf₁
    exact ⟨hk, by omega, page, hkeep _ page hpage⟩

end

end

theorem initial (fallback pfmemalloc : Finset Nat) :
    Accounted (System.initial fallback pfmemalloc : System ι) := by
  constructor <;> intros <;> simp_all [System.initial]

theorem create (h : Accounted s) (i : ι) : Accounted (s.create i) := by
  constructor
  case page_id => simpa using h.page_id
  case page_size => simpa using h.page_size
  case refcount =>
    intro q page hq
    rw [create_allocator] at hq
    rw [h.refcount q page hq]
    unfold System.create
    split
    · rfl
    · rename_i hi
      have hsum : ({ s with caches := s.caches.set i {} } : System ι).refsOn q
          = ({} : PageFragCache).refsOn q + s.refsOn q := sum_set_new hi _ _
      rw [hsum]
      simp [PageFragCache.refsOn, PageFragCache.fragSum, biasOn]
  case freed_iff => simpa using h.freed_iff
  case frees => simpa using h.frees
  case next_pos => simpa using h.next_pos
  case current =>
    intro j cj q hj hq
    rw [create_allocator]
    rcases create_cases hj with rfl | hj₁
    · cases hq
    · exact h.current j cj q hj₁ hq
  case owner =>
    intro j k cj ck q hj hk hjq hkq
    rcases create_cases hj with rfl | hj₁
    · cases hjq
    · rcases create_cases hk with rfl | hk₁
      · cases hkq
      · exact h.owner j k cj ck q hj₁ hk₁ hjq hkq
  case live =>
    intro j cj k f hj hf
    rw [create_allocator]
    rcases create_cases hj with rfl | hj₁
    · simp at hf
    · exact h.live j cj k f hj₁ hf

/-- Every change keeps the accounts. -/
theorem micro (h : Accounted s) {s' : System ι} (hm : System.Micro s s') : Accounted s' := by
  cases hm with
  | create i => exact h.create i
  | keep hc => exact h.put_self hc
  | move hc hm =>
    cases hm with
    | refill hcur => exact h.refill hc hcur
    | release hcur hpage =>
      obtain ⟨page₁, hpage₁, hlive, -, -⟩ := h.current_page hc hcur
      rw [hpage] at hpage₁
      cases hpage₁
      exact h.release hc hcur hpage hlive
    | reuse hcur hpage hbias hoff => exact h.reuse hc hcur hpage hbias hoff
  | carve hc hcur hsize hfit => exact h.carve hc hcur hsize hfit
  | free hc hf hpage hlive => exact h.free hc hf hpage hlive

theorem micros (h : Accounted s) {s' : System ι}
    (hm : Relation.ReflTransGen System.Micro s s') : Accounted s' := by
  induction hm with
  | refl => exact h
  | tail _ hlast ih => exact ih.micro hlast

/-! ## The calls -/

theorem allocate (h : Accounted s) (hc : s.caches.get? i = some c) {size : Int}
    (hsize : 0 < size) :
    ∃ r a₁ c₁, c.allocate s.allocator size = .ok (r, a₁, c₁) ∧
      Relation.ReflTransGen System.Micro s (s.put i a₁ c₁) := by
  obtain ⟨r, a₁, c₁, pid₁, halloc, -, hout⟩ :=
    allocate_moves hsize (h.currentOk hc)
  refine ⟨r, a₁, c₁, halloc, ?_⟩
  rcases hout with ⟨-, hm, -⟩ | ⟨c₂, hm, hcur₂, hfit, -, rfl⟩
  · exact micro_of_moves hc hm
  · have hcarve := System.Micro.carve (put_get? s i a₁ c₂) hcur₂ hsize hfit
    rw [put_put] at hcarve
    exact (micro_of_moves hc hm).tail hcarve

/-- A legal call never raises; what it does is some of the changes above. -/
theorem step (h : Accounted s) {op : Op ι} (hlegal : s.Legal op) :
    ∃ s', s.step op = .ok s' ∧ Relation.ReflTransGen System.Micro s s' := by
  cases op with
  | create i => exact ⟨s.create i, rfl, .single (.create s i)⟩
  | allocate i size =>
    obtain ⟨hsome, hsize⟩ := hlegal
    obtain ⟨c, hc⟩ := isSome_iff_exists.mp hsome
    obtain ⟨r, a₁, c₁, halloc, hm⟩ := h.allocate hc hsize
    exact ⟨s.put i a₁ c₁, by simp [System.step, hc, halloc], hm⟩
  | free i f =>
    obtain ⟨c, hc, hf⟩ := bind_eq_some_iff.mp hlegal
    obtain ⟨page, hpage, hlive, href⟩ := h.live_page hc hf
    have hfree := free_eq hf hpage hlive href
    exact ⟨_, by simp [System.step, hc, hfree], .single (.free hc hf hpage hlive)⟩
  | drain i =>
    obtain ⟨c, hc⟩ := isSome_iff_exists.mp hlegal
    cases hcur : c.page with
    | none =>
      have hdrain := drain_idle (a := s.allocator) hcur
      exact ⟨_, by simp [System.step, hc, hdrain], .single (.keep hc)⟩
    | some pid =>
      obtain ⟨page, hpage, hlive, hbias, -⟩ := h.current_page hc hcur
      have hdrain := drain_eq hcur hpage hlive hbias
      exact ⟨_, by simp [System.step, hc, hdrain], .single (.move hc (.release hcur hpage))⟩

/-- Induction over the changes of a run, with the accounts in hand. -/
theorem reachable_induct {fallback pfmemalloc : Finset Nat} {P : System ι → Prop}
    (hinit : P (System.initial fallback pfmemalloc))
    (hmicro : ∀ s s', Accounted s → P s → System.Micro s s' → P s')
    (hs : Reachable fallback pfmemalloc s) : Accounted s ∧ P s := by
  induction hs with
  | initial => exact ⟨initial fallback pfmemalloc, hinit⟩
  | step _ hlegal hstep ih =>
    obtain ⟨s', hok, hm⟩ := ih.1.step hlegal
    rw [hok] at hstep
    cases hstep
    clear hok hlegal
    induction hm with
    | refl => exact ih
    | tail _ hlast ih' => exact ⟨ih'.1.micro hlast, hmicro _ _ ih'.1 ih'.2 hlast⟩

theorem reachable {fallback pfmemalloc : Finset Nat}
    (hs : Reachable fallback pfmemalloc s) : Accounted s :=
  (reachable_induct (P := fun _ => True) trivial (fun _ _ _ _ _ => trivial) hs).1

end Accounted

/-! ## Giving everything back -/

section

variable {ι : Type} [DecidableEq ι] {s : System ι} {i : ι}

/-- Every cache is drained, and every live fragment freed. -/
def System.teardown (s : System ι) : List (Op ι) :=
  s.caches.entries.flatMap fun e => .drain e.1 :: e.2.live.entries.map fun f => .free e.1 f.2

/-- No cache has a page or a live fragment. -/
def System.Idle (s : System ι) : Prop :=
  ∀ i c, s.caches.get? i = some c → c.page = none ∧ c.live = ∅

/-- A call that a teardown can make. -/
def System.Closes (s : System ι) : Op ι → Prop
  | .free i f => s.Legal (.free i f)
  | .drain i => s.Legal (.drain i)
  | _ => False

/-- What `ops`, drains and frees, leave of the caches. -/
def System.Left (s : System ι) (ops : List (Op ι)) (s' : System ι) : Prop :=
  ∀ i c', s'.caches.get? i = some c' → ∃ c, s.caches.get? i = some c ∧
    (c.page = none ∨ .drain i ∈ ops → c'.page = none) ∧
    ∀ k f, c'.live.get? k = some f → c.live.get? k = some f ∧ .free i f ∉ ops

/-- One drain or free, on the cache it is about. -/
theorem Accounted.step_closes (h : Accounted s) {op : Op ι} (hop : s.Closes op) :
    ∃ i c a c₁, s.caches.get? i = some c ∧ s.step op = .ok (s.put i a c₁) ∧
      (c.page = none ∨ op = .drain i → c₁.page = none) ∧
      (∀ k f, c₁.live.get? k = some f ↔ c.live.get? k = some f ∧ op ≠ .free i f) ∧
      ∀ j ≠ i, op ≠ .drain j ∧ ∀ f, op ≠ .free j f := by
  cases op with
  | create i => exact hop.elim
  | allocate i size => exact hop.elim
  | free i f =>
    obtain ⟨c, hc, hf⟩ := bind_eq_some_iff.mp hop
    obtain ⟨page, hpage, hlive, href⟩ := h.live_page hc hf
    have hstep : s.step (.free i f) = .ok (s.put i (s.allocator.dropRefs f.pageId page 1)
        { c with live := c.live.del f.fragmentId }) := by
      simp only [System.step, hc, free_eq hf hpage hlive href]
    refine ⟨i, c, _, _, hc, hstep, by simp, fun k f' => ?_, fun j hne => by simp [hne.symm]⟩
    rw [get?_del]
    constructor
    · intro hf'
      split at hf'
      · cases hf'
      · rename_i hne
        refine ⟨hf', fun heq => hne ?_⟩
        cases heq
        exact (h.live i c k f hc hf').1.symm
    · rintro ⟨hf', hne⟩
      rw [if_neg, hf']
      rintro rfl
      rw [hf] at hf'
      cases hf'
      exact hne rfl
  | drain i =>
    obtain ⟨c, hc⟩ := isSome_iff_exists.mp hop
    cases hcur : c.page with
    | none =>
      have hstep : s.step (.drain i) = .ok (s.put i s.allocator c) := by
        simp only [System.step, hc, drain_idle hcur]
      exact ⟨i, c, _, _, hc, hstep, fun _ => hcur, by simp, fun j hne => by simp [hne.symm]⟩
    | some pid =>
      obtain ⟨page, hpage, hlive, hbias, -⟩ := h.current_page hc hcur
      have hstep : s.step (.drain i) =
          .ok (s.put i (s.allocator.dropRefs pid page c.pagecntBias) c.idle) := by
        simp only [System.step, hc, drain_eq hcur hpage hlive hbias]
      exact ⟨i, c, _, _, hc, hstep, fun _ => rfl, fun k f => by simp [PageFragCache.idle],
        fun j hne => by simp [hne.symm]⟩

/-- Drains and frees go through in any order. -/
theorem Accounted.run_closes (h : Accounted s) {ops : List (Op ι)} (hnodup : ops.Nodup)
    (hops : ∀ op ∈ ops, s.Closes op) : ∃ s', s.run ops = some s' ∧ s.Left ops s' := by
  induction ops generalizing s with
  | nil =>
    exact ⟨s, rfl, fun i c hc => ⟨c, hc, by simp, fun k f hf => ⟨hf, by simp⟩⟩⟩
  | cons op ops ih =>
    obtain ⟨hnew, hnodup⟩ := List.nodup_cons.mp hnodup
    have hop := hops op (List.mem_cons_self ..)
    have hlegal : s.Legal op := by
      cases op <;> first | exact hop | exact hop.elim
    obtain ⟨i, c, a, c₁, hc, hstep, hpage, hlive, hother⟩ := h.step_closes hop
    obtain ⟨s₁, hok, hmicros⟩ := h.step hlegal
    rw [hstep] at hok
    cases hok
    have hleft : ∀ op' ∈ ops, (s.put i a c₁).Closes op' := by
      intro op' hmem
      have hop' := hops op' (List.mem_cons_of_mem _ hmem)
      have hne : op ≠ op' := by
        rintro rfl
        exact hnew hmem
      cases op' with
      | create j => exact hop'
      | allocate j size => exact hop'
      | free j f =>
        obtain ⟨cj, hcj, hf⟩ := bind_eq_some_iff.mp hop'
        refine bind_eq_some_iff.mpr ?_
        by_cases hji : j = i
        · subst hji
          rw [hc] at hcj
          cases hcj
          exact ⟨c₁, put_get? s j a c₁, (hlive _ f).mpr ⟨hf, hne⟩⟩
        · exact ⟨cj, (get?_set_ne _ hji _).trans hcj, hf⟩
      | drain j =>
        obtain ⟨cj, hcj⟩ := isSome_iff_exists.mp hop'
        refine isSome_iff_exists.mpr ?_
        by_cases hji : j = i
        · exact ⟨c₁, hji ▸ put_get? s i a c₁⟩
        · exact ⟨cj, (get?_set_ne _ hji _).trans hcj⟩
    obtain ⟨s', hrun, hrest⟩ := ih (h.micros hmicros) hnodup hleft
    refine ⟨s', ?_, fun j c' hc' => ?_⟩
    · rw [System.run, if_pos hlegal, hstep]
      exact hrun
    · obtain ⟨cj, hcj, hpage', hlive'⟩ := hrest j c' hc'
      rcases put_cases hcj with ⟨rfl, rfl⟩ | ⟨hne, hcj⟩
      · refine ⟨c, hc, fun hclosed => hpage' ?_, fun k f hf => ?_⟩
        · rcases hclosed with hnone | hmem
          · exact .inl (hpage (.inl hnone))
          · rcases List.mem_cons.mp hmem with heq | hmem
            · exact .inl (hpage (.inr heq.symm))
            · exact .inr hmem
        · obtain ⟨hf, hkeep⟩ := hlive' k f hf
          obtain ⟨hf, hne⟩ := (hlive k f).mp hf
          exact ⟨hf, by simp [hne.symm, hkeep]⟩
      · obtain ⟨hdrain, hfree⟩ := hother j hne
        refine ⟨cj, hcj, fun hclosed => hpage' ?_, fun k f hf => ?_⟩
        · rcases hclosed with hnone | hmem
          · exact .inl hnone
          · exact .inr ((List.mem_cons.mp hmem).resolve_left hdrain.symm)
        · obtain ⟨hf, hkeep⟩ := hlive' k f hf
          exact ⟨hf, by simp [(hfree f).symm, hkeep]⟩

theorem System.mem_teardown {op : Op ι} : op ∈ s.teardown ↔ ∃ i c, s.caches.get? i = some c ∧
    (op = .drain i ∨ ∃ k f, c.live.get? k = some f ∧ op = .free i f) := by
  simp only [System.teardown, List.mem_flatMap, List.mem_cons, List.mem_map, Sigma.exists,
    mem_entries_iff, eq_comm]

theorem Accounted.nodup_teardown (h : Accounted s) : s.teardown.Nodup := by
  refine List.nodup_flatMap.mpr ⟨?_, ?_⟩
  · rintro ⟨i, c⟩ hc
    have hc := (mem_entries_iff _ _ _).mp hc
    refine List.nodup_cons.mpr ⟨by simp, c.live.nodupKeys.nodup.map_on ?_⟩
    rintro ⟨k, f⟩ hf ⟨k', f'⟩ hf' heq
    have hk := (h.live i c k f hc ((mem_entries_iff _ _ _).mp hf)).1
    have hk' := (h.live i c k' f' hc ((mem_entries_iff _ _ _).mp hf')).1
    cases heq
    rw [← hk, ← hk']
  · refine (List.nodupKeys_iff_pairwise.mp s.caches.nodupKeys).imp ?_
    rintro ⟨i, c⟩ ⟨j, d⟩ hne op hop hop'
    simp only [List.mem_cons, List.mem_map] at hop hop'
    rcases hop with rfl | ⟨f, -, rfl⟩ <;> rcases hop' with heq | ⟨f', -, heq⟩
    · exact hne (Op.drain.inj heq)
    · cases heq
    · cases heq
    · exact hne (Op.free.inj heq).1.symm

/-- A teardown goes through, in any order, and leaves no cache a page or a live fragment. -/
theorem Accounted.run_teardown (h : Accounted s) {ops : List (Op ι)} (hops : ops.Perm s.teardown) :
    ∃ s', s.run ops = some s' ∧ s'.Idle := by
  have hmem : ∀ op, op ∈ ops ↔ op ∈ s.teardown := fun op => hops.mem_iff
  have hcloses : ∀ op ∈ ops, s.Closes op := by
    intro op hop
    obtain ⟨i, c, hc, rfl | ⟨k, f, hf, rfl⟩⟩ := System.mem_teardown.mp ((hmem op).mp hop)
    · exact isSome_iff_exists.mpr ⟨c, hc⟩
    · have hk := (h.live i c k f hc hf).1
      exact bind_eq_some_iff.mpr ⟨c, hc, by rw [hk]; exact hf⟩
  obtain ⟨s', hrun, hleft⟩ := h.run_closes (hops.nodup_iff.mpr h.nodup_teardown) hcloses
  refine ⟨s', hrun, fun i c' hc' => ?_⟩
  obtain ⟨c, hc, hpage, hlive⟩ := hleft i c' hc'
  refine ⟨hpage (.inr ((hmem _).mpr (System.mem_teardown.mpr ⟨i, c, hc, .inl rfl⟩))), ?_⟩
  refine AList.ext (List.eq_nil_iff_forall_not_mem.mpr ?_)
  rintro ⟨k, f⟩ hf
  obtain ⟨hf, hkeep⟩ := hlive k f ((mem_entries_iff _ _ _).mp hf)
  exact hkeep ((hmem _).mpr (System.mem_teardown.mpr ⟨i, c, hc, .inr ⟨k, f, hf, rfl⟩⟩))

end

/-! ## Conservation -/

/-- Reference conservation at one state. `no_raise` covers every assertion
of the model; the one write the source leaves unchecked, resetting the
count of a reused page, is to a current page, and `current_alive` says that
page is not freed. `frees` counts the calls of `free_page` that went
through, so in `drained` every page has been freed and by one call only;
`teardown` says that draining the caches and freeing the live fragments, in
any order, goes through and leads there. -/
structure Conserved {ι : Type} [DecidableEq ι] (s : System ι) : Prop where
  refcount : ∀ pid page, s.allocator.pages.get? pid = some page → page.freed = false →
    page.refcount = s.liveFragments pid + s.currentBias pid
  bias_pos : ∀ i c pid, s.caches.get? i = some c → c.page = some pid → 1 ≤ c.pagecntBias
  freed_iff : ∀ pid page, s.allocator.pages.get? pid = some page →
    (page.freed = true ↔ page.refcount = 0)
  no_raise : ∀ op, s.Legal op → ∃ s', s.step op = .ok s'
  current_alive : ∀ i c pid page, s.caches.get? i = some c → c.page = some pid →
    s.allocator.pages.get? pid = some page → page.freed = false
  drained : s.Idle →
    (∀ pid page, s.allocator.pages.get? pid = some page → page.freed = true) ∧
    s.allocator.frees = s.allocator.pages.size
  teardown : ∀ ops : List (Op ι), ops.Perm s.teardown →
    ∃ s', s.run ops = some s' ∧ s'.Idle ∧
      (∀ pid page, s'.allocator.pages.get? pid = some page → page.freed = true) ∧
      s'.allocator.frees = s'.allocator.pages.size

theorem Accounted.drained {ι : Type} [DecidableEq ι] {s : System ι} (h : Accounted s)
    (hidle : s.Idle) :
    (∀ pid page, s.allocator.pages.get? pid = some page → page.freed = true) ∧
      s.allocator.frees = s.allocator.pages.size := by
  have hfreed : ∀ pid page, s.allocator.pages.get? pid = some page → page.freed = true := by
    intro pid page hpage
    rw [h.freed_iff pid page hpage, h.refcount pid page hpage]
    apply sum_eq_zero
    intro i c hc
    obtain ⟨hcur, hlive⟩ := hidle i c hc
    simp [PageFragCache.refsOn, PageFragCache.fragSum, biasOn, hcur, hlive]
  refine ⟨hfreed, ?_⟩
  have hsum : (s.allocator.pages.sum fun _ page => if page.freed then (1 : Int) else 0)
      = s.allocator.pages.size := by
    rw [size_eq_sum]
    exact sum_congr fun pid page hpage => if_pos (hfreed pid page hpage)
  have := h.frees
  omega

/-- **Reference conservation**, over any caches, any choice of fallback and
reserve refills and any sequence of legal calls. -/
theorem reference_conservation {ι : Type} [DecidableEq ι] (fallback pfmemalloc : Finset Nat)
    (s : System ι) (hs : Reachable fallback pfmemalloc s) : Conserved s := by
  have h := Accounted.reachable hs
  constructor
  case refcount => exact fun pid page hpage _ => h.refcount_eq hpage
  case bias_pos =>
    intro i c pid hc hcur
    have := h.current i c pid hc hcur
    omega
  case freed_iff => exact h.freed_iff
  case no_raise =>
    intro op hlegal
    obtain ⟨s', hok, -⟩ := h.step hlegal
    exact ⟨s', hok⟩
  case current_alive =>
    intro i c pid page hc hcur hpage
    obtain ⟨page₁, hpage₁, hlive, -⟩ := h.current_page hc hcur
    rw [hpage] at hpage₁
    cases hpage₁
    exact hlive
  case drained => exact h.drained
  case teardown =>
    intro ops hops
    obtain ⟨s', hrun, hidle⟩ := h.run_teardown hops
    exact ⟨s', hrun, hidle, (Accounted.reachable (hs.run hrun)).drained hidle⟩

/-- One cache, its first page a reserve page, and a request the page cannot
hold: the page is freed and a second one taken. -/
theorem reference_conservation_oversized :
    ∃ s : System Nat, s.allocator.pages.size = 2 ∧ s.allocator.frees = 1 ∧ Conserved s := by
  have hrun : ((System.initial ∅ {1} : System Nat).run
      [.create 0, .allocate 0 40000]).isSome := by decide
  refine ⟨_, ?_, ?_, reference_conservation ∅ {1} _
    (Reachable.initial.run (some_get hrun).symm)⟩
  · rfl
  · rfl

/-! ## Leaks -/

section

open List

variable {ι : Type} [DecidableEq ι] {s : System ι}

/-- The pages a cache has references to. -/
def PageFragCache.referred (c : PageFragCache) : List Nat :=
  c.page.toList ++ c.live.entries.map (·.2.pageId)

/-- **No page leaks**: in every reachable state there are at most as many pages that are not freed
as live fragments and caches with a page together. -/
theorem unfreed_le {fallback pfmemalloc : Finset Nat} (hs : System.Reachable fallback pfmemalloc s)
    {pids : Finset Nat} (hpids : ∀ pid ∈ pids, ∃ page,
      s.allocator.pages.get? pid = some page ∧ page.freed = false) :
    pids.card ≤ s.caches.sum fun _ c => c.page.toList.length + c.live.size := by
  have h := Accounted.reachable hs
  have hsub : pids ⊆ (s.caches.entries.flatMap fun e => e.2.referred).toFinset := by
    intro pid hpid
    obtain ⟨page, hpage, hfreed⟩ := hpids pid hpid
    by_contra hnone
    simp only [List.mem_toFinset, mem_flatMap, not_exists, not_and, PageFragCache.referred,
      mem_append, not_or, List.mem_map, Option.mem_toList] at hnone
    -- no cache refers to the page, so its count is 0
    have hzero : s.refsOn pid = 0 := Dict.sum_eq_zero fun i c hc => by
      obtain ⟨hcur, hlive⟩ := hnone ⟨i, c⟩ ((Dict.mem_entries_iff _ _ _).mpr hc)
      have hfrags : c.fragSum (fun _ => 1) pid = 0 := PageFragCache.fragSum_eq_zero fun k f hf hp =>
        hlive ⟨k, f⟩ ((Dict.mem_entries_iff _ _ _).mpr hf) hp
      rw [PageFragCache.refsOn, hfrags, PageFragCache.biasOn, if_neg hcur, add_zero]
    rw [← h.refcount pid page hpage, ← h.freed_iff pid page hpage, hfreed] at hzero
    exact Bool.false_ne_true hzero
  refine (Finset.card_le_card hsub).trans ((toFinset_card_le _).trans ?_)
  rw [length_flatMap, Dict.sum]
  simp [PageFragCache.referred, Dict.size]

end

/-- One page, current in its cache, with two fragments. -/
theorem unfreed_le_shared : ∃ s : System Nat, s.allocator.pages.size = 1 ∧
    ({1} : Finset Nat).card ≤ s.caches.sum fun _ c => c.page.toList.length + c.live.size := by
  have hrun : ((System.initial ∅ ∅ : System Nat).run
      [.create 0, .allocate 0 256, .allocate 0 256]).isSome := by decide
  refine ⟨_, ?_, unfreed_le (Reachable.initial.run (some_get hrun).symm) fun pid hpid => ?_⟩
  · rfl
  · rw [Finset.mem_singleton] at hpid
    subst hpid
    exact ⟨_, rfl, rfl⟩

end LibWrt.PageFrag
