/-
LibWrt.PageFrag.AuditStep — each event keeps the books right.

One section for each of `_allocate_pagefrag`, `_allocate_direct`, `_reap`
and `_free`; each evaluates the method on an audited state, so that it
cannot raise, and re-establishes `Audited`. What the aggregate needs is the
same in all: the pages whose contribution was taken out are the pages that
changed (`recomputed_update`, `recomputed_handed`).
-/
import LibWrt.PageFrag.Audit

namespace LibWrt.PageFrag

open Option Dict PageFragCache Or
open ScenarioReplay (affected)

/-! ## The aggregate after a change of pages -/

section Recomputed

variable {pages pages' : Dict Nat Page} {usage usage' : Dict Nat PageUsage}

/-- One page changed. -/
theorem recomputed_update (k : Nat) (hpages : ∀ q, q ≠ k → pages'.get? q = pages.get? q)
    (husage : ∀ q, q ≠ k → usageAt usage' q = usageAt usage q) :
    recomputed pages' usage' = recomputed pages usage - pages.at? (priced usage) k
      + pages'.at? (priced usage') k :=
  sum_update k hpages fun q page hq _ => by simp only [priced, husage q hq]

/-- The pages a request touched: the page current before, which was taken
out of the aggregate, and the one current after. -/
theorem recomputed_handed {old : Option Nat} {new : Nat}
    (hsame : ∀ q, old ≠ some q → q ≠ new → pages'.get? q = pages.get? q)
    (husage : ∀ q, q ≠ new → usageAt usage' q = usageAt usage q)
    (hnew : old ≠ some new → pages.get? new = none)
    (hold₀ : ∀ q, old = some q → q ≠ 0) (hnew₀ : new ≠ 0) :
    recomputed pages' usage' = recomputed pages usage
      - (old.map (pages.at? (priced usage))).getD 0
      + ((affected old new).map (pages'.at? (priced usage'))).sum := by
  cases old with
  | none =>
    have hget : pages.at? (priced usage) new = 0 := by
      simp [Dict.at?, hnew (by simp)]
    rw [recomputed_update new (fun q hq => hsame q (by simp) hq) husage, hget]
    simp [affected, hnew₀]
  | some q =>
    have hq₀ := hold₀ q rfl
    by_cases hq : q = new
    · subst hq
      rw [recomputed_update q (fun p hp => hsame p (fun h => hp (some.inj h).symm) hp)
        husage]
      simp [affected, hq₀]
    · -- go through the pages without the new one
      have hmissing := hnew fun h => hq (some.inj h)
      have hmid : recomputed (pages'.del new) usage = recomputed pages usage
          - pages.at? (priced usage) q + (pages'.del new).at? (priced usage) q := by
        refine recomputed_update q (fun p hp => ?_) fun _ _ => rfl
        rw [get?_del]
        split
        · rename_i heq
          rw [heq, hmissing]
        · exact hsame p (fun h => hp (some.inj h).symm) ‹_›
      have hlast : recomputed pages' usage' = recomputed (pages'.del new) usage
          - (pages'.del new).at? (priced usage) new + pages'.at? (priced usage') new := by
        refine recomputed_update new (fun p hp => ?_) husage
        rw [get?_del_ne _ hp]
      have hzero : (pages'.del new).at? (priced usage) new = 0 := by simp [Dict.at?]
      have hkept : (pages'.del new).at? (priced usage) q = pages'.at? (priced usage') q := by
        simp only [Dict.at?, get?_del_ne _ hq, priced, husage q hq]
      rw [hlast, hmid, hzero, hkept]
      simp [affected, hq₀, hnew₀, hq]
      abel

end Recomputed

/-! ## Allocation -/

section Allocation

variable {r r₂ : ScenarioReplay} {e : Event} {state : BufferState}
  {cache : Option (List String)} {f : Fragment}

theorem record_ledger (r : ScenarioReplay) (e : Event) (state : BufferState)
    (cache : Option (List String)) (f : Fragment) :
    (r.record e state cache f).ledger =
      { buffers := r.ledger.buffers.set e.logicalId (e.buffer state)
        allocations := r.ledger.allocations + 1 } := by
  simp [ScenarioReplay.ledger, ScenarioReplay.record, map_set]

theorem Ledger.count_set {l : Ledger} {id : Nat} (hid : l.buffers.get? id = none) (b : Buffer)
    (n : Nat) (st : BufferState) :
    Ledger.count { buffers := l.buffers.set id b, allocations := n } st
      = (if b.state = st then 1 else 0) + l.count st :=
  sum_set_new hid _ _

theorem ledger_get? (r : ScenarioReplay) (id : Nat) :
    r.ledger.buffers.get? id = (r.live.get? id).map (·.toBuffer) :=
  get?_map _ _ _

/-- What is left to check of a state in which the memory for a new record
was just obtained. -/
theorem Audited.of_record (h : Audited r) (hid : r.live.get? e.logicalId = none)
    (hlive : r₂.live = r.live) (hposted : r₂.posted = r.posted) (hreaped : r₂.reaped = r.reaped)
    (husage : r₂.usage = r.usage.set f.pageId ((usageAt r.usage f.pageId).add e))
    (htotal : r₂.aggregate = recomputed r₂.pages r₂.usage)
    (hbacked : Cached (r₂.record e state cache f) ∨ Direct (r₂.record e state cache f)) :
    Audited (r₂.record e state cache f) := by
  have hcount : ∀ st, (r₂.record e state cache f).ledger.count st
      = (if state = st then 1 else 0) + r.ledger.count st := by
    intro st
    have hsame : r₂.ledger.buffers = r.ledger.buffers := by simp [ScenarioReplay.ledger, hlive]
    rw [record_ledger, hsame]
    exact Ledger.count_set (by rw [ledger_get?, hid]; rfl) _ _ st
  constructor
  case tracked =>
    simp only [ScenarioReplay.record, hlive, husage]
    exact h.tracked.add hid { e.buffer state with fragment := f, cache := cache } rfl
  case total => exact htotal
  case posted =>
    rw [hcount, ← h.posted]
    simp only [ScenarioReplay.record, hposted]
    split <;> omega
  case reaped =>
    rw [hcount, ← h.reaped]
    simp only [ScenarioReplay.record, hreaped]
    cases state <;> simp
    omega
  case backed => exact hbacked

/-- `_usage_add` on a page that exists. -/
theorem usageAdd_eq {pid : Nat} {page : Page} (hpage : r.pages.get? pid = some page) :
    r.usageAdd pid e = .ok (ScenarioReplay.setPage
      { r with usage := r.usage.set pid ((usageAt r.usage pid).add e) } pid
      { page with
        everRings := insert e.ring page.everRings
        everLifetimes := insert e.lifetime page.everLifetimes }) := by
  have hpage' : (ScenarioReplay.pages
      { r with usage := r.usage.set pid ((usageAt r.usage pid).add e) }).get? pid
        = some page := hpage
  simp only [ScenarioReplay.usageAdd, ScenarioReplay.usageOf]
  rw [show (r.usage.get? pid).getD {} = usageAt r.usage pid from rfl, hpage']

theorem fragSum_create {ι : Type} [DecidableEq ι] (s : System ι) (i : ι) (w : Fragment → Int)
    (pid : Nat) : (s.create i).fragSum w pid = s.fragSum w pid := by
  unfold System.create
  split
  · rfl
  · rename_i hi
    have hsum : ({ s with caches := s.caches.set i {} } : System ι).fragSum w pid
        = ({} : PageFragCache).fragSum w pid + s.fragSum w pid := sum_set_new hi _ _
    simpa [fragSum] using hsum

variable {key : List String} {a' : PhysicalAllocator}

theorem Cached.of_handed (hc : Cached r) (hid : r.live.get? e.logicalId = none) {c' : PageFragCache}
    {page' : Page} (hh : Handed r.allocator ((r.caches.get? key).getD {}) e.alignedBytes f a' c')
    (hacc : Accounted (r₂.record e state (some key) f).system)
    (hpacked : Packed (r₂.record e state (some key) f).system)
    (hsize : page'.size = pageFragCacheMaxSize) (hpolicy : r₂.policy = r.policy)
    (halloc : r₂.allocator = { a' with pages := a'.pages.set f.pageId page' })
    (hcaches : r₂.caches = r.caches.set key c') (hlive : r₂.live = r.live) :
    Cached (r₂.record e state (some key) f) := by
  have hcreate : (r.system.create key).caches.get? key = some ((r.caches.get? key).getD {}) :=
    System.create_get? r.system key
  have haccc : Accounted (r.system.create key) := hc.accounted.create key
  have hfresh : ((r.caches.get? key).getD {}).live.get? f.fragmentId = none := by
    rw [hh.fragmentId]
    exact haccc.fresh_fragment hcreate
  have hnotlive : ∀ id record, r.live.get? id = some record → record.cache = some key →
      record.fragment.fragmentId ≠ f.fragmentId := by
    intro id record hr hkey heq
    obtain ⟨-, k, c, hk, hck, hl⟩ := hc.linked id record hr
    rw [hkey] at hk
    cases hk
    rw [hck, getD_some, ← heq, hl] at hfresh
    cases hfresh
  have hget : ∀ id record, (r₂.record e state (some key) f).live.get? id = some record →
      (id = e.logicalId ∧ record.toBuffer = e.buffer state ∧ record.fragment = f ∧
        record.cache = some key) ∨ r.live.get? id = some record := by
    intro id record hr
    simp only [ScenarioReplay.record, hlive, get?_set] at hr
    split at hr
    · cases hr
      exact inl ⟨‹_›, rfl, rfl, rfl⟩
    · exact inr hr
  constructor
  case policy => exact hpolicy ▸ hc.policy
  case accounted => exact hacc
  case packed => exact hpacked
  case settings =>
    simp only [ScenarioReplay.record, halloc]
    exact ⟨hh.settings.1.trans hc.settings.1, hh.settings.2.trans hc.settings.2⟩
  case page_size =>
    intro q p hq
    simp only [ScenarioReplay.record, halloc, get?_set] at hq
    split at hq
    · cases hq
      exact hsize
    · rename_i hne
      by_cases hcur : ((r.caches.get? key).getD {}).page = some q
      · obtain ⟨-, -, p₀, hp₀, -⟩ := haccc.current key _ q hcreate hcur
        rw [System.create_allocator] at hp₀
        obtain ⟨n, freed, hold, -⟩ := hh.old q p₀ hcur hp₀
        rw [hold] at hq
        cases hq
        exact hc.page_size q p₀ hp₀
      · rw [hh.same q hcur hne] at hq
        exact hc.page_size q p hq
  case linked =>
    intro id record hr
    cases hget id record hr with
    | inl hnew =>
      obtain ⟨-, hbuf, hfrag, hcache⟩ := hnew
      refine ⟨?_, key, c', hcache, ?_, ?_⟩
      · rw [hfrag, hh.size]
        exact congrArg Buffer.alignedBytes hbuf
      · simp [ScenarioReplay.record, hcaches]
      · rw [hfrag, hh.live, get?_set_self]
    | inr hold =>
      obtain ⟨hsz, k, c, hk, hck, hl⟩ := hc.linked id record hold
      by_cases heq : k = key
      · subst heq
        refine ⟨hsz, k, c', hk, by simp [ScenarioReplay.record, hcaches], ?_⟩
        rw [hh.live, get?_set_ne _ (hnotlive id record hold hk), hck]
        exact hl
      · refine ⟨hsz, k, c, hk, ?_, hl⟩
        simp only [ScenarioReplay.record, hcaches]
        rw [get?_set_ne _ heq, hck]
  case distinct =>
    intro id record id' record' hr hr' hcache hfrag
    cases hget id record hr with
    | inl hnew =>
      cases hget id' record' hr' with
      | inl hnew' => exact hnew.1.trans hnew'.1.symm
      | inr hold' =>
        refine absurd ?_ (hnotlive id' record' hold' (hcache.symm.trans hnew.2.2.2))
        rw [← hfrag, hnew.2.2.1]
    | inr hold =>
      cases hget id' record' hr' with
      | inl hnew' =>
        refine absurd ?_ (hnotlive id record hold (hcache.trans hnew'.2.2.2))
        rw [hfrag, hnew'.2.2.1]
      | inr hold' => exact hc.distinct id record id' record' hold hold' hcache hfrag
  case bytes =>
    intro q
    have hcarved : c'.fragSum (·.size) q = (if f.pageId = q then e.alignedBytes else 0)
        + ((r.caches.get? key).getD {}).fragSum (·.size) q := by
      rw [← hh.size, fragSum, hh.live, sum_set_new hfresh]
      rfl
    have hput := System.fragSum_put hcreate a' c' (·.size) q
    rw [System.create_put, fragSum_create, hcarved, ← hc.bytes q] at hput
    have hsys : (r₂.record e state (some key) f).system.fragSum (·.size) q
        = (r.system.put key a' c').fragSum (·.size) q := by
      simp [ScenarioReplay.record, ScenarioReplay.system, System.put, System.fragSum, hcaches]
    have hrec : recSum (r₂.record e state (some key) f).live (·.alignedBytes) q
        = (if f.pageId = q then e.alignedBytes else 0) + recSum r.live (·.alignedBytes) q := by
      simp only [ScenarioReplay.record, hlive]
      exact recSum_set hid
    rw [hsys, hput, hrec]
    abel

theorem removeOld_eq {old : Option Nat} (hold : ∀ q, old = some q → ∃ page,
      r.pages.get? q = some page ∧ (usageAt r.usage q).alignedBytes ≤ page.size) :
    r.removeOld old = .ok { r with
      aggregate := r.aggregate - (old.map (r.pages.at? (priced r.usage))).getD 0 } := by
  cases old with
  | none => simp [ScenarioReplay.removeOld]
  | some q =>
    obtain ⟨page, hpage, hfit⟩ := hold q rfl
    exact ScenarioReplay.removeContribution_eq hpage hfit

/-- The first half of `_allocate_pagefrag`. -/
theorem requestFragment_eq {c' : PageFragCache}
    (hh : Handed r.allocator ((r.caches.get? key).getD {}) e.alignedBytes f a' c')
    (hold : ∀ q, ((r.caches.get? key).getD {}).page = some q → ∃ page,
      r.pages.get? q = some page ∧ (usageAt r.usage q).alignedBytes ≤ page.size) :
    r.requestFragment key e = .ok
      ({ r with
          aggregate := r.aggregate - (((r.caches.get? key).getD {}).page.map
            (r.pages.at? (priced r.usage))).getD 0
          allocator := a'
          caches := r.caches.set key c' },
        some f, ((r.caches.get? key).getD {}).page, some f.pageId) := by
  simp only [ScenarioReplay.requestFragment, removeOld_eq hold, bind, Except.bind, hh.allocate,
    hh.page, pure, Except.pure]

theorem setPage_of_ne (hpolicy : r.policy ≠ .nonPagefrag) (pid : Nat) (page : Page) :
    r.setPage pid page =
      { r with allocator := { r.allocator with pages := r.allocator.pages.set pid page } } :=
  if_neg hpolicy

/-- `_allocate_pagefrag` on an audited state. -/
theorem Audited.allocatePagefrag (h : Audited r) (hc : Cached r)
    (hkey : r.policy.cacheKey e = .ok key) (hpos : 0 < e.alignedBytes)
    (hmax : e.alignedBytes ≤ pageFragCacheMaxSize) (hid : r.live.get? e.logicalId = none)
    (state : BufferState) :
    ∃ r₃ f, r.allocatePagefrag e = .ok (r₃, some key, f) ∧
      Audited (r₃.record e state (some key) f) ∧ r₃.ledger = r.ledger ∧
      r₃.policy = r.policy := by
  have hcreate : (r.system.create key).caches.get? key = some ((r.caches.get? key).getD {}) :=
    System.create_get? r.system key
  have haccc : Accounted (r.system.create key) := hc.accounted.create key
  have hrefill : r.allocator.refillPage.size = pageFragCacheMaxSize := by
    simp [PhysicalAllocator.refillPage, hc.settings.1]
  -- the cache serves the request
  have hok : CurrentOk r.allocator ((r.caches.get? key).getD {}) := by
    have := haccc.currentOk hcreate
    rwa [System.create_allocator] at this
  obtain ⟨f, a', c', hh⟩ := handed hok hpos (by omega)
    (fun q page _ hq => by rw [hc.page_size q page hq]; exact hmax) hc.accounted.fresh_page
  obtain ⟨result, a₁, c₁, hresult, hm⟩ := haccc.allocate hcreate hpos
  have hserved : ((r.caches.get? key).getD {}).allocate r.allocator e.alignedBytes
      = .ok (result, a₁, c₁) := by rwa [System.create_allocator] at hresult
  rw [hh.allocate] at hserved
  cases hserved
  rw [System.create_put] at hm
  have hacc' := haccc.micros hm
  have hpacked' := (hc.packed.micro hc.accounted (.create r.system key)).micros haccc hm
  -- the page the fragment is on
  obtain ⟨page, hpage, hlive, -⟩ := hacc'.current_page (System.put_get? _ _ _ _) hh.page
  rw [System.put_allocator] at hpage
  have hpid := (hacc'.page_id f.pageId page hpage).2.1
  have hsize : page.size = pageFragCacheMaxSize := by
    by_cases hcur : ((r.caches.get? key).getD {}).page = some f.pageId
    · obtain ⟨p₀, hp₀, -⟩ := hok f.pageId hcur
      obtain ⟨n, freed, hold, -⟩ := hh.old f.pageId p₀ hcur hp₀
      rw [hpage] at hold
      cases hold
      exact hc.page_size f.pageId p₀ hp₀
    · have hfresh := (hh.fresh hcur).2
      rw [hpage] at hfresh
      cases hfresh
      exact hrefill
  set page' : Page := { page with
    everRings := insert e.ring page.everRings
    everLifetimes := insert e.lifetime page.everLifetimes } with hpage'
  have hold : ∀ q, ((r.caches.get? key).getD {}).page = some q → ∃ page,
      r.pages.get? q = some page ∧ (usageAt r.usage q).alignedBytes ≤ page.size := by
    intro q hq
    obtain ⟨p₀, hp₀, -⟩ := hok q hq
    have hp : r.pages.get? q = some p₀ := by rw [hc.pages_eq]; exact hp₀
    exact ⟨p₀, hp, h.fits hp⟩
  -- the state the method returns, whatever its aggregate
  set usage' := r.usage.set f.pageId ((usageAt r.usage f.pageId).add e) with husage'
  set r₂ : ScenarioReplay := { r with
    aggregate := r.aggregate - (((r.caches.get? key).getD {}).page.map
      (r.pages.at? (priced r.usage))).getD 0
    allocator := { a' with pages := a'.pages.set f.pageId page' }
    caches := r.caches.set key c'
    usage := usage' } with hr₂
  set r₃ : ScenarioReplay := { r₂ with
    aggregate := r₂.aggregate + ((affected ((r.caches.get? key).getD {}).page f.pageId).map
      (r₂.pages.at? (priced r₂.usage))).sum } with hr₃
  have hcached : Cached (r₃.record e state (some key) f) :=
    hc.of_handed hid hh (hacc'.touch hpage rfl rfl rfl rfl rfl) (hpacked'.touch hpage rfl)
      (show page'.size = _ from hsize) rfl rfl rfl rfl
  have htracked : Tracked (r₃.record e state (some key) f).live usage' :=
    h.tracked.add hid { e.buffer state with fragment := f, cache := some key } rfl
  have hpages : r₂.pages = a'.pages.set f.pageId page' := if_neg hc.policy
  refine ⟨r₃, f, ?_, ?_, rfl, rfl⟩
  · have husage : ScenarioReplay.usageAdd
        { r with aggregate := r₂.aggregate, allocator := a', caches := r.caches.set key c' }
        f.pageId e = .ok r₂ := by
      rw [usageAdd_eq (by rw [ScenarioReplay.pages, if_neg hc.policy]; exact hpage),
        setPage_of_ne (by exact hc.policy)]
    have hadd : r₂.addContributions (affected ((r.caches.get? key).getD {}).page f.pageId)
        = .ok r₃ := by
      apply ScenarioReplay.addContributions_eq
      intro q hq
      have hex : ∃ p, r₂.pages.get? q = some p := by
        rw [hpages, get?_set]
        split
        · exact ⟨_, rfl⟩
        · have hcur : ((r.caches.get? key).getD {}).page = some q := by
            simp only [affected, List.mem_dedup, List.mem_filter, List.mem_cons,
              List.not_mem_nil, or_false] at hq
            cases hcp : ((r.caches.get? key).getD {}).page with
            | none => simp_all
            | some q' => simp_all
          obtain ⟨p₀, hp₀, -⟩ := hok q hcur
          obtain ⟨n, freed, hp', -⟩ := hh.old q p₀ hcur hp₀
          exact ⟨_, hp'⟩
      obtain ⟨p, hp⟩ := hex
      refine ⟨p, hp, hcached.fits htracked ?_⟩
      rw [hpages] at hp
      exact hp
    simp only [ScenarioReplay.allocatePagefrag, hkey, requestFragment_eq hh hold, bind,
      Except.bind, pure, Except.pure]
    simp only [hr₂] at husage
    rw [husage]
    show (r₂.addContributions _).bind _ = _
    rw [hadd]
    rfl
  · refine h.of_record hid rfl rfl rfl rfl ?_ (inl hcached)
    have hnew₀ : f.pageId ≠ 0 := by omega
    have hold₀ : ∀ q, ((r.caches.get? key).getD {}).page = some q → q ≠ 0 := by
      intro q hq
      obtain ⟨p₀, hp₀, -⟩ := hok q hq
      have := (hc.accounted.page_id q p₀ hp₀).2.1
      omega
    rw [show r₃.pages = a'.pages.set f.pageId page' from hpages]
    show r.aggregate - _ + _ = _
    have htotal : recomputed (a'.pages.set f.pageId page') usage' = _ :=
      recomputed_handed (fun q hq hne => (get?_set_ne _ hne _).trans (hh.same q hq hne))
        (fun q hq => usageAt_set_ne r.usage hq _) (fun hne => (hh.fresh hne).1) hold₀ hnew₀
    rw [htotal, ← hc.pages_eq, ← h.total, hpages]

/-- `_allocate_direct` on an audited state. -/
theorem Audited.allocateDirect (h : Audited r) (hd : Direct r) (hpos : 0 < e.alignedBytes)
    (hid : r.live.get? e.logicalId = none) (state : BufferState) :
    ∃ r₃ f, r.allocateDirect e = .ok (r₃, none, f) ∧ Audited (r₃.record e state none f) ∧
      r₃.ledger = r.ledger ∧ r₃.policy = r.policy := by
  have hmissing : r.directPages.get? r.nextDirectPage = none := by
    cases hp : r.directPages.get? r.nextDirectPage with
    | none => rfl
    | some page =>
      have := (hd.pages _ page hp).1
      omega
  set page : Page :=
    { pageId := r.nextDirectPage
      size := (e.alignedBytes + pageSize - 1) / pageSize * pageSize
      pfmemalloc := false
      everRings := insert e.ring ∅
      everLifetimes := insert e.lifetime ∅ } with hpage
  have hsize : e.alignedBytes ≤ page.size := by
    show e.alignedBytes ≤ (e.alignedBytes + 4096 - 1) / 4096 * 4096
    omega
  set f : Fragment :=
    { fragmentId := e.logicalId, pageId := r.nextDirectPage, offset := 0,
      size := e.alignedBytes } with hf
  set usage' := r.usage.set r.nextDirectPage ((usageAt r.usage r.nextDirectPage).add e)
  set r₂ : ScenarioReplay := { r with
    nextDirectPage := r.nextDirectPage + 1
    directPages := r.directPages.set r.nextDirectPage page
    usage := usage' } with hr₂
  set r₃ : ScenarioReplay := { r₂ with
    aggregate := r.aggregate + r₂.pages.at? (priced usage') r.nextDirectPage } with hr₃
  have hget : ∀ q p, r₃.directPages.get? q = some p →
      (q = r.nextDirectPage ∧ p = page) ∨ r.directPages.get? q = some p := by
    intro q p hq
    simp only [hr₃, hr₂, get?_set] at hq
    split at hq
    · exact inl ⟨‹_›, (some.inj hq).symm⟩
    · exact inr hq
  have hlive : ∀ id record, (r₃.record e state none f).live.get? id = some record →
      (id = e.logicalId ∧ record = { e.buffer state with fragment := f, cache := none }) ∨
        r.live.get? id = some record := by
    intro id record hr
    simp only [ScenarioReplay.record, hr₃, hr₂, get?_set] at hr
    split at hr
    · exact inl ⟨‹_›, (some.inj hr).symm⟩
    · exact inr hr
  have hbelow : ∀ id record, r.live.get? id = some record →
      record.fragment.pageId < r.nextDirectPage := by
    intro id record hr
    obtain ⟨-, -, p, hp, -⟩ := hd.linked id record hr
    exact (hd.pages _ p hp).1
  have hdirect : Direct (r₃.record e state none f) := by
    constructor
    case policy => exact hd.policy
    case pages =>
      intro q p hq
      show q < r.nextDirectPage + 1 ∧ 0 ≤ p.size
      cases hget q p hq with
      | inl hnew =>
        obtain ⟨rfl, rfl⟩ := hnew
        exact ⟨by omega, by omega⟩
      | inr hold =>
        have := hd.pages q p hold
        exact ⟨by omega, this.2⟩
    case linked =>
      intro id record hr
      cases hlive id record hr with
      | inl hnew =>
        obtain ⟨-, rfl⟩ := hnew
        exact ⟨rfl, hpos, page, get?_set_self _ _ _, rfl, hsize⟩
      | inr hold =>
        obtain ⟨hnone, hpos', p, hp, hfreed, hle⟩ := hd.linked id record hold
        refine ⟨hnone, hpos', p, ?_, hfreed, hle⟩
        show (r.directPages.set _ _).get? _ = _
        rw [get?_set_ne _ (by have := hbelow id record hold; omega)]
        exact hp
    case distinct =>
      intro id record id' record' hr hr' heq
      cases hlive id record hr with
      | inl hnew =>
        cases hlive id' record' hr' with
        | inl hnew' => exact hnew.1.trans hnew'.1.symm
        | inr hold' =>
          have := hbelow id' record' hold'
          rw [← heq, hnew.2] at this
          exact absurd this (lt_irrefl _)
      | inr hold =>
        cases hlive id' record' hr' with
        | inl hnew' =>
          have := hbelow id record hold
          rw [heq, hnew'.2] at this
          exact absurd this (lt_irrefl _)
        | inr hold' => exact hd.distinct id record id' record' hold hold' heq
  have htracked : Tracked (r₃.record e state none f).live usage' :=
    h.tracked.add hid { e.buffer state with fragment := f, cache := none } rfl
  have hpages : r₂.pages = r.directPages.set r.nextDirectPage page := if_pos hd.policy
  refine ⟨r₃, f, ?_, ?_, rfl, rfl⟩
  · have hp₁ : (ScenarioReplay.pages { r with
        nextDirectPage := r.nextDirectPage + 1
        directPages := r.directPages.set r.nextDirectPage
          { page with everRings := ∅, everLifetimes := ∅ } }).get? r.nextDirectPage
        = some { page with everRings := ∅, everLifetimes := ∅ } := by
      rw [ScenarioReplay.pages, if_pos hd.policy]
      exact get?_set_self _ _ _
    have husage := usageAdd_eq (e := e) hp₁
    rw [ScenarioReplay.setPage, if_pos (by exact hd.policy)] at husage
    simp only [set_set] at husage
    have hp₂ : r₂.pages.get? r.nextDirectPage = some page := by
      rw [hpages]
      exact get?_set_self _ _ _
    have hfit : (usageAt r₂.usage r.nextDirectPage).alignedBytes ≤ page.size :=
      hdirect.fits htracked (get?_set_self _ _ _)
    have hadd := ScenarioReplay.addContribution_eq hp₂ hfit
    simp only [ScenarioReplay.allocateDirect, bind, Except.bind]
    rw [show ScenarioReplay.usageAdd _ _ e = _ from husage]
    show (r₂.addContribution _).bind _ = _
    rw [hadd]
    rfl
  · refine h.of_record hid rfl rfl rfl rfl ?_ (inr hdirect)
    have hzero : r.directPages.at? (priced r.usage) r.nextDirectPage = 0 := by
      simp [Dict.at?, hmissing]
    have htotal : recomputed r₂.pages usage' = recomputed r.directPages r.usage
        - r.directPages.at? (priced r.usage) r.nextDirectPage
        + r₂.pages.at? (priced usage') r.nextDirectPage :=
      recomputed_update r.nextDirectPage
        (fun q hq => by rw [hpages]; exact get?_set_ne _ hq _)
        (fun q hq => usageAt_set_ne r.usage hq _)
    rw [hzero, sub_zero, hd.pages_eq, ← h.total] at htotal
    exact htotal.symm

theorem Audited.allocate (h : Audited r) (hpos : 0 < e.alignedBytes)
    (hmax : e.alignedBytes ≤ pageFragCacheMaxSize) (hid : r.live.get? e.logicalId = none)
    (state : BufferState) :
    ∃ r', r.allocate e state = .ok r' ∧ Audited r' ∧ r'.policy = r.policy ∧
      r'.ledger = { buffers := r.ledger.buffers.set e.logicalId (e.buffer state)
                    allocations := r.ledger.allocations + 1 } := by
  cases h.backed with
  | inl hc =>
    have hkey : ∃ key, r.policy.cacheKey e = .ok key := by
      unfold Policy.cacheKey
      cases hp : r.policy with
      | shared => exact ⟨_, rfl⟩
      | perRing =>
        by_cases hce : e.source = "ce"
        · exact ⟨_, if_pos hce⟩
        · exact ⟨_, if_neg hce⟩
      | sameRingOnly => exact ⟨_, rfl⟩
      | nonPagefrag => exact absurd hp hc.policy
    obtain ⟨key, hkey⟩ := hkey
    obtain ⟨r₃, f, heq, haud, hledger, hpolicy⟩ :=
      h.allocatePagefrag hc hkey hpos hmax hid state
    refine ⟨_, ?_, haud, hpolicy, by rw [record_ledger, hledger]⟩
    simp only [ScenarioReplay.allocate, hid, if_neg hc.policy, heq, bind, Except.bind, pure,
      Except.pure]
  | inr hd =>
    obtain ⟨r₃, f, heq, haud, hledger, hpolicy⟩ := h.allocateDirect hd hpos hid state
    refine ⟨_, ?_, haud, hpolicy, by rw [record_ledger, hledger]⟩
    simp only [ScenarioReplay.allocate, hid, if_pos hd.policy, heq, bind, Except.bind, pure,
      Except.pure]

end Allocation

/-! ## Reaping -/

section Reaping

variable {r r' : ScenarioReplay} {id : Nat} {record : LiveRecord} {st : BufferState}

theorem get?_restated (hid : r.live.get? id = some record)
    (hlive : r'.live = r.live.set id { record with state := st }) (k : Nat) (rec' : LiveRecord)
    (hk : r'.live.get? k = some rec') : ∃ rec₀, r.live.get? k = some rec₀ ∧
      rec'.fragment = rec₀.fragment ∧ rec'.cache = rec₀.cache ∧
      rec'.alignedBytes = rec₀.alignedBytes := by
  rw [hlive, get?_set] at hk
  split at hk
  · rename_i heq
    cases hk
    exact ⟨record, heq ▸ hid, rfl, rfl, rfl⟩
  · exact ⟨rec', hk, rfl, rfl, rfl⟩

theorem Cached.restate (hc : Cached r) (hid : r.live.get? id = some record)
    (hlive : r'.live = r.live.set id { record with state := st })
    (hpolicy : r'.policy = r.policy) (hsys : r'.system = r.system) : Cached r' := by
  have hget := get?_restated hid hlive
  have halloc : r'.allocator = r.allocator := congrArg System.allocator hsys
  have hcaches : r'.caches = r.caches := congrArg System.caches hsys
  constructor
  case policy => exact hpolicy ▸ hc.policy
  case accounted => exact hsys ▸ hc.accounted
  case packed => exact hsys ▸ hc.packed
  case settings => exact halloc ▸ hc.settings
  case page_size => exact halloc ▸ hc.page_size
  case linked =>
    intro k rec' hk
    obtain ⟨rec₀, hk₀, hfrag, hcache, haligned⟩ := hget k rec' hk
    rw [hfrag, hcache, haligned, hcaches]
    exact hc.linked k rec₀ hk₀
  case distinct =>
    intro k rec' k' rec'' hk hk' hcache hfrag
    obtain ⟨rec₀, hk₀, hf₀, hc₀, -⟩ := hget k rec' hk
    obtain ⟨rec₁, hk₁, hf₁, hc₁, -⟩ := hget k' rec'' hk'
    rw [hc₀, hc₁] at hcache
    rw [hf₀, hf₁] at hfrag
    exact hc.distinct k rec₀ k' rec₁ hk₀ hk₁ hcache hfrag
  case bytes =>
    intro q
    rw [hlive, hsys]
    exact (recSum_replace hid rfl rfl).trans (hc.bytes q)

theorem Direct.restate (hd : Direct r) (hid : r.live.get? id = some record)
    (hlive : r'.live = r.live.set id { record with state := st })
    (hpolicy : r'.policy = r.policy) (hpages : r'.directPages = r.directPages)
    (hnext : r'.nextDirectPage = r.nextDirectPage) : Direct r' := by
  have hget := get?_restated hid hlive
  constructor
  case policy => exact hpolicy.trans hd.policy
  case pages => rw [hpages, hnext]; exact hd.pages
  case linked =>
    intro k rec' hk
    obtain ⟨rec₀, hk₀, hfrag, hcache, haligned⟩ := hget k rec' hk
    rw [hfrag, hcache, haligned, hpages]
    exact hd.linked k rec₀ hk₀
  case distinct =>
    intro k rec' k' rec'' hk hk' hfrag
    obtain ⟨rec₀, hk₀, hf₀, -⟩ := hget k rec' hk
    obtain ⟨rec₁, hk₁, hf₁, -⟩ := hget k' rec'' hk'
    rw [hf₀, hf₁] at hfrag
    exact hd.distinct k rec₀ k' rec₁ hk₀ hk₁ hfrag

/-- `_reap` of a posted buffer. -/
theorem Audited.reap {e : Event} (h : Audited r) (hid : r.live.get? e.logicalId = some record)
    (hstate : record.state = .posted) :
    ∃ r', r.reap e = .ok r' ∧ Audited r' ∧ r'.policy = r.policy ∧
      r'.ledger = { r.ledger with
        buffers := r.ledger.buffers.set e.logicalId
          { record.toBuffer with state := .reaped } } := by
  set r' : ScenarioReplay := { r with
    live := r.live.set e.logicalId { record with state := .reaped }
    posted := r.posted - 1
    reaped := r.reaped + 1 } with hr'
  have hledger : r'.ledger = { r.ledger with
      buffers := r.ledger.buffers.set e.logicalId
        { record.toBuffer with state := .reaped } } := by
    simp [hr', ScenarioReplay.ledger, map_set]
  have hget : r.ledger.buffers.get? e.logicalId = some record.toBuffer := by
    rw [ledger_get?, hid]
    rfl
  have hcount : ∀ st, r'.ledger.count st = r.ledger.count st
      - (if record.state = st then 1 else 0) + (if .reaped = st then 1 else 0) := by
    intro st
    rw [hledger]
    exact sum_set_old hget _ _
  refine ⟨r', ?_, ?_, rfl, hledger⟩
  · simp [ScenarioReplay.reap, hid, hstate, hr']
  · constructor
    case tracked => exact h.tracked.restate hid .reaped
    case total => exact h.total
    case posted =>
      rw [hcount, hstate, ← h.posted]
      simp [hr']
    case reaped =>
      rw [hcount, hstate, ← h.reaped]
      simp [hr']
    case backed =>
      cases h.backed with
      | inl hc => exact inl (hc.restate hid rfl rfl rfl)
      | inr hd => exact inr (hd.restate hid rfl rfl rfl rfl)

end Reaping

/-! ## Freeing -/

section Freeing

variable {r r₄ : ScenarioReplay} {e : Event} {record : LiveRecord}

variable {live : Dict Nat LiveRecord}

/-- `_usage_remove` on tracked usage: its last check does not fire. -/
theorem usageRemove_eq {id : Nat} (ht : Tracked live r.usage) (hid : live.get? id = some record) :
    r.usageRemove record = .ok { r with
      usage := r.usage.set record.fragment.pageId
        ((usageAt r.usage record.fragment.pageId).remove record) } := by
  have hafter := ht.remove hid record.fragment.pageId
  rw [usageAt_set_self] at hafter
  simp only [ScenarioReplay.usageRemove, ht.get?_of_live hid]
  rw [if_neg]
  rintro ⟨hzero, hleft⟩
  obtain ⟨hreq, hal, hrings, hlife⟩ := hafter.empty hzero
  simp [hreq, hal, hrings, hlife] at hleft

/-- `_free`, up to how the backing memory is freed. -/
theorem Audited.free_of_backing (h : Audited r) (hid : r.live.get? e.logicalId = some record)
    (hstate : record.state = .reaped) {usage' : Dict Nat PageUsage}
    (husage' : usage' = r.usage.set record.fragment.pageId
      ((usageAt r.usage record.fragment.pageId).remove record))
    {a' : Aggregate} (ha' : a' = r.aggregate
      - r.pages.at? (priced r.usage) record.fragment.pageId)
    (hbacking : ScenarioReplay.freeBacking { r with
        live := r.live.del e.logicalId, aggregate := a', usage := usage' } record = .ok r₄)
    (hpolicy : r₄.policy = r.policy) (hlive : r₄.live = r.live.del e.logicalId)
    (husage : r₄.usage = usage') (haggregate : r₄.aggregate = a')
    (hposted : r₄.posted = r.posted) (hreaped : r₄.reaped = r.reaped)
    (hallocs : r₄.allocations = r.allocations)
    (hother : ∀ q, q ≠ record.fragment.pageId → r₄.pages.get? q = r.pages.get? q)
    (hpage : ∃ page, r₄.pages.get? record.fragment.pageId = some page)
    (hbacked : Cached r₄ ∨ Direct r₄) :
    ∃ r', r.free e = .ok r' ∧ Audited r' ∧ r'.policy = r.policy ∧
      r'.ledger = { r.ledger with buffers := r.ledger.buffers.del e.logicalId } := by
  obtain ⟨page₀, hpage₀, -⟩ := h.home hid
  have hremove : ScenarioReplay.removeContribution { r with live := r.live.del e.logicalId }
      record.fragment.pageId = .ok { r with live := r.live.del e.logicalId, aggregate := a' } := by
    rw [ha']
    exact ScenarioReplay.removeContribution_eq hpage₀ (h.fits hpage₀)
  have husageRemove : ScenarioReplay.usageRemove
      { r with live := r.live.del e.logicalId, aggregate := a' } record = .ok { r with
        live := r.live.del e.logicalId, aggregate := a', usage := usage' } := by
    rw [husage']
    exact usageRemove_eq h.tracked hid
  have htracked : Tracked r₄.live r₄.usage := by
    rw [hlive, husage, husage']
    exact h.tracked.remove hid
  obtain ⟨page, hpage⟩ := hpage
  have hfit : (usageAt r₄.usage record.fragment.pageId).alignedBytes ≤ page.size := by
    cases hbacked with
    | inl hc => exact hc.fits htracked (hc.pages_eq ▸ hpage)
    | inr hd => exact hd.fits htracked (hd.pages_eq ▸ hpage)
  have hadd := ScenarioReplay.addContribution_eq hpage hfit
  set r' : ScenarioReplay := { r₄ with
    aggregate := r₄.aggregate + r₄.pages.at? (priced r₄.usage) record.fragment.pageId
    reaped := r₄.reaped - 1 } with hr'
  have hledger : r'.ledger = { r.ledger with
      buffers := r.ledger.buffers.del e.logicalId } := by
    simp [hr', ScenarioReplay.ledger, hlive, hallocs, map_del]
  have hget : r.ledger.buffers.get? e.logicalId = some record.toBuffer := by
    rw [ledger_get?, hid]
    rfl
  have hcount : ∀ st, r'.ledger.count st = r.ledger.count st
      - (if record.state = st then 1 else 0) := by
    intro st
    rw [hledger]
    exact sum_del hget _
  refine ⟨r', ?_, ?_, hpolicy, hledger⟩
  · simp only [ScenarioReplay.free, hid, hstate, ne_eq, not_true_eq_false, if_false, hremove,
      husageRemove, hbacking, hadd, bind, Except.bind, pure, Except.pure, hr']
  · constructor
    case tracked => exact htracked
    case total =>
      have htotal : recomputed r₄.pages r₄.usage = recomputed r.pages r.usage
          - r.pages.at? (priced r.usage) record.fragment.pageId
          + r₄.pages.at? (priced r₄.usage) record.fragment.pageId :=
        recomputed_update record.fragment.pageId hother
          (fun q hq => by rw [husage, husage']; exact usageAt_set_ne r.usage hq _)
      rw [← h.total, ← ha', ← haggregate] at htotal
      exact htotal.symm
    case posted =>
      rw [hcount, hstate, ← h.posted]
      simp [hr', hposted]
    case reaped =>
      rw [hcount, hstate, ← h.reaped]
      simp [hr', hreaped]
    case backed =>
      cases hbacked with
      | inl hc => exact inl ⟨hc.policy, hc.accounted, hc.packed, hc.settings, hc.page_size,
          hc.linked, hc.distinct, hc.bytes⟩
      | inr hd => exact inr ⟨hd.policy, hd.pages, hd.linked, hd.distinct⟩

theorem get?_of_del {id k : Nat} {rec' : LiveRecord} (hk : (live.del id).get? k = some rec') :
    k ≠ id ∧ live.get? k = some rec' := by
  rw [get?_del] at hk
  split at hk
  · cases hk
  · exact ⟨‹_›, hk⟩

/-- `_free` of a fragment of a cache. -/
theorem Audited.freeCached (h : Audited r) (hc : Cached r)
    (hid : r.live.get? e.logicalId = some record) (hstate : record.state = .reaped) :
    ∃ r', r.free e = .ok r' ∧ Audited r' ∧ r'.policy = r.policy ∧
      r'.ledger = { r.ledger with buffers := r.ledger.buffers.del e.logicalId } := by
  obtain ⟨hsz, key, c, hkey, hck, hl⟩ := hc.linked _ record hid
  obtain ⟨page, hpage, hfreed, href⟩ := hc.accounted.live_page hck hl
  have hfree := free_eq hl hpage hfreed href
  have hmicro := System.Micro.free hck hl hpage hfreed
  have hacc := hc.accounted.micro hmicro
  have hpacked := hc.packed.micro hc.accounted hmicro
  set a₁ := r.allocator.dropRefs record.fragment.pageId page 1 with ha₁
  set c₁ : PageFragCache := { c with live := c.live.del record.fragment.fragmentId } with hc₁
  obtain ⟨⟨freed, hself⟩, hother⟩ :=
    dropRefs_get? (a := r.allocator) record.fragment.pageId 1 hfreed
  set r₃ : ScenarioReplay := { r with
    live := r.live.del e.logicalId
    aggregate := r.aggregate - r.pages.at? (priced r.usage) record.fragment.pageId
    usage := r.usage.set record.fragment.pageId
      ((usageAt r.usage record.fragment.pageId).remove record) } with hr₃
  have hbacking : r₃.freeBacking record
      = .ok { r₃ with allocator := a₁, caches := r.caches.set key c₁ } := by
    have hfree' : c.free r.allocator record.fragment = .ok (a₁, c₁) := hfree
    simp only [ScenarioReplay.freeBacking, hkey, hr₃, hck, hfree']
  have hcached : Cached { r₃ with allocator := a₁, caches := r.caches.set key c₁ } := by
    constructor
    case policy => exact hc.policy
    case accounted => exact hacc
    case packed => exact hpacked
    case settings =>
      obtain ⟨-, -, hset⟩ :=
        refillPage_dropRefs (a := r.allocator) record.fragment.pageId page 1
      exact ⟨hset.1.trans hc.settings.1, hset.2.trans hc.settings.2⟩
    case page_size =>
      intro q p hq
      obtain ⟨p₀, hp₀, hsize⟩ := Packed.dropRefs_pages hpage q p hq
      exact hsize.trans (hc.page_size q p₀ hp₀)
    case linked =>
      intro k rec' hk
      obtain ⟨hne, hk₀⟩ := get?_of_del hk
      obtain ⟨hsz', k', c', hk', hck', hl'⟩ := hc.linked k rec' hk₀
      by_cases heq : k' = key
      · subst heq
        rw [hck] at hck'
        cases hck'
        refine ⟨hsz', k', c₁, hk', get?_set_self _ _ _, ?_⟩
        rw [hc₁, get?_del_ne]
        · exact hl'
        · intro hfrag
          exact hne (hc.distinct k rec' _ record hk₀ hid (hk'.trans hkey.symm) hfrag)
      · exact ⟨hsz', k', c', hk', (get?_set_ne _ heq _).trans hck', hl'⟩
    case distinct =>
      intro k rec' k' rec'' hk hk'
      exact hc.distinct k rec' k' rec'' (get?_of_del hk).2 (get?_of_del hk').2
    case bytes =>
      intro q
      have hput := System.fragSum_put (s := r.system) hck a₁ c₁ (·.size) q
      rw [hc₁, fragSum_del hl, ← hsz, ← hc.bytes q] at hput
      show recSum (r.live.del e.logicalId) _ q = (r.system.put key a₁ c₁).fragSum _ q
      rw [hput, recSum_del hid]
      abel
  refine h.free_of_backing hid hstate rfl rfl hbacking rfl rfl rfl rfl rfl rfl rfl
    (fun q hq => ?_) ?_ (inl hcached)
  · rw [hcached.pages_eq, hc.pages_eq]
    exact hother q hq
  · rw [hcached.pages_eq]
    exact ⟨_, hself⟩

/-- `_free` of a direct allocation. -/
theorem Audited.freeDirect (h : Audited r) (hd : Direct r)
    (hid : r.live.get? e.logicalId = some record) (hstate : record.state = .reaped) :
    ∃ r', r.free e = .ok r' ∧ Audited r' ∧ r'.policy = r.policy ∧
      r'.ledger = { r.ledger with buffers := r.ledger.buffers.del e.logicalId } := by
  obtain ⟨hnone, -, page, hpage, -, -⟩ := hd.linked _ record hid
  set r₃ : ScenarioReplay := { r with
    live := r.live.del e.logicalId
    aggregate := r.aggregate - r.pages.at? (priced r.usage) record.fragment.pageId
    usage := r.usage.set record.fragment.pageId
      ((usageAt r.usage record.fragment.pageId).remove record) } with hr₃
  have hbacking : r₃.freeBacking record = .ok { r₃ with
      directPages := r.directPages.set record.fragment.pageId
        { page with refcount := 0, freed := true }
      directFrees := r.directFrees + 1 } := by
    simp only [ScenarioReplay.freeBacking, hnone, hr₃, hpage]
  have hdirect : Direct { r₃ with
      directPages := r.directPages.set record.fragment.pageId
        { page with refcount := 0, freed := true }
      directFrees := r.directFrees + 1 } := by
    constructor
    case policy => exact hd.policy
    case pages =>
      intro q p hq
      obtain ⟨p₀, hp₀, hsize⟩ := Packed.set_size hq hpage rfl
      have := hd.pages q p₀ hp₀
      exact ⟨this.1, by rw [hsize]; exact this.2⟩
    case linked =>
      intro k rec' hk
      obtain ⟨hne, hk₀⟩ := get?_of_del hk
      obtain ⟨hnone', hpos, p, hp, hfreed, hle⟩ := hd.linked k rec' hk₀
      have hpid : rec'.fragment.pageId ≠ record.fragment.pageId :=
        fun heq => hne (hd.distinct k rec' _ record hk₀ hid heq)
      exact ⟨hnone', hpos, p, (get?_set_ne _ hpid _).trans hp, hfreed, hle⟩
    case distinct =>
      intro k rec' k' rec'' hk hk'
      exact hd.distinct k rec' k' rec'' (get?_of_del hk).2 (get?_of_del hk').2
  refine h.free_of_backing hid hstate rfl rfl hbacking rfl rfl rfl rfl rfl rfl rfl
    (fun q hq => ?_) ?_ (inr hdirect)
  · rw [← hdirect.pages_eq, ← hd.pages_eq]
    exact get?_set_ne _ hq _
  · rw [← hdirect.pages_eq]
    exact ⟨_, get?_set_self _ _ _⟩

end Freeing

/-! ## Every event -/

/-- **The step lemma**: an event the ledger takes is one the replay takes
without raising; the books are right afterwards, and the live records are
the ledger's buffers. -/
theorem Audited.process {r : ScenarioReplay} (h : Audited r) {e : Event} (hsized : e.Sized)
    {l : Ledger} (hl : r.ledger.process e = some l) :
    ∃ r', r.process e = .ok r' ∧ Audited r' ∧ r'.policy = r.policy ∧ r'.ledger = l := by
  unfold ScenarioReplay.process
  unfold Ledger.process at hl
  cases ha : e.action with
  | post =>
    obtain ⟨hpos, hmax⟩ := hsized (inl ha)
    simp only [ha, Ledger.allocate, ledger_get?] at hl ⊢
    cases hid : r.live.get? e.logicalId with
    | some record => simp [hid] at hl
    | none =>
      obtain ⟨r', hok, haud, hpolicy, hledger⟩ := h.allocate hpos hmax hid .posted
      rw [hid] at hl
      exact ⟨r', hok, haud, hpolicy, hledger.trans (some.inj hl)⟩
  | alloc =>
    obtain ⟨hpos, hmax⟩ := hsized (inr ha)
    simp only [ha, Ledger.allocate, ledger_get?] at hl ⊢
    cases hid : r.live.get? e.logicalId with
    | some record => simp [hid] at hl
    | none =>
      obtain ⟨r', hok, haud, hpolicy, hledger⟩ := h.allocate hpos hmax hid .reaped
      rw [hid] at hl
      exact ⟨r', hok, haud, hpolicy, hledger.trans (some.inj hl)⟩
  | reap =>
    simp only [ha, ledger_get?] at hl ⊢
    cases hid : r.live.get? e.logicalId with
    | none => simp [hid] at hl
    | some record =>
      simp only [hid, map_some] at hl
      split at hl
      · obtain ⟨r', hok, haud, hpolicy, hledger⟩ := h.reap hid ‹_›
        exact ⟨r', hok, haud, hpolicy, hledger.trans (some.inj hl)⟩
      · cases hl
  | free =>
    simp only [ha, ledger_get?] at hl ⊢
    cases hid : r.live.get? e.logicalId with
    | none => simp [hid] at hl
    | some record =>
      simp only [hid, map_some] at hl
      split at hl
      · have hfree : ∃ r', r.free e = .ok r' ∧ Audited r' ∧ r'.policy = r.policy ∧
            r'.ledger = { r.ledger with buffers := r.ledger.buffers.del e.logicalId } := by
          cases h.backed with
          | inl hc => exact h.freeCached hc hid ‹_›
          | inr hd => exact h.freeDirect hd hid ‹_›
        obtain ⟨r', hok, haud, hpolicy, hledger⟩ := hfree
        exact ⟨r', hok, haud, hpolicy, hledger.trans (some.inj hl)⟩
      · cases hl

end LibWrt.PageFrag
