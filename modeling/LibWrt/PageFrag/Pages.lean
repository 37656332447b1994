/-
LibWrt.PageFrag.Pages — what one event does to the backing pages.

Pages are never taken out of a replay's books: an event makes at most one,
and changes of the others the reference count, the freed flag and, on the
page its fragment landed on, the histories. `Stepped` says this for every
action of the stream, together with where a fragment can land: on a page
that did not exist, or on the current page of the cache the policy sends the
event to. It is read off the equations of the audit, so that the results
about page histories and about integrals over time need no case analysis of
the replay of their own.
-/
import LibWrt.PageFrag.Lockstep

namespace LibWrt.PageFrag

open Or

/-- From `pages` to `pages'` by an event whose fragment lands on page `land`. -/
structure Evolves (e : Event) (land : Option Nat) (pages pages' : Dict Nat Page) : Prop where
  old : ∀ q p, pages.get? q = some p → ∃ n freed, (p.freed = true → freed = true) ∧
    pages'.get? q = some { p with
      refcount := n
      freed := freed
      everRings := if land = some q then insert e.ring p.everRings else p.everRings
      everLifetimes :=
        if land = some q then insert e.lifetime p.everLifetimes else p.everLifetimes }
  new : ∀ q p', pages.get? q = none → pages'.get? q = some p' →
    land = some q ∧ p'.everRings = {e.ring} ∧ p'.everLifetimes = {e.lifetime}

structure Stepped (e : Event) (land : Option Nat) (r r' : ScenarioReplay) : Prop where
  evolves : Evolves e land r.pages r'.pages
  landed : ∀ q, land = some q ↔
    e.Allocates ∧ (r'.live.get? e.logicalId).map (·.fragment.pageId) = some q
  current : r.policy ≠ .nonPagefrag → ∀ key c q, r'.caches.get? key = some c →
    c.page = some q → (land = some q ∧ r.policy.cacheKey e = .ok key) ∨
      (land ≠ some q ∧ ∃ c₀, r.caches.get? key = some c₀ ∧ c₀.page = some q)
  source : ∀ q, land = some q → r.pages.get? q = none ∨
    ∃ key c₀, r.policy.cacheKey e = .ok key ∧ r.caches.get? key = some c₀ ∧ c₀.page = some q

/-! ## Pages under one change -/

section Evolution

variable {e : Event} {pages pages' : Dict Nat Page} {k : Nat} {page : Page}

theorem Evolves.refl (e : Event) (pages : Dict Nat Page) : Evolves e none pages pages where
  old := fun q p hq => ⟨p.refcount, p.freed, fun h => h, by simp [hq]⟩
  new := fun q p' hnone hsome => by
    rw [hnone] at hsome
    cases hsome

/-- A page loses references, and may be freed. -/
theorem Evolves.drop (e : Event) (hpage : pages.get? k = some page) {n : Int} {freed : Bool}
    (hfreed : page.freed = true → freed = true)
    (hself : pages'.get? k = some { page with refcount := n, freed := freed })
    (hother : ∀ q, q ≠ k → pages'.get? q = pages.get? q) : Evolves e none pages pages' where
  old := fun q p hq => by
    by_cases hk : q = k
    · subst hk
      rw [hpage] at hq
      cases hq
      exact ⟨n, freed, hfreed, by simp [hself]⟩
    · exact ⟨p.refcount, p.freed, fun h => h, by simp [hother q hk, hq]⟩
  new := fun q p' hnone hsome => by
    have hne : q ≠ k := by
      intro hk
      rw [hk, hpage] at hnone
      cases hnone
    rw [hother q hne, hnone] at hsome
    cases hsome

theorem Evolves.make (hnone : pages.get? k = none) (hrings : page.everRings = {e.ring})
    (hlifetimes : page.everLifetimes = {e.lifetime}) :
    Evolves e (some k) pages (pages.set k page) where
  old := fun q p hq => by
    have hne : q ≠ k := by
      intro hk
      rw [hk, hnone] at hq
      cases hq
    refine ⟨p.refcount, p.freed, fun h => h, ?_⟩
    rw [Dict.get?_set_ne _ hne, hq]
    simp [Ne.symm hne]
  new := fun q p' hq hsome => by
    rw [Dict.get?_set] at hsome
    split at hsome
    · rename_i hk
      cases hsome
      exact ⟨by rw [hk], hrings, hlifetimes⟩
    · rw [hq] at hsome
      cases hsome

end Evolution

/-! ## Allocation -/

section Allocating

variable {r r₃ : ScenarioReplay} {e : Event} {state : BufferState}
  {cache : Option (List String)} {f : Fragment}

theorem ScenarioReplay.addContribution_frame {pid : Nat} {r' : ScenarioReplay}
    (h : r.addContribution pid = .ok r') : ∃ a, r' = { r with aggregate := a } := by
  unfold ScenarioReplay.addContribution at h
  cases hc : r.contribution pid with
  | error err => simp [hc, bind, Except.bind] at h
  | ok c =>
    simp only [hc, bind, Except.bind, pure, Except.pure, Except.ok.injEq] at h
    exact ⟨_, h.symm⟩

theorem ScenarioReplay.addContributions_frame {pids : List Nat} :
    ∀ {r r' : ScenarioReplay}, r.addContributions pids = .ok r' →
      ∃ a, r' = { r with aggregate := a } := by
  induction pids with
  | nil =>
    intro r r' h
    cases h
    exact ⟨r.aggregate, rfl⟩
  | cons pid pids ih =>
    intro r r' h
    simp only [ScenarioReplay.addContributions, bind, Except.bind] at h
    cases hadd : r.addContribution pid with
    | error err => simp [hadd] at h
    | ok r₁ =>
      rw [hadd] at h
      obtain ⟨a, rfl⟩ := ScenarioReplay.addContribution_frame hadd
      obtain ⟨a', rfl⟩ := ih h
      exact ⟨a', rfl⟩

/-- The cache of an event serves it. -/
theorem Cached.handed (hc : Cached r) (key : List String) (hpos : 0 < e.alignedBytes)
    (hmax : e.alignedBytes ≤ pageFragCacheMaxSize) :
    CurrentOk r.allocator ((r.caches.get? key).getD {}) ∧
      ∃ f a' c', Handed r.allocator ((r.caches.get? key).getD {}) e.alignedBytes f a' c' := by
  have hcreate : (r.system.create key).caches.get? key = some ((r.caches.get? key).getD {}) :=
    System.create_get? r.system key
  have hok : CurrentOk r.allocator ((r.caches.get? key).getD {}) := by
    have := (hc.accounted.create key).currentOk hcreate
    rwa [System.create_allocator] at this
  have hrefill : r.allocator.refillPage.size = pageFragCacheMaxSize := by
    simp [PhysicalAllocator.refillPage, hc.settings.1]
  exact ⟨hok, PageFragCache.handed hok hpos (by omega)
    (fun q page _ hq => by rw [hc.page_size q page hq]; exact hmax) hc.accounted.fresh_page⟩

/-- Where `_allocate_pagefrag` leaves the pages and the caches. -/
theorem Audited.allocatePagefrag_cases (h : Audited r) (hc : Cached r)
    (hpos : 0 < e.alignedBytes) (hmax : e.alignedBytes ≤ pageFragCacheMaxSize)
    (hrun : r.allocatePagefrag e = .ok (r₃, cache, f)) :
    ∃ key a' c' page, r.policy.cacheKey e = .ok key ∧
      CurrentOk r.allocator ((r.caches.get? key).getD {}) ∧
      Handed r.allocator ((r.caches.get? key).getD {}) e.alignedBytes f a' c' ∧
      a'.pages.get? f.pageId = some page ∧
      r₃.allocator.pages = a'.pages.set f.pageId { page with
        everRings := insert e.ring page.everRings
        everLifetimes := insert e.lifetime page.everLifetimes } ∧
      r₃.caches = r.caches.set key c' ∧ r₃.policy = r.policy := by
  cases hkey : r.policy.cacheKey e with
  | error err => simp [ScenarioReplay.allocatePagefrag, hkey, bind, Except.bind] at hrun
  | ok key =>
    obtain ⟨hok, f', a', c', hh⟩ := hc.handed key hpos hmax
    have hold : ∀ q, ((r.caches.get? key).getD {}).page = some q → ∃ page,
        r.pages.get? q = some page ∧ (usageAt r.usage q).alignedBytes ≤ page.size := by
      intro q hq
      obtain ⟨p₀, hp₀, -⟩ := hok q hq
      have hp : r.pages.get? q = some p₀ := by rw [hc.pages_eq]; exact hp₀
      exact ⟨p₀, hp, h.fits hp⟩
    have hpage : ∃ page, a'.pages.get? f'.pageId = some page := by
      by_cases hcur : ((r.caches.get? key).getD {}).page = some f'.pageId
      · obtain ⟨p₀, hp₀, -⟩ := hok f'.pageId hcur
        obtain ⟨n, freed, hget, -⟩ := hh.old f'.pageId p₀ hcur hp₀
        exact ⟨_, hget⟩
      · exact ⟨_, (hh.fresh hcur).2⟩
    obtain ⟨page, hpage⟩ := hpage
    simp only [ScenarioReplay.allocatePagefrag, hkey, requestFragment_eq hh hold, bind,
      Except.bind, pure, Except.pure] at hrun
    rw [usageAdd_eq (by rw [ScenarioReplay.pages, if_neg hc.policy]; exact hpage),
      setPage_of_ne (by exact hc.policy)] at hrun
    simp only at hrun
    split at hrun
    · cases hrun
    · rename_i r₄ hadd
      obtain ⟨a, rfl⟩ := ScenarioReplay.addContributions_frame hadd
      cases hrun
      exact ⟨key, a', c', page, rfl, hok, hh, hpage, rfl, rfl, rfl⟩

theorem Handed.evolves {a a' : PhysicalAllocator} {c c' : PageFragCache} {size : Int}
    (hh : Handed a c size f a' c') (hok : CurrentOk a c) {page : Page}
    (hpage : a'.pages.get? f.pageId = some page) :
    Evolves e (some f.pageId) a.pages (a'.pages.set f.pageId { page with
      everRings := insert e.ring page.everRings
      everLifetimes := insert e.lifetime page.everLifetimes }) where
  old := fun q p hq => by
    by_cases hf : q = f.pageId
    · subst hf
      have hcur : c.page = some f.pageId := by
        by_contra hne
        rw [(hh.fresh hne).1] at hq
        cases hq
      obtain ⟨n, freed, hget, hfreed⟩ := hh.old f.pageId p hcur hq
      rw [hpage] at hget
      cases hget
      refine ⟨n, freed, fun h => by rw [hfreed rfl]; exact h, ?_⟩
      rw [Dict.get?_set_self]
      simp
    · rw [Dict.get?_set_ne _ hf]
      by_cases hcur : c.page = some q
      · obtain ⟨p₀, hp₀, hlive, -⟩ := hok q hcur
        rw [hq] at hp₀
        cases hp₀
        obtain ⟨n, freed, hget, -⟩ := hh.old q p hcur hq
        refine ⟨n, freed, fun h => ?_, ?_⟩
        · rw [hlive] at h
          cases h
        · rw [hget]
          simp [Ne.symm hf]
      · refine ⟨p.refcount, p.freed, fun h => h, ?_⟩
        rw [hh.same q hcur hf, hq]
        simp [Ne.symm hf]
  new := fun q p' hnone hsome => by
    have hcur : c.page ≠ some q := by
      intro hcur
      obtain ⟨p₀, hp₀, -⟩ := hok q hcur
      rw [hnone] at hp₀
      cases hp₀
    rw [Dict.get?_set] at hsome
    split at hsome
    · rename_i hf
      subst hf
      rw [(hh.fresh hcur).2] at hpage
      cases hpage
      cases hsome
      exact ⟨rfl, by simp [PhysicalAllocator.refillPage], by simp [PhysicalAllocator.refillPage]⟩
    · rename_i hf
      rw [hh.same q hcur hf, hnone] at hsome
      cases hsome

theorem Audited.stepped_cached (h : Audited r) (hc : Cached r) (ha : e.Allocates)
    (hpos : 0 < e.alignedBytes) (hmax : e.alignedBytes ≤ pageFragCacheMaxSize)
    (hrun : r.allocatePagefrag e = .ok (r₃, cache, f)) :
    Stepped e (some f.pageId) r (r₃.record e state cache f) := by
  obtain ⟨key, a', c', page, hkey, hok, hh, hpage, hpages, hcaches, hpolicy⟩ :=
    h.allocatePagefrag_cases hc hpos hmax hrun
  constructor
  case evolves =>
    have hafter : (r₃.record e state cache f).pages = r₃.allocator.pages :=
      if_neg (by show r₃.policy ≠ _; rw [hpolicy]; exact hc.policy)
    rw [hafter, hpages, hc.pages_eq]
    exact hh.evolves hok hpage
  case landed =>
    intro q
    simp [ScenarioReplay.record, ha]
  case current =>
    intro _ k c q hk hq
    have hk' : (r.caches.set key c').get? k = some c := by rw [← hcaches]; exact hk
    rw [Dict.get?_set] at hk'
    split at hk'
    · rename_i heq
      cases hk'
      exact inl ⟨hh.page.symm.trans hq, by rw [hkey, heq]⟩
    · rename_i hne
      refine inr ⟨fun heq => ?_, c, hk', hq⟩
      -- no other cache has the page the fragment is on
      cases heq
      by_cases hcur : ((r.caches.get? key).getD {}).page = some f.pageId
      · cases hck : r.caches.get? key with
        | none => simp [hck] at hcur
        | some c₀ =>
          rw [hck] at hcur
          exact hne (hc.accounted.owner k key c c₀ f.pageId hk' hck hq hcur)
      · obtain ⟨-, -, p, hp, -⟩ := hc.accounted.current k c f.pageId hk' hq
        have hp' : r.allocator.pages.get? f.pageId = some p := hp
        rw [(hh.fresh hcur).1] at hp'
        cases hp'
  case source =>
    intro q hq
    cases hq
    by_cases hcur : ((r.caches.get? key).getD {}).page = some f.pageId
    · cases hck : r.caches.get? key with
      | none => simp [hck] at hcur
      | some c₀ =>
        rw [hck] at hcur
        exact inr ⟨key, c₀, hkey, hck, hcur⟩
    · left
      rw [hc.pages_eq]
      exact (hh.fresh hcur).1

theorem Audited.stepped_direct (hd : Direct r) (ha : e.Allocates)
    (hrun : r.allocateDirect e = .ok (r₃, cache, f)) :
    Stepped e (some f.pageId) r (r₃.record e state cache f) := by
  have hmissing : r.directPages.get? r.nextDirectPage = none := by
    cases hp : r.directPages.get? r.nextDirectPage with
    | none => rfl
    | some page =>
      have := (hd.pages _ page hp).1
      omega
  set page : Page :=
    { pageId := r.nextDirectPage
      size := (e.alignedBytes + pageSize - 1) / pageSize * pageSize
      pfmemalloc := false } with hpage
  have hp₁ : (ScenarioReplay.pages { r with
      nextDirectPage := r.nextDirectPage + 1
      directPages := r.directPages.set r.nextDirectPage page }).get? r.nextDirectPage
      = some page := by
    rw [ScenarioReplay.pages, if_pos hd.policy]
    exact Dict.get?_set_self _ _ _
  simp only [ScenarioReplay.allocateDirect, bind, Except.bind, pure, Except.pure] at hrun
  rw [usageAdd_eq hp₁, ScenarioReplay.setPage, if_pos (by exact hd.policy)] at hrun
  simp only [Dict.set_set] at hrun
  split at hrun
  · cases hrun
  · rename_i r₄ hadd
    obtain ⟨a, rfl⟩ := ScenarioReplay.addContribution_frame hadd
    cases hrun
    constructor
    case evolves =>
      rw [ScenarioReplay.pages, ScenarioReplay.pages, if_pos hd.policy, if_pos (by exact hd.policy)]
      exact Evolves.make hmissing (by simp [hpage]) (by simp [hpage])
    case landed =>
      intro q
      simp [ScenarioReplay.record, ha]
    case current => exact fun hp => absurd hd.policy hp
    case source =>
      intro q hq
      cases hq
      left
      rw [← hd.pages_eq]
      exact hmissing

theorem Audited.stepped_allocate (h : Audited r) (ha : e.Allocates) (hpos : 0 < e.alignedBytes)
    (hmax : e.alignedBytes ≤ pageFragCacheMaxSize) {r' : ScenarioReplay}
    (hrun : r.allocate e state = .ok r') : ∃ land, Stepped e land r r' := by
  unfold ScenarioReplay.allocate at hrun
  cases hid : r.live.get? e.logicalId with
  | some record => simp [hid] at hrun
  | none =>
    simp only [hid, bind, Except.bind, pure, Except.pure] at hrun
    cases h.backed with
    | inl hc =>
      rw [if_neg hc.policy] at hrun
      cases hp : r.allocatePagefrag e with
      | error err => simp [hp] at hrun
      | ok p =>
        rw [hp] at hrun
        cases hrun
        exact ⟨_, h.stepped_cached hc ha hpos hmax hp⟩
    | inr hd =>
      rw [if_pos hd.policy] at hrun
      cases hp : r.allocateDirect e with
      | error err => simp [hp] at hrun
      | ok p =>
        rw [hp] at hrun
        cases hrun
        exact ⟨_, Audited.stepped_direct hd ha hp⟩

end Allocating

/-! ## Freeing -/

section Releasing

variable {r r' : ScenarioReplay} {e : Event} {record : LiveRecord}

theorem ScenarioReplay.usageRemove_frame (h : r.usageRemove record = .ok r') :
    ∃ usage, r' = { r with usage := usage } := by
  unfold ScenarioReplay.usageRemove at h
  cases hu : r.usage.get? record.fragment.pageId with
  | none => simp [hu] at h
  | some usage =>
    simp only [hu] at h
    split at h
    · cases h
    · cases h
      exact ⟨_, rfl⟩

theorem ScenarioReplay.removeContribution_frame {pid : Nat}
    (h : r.removeContribution pid = .ok r') : ∃ a, r' = { r with aggregate := a } := by
  unfold ScenarioReplay.removeContribution at h
  cases hc : r.contribution pid with
  | error err => simp [hc, bind, Except.bind] at h
  | ok c =>
    simp only [hc, bind, Except.bind, pure, Except.pure, Except.ok.injEq] at h
    exact ⟨_, h.symm⟩

/-- The memory of a record goes back. -/
theorem Audited.stepped_backing (h : Audited r) (hid : r.live.get? e.logicalId = some record)
    {live : Dict Nat LiveRecord} {a : Aggregate} {usage : Dict Nat PageUsage}
    (hrun : ScenarioReplay.freeBacking { r with live := live, aggregate := a, usage := usage }
      record = .ok r') :
    Evolves e none r.pages r'.pages ∧ r'.live = live ∧ r'.policy = r.policy ∧
      ∀ key c q, r'.caches.get? key = some c → c.page = some q →
        ∃ c₀, r.caches.get? key = some c₀ ∧ c₀.page = some q := by
  cases h.backed with
  | inl hc =>
    obtain ⟨-, key, c, hkey, hck, hl⟩ := hc.linked _ record hid
    obtain ⟨page, hpage, hfreed, href⟩ := hc.accounted.live_page hck hl
    have hfree : c.free r.allocator record.fragment = _ :=
      PageFragCache.free_eq hl hpage hfreed href
    obtain ⟨⟨freed, hself⟩, hother⟩ :=
      PageFragCache.dropRefs_get? (a := r.allocator) record.fragment.pageId 1 hfreed
    simp only [ScenarioReplay.freeBacking, hkey, hck, hfree, Except.ok.injEq] at hrun
    subst hrun
    refine ⟨?_, rfl, rfl, fun k c' q hk hq => ?_⟩
    · rw [hc.pages_eq, ScenarioReplay.pages, if_neg (by exact hc.policy)]
      refine Evolves.drop e hpage (fun ht => ?_) hself hother
      have hf : page.freed = false := hfreed
      rw [hf] at ht
      cases ht
    · rw [Dict.get?_set] at hk
      split at hk
      · rename_i heq
        cases hk
        exact ⟨c, by rw [heq]; exact hck, hq⟩
      · exact ⟨c', hk, hq⟩
  | inr hd =>
    obtain ⟨hnone, -, page, hpage, -, -⟩ := hd.linked _ record hid
    simp only [ScenarioReplay.freeBacking, hnone, hpage, Except.ok.injEq] at hrun
    subst hrun
    refine ⟨?_, rfl, rfl, fun k c' q hk hq => ⟨c', hk, hq⟩⟩
    rw [← hd.pages_eq, ScenarioReplay.pages, if_pos (by exact hd.policy)]
    exact Evolves.drop e hpage (fun _ => rfl) (Dict.get?_set_self _ _ _)
      fun q hq => Dict.get?_set_ne _ hq _

theorem Audited.stepped_free (h : Audited r) (ha : e.action = .free)
    (hrun : r.free e = .ok r') : Stepped e none r r' := by
  have hnot : ¬ e.Allocates := by simp [Event.Allocates, ha]
  unfold ScenarioReplay.free at hrun
  cases hid : r.live.get? e.logicalId with
  | none => simp [hid] at hrun
  | some record =>
    simp only [hid, bind, Except.bind, pure, Except.pure] at hrun
    split at hrun
    · cases hrun
    · split at hrun
      · cases hrun
      · rename_i r₁ hremove
        obtain ⟨a, rfl⟩ := ScenarioReplay.removeContribution_frame hremove
        split at hrun
        · cases hrun
        · rename_i r₂ husage
          obtain ⟨usage, rfl⟩ := ScenarioReplay.usageRemove_frame husage
          split at hrun
          · cases hrun
          · rename_i r₃ hbacking
            obtain ⟨hevolves, hlive, hpolicy, hcur⟩ := h.stepped_backing hid hbacking
            split at hrun
            · cases hrun
            · rename_i r₄ hadd
              obtain ⟨a', rfl⟩ := ScenarioReplay.addContribution_frame hadd
              cases hrun
              constructor
              case evolves => exact hevolves
              case landed => intro q; simp [hnot]
              case current => exact fun _ k c q hk hq => inr ⟨by simp, hcur k c q hk hq⟩
              case source => intro q hq; cases hq

end Releasing

/-! ## Every event -/

/-- **The step lemma for pages**: what an event of an audited replay does. -/
theorem Audited.stepped {r r' : ScenarioReplay} (h : Audited r) {e : Event} (hsized : e.Sized)
    (hrun : r.process e = .ok r') : ∃ land, Stepped e land r r' := by
  unfold ScenarioReplay.process at hrun
  cases ha : e.action with
  | post =>
    obtain ⟨hpos, hmax⟩ := hsized (inl ha)
    rw [ha] at hrun
    exact h.stepped_allocate (inl ha) hpos hmax hrun
  | alloc =>
    obtain ⟨hpos, hmax⟩ := hsized (inr ha)
    rw [ha] at hrun
    exact h.stepped_allocate (inr ha) hpos hmax hrun
  | reap =>
    rw [ha] at hrun
    refine ⟨none, ?_⟩
    have hrun' : r.reap e = .ok r' := hrun
    unfold ScenarioReplay.reap at hrun'
    split at hrun'
    · cases hrun'
    · split at hrun'
      · cases hrun'
      · cases hrun'
        constructor
        case evolves => exact Evolves.refl e _
        case landed => intro q; simp [Event.Allocates, ha]
        case current => exact fun _ k c q hk hq => inr ⟨by simp, c, hk, hq⟩
        case source => intro q hq; cases hq
  | free =>
    rw [ha] at hrun
    exact ⟨none, h.stepped_free ha hrun⟩

end LibWrt.PageFrag
