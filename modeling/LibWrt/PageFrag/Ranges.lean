/-
LibWrt.PageFrag.Ranges — live fragments never overlap.

A cache counts its offset down, so what it carved from its current page
lies above the offset and what it carves next lies below. The only moves
that raise the offset are a refill, whose page is new, and a reuse, whose
page has no live fragment left: its `refcount` equals the cache's own bias,
and by `Accounted` the rest of the count is the live fragments. An
oversized request that failed after a reuse leaves the old, lower offset
behind, which is sound for the same reason.
-/
import LibWrt.PageFrag.Conservation
import Mathlib

namespace LibWrt.PageFrag

open LibWrt.PageFrag.System

def Fragment.range (f : Fragment) : Set Int := Set.Ico f.offset (f.offset + f.size)

namespace System

variable {ι : Type} [DecidableEq ι]

/-- Fragment `f` is live under number `k` in cache `i`. -/
def LiveAt (s : System ι) (i : ι) (k : Nat) (f : Fragment) : Prop :=
  ∃ c, s.caches.get? i = some c ∧ c.live.get? k = some f

end System

/-- What every reachable state satisfies besides `Accounted`. -/
structure Carved {ι : Type} [DecidableEq ι] (s : System ι) : Prop where
  inside : ∀ i k f, s.LiveAt i k f → ∃ page, s.allocator.pages.get? f.pageId = some page ∧
    0 ≤ f.offset ∧ 0 < f.size ∧ f.offset + f.size ≤ page.size
  above : ∀ i c j k f, s.caches.get? i = some c → c.page = some f.pageId →
    s.LiveAt j k f → c.offset ≤ f.offset
  apart : ∀ i k f j k' g, s.LiveAt i k f → s.LiveAt j k' g → (i, k) ≠ (j, k') →
    f.pageId = g.pageId → f.offset + f.size ≤ g.offset ∨ g.offset + g.size ≤ f.offset

variable {ι : Type} [DecidableEq ι] {s : System ι} {i : ι} {c : PageFragCache}

theorem Accounted.no_live (h : Accounted s) (hc : s.caches.get? i = some c) {pid : Nat}
    {page : Page} (hcur : c.page = some pid)
    (hpage : s.allocator.pages.get? pid = some page)
    (hbias : page.refcount = c.pagecntBias) :
    ∀ j k f, s.LiveAt j k f → f.pageId ≠ pid := by
  rintro j k f ⟨cj, hj, hf⟩ heq
  have hlive : s.liveFragments pid = 0 := by
    have := h.refcount_eq hpage
    rw [← h.sum_biasOn pid, h.sum_biasOn_of_current hc hcur] at this
    omega
  have hcache : cj.fragSum (fun _ => 1) pid ≤ s.liveFragments pid :=
    Dict.le_sum hj fun _ c₁ _ => Accounted.fragSum_nonneg c₁ pid
  have hone : (1 : Int) ≤ cj.fragSum (fun _ => 1) pid := by
    have := Dict.le_sum (f := fun _ g => if g.pageId = pid then (1 : Int) else 0) hf
      (fun _ _ _ => by split <;> omega)
    simpa [PageFragCache.fragSum, heq] using this
  omega

namespace Carved

/-- A change that adds no fragment, keeps page sizes and raises an offset
only over an empty page. -/
theorem shrink (h : Carved s) {s' : System ι}
    (hlive : ∀ j k f, s'.LiveAt j k f → s.LiveAt j k f)
    (hpages : ∀ q page, s.allocator.pages.get? q = some page →
      ∃ page', s'.allocator.pages.get? q = some page' ∧ page'.size = page.size)
    (hoff : ∀ j cj k l f, s'.caches.get? j = some cj → cj.page = some f.pageId →
      s.LiveAt k l f → cj.offset ≤ f.offset) : Carved s' := by
  constructor
  case inside =>
    intro j k f hf
    obtain ⟨page, hpage, hpos, hsize, hle⟩ := h.inside j k f (hlive j k f hf)
    obtain ⟨page', hpage', hsize'⟩ := hpages _ page hpage
    exact ⟨page', hpage', hpos, hsize, by omega⟩
  case above =>
    exact fun j cj k l f hj hcur hf => hoff j cj k l f hj hcur (hlive k l f hf)
  case apart =>
    exact fun j k f j' k' g hf hg => h.apart j k f j' k' g (hlive _ _ _ hf) (hlive _ _ _ hg)

theorem liveAt_put {a : PhysicalAllocator} {c' : PageFragCache}
    (hc : s.caches.get? i = some c)
    (hsub : ∀ k f, c'.live.get? k = some f → c.live.get? k = some f) :
    ∀ j k f, (s.put i a c').LiveAt j k f → s.LiveAt j k f := by
  rintro j k f ⟨cj, hj, hf⟩
  rcases put_cases hj with ⟨rfl, rfl⟩ | ⟨-, hj₁⟩
  · exact ⟨c, hc, hsub k f hf⟩
  · exact ⟨cj, hj₁, hf⟩

theorem dropRefs_size {a : PhysicalAllocator} {pid : Nat} {page : Page} {n : Int}
    (hpage : a.pages.get? pid = some page) (q : Nat) (page₁ : Page)
    (hq : a.pages.get? q = some page₁) :
    ∃ page', (a.dropRefs pid page n).pages.get? q = some page' ∧ page'.size = page₁.size := by
  have heq : q = pid → page₁ = page := by
    rintro rfl
    rw [hpage] at hq
    exact (Option.some.inj hq).symm
  unfold PhysicalAllocator.dropRefs
  split <;> simp only [Dict.get?_set] <;> split
  · rename_i h
    exact ⟨_, rfl, by rw [heq h]⟩
  · exact ⟨page₁, hq, rfl⟩
  · rename_i h
    exact ⟨_, rfl, by rw [heq h]⟩
  · exact ⟨page₁, hq, rfl⟩

/-- Every move keeps the fragments apart. -/
theorem move (h : Carved s) (hacc : Accounted s) (hc : s.caches.get? i = some c)
    {p : PhysicalAllocator × PageFragCache} (hm : Move (s.allocator, c) p) :
    Carved (s.put i p.1 p.2) := by
  cases hm with
  | refill hcur =>
    have hfresh := hacc.fresh_page
    refine h.shrink (liveAt_put hc ?_) ?_ ?_
    · exact fun _ _ hf => hf
    · intro q page hq
      rw [PageFragCache.refill_eq]
      refine ⟨page, ?_, rfl⟩
      show (s.allocator.pages.set _ _).get? q = some page
      rw [Dict.get?_set_ne, hq]
      rintro rfl
      rw [hfresh] at hq
      cases hq
    · intro j cj k l f hj hq hf
      rcases put_cases hj with ⟨rfl, rfl⟩ | ⟨-, hj₁⟩
      · -- the new page has no fragment yet
        rw [PageFragCache.refill_eq] at hq
        have heq : s.allocator.nextPageId = f.pageId := Option.some.inj hq
        obtain ⟨page, hpage, -⟩ := h.inside k l f hf
        rw [← heq, hfresh] at hpage
        cases hpage
      · exact h.above j cj k l f hj₁ hq hf
  | release hcur hpage =>
    refine h.shrink (liveAt_put hc ?_) (fun q page₁ hq => dropRefs_size hpage q page₁ hq) ?_
    · exact fun _ _ hf => hf
    · intro j cj k l f hj hq hf
      rcases put_cases hj with ⟨rfl, rfl⟩ | ⟨-, hj₁⟩
      · cases hq
      · exact h.above j cj k l f hj₁ hq hf
  | @reuse _ _ pid page offset hcur hpage hbias hoff =>
    refine h.shrink (liveAt_put hc ?_) ?_ ?_
    · exact fun _ _ hf => hf
    · intro q page₁ hq
      simp only [put_allocator, Dict.get?_set]
      split
      · rename_i heq
        rw [heq, hpage] at hq
        cases hq
        exact ⟨_, rfl, rfl⟩
      · exact ⟨page₁, hq, rfl⟩
    · intro j cj k l f hj hq hf
      rcases put_cases hj with ⟨rfl, rfl⟩ | ⟨-, hj₁⟩
      · have heq : pid = f.pageId := Option.some.inj (hcur.symm.trans hq)
        exact absurd heq.symm (hacc.no_live hc hcur hpage hbias k l f hf)
      · exact h.above j cj k l f hj₁ hq hf

theorem put_self (h : Carved s) (hc : s.caches.get? i = some c) :
    Carved (s.put i s.allocator c) := by
  refine h.shrink (liveAt_put hc fun _ _ hf => hf) (fun q page hq => ⟨page, hq, rfl⟩) ?_
  intro j cj k l f hj hq hf
  rcases put_cases hj with ⟨rfl, rfl⟩ | ⟨-, hj₁⟩
  · exact h.above _ _ k l f hc hq hf
  · exact h.above j cj k l f hj₁ hq hf

/-- A new fragment lies below every fragment of its page. -/
theorem carve (h : Carved s) (hacc : Accounted s) (hc : s.caches.get? i = some c)
    {pid : Nat} (hcur : c.page = some pid) {size : Int} (hsize : 0 < size)
    (hfit : size ≤ c.offset) :
    Carved (s.put i s.allocator (c.carve pid (c.offset - size) size).2) := by
  obtain ⟨-, -, page, hpage, hle, -⟩ := hacc.current i c pid hc hcur
  -- a live fragment afterwards is the new one or was live before
  have hlive : ∀ j k f,
      (s.put i s.allocator (c.carve pid (c.offset - size) size).2).LiveAt j k f →
      (j = i ∧ k = c.nextFragmentId ∧ f = (c.carve pid (c.offset - size) size).1) ∨
        s.LiveAt j k f := by
    rintro j k f ⟨cj, hj, hf⟩
    rcases put_cases hj with ⟨rfl, rfl⟩ | ⟨-, hj₁⟩
    · simp only [PageFragCache.carve, Dict.get?_set] at hf
      split at hf
      · exact Or.inl ⟨rfl, ‹_›, (Option.some.inj hf).symm⟩
      · exact Or.inr ⟨c, hc, hf⟩
    · exact Or.inr ⟨cj, hj₁, hf⟩
  constructor
  case inside =>
    intro j k f hf
    rcases hlive j k f hf with ⟨-, -, rfl⟩ | hf
    · refine ⟨page, hpage, ?_, hsize, ?_⟩
      · show 0 ≤ c.offset - size
        omega
      · show c.offset - size + size ≤ page.size
        omega
    · exact h.inside j k f hf
  case above =>
    intro j cj k l f hj hq hf
    rcases put_cases hj with ⟨rfl, rfl⟩ | ⟨hne, hj₁⟩
    · show c.offset - size ≤ f.offset
      rcases hlive k l f hf with ⟨-, -, rfl⟩ | hf
      · exact le_refl _
      · have := h.above _ c k l f hc hq hf
        omega
    · rcases hlive k l f hf with ⟨-, -, rfl⟩ | hf
      · exact absurd (hacc.owner j i cj c pid hj₁ hc hq hcur) hne
      · exact h.above j cj k l f hj₁ hq hf
  case apart =>
    have hbelow : ∀ j k f, s.LiveAt j k f → pid = f.pageId →
        c.offset - size + size ≤ f.offset := by
      intro j k f hf heq
      have := h.above i c j k f hc (by rw [hcur, heq]) hf
      omega
    intro j k f j' k' g hf hg hne heq
    rcases hlive j k f hf with ⟨rfl, rfl, rfl⟩ | hf₁ <;>
      rcases hlive j' k' g hg with ⟨rfl, rfl, rfl⟩ | hg₁
    · exact absurd rfl hne
    · exact Or.inl (hbelow j' k' g hg₁ heq)
    · exact Or.inr (hbelow j k f hf₁ heq.symm)
    · exact h.apart j k f j' k' g hf₁ hg₁ hne heq

theorem initial (fallback pfmemalloc : Finset Nat) :
    Carved (System.initial fallback pfmemalloc : System ι) := by
  constructor <;> intros <;> simp_all [System.initial, System.LiveAt]

theorem create (h : Carved s) (i : ι) : Carved (s.create i) := by
  refine h.shrink ?_ ?_ ?_
  · rintro j k f ⟨cj, hj, hf⟩
    rcases create_cases hj with rfl | hj₁
    · simp at hf
    · exact ⟨cj, hj₁, hf⟩
  · intro q page hq
    exact ⟨page, by rw [create_allocator, hq], rfl⟩
  · intro j cj k l f hj hq hf
    rcases create_cases hj with rfl | hj₁
    · cases hq
    · exact h.above j cj k l f hj₁ hq hf

theorem free (h : Carved s) (hc : s.caches.get? i = some c) {k : Nat} {f : Fragment}
    {page : Page} (hpage : s.allocator.pages.get? f.pageId = some page) :
    Carved (s.put i (s.allocator.dropRefs f.pageId page 1)
      { c with live := c.live.del k }) := by
  refine h.shrink (liveAt_put hc ?_) (fun q page₁ hq => dropRefs_size hpage q page₁ hq) ?_
  · intro k' g hg
    rw [Dict.get?_del] at hg
    split at hg
    · cases hg
    · exact hg
  · intro j cj k' l g hj hq hg
    rcases put_cases hj with ⟨rfl, rfl⟩ | ⟨-, hj₁⟩
    · exact h.above _ c k' l g hc hq hg
    · exact h.above j cj k' l g hj₁ hq hg

theorem micro (h : Carved s) (hacc : Accounted s) {s' : System ι}
    (hm : System.Micro s s') : Carved s' := by
  cases hm with
  | create i => exact h.create i
  | keep hc => exact h.put_self hc
  | move hc hm => exact h.move hacc hc hm
  | carve hc hcur hsize hfit => exact h.carve hacc hc hcur hsize hfit
  | free hc hf hpage hlive => exact h.free hc hpage

theorem reachable {fallback pfmemalloc : Finset Nat}
    (hs : Reachable fallback pfmemalloc s) : Carved s :=
  (Accounted.reachable_induct (initial fallback pfmemalloc)
    (fun _ _ hacc h hm => h.micro hacc hm) hs).2

end Carved

/-- **Live fragments never overlap**: in every reachable state, whatever
the caches, the refill properties and the calls, two distinct live
fragments on one page occupy disjoint byte ranges, and each lies inside its
page. -/
theorem live_fragments_disjoint {ι : Type} [DecidableEq ι]
    (fallback pfmemalloc : Finset Nat) (s : System ι)
    (hs : Reachable fallback pfmemalloc s) :
    (∀ i k f j k' g, s.LiveAt i k f → s.LiveAt j k' g → (i, k) ≠ (j, k') →
      f.pageId = g.pageId → Disjoint f.range g.range) ∧
    (∀ i k f, s.LiveAt i k f → ∃ page, s.allocator.pages.get? f.pageId = some page ∧
      f.range.Nonempty ∧ f.range ⊆ Set.Ico 0 page.size) := by
  have h := Carved.reachable hs
  constructor
  · intro i k f j k' g hf hg hne heq
    rw [Fragment.range, Fragment.range, Set.Ico_disjoint_Ico]
    rcases h.apart i k f j k' g hf hg hne heq with hlt | hlt
    · exact le_trans (min_le_left _ _) (le_trans hlt (le_max_right _ _))
    · exact le_trans (min_le_right _ _) (le_trans hlt (le_max_left _ _))
  · intro i k f hf
    obtain ⟨page, hpage, hpos, hsize, hle⟩ := h.inside i k f hf
    refine ⟨page, hpage, Set.nonempty_Ico.mpr (by omega), ?_⟩
    exact Set.Ico_subset_Ico hpos hle

/-- Two fragments carved one after the other from a page that was taken
again in place by a request too large for it. -/
theorem live_fragments_disjoint_reuse :
    ∃ s : System Nat, ∃ f g : Fragment, s.LiveAt 0 2 f ∧ s.LiveAt 0 3 g ∧
      f.pageId = g.pageId ∧ Disjoint f.range g.range := by
  have hrun : ((System.initial {1} ∅ : System Nat).run
      [.create 0, .allocate 0 1000, .free 0 ⟨1, 1, 3096, 1000⟩, .allocate 0 5000,
        .allocate 0 64, .allocate 0 64]).isSome := by decide
  have hs := Reachable.initial.run (Option.some_get hrun).symm
  have hf : System.LiveAt (Option.get _ hrun) 0 2 ⟨2, 1, 3032, 64⟩ := ⟨_, rfl, rfl⟩
  have hg : System.LiveAt (Option.get _ hrun) 0 3 ⟨3, 1, 2968, 64⟩ := ⟨_, rfl, rfl⟩
  exact ⟨_, _, _, hf, hg, rfl,
    (live_fragments_disjoint {1} ∅ _ hs).1 0 2 _ 0 3 _ hf hg (by decide) rfl⟩

end LibWrt.PageFrag
