/-
LibWrt.PageFrag.Usage — the per-page usage is the sum of the live records.

`Tracked` says that every column of `usage` is a sum over the live records
on that page, the two counters included. `Tracked.add` and `Tracked.remove`
are the two updates of the replay; the second also shows that its check for
left-over accounting never fires. `Priced` is the same idea one level up:
the running aggregate is the sum of what the pages contribute.
-/
import LibWrt.PageFrag.Replay

namespace LibWrt.PageFrag

/-! ## Counters -/

/-- `d` counts `f`: it holds the value where that is not 0, and nothing
elsewhere. -/
def Counts (d : Dict String Int) (f : String → Int) : Prop :=
  ∀ key, d.get? key = if f key = 0 then none else some (f key)

namespace Counts

variable {d : Dict String Int} {f g : String → Int} {key : String}

theorem getD (h : Counts d f) : (d.get? key).getD 0 = f key := by
  rw [h key]
  by_cases hz : f key = 0 <;> simp [hz]

theorem bump (h : Counts d f) (hnn : 0 ≤ f key)
    (hg : ∀ k, g k = f k + if key = k then 1 else 0) : Counts (PageFrag.bump d key 1) g := by
  intro k
  rw [PageFrag.bump, h.getD, Dict.get?_set, hg k]
  by_cases hk : k = key
  · subst hk
    have hne : f k + 1 ≠ 0 := by omega
    simp [hne]
  · rw [if_neg hk, if_neg (Ne.symm hk), add_zero, h k]

theorem unbump (h : Counts d f) (hg : ∀ k, g k = f k - if key = k then 1 else 0) :
    Counts (PageFrag.unbump d key) g := by
  intro k
  rw [PageFrag.unbump, PageFrag.bump, h.getD, Dict.get?_set_self, hg k]
  by_cases hz : f key + -1 = 0
  · rw [if_pos (by rw [hz]), Dict.get?_del, Dict.get?_set]
    by_cases hk : k = key
    · subst hk
      simp [show f k - 1 = 0 by omega]
    · rw [if_neg hk, if_neg hk, if_neg (Ne.symm hk), sub_zero, h k]
  · rw [if_neg (by simpa using hz), Dict.get?_set]
    by_cases hk : k = key
    · subst hk
      have hne : f k - 1 ≠ 0 := by omega
      rw [if_pos rfl, if_pos rfl, if_neg hne]
      rfl
    · rw [if_neg hk, if_neg (Ne.symm hk), sub_zero, h k]

theorem size_eq_zero (h : Counts d f) (hz : ∀ k, f k = 0) : d.size = 0 := by
  have hsum : (d.size : Int) = 0 := by
    rw [Dict.size_eq_sum]
    apply Dict.sum_eq_zero
    intro k v hv
    rw [h k, if_pos (hz k)] at hv
    cases hv
  exact_mod_cast hsum

end Counts

/-! ## Sums over the records of a page -/

/-- The sum of `w` over the live records on page `pid`. -/
def recSum (live : Dict Nat LiveRecord) (w : LiveRecord → Int) (pid : Nat) : Int :=
  live.sum fun _ record => if record.fragment.pageId = pid then w record else 0

section RecSum

variable {live : Dict Nat LiveRecord} {id : Nat} {record : LiveRecord}
  {w : LiveRecord → Int} {pid : Nat}

theorem recSum_set (h : live.get? id = none) :
    recSum (live.set id record) w pid
      = (if record.fragment.pageId = pid then w record else 0) + recSum live w pid :=
  Dict.sum_set_new h _ _

theorem recSum_del (h : live.get? id = some record) :
    recSum (live.del id) w pid
      = recSum live w pid - if record.fragment.pageId = pid then w record else 0 :=
  Dict.sum_del h _

theorem recSum_replace {record' : LiveRecord} (h : live.get? id = some record)
    (hfrag : record'.fragment = record.fragment) (hw : w record' = w record) :
    recSum (live.set id record') w pid = recSum live w pid := by
  have hset := Dict.sum_set_old h record'
    fun _ (r : LiveRecord) => if r.fragment.pageId = pid then w r else 0
  rw [hfrag, hw] at hset
  rw [recSum, hset, recSum]
  omega

theorem recSum_nonneg (hw : ∀ id record, live.get? id = some record → 0 ≤ w record) :
    0 ≤ recSum live w pid := by
  apply Dict.sum_nonneg
  intro k record hr
  split
  · exact hw k record hr
  · exact le_refl 0

theorem le_recSum (h : live.get? id = some record) (hpid : record.fragment.pageId = pid)
    (hw : ∀ id record, live.get? id = some record → 0 ≤ w record) :
    w record ≤ recSum live w pid := by
  have hle := Dict.le_sum
    (f := fun _ (r : LiveRecord) => if r.fragment.pageId = pid then w r else 0) h
    fun k r hr => by
      split
      · exact hw k r hr
      · exact le_refl 0
  simpa [recSum, hpid] using hle

/-- A page without records sums to nothing. -/
theorem recSum_eq_zero (h : ∀ id record, live.get? id = some record →
    record.fragment.pageId ≠ pid) : recSum live w pid = 0 :=
  Dict.sum_eq_zero fun k r hr => if_neg (h k r hr)

theorem recSum_of_count (h : recSum live (fun _ => 1) pid = 0) : recSum live w pid = 0 := by
  apply recSum_eq_zero
  intro k r hr hpid
  have := le_recSum (w := fun _ => 1) hr hpid fun _ _ _ => by omega
  omega

end RecSum

/-! ## Usage -/

/-- `self.usage.get(page_id, PageUsage())`. -/
def usageAt (usage : Dict Nat PageUsage) (pid : Nat) : PageUsage := (usage.get? pid).getD {}

theorem usageAt_set_self (usage : Dict Nat PageUsage) (pid : Nat) (u : PageUsage) :
    usageAt (usage.set pid u) pid = u := by
  simp [usageAt]

variable {pid : Nat}

theorem usageAt_set_ne (usage : Dict Nat PageUsage) {q : Nat} (h : q ≠ pid) (u : PageUsage) :
    usageAt (usage.set pid u) q = usageAt usage q := by
  simp [usageAt, Dict.get?_set_ne usage h]

/-- `u` sums up the records on page `pid`. -/
structure SumsUp (live : Dict Nat LiveRecord) (pid : Nat) (u : PageUsage) : Prop where
  requested : u.requestedBytes = recSum live (·.requestedBytes) pid
  aligned : u.alignedBytes = recSum live (·.alignedBytes) pid
  fragments : u.fragments = recSum live (fun _ => 1) pid
  rings : Counts u.rings fun key => recSum live (fun r => if r.ring = key then 1 else 0) pid
  lifetimes :
    Counts u.lifetimes fun key => recSum live (fun r => if r.lifetime = key then 1 else 0) pid

def Tracked (live : Dict Nat LiveRecord) (usage : Dict Nat PageUsage) : Prop :=
  ∀ pid, SumsUp live pid (usageAt usage pid)

theorem tracked_empty : Tracked ∅ ∅ := by
  intro pid
  constructor <;> first | rfl | exact fun key => rfl

/-- Only the sums matter, and none of them looks at a buffer's state. -/
theorem SumsUp.congr {live live' : Dict Nat LiveRecord} {u : PageUsage} (h : SumsUp live pid u)
    (hsum : ∀ w : LiveRecord → Int, (∀ record st, w { record with state := st } = w record) →
      recSum live' w pid = recSum live w pid) :
    SumsUp live' pid u where
  requested := h.requested.trans (hsum _ fun _ _ => rfl).symm
  aligned := h.aligned.trans (hsum _ fun _ _ => rfl).symm
  fragments := h.fragments.trans (hsum _ fun _ _ => rfl).symm
  rings := fun key => by
    have := hsum (fun r => if r.ring = key then 1 else 0) fun _ _ => rfl
    simp only [this]
    exact h.rings key
  lifetimes := fun key => by
    have := hsum (fun r => if r.lifetime = key then 1 else 0) fun _ _ => rfl
    simp only [this]
    exact h.lifetimes key

/-- Usage without fragments is empty usage. -/
theorem SumsUp.empty {live : Dict Nat LiveRecord} {u : PageUsage} (h : SumsUp live pid u)
    (hzero : u.fragments = 0) :
    u.requestedBytes = 0 ∧ u.alignedBytes = 0 ∧ u.rings.size = 0 ∧ u.lifetimes.size = 0 := by
  have hcount : recSum live (fun _ => 1) pid = 0 := h.fragments.symm.trans hzero
  exact ⟨h.requested.trans (recSum_of_count hcount), h.aligned.trans (recSum_of_count hcount),
    h.rings.size_eq_zero fun _ => recSum_of_count hcount,
    h.lifetimes.size_eq_zero fun _ => recSum_of_count hcount⟩

namespace Tracked

variable {live : Dict Nat LiveRecord} {usage : Dict Nat PageUsage} {id : Nat}

/-- A new record, added to its page's usage. -/
theorem add (h : Tracked live usage) (hid : live.get? id = none) (record : LiveRecord)
    {event : Event} {state : BufferState} (hbuf : record.toBuffer = event.buffer state) :
    Tracked (live.set id record)
      (usage.set record.fragment.pageId
        ((usageAt usage record.fragment.pageId).add event)) := by
  intro pid
  by_cases hpid : pid = record.fragment.pageId
  · subst hpid
    rw [usageAt_set_self]
    have hu := h record.fragment.pageId
    have hring : record.ring = event.ring := congrArg Buffer.ring hbuf
    have hlife : record.lifetime = event.lifetime := congrArg Buffer.lifetime hbuf
    have hreq : record.requestedBytes = event.requestedBytes :=
      congrArg Buffer.requestedBytes hbuf
    have hal : record.alignedBytes = event.alignedBytes := congrArg Buffer.alignedBytes hbuf
    constructor
    · rw [recSum_set hid, if_pos rfl, hreq, ← hu.requested, PageUsage.add]
      exact add_comm _ _
    · rw [recSum_set hid, if_pos rfl, hal, ← hu.aligned, PageUsage.add]
      exact add_comm _ _
    · rw [recSum_set hid, if_pos rfl, ← hu.fragments, PageUsage.add]
      exact add_comm _ _
    · refine hu.rings.bump (recSum_nonneg fun _ _ _ => by split <;> omega) fun key => ?_
      rw [recSum_set hid, if_pos rfl, hring]
      exact add_comm _ _
    · refine hu.lifetimes.bump (recSum_nonneg fun _ _ _ => by split <;> omega) fun key => ?_
      rw [recSum_set hid, if_pos rfl, hlife]
      exact add_comm _ _
  · rw [usageAt_set_ne _ hpid]
    refine (h pid).congr fun w _ => ?_
    rw [recSum_set hid, if_neg (Ne.symm hpid), zero_add]

variable {record : LiveRecord}

/-- A record taken out again. -/
theorem remove (h : Tracked live usage) (hid : live.get? id = some record) :
    Tracked (live.del id)
      (usage.set record.fragment.pageId
        ((usageAt usage record.fragment.pageId).remove record)) := by
  intro pid
  by_cases hpid : pid = record.fragment.pageId
  · subst hpid
    rw [usageAt_set_self]
    have hu := h record.fragment.pageId
    constructor
    · rw [recSum_del hid, if_pos rfl, ← hu.requested, PageUsage.remove]
    · rw [recSum_del hid, if_pos rfl, ← hu.aligned, PageUsage.remove]
    · rw [recSum_del hid, if_pos rfl, ← hu.fragments, PageUsage.remove]
    · refine hu.rings.unbump fun key => ?_
      rw [recSum_del hid, if_pos rfl]
    · refine hu.lifetimes.unbump fun key => ?_
      rw [recSum_del hid, if_pos rfl]
  · rw [usageAt_set_ne _ hpid]
    refine (h pid).congr fun w _ => ?_
    rw [recSum_del hid, if_neg (Ne.symm hpid), sub_zero]

/-- A record that changes its state. -/
theorem restate (h : Tracked live usage) (hid : live.get? id = some record) (st : BufferState) :
    Tracked (live.set id { record with state := st }) usage := fun pid =>
  (h pid).congr fun _ hw => recSum_replace hid rfl (hw record st)

theorem get?_of_live (h : Tracked live usage) (hid : live.get? id = some record) :
    usage.get? record.fragment.pageId = some (usageAt usage record.fragment.pageId) := by
  have hone : 1 ≤ (usageAt usage record.fragment.pageId).fragments := by
    rw [(h _).fragments]
    exact le_recSum (w := fun _ => 1) hid rfl fun _ _ _ => by omega
  cases hu : usage.get? record.fragment.pageId with
  | some u => simp [usageAt, hu]
  | none => simp [usageAt, hu] at hone

end Tracked

/-! ## Contributions -/

/-- What page `pid` contributes to the aggregate. -/
def priced (usage : Dict Nat PageUsage) (pid : Nat) (page : Page) : Aggregate :=
  if page.freed then 0 else (usageAt usage pid).contribution page

def recomputed (pages : Dict Nat Page) (usage : Dict Nat PageUsage) : Aggregate :=
  pages.sum (priced usage)

theorem contribution_backing (u : PageUsage) (page : Page) :
    u.contribution page .backingBytes
      = u.contribution page .alignedBytes + u.contribution page .slackBytes := by
  simp [PageUsage.contribution]

namespace ScenarioReplay

variable {r : ScenarioReplay} {pid : Nat} {page : Page}

/-- `_contribution` of a page its fragments fit in. -/
theorem contribution_eq (hpage : r.pages.get? pid = some page)
    (hfit : (usageAt r.usage pid).alignedBytes ≤ page.size) :
    r.contribution pid = .ok (r.pages.at? (priced r.usage) pid) := by
  have hnn : ¬ page.size - (r.usageOf pid).alignedBytes < 0 := by
    show ¬ page.size - (usageAt r.usage pid).alignedBytes < 0
    omega
  simp only [contribution, hpage, Dict.at?, priced, if_neg hnn]
  split <;> rfl

theorem removeContribution_eq (hpage : r.pages.get? pid = some page)
    (hfit : (usageAt r.usage pid).alignedBytes ≤ page.size) :
    r.removeContribution pid =
      .ok { r with aggregate := r.aggregate - r.pages.at? (priced r.usage) pid } := by
  simp [removeContribution, contribution_eq hpage hfit, bind, Except.bind, pure, Except.pure]

theorem addContribution_eq (hpage : r.pages.get? pid = some page)
    (hfit : (usageAt r.usage pid).alignedBytes ≤ page.size) :
    r.addContribution pid =
      .ok { r with aggregate := r.aggregate + r.pages.at? (priced r.usage) pid } := by
  simp [addContribution, contribution_eq hpage hfit, bind, Except.bind, pure, Except.pure]

theorem addContributions_eq {pids : List Nat}
    (hfit : ∀ pid ∈ pids, ∃ page, r.pages.get? pid = some page ∧
      (usageAt r.usage pid).alignedBytes ≤ page.size) :
    r.addContributions pids = .ok { r with
      aggregate := r.aggregate + (pids.map (r.pages.at? (priced r.usage))).sum } := by
  induction pids generalizing r with
  | nil => simp [addContributions]
  | cons pid pids ih =>
    obtain ⟨page, hpage, hle⟩ := hfit pid List.mem_cons_self
    have hrest := ih (r := { r with
      aggregate := r.aggregate + r.pages.at? (priced r.usage) pid })
      fun q hq => hfit q (List.mem_cons_of_mem _ hq)
    simp only [addContributions, addContribution_eq hpage hle, bind, Except.bind]
    rw [hrest, List.map_cons, List.sum_cons, add_assoc]
    rfl

end ScenarioReplay

end LibWrt.PageFrag
