/-
LibWrt.En75.Stored — the sizes of the tables, and when they count as stored.

With the state goes what was last written of each table. In a run from an
initialisation the arrays are kept to their ends, the sizes of eight bits
hold, and a table that differs from the one last written is dirty, as long
as (`stored_of_run`) a BBT was found, a BMT that is reconstructed has at most
255 entries, the reserve area has at most 256 blocks, and no step starts with
a counter of the BMT at its last value.
-/
import LibWrt.En75.Factory

namespace LibWrt.En75

open List Option Relation
open LibWrt.Flash

variable {g : Geometry} {env : Env}

/-! ## Tables and what was last written -/

/-- The state, and the tables as they were last written or found. -/
structure Tracked where
  state : State
  bmt : Option BmtTable
  bbt : Option BbtTable

/-- `w_sync_tables` writes the BMT. -/
def writesBmt (g : Geometry) (env : Env) (s : State) : Bool :=
  decide ((wErasePending g env s).ctx.bmtDirty ≠ 0) && (syncBmt g env (wErasePending g env s)).1

/-- `w_sync_tables` writes the BBT. -/
def writesBbt (g : Geometry) (env : Env) (s : State) : Bool :=
  let r := syncBmt g env (wErasePending g env s)
  r.1 && (decide (r.2.ctx.bbtDirty ≠ 0) && r.2.ctx.canWriteFactoryBbt) && (syncBbt g env r.2).1

/-- The tables are synchronised in state `s`. -/
def Tracked.sync (g : Geometry) (env : Env) (t : Tracked) (s : State) : Tracked where
  state := (wSyncTables g env s).2
  bmt := if writesBmt g env s then some s.ctx.bmt else t.bmt
  bbt := if writesBbt g env s then some s.ctx.bbt else t.bbt

/-- `pub_remap_block` -/
def Tracked.remap (g : Geometry) (env : Env) (u m copyLen : Nat) (t : Tracked) : Tracked :=
  let ctx := t.state.ctx
  let block := (getMappingBlockBbt ctx u).getD invalBlock
  if !ctx.canRemapRanges.any (fun r => r.1 ≤ u && u < r.2) ∨ u ≥ ctx.reserveAreaBegin ∨
      m ≠ block ∧ m ∉ ctx.reserveBlocks g then t
  else
    t.sync g env
      (wRemapBlock g env block (if m = block then none else some m) copyLen t.state).2

/-- `pub_unmap_block` -/
def Tracked.unmap (g : Geometry) (env : Env) (u : Nat) (t : Tracked) : Tracked :=
  match getMappingBlockBbt t.state.ctx u with
  | none => t
  | some block =>
    if u ≥ t.state.ctx.reserveAreaBegin then t
    else t.sync g env (wUnmapBlock g env block .requireErase t.state).2

/-- A remap or an unmap with any failures, or anything that the user does to the chip. -/
inductive Operation (g : Geometry) : Tracked → Tracked → Prop where
  | remap (env : Env) (u m copyLen : Nat) (t : Tracked) :
    Operation g t (t.remap g env u m copyLen)
  | unmap (env : Env) (u : Nat) (t : Tracked) : Operation g t (t.unmap g env u)
  | chip (nand : Device Page) (t : Tracked) :
    Operation g t { t with state := { t.state with nand := nand } }

/-- The sizes hold the entries, nothing was written behind a table, and a table is dirty if it
differs from the one last written. -/
structure TablesOk (t : Tracked) : Prop where
  inside : t.state.ctx.overrun = false
  bmtSize : t.state.ctx.bmt.table.length ≤ 0xff
  bbtSize : t.state.ctx.bbt.table.length ≤ 0xff
  bmtStored : t.bmt ≠ some t.state.ctx.bmt → t.state.ctx.bmtDirty ≠ 0
  bbtStored : t.bbt ≠ some t.state.ctx.bbt → t.state.ctx.bbtDirty ≠ 0

/-! ## What changes the status of blocks only -/

theorem erasePendingOne_statuses (ba : Nat) (s : State) :
    Statuses s (erasePendingOne g env ba s) := by
  unfold erasePendingOne
  split
  · exact .refl s
  · have herase : Statuses s (wEraseOne g env ba false s).2 := .of_ctx (wEraseOne_ctx _ _ _)
    split
    · rename_i heq
      rw [heq] at herase
      exact herase.trans (.set _ _ _)
    · rename_i heq
      rw [heq] at herase
      exact herase.trans (.set _ _ _)
    · rename_i heq
      rw [heq] at herase
      exact (herase.trans (.of_ctx (wMarkBad_ctx _ _ _))).trans (.set _ _ _)

theorem erasePendingFrom_statuses (bas : List Nat) (s : State) :
    Statuses s (erasePendingFrom g env bas s) := by
  induction bas generalizing s with
  | nil => exact .refl s
  | cons ba bas ih => exact (erasePendingOne_statuses ba s).trans (ih _)

theorem wErasePending_statuses (s : State) : Statuses s (wErasePending g env s) :=
  erasePendingFrom_statuses _ s

variable (env) in
theorem wUpdateTable_statuses (startFromEnd : Bool) (data : Bytes) (n : Nat) (s : State) :
    Statuses s (wUpdateTable g env startFromEnd data n s).2 := by
  induction n generalizing s with
  | zero => exact .refl s
  | succ n ih =>
    unfold wUpdateTable
    split
    · exact .refl s
    · rename_i ba _
      have hwrite : Statuses s (wWrite g env ba false { data := data } s).2 :=
        .of_ctx (wWrite_ctx _ _ _ _)
      split
      · rename_i heq
        rw [heq] at hwrite
        exact hwrite
      · rename_i heq
        rw [heq] at hwrite
        exact (hwrite.trans (.set _ _ _)).trans (ih _)

/-! ## Synchronising -/

theorem Statuses.dirty {s s' : State} (h : Statuses s s') :
    s'.ctx.bmtDirty = s.ctx.bmtDirty ∧ s'.ctx.bbtDirty = s.ctx.bbtDirty := by
  rw [h]
  exact ⟨rfl, rfl⟩

theorem syncBmt_dirty {s s' : State} {written : Bool} (h : syncBmt g env s = (written, s')) :
    s'.ctx.bmtDirty = (if written then 0 else s.ctx.bmtDirty) ∧
      s'.ctx.bbtDirty = s.ctx.bbtDirty := by
  unfold syncBmt at h
  split at h
  · rename_i hclean
    obtain ⟨rfl, rfl⟩ := Prod.mk.inj h
    exact ⟨hclean, rfl⟩
  · dsimp only at h
    have hup := (wUpdateTable_statuses (g := g) env true (bmtBytes g (s.ctx.clearBmt g).bmt)
      updateTableTries { s with ctx := s.ctx.clearBmt g }).dirty
    split at h
    · rename_i heq
      rw [heq] at hup
      obtain ⟨rfl, rfl⟩ := Prod.mk.inj h
      exact hup
    · rename_i heq
      rw [heq] at hup
      obtain ⟨rfl, rfl⟩ := Prod.mk.inj h
      exact ⟨rfl, hup.2⟩

theorem syncBbt_dirty {s s' : State} {written : Bool} (h : syncBbt g env s = (written, s')) :
    s'.ctx.bmtDirty = s.ctx.bmtDirty ∧ s'.ctx.bbtDirty =
      if written && s.ctx.canWriteFactoryBbt then 0 else s.ctx.bbtDirty := by
  unfold syncBbt at h
  split at h
  · rename_i hclean
    obtain ⟨rfl, rfl⟩ := Prod.mk.inj h
    refine ⟨rfl, ?_⟩
    rcases hclean with hclean | hclean
    · simp [hclean]
    · have hcan : s.ctx.canWriteFactoryBbt = false := by simpa using hclean
      simp [hcan]
  · rename_i hdirty
    rw [not_or] at hdirty
    have hcan : s.ctx.canWriteFactoryBbt = true := by simpa using hdirty.2
    have hup := (wUpdateTable_statuses (g := g) env false (bbtBytes g s.ctx.bbt)
      updateTableTries s).dirty
    split at h
    · rename_i heq
      rw [heq] at hup
      obtain ⟨rfl, rfl⟩ := Prod.mk.inj h
      exact hup
    · rename_i heq
      rw [heq] at hup
      obtain ⟨rfl, rfl⟩ := Prod.mk.inj h
      refine ⟨hup.1, ?_⟩
      rw [hcan]
      rfl

/-- A table that is written is no longer dirty; else its counter stays. -/
theorem wSyncTables_dirty (s : State) :
    (wSyncTables g env s).2.ctx.bmtDirty = (if writesBmt g env s then 0 else s.ctx.bmtDirty) ∧
      (wSyncTables g env s).2.ctx.bbtDirty =
        if writesBbt g env s then 0 else s.ctx.bbtDirty := by
  have hpending := (@wErasePending_statuses g env s).dirty
  obtain ⟨written, s₁, hbmt⟩ : ∃ written s₁,
      syncBmt g env (wErasePending g env s) = (written, s₁) := ⟨_, _, rfl⟩
  obtain ⟨written', s₂, hbbt⟩ : ∃ written s₂, syncBbt g env s₁ = (written, s₂) := ⟨_, _, rfl⟩
  have hdirty₁ := syncBmt_dirty hbmt
  have hdirty₂ := syncBbt_dirty hbbt
  have hlast := (@wErasePending_statuses g env s₂).dirty
  rw [hpending.1, hpending.2] at hdirty₁
  simp only [wSyncTables, writesBmt, writesBbt, hbmt, hbbt, hpending.1]
  cases written with
  | false =>
    simpa using hdirty₁
  | true =>
    simp only [if_true] at hdirty₁
    have hbmt₀ : (if (decide (s.ctx.bmtDirty ≠ 0) && true) = true then 0 else s.ctx.bmtDirty) =
        (0 : BitVec 8) := by
      by_cases hzero : s.ctx.bmtDirty = 0
      · simp [hzero]
      · simp
    rw [hbmt₀]
    cases written' with
    | false =>
      simp only [hbbt, Bool.false_and, Bool.and_false, Bool.false_eq_true, if_false] at hdirty₂ ⊢
      exact ⟨hdirty₂.1.trans hdirty₁.1, hdirty₂.2.trans hdirty₁.2⟩
    | true =>
      simp only [hbbt, Bool.true_and, Bool.and_true] at hdirty₂ ⊢
      refine ⟨hlast.1.trans (hdirty₂.1.trans hdirty₁.1), hlast.2.trans (hdirty₂.2.trans ?_)⟩
      rw [hdirty₁.2]
      cases s₁.ctx.canWriteFactoryBbt with
      | false => simp
      | true => simpa using fun hzero => Eq.symm hzero

variable (env) in
/-- Synchronising keeps the tables in order. -/
theorem TablesOk.sync {t : Tracked} {s : State} (h : TablesOk { t with state := s })
    (hsmall : s.ctx.reserveBlockCount g ≤ maxBmtSize) :
    TablesOk (t.sync g env s) ∧
      (t.sync g env s).state.ctx.reserveBlockCount g = s.ctx.reserveBlockCount g := by
  have hpool : Pooled g s (wSyncTables g env s).2 := wSyncTables_pooled s
  have hbmt : (wSyncTables g env s).2.ctx.bmt = s.ctx.bmt := hpool.bmt
  have hbbt : (wSyncTables g env s).2.ctx.bbt = s.ctx.bbt := by rw [hpool.frame]
  obtain ⟨hbmtDirty, hbbtDirty⟩ := @wSyncTables_dirty g env s
  refine ⟨⟨(hpool.overrun hsmall).trans h.inside, ?_, ?_, ?_, ?_⟩, hpool.count⟩
  · show (wSyncTables g env s).2.ctx.bmt.table.length ≤ 0xff
    rw [hbmt]
    exact h.bmtSize
  · show (wSyncTables g env s).2.ctx.bbt.table.length ≤ 0xff
    rw [hbbt]
    exact h.bbtSize
  · show (if writesBmt g env s then some s.ctx.bmt else t.bmt) ≠ _ →
      (wSyncTables g env s).2.ctx.bmtDirty ≠ 0
    rw [Tracked.sync, hbmt, hbmtDirty]
    split
    · exact fun hne => absurd rfl hne
    · exact h.bmtStored
  · show (if writesBbt g env s then some s.ctx.bbt else t.bbt) ≠ _ →
      (wSyncTables g env s).2.ctx.bbtDirty ≠ 0
    rw [Tracked.sync, hbbt, hbbtDirty]
    split
    · exact fun hne => absurd rfl hne
    · exact h.bbtStored

/-! ## Steps -/

theorem ne_zero_of_ne_last {d : BitVec 8} (h : d ≠ 0xff) : d + 1 ≠ 0 := by
  intro hzero
  refine h (BitVec.eq_of_toNat_eq ?_)
  have htoNat := congrArg BitVec.toNat hzero
  rw [BitVec.toNat_add] at htoNat
  have hlt := d.isLt
  simp at htoNat ⊢
  omega

theorem length_mapEntry_le (table : List BmtEntry) (b n : Nat) :
    (mapEntry table b n).length ≤ table.length + 1 := by
  have hreplace : ∀ table', replaceEntry b n table = some table' →
      table'.length = table.length := by
    induction table with
    | nil => intro table' h; cases h
    | cons e table ih =>
      intro table' h
      unfold replaceEntry at h
      split at h
      · cases h
        rfl
      · obtain ⟨rest, hrest, rfl⟩ := map_eq_some_iff.mp h
        simp [ih rest hrest]
  unfold mapEntry
  cases h : replaceEntry b n table with
  | none => simp
  | some table' => simp [hreplace table' h]

/-- The tables are in order after entries were changed and counted. -/
theorem TablesOk.counted {t : Tracked} {s' : State} {bmt : BmtTable} (h : TablesOk t)
    (hlast : t.state.ctx.bmtDirty ≠ 0xff) (hsize : bmt.table.length ≤ 0xff)
    (hbmt : s'.ctx.bmt = bmt) (hdirty : s'.ctx.bmtDirty = t.state.ctx.bmtDirty + 1)
    (hrest : s'.ctx.bbt = t.state.ctx.bbt ∧ s'.ctx.bbtDirty = t.state.ctx.bbtDirty ∧
      s'.ctx.overrun = t.state.ctx.overrun) : TablesOk { t with state := s' } where
  inside := hrest.2.2.trans h.inside
  bmtSize := by
    rw [hbmt]
    exact hsize
  bbtSize := by
    rw [hrest.1]
    exact h.bbtSize
  bmtStored := fun _ => by
    rw [hdirty]
    exact ne_zero_of_ne_last hlast
  bbtStored := by
    rw [hrest.1, hrest.2.1]
    exact h.bbtStored

theorem TablesOk.statuses {t : Tracked} {s' : State} (h : TablesOk t)
    (hstatuses : Statuses t.state s') : TablesOk { t with state := s' } := by
  have hctx : s'.ctx.overrun = t.state.ctx.overrun ∧ s'.ctx.bmt = t.state.ctx.bmt ∧
      s'.ctx.bbt = t.state.ctx.bbt := by
    rw [hstatuses]
    exact ⟨rfl, rfl, rfl⟩
  obtain ⟨hbmtDirty, hbbtDirty⟩ := hstatuses.dirty
  constructor
  · exact hctx.1.trans h.inside
  · rw [hctx.2.1]
    exact h.bmtSize
  · rw [hctx.2.2]
    exact h.bbtSize
  · rw [hctx.2.1, hbmtDirty]
    exact h.bmtStored
  · rw [hctx.2.2, hbbtDirty]
    exact h.bbtStored

variable (env) in
theorem TablesOk.remapped {t : Tracked} (h : TablesOk t) (hlast : t.state.ctx.bmtDirty ≠ 0xff)
    (block : Nat) (former : Option Nat) (copyLen : Nat) :
    TablesOk { t with state := (wRemapBlock g env block former copyLen t.state).2 } ∧
      (wRemapBlock g env block former copyLen t.state).2.ctx.reserveAreaBegin =
        t.state.ctx.reserveAreaBegin := by
  rcases wRemapBlock_cases (g := g) env block former copyLen t.state with
    ⟨hstatuses, -⟩ | ⟨new, -, hroom, hctx⟩
  · refine ⟨h.statuses hstatuses, ?_⟩
    rw [hstatuses]
  · have hsize : (mapEntry t.state.ctx.bmt.table block new).length ≤ 0xff := by
      have hle := length_mapEntry_le t.state.ctx.bmt.table block new
      have hbmt := h.bmtSize
      omega
    have hfields : (t.state.ctx.remapped block new former).bmt =
          { t.state.ctx.bmt with table := mapEntry t.state.ctx.bmt.table block new } ∧
        (t.state.ctx.remapped block new former).bmtDirty = t.state.ctx.bmtDirty + 1 ∧
        (t.state.ctx.remapped block new former).bbt = t.state.ctx.bbt ∧
        (t.state.ctx.remapped block new former).bbtDirty = t.state.ctx.bbtDirty ∧
        (t.state.ctx.remapped block new former).overrun = t.state.ctx.overrun ∧
        (t.state.ctx.remapped block new former).reserveAreaBegin =
          t.state.ctx.reserveAreaBegin := by
      unfold Ctx.remapped
      cases former with
      | none => exact ⟨rfl, rfl, rfl, rfl, rfl, rfl⟩
      | some former => exact ⟨rfl, rfl, rfl, rfl, rfl, rfl⟩
    rw [← hctx] at hfields
    exact ⟨h.counted hlast hsize hfields.1 hfields.2.1
      ⟨hfields.2.2.1, hfields.2.2.2.1, hfields.2.2.2.2.1⟩, hfields.2.2.2.2.2⟩

variable (env) in
theorem TablesOk.unmapped {t : Tracked} (h : TablesOk t) (hlast : t.state.ctx.bmtDirty ≠ 0xff)
    (block : Nat) (erase : UnmapErase) :
    TablesOk { t with state := (wUnmapBlock g env block erase t.state).2 } ∧
      (wUnmapBlock g env block erase t.state).2.ctx.reserveAreaBegin =
        t.state.ctx.reserveAreaBegin := by
  rcases wUnmapBlock_cases (g := g) env block erase t.state with hctx | ⟨to', table, hperm, hctx⟩
  · refine ⟨h.statuses (.of_ctx hctx), ?_⟩
    rw [hctx]
  · have hsize : table.length ≤ 0xff := by
      have hlength := hperm.length_eq
      have hbmt := h.bmtSize
      rw [length_cons] at hlength
      omega
    refine ⟨@TablesOk.counted _ _ { t.state.ctx.bmt with table := table } h hlast hsize ?_ ?_ ?_,
      ?_⟩
    · rw [hctx]
    · rw [hctx]
    · rw [hctx]
      exact ⟨rfl, rfl, rfl⟩
    · rw [hctx]
      rfl

/-- A step that does not start with the counter of the BMT at its last value keeps the tables in
order. -/
theorem TablesOk.step {t t' : Tracked} (h : TablesOk t)
    (hsmall : t.state.ctx.reserveBlockCount g ≤ maxBmtSize) (hlast : t.state.ctx.bmtDirty ≠ 0xff)
    (hop : Operation g t t') :
    TablesOk t' ∧ t'.state.ctx.reserveBlockCount g = t.state.ctx.reserveBlockCount g := by
  have hsync : ∀ (env : Env) (t : Tracked) (s : State), TablesOk { t with state := s } →
      t.state.ctx.reserveBlockCount g ≤ maxBmtSize →
      s.ctx.reserveAreaBegin = t.state.ctx.reserveAreaBegin →
      TablesOk (t.sync g env s) ∧ (t.sync g env s).state.ctx.reserveBlockCount g =
        t.state.ctx.reserveBlockCount g := by
    intro env t s hs hsmall hbegin
    have hcount : s.ctx.reserveBlockCount g = t.state.ctx.reserveBlockCount g := by
      unfold Ctx.reserveBlockCount
      rw [hbegin]
    obtain ⟨hok, hsame⟩ := hs.sync (g := g) env (by rw [hcount]; exact hsmall)
    exact ⟨hok, hsame.trans hcount⟩
  cases hop with
  | chip nand t => exact ⟨⟨h.inside, h.bmtSize, h.bbtSize, h.bmtStored, h.bbtStored⟩, rfl⟩
  | remap env u m copyLen t =>
    unfold Tracked.remap
    dsimp only
    split
    · exact ⟨h, rfl⟩
    · obtain ⟨hok, hbegin⟩ := h.remapped (g := g) env hlast
        ((getMappingBlockBbt t.state.ctx u).getD invalBlock)
        (if m = (getMappingBlockBbt t.state.ctx u).getD invalBlock then none else some m) copyLen
      exact hsync env t _ hok hsmall hbegin
  | unmap env u t =>
    unfold Tracked.unmap
    cases getMappingBlockBbt t.state.ctx u with
    | none => exact ⟨h, rfl⟩
    | some block =>
      dsimp only
      split
      · exact ⟨h, rfl⟩
      · obtain ⟨hok, hbegin⟩ := h.unmapped (g := g) env hlast block .requireErase
        exact hsync env t _ hok hsmall hbegin

/-- A step from a state whose counter has not reached its last value. -/
def Counted (g : Geometry) (t t' : Tracked) : Prop :=
  t.state.ctx.bmtDirty ≠ 0xff ∧ Operation g t t'

theorem TablesOk.run {t t' : Tracked} (h : TablesOk t)
    (hsmall : t.state.ctx.reserveBlockCount g ≤ maxBmtSize)
    (hrun : ReflTransGen (Counted g) t t') : TablesOk t' := by
  suffices hboth : TablesOk t' ∧ t'.state.ctx.reserveBlockCount g ≤ maxBmtSize from hboth.1
  induction hrun with
  | refl => exact ⟨h, hsmall⟩
  | tail _ hstep ih =>
    obtain ⟨hok, hcount⟩ := ih.1.step ih.2 hstep.1 hstep.2
    exact ⟨hok, by rw [hcount]; exact ih.2⟩

/-! ## Initialisation -/

/-- A table that has room for all entries gets them. -/
theorem foldl_push {α : Type} {acc l : List α} (h : (acc ++ l).length ≤ 0xff) :
    l.foldl push acc = acc ++ l := by
  induction l generalizing acc with
  | nil => simp
  | cons x l ih =>
    have hroom : acc.length ≠ 0xff := by
      simp only [length_append, length_cons] at h
      omega
    have hpush : push acc x = acc ++ [x] := by rw [push, if_neg hroom]
    rw [foldl_cons, hpush, ih (by simpa using h), append_assoc]
    rfl

theorem length_foldl_push_le {α : Type} {acc : List α} (h : acc.length ≤ 0xff) (l : List α) :
    (l.foldl push acc).length ≤ 0xff := by
  induction l generalizing acc with
  | nil => exact h
  | cons x l ih => exact ih (length_push_le h x)

theorem scanned_size {chip : Chip Page} {ctx : Ctx} (h : rScanReserve g chip = some ctx) :
    ctx.bmt.table.length ≤ 0xff ∧ ctx.bbt.table.length ≤ 0xff := by
  constructor
  · obtain ⟨-, -, heq⟩ := rScanReserve_some h
    rw [heq]
    rcases seeAll_bmt (g := g) chip (ctx.reserveBlocks g) {} with hsame | ⟨ba, -, hseen⟩
    · show (seeAll g chip (ctx.reserveBlocks g) {}).bmt.table.length ≤ 0xff
      rw [hsame]
      exact Nat.zero_le _
    · exact (tryParseBmt_fits (classify_bmt hseen)).size
  · rcases scanned_bbt h with hnone | hfits
    · rw [hnone]
      exact Nat.zero_le _
    · exact hfits.size

structure Changed (n : Nat) (s s' : State) : Prop where
  counted : ∃ k ≤ n, s'.ctx.bmtDirty = s.ctx.bmtDirty + BitVec.ofNat 8 k ∧
    (k = 0 → s'.ctx.bmt = s.ctx.bmt)
  size : s'.ctx.bmt.table.length ≤ s.ctx.bmt.table.length
  reserve : s'.ctx.reserveAreaBegin = s.ctx.reserveAreaBegin
  overrun : s'.ctx.overrun = s.ctx.overrun
  bbt : s'.ctx.bbt = s.ctx.bbt ∧ s'.ctx.bbtDirty = s.ctx.bbtDirty

theorem Changed.refl (s : State) : Changed 0 s s :=
  ⟨⟨0, Nat.le_refl 0, by simp, fun _ => rfl⟩, Nat.le_refl _, rfl, rfl, rfl, rfl⟩

theorem Changed.trans {n n' : Nat} {s s' s'' : State} (h : Changed n s s')
    (h' : Changed n' s' s'') : Changed (n + n') s s'' where
  counted := by
    obtain ⟨k, hk, hdirty, hsame⟩ := h.counted
    obtain ⟨k', hk', hdirty', hsame'⟩ := h'.counted
    refine ⟨k + k', by omega, ?_, fun hzero => ?_⟩
    · rw [hdirty', hdirty, BitVec.ofNat_add, BitVec.add_assoc]
    · rw [hsame' (by omega), hsame (by omega)]
  size := h'.size.trans h.size
  reserve := h'.reserve.trans h.reserve
  overrun := h'.overrun.trans h.overrun
  bbt := ⟨h'.bbt.1.trans h.bbt.1, h'.bbt.2.trans h.bbt.2⟩

theorem Changed.mono {n n' : Nat} {s s' : State} (h : Changed n s s') (hle : n ≤ n') :
    Changed n' s s' := by
  obtain ⟨k, hk, hcount⟩ := h.counted
  exact { h with counted := ⟨k, hk.trans hle, hcount⟩ }

variable (env) in
theorem wUnmapBlock_changed (block : Nat) (erase : UnmapErase) (s : State) :
    Changed 1 s (wUnmapBlock g env block erase s).2 := by
  rcases wUnmapBlock_cases (g := g) env block erase s with hctx | ⟨to', table, hperm, hctx⟩
  · constructor
    · exact ⟨0, Nat.zero_le 1, by rw [hctx]; simp, fun _ => by rw [hctx]⟩
    · rw [hctx]
    · rw [hctx]
    · rw [hctx]
    · rw [hctx]
      exact ⟨rfl, rfl⟩
  · have hlength := hperm.length_eq
    rw [length_cons] at hlength
    constructor
    · exact ⟨1, Nat.le_refl 1, by rw [hctx]; rfl, fun hzero => absurd hzero (by decide)⟩
    · rw [hctx]
      show table.length ≤ _
      omega
    · rw [hctx]
      rfl
    · rw [hctx]
      rfl
    · rw [hctx]
      exact ⟨rfl, rfl⟩

variable (env) in
theorem unmapBlocks_changed (blocks : List Nat) (s : State) :
    Changed blocks.length s (unmapBlocks g env blocks s) := by
  induction blocks generalizing s with
  | nil => exact .refl s
  | cons block blocks ih =>
    unfold unmapBlocks
    rw [length_cons]
    split
    · exact (ih s).mono (Nat.le_succ _)
    · split
      · exact (ih s).mono (Nat.le_succ _)
      · exact ((wUnmapBlock_changed env block .noErase s).trans (ih _)).mono (by omega)

/-- Without writing a success changes nothing. -/
theorem wFactoryBadblocks_same {blocks : List Nat} {s s' : State}
    (h : wFactoryBadblocks g env blocks s = (.ok, s')) (hcan : s.ctx.canWriteFactoryBbt = false) :
    s' = s := by
  unfold wFactoryBadblocks at h
  split at h
  · cases h
  · split at h
    · cases h
    · split at h
      · cases h
      · rw [if_pos (by simp [hcan])] at h
        split at h
        · cases h
        · split at h
          · exact (Prod.mk.inj h).2.symm
          · cases h

variable (env) in
/-- The factory bad blocks are set: the changes of the BMT are counted, and the BBT is dirty. -/
theorem wFactoryBadblocks_changed {blocks : List Nat} {s s' : State}
    (h : wFactoryBadblocks g env blocks s = (.ok, s')) (hcan : s.ctx.canWriteFactoryBbt = true) :
    (∃ k ≤ blocks.length, s'.ctx.bmtDirty = s.ctx.bmtDirty + BitVec.ofNat 8 k ∧
        (k = 0 → s'.ctx.bmt = s.ctx.bmt)) ∧
      s'.ctx.bmt.table.length ≤ s.ctx.bmt.table.length ∧
      s'.ctx.reserveAreaBegin = s.ctx.reserveAreaBegin ∧ s'.ctx.overrun = s.ctx.overrun ∧
      s'.ctx.bbt.table.length ≤ 0xff ∧ s'.ctx.bbtDirty = s.ctx.bbtDirty + 1 ∧
      (blocks.dedup.length ≤ 0xff → s'.ctx.bbt.table.length = blocks.dedup.length) := by
  have hctx₁ := @clearBbt_ctx g env blocks s
  obtain ⟨s₁, hs₁⟩ : ∃ s₁, clearBbt g env blocks s.ctx.bbt.table.reverse s = s₁ := ⟨_, rfl⟩
  rw [hs₁] at hctx₁
  have hchanged := unmapBlocks_changed (g := g) env blocks s₁
  obtain ⟨s₂, hs₂⟩ : ∃ s₂, unmapBlocks g env blocks s₁ = s₂ := ⟨_, rfl⟩
  rw [hs₂] at hchanged
  have hempty : s₂.ctx.bbt.table = [] := by rw [hchanged.bbt.1, hctx₁]
  obtain ⟨hle₃, hctx₃, -, hmem₃⟩ := addBlocks_empty (g := g) env blocks hempty
  obtain ⟨s₃, hs₃⟩ : ∃ s₃, addBlocks g env blocks s₂ = s₃ := ⟨_, rfl⟩
  rw [hs₃] at hle₃ hctx₃ hmem₃
  have hresult : s' = { s₃ with ctx := { s₃.ctx with
      bbt := sortBbt s₃.ctx.bbt, bbtDirty := s₃.ctx.bbtDirty + 1 } } := by
    unfold wFactoryBadblocks at h
    split at h
    · cases h
    · split at h
      · cases h
      · split at h
        · cases h
        · rw [if_neg (by simp [hcan])] at h
          dsimp only at h
          rw [hs₁, hs₂, hs₃] at h
          exact (Prod.mk.inj h).2.symm
  have hlength : s'.ctx.bbt.table.length = s₃.ctx.bbt.table.length := by
    rw [hresult]
    exact length_insertionSort _ _
  have hsize := hchanged.size
  have hcounted := hchanged.counted
  rw [hctx₁] at hsize hcounted
  refine ⟨?_, ?_, ?_, ?_, by rw [hlength]; exact hle₃, ?_, fun hsmall => ?_⟩
  · rw [hresult, hctx₃]
    exact hcounted
  · rw [hresult, hctx₃]
    exact hsize
  · rw [hresult, hctx₃]
    show s₂.ctx.reserveAreaBegin = _
    rw [hchanged.reserve, hctx₁]
  · rw [hresult, hctx₃]
    show s₂.ctx.overrun = _
    rw [hchanged.overrun, hctx₁]
  · rw [hresult, hctx₃]
    show s₂.ctx.bbtDirty + 1 = _
    rw [hchanged.bbt.2, hctx₁]
  · obtain ⟨hnodup, hiff⟩ := hmem₃ hsmall
    rw [hlength]
    exact ((mem_iff_iff hnodup).mp fun b => by simp [hiff b]).2.symm

def Tracked.found (found : Ctx) (s : State) : Tracked where
  state := s
  bmt := if found.bmt.version = 0 then none else some found.bmt
  bbt := if found.bbt.version = 0 then none else some found.bbt

structure PutOk (g : Geometry) (cfg : Config) (found : Ctx) (chip : Chip Page) (s : State) :
    Prop where
  /-- the BMT that is reconstructed has all mappings that are found -/
  bmt : found.bmt.version = 0 → (rReconstructBmt g found chip).bmt.table =
    (found.reserveBlocks g).filterMap (foundMapping g found chip)
  /-- a BBT that is set has all blocks of the list -/
  bbt : ∀ blocks, cfg.factoryBadblocks = some blocks → cfg.canWriteFactoryBbt = true →
    s.ctx.bbt.table.length = blocks.dedup.length

/-- The chips and the configurations that the initialisation gets right: a BBT is found, the BMT
that is found by the spare bytes has at most 255 entries, and the reserve area has no more blocks
than a BMT entries. -/
structure Sized (g : Geometry) (chip : Chip Page) (found : Ctx) : Prop where
  bbt : found.bbt.version ≠ 0
  bmt : found.bmt.version = 0 →
    ((found.reserveBlocks g).filterMap (foundMapping g found chip)).length ≤ 0xff
  reserve : found.reserveBlockCount g ≤ maxBmtSize

def Ctx.withTables (g : Geometry) (cfg : Config) (found : Ctx) (chip : Chip Page) : Ctx :=
  let ctx := { found with
    canWriteFactoryBbt := cfg.canWriteFactoryBbt, canRemapRanges := cfg.remapRanges found }
  if found.bmt.version = 0 then rReconstructBmt g ctx chip else ctx

/-- With a BBT the initialisation goes on with the tables, and may set the factory bad blocks. -/
theorem wInit_some {cfg : Config} {nand : Device Page} {found : Ctx} {s : State}
    (hscan : rScanReserve g nand.chip = some found) (hbbt : found.bbt.version ≠ 0)
    (h : (wInit g env cfg nand).1 = some s) :
    cfg.factoryBadblocks = none ∧ s = { ctx := found.withTables g cfg nand.chip, nand := nand } ∨
      ∃ blocks, cfg.factoryBadblocks = some blocks ∧ wFactoryBadblocks g env blocks
        { ctx := found.withTables g cfg nand.chip, nand := nand } = (.ok, s) := by
  have htables : findTables g cfg { found with
      canWriteFactoryBbt := cfg.canWriteFactoryBbt, canRemapRanges := cfg.remapRanges found }
        nand.chip = some (found.withTables g cfg nand.chip) := by
    unfold findTables
    rw [if_pos hbbt]
    rfl
  unfold wInit at h
  rw [hscan] at h
  dsimp only at h
  split at h
  · cases h
  rw [htables] at h
  dsimp only at h
  split at h
  · rename_i hnone
    exact .inl ⟨hnone, (some.inj h).symm⟩
  · rename_i blocks hblocks
    split at h
    · rename_i s' hfactory
      obtain rfl := some.inj h
      exact .inr ⟨blocks, hblocks, hfactory⟩
    · cases h

theorem withTables_fields {cfg : Config} {chip : Chip Page} {found : Ctx}
    (hscan : rScanReserve g chip = some found) :
    (found.withTables g cfg chip).overrun = false ∧
      (found.withTables g cfg chip).bbt = found.bbt ∧
      (found.withTables g cfg chip).bbtDirty = 0 ∧
      (found.withTables g cfg chip).reserveAreaBegin = found.reserveAreaBegin ∧
      (found.withTables g cfg chip).canWriteFactoryBbt = cfg.canWriteFactoryBbt ∧
      (found.withTables g cfg chip).bmt.table.length ≤ 0xff ∧
      (found.bmt.version = 0 ∧ (found.withTables g cfg chip).bmtDirty = 1 ∨
        found.bmt.version ≠ 0 ∧ (found.withTables g cfg chip).bmtDirty = 0 ∧
          (found.withTables g cfg chip).bmt = found.bmt) := by
  obtain ⟨hover, hbbtDirty, hbmtDirty⟩ := scanned_clean hscan
  unfold Ctx.withTables
  split
  · rename_i hv
    refine ⟨hover, rfl, hbbtDirty, rfl, rfl, ?_, .inl ⟨hv, ?_⟩⟩
    · exact length_foldl_push_le (Nat.zero_le _) _
    · show found.bmtDirty + 1 = 1
      rw [hbmtDirty]
      rfl
  · rename_i hv
    exact ⟨hover, rfl, hbbtDirty, rfl, rfl, (scanned_size hscan).1, .inr ⟨hv, hbmtDirty, rfl⟩⟩

theorem wInit_tables {cfg : Config} {nand : Device Page} {found : Ctx} {s : State}
    (hscan : rScanReserve g nand.chip = some found) (hsized : Sized g nand.chip found)
    (h : (wInit g env cfg nand).1 = some s) :
    TablesOk (.found found s) ∧ PutOk g cfg found nand.chip s ∧
      s.ctx.reserveBlockCount g ≤ maxBmtSize := by
  obtain ⟨hover, hbbt, hbbtDirty, hbegin, hcan, hlength, hbmt⟩ :=
    @withTables_fields g cfg nand.chip found hscan
  have hput : found.bmt.version = 0 → (rReconstructBmt g found nand.chip).bmt.table =
      (found.reserveBlocks g).filterMap (foundMapping g found nand.chip) :=
    fun hv => @foldl_push _ [] _ (hsized.bmt hv)
  have hcount : ∀ ctx : Ctx, ctx.reserveAreaBegin = found.reserveAreaBegin →
      ctx.reserveBlockCount g ≤ maxBmtSize := by
    intro ctx heq
    have hreserve := hsized.reserve
    unfold Ctx.reserveBlockCount at hreserve ⊢
    rw [heq]
    exact hreserve
  -- the tables before the factory bad blocks are set
  have hbase : ∀ s : State, s.ctx = found.withTables g cfg nand.chip →
      TablesOk (.found found s) := by
    intro s hs
    constructor
    · rw [Tracked.found, hs]
      exact hover
    · rw [Tracked.found, hs]
      exact hlength
    · rw [Tracked.found, hs, hbbt]
      exact (scanned_size hscan).2
    · rw [Tracked.found, hs]
      rcases hbmt with ⟨hv, hdirty⟩ | ⟨hv, -, hsame⟩
      · rw [hdirty]
        exact fun _ => by decide
      · rw [hsame, if_neg hv]
        exact fun hne => absurd rfl hne
    · rw [Tracked.found, hs, hbbt, if_neg hsized.bbt]
      exact fun hne => absurd rfl hne
  rcases wInit_some hscan hsized.bbt h with ⟨hnone, rfl⟩ | ⟨blocks, hblocks, hfactory⟩
  · refine ⟨hbase _ rfl, ⟨hput, fun blocks hblocks => ?_⟩, hcount _ hbegin⟩
    rw [hnone] at hblocks
    cases hblocks
  · have hshort : blocks.length ≤ 32 := cfg.factoryBadblocks_le blocks hblocks
    have hdedup : blocks.dedup.length ≤ 0xff :=
      (dedup_sublist blocks).length_le.trans (hshort.trans (by decide))
    cases hwrite : cfg.canWriteFactoryBbt with
    | false =>
      have hs : s.ctx = found.withTables g cfg nand.chip := by
        rw [wFactoryBadblocks_same hfactory (by rw [hcan]; exact hwrite)]
      refine ⟨hbase s hs, ⟨hput, fun _ _ htrue => ?_⟩, hcount _ (by rw [hs]; exact hbegin)⟩
      rw [hwrite] at htrue
      cases htrue
    | true =>
      obtain ⟨⟨k, hk, hdirty, hsame⟩, hsize, hreserve, hover', hbbtSize, hbbtDirty', hput'⟩ :=
        wFactoryBadblocks_changed env hfactory (by rw [hcan]; exact hwrite)
      refine ⟨⟨hover'.trans hover, hsize.trans hlength, hbbtSize, ?_, ?_⟩,
        ⟨hput, fun blocks' hblocks' _ => ?_⟩, hcount _ (hreserve.trans hbegin)⟩
      · show (if found.bmt.version = 0 then none else some found.bmt) ≠ some s.ctx.bmt →
          s.ctx.bmtDirty ≠ 0
        have hk' : k ≤ 32 := hk.trans hshort
        rcases hbmt with ⟨-, hfirst⟩ | ⟨hv, hfirst, hfound⟩
        · rw [hdirty, hfirst]
          intro _ hzero
          have htoNat := congrArg BitVec.toNat hzero
          simp at htoNat
          omega
        · rw [hdirty, hfirst, if_neg hv]
          intro hne hzero
          have htoNat := congrArg BitVec.toNat hzero
          simp at htoNat
          refine hne (congrArg some ?_)
          rw [hsame (by omega)]
          exact hfound.symm
      · intro _
        show s.ctx.bbtDirty ≠ 0
        rw [hbbtDirty']
        show (found.withTables g cfg nand.chip).bbtDirty + 1 ≠ 0
        rw [hbbtDirty]
        decide
      · obtain rfl := some.inj (hblocks.symm.trans hblocks')
        exact hput' hdedup

def blankNand : Device Page where
  chip := { page := fun _ _ => blankPage, marked := fun _ => false }

end LibWrt.En75
