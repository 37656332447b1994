/-
LibWrt.En75.Sync — what synchronising the tables can do.

`Held` is the status of a block of the reserve area that is not at the
manager's disposal. `Pooled` is all that `w_erase_pending` and
`w_sync_tables` do to a state: operations on the other blocks and changes of
their status. So a fact about the held blocks and the tables needs this
relation only.
-/
import LibWrt.En75.Init

namespace LibWrt.En75

open List
open LibWrt.Flash LibWrt.Bytes

variable {g : Geometry} {env : Env}

/-! ## Operations -/

/-- An operation on block `ba`. -/
abbrev On (ba : Nat) (op : Op Page) : Prop := op.block = ba

section Ran

variable {P : Op Page → Prop}

theorem erase_ran_of {ba : Nat} (h : ∀ left, P (.erase ba left)) (d : Device Page) :
    Ran P d (erase env ba d).2 := by
  unfold erase
  split <;> exact .run (h _)

theorem writeOob_ran_of {ba pg : Nat} (h : ∀ left, P (.program ba pg left)) (w : Write)
    (d : Device Page) : Ran P d (writeOob g env ba pg w d).2 := by
  unfold writeOob
  dsimp only
  split <;> exact .run (h _)

theorem bbtNandErase_ran_of {ba : Nat} (h : ∀ left, P (.erase ba left)) (tries : Nat)
    (d : Device Page) : Ran P d (bbtNandErase env ba tries d).2 := by
  induction tries generalizing d with
  | zero => exact .refl _ d
  | succ tries ih =>
    have hran : Ran P d (erase env ba d).2 := erase_ran_of h d
    unfold bbtNandErase
    split
    · rename_i heq
      rwa [heq] at hran
    · rename_i heq
      rw [heq] at hran
      exact hran.trans (ih _)

theorem writeFirst_ran_of {ba : Nat} (h : ∀ left, P (.program ba 0 left)) (w : Write) (tries : Nat)
    (d : Device Page) : Ran P d (writeFirst g env ba w tries d).2 := by
  induction tries generalizing d with
  | zero => exact .refl _ d
  | succ tries ih =>
    have hran : Ran P d (writeOob g env ba 0 w d).2 := writeOob_ran_of h w d
    unfold writeFirst
    split
    · rename_i heq
      rwa [heq] at hran
    · rename_i heq
      rw [heq] at hran
      exact hran.trans (ih _)

theorem wWrite_ran_of {ba : Nat} (h : ∀ left, P (.program ba 0 left)) (userArea : Bool) (w : Write)
    (s : State) : Ran P s.nand (wWrite g env ba userArea w s).2.nand := by
  have hran : Ran P s.nand (writeFirst g env ba w tries s.nand).2 := writeFirst_ran_of h w tries _
  unfold wWrite
  split
  · exact .refl _ _
  · split
    · rename_i heq
      rwa [heq] at hran
    · rename_i heq
      rwa [heq] at hran

theorem wEraseOne_ran_of {ba : Nat} (h : ∀ left, P (.erase ba left)) (userArea : Bool)
    (s : State) : Ran P s.nand (wEraseOne g env ba userArea s).2.nand := by
  have hran : Ran P s.nand (bbtNandErase env ba tries s.nand).2 := bbtNandErase_ran_of h tries _
  unfold wEraseOne
  split
  · exact .refl _ _
  · split
    · rename_i heq
      rwa [heq] at hran
    · rename_i heq
      rwa [heq] at hran

end Ran

theorem wWrite_ran (ba : Nat) (userArea : Bool) (w : Write) (s : State) :
    Ran (On ba) s.nand (wWrite g env ba userArea w s).2.nand :=
  wWrite_ran_of (fun _ => rfl) userArea w s

theorem wEraseOne_ran (ba : Nat) (userArea : Bool) (s : State) :
    Ran (On ba) s.nand (wEraseOne g env ba userArea s).2.nand :=
  wEraseOne_ran_of (fun _ => rfl) userArea s

@[simp] theorem wWrite_ctx (ba : Nat) (userArea : Bool) (w : Write) (s : State) :
    (wWrite g env ba userArea w s).2.ctx = s.ctx := by
  unfold wWrite
  split
  · rfl
  · split <;> rfl

@[simp] theorem wMarkBad_ctx (ba : Nat) (userArea : Bool) (s : State) :
    (wMarkBad g env ba userArea s).ctx = s.ctx := wWrite_ctx _ _ _ _

@[simp] theorem wEraseOne_ctx (ba : Nat) (userArea : Bool) (s : State) :
    (wEraseOne g env ba userArea s).2.ctx = s.ctx := by
  unfold wEraseOne
  split
  · rfl
  · split <;> rfl

/-! ## The context -/

/-- Only the status of blocks and the chip are changed. -/
def Statuses (s s' : State) : Prop := s'.ctx = { s.ctx with rblocks := s'.ctx.rblocks }

theorem Statuses.refl (s : State) : Statuses s s := rfl

theorem Statuses.of_ctx {s s' : State} (h : s'.ctx = s.ctx) : Statuses s s' := by
  rw [Statuses, h]

theorem Statuses.trans {s s' s'' : State} (h : Statuses s s') (h' : Statuses s' s'') :
    Statuses s s'' := by
  rw [Statuses] at h h' ⊢
  conv_lhs => rw [h', h]

theorem Statuses.set (s : State) (ba : Nat) (status : Status) :
    Statuses s (s.setStatus ba status) := rfl

/-! ## The pool -/

/-- A block that is not free, waiting to be erased, or holding a table. -/
def Held (status : Status) : Prop := status = .invalid ∨ status = .bad ∨ status = .mapped

instance (status : Status) : Decidable (Held status) := by
  unfold Held
  infer_instance

/-- `s'` is `s` after operations on blocks that are not held, and changes of their status. -/
structure Pooled (g : Geometry) (s s' : State) : Prop where
  ran : Ran (fun op => ¬ Held (s.ctx.rblocks op.block)) s.nand s'.nand
  frame : s'.ctx = { s.ctx with
    rblocks := s'.ctx.rblocks
    bbtDirty := s'.ctx.bbtDirty
    bmtDirty := s'.ctx.bmtDirty
    overrun := s'.ctx.overrun }
  held : ∀ b, Held (s.ctx.rblocks b) → s'.ctx.rblocks b = s.ctx.rblocks b
  overrun : s.ctx.reserveBlockCount g ≤ maxBmtSize → s'.ctx.overrun = s.ctx.overrun

section Pooled

variable {s s' s'' : State}

theorem Pooled.refl (s : State) : Pooled g s s := ⟨.refl _ _, rfl, fun _ _ => rfl, fun _ => rfl⟩

theorem Pooled.count (h : Pooled g s s') :
    s'.ctx.reserveBlockCount g = s.ctx.reserveBlockCount g := by
  rw [h.frame]
  rfl

theorem Pooled.reserveBlocks (h : Pooled g s s') :
    s'.ctx.reserveBlocks g = s.ctx.reserveBlocks g := by
  rw [h.frame]
  rfl

theorem Pooled.trans (h : Pooled g s s') (h' : Pooled g s' s'') : Pooled g s s'' where
  ran := h.ran.trans (h'.ran.mono fun op hop hheld => hop (by rwa [h.held op.block hheld]))
  frame := by
    conv_lhs => rw [h'.frame, h.frame]
  held := by
    intro b hb
    have hb' : Held (s'.ctx.rblocks b) := by rwa [h.held b hb]
    rw [h'.held b hb', h.held b hb]
  overrun := by
    intro hsmall
    rw [h'.overrun (by rwa [h.count]), h.overrun hsmall]

/-- Operations on one block that is not held. -/
theorem Pooled.on {ba : Nat} (hctx : s'.ctx = s.ctx) (hran : Ran (On ba) s.nand s'.nand)
    (hb : ¬ Held (s.ctx.rblocks ba)) : Pooled g s s' where
  ran := hran.mono fun op hop => by rwa [hop]
  frame := by rw [hctx]
  held := fun b _ => by rw [hctx]
  overrun := fun _ => by rw [hctx]

theorem Pooled.setStatus {ba : Nat} {status : Status} (hb : ¬ Held (s.ctx.rblocks ba)) :
    Pooled g s (s.setStatus ba status) where
  ran := .refl _ _
  frame := rfl
  held := by
    intro b hheld
    have hne : b ≠ ba := by
      rintro rfl
      exact hb hheld
    exact Function.update_of_ne hne _ _
  overrun := fun _ => rfl

end Pooled

theorem erasePendingOne_pooled (ba : Nat) (s : State) :
    Pooled g s (erasePendingOne g env ba s) := by
  unfold erasePendingOne
  split
  · exact .refl s
  · rename_i hstatus
    have hst : s.ctx.rblocks ba = .needErase := by simpa using hstatus
    have hb : ¬ Held (s.ctx.rblocks ba) := by
      rw [hst]
      decide
    have herase : Pooled g s (wEraseOne g env ba false s).2 :=
      .on (wEraseOne_ctx _ _ _) (wEraseOne_ran _ _ _) hb
    have hb' : ¬ Held ((wEraseOne g env ba false s).2.ctx.rblocks ba) := by
      rwa [wEraseOne_ctx]
    split
    · rename_i heq
      rw [heq] at herase hb'
      exact herase.trans (.setStatus hb')
    · rename_i heq
      rw [heq] at herase hb'
      exact herase.trans (.setStatus hb')
    · rename_i s₁ _ _ heq
      rw [heq] at herase hb'
      have hmark : Pooled g s₁ (wMarkBad g env ba false s₁) :=
        .on (wMarkBad_ctx _ _ _) (wWrite_ran _ _ _ _) hb'
      refine herase.trans (hmark.trans (.setStatus ?_))
      rwa [wMarkBad_ctx]

theorem erasePendingFrom_pooled (bas : List Nat) (s : State) :
    Pooled g s (erasePendingFrom g env bas s) := by
  induction bas generalizing s with
  | nil => exact .refl s
  | cons ba bas ih => exact (erasePendingOne_pooled ba s).trans (ih _)

theorem wErasePending_pooled (s : State) : Pooled g s (wErasePending g env s) :=
  erasePendingFrom_pooled _ s

theorem mem_reserveBlocks {ctx : Ctx} {b : Nat} :
    b ∈ ctx.reserveBlocks g ↔ ctx.reserveAreaBegin ≤ b ∧ b < g.totalBlks := by
  simp only [Ctx.reserveBlocks, Ctx.reserveBlockCount, mem_reverse, mem_range'_1]
  omega

theorem findAvailableBlock_some {ctx : Ctx} {startFromEnd : Bool} {b : Nat}
    (h : findAvailableBlock g ctx startFromEnd = some b) :
    ctx.rblocks b = .available ∧ b ∈ ctx.reserveBlocks g := by
  unfold findAvailableBlock at h
  refine ⟨by simpa using find?_some h, ?_⟩
  have := mem_of_find?_eq_some h
  cases startFromEnd <;> simpa using this

theorem not_held_available {status : Status} (h : status = .available) : ¬ Held status := by
  rw [h]
  decide

variable (env) in
/-- The block that takes a table is free, and only free blocks are touched. -/
theorem wUpdateTable_pooled (startFromEnd : Bool) (data : Bytes) (n : Nat) (s : State) :
    Pooled g s (wUpdateTable g env startFromEnd data n s).2 ∧
      ∀ b, (wUpdateTable g env startFromEnd data n s).1 = some b →
        (wUpdateTable g env startFromEnd data n s).2.ctx.rblocks b = .available ∧
          b ∈ s.ctx.reserveBlocks g := by
  induction n generalizing s with
  | zero => exact ⟨.refl s, fun b hb => by simp [wUpdateTable] at hb⟩
  | succ n ih =>
    unfold wUpdateTable
    split
    · exact ⟨.refl s, fun b hb => by simp at hb⟩
    · rename_i ba hfind
      obtain ⟨havail, hmem⟩ := findAvailableBlock_some hfind
      have hwrite : Pooled g s (wWrite g env ba false { data := data } s).2 :=
        .on (wWrite_ctx _ _ _ _) (wWrite_ran _ _ _ _) (not_held_available havail)
      have hctx : (wWrite g env ba false { data := data } s).2.ctx = s.ctx := wWrite_ctx _ _ _ _
      split
      · rename_i s₁ heq
        rw [heq] at hwrite hctx
        refine ⟨hwrite, fun b hb => ?_⟩
        obtain rfl := Option.some.inj hb
        exact ⟨by rw [hctx]; exact havail, hmem⟩
      · rename_i s₁ _ heq
        rw [heq] at hwrite hctx
        have hset : Pooled g s (s₁.setStatus ba .needErase) :=
          hwrite.trans (.setStatus (by rw [hctx]; exact not_held_available havail))
        obtain ⟨hrest, hplace⟩ := ih (s₁.setStatus ba .needErase)
        exact ⟨hset.trans hrest, fun b hb => by rw [← hset.reserveBlocks]; exact hplace b hb⟩

/-- The table's block takes the status, and the former ones wait to be erased. -/
theorem Pooled.replaceTable {s : State} {ba : Nat} {status : Status} {ctx : Ctx}
    (hstatus : ¬ Held status) (hb : ¬ Held (s.ctx.rblocks ba))
    (hctx : ctx = { (s.ctx.markForErasure status).setStatus ba status with
      bbtDirty := ctx.bbtDirty, bmtDirty := ctx.bmtDirty }) :
    Pooled g s { s with ctx := ctx } where
  ran := .refl _ _
  frame := by
    dsimp only
    rw [hctx]
    rfl
  held := by
    intro b hheld
    have hne : b ≠ ba := by
      rintro rfl
      exact hb hheld
    have hstatus' : s.ctx.rblocks b ≠ status := by
      rintro heq
      rw [heq] at hheld
      exact hstatus hheld
    rw [hctx]
    simp [Ctx.setStatus, Ctx.markForErasure, Function.update_of_ne hne, hstatus']
  overrun := fun _ => by
    dsimp only
    rw [hctx]
    rfl

theorem clearBmt_pooled (s : State) : Pooled g s { s with ctx := s.ctx.clearBmt g } where
  ran := .refl _ _
  frame := rfl
  held := fun _ _ => rfl
  overrun := by
    intro hsmall
    simp only [Ctx.clearBmt]
    rw [decide_eq_false (by omega), Bool.or_false]

theorem syncBmt_pooled (s : State) : Pooled g s (syncBmt g env s).2 := by
  unfold syncBmt
  split
  · exact .refl s
  · have hclear : Pooled g s { s with ctx := s.ctx.clearBmt g } := clearBmt_pooled s
    obtain ⟨hup, hplace⟩ := wUpdateTable_pooled (g := g) env true
      (bmtBytes g (s.ctx.clearBmt g).bmt) updateTableTries { s with ctx := s.ctx.clearBmt g }
    dsimp only
    split
    · rename_i heq
      rw [heq] at hup
      exact hclear.trans hup
    · rename_i heq
      rw [heq] at hup hplace
      have hfree := not_held_available (hplace _ rfl).1
      exact (hclear.trans hup).trans (.replaceTable (show ¬ Held .bmt by decide) hfree rfl)

theorem syncBbt_pooled (s : State) : Pooled g s (syncBbt g env s).2 := by
  unfold syncBbt
  split
  · exact .refl s
  · obtain ⟨hup, hplace⟩ :=
      wUpdateTable_pooled (g := g) env false (bbtBytes g s.ctx.bbt) updateTableTries s
    split
    · rename_i heq
      rw [heq] at hup
      exact hup
    · rename_i heq
      rw [heq] at hup hplace
      have hfree := not_held_available (hplace _ rfl).1
      exact hup.trans (.replaceTable (show ¬ Held .bbt by decide) hfree rfl)

/-- Synchronising the tables is a matter of the pool. -/
theorem wSyncTables_pooled (s : State) : Pooled g s (wSyncTables g env s).2 := by
  have hpending : Pooled g s (wErasePending g env s) := wErasePending_pooled s
  have hbmt : Pooled g (wErasePending g env s) (syncBmt g env (wErasePending g env s)).2 :=
    syncBmt_pooled _
  unfold wSyncTables
  split
  · rename_i heq
    rw [heq] at hbmt
    exact hpending.trans hbmt
  · rename_i s₁ heq
    rw [heq] at hbmt
    have hbbt : Pooled g s₁ (syncBbt g env s₁).2 := syncBbt_pooled s₁
    split
    · rename_i heq'
      rw [heq'] at hbbt
      exact hpending.trans (hbmt.trans hbbt)
    · rename_i heq'
      rw [heq'] at hbbt
      exact hpending.trans (hbmt.trans (hbbt.trans (wErasePending_pooled _)))

end LibWrt.En75
