/-
LibWrt.En75.Correct — the mapping is correct in every run.

`Sound` is the invariant of the whole context: the BBT is sorted and lies in
the user area, and the BMT is `Mapped`. Every operation keeps it, and an
initialisation establishes it if the BMT it finds or reconstructs has one
entry a source and maps to blocks that the scan does not take for free or for
tables (`pubInit_sound`).
-/
import LibWrt.En75.Mapping
import LibWrt.En75.Scan

namespace LibWrt.En75

open Option hiding any any_eq_true
open List Relation
open LibWrt.Flash LibWrt.Bytes LibWrt.Skip

variable {g : Geometry} {env : Env}

/-! ## The invariant -/

structure Sound (g : Geometry) (ctx : Ctx) : Prop extends Mapped g ctx where
  bbtSorted : ctx.bbt.table.Pairwise (· < ·)
  bbtUser : ∀ b ∈ ctx.bbt.table, b < ctx.reserveAreaBegin
  small : ctx.reserveBlockCount g ≤ maxBmtSize
  sized : ctx.reserveAreaBegin * 2 ^ g.blkShift < 2 ^ 31
  intact : ctx.overrun = false

structure MappingOk (g : Geometry) (ctx : Ctx) : Prop where
  total : ∀ u < ctx.userBlocks g, ∃ p, getMappingBlock ctx u = some p
  injective : ∀ u v p, getMappingBlock ctx u = some p → getMappingBlock ctx v = some p → u = v
  /-- the first stage counts the blocks of the user area that are not factory bad -/
  skips : ∀ u p, getMappingBlockBbt ctx u = some p → p ∉ ctx.bbt.table
  ascending : ∀ u v p q, u < v → getMappingBlockBbt ctx u = some p →
    getMappingBlockBbt ctx v = some q → p < q
  onto : ∀ p < ctx.reserveAreaBegin, p ∉ ctx.bbt.table →
    ∃ u < ctx.userBlocks g, getMappingBlockBbt ctx u = some p
  held : ∀ u p, getMappingBlock ctx u = some p → p ∈ ctx.reserveBlocks g → Held (ctx.rblocks p)
  sources : (ctx.bmt.table.map BmtEntry.fromBlock).Nodup
  intact : ctx.overrun = false

variable {ctx found : Ctx} {u : Nat} {s s' : State} {α : Type} {chip : Chip Page}

theorem getMappingBlockBbt_some {p : Nat} :
    getMappingBlockBbt ctx u = some p ↔ skip ctx.bbt.table u = p ∧ p < ctx.reserveAreaBegin := by
  unfold getMappingBlockBbt
  rw [shiftBbt_eq]
  dsimp only
  split
  · constructor
    · simp
    · rintro ⟨rfl, hlt⟩
      omega
  · constructor
    · intro h
      obtain rfl := some.inj h
      exact ⟨rfl, by omega⟩
    · rintro ⟨rfl, -⟩
      rfl

theorem getMappingBlock_some {p : Nat} : getMappingBlock ctx u = some p ↔
    ∃ b, getMappingBlockBbt ctx u = some b ∧ (lookup ctx.bmt.table b).getD b = p := by
  unfold getMappingBlock
  exact map_eq_some_iff

/-- The reported size does not wrap in an `int`. -/
theorem Sound.userBlocks (h : Sound g ctx) :
    ctx.userBlocks g = ctx.reserveAreaBegin - ctx.bbt.table.length := by
  have hle : ctx.bbt.table.length ≤ ctx.reserveAreaBegin := by
    have hsub : ctx.bbt.table ⊆ range ctx.reserveAreaBegin :=
      fun b hb => mem_range.mpr (h.bbtUser b hb)
    have hnodup : ctx.bbt.table.Nodup := h.bbtSorted.imp Nat.ne_of_lt
    simpa using (subperm_of_subset hnodup hsub).length_le
  have hpos := Nat.two_pow_pos g.blkShift
  have hlt : (ctx.reserveAreaBegin - ctx.bbt.table.length) * 2 ^ g.blkShift < 2 ^ 31 :=
    (Nat.mul_le_mul_right _ (Nat.sub_le _ _)).trans_lt h.sized
  have hint : BitVec.ofInt 32 (ctx.reserveAreaBegin - ctx.bbt.table.length : Int) =
      BitVec.ofNat 32 (ctx.reserveAreaBegin - ctx.bbt.table.length) := by
    rw [← Int.natCast_sub hle]
    rfl
  have hnat : (BitVec.ofNat 32 (ctx.reserveAreaBegin - ctx.bbt.table.length) <<<
      g.blkShift).toNat = (ctx.reserveAreaBegin - ctx.bbt.table.length) * 2 ^ g.blkShift := by
    have hself := Nat.le_mul_of_pos_right (ctx.reserveAreaBegin - ctx.bbt.table.length) hpos
    rw [BitVec.toNat_shiftLeft, BitVec.toNat_ofNat, Nat.shiftLeft_eq,
      Nat.mod_eq_of_lt (a := ctx.reserveAreaBegin - ctx.bbt.table.length) (by omega),
      Nat.mod_eq_of_lt (by omega)]
  unfold Ctx.userBlocks Ctx.deviceSize
  rw [hint, BitVec.signExtend_eq_setWidth_of_msb_false
    (by rw [BitVec.msb_eq_false_iff_two_mul_lt, hnat]; omega), BitVec.toNat_setWidth, hnat,
    Nat.mod_eq_of_lt (by omega), Nat.mul_div_cancel _ hpos]

theorem Sound.mappingOk (h : Sound g ctx) : MappingOk g ctx where
  total := by
    intro u hu
    have hle := skip_le ctx.bbt.table u
    rw [h.userBlocks] at hu
    exact ⟨_, getMappingBlock_some.mpr
      ⟨_, getMappingBlockBbt_some.mpr ⟨rfl, by omega⟩, rfl⟩⟩
  injective := by
    intro u v p hu hv
    obtain ⟨b, hb, hp⟩ := getMappingBlock_some.mp hu
    obtain ⟨c, hc, hq⟩ := getMappingBlock_some.mp hv
    obtain ⟨rfl, hblt⟩ := getMappingBlockBbt_some.mp hb
    obtain ⟨rfl, hclt⟩ := getMappingBlockBbt_some.mp hc
    apply skip_injective ctx.bbt.table
    have hreserve : ∀ b t, lookup ctx.bmt.table b = some t → ctx.reserveAreaBegin ≤ t :=
      fun b t ht => (mem_reserveBlocks.mp
        (h.reserve _ ((lookup_eq_some h.oneToOne.sources).mp ht))).1
    cases hl : lookup ctx.bmt.table (skip ctx.bbt.table u) with
    | none =>
      cases hl' : lookup ctx.bmt.table (skip ctx.bbt.table v) with
      | none =>
        rw [hl, getD_none] at hp
        rw [hl', getD_none] at hq
        rw [hp, hq]
      | some t =>
        rw [hl, getD_none] at hp
        rw [hl', getD_some] at hq
        have := hreserve _ _ hl'
        omega
    | some t =>
      have ht := hreserve _ _ hl
      cases hl' : lookup ctx.bmt.table (skip ctx.bbt.table v) with
      | none =>
        rw [hl, getD_some] at hp
        rw [hl', getD_none] at hq
        omega
      | some t' =>
        rw [hl, getD_some] at hp
        rw [hl', getD_some] at hq
        have hmem := (lookup_eq_some h.oneToOne.sources).mp hl
        have hmem' := (lookup_eq_some h.oneToOne.sources).mp hl'
        have := inj_on_of_nodup_map h.oneToOne.targets hmem hmem' (hp.trans hq.symm)
        exact (BmtEntry.mk.inj this).1
  skips := by
    intro u p hp
    obtain ⟨rfl, -⟩ := getMappingBlockBbt_some.mp hp
    exact skip_not_mem h.bbtSorted u
  ascending := by
    intro u v p q huv hp hq
    obtain ⟨rfl, -⟩ := getMappingBlockBbt_some.mp hp
    obtain ⟨rfl, -⟩ := getMappingBlockBbt_some.mp hq
    exact skip_lt _ huv
  onto := by
    intro p hp hmem
    obtain ⟨u, rfl⟩ := exists_skip h.bbtSorted hmem
    refine ⟨u, ?_, getMappingBlockBbt_some.mpr ⟨rfl, hp⟩⟩
    rw [h.userBlocks]
    by_contra hge
    have := le_skip_of_le h.bbtSorted (n := u) h.bbtUser (by omega)
    omega
  held := by
    intro u p hp hmem
    obtain ⟨b, hb, rfl⟩ := getMappingBlock_some.mp hp
    cases hl : lookup ctx.bmt.table b with
    | none =>
      have := (getMappingBlockBbt_some.mp hb).2
      rw [hl, getD_none, mem_reserveBlocks] at hmem
      omega
    | some t => exact h.held _ ((lookup_eq_some h.oneToOne.sources).mp hl)
  sources := h.oneToOne.sources
  intact := h.intact

/-! ## Steps -/

theorem Pooled.sound (h : Pooled g s s') (hs : Sound g s.ctx) :
    Sound g s'.ctx where
  toMapped := h.mapped hs.toMapped
  bbtSorted := by rw [h.frame]; exact hs.bbtSorted
  bbtUser := by rw [h.frame]; exact hs.bbtUser
  small := by rw [h.count]; exact hs.small
  sized := by rw [h.frame]; exact hs.sized
  intact := by rw [h.overrun hs.small]; exact hs.intact

theorem Pooled.getMappingBlock (h : Pooled g s s') (u : Nat) :
    getMappingBlock s'.ctx u = getMappingBlock s.ctx u := by
  rw [h.frame]
  rfl

theorem Sound.remapped {block new : Nat} (h : Sound g ctx) (havail : ctx.rblocks new = .available)
    (hnew : new ∈ ctx.reserveBlocks g) :
    Sound g (ctx.remapped block new (lookup ctx.bmt.table block)) := by
  have hmapped : Mapped g (ctx.remapped block new (lookup ctx.bmt.table block)) :=
    h.toMapped.remapped havail hnew
  unfold Ctx.remapped at hmapped ⊢
  cases hl : lookup ctx.bmt.table block with
  | none =>
    rw [hl] at hmapped
    exact ⟨hmapped, h.bbtSorted, h.bbtUser, h.small, h.sized, h.intact⟩
  | some former =>
    rw [hl] at hmapped
    exact ⟨hmapped, h.bbtSorted, h.bbtUser, h.small, h.sized, h.intact⟩

/-- The block that is given up is the former replacement. -/
theorem former_eq {b m : Nat} (h : Sound g ctx) (hb : getMappingBlockBbt ctx u = some b)
    (hm : getMappingBlock ctx u = some m) :
    (if m = b then none else some m) = lookup ctx.bmt.table b ∧
      (m ≠ b → m ∈ ctx.reserveBlocks g) := by
  obtain ⟨b', hb', rfl⟩ := getMappingBlock_some.mp hm
  obtain rfl : b' = b := by
    rw [hb] at hb'
    exact (some.inj hb').symm
  cases hl : lookup ctx.bmt.table b' with
  | none => simp
  | some t =>
    have hmem := h.reserve _ ((lookup_eq_some h.oneToOne.sources).mp hl)
    have hlt := (getMappingBlockBbt_some.mp hb).2
    have hge := (mem_reserveBlocks.mp hmem).1
    have hne : t ≠ b' := by
      dsimp only at hge
      omega
    simpa [hne] using hmem

/-- Remapping keeps the context sound and the other user blocks where they are. -/
theorem pubRemapBlock_sound {m copyLen : Nat} (h : Sound g s.ctx)
    (hm : getMappingBlock s.ctx u = some m) :
    Sound g (pubRemapBlock g env u m copyLen s).2.2.ctx ∧ ∀ v, v ≠ u →
      getMappingBlock (pubRemapBlock g env u m copyLen s).2.2.ctx v =
        getMappingBlock s.ctx v := by
  obtain ⟨b, hb, -⟩ := getMappingBlock_some.mp hm
  obtain ⟨hformer, hmem⟩ := former_eq h hb hm
  unfold pubRemapBlock
  split
  · exact ⟨h, fun _ _ => rfl⟩
  · rw [hb, getD_some]
    dsimp only
    split
    · exact ⟨h, fun _ _ => rfl⟩
    · split
      · rename_i hout
        exact absurd (hmem hout.1) hout.2
      · rw [hformer]
        have hsync : ∀ s₁ : State, Sound g s₁.ctx →
            (∀ v, v ≠ u → getMappingBlock s₁.ctx v = getMappingBlock s.ctx v) →
            Sound g (wSyncTables g env s₁).2.ctx ∧ ∀ v, v ≠ u →
              getMappingBlock (wSyncTables g env s₁).2.ctx v = getMappingBlock s.ctx v := by
          intro s₁ hs₁ hv
          have hpool : Pooled g s₁ (wSyncTables g env s₁).2 := wSyncTables_pooled s₁
          exact ⟨hpool.sound hs₁, fun v hne => (hpool.getMappingBlock v).trans (hv v hne)⟩
        apply hsync
        · rcases wRemapBlock_cases (g := g) env b (lookup s.ctx.bmt.table b) copyLen s with
            ⟨-, hpool⟩ | ⟨new, hfind, -, hctx⟩
          · exact hpool.sound h
          · obtain ⟨havail, hnew⟩ := findAvailableBlock_some hfind
            rw [hctx]
            exact h.remapped havail hnew
        · intro v hne
          rcases wRemapBlock_cases (g := g) env b (lookup s.ctx.bmt.table b) copyLen s with
            ⟨-, hpool⟩ | ⟨new, hfind, -, hctx⟩
          · exact hpool.getMappingBlock v
          · have hbbt : getMappingBlockBbt (wRemapBlock g env b (lookup s.ctx.bmt.table b) copyLen
                s).2.ctx v = getMappingBlockBbt s.ctx v := by
              rw [hctx]
              unfold Ctx.remapped
              cases lookup s.ctx.bmt.table b <;> rfl
            unfold En75.getMappingBlock
            rw [hbbt]
            apply Option.map_congr
            intro c hc
            have hcb : c ≠ b := by
              rintro rfl
              obtain ⟨hcv, -⟩ := getMappingBlockBbt_some.mp hc
              obtain ⟨hcu, -⟩ := getMappingBlockBbt_some.mp hb
              exact hne (skip_injective _ (hcv.trans hcu.symm))
            rw [hctx, lookup_remapped h.toMapped hcb]

theorem pubUnmapBlock_sound (h : Sound g s.ctx) :
    Sound g (pubUnmapBlock g env u s).2.ctx := by
  unfold pubUnmapBlock
  split
  · exact h
  · rename_i b hb
    split
    · exact h
    · apply (wSyncTables_pooled _).sound
      have hmapped : Mapped g (wUnmapBlock g env b .requireErase s).2.ctx :=
        wUnmapBlock_mapped h.toMapped
      rcases wUnmapBlock_cases (g := g) env b .requireErase s with
        hctx | ⟨to', table, -, hctx⟩
      · rw [hctx]
        exact h
      · rw [hctx] at hmapped ⊢
        exact ⟨hmapped, h.bbtSorted, h.bbtUser, h.small, h.sized, h.intact⟩

/-- A remap of a user block, as the framework calls for it, or an unmap; failures of the chip
    may be different ones each time. -/
inductive Step (g : Geometry) : State → State → Prop where
  | remap (env : Env) (u m copyLen : Nat) (s : State) (hm : getMappingBlock s.ctx u = some m) :
    Step g s (pubRemapBlock g env u m copyLen s).2.2
  | unmap (env : Env) (u : Nat) (s : State) : Step g s (pubUnmapBlock g env u s).2

theorem Sound.run (h : Sound g s.ctx) (hrun : ReflTransGen (Step g) s s') :
    Sound g s'.ctx := by
  induction hrun with
  | refl => exact h
  | tail _ hstep ih =>
    cases hstep with
    | remap env u m copyLen s hm => exact (pubRemapBlock_sound ih hm).1
    | unmap env u s => exact pubUnmapBlock_sound ih

/-! ## Initialisation -/

/-- What is taken for granted of the tables on the chip. -/
structure FoundOk (g : Geometry) (found : Ctx) : Prop where
  bbt : found.bbt.version ≠ 0 →
    found.bbt.table.Nodup ∧ ∀ b ∈ found.bbt.table, b < found.reserveAreaBegin
  bmt : found.bmt.version ≠ 0 → OneToOne found.bmt.table ∧
    ∀ e ∈ found.bmt.table, e.fromBlock < found.reserveAreaBegin ∧
      e.toBlock ∈ found.reserveBlocks g

/-- The chips that the initialisation gets right: the scan takes no block that the BMT maps to
    for free, for one to be erased, or for a table; no two blocks refer back to the same one
    where the BMT is reconstructed; the BMT has room for as many entries as there are reserve
    blocks; and the blocks in front of these are less than 2 GiB, so that the reported size does
    not wrap. -/
structure Careful (g : Geometry) (chip : Chip Page) (found : Ctx) : Prop where
  held : found.bmt.version ≠ 0 →
    ∀ e ∈ found.bmt.table, Held (classify g (chip.page e.toBlock 0)).status
  once : found.bmt.version = 0 →
    (((found.reserveBlocks g).filterMap (foundMapping g found chip)).map
      BmtEntry.fromBlock).Nodup
  small : found.reserveBlockCount g ≤ maxBmtSize
  sized : found.reserveAreaBegin * 2 ^ g.blkShift < 2 ^ 31

theorem foldl_push_sublist (acc l : List α) :
    (l.foldl push acc).Sublist (acc ++ l) := by
  induction l generalizing acc with
  | nil => simp
  | cons x l ih =>
    rw [foldl_cons]
    apply (ih (push acc x)).trans
    unfold push
    split
    · rw [nil_append]
      exact (sublist_cons_self x l).trans (sublist_append_right acc _)
    · rw [append_assoc]
      exact List.Sublist.refl _

theorem foundMapping_some {ba : Nat} {e : BmtEntry} (hbegin : ctx.reserveAreaBegin < 2 ^ 16)
    (h : foundMapping g ctx chip ba = some e) :
    e.toBlock = ba ∧ e.fromBlock < ctx.reserveAreaBegin ∧
      (classify g (chip.page ba 0)).status = .mapped := by
  unfold foundMapping at h
  dsimp only at h
  split at h
  · simp at h
  · rename_i hgood
    split at h
    · simp at h
    · rename_i hblock
      obtain rfl := some.inj h
      refine ⟨rfl, Nat.lt_of_not_ge hblock, ?_⟩
      simp only [Bool.or_eq_true, not_or, Bool.not_eq_true', Bool.not_eq_true, Bool.not_eq_false]
        at hgood
      have hfdm : fdmIsMapped (chip.page ba 0).fdm = true := by
        have hgood' := hgood.2
        unfold fdmIsBad at hgood'
        unfold fdmIsMapped
        simp only [Bool.not_eq_false', Bool.and_eq_true] at hgood'
        rw [hgood'.1, hgood'.2]
        by_contra hno
        simp only [Bool.true_and, Bool.or_eq_true, not_or, bne_iff_ne, ne_eq,
          Decidable.not_not] at hno
        -- the reference would be `0xffff`, which is no block
        apply hblock
        unfold fdmBlock
        rw [hno.1, hno.2]
        simp only [ofHalf]
        split <;> simp <;> omega
      unfold classify
      rw [if_neg (by simp [hgood.1, hgood.2]), if_pos hfdm]
      rfl

/-- The BMT that the initialisation goes on with. -/
theorem reconstructed_mapped (hscan : rScanReserve g chip = some found) (hok : FoundOk g found)
    (hcareful : Careful g chip found)
    (hctx : ctx = if found.bmt.version = 0 then rReconstructBmt g found chip else found) :
    Mapped g ctx := by
  have hbegin := (rScanReserve_some hscan).2.1
  have hlt := g.totalBlks_lt
  subst hctx
  split
  · rename_i hv
    have hsub : (((found.reserveBlocks g).filterMap (foundMapping g found chip)).foldl push
        []).Sublist ((found.reserveBlocks g).filterMap (foundMapping g found chip)) :=
      foldl_push_sublist [] _
    have htargets : (((found.reserveBlocks g).filterMap (foundMapping g found chip)).map
        BmtEntry.toBlock).Sublist (found.reserveBlocks g) := by
      generalize found.reserveBlocks g = bas
      induction bas with
      | nil => simp
      | cons ba bas ih =>
        rw [filterMap_cons]
        split
        · exact ih.cons ba
        · rename_i e he
          rw [map_cons, (foundMapping_some (by omega) he).1]
          exact ih.cons_cons ba
    have hmem : ∀ e ∈ (rReconstructBmt g found chip).bmt.table,
        e.toBlock ∈ found.reserveBlocks g ∧
          (classify g (chip.page e.toBlock 0)).status = .mapped := by
      intro e he
      obtain ⟨ba, hba, hfound⟩ := mem_filterMap.mp (hsub.subset he)
      obtain ⟨hto, -, hstatus⟩ := foundMapping_some (by omega) hfound
      rw [hto]
      exact ⟨hba, hstatus⟩
    refine ⟨⟨?_, ?_⟩, fun e he => (hmem e he).1, fun e he => ?_⟩
    · exact (hsub.map _).nodup (hcareful.once hv)
    · exact ((hsub.map _).trans htargets).nodup (nodup_blocksDown _ _)
    · have hstatus := scanned_rblocks hscan (hmem e he).1
      unfold seenAt at hstatus
      rw [(hmem e he).2] at hstatus
      show Held (found.rblocks e.toBlock)
      rw [hstatus]
      decide
  · rename_i hv
    obtain ⟨hone, hall⟩ := hok.bmt hv
    refine ⟨hone, fun e he => (hall e he).2, fun e he => ?_⟩
    rw [scanned_rblocks hscan (hall e he).2]
    exact hcareful.held hv e he

/-- The context while factory bad blocks are set: the BBT is not in order yet. -/
structure Unsorted (g : Geometry) (ctx ctx' : Ctx) : Prop where
  mapped : Mapped g ctx'
  reserve : ctx'.reserveAreaBegin = ctx.reserveAreaBegin
  overrun : ctx'.overrun = ctx.overrun

variable (env) in
theorem clearBbt_spec (blocks entries : List Nat) (h : Unsorted g ctx s.ctx) :
    Unsorted g ctx (clearBbt g env blocks entries s).ctx ∧
      (clearBbt g env blocks entries s).ctx.bbt.table =
        if entries = [] then s.ctx.bbt.table else [] := by
  induction entries generalizing s with
  | nil => exact ⟨h, rfl⟩
  | cons entry entries ih =>
    have hstep : ∀ s₁ : State,
        s₁.ctx = { s.ctx with bbt := { s.ctx.bbt with table := entries.reverse } } →
        Unsorted g ctx (clearBbt g env blocks entries s₁).ctx ∧
          (clearBbt g env blocks entries s₁).ctx.bbt.table = [] := by
      intro s₁ hs₁
      have hun : Unsorted g ctx s₁.ctx := by
        rw [hs₁]
        exact ⟨⟨h.mapped.oneToOne, h.mapped.reserve, h.mapped.held⟩, h.reserve, h.overrun⟩
      obtain ⟨hrest, htable⟩ := ih hun
      refine ⟨hrest, htable.trans ?_⟩
      rw [hs₁]
      split
      · rename_i hnil
        rw [hnil]
        rfl
      · rfl
    rw [if_neg (cons_ne_nil _ _)]
    unfold clearBbt
    dsimp only
    apply hstep
    split
    · rfl
    · exact wEraseOne_ctx _ _ _

variable (env) in
theorem unmapBlocks_spec (blocks : List Nat) (h : Unsorted g ctx s.ctx) :
    Unsorted g ctx (unmapBlocks g env blocks s).ctx ∧
      (unmapBlocks g env blocks s).ctx.bbt = s.ctx.bbt := by
  induction blocks generalizing s with
  | nil => exact ⟨h, rfl⟩
  | cons block blocks ih =>
    unfold unmapBlocks
    split
    · exact ih h
    · split
      · exact ih h
      · have hmapped : Mapped g (wUnmapBlock g env block .noErase s).2.ctx :=
          wUnmapBlock_mapped h.mapped
        have hctx : (wUnmapBlock g env block .noErase s).2.ctx.reserveAreaBegin =
              s.ctx.reserveAreaBegin ∧
            (wUnmapBlock g env block .noErase s).2.ctx.overrun = s.ctx.overrun ∧
            (wUnmapBlock g env block .noErase s).2.ctx.bbt = s.ctx.bbt := by
          rcases wUnmapBlock_cases (g := g) env block .noErase s with
            hctx | ⟨to', table, -, hctx⟩
          · rw [hctx]
            exact ⟨rfl, rfl, rfl⟩
          · rw [hctx]
            exact ⟨rfl, rfl, rfl⟩
        obtain ⟨hrest, hbbt⟩ := ih (s := (wUnmapBlock g env block .noErase s).2)
          ⟨hmapped, hctx.1.trans h.reserve, hctx.2.1.trans h.overrun⟩
        exact ⟨hrest, hbbt.trans hctx.2.2⟩

theorem nodup_push {table : List α} {entry : α} (h : table.Nodup) (hnot : entry ∉ table) :
    (push table entry).Nodup := by
  rw [push]
  split
  · exact nodup_nil
  · refine nodup_append.mpr ⟨h, nodup_singleton _, ?_⟩
    rintro a ha b hb rfl
    exact hnot (mem_singleton.mp hb ▸ ha)

theorem mem_push {table : List α} {entry b : α} (h : b ∈ push table entry) :
    b ∈ table ∨ b = entry := by
  rw [push] at h
  split at h
  · cases h
  · simpa using h

variable (env) in
theorem addBlocks_spec (blocks : List Nat) {all : List Nat} (h : Unsorted g ctx s.ctx)
    (hnodup : s.ctx.bbt.table.Nodup) (hall : ∀ b ∈ s.ctx.bbt.table, b ∈ all)
    (hsub : ∀ b ∈ blocks, b ∈ all) :
    Unsorted g ctx (addBlocks g env blocks s).ctx ∧
      (addBlocks g env blocks s).ctx.bbt.table.Nodup ∧
      ∀ b ∈ (addBlocks g env blocks s).ctx.bbt.table, b ∈ all := by
  induction blocks generalizing s with
  | nil => exact ⟨h, hnodup, hall⟩
  | cons block blocks ih =>
    have hrest : ∀ b ∈ blocks, b ∈ all := fun b hb => hsub b (mem_cons_of_mem _ hb)
    unfold addBlocks
    split
    · exact ih h hnodup hall hrest
    · rename_i hnot
      dsimp only
      apply ih _ _ _ hrest
      · rw [wMarkBad_ctx]
        exact ⟨⟨h.mapped.oneToOne, h.mapped.reserve, h.mapped.held⟩, h.reserve, h.overrun⟩
      · rw [wMarkBad_ctx]
        exact nodup_push hnodup hnot
      · rw [wMarkBad_ctx]
        intro b hb
        rcases mem_push hb with hb | rfl
        · exact hall b hb
        · exact hsub b mem_cons_self

/-- A table without duplicates in order. -/
theorem sortBbt_sorted {bbt : BbtTable} (h : bbt.table.Nodup) :
    (sortBbt bbt).table.Pairwise (· < ·) := by
  have hle := pairwise_insertionSort (· ≤ ·) bbt.table
  have hnodup := (perm_insertionSort (· ≤ ·) bbt.table).nodup_iff.mpr h
  exact (hle.and hnodup).imp fun ⟨hab, hne⟩ => Nat.lt_of_le_of_ne hab hne

theorem wFactoryBadblocks_sound {blocks : List Nat} (h : Sound g s.ctx)
    (hok : wFactoryBadblocks g env blocks s = (.ok, s')) : Sound g s'.ctx := by
  unfold wFactoryBadblocks at hok
  split at hok
  · simp at hok
  · split at hok
    · simp at hok
    · rename_i hbegin
      split at hok
      · simp at hok
      split at hok
      · split at hok
        · simp at hok
        · split at hok
          · obtain rfl := (Prod.mk.inj hok).2
            exact h
          · simp at hok
      · obtain rfl := (Prod.mk.inj hok).2
        have hself : Unsorted g s.ctx s.ctx := ⟨h.toMapped, rfl, rfl⟩
        obtain ⟨hclear, htable⟩ := clearBbt_spec env blocks s.ctx.bbt.table.reverse hself
        obtain ⟨hunmap, hbbt⟩ := unmapBlocks_spec env blocks hclear
        have hempty : (unmapBlocks g env blocks
            (clearBbt g env blocks s.ctx.bbt.table.reverse s)).ctx.bbt.table = [] := by
          rw [hbbt, htable]
          split
          · rename_i hnil
            exact reverse_eq_nil_iff.mp hnil
          · rfl
        obtain ⟨hadd, hnodup, hall⟩ := addBlocks_spec env blocks hunmap
          (by rw [hempty]; exact nodup_nil) (by rw [hempty]; simp) fun b (hb : b ∈ blocks) => hb
        refine ⟨⟨hadd.mapped.oneToOne, hadd.mapped.reserve, hadd.mapped.held⟩,
          sortBbt_sorted hnodup, fun b hb => ?_, ?_, ?_, hadd.overrun.trans h.intact⟩
        · have hmem := hall b ((mem_insertionSort _).mp hb)
          have hlt := hbegin
          simp only [any_eq_true, decide_eq_true_eq, not_exists, not_and, Nat.not_le] at hlt
          exact hadd.reserve ▸ hlt b hmem
        · have hsmall := h.small
          unfold Ctx.reserveBlockCount at hsmall ⊢
          dsimp only
          rw [hadd.reserve]
          exact hsmall
        · show (addBlocks g env blocks _).ctx.reserveAreaBegin * _ < _
          rw [hadd.reserve]
          exact h.sized

/-- The tables of the initialisation, found or reconstructed. -/
theorem findTables_sound {cfg : Config} {ctx' : Ctx} (hscan : rScanReserve g chip = some found)
    (hok : FoundOk g found) (hcareful : Careful g chip found) (hctx : ctx = { found with
      canWriteFactoryBbt := ctx.canWriteFactoryBbt, canRemapRanges := ctx.canRemapRanges })
    (h : findTables g cfg ctx chip = some ctx')
    (hversion : cfg.factoryBadblocks.isSome → ctx'.bbt.version ≠ 0) : Sound g ctx' := by
  have hclean := (scanned_clean hscan).1
  have hmapped := reconstructed_mapped hscan hok hcareful rfl
  -- the BMT does not depend on the configuration
  have hbmt : ∀ c, c = (if ctx.bmt.version = 0 then rReconstructBmt g ctx chip else ctx) →
      Mapped g c ∧ c.bbt = found.bbt ∧ c.reserveAreaBegin = found.reserveAreaBegin ∧
        c.overrun = found.overrun := by
    rintro c rfl
    rw [hctx]
    dsimp only
    split
    · rename_i hv
      rw [if_pos hv] at hmapped
      exact ⟨⟨hmapped.oneToOne, hmapped.reserve, hmapped.held⟩, rfl, rfl, rfl⟩
    · rename_i hv
      rw [if_neg hv] at hmapped
      exact ⟨⟨hmapped.oneToOne, hmapped.reserve, hmapped.held⟩, rfl, rfl, rfl⟩
  have hfound : ∀ c, c = (if ctx.bmt.version = 0 then rReconstructBmt g ctx chip else ctx) →
      found.bbt.version ≠ 0 → Sound g c := by
    intro c hc hv
    obtain ⟨hm, hbbt, hbegin, hover⟩ := hbmt c hc
    obtain ⟨hnodup, huser⟩ := hok.bbt hv
    have hfits : found.bbt.Fits := by
      rcases scanned_bbt hscan with hnone | hfits
      · rw [hnone] at hv
        exact absurd rfl hv
      · exact hfits
    refine ⟨hm, ?_, ?_, ?_, ?_, hover.trans hclean⟩
    · rw [hbbt]
      exact (hfits.sorted.and hnodup).imp fun ⟨hab, hne⟩ => Nat.lt_of_le_of_ne hab hne
    · rw [hbbt, hbegin]
      exact huser
    · unfold Ctx.reserveBlockCount
      rw [hbegin]
      exact hcareful.small
    · rw [hbegin]
      exact hcareful.sized
  have hbbt₀ : ctx.bbt = found.bbt := by rw [hctx]
  unfold findTables at h
  rw [hbbt₀] at h
  split at h
  · rename_i hv
    exact hfound ctx' (some.inj h).symm hv
  · rename_i hv
    split at h
    · simp at h
    · split at h
      · rename_i hfactory
        obtain hc := (some.inj h).symm
        rw [(hbmt ctx' hc).2.1] at hversion
        exact absurd (hversion hfactory) hv
      · dsimp only at h
        obtain ⟨bbt, hbbt, rfl⟩ := map_eq_some_iff.mp h
        generalize hc : (if ctx.bmt.version = 0 then rReconstructBmt g ctx chip else ctx) = c
          at hbbt ⊢
        obtain ⟨hm, -, hbegin, hover⟩ := hbmt c hc.symm
        unfold rReconstructBbt at hbbt
        split at hbbt
        · simp at hbbt
        · obtain rfl := some.inj hbbt
          have hsub : (((range c.reserveAreaBegin).filter (foundBad c chip)).foldl push
              []).Sublist (range c.reserveAreaBegin) :=
            (foldl_push_sublist [] _).trans filter_sublist
          refine ⟨⟨hm.oneToOne, hm.reserve, hm.held⟩, sortBbt_sorted (hsub.nodup nodup_range),
            fun b hb => ?_, ?_, ?_, hover.trans hclean⟩
          · exact mem_range.mp (hsub.subset ((mem_insertionSort _).mp hb))
          · show c.reserveBlockCount g ≤ maxBmtSize
            unfold Ctx.reserveBlockCount
            rw [hbegin]
            exact hcareful.small
          · show c.reserveAreaBegin * _ < _
            rw [hbegin]
            exact hcareful.sized

theorem wInit_sound {cfg : Config} {nand : Device Page}
    (hscan : rScanReserve g nand.chip = some found) (hok : FoundOk g found)
    (hcareful : Careful g nand.chip found) (h : (wInit g env cfg nand).1 = some s) :
    Sound g s.ctx := by
  unfold wInit at h
  rw [hscan] at h
  dsimp only at h
  split at h
  · simp at h
  · split at h
    · simp at h
    · rename_i ctx hfind
      split at h
      · rename_i hnone
        obtain rfl := some.inj h
        exact findTables_sound hscan hok hcareful rfl hfind fun hsome => by simp [hnone] at hsome
      · split at h
        · rename_i s₁ hfactory
          obtain rfl := some.inj h
          refine wFactoryBadblocks_sound (findTables_sound hscan hok hcareful rfl hfind ?_) hfactory
          -- without a BBT the blocks are refused
          intro _ hv
          unfold wFactoryBadblocks at hfactory
          rw [if_pos (.inl hv)] at hfactory
          simp at hfactory
        · simp at h

/-- In every run from an initialisation, the mapping is correct, and a remap of one user block
    leaves the others where they are. -/
theorem mapping_ok_of_run {cfg : Config} {nand : Device Page} {found : Ctx} {synced : Bool}
    {s₀ s : State} (hscan : rScanReserve g nand.chip = some found) (hok : FoundOk g found)
    (hcareful : Careful g nand.chip found) (hinit : pubInit g env cfg nand = some (synced, s₀))
    (hrun : ReflTransGen (Step g) s₀ s) :
    MappingOk g s.ctx ∧ ∀ env u m copyLen, getMappingBlock s.ctx u = some m → ∀ v, v ≠ u →
      getMappingBlock (pubRemapBlock g env u m copyLen s).2.2.ctx v =
        getMappingBlock s.ctx v := by
  obtain ⟨s₁, hw, hsync⟩ := map_eq_some_iff.mp hinit
  have hsound : Sound g s₁.ctx := wInit_sound hscan hok hcareful hw
  have hpool : Pooled g s₁ (wSyncTables g env s₁).2 := wSyncTables_pooled s₁
  rw [hsync] at hpool
  have hs : Sound g s.ctx := (hpool.sound hsound).run hrun
  exact ⟨hs.mappingOk, fun env u m copyLen hm => (pubRemapBlock_sound hs hm).2⟩

/-! ### A chip of fifty blocks -/

def soundEnv : Env where
  erase _ _ := none
  program _ _ _ := none

def smallGeometry : Geometry where
  totalBlks := 50
  pgSize := 2048
  pagesPerBlock := 2
  blkShift := 12
  bigEndian := true
  totalBlks_pos := by decide
  totalBlks_lt := by decide
  pgSize_ge := by decide
  pagesPerBlock_pos := by decide
  blkSize_eq := by decide

def tablePage (data : Bytes) : Page := blankPage.program smallGeometry { data := data }

def smallBbt : BbtTable := { version := 1, table := [3] }
def smallBmt : BmtTable := { version := 1, table := [{ fromBlock := 5, toBlock := 47 }] }

/-- A chip with block 3 factory bad and block 5 mapped to block 47, the BBT on block 46 and the
    BMT on block 49. -/
def smallNand (replacement : Page) : Device Page where
  chip :=
    { page := fun ba pg =>
        if pg ≠ 0 then blankPage
        else if ba = 49 then tablePage (bmtBytes smallGeometry smallBmt)
        else if ba = 46 then tablePage (bbtBytes smallGeometry smallBbt)
        else if ba = 47 then replacement
        else blankPage
      marked := fun _ => false }

def marked : Page := { blankPage with fdm := mappingFdm smallGeometry 5 }

def smallConfig : Config := { enableRemap := true }

def Found (replacement : Page) (found : Ctx) : Prop :=
  rScanReserve smallGeometry (smallNand replacement).chip = some found ∧
    found.bbt = smallBbt ∧ found.bmt = smallBmt ∧ found.reserveAreaBegin = 46

theorem exists_found {replacement : Page}
    (h : (rScanReserve smallGeometry (smallNand replacement).chip).map
      (fun c => (c.bbt, c.bmt, c.reserveAreaBegin)) = some (smallBbt, smallBmt, 46)) :
    ∃ found, Found replacement found := by
  obtain ⟨found, hscan, heq⟩ := map_eq_some_iff.mp h
  simp only [Prod.mk.injEq] at heq
  exact ⟨found, hscan, heq.1, heq.2.1, heq.2.2⟩

theorem Found.ok {replacement : Page} (h : Found replacement found) :
    FoundOk smallGeometry found where
  bbt := by
    rw [h.2.1, h.2.2.2]
    decide
  bmt := by
    have hreserve : found.reserveBlocks smallGeometry = [49, 48, 47, 46] := by
      rw [reserveBlocks_eq, h.2.2.2]
      decide
    rw [h.2.2.1, h.2.2.2, hreserve]
    exact fun _ => ⟨⟨by decide, by decide⟩, by decide⟩

set_option maxRecDepth 100000 in
/-- After a remap on the chip the mapping is correct. -/
theorem mapping_ok_after_remap : ∃ s,
    pubInit smallGeometry soundEnv smallConfig (smallNand marked) = some (true, s) ∧
      getMappingBlock s.ctx 7 = some 8 ∧
      MappingOk smallGeometry (pubRemapBlock smallGeometry soundEnv 7 8 2048 s).2.2.ctx := by
  obtain ⟨found, hfound⟩ : ∃ found, Found marked found := exists_found (by decide +kernel)
  have hinit : (pubInit smallGeometry soundEnv smallConfig (smallNand marked)).map
      (fun r => (r.1, getMappingBlock r.2.ctx 7)) = some (true, some 8) := by decide +kernel
  obtain ⟨⟨synced, s⟩, hs, heq⟩ := map_eq_some_iff.mp hinit
  simp only [Prod.mk.injEq] at heq
  obtain ⟨rfl, hm⟩ := heq
  have hcareful : Careful smallGeometry (smallNand marked).chip found :=
    { held := by
        rw [hfound.2.2.1]
        intro _
        decide +kernel
      once := by
        rw [hfound.2.2.1]
        intro hv
        exact absurd hv (by decide)
      small := by
        unfold Ctx.reserveBlockCount
        rw [hfound.2.2.2]
        decide
      sized := by
        rw [hfound.2.2.2]
        decide }
  exact ⟨s, hs, hm, (mapping_ok_of_run hfound.1 hfound.ok hcareful hs
    (.single (.remap soundEnv 7 8 2048 s hm))).1⟩

set_option maxRecDepth 100000 in
/-- The replacement block was erased: the initialisation takes it for free and still maps
    block 5 to it. -/
theorem mapping_to_free_block : ∃ found s,
    rScanReserve smallGeometry (smallNand blankPage).chip = some found ∧
      FoundOk smallGeometry found ∧
      pubInit smallGeometry soundEnv smallConfig (smallNand blankPage) =
        some (true, s) ∧
      getMappingBlock s.ctx 4 = some 47 ∧ s.ctx.rblocks 47 = .available ∧
      ¬ MappingOk smallGeometry s.ctx := by
  obtain ⟨found, hfound⟩ : ∃ found, Found blankPage found := exists_found (by decide +kernel)
  have hinit : (pubInit smallGeometry soundEnv smallConfig
      (smallNand blankPage)).map (fun r => (r.1, getMappingBlock r.2.ctx 4,
        r.2.ctx.rblocks 47, r.2.ctx.reserveAreaBegin)) =
      some (true, some 47, .available, 46) := by decide +kernel
  obtain ⟨⟨synced, s⟩, hs, heq⟩ := map_eq_some_iff.mp hinit
  simp only [Prod.mk.injEq] at heq
  obtain ⟨rfl, hm, hstatus, hbegin⟩ := heq
  refine ⟨found, s, hfound.1, hfound.ok, hs, hm, hstatus, fun hok => ?_⟩
  have hheld := hok.held 4 47 hm (mem_reserveBlocks.mpr ⟨by omega, by decide⟩)
  rw [hstatus] at hheld
  exact absurd hheld (by decide)

end LibWrt.En75
