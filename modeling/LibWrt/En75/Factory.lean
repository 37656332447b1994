/-
LibWrt.En75.Factory — setting the factory bad blocks.

With writing enabled the BBT is emptied, mappings of the listed blocks are
taken out, and the listed blocks are added and marked. The BBT is right if
its size of eight bits holds the blocks; but each entry that is not listed
any more has block 0 erased in its place, since the entry is overwritten
before its block is read. Without writing the lengths are compared, and not
the sets (`factory_iff`).
-/
import LibWrt.En75.Correct

namespace LibWrt.En75

open List
open LibWrt.Flash

variable {g : Geometry} {env : Env}

/-! ## What is done to the chip -/

/-- The operations between two states of the device. -/
def done (d d' : Device Page) : List (Op Page) := d'.log.drop d.log.length

def Erased (d d' : Device Page) (b : Nat) : Prop := ∃ left, .erase b left ∈ done d d'

/-- It was tried to mark a block; here no other page is written. -/
def MarkedBad (d d' : Device Page) (b : Nat) : Prop := ∃ pg left, .program b pg left ∈ done d d'

/-- The tables as they should be before the factory bad blocks are set. -/
structure ValidTables (g : Geometry) (ctx : Ctx) : Prop where
  versions : ctx.bbt.version ≠ 0 ∧ ctx.bmt.version ≠ 0
  sorted : ctx.bbt.table.Pairwise (· < ·)
  user : ∀ b ∈ ctx.bbt.table, b < ctx.reserveAreaBegin
  size : ctx.bbt.table.length ≤ 0xff
  sources : (ctx.bmt.table.map BmtEntry.fromBlock).Nodup
  reserve : ∀ e ∈ ctx.bmt.table, e.toBlock ∈ ctx.reserveBlocks g

structure Updated (blocks : List Nat) (s s' : State) : Prop where
  bbt : s'.ctx.bbt.table.Pairwise (· < ·) ∧ ∀ b, b ∈ s'.ctx.bbt.table ↔ b ∈ blocks
  erased : ∀ b, Erased s.nand s'.nand b → b ∈ s.ctx.bbt.table ∧ b ∉ blocks
  marked : ∀ b, MarkedBad s.nand s'.nand b → b ∈ blocks
  bmt : s'.ctx.bmt.table.Perm (s.ctx.bmt.table.filter fun e => e.fromBlock ∉ blocks)

/-- With writing enabled a success has updated the BBT. Without, nothing changes, and the list is
compared with the BBT. -/
def FactoryOk (g : Geometry) (env : Env) (blocks : List Nat) (s : State) : Prop :=
  if s.ctx.canWriteFactoryBbt then
    ∀ s', wFactoryBadblocks g env blocks s = (.ok, s') → Updated blocks s s'
  else
    (wFactoryBadblocks g env blocks s).2 = s ∧
      ((wFactoryBadblocks g env blocks s).1 = .ok ↔ ∀ b, b ∈ blocks ↔ b ∈ s.ctx.bbt.table)

/-- A size of eight bits holds the blocks, and no block is erased or block 0 is to be. Without
writing, the numbers of blocks say the same with duplicates as without. -/
def Plain (blocks : List Nat) (ctx : Ctx) : Prop :=
  if ctx.canWriteFactoryBbt then
    blocks.length ≤ maxBbtSize → blocks.dedup.length ≤ 0xff ∧
      ((∀ b ∈ ctx.bbt.table, b ∈ blocks) ∨ 0 ∈ ctx.bbt.table ∧ 0 ∉ blocks)
  else
    (∀ b ∈ blocks, b ∈ ctx.bbt.table) →
      (blocks.dedup.length = ctx.bbt.table.length ↔ blocks.length = ctx.bbt.table.length)

/-! ## The device -/

theorem done_of_ran {P : Op Page → Prop} {d d' : Device Page} (h : Ran P d d') :
    ∀ op ∈ done d d', P op := by
  obtain ⟨ops, hlog, -, hP⟩ := h
  intro op hop
  rw [done, hlog, drop_left] at hop
  exact hP op hop

theorem done_trans {P Q : Op Page → Prop} {d d' d'' : Device Page} (h : Ran P d d')
    (h' : Ran Q d' d'') : done d d'' = done d d' ++ done d' d'' := by
  obtain ⟨ops, hlog, -, -⟩ := h
  obtain ⟨ops', hlog', -, -⟩ := h'
  rw [done, done, done, hlog', hlog, append_assoc, drop_left, drop_left,
    ← append_assoc, drop_left]

variable (env) in
/-- An erase that is tried is on record. -/
theorem bbtNandErase_done (ba n : Nat) (d : Device Page) :
    ∃ left, .erase ba left ∈ done d (bbtNandErase env ba (n + 1) d).2 := by
  have hfirst : ∃ left, done d (erase env ba d).2 = [.erase ba left] := by
    unfold erase
    split
    · exact ⟨fun _ => blankPage, by simp [done, Device.run]⟩
    · rename_i left _
      exact ⟨left, by simp [done, Device.run]⟩
  obtain ⟨left, hdone⟩ := hfirst
  have hran : Ran (fun _ => True) d (erase env ba d).2 := erase_ran_of (fun _ => trivial) d
  refine ⟨left, ?_⟩
  unfold bbtNandErase
  split
  · rename_i heq
    rw [heq] at hdone
    simp [hdone]
  · rename_i d' heq
    rw [heq] at hdone hran
    have hrest : Ran (fun _ => True) d' (bbtNandErase env ba n d').2 :=
      bbtNandErase_ran_of (fun _ => trivial) n d'
    rw [done_trans hran hrest, hdone]
    simp

variable (env) in
theorem wEraseOne_erased {ba : Nat} {userArea : Bool} {s : State}
    (hsane : blockIndexIsSane g s.ctx ba userArea = true) :
    Erased s.nand (wEraseOne g env ba userArea s).2.nand ba := by
  obtain ⟨left, hleft⟩ := bbtNandErase_done env ba 2 s.nand
  refine ⟨left, ?_⟩
  unfold wEraseOne
  rw [hsane, if_neg (by simp)]
  split
  · rename_i heq
    rwa [show bbtNandErase env ba (2 + 1) s.nand = _ from heq] at hleft
  · rename_i heq
    rwa [show bbtNandErase env ba (2 + 1) s.nand = _ from heq] at hleft

/-! ## Emptying the BBT -/

def EraseOfFirst (op : Op Page) : Prop := ∃ left, op = .erase 0 left

variable (env) in
/-- The entries are taken out, and block 0 is erased for those that are not listed. -/
theorem clearBbt_done (blocks entries : List Nat) (s : State) :
    (clearBbt g env blocks entries s).ctx = { s.ctx with bbt := { s.ctx.bbt with
      table := if entries = [] then s.ctx.bbt.table else [] } } ∧
    Ran EraseOfFirst s.nand (clearBbt g env blocks entries s).nand ∧
    (Erased s.nand (clearBbt g env blocks entries s).nand 0 → ∃ b ∈ entries, b ∉ blocks) ∧
    (0 < s.ctx.reserveAreaBegin → (∃ b ∈ entries, b ∉ blocks) →
      Erased s.nand (clearBbt g env blocks entries s).nand 0) := by
  induction entries generalizing s with
  | nil => exact ⟨rfl, .refl _ _, by simp [Erased, done, clearBbt], by simp⟩
  | cons entry entries ih =>
    rw [if_neg (cons_ne_nil _ _)]
    have htable : (if entries = [] then entries.reverse else ([] : List Nat)) = [] := by
      split
      · rename_i hnil
        rw [hnil, reverse_nil]
      · rfl
    unfold clearBbt
    dsimp only
    generalize hs₁ : ({ s with ctx := { s.ctx with
      bbt := { s.ctx.bbt with table := entries.reverse } } } : State) = s₁
    have hctx₁ : s₁.ctx = { s.ctx with bbt := { s.ctx.bbt with table := entries.reverse } } := by
      rw [← hs₁]
    have hnand₁ : s₁.nand = s.nand := by rw [← hs₁]
    split
    · rename_i hlisted
      obtain ⟨hctx, hran, hfrom, hto⟩ := ih s₁
      rw [hctx₁] at hctx hto
      rw [hnand₁] at hran hfrom hto
      refine ⟨?_, hran, fun herased => ?_, fun hbegin hex => ?_⟩
      · rw [hctx]
        exact congrArg (fun t => { s.ctx with bbt := { s.ctx.bbt with table := t } }) htable
      · obtain ⟨b, hb, hnot⟩ := hfrom herased
        exact ⟨b, mem_cons_of_mem _ hb, hnot⟩
      · obtain ⟨b, hb, hnot⟩ := hex
        rcases mem_cons.mp hb with rfl | hb
        · exact absurd hlisted hnot
        · exact hto hbegin ⟨b, hb, hnot⟩
    · rename_i hlisted
      have hctx₂ : (wEraseOne g env 0 true s₁).2.ctx = s₁.ctx := wEraseOne_ctx _ _ _
      have hran₂ : Ran EraseOfFirst s₁.nand (wEraseOne g env 0 true s₁).2.nand :=
        wEraseOne_ran_of (fun left => ⟨left, rfl⟩) true s₁
      obtain ⟨hctx, hran, -⟩ := ih (wEraseOne g env 0 true s₁).2
      rw [hctx₂, hctx₁] at hctx
      refine ⟨?_, ?_, fun _ => ⟨entry, mem_cons_self, hlisted⟩, fun hbegin _ => ?_⟩
      · rw [hctx]
        exact congrArg (fun t => { s.ctx with bbt := { s.ctx.bbt with table := t } }) htable
      · rw [← hnand₁]
        exact hran₂.trans hran
      · have hsane : blockIndexIsSane g s₁.ctx 0 true = true := by
          rw [hctx₁]
          simp [blockIndexIsSane, g.totalBlks_pos, hbegin]
        obtain ⟨left, hleft⟩ := wEraseOne_erased env hsane
        refine ⟨left, ?_⟩
        rw [← hnand₁, done_trans hran₂ hran]
        exact mem_append_left _ hleft

/-- All entries are taken out. -/
theorem clearBbt_ctx (blocks : List Nat) (s : State) :
    (clearBbt g env blocks s.ctx.bbt.table.reverse s).ctx =
      { s.ctx with bbt := { s.ctx.bbt with table := [] } } := by
  obtain ⟨hctx, -⟩ := clearBbt_done (g := g) env blocks s.ctx.bbt.table.reverse s
  have htable : (if s.ctx.bbt.table.reverse = [] then s.ctx.bbt.table else []) = [] := by
    split
    · rename_i hnil
      exact reverse_eq_nil_iff.mp hnil
    · rfl
  rwa [htable] at hctx

/-! ## Unmapping the blocks -/

theorem mappedEntry_of_mem {table : List BmtEntry} {e : BmtEntry}
    (h : (table.map BmtEntry.fromBlock).Nodup) (he : e ∈ table) :
    ∃ i, mappedEntry table e.fromBlock = some (i, e.toBlock) := by
  have hsome : (table.findIdx? fun x => x.fromBlock == e.fromBlock).isSome := by
    rw [findIdx?_isSome]
    exact any_eq_true.mpr ⟨e, he, by simp⟩
  obtain ⟨i, hi⟩ := Option.isSome_iff_exists.mp hsome
  obtain ⟨hlt, hfrom, -⟩ := findIdx?_eq_some_iff_getElem.mp hi
  refine ⟨i, ?_⟩
  have hentry : table[i] = e :=
    inj_on_of_nodup_map h (getElem_mem hlt) he (by simpa using hfrom)
  simp [mappedEntry, hi, getElem?_eq_getElem hlt, hentry]

variable (env) in
/-- A mapping is taken out. -/
theorem wUnmapBlock_table {e : BmtEntry} {s : State}
    (hsources : (s.ctx.bmt.table.map BmtEntry.fromBlock).Nodup)
    (hreserve : ∀ e ∈ s.ctx.bmt.table, e.toBlock ∈ s.ctx.reserveBlocks g)
    (he : e ∈ s.ctx.bmt.table) :
    (wUnmapBlock g env e.fromBlock .noErase s).2.nand = s.nand ∧
      (wUnmapBlock g env e.fromBlock .noErase s).2.ctx.bbt = s.ctx.bbt ∧
      (wUnmapBlock g env e.fromBlock .noErase s).2.ctx.reserveAreaBegin =
        s.ctx.reserveAreaBegin ∧
      (wUnmapBlock g env e.fromBlock .noErase s).2.ctx.bmt.table.Perm
        (s.ctx.bmt.table.filter fun x => x.fromBlock ≠ e.fromBlock) := by
  obtain ⟨i, hentry⟩ := mappedEntry_of_mem hsources he
  have hperm := mappedEntry_spec hentry { fromBlock := 0, toBlock := 0 }
  have hnodup := (hperm.map BmtEntry.fromBlock).nodup_iff.mp hsources
  rw [map_cons, nodup_cons] at hnodup
  unfold wUnmapBlock
  rw [hentry]
  dsimp only
  rw [if_neg (not_not.mpr (hreserve e he)), if_pos rfl, if_neg (by simp)]
  refine ⟨rfl, rfl, rfl, ?_⟩
  have hfilter := hperm.filter fun x => decide (x.fromBlock ≠ e.fromBlock)
  rw [filter_cons_of_neg (by simp)] at hfilter
  refine (hfilter.trans (List.Perm.of_eq (filter_eq_self.mpr fun x hx => ?_))).symm
  have hne : x.fromBlock ≠ e.fromBlock := fun heq => hnodup.1 (mem_map.mpr ⟨x, hx, heq⟩)
  simpa using hne

variable (env) in
theorem unmapBlocks_table (blocks : List Nat) {s : State} (hempty : s.ctx.bbt.table = [])
    (hsources : (s.ctx.bmt.table.map BmtEntry.fromBlock).Nodup)
    (hreserve : ∀ e ∈ s.ctx.bmt.table, e.toBlock ∈ s.ctx.reserveBlocks g)
    (huser : ∀ b ∈ blocks, b < s.ctx.reserveAreaBegin) :
    (unmapBlocks g env blocks s).nand = s.nand ∧
      (unmapBlocks g env blocks s).ctx.bbt = s.ctx.bbt ∧
      (unmapBlocks g env blocks s).ctx.reserveAreaBegin = s.ctx.reserveAreaBegin ∧
      (unmapBlocks g env blocks s).ctx.bmt.table.Perm
        (s.ctx.bmt.table.filter fun e => e.fromBlock ∉ blocks) := by
  induction blocks generalizing s with
  | nil => exact ⟨rfl, rfl, rfl, by simp [unmapBlocks]⟩
  | cons block blocks ih =>
    have hblock : ¬ block ≥ s.ctx.reserveAreaBegin :=
      Nat.not_le.mpr (huser block mem_cons_self)
    have hrest : ∀ b ∈ blocks, b < s.ctx.reserveAreaBegin :=
      fun b hb => huser b (mem_cons_of_mem _ hb)
    have hmap : getMappingBlock s.ctx block = some ((lookup s.ctx.bmt.table block).getD block) := by
      simp [getMappingBlock, getMappingBlockBbt, shiftBbt, hempty, hblock]
    have hfilter : (s.ctx.bmt.table.filter fun e => e.fromBlock ∉ block :: blocks) =
        (s.ctx.bmt.table.filter fun e => e.fromBlock ≠ block).filter fun e =>
          e.fromBlock ∉ blocks := by
      rw [filter_filter]
      refine filter_congr fun e _ => ?_
      simp [Bool.and_comm]
    unfold unmapBlocks
    rw [hmap, hfilter]
    dsimp only
    cases hlookup : lookup s.ctx.bmt.table block with
    | none =>
      have hnone := lookup_eq_none.mp hlookup
      have hself : (s.ctx.bmt.table.filter fun e => e.fromBlock ≠ block) = s.ctx.bmt.table :=
        filter_eq_self.mpr fun e he => by simpa using hnone e he
      rw [Option.getD_none, if_pos (huser block mem_cons_self), hself]
      exact ih hempty hsources hreserve hrest
    | some to' =>
      have he := (lookup_eq_some hsources).mp hlookup
      have hto : ¬ to' < s.ctx.reserveAreaBegin := by
        have hmem := (mem_reserveBlocks.mp (hreserve _ he)).1
        exact Nat.not_lt.mpr hmem
      obtain ⟨hnand, hbbt, hbegin, hperm⟩ := wUnmapBlock_table env hsources hreserve he
      dsimp only at hnand hbbt hbegin hperm
      have hsub : ∀ e ∈ (wUnmapBlock g env block .noErase s).2.ctx.bmt.table,
          e ∈ s.ctx.bmt.table := fun e he => (mem_filter.mp (hperm.mem_iff.mp he)).1
      have hnodup : ((wUnmapBlock g env block .noErase s).2.ctx.bmt.table.map
          BmtEntry.fromBlock).Nodup :=
        (hperm.map _).nodup_iff.mpr (hsources.sublist (filter_sublist.map _))
      obtain ⟨hnand', hbbt', hbegin', hperm'⟩ := ih (by rw [hbbt]; exact hempty) hnodup
        (fun e he => by
          rw [mem_reserveBlocks, hbegin, ← mem_reserveBlocks]
          exact hreserve e (hsub e he))
        (by rw [hbegin]; exact hrest)
      rw [Option.getD_some, if_neg hto]
      exact ⟨hnand'.trans hnand, hbbt'.trans hbbt, hbegin'.trans hbegin,
        hperm'.trans (hperm.filter _)⟩

/-! ## Adding the blocks -/

theorem length_push_le {α : Type} {table : List α} (h : table.length ≤ 0xff) (entry : α) :
    (push table entry).length ≤ 0xff := by
  rw [push]
  split
  · exact Nat.zero_le _
  · rw [length_append, length_singleton]
    omega

variable (env) in
/-- The size of eight bits is not passed, only the BBT is changed, and only blocks of the list are
marked. -/
theorem addBlocks_done (blocks : List Nat) {s : State} (hsize : s.ctx.bbt.table.length ≤ 0xff) :
    (addBlocks g env blocks s).ctx.bbt.table.length ≤ 0xff ∧
      (addBlocks g env blocks s).ctx =
        { s.ctx with bbt := (addBlocks g env blocks s).ctx.bbt } ∧
      Ran (fun op => ∃ b ∈ blocks, ∃ left, op = .program b 0 left) s.nand
        (addBlocks g env blocks s).nand := by
  induction blocks generalizing s with
  | nil => exact ⟨hsize, rfl, .refl _ _⟩
  | cons block blocks ih =>
    unfold addBlocks
    split
    · obtain ⟨hle, hctx, hran⟩ := ih hsize
      refine ⟨hle, hctx, hran.mono ?_⟩
      rintro op ⟨b, hb, hop⟩
      exact ⟨b, mem_cons_of_mem _ hb, hop⟩
    · dsimp only
      generalize hs₁ : ({ s with ctx := { s.ctx with bbt := { s.ctx.bbt with
        table := push s.ctx.bbt.table block } } } : State) = s₁
      have hctx₁ : s₁.ctx = { s.ctx with bbt := { s.ctx.bbt with
          table := push s.ctx.bbt.table block } } := by rw [← hs₁]
      have hnand₁ : s₁.nand = s.nand := by rw [← hs₁]
      have hmark : Ran (fun op => ∃ b ∈ block :: blocks, ∃ left, op = .program b 0 left) s₁.nand
          (wMarkBad g env block true s₁).nand :=
        wWrite_ran_of (fun left => ⟨block, mem_cons_self, left, rfl⟩) true _ s₁
      have hctx₂ : (wMarkBad g env block true s₁).ctx = s₁.ctx := wMarkBad_ctx _ _ _
      obtain ⟨hle, hctx, hran⟩ := @ih (wMarkBad g env block true s₁)
        (by rw [hctx₂, hctx₁]; exact length_push_le hsize block)
      refine ⟨hle, ?_, ?_⟩
      · conv_lhs => rw [hctx, hctx₂, hctx₁]
      · rw [← hnand₁]
        refine hmark.trans (hran.mono ?_)
        rintro op ⟨b, hb, hop⟩
        exact ⟨b, mem_cons_of_mem _ hb, hop⟩

variable (env) in
theorem addBlocks_mem (blocks : List Nat) {s : State} (hnodup : s.ctx.bbt.table.Nodup)
    (hsize : (s.ctx.bbt.table ++ blocks).toFinset.card ≤ 0xff) :
    (addBlocks g env blocks s).ctx.bbt.table.Nodup ∧
      ∀ b, b ∈ (addBlocks g env blocks s).ctx.bbt.table ↔ b ∈ s.ctx.bbt.table ∨ b ∈ blocks := by
  induction blocks generalizing s with
  | nil => exact ⟨hnodup, fun b => by simp [addBlocks]⟩
  | cons block blocks ih =>
    unfold addBlocks
    split
    · rename_i hmem
      have hsame : (s.ctx.bbt.table ++ blocks).toFinset =
          (s.ctx.bbt.table ++ block :: blocks).toFinset := by
        ext b
        simp only [mem_toFinset, mem_append, mem_cons]
        constructor
        · tauto
        · rintro (hb | rfl | hb)
          · exact .inl hb
          · exact .inl hmem
          · exact .inr hb
      obtain ⟨hn, hiff⟩ := ih hnodup (by rw [hsame]; exact hsize)
      refine ⟨hn, fun b => (hiff b).trans ?_⟩
      rw [mem_cons]
      constructor
      · tauto
      · rintro (hb | rfl | hb)
        · exact .inl hb
        · exact .inl hmem
        · exact .inr hb
    · rename_i hnot
      have hnew : (s.ctx.bbt.table ++ [block]).Nodup := by
        refine nodup_append.mpr ⟨hnodup, nodup_singleton _, ?_⟩
        rintro a ha b hb rfl
        exact hnot (mem_singleton.mp hb ▸ ha)
      have hroom : s.ctx.bbt.table.length ≠ 0xff := by
        have hcard := toFinset_card_of_nodup hnew
        have hsub : (s.ctx.bbt.table ++ [block]).toFinset ⊆
            (s.ctx.bbt.table ++ block :: blocks).toFinset := by
          intro b hb
          simp only [mem_toFinset, mem_append, mem_cons] at hb ⊢
          tauto
        have hle := Finset.card_le_card hsub
        rw [hcard, length_append, length_singleton] at hle
        omega
      have hpush : push s.ctx.bbt.table block = s.ctx.bbt.table ++ [block] := by
        rw [push, if_neg hroom]
      rw [hpush]
      dsimp only
      generalize hs₁ : ({ s with ctx := { s.ctx with bbt := { s.ctx.bbt with
        table := s.ctx.bbt.table ++ [block] } } } : State) = s₁
      have htable : (wMarkBad g env block true s₁).ctx.bbt.table = s.ctx.bbt.table ++ [block] := by
        rw [wMarkBad_ctx, ← hs₁]
      obtain ⟨hn, hiff⟩ := @ih (wMarkBad g env block true s₁) (by rw [htable]; exact hnew) (by
        rw [htable, append_assoc]
        exact hsize)
      refine ⟨hn, fun b => (hiff b).trans ?_⟩
      rw [htable, mem_append, mem_singleton, mem_cons]
      tauto

variable (env) in
theorem addBlocks_empty (blocks : List Nat) {s : State} (hempty : s.ctx.bbt.table = []) :
    (addBlocks g env blocks s).ctx.bbt.table.length ≤ 0xff ∧
      (addBlocks g env blocks s).ctx =
        { s.ctx with bbt := (addBlocks g env blocks s).ctx.bbt } ∧
      Ran (fun op => ∃ b ∈ blocks, ∃ left, op = .program b 0 left) s.nand
        (addBlocks g env blocks s).nand ∧
      (blocks.dedup.length ≤ 0xff → (addBlocks g env blocks s).ctx.bbt.table.Nodup ∧
        ∀ b, b ∈ (addBlocks g env blocks s).ctx.bbt.table ↔ b ∈ blocks) := by
  obtain ⟨hle, hctx, hran⟩ := addBlocks_done (g := g) env blocks (s := s)
    (by rw [hempty]; exact Nat.zero_le _)
  refine ⟨hle, hctx, hran, fun hsmall => ?_⟩
  obtain ⟨hnodup, hiff⟩ := addBlocks_mem (g := g) env blocks (s := s)
    (by rw [hempty]; exact nodup_nil)
    (by rw [hempty, nil_append, card_toFinset]; exact hsmall)
  exact ⟨hnodup, fun b => by simp [hiff b, hempty]⟩

/-! ## The claim of a success -/

theorem mem_iff_iff {blocks table : List Nat} (h : table.Nodup) :
    (∀ b, b ∈ blocks ↔ b ∈ table) ↔
      (∀ b ∈ blocks, b ∈ table) ∧ blocks.dedup.length = table.length := by
  rw [← card_toFinset, ← toFinset_card_of_nodup h]
  constructor
  · intro hiff
    have heq : blocks.toFinset = table.toFinset := by
      ext b
      simp [hiff b]
    exact ⟨fun b hb => (hiff b).mp hb, by rw [heq]⟩
  · rintro ⟨hsub, hcard⟩ b
    have heq : blocks.toFinset = table.toFinset := by
      refine Finset.eq_of_subset_of_card_le (fun b hb => ?_) (Nat.le_of_eq hcard.symm)
      rw [mem_toFinset] at hb ⊢
      exact hsub b hb
    rw [← mem_toFinset, heq, mem_toFinset]

/-- Without writing the list is compared with the BBT by its length. -/
theorem factory_compare_iff {blocks : List Nat} {s : State} (h : ValidTables g s.ctx)
    (huser : ∀ b ∈ blocks, b < s.ctx.reserveAreaBegin) (hcan : s.ctx.canWriteFactoryBbt = false) :
    FactoryOk g env blocks s ↔ Plain blocks s.ctx := by
  have hsame := @mem_iff_iff blocks _ (h.sorted.imp Nat.ne_of_lt)
  have hsize := h.size
  have hmax : maxBbtSize = 1000 := rfl
  have hresult : (wFactoryBadblocks g env blocks s).2 = s ∧
      ((wFactoryBadblocks g env blocks s).1 = .ok ↔
        s.ctx.bbt.table.length = blocks.length ∧ ∀ b ∈ blocks, b ∈ s.ctx.bbt.table) := by
    unfold wFactoryBadblocks
    rw [if_neg (by simp [h.versions]), if_neg (by simpa using huser)]
    split
    · refine ⟨rfl, iff_of_false (by simp) fun heq => ?_⟩
      have := heq.1
      omega
    rw [if_pos (by simp [hcan])]
    split
    · rename_i hne
      exact ⟨rfl, iff_of_false (by simp) fun heq => hne heq.1⟩
    · rename_i heq
      split
      · rename_i hall
        exact ⟨rfl, iff_of_true rfl ⟨not_not.mp heq, by simpa using hall⟩⟩
      · rename_i hall
        exact ⟨rfl, iff_of_false (by simp) fun hboth => hall (by simpa using hboth.2)⟩
  rw [FactoryOk, Plain, hcan, if_neg Bool.false_ne_true, if_neg Bool.false_ne_true, hsame,
    hresult.2]
  constructor
  · rintro ⟨-, hiff⟩ hsub
    exact ⟨fun hd => (hiff.mpr ⟨hsub, hd⟩).1.symm, fun hl => (hiff.mp ⟨hl.symm, hsub⟩).2⟩
  · intro hplain
    refine ⟨hresult.1, fun hboth => ⟨hboth.2, ?_⟩, fun hboth => ⟨?_, hboth.1⟩⟩
    · exact (hplain hboth.2).mpr hboth.1.symm
    · exact ((hplain hboth.1).mp hboth.2).symm

variable (env) in
/-- What a success with writing has done. -/
theorem factory_write {blocks : List Nat} {s : State} (h : ValidTables g s.ctx)
    (huser : ∀ b ∈ blocks, b < s.ctx.reserveAreaBegin) (hcan : s.ctx.canWriteFactoryBbt = true)
    (hlen : blocks.length ≤ maxBbtSize) :
    ∃ (s' : State) (table : List Nat), wFactoryBadblocks g env blocks s = (.ok, s') ∧
      s'.ctx.bbt.table = table.insertionSort (· ≤ ·) ∧ table.length ≤ 0xff ∧
      (blocks.dedup.length ≤ 0xff → table.Nodup ∧ ∀ b, b ∈ table ↔ b ∈ blocks) ∧
      (∀ b, Erased s.nand s'.nand b ↔ b = 0 ∧ ∃ e ∈ s.ctx.bbt.table, e ∉ blocks) ∧
      (∀ b, MarkedBad s.nand s'.nand b → b ∈ blocks) ∧
      s'.ctx.bmt.table.Perm (s.ctx.bmt.table.filter fun e => e.fromBlock ∉ blocks) := by
  obtain ⟨-, hran₁, hfrom, hto⟩ := clearBbt_done (g := g) env blocks s.ctx.bbt.table.reverse s
  have hctx₁ := @clearBbt_ctx g env blocks s
  obtain ⟨s₁, hs₁⟩ : ∃ s₁, clearBbt g env blocks s.ctx.bbt.table.reverse s = s₁ := ⟨_, rfl⟩
  rw [hs₁] at hctx₁ hran₁ hfrom hto
  obtain ⟨hnand₂, hbbt₂, -, hperm₂⟩ := unmapBlocks_table (g := g) env blocks (s := s₁)
    (by rw [hctx₁]) (by rw [hctx₁]; exact h.sources) (by rw [hctx₁]; exact h.reserve)
    (by rw [hctx₁]; exact huser)
  obtain ⟨s₂, hs₂⟩ : ∃ s₂, unmapBlocks g env blocks s₁ = s₂ := ⟨_, rfl⟩
  rw [hs₂] at hnand₂ hbbt₂ hperm₂
  have hempty : s₂.ctx.bbt.table = [] := by rw [hbbt₂, hctx₁]
  obtain ⟨hle₃, hctx₃, hran₃, hmem₃⟩ := addBlocks_empty (g := g) env blocks hempty
  obtain ⟨s₃, hs₃⟩ : ∃ s₃, addBlocks g env blocks s₂ = s₃ := ⟨_, rfl⟩
  rw [hs₃] at hle₃ hctx₃ hran₃ hmem₃
  rw [hnand₂] at hran₃
  refine ⟨{ s₃ with ctx := { s₃.ctx with
    bbt := sortBbt s₃.ctx.bbt, bbtDirty := s₃.ctx.bbtDirty + 1 } }, s₃.ctx.bbt.table, ?_, rfl,
    hle₃, hmem₃, ?_, ?_, ?_⟩
  · unfold wFactoryBadblocks
    rw [if_neg (by simp [h.versions]), if_neg (by simpa using huser),
      if_neg (Nat.not_lt.mpr hlen), if_neg (by simp [hcan])]
    dsimp only
    rw [hs₁, hs₂, hs₃]
  · intro b
    have hall : done s.nand s₃.nand = done s.nand s₁.nand ++ done s₁.nand s₃.nand :=
      done_trans hran₁ hran₃
    have hfirst : Erased s.nand s₃.nand b ↔ Erased s.nand s₁.nand b := by
      constructor
      · rintro ⟨left, hleft⟩
        rw [hall] at hleft
        rcases mem_append.mp hleft with hleft | hleft
        · exact ⟨left, hleft⟩
        · obtain ⟨b', -, left', heq⟩ := done_of_ran hran₃ _ hleft
          cases heq
      · rintro ⟨left, hleft⟩
        exact ⟨left, by rw [hall]; exact mem_append_left _ hleft⟩
    refine hfirst.trans ⟨?_, ?_⟩
    · rintro ⟨left, hleft⟩
      obtain ⟨left', heq⟩ := done_of_ran hran₁ _ hleft
      cases heq
      obtain ⟨e, he, hnot⟩ := hfrom ⟨left, hleft⟩
      exact ⟨rfl, e, mem_reverse.mp he, hnot⟩
    · rintro ⟨rfl, e, he, hnot⟩
      have hbegin : 0 < s.ctx.reserveAreaBegin := Nat.lt_of_le_of_lt (Nat.zero_le e) (h.user e he)
      exact hto hbegin ⟨e, mem_reverse.mpr he, hnot⟩
  · rintro b ⟨pg, left, hleft⟩
    rw [done_trans hran₁ hran₃] at hleft
    rcases mem_append.mp hleft with hleft | hleft
    · obtain ⟨left', heq⟩ := done_of_ran hran₁ _ hleft
      cases heq
    · obtain ⟨b', hb', left', heq⟩ := done_of_ran hran₃ _ hleft
      cases heq
      exact hb'
  · show s₃.ctx.bmt.table.Perm _
    rw [hctx₃]
    rw [hctx₁] at hperm₂
    exact hperm₂

/-- With writing the update is right if the size holds the blocks and block 0 is not erased in the
place of others. -/
theorem factory_write_iff {blocks : List Nat} {s : State} (h : ValidTables g s.ctx)
    (huser : ∀ b ∈ blocks, b < s.ctx.reserveAreaBegin) (hcan : s.ctx.canWriteFactoryBbt = true) :
    FactoryOk g env blocks s ↔ Plain blocks s.ctx := by
  rw [FactoryOk, Plain, hcan, if_pos rfl, if_pos rfl]
  by_cases hlen : blocks.length ≤ maxBbtSize
  · obtain ⟨s', table, hresult, htable, hle, hmem, herased, hmarked, hbmt⟩ :=
      factory_write env h huser hcan hlen
    rw [hresult, forall_prop_of_true hlen]
    constructor
    · intro hok
      have hupdated := hok s' rfl
      have hnodup := hupdated.bbt.1.imp Nat.ne_of_lt
      refine ⟨?_, ?_⟩
      · have hcard := ((mem_iff_iff hnodup).mp fun b => (hupdated.bbt.2 b).symm).2
        rw [hcard, htable, length_insertionSort]
        exact hle
      · by_cases hall : ∀ b ∈ s.ctx.bbt.table, b ∈ blocks
        · exact .inl hall
        · push Not at hall
          exact .inr (hupdated.erased 0 ((herased 0).mpr ⟨rfl, hall⟩))
    · rintro ⟨hsmall, hfirst⟩ s'' heq
      obtain rfl := (Prod.mk.inj heq).2
      obtain ⟨hnodup, hiff⟩ := hmem hsmall
      refine ⟨⟨?_, fun b => ?_⟩, fun b hb => ?_, hmarked, hbmt⟩
      · rw [htable]
        exact @sortBbt_sorted { table := table } hnodup
      · rw [htable, mem_insertionSort, hiff]
      · obtain ⟨rfl, e, he, hnot⟩ := (herased b).mp hb
        rcases hfirst with hall | hzero
        · exact absurd (hall e he) hnot
        · exact hzero
  · have hresult : wFactoryBadblocks g env blocks s = (.noSpc, s) := by
      unfold wFactoryBadblocks
      rw [if_neg (by simp [h.versions]), if_neg (by simpa using huser),
        if_pos (Nat.not_le.mp hlen)]
    rw [hresult]
    exact iff_of_true (fun s' heq => by cases heq) fun hle => absurd hle hlen

/-- The factory bad blocks are set, or compared, as they should be if and only if the list is
plain. -/
theorem factory_iff {blocks : List Nat} {s : State} (h : ValidTables g s.ctx)
    (huser : ∀ b ∈ blocks, b < s.ctx.reserveAreaBegin) :
    FactoryOk g env blocks s ↔ Plain blocks s.ctx := by
  cases hcan : s.ctx.canWriteFactoryBbt with
  | false => exact factory_compare_iff h huser hcan
  | true => exact factory_write_iff h huser hcan

/-! ### A chip of 1024 blocks -/

def kiloGeometry : Geometry := { smallGeometry with
  totalBlks := 1024, totalBlks_pos := by decide, totalBlks_lt := by decide }

def kiloState (canWrite : Bool) : State where
  ctx := {
    bbt := { version := 1, table := [3, 5] }
    bmt := { version := 1, table := [{ fromBlock := 7, toBlock := 1000 }] }
    reserveAreaBegin := 900
    canWriteFactoryBbt := canWrite }
  nand := { chip := { page := fun _ _ => blankPage, marked := fun _ => false } }

theorem validTables_kilo (canWrite : Bool) : ValidTables kiloGeometry (kiloState canWrite).ctx where
  versions := ⟨by simp [kiloState], by simp [kiloState]⟩
  sorted := by simp [kiloState]
  user := by simp [kiloState]
  size := by simp [kiloState]
  sources := by simp [kiloState]
  reserve := by
    intro e he
    rw [mem_reserveBlocks]
    obtain rfl : e = { fromBlock := 7, toBlock := 1000 } := by simpa [kiloState] using he
    exact ⟨by simp [kiloState], by simp [kiloGeometry]⟩

theorem factory_kilo : FactoryOk kiloGeometry soundEnv [7, 5, 3, 7] (kiloState true) :=
  (factory_iff (validTables_kilo true) (by simp [kiloState])).mpr
    fun _ => ⟨by decide, .inl (by simp [kiloState])⟩

/-- A block that is not listed any more, a list of 256 blocks, and a list with a block twice. -/
theorem factory_wrong :
    ¬ FactoryOk kiloGeometry soundEnv [5] (kiloState true) ∧
    ¬ FactoryOk kiloGeometry soundEnv (List.range 256) (kiloState true) ∧
    ¬ FactoryOk kiloGeometry soundEnv [3, 3] (kiloState false) := by
  refine ⟨?_, ?_, ?_⟩
  · rw [factory_write_iff (validTables_kilo true) (by simp [kiloState]) rfl]
    intro hplain
    have hfirst := (hplain (by decide)).2
    simp [kiloState] at hfirst
  · rw [factory_write_iff (validTables_kilo true) (by simp [kiloState]; omega) rfl]
    intro hplain
    have hsmall := (hplain (by simp [maxBbtSize])).1
    rw [nodup_range.dedup, length_range] at hsmall
    omega
  · rw [factory_compare_iff (validTables_kilo false) (by simp [kiloState]) rfl]
    intro hplain
    have hiff := hplain (by simp [kiloState])
    simp [kiloState] at hiff

end LibWrt.En75
