/-
LibWrt.Nmbm.Passes — `nmbm_update_info_table` ends.

No condition of its loop gets smaller with a pass; what does is the number of
blocks not recorded bad. A pass that succeeds has marked the tables clean at
some point, so what is left to write afterwards was found later, and a finding
records a block that was good (`Spent`).

Below the loop over the passes are the loops of the rescue functions, which
count `write_ba` down in 32 bits. They end because their bound is the end of a
table, which is never block 0. `rescueMainLoop` and the two functions over it
are the functions of `LibWrt.Nmbm.Table` with these loops as they stand in the
source; `Passes` counts the passes.
-/
import LibWrt.Nmbm.Update
import LibWrt.Lib.Loop

namespace LibWrt.Nmbm

open Option Instance List
open LibWrt.Flash LibWrt.Bytes LibWrt.Loop

variable (g : Geometry) (env : Env)

/-! ## The loops of the source -/

/-- One turn of `while (write_ba >= bound)`, from `write_ba` and the state. -/
def rescueTurn (bound : Nat) (p : Nat × State) : (Nat × State) ⊕ (Option (Nat × Nat) × State) :=
  if p.1 ≥ bound then
    match writeInfoTable g env p.1 p.2.ni.mappingBlocksTopBa p.2 with
    | (some range, s) => .inr (some range, s)
    | (none, s) => .inl (sub32 p.1 1, s)
  else .inr (none, p.2)

/-- `nmbm_rescue_main_info_table`, each loop for at most `n` turns -/
def rescueMainLoop (n : Nat) (s : State) : Option (Bool × State) :=
  match s.ni.reserveSpare g s.ni.mappingBlocksBa with
  | none => some (true, s.backupToMain)
  | some writeBa =>
    (run (rescueTurn g env s.ni.mappingBlocksBa) n (writeBa, s)).bind fun
    | (none, s) => some (true, s.backupToMain)
    | (some (tmpTableStartBa, tmpTableEndBa), s) =>
      let s : State := { s with ni := { s.ni with mappingBlocksBa := tmpTableEndBa } }
      match writeInfoTable g env s.ni.mgmtStartBa tmpTableStartBa s with
      | (none, s) =>
        let ni := { s.ni with mainTableBa := tmpTableStartBa, backupTableBa := 0 : Instance }
        some (true, { s with ni := ni.markTablesClean })
      | (some (mainTableStartBa, mainTableEndBa), s) =>
        let ni := { s.ni with mainTableBa := mainTableStartBa : Instance }
        let s : State := { s with ni := ni.markTablesClean }
        if mainTableEndBa ≤ tmpTableStartBa then
          some (true, { s with ni := { s.ni with backupTableBa := tmpTableStartBa } })
        else
          let s : State := { s with ni := { s.ni with mappingBlocksBa := mainTableEndBa } }
          match s.ni.reserveSpare g mainTableEndBa with
          | none => some (true, { s with ni := { s.ni with backupTableBa := 0 } })
          | some writeBa =>
            (run (rescueTurn g env mainTableEndBa) n (writeBa, s)).map fun
            | (none, s) => (true, { s with ni := { s.ni with backupTableBa := 0 } })
            | (some (tmpTableStartBa, tmpTableEndBa), s) =>
              let s : State :=
                { s with
                  ni :=
                    { s.ni with
                      backupTableBa := tmpTableStartBa
                      mappingBlocksBa := tmpTableEndBa } }
              (true, eraseRange g env mainTableEndBa s.ni.backupTableBa s)

/-- The second half of `nmbm_update_info_table_once` -/
def updateMainLoop (n mainTableLimit : Nat) (s : State) : Option (Bool × State) :=
  if s.ni.mainTableBa = 0 then some (rebuildInfoTable g env s)
  else
    match writeInfoTable g env s.ni.mainTableBa mainTableLimit s with
    | (none, s) =>
      if s.ni.backupTableBa = 0 then some (rebuildInfoTable g env s) else rescueMainLoop g env n s
    | (some (tableStartBa, tableEndBa), s) =>
      let ni :=
        { s.ni with
          mainTableBa := tableStartBa
          mappingBlocksBa :=
            if s.ni.backupTableBa = 0 then tableEndBa else s.ni.mappingBlocksBa : Instance }
      some (true, { s with ni := ni.markTablesClean })

/-- `nmbm_update_info_table_once` -/
def updateOnceLoop (n : Nat) (s : State) : Option (Bool × State) :=
  let (changed, ni) := generateInfoTableCache g s.ni
  let s : State := { s with ni := ni }
  if !changed then some (true, s)
  else if s.ni.backupTableBa = 0 then updateMainLoop g env n s.ni.mappingBlocksTopBa s
  else
    match writeInfoTable g env s.ni.backupTableBa s.ni.mappingBlocksTopBa s with
    | (none, s) =>
      let ni :=
        { s.ni with mappingBlocksBa := s.ni.backupTableBa, backupTableBa := 0 : Instance }
      updateMainLoop g env n ni.mappingBlocksTopBa { s with ni := ni }
    | (some (tableStartBa, tableEndBa), s) =>
      let ni :=
        { s.ni with
          backupTableBa := tableStartBa
          mappingBlocksBa := tableEndBa : Instance }
      updateMainLoop g env n tableStartBa { s with ni := ni.markTablesClean }

def Instance.Dirty (ni : Instance) : Prop := ni.blockStateChanged ≠ 0 ∨ ni.blockMappingChanged ≠ 0

/-- The loop of `nmbm_update_info_table` ends with a result after so many passes, each of
    whose own loops end. -/
inductive Passes : State → Nat → Bool × State → Prop where
  | done {s : State} : ¬ s.ni.Dirty → Passes s 0 (true, s)
  | failed {s s' : State} : s.ni.Dirty → Gives (fun n => updateOnceLoop g env n s) (false, s') →
      Passes s 1 (false, s')
  | again {s s' : State} {n : Nat} {r : Bool × State} : s.ni.Dirty →
      Gives (fun n => updateOnceLoop g env n s) (true, s') → Passes s' n r → Passes s (n + 1) r

/-- `nmbm_update_info_table` ends with a result after so many passes. -/
def Updates (s : State) (n : Nat) (r : Bool × State) : Prop :=
  if s.ni.isProtected then n = 0 ∧ r = (true, s) else Passes g env s n r

/-- The blocks below `n` that are not recorded bad. -/
def Instance.notBad (ni : Instance) (n : Nat) : Nat :=
  ((range n).filter fun ba => ni.getBlockState ba != blockStBad).length

variable {g env}

/-! ## The rescue loops -/

theorem sub32_one {n : Nat} (h : n + 1 < 2 ^ 32) : sub32 (n + 1) 1 = n := by
  unfold sub32
  omega

/-- Down to a bound that is not 0, the loop is the walk of `writeDownTo`. -/
theorem rescueTurn_ends {bound : Nat} (hb : 0 < bound) : ∀ (n : Nat) (s : State),
    bound + n < 2 ^ 32 → Ends (rescueTurn g env bound) (bound + n, s) (writeDownTo g env bound n s)
  | 0, s, hlt => by
    unfold writeDownTo
    rcases hw : writeInfoTable g env bound s.ni.mappingBlocksTopBa s with ⟨range, s'⟩
    cases range with
    | some range => exact .stop (by simp [rescueTurn, hw])
    | none =>
      obtain ⟨b, rfl⟩ : ∃ b, bound = b + 1 := ⟨bound - 1, by omega⟩
      have hturn : rescueTurn g env (b + 1) (b + 1, s) = .inl (b, s') := by
        simp [rescueTurn, hw, sub32_one hlt]
      exact .next hturn (.stop (by simp [rescueTurn]))
  | n + 1, s, hlt => by
    unfold writeDownTo
    rcases hw : writeInfoTable g env (bound + (n + 1)) s.ni.mappingBlocksTopBa s with ⟨range, s'⟩
    cases range with
    | some range => exact .stop (by simp [rescueTurn, hw])
    | none =>
      have hsub : sub32 (bound + (n + 1)) 1 = bound + n := sub32_one hlt
      have hturn : rescueTurn g env bound (bound + (n + 1), s) = .inl (bound + n, s') := by
        simp [rescueTurn, hw, hsub]
      exact .next hturn (rescueTurn_ends hb n s' (by omega))

variable {ni : Instance}

/-- The spare blocks reserved after a block end at a block of the chip behind it. -/
theorem walkAscFrom_bounds : ∀ {n ba count nba : Nat},
    ni.walkAscFrom n ba count = some nba → ba ≤ nba ∧ nba < ba + n
  | 0, _, _, _, h => by simp [walkAscFrom] at h
  | n + 1, ba, count, nba, h => by
    unfold walkAscFrom at h
    split at h
    · split at h
      · cases h
        exact ⟨le_rfl, by omega⟩
      · have := walkAscFrom_bounds h
        omega
    · have := walkAscFrom_bounds h
      omega

theorem tryReserveBlocks_bounds {ba limit nba : Nat} : ∀ {count : Nat},
    tryReserveBlocks g ni ba count limit = some nba → ba ≤ nba ∧ nba < g.totalBlks
  | 0, h => by
    unfold tryReserveBlocks blockWalkAsc at h
    have := walkAscFrom_bounds h
    split at this <;> omega
  | count + 1, h => by
    unfold tryReserveBlocks at h
    split at h
    · rename_i nba' hwalk
      cases h
      unfold blockWalkAsc at hwalk
      have := walkAscFrom_bounds hwalk
      split at this <;> omega
    · exact tryReserveBlocks_bounds h

theorem rescue_gives {bound writeBa : Nat} {s : State} (hb : 0 < bound)
    (hw : ni.reserveSpare g bound = some writeBa) :
    Gives (fun n => run (rescueTurn g env bound) n (writeBa, s))
      (writeDownTo g env bound (writeBa - bound) s) := by
  obtain ⟨hle, hlt⟩ := tryReserveBlocks_bounds hw
  have htotal := g.totalBlks_lt
  rw [gives_run_iff]
  have hends : Ends (rescueTurn g env bound) (bound + (writeBa - bound), s) _ :=
    rescueTurn_ends hb (writeBa - bound) s (by omega)
  rwa [Nat.add_sub_cancel' hle] at hends

/-! ## What is found on the way -/

/-- The instance is as it was, or a good block of the range was found bad. -/
def FoundBad (lo hi : Nat) (s s' : State) : Prop :=
  s'.ni = s.ni ∨ ∃ ba, lo ≤ ba ∧ ba < hi ∧ s.ni.good ba = true ∧
    s'.ni.getBlockState ba = blockStBad

section Finding

variable {lo hi lo' hi' ba : Nat} {s s' s'' : State}

theorem FoundBad.mono (h : FoundBad lo hi s s') (hlo : lo' ≤ lo) (hhi : hi ≤ hi') :
    FoundBad lo' hi' s s' := by
  rcases h with heq | ⟨ba, hlo', hhi', hg, hbad⟩
  · exact .inl heq
  · exact .inr ⟨ba, by omega, by omega, hg, hbad⟩

theorem FoundBad.trans (hw : Worn lo hi s s') (hw' : Worn lo hi s' s'') (h : FoundBad lo hi s s')
    (h' : FoundBad lo hi s' s'') : FoundBad lo hi s s'' := by
  rcases h with heq | ⟨ba, hlo, hhi, hg, hbad⟩
  · rcases h' with heq' | ⟨ba, hlo, hhi, hg, hbad⟩
    · exact .inl (heq'.trans heq)
    · exact .inr ⟨ba, hlo, hhi, hw.good hg, hbad⟩
  · rcases hw'.states ba with hsame | ⟨-, -, -, hbad'⟩
    · exact .inr ⟨ba, hlo, hhi, hg, hsame.trans hbad⟩
    · exact .inr ⟨ba, hlo, hhi, hg, hbad'⟩

theorem found_setBad {nand : Device Page} (hlo : lo ≤ ba) (hhi : ba < hi)
    (hg : s.ni.good ba = true) : FoundBad lo hi s ({ s with nand := nand }.setBad ba) := by
  refine .inr ⟨ba, hlo, hhi, hg, ?_⟩
  have hlen : ba / 16 < ({ s with nand := nand } : State).ni.blockState.length := lt_of_good hg
  rw [getBlockState_setBad hlen, if_pos rfl]

theorem eraseRangeFrom_found (n ba : Nat) (s : State) :
    FoundBad ba (ba + n) s (eraseRangeFrom g env n ba s) := by
  induction n generalizing ba s with
  | zero => exact .inl rfl
  | succ n ih =>
    have hrest : ∀ s, FoundBad ba (ba + (n + 1)) s (eraseRangeFrom g env n (ba + 1) s) :=
      fun s => (ih (ba + 1) s).mono (by omega) (by omega)
    have hworn : ∀ s, Worn ba (ba + (n + 1)) s (eraseRangeFrom g env n (ba + 1) s) :=
      fun s => (eraseRangeFrom_worn n (ba + 1) s).mono (by omega) (by omega)
    unfold eraseRangeFrom
    split
    · exact hrest s
    · rename_i hgood
      have hg : s.ni.good ba = true := by simpa using hgood
      split
      · exact FoundBad.trans (.setBad le_rfl (by omega) hg) (hworn _)
          (found_setBad le_rfl (by omega) hg) (hrest _)
      · have hran : Ran (On ba) s.nand
            (eraseBlockAndCheck g env s.ni.emptyPageEccOk ba s.nand).2 :=
          eraseBlockAndCheck_ran _ ba s.nand
        dsimp only
        split
        · exact FoundBad.trans (.on hran le_rfl (by omega)) (hworn _) (.inl rfl) (hrest _)
        · exact FoundBad.trans (.fail hran le_rfl (by omega) hg) (hworn _)
            (found_setBad le_rfl (by omega) hg) (hrest _)

theorem eraseRange_found (ba limit : Nat) (s : State) :
    FoundBad ba limit s (eraseRange g env ba limit s) := by
  unfold eraseRange
  rcases Nat.le_total ba limit with hle | hge
  · have hfound : FoundBad ba (ba + (limit - ba)) s (eraseRangeFrom g env (limit - ba) ba s) :=
      eraseRangeFrom_found (limit - ba) ba s
    rwa [Nat.add_sub_cancel' hle] at hfound
  · rw [Nat.sub_eq_zero_of_le hge]
    exact .inl rfl

theorem writeMgmtBlock_found (ba : Nat) (chunk : Bytes) (s : State) :
    FoundBad ba (ba + 1) s (writeMgmtBlock g env ba chunk s).2 := by
  unfold writeMgmtBlock
  split
  · exact .inl rfl
  · rename_i hgood
    have hg : s.ni.good ba = true := by simpa using hgood
    split
    · exact found_setBad le_rfl (by omega) hg
    · dsimp only
      split
      · split
        · exact .inl rfl
        · exact found_setBad le_rfl (by omega) hg
      · exact found_setBad le_rfl (by omega) hg

theorem writeMgmtRangeFrom_found (start : Option Nat) (n ba : Nat) (chunks : List Bytes)
    (s : State) : FoundBad ba (ba + n) s (writeMgmtRangeFrom g env start n ba chunks s).2 := by
  induction n generalizing start ba chunks s with
  | zero => cases chunks <;> exact .inl rfl
  | succ n ih =>
    cases chunks with
    | nil => exact .inl rfl
    | cons chunk chunks =>
      have hblock : FoundBad ba (ba + (n + 1)) s (writeMgmtBlock g env ba chunk s).2 :=
        (writeMgmtBlock_found ba chunk s).mono le_rfl (by omega)
      have hworn : Worn ba (ba + (n + 1)) s (writeMgmtBlock g env ba chunk s).2 :=
        (writeMgmtBlock_worn ba chunk s).mono le_rfl (by omega)
      have hrest : ∀ start chunks s, FoundBad ba (ba + (n + 1)) s
          (writeMgmtRangeFrom g env start n (ba + 1) chunks s).2 :=
        fun start chunks s => (ih start (ba + 1) chunks s).mono (by omega) (by omega)
      have hworn' : ∀ start chunks s, Worn ba (ba + (n + 1)) s
          (writeMgmtRangeFrom g env start n (ba + 1) chunks s).2 :=
        fun start chunks s => (writeMgmtRangeFrom_spec env g.pgSize_pos start n (ba + 1) chunks
          s).1.mono (by omega) (by omega)
      simp only [writeMgmtRangeFrom]
      rcases hw : writeMgmtBlock g env ba chunk s with ⟨ok, s₁⟩
      rw [hw] at hblock hworn
      cases ok with
      | true => exact FoundBad.trans hworn (hworn' _ _ s₁) hblock (hrest _ _ s₁)
      | false => exact FoundBad.trans hworn (hworn' _ _ s₁) hblock (hrest _ _ s₁)

theorem writeInfoTable_found (ba limit : Nat) (s : State) :
    FoundBad ba limit s (writeInfoTable g env ba limit s).2 := by
  unfold writeInfoTable writeMgmtRange
  have h : FoundBad ba (ba + (limit - ba)) s (writeMgmtRangeFrom g env none (limit - ba) ba
      (pieces g.blkSize s.ni.infoTableCache) s).2 := writeMgmtRangeFrom_found none _ ba _ s
  rcases Nat.le_total ba limit with hle | hge
  · rwa [Nat.add_sub_cancel' hle] at h
  · rw [Nat.sub_eq_zero_of_le hge] at h ⊢
    cases pieces g.blkSize s.ni.infoTableCache <;> exact .inl rfl

end Finding

/-! ## The measure -/

/-- From a state whose tables are clean, what is left to write was paid for with a block. -/
structure Spent (n : Nat) (s s' : State) : Prop where
  fewer : s'.ni.notBad n ≤ s.ni.notBad n
  states : s.ni.blockStateChanged = 0 → s'.ni.blockStateChanged ≠ 0 →
    s'.ni.notBad n < s.ni.notBad n
  mapping : s.ni.blockMappingChanged = 0 → s'.ni.blockMappingChanged = 0
  top : s'.ni.mappingBlocksTopBa = s.ni.mappingBlocksTopBa
  cache : s'.ni.infoTableCache = s.ni.infoTableCache

section Measure

variable {lo hi n : Nat} {s s' s'' : State}

theorem Spent.trans (h : Spent n s s') (h' : Spent n s' s'') : Spent n s s'' where
  fewer := h'.fewer.trans h.fewer
  states := fun hzero hne => by
    by_cases hmid : s'.ni.blockStateChanged = 0
    · exact (h'.states hmid hne).trans_le h.fewer
    · exact h'.fewer.trans_lt (h.states hzero hmid)
  mapping := fun hzero => h'.mapping (h.mapping hzero)
  top := h'.top.trans h.top
  cache := h'.cache.trans h.cache

theorem Spent.of_same (hstate : s'.ni.blockState = s.ni.blockState)
    (hcount : s'.ni.blockStateChanged = s.ni.blockStateChanged ∨ s'.ni.blockStateChanged = 0)
    (hmapping : s'.ni.blockMappingChanged = s.ni.blockMappingChanged ∨
      s'.ni.blockMappingChanged = 0)
    (htop : s'.ni.mappingBlocksTopBa = s.ni.mappingBlocksTopBa)
    (hcache : s'.ni.infoTableCache = s.ni.infoTableCache) : Spent n s s' where
  fewer := by simp [notBad, getBlockState, hstate]
  states := fun hzero hne => by omega
  mapping := fun hzero => by omega
  top := htop
  cache := hcache

section

variable (h : ∀ ba, s'.ni.getBlockState ba = s.ni.getBlockState ba ∨
  s'.ni.getBlockState ba = blockStBad)

include h

theorem notBad_le : s'.ni.notBad n ≤ s.ni.notBad n := by
  refine List.Sublist.length_le (monotone_filter_right _ fun ba hba => ?_)
  rcases h ba with heq | hbad
  · rw [← heq]
    exact hba
  · simp [hbad] at hba

theorem notBad_lt {ba : Nat} (hlt : ba < n)
    (hg : s.ni.getBlockState ba ≠ blockStBad) (hbad : s'.ni.getBlockState ba = blockStBad) :
    s'.ni.notBad n < s.ni.notBad n := by
  have hsub : ((range n).filter fun ba => s'.ni.getBlockState ba != blockStBad).Sublist
      ((range n).filter fun ba => s.ni.getBlockState ba != blockStBad) := by
    refine monotone_filter_right _ fun ba hba => ?_
    rcases h ba with heq | hbad
    · rw [← heq]
      exact hba
    · simp [hbad] at hba
  refine lt_of_le_of_ne hsub.length_le fun hlen => ?_
  have hmem : ba ∈ (range n).filter fun ba => s'.ni.getBlockState ba != blockStBad := by
    rw [hsub.eq_of_length hlen]
    simp [hlt, hg]
  simp [hbad] at hmem

end

theorem Spent.of_worn (hw : Worn lo hi s s') (hf : FoundBad lo hi s s') (hhi : hi ≤ n) :
    Spent n s s' := by
  have hstates : ∀ ba, s'.ni.getBlockState ba = s.ni.getBlockState ba ∨
      s'.ni.getBlockState ba = blockStBad := fun ba =>
    (hw.states ba).imp_right fun h => h.2.2.2
  constructor
  case fewer => exact notBad_le hstates
  case states =>
    intro hzero hne
    rcases hf with heq | ⟨ba, -, hlt, hg, hbad⟩
    · rw [heq] at hne
      exact absurd hzero hne
    · refine notBad_lt hstates (by omega) ?_ hbad
      rw [good_iff.mp hg]
      decide
  case mapping =>
    intro hzero
    rw [hw.frame]
    exact hzero
  case top => rw [hw.frame]
  case cache => rw [hw.frame]

end Measure

/-! ## Writing tables -/

section Tables

variable {n : Nat} {s s' : State}

variable {ba limit : Nat} {m : State}

theorem writeInfoTable_spent {r : Option (Nat × Nat)} (hn : limit ≤ n)
    (h : writeInfoTable g env ba limit s = (r, s')) : Spent n s s' := by
  have hworn : Worn ba limit s (writeInfoTable g env ba limit s).2 := writeInfoTable_worn ba limit s
  have hfound : FoundBad ba limit s (writeInfoTable g env ba limit s).2 :=
    writeInfoTable_found ba limit s
  rw [h] at hworn hfound
  exact .of_worn hworn hfound hn

theorem eraseRange_spent (hn : limit ≤ n) (s : State) :
    Spent n s (eraseRange g env ba limit s) :=
  .of_worn (eraseRange_worn ba limit s) (eraseRange_found ba limit s) hn

/-- Where a table that is written ends. -/
theorem writeInfoTable_end {st en : Nat} (hne : s.ni.infoTableCache ≠ [])
    (h : writeInfoTable g env ba limit s = (some (st, en), s')) : st < en ∧ en ≤ limit := by
  obtain ⟨-, hle, hat⟩ := writeInfoTable_at hne h
  have hlen := ChunksAt.le hat
  have hpos : 0 < (pieces g.blkSize s.ni.infoTableCache).length :=
    List.length_pos_iff.mpr (pieces_ne_nil hne)
  omega

theorem writeDownTo_spent {start k : Nat} {r : Option (Nat × Nat)}
    (hn : s.ni.mappingBlocksTopBa ≤ n) (h : writeDownTo g env start k s = (r, s')) :
    Spent n s s' := by
  induction k generalizing s with
  | zero => exact writeInfoTable_spent hn h
  | succ k ih =>
    unfold writeDownTo at h
    split at h
    · rename_i hw
      obtain ⟨-, rfl⟩ := Prod.mk.inj h
      exact writeInfoTable_spent hn hw
    · rename_i hw
      have hfirst := writeInfoTable_spent hn hw
      exact hfirst.trans (ih (by rw [hfirst.top]; exact hn) h)

theorem writeDownTo_end {start k st en : Nat} (hne : s.ni.infoTableCache ≠ [])
    (h : writeDownTo g env start k s = (some (st, en), s')) :
    st < en ∧ en ≤ s.ni.mappingBlocksTopBa := by
  induction k generalizing s with
  | zero => exact writeInfoTable_end hne h
  | succ k ih =>
    unfold writeDownTo at h
    split at h
    · rename_i hw
      obtain ⟨hrange, rfl⟩ := Prod.mk.inj h
      rw [hrange] at hw
      exact writeInfoTable_end hne hw
    · rename_i hw
      have hfirst := writeInfoTable_spent le_rfl hw
      have hrest := ih (by rw [hfirst.cache]; exact hne) h
      rwa [hfirst.top] at hrest

/-- The tables were marked clean on the way. -/
structure Cleaned (n : Nat) (s s' : State) : Prop where
  fewer : s'.ni.notBad n ≤ s.ni.notBad n
  states : s'.ni.blockStateChanged ≠ 0 → s'.ni.notBad n < s.ni.notBad n
  mapping : s'.ni.blockMappingChanged = 0
  top : s'.ni.mappingBlocksTopBa = s.ni.mappingBlocksTopBa

theorem Spent.cleaned (h : Spent n s m) (hstates : m.ni.blockStateChanged = 0)
    (hmapping : m.ni.blockMappingChanged = 0) (h' : Spent n m s') : Cleaned n s s' where
  fewer := h'.fewer.trans h.fewer
  states := fun hne => (h'.states hstates hne).trans_le h.fewer
  mapping := h'.mapping hmapping
  top := h'.top.trans h.top

theorem Spent.cleaned_trans (h : Spent n s m) (h' : Cleaned n m s') :
    Cleaned n s s' where
  fewer := h'.fewer.trans h.fewer
  states := fun hne => (h'.states hne).trans_le h.fewer
  mapping := h'.mapping
  top := h'.top.trans h.top

/-- Marking the tables clean. -/
theorem Spent.clean (h : Spent n s s') (hm : m = { s' with ni := { s'.ni with
      mainTableBa := m.ni.mainTableBa, backupTableBa := m.ni.backupTableBa,
      mappingBlocksBa := m.ni.mappingBlocksBa, blockStateChanged := 0,
      blockMappingChanged := 0 } }) : Spent n s m := by
  refine h.trans (.of_same ?_ (.inr ?_) (.inr ?_) ?_ ?_) <;> rw [hm]

/-- Changing the places of the tables. -/
theorem Spent.move (h : Spent n s s') (hm : m = { s' with ni := { s'.ni with
      mainTableBa := m.ni.mainTableBa, backupTableBa := m.ni.backupTableBa,
      mappingBlocksBa := m.ni.mappingBlocksBa } }) : Spent n s m := by
  refine h.trans (.of_same ?_ (.inl ?_) (.inl ?_) ?_ ?_) <;> rw [hm]

theorem Spent.refl (n : Nat) (s : State) : Spent n s s :=
  .of_same rfl (.inl rfl) (.inl rfl) rfl rfl

end Tables

/-! ## A pass -/

section Pass

variable {n : Nat} {s s' : State}

/-- Building the tables anew: a table that is written leaves them clean. -/
theorem rebuildInfoTable_cleaned (hne : s.ni.infoTableCache ≠ [])
    (hn : s.ni.mappingBlocksTopBa ≤ n) :
    Spent n s (rebuildInfoTable g env s).2 ∧ ((rebuildInfoTable g env s).1 = true →
      Cleaned n s (rebuildInfoTable g env s).2) := by
  set s₀ : State := { s with ni := { s.ni with
    mainTableBa := 0, backupTableBa := 0, mappingBlocksBa := s.ni.mappingBlocksTopBa } } with hs₀
  have h₀ : Spent n s s₀ := (Spent.refl n s).move rfl
  unfold rebuildInfoTable
  rw [← hs₀]
  dsimp only
  split
  · rename_i s₁ hw
    have h₁ := h₀.trans (writeInfoTable_spent hn hw)
    refine ⟨h₁.trans (.of_same rfl (.inl rfl) (.inl rfl) rfl rfl), fun h => by simp at h⟩
  · rename_i st en s₁ hw
    have h₁ := h₀.trans (writeInfoTable_spent hn hw)
    set s₂ : State :=
      { s₁ with
        ni := ({ s₁.ni with mainTableBa := st, mappingBlocksBa := en } : Instance).markTablesClean }
      with hs₂
    have h₂ : Spent n s s₂ := h₁.clean rfl
    -- whatever follows is paid for
    have hrest : ∀ s', Spent n s₂ s' → Spent n s s' ∧ (true = true → Cleaned n s s') :=
      fun s' h' => ⟨h₂.trans h', fun _ => h₂.cleaned rfl rfl h'⟩
    have hn₂ : s₂.ni.mappingBlocksTopBa ≤ n := by
      rw [h₂.top]
      exact hn
    split
    · exact hrest _ (.refl n s₂)
    · split
      · rename_i hw'
        exact hrest _ (writeInfoTable_spent hn₂ hw')
      · rename_i st' en' s₃ hw'
        have h₃ := writeInfoTable_spent hn₂ hw'
        have hend : st' < en' ∧ en' ≤ s₂.ni.mappingBlocksTopBa :=
          writeInfoTable_end (by rw [h₂.cache]; exact hne) hw'
        exact hrest _ ((h₃.move rfl).trans (eraseRange_spent (by show st' ≤ n; omega) _))

theorem rescueMainInfoTable_spent (hne : s.ni.infoTableCache ≠ [])
    (hn : s.ni.mappingBlocksTopBa ≤ n) : Spent n s (rescueMainInfoTable g env s).2 := by
  unfold rescueMainInfoTable
  dsimp only
  split
  · exact (Spent.refl n s).move rfl
  · split
    · rename_i hw
      exact (writeDownTo_spent hn hw).move rfl
    · rename_i st en s₁ hw
      obtain ⟨hlt, hle⟩ := writeDownTo_end hne hw
      have h₁ : Spent n s { s₁ with ni := { s₁.ni with mappingBlocksBa := en } } :=
        (writeDownTo_spent hn hw).move rfl
      split
      · rename_i hw'
        exact (h₁.trans (writeInfoTable_spent (by omega) hw')).clean rfl
      · rename_i st' en' s₂ hw'
        have h₂ : Spent n s s₂ := h₁.trans (writeInfoTable_spent (by omega) hw')
        split
        · exact h₂.clean rfl
        · split
          · exact h₂.clean rfl
          · rename_i writeBa hres
            set s₃ : State :=
              { s₂ with
                ni := { ({ s₂.ni with mainTableBa := st' } : Instance).markTablesClean with
                  mappingBlocksBa := en' } } with hs₃
            have h₃ : Spent n s s₃ := h₂.clean rfl
            have hn₃ : s₃.ni.mappingBlocksTopBa ≤ n := by
              rw [h₃.top]
              exact hn
            split
            · rename_i hw''
              exact (h₃.trans (writeDownTo_spent hn₃ hw'')).move rfl
            · rename_i st'' en'' s₄ hw''
              obtain ⟨hlt'', hle''⟩ := writeDownTo_end (by rw [h₃.cache]; exact hne) hw''
              have h₄ := h₃.trans (writeDownTo_spent hn₃ hw'')
              exact (h₄.move rfl).trans (eraseRange_spent (by show st'' ≤ n; omega) _)

/-- Writing the main table spends what it finds, and cleans if there is no other table. -/
theorem updateMainTable_spent {limit : Nat} (hne : s.ni.infoTableCache ≠ [])
    (hn : s.ni.mappingBlocksTopBa ≤ n) (hlimit : limit ≤ n) :
    Spent n s (updateMainTable g env limit s).2 ∧ (s.ni.backupTableBa = 0 →
      (updateMainTable g env limit s).1 = true → Cleaned n s
    (updateMainTable g env limit s).2) := by
  unfold updateMainTable
  split
  · exact ⟨(rebuildInfoTable_cleaned hne hn).1, fun _ => (rebuildInfoTable_cleaned hne hn).2⟩
  · split
    · rename_i s₁ hw
      have h₁ := writeInfoTable_spent hlimit hw
      have hne₁ : s₁.ni.infoTableCache ≠ [] := by
        rw [h₁.cache]
        exact hne
      have hn₁ : s₁.ni.mappingBlocksTopBa ≤ n := by
        rw [h₁.top]
        exact hn
      have hbackup : s₁.ni.backupTableBa = s.ni.backupTableBa := by
        have hworn : Worn _ limit s (writeInfoTable g env s.ni.mainTableBa limit s).2 :=
          writeInfoTable_worn s.ni.mainTableBa limit s
        rw [hw] at hworn
        rw [hworn.frame]
      split
      · have hrebuild : Spent n s₁ (rebuildInfoTable g env s₁).2 ∧
            ((rebuildInfoTable g env s₁).1 = true → Cleaned n s₁ (rebuildInfoTable g env s₁).2) :=
          rebuildInfoTable_cleaned hne₁ hn₁
        exact ⟨h₁.trans hrebuild.1, fun _ htrue => h₁.cleaned_trans (hrebuild.2 htrue)⟩
      · rename_i hb
        exact ⟨h₁.trans (rescueMainInfoTable_spent hne₁ hn₁),
          fun h => absurd (hbackup.trans h) hb⟩
    · rename_i st en s₁ hw
      have h₁ := writeInfoTable_spent hlimit hw
      exact ⟨h₁.clean rfl, fun _ _ => (h₁.clean rfl).cleaned rfl rfl (.refl n _)⟩

/-! ### The loops of a pass -/

theorem infoTableCache_generated (ni : Instance) :
    (generateInfoTableCache g ni).2.infoTableCache ≠ [] := by
  simp [generateInfoTableCache, updateChecksum, le32]

/-- With turns enough, the rescue is that of the loops that walk down. -/
theorem rescueMainLoop_gives (hpos : 0 < s.ni.mappingBlocksBa)
    (hne : s.ni.infoTableCache ≠ []) :
    Gives (fun n => rescueMainLoop g env n s) (rescueMainInfoTable g env s) := by
  unfold rescueMainLoop rescueMainInfoTable
  cases hres : s.ni.reserveSpare g s.ni.mappingBlocksBa with
  | none => exact ⟨0, rfl⟩
  | some writeBa =>
    have hfirst : Gives (fun n => run (rescueTurn g env s.ni.mappingBlocksBa) n (writeBa, s))
        (writeDownTo g env s.ni.mappingBlocksBa (writeBa - s.ni.mappingBlocksBa) s) :=
      rescue_gives hpos hres
    obtain ⟨n₁, h₁⟩ := hfirst
    dsimp only at h₁ ⊢
    rcases hd : writeDownTo g env s.ni.mappingBlocksBa (writeBa - s.ni.mappingBlocksBa) s
      with ⟨range, s₁⟩
    rw [hd] at h₁
    cases range with
    | none => exact ⟨n₁, by simp only [h₁, bind_some]⟩
    | some range =>
      obtain ⟨st, en⟩ := range
      have hcache₁ : s₁.ni.infoTableCache = s.ni.infoTableCache :=
        (writeDownTo_spent le_rfl hd).cache
      set s₂ : State := { s₁ with ni := { s₁.ni with mappingBlocksBa := en } } with hs₂
      rcases hw : writeInfoTable g env s₁.ni.mgmtStartBa st s₂ with ⟨range, s₃⟩
      cases range with
      | none => exact ⟨n₁, by simp only [h₁, bind_some, ← hs₂, hw]⟩
      | some range =>
        obtain ⟨st', en'⟩ := range
        have hne₂ : s₂.ni.infoTableCache ≠ [] := by
          show s₁.ni.infoTableCache ≠ []
          rw [hcache₁]
          exact hne
        obtain ⟨hlt, -⟩ := writeInfoTable_end hne₂ hw
        by_cases hle : en' ≤ st
        · exact ⟨n₁, by simp only [h₁, bind_some, ← hs₂, hw, if_pos hle]⟩
        · set ni₄ : Instance :=
            { ({ s₃.ni with mainTableBa := st' } : Instance).markTablesClean with
              mappingBlocksBa := en' } with hni₄
          cases hres' : ni₄.reserveSpare g en' with
          | none =>
            exact ⟨n₁, by
              simp only [h₁, bind_some, ← hs₂, hw, if_neg hle, ← hni₄, hres']⟩
          | some writeBa' =>
            have hsecond : Gives
                (fun n => run (rescueTurn g env en') n (writeBa', { s₃ with ni := ni₄ }))
                (writeDownTo g env en' (writeBa' - en') { s₃ with ni := ni₄ }) :=
              rescue_gives (by omega) hres'
            obtain ⟨n₂, h₂⟩ := hsecond
            dsimp only at h₂
            have h₁' := run_mono h₁ (Nat.le_max_left n₁ n₂)
            have h₂' := run_mono h₂ (Nat.le_max_right n₁ n₂)
            refine ⟨max n₁ n₂, ?_⟩
            rcases hlast : writeDownTo g env en' (writeBa' - en') { s₃ with ni := ni₄ } with
              ⟨_ | range, s₅⟩
            · rw [hlast] at h₂'
              simp only [h₁', bind_some, ← hs₂, hw, if_neg hle, ← hni₄, hres', hlast, h₂',
                map_some]
            · rw [hlast] at h₂'
              simp only [h₁', bind_some, ← hs₂, hw, if_neg hle, ← hni₄, hres', hlast, h₂',
                map_some]

theorem updateMainLoop_gives {limit : Nat}
    (hpos : s.ni.backupTableBa ≠ 0 → 0 < s.ni.mappingBlocksBa)
    (hne : s.ni.infoTableCache ≠ []) :
    Gives (fun n => updateMainLoop g env n limit s) (updateMainTable g env limit s) := by
  unfold updateMainLoop updateMainTable
  by_cases hmain : s.ni.mainTableBa = 0
  · exact ⟨0, by simp only [if_pos hmain]⟩
  · simp only [if_neg hmain]
    rcases hw : writeInfoTable g env s.ni.mainTableBa limit s with ⟨range, s₁⟩
    cases range with
    | none =>
      have hworn : Worn s.ni.mainTableBa limit s
          (writeInfoTable g env s.ni.mainTableBa limit s).2 := writeInfoTable_worn _ limit s
      rw [hw] at hworn
      have hframe := hworn.frame
      by_cases hbackup : s₁.ni.backupTableBa = 0
      · exact ⟨0, by simp only [if_pos hbackup]⟩
      · simp only [if_neg hbackup]
        refine rescueMainLoop_gives ?_ ?_
        · have hb : s.ni.backupTableBa ≠ 0 := by
            rw [hframe] at hbackup
            exact hbackup
          rw [hframe]
          exact hpos hb
        · rw [hframe]
          exact hne
    | some range => exact ⟨0, rfl⟩

theorem updateOnceLoop_gives (s : State) :
    Gives (fun n => updateOnceLoop g env n s) (updateInfoTableOnce g env false s) := by
  unfold updateOnceLoop updateInfoTableOnce
  have hne : (generateInfoTableCache g s.ni).2.infoTableCache ≠ [] := infoTableCache_generated s.ni
  rcases hgen : generateInfoTableCache g s.ni with ⟨changed, ni⟩
  rw [hgen] at hne
  cases changed with
  | false => exact ⟨0, rfl⟩
  | true =>
    simp only [Bool.not_true, Bool.false_and, Bool.false_eq_true, if_false]
    by_cases hbackup : ni.backupTableBa = 0
    · simp only [if_pos hbackup]
      exact updateMainLoop_gives (fun h => absurd hbackup h) hne
    · simp only [if_neg hbackup]
      rcases hw : writeInfoTable g env ni.backupTableBa ni.mappingBlocksTopBa
        { s with ni := ni } with ⟨range, s₁⟩
      have hspent := writeInfoTable_spent le_rfl hw
      have hne₁ : s₁.ni.infoTableCache ≠ [] := by
        rw [hspent.cache]
        exact hne
      cases range with
      | none => exact updateMainLoop_gives (fun h => absurd rfl h) hne₁
      | some range =>
        obtain ⟨st, en⟩ := range
        obtain ⟨hlt, -⟩ := writeInfoTable_end hne hw
        refine updateMainLoop_gives (fun _ => ?_) hne₁
        show 0 < en
        omega

/-- A pass over tables with something to write cleans them, if it succeeds. -/
theorem updateInfoTableOnce_cleaned (hdirty : s.ni.Dirty) (hn : s.ni.mappingBlocksTopBa ≤ n)
    (h : updateInfoTableOnce g env false s = (true, s')) : Cleaned n s s' := by
  have hchanged : (generateInfoTableCache g s.ni).1 = true := by
    simpa [generateInfoTableCache, Instance.Dirty] using hdirty
  have hne : (generateInfoTableCache g s.ni).2.infoTableCache ≠ [] := infoTableCache_generated s.ni
  set s₀ : State := { s with ni := (generateInfoTableCache g s.ni).2 } with hs₀
  have hstate : s₀.ni.blockState = s.ni.blockState ∧
      s₀.ni.mappingBlocksTopBa = s.ni.mappingBlocksTopBa := ⟨rfl, rfl⟩
  have hsame : s₀.ni.notBad n = s.ni.notBad n := by
    simp [notBad, getBlockState, hstate.1]
  -- the cache apart, the pass starts from the same state
  have hcleaned : Cleaned n s₀ s' := by
    have hn₀ : s₀.ni.mappingBlocksTopBa ≤ n := hn
    unfold updateInfoTableOnce at h
    dsimp only at h
    rw [hchanged] at h
    simp only [Bool.not_true, Bool.false_and, Bool.false_eq_true, if_false, ← hs₀] at h
    split at h
    · rename_i hbackup
      have hmain : Spent n s₀ (updateMainTable g env s₀.ni.mappingBlocksTopBa s₀).2 ∧
          (s₀.ni.backupTableBa = 0 →
            (updateMainTable g env s₀.ni.mappingBlocksTopBa s₀).1 = true →
            Cleaned n s₀ (updateMainTable g env s₀.ni.mappingBlocksTopBa s₀).2) :=
        updateMainTable_spent hne hn₀ hn₀
      rw [h] at hmain
      exact hmain.2 hbackup rfl
    · split at h
      · rename_i s₁ hw
        have h₁ := writeInfoTable_spent hn₀ hw
        set s₂ : State := { s₁ with ni := { s₁.ni with
          mappingBlocksBa := s₁.ni.backupTableBa, backupTableBa := 0 } } with hs₂
        have h₂ : Spent n s₀ s₂ := h₁.move rfl
        have hn₂ : s₂.ni.mappingBlocksTopBa ≤ n := by
          rw [h₂.top]
          exact hn₀
        have hmain : Spent n s₂ (updateMainTable g env s₂.ni.mappingBlocksTopBa s₂).2 ∧
            (s₂.ni.backupTableBa = 0 →
              (updateMainTable g env s₂.ni.mappingBlocksTopBa s₂).1 = true →
              Cleaned n s₂ (updateMainTable g env s₂.ni.mappingBlocksTopBa s₂).2) :=
          updateMainTable_spent (by rw [h₂.cache]; exact hne) hn₂ hn₂
        have h' : updateMainTable g env s₂.ni.mappingBlocksTopBa s₂ = (true, s') := h
        rw [h'] at hmain
        exact h₂.cleaned_trans (hmain.2 rfl rfl)
      · rename_i st en s₁ hw
        have h₁ := writeInfoTable_spent hn₀ hw
        obtain ⟨hlt, hle⟩ := writeInfoTable_end hne hw
        set s₂ : State :=
          { s₁ with
            ni := ({ s₁.ni with
              backupTableBa := st, mappingBlocksBa := en } : Instance).markTablesClean }
          with hs₂
        have h₂ : Spent n s₀ s₂ := h₁.clean rfl
        have hn₂ : s₂.ni.mappingBlocksTopBa ≤ n := by
          rw [h₂.top]
          exact hn₀
        have hle' : en ≤ s₀.ni.mappingBlocksTopBa := hle
        have hmain : Spent n s₂ (updateMainTable g env st s₂).2 :=
          (updateMainTable_spent (by rw [h₂.cache]; exact hne) hn₂ (by omega)).1
        rw [h] at hmain
        exact h₂.cleaned rfl rfl hmain
  exact ⟨hsame ▸ hcleaned.fewer, fun h => hsame ▸ hcleaned.states h, hcleaned.mapping,
    hcleaned.top.trans hstate.2⟩

end Pass

/-! ## The passes -/

/-- From any state the passes end, and there are as many blocks not recorded bad before as
    passes after the first. -/
theorem passes_exist {n : Nat} : ∀ (k : Nat) (s : State), s.ni.notBad n ≤ k →
    s.ni.mappingBlocksTopBa ≤ n → ∃ p r, Passes g env s p r ∧ p ≤ k + 1 ∧
      ∀ fuel, p < fuel → updateInfoTableFrom g env fuel s = r := by
  intro k
  induction k using Nat.strong_induction_on with
  | _ k ih =>
    intro s hk hn
    by_cases hdirty : s.ni.Dirty
    · have hclean : ¬ (s.ni.blockStateChanged = 0 ∧ s.ni.blockMappingChanged = 0) := by
        unfold Instance.Dirty at hdirty
        omega
      have hgives : Gives (fun n => updateOnceLoop g env n s) (updateInfoTableOnce g env false s) :=
        updateOnceLoop_gives s
      rcases honce : updateInfoTableOnce g env false s with ⟨success, s'⟩
      rw [honce] at hgives
      cases success with
      | false =>
        refine ⟨1, (false, s'), .failed hdirty hgives, by omega, fun fuel hfuel => ?_⟩
        obtain ⟨fuel, rfl⟩ : ∃ f, fuel = f + 1 := ⟨fuel - 1, by omega⟩
        rw [updateInfoTableFrom, if_neg hclean, honce]
      | true =>
        have hcleaned : Cleaned n s s' := updateInfoTableOnce_cleaned hdirty hn honce
        by_cases hdirty' : s'.ni.Dirty
        · -- what is left to write was found by this pass
          have hlt : s'.ni.notBad n < s.ni.notBad n := by
            refine hcleaned.states ?_
            unfold Instance.Dirty at hdirty'
            rw [hcleaned.mapping] at hdirty'
            omega
          obtain ⟨p, r, hpasses, hp, hfrom⟩ := ih (s'.ni.notBad n) (by omega) s' le_rfl
            (by rw [hcleaned.top]; exact hn)
          refine ⟨p + 1, r, .again hdirty hgives hpasses, by omega, fun fuel hfuel => ?_⟩
          obtain ⟨fuel, rfl⟩ : ∃ f, fuel = f + 1 := ⟨fuel - 1, by omega⟩
          rw [updateInfoTableFrom, if_neg hclean, honce]
          exact hfrom fuel (by omega)
        · refine ⟨1, (true, s'), .again hdirty hgives (.done hdirty'), by omega,
            fun fuel hfuel => ?_⟩
          obtain ⟨fuel, rfl⟩ : ∃ f, fuel = f + 1 + 1 := ⟨fuel - 2, by omega⟩
          have hclean' : s'.ni.blockStateChanged = 0 ∧ s'.ni.blockMappingChanged = 0 := by
            unfold Instance.Dirty at hdirty'
            omega
          rw [updateInfoTableFrom, if_neg hclean, honce]
          show updateInfoTableFrom g env (fuel + 1) s' = _
          rw [updateInfoTableFrom, if_pos hclean']
    · refine ⟨0, (true, s), .done hdirty, by omega, fun fuel hfuel => ?_⟩
      obtain ⟨fuel, rfl⟩ : ∃ f, fuel = f + 1 := ⟨fuel - 1, by omega⟩
      have hclean : s.ni.blockStateChanged = 0 ∧ s.ni.blockMappingChanged = 0 := by
        unfold Instance.Dirty at hdirty
        omega
      rw [updateInfoTableFrom, if_pos hclean]

/-- **`nmbm_update_info_table` ends**, whatever the instance and the outcomes of the chip's
    operations: the loops of each of its passes end, and there are at most as many passes as
    blocks not recorded bad, and one. The blocks are those of the chip, or those below the
    mapped ones should an instance have these end beyond the chip. Where it does not, the
    result is the one that `updateInfoTable` computes with its bounded number of passes. -/
theorem updateInfoTable_ends (g : Geometry) (env : Env) (s : State) :
    ∃ p r, Updates g env s p r ∧
      p ≤ s.ni.notBad (max g.totalBlks s.ni.mappingBlocksTopBa) + 1 ∧
      (s.ni.mappingBlocksTopBa ≤ g.totalBlks → updateInfoTable g env s = r) := by
  unfold Updates updateInfoTable
  by_cases hprotected : s.ni.isProtected
  · exact ⟨0, (true, s), by simp [hprotected], by omega, fun _ => by simp [hprotected]⟩
  · simp only [if_neg hprotected]
    obtain ⟨p, r, hpasses, hp, hfrom⟩ :=
      passes_exist (n := max g.totalBlks s.ni.mappingBlocksTopBa) _ s le_rfl (le_max_right _ _)
    refine ⟨p, r, hpasses, hp, fun htop => hfrom _ ?_⟩
    have hle : s.ni.notBad (max g.totalBlks s.ni.mappingBlocksTopBa) ≤ g.totalBlks := by
      rw [max_eq_left htop]
      exact (length_filter_le _ _).trans (length_range).le
    omega

end LibWrt.Nmbm
