/-
LibWrt.Nmbm.Effects — what writing to a range of blocks can do.

`Worn lo hi` is all that `nmbm_erase_range` and `nmbm_write_mgmt_range` do to
a state: operations on the blocks from `lo` to `hi`, and good blocks of that
range found bad. Everything else of the instance is as it was. The functions
that write tables are chains of such steps and of changes to the places of
the tables, so a fact about all of them needs this relation only.

`TableAt` says that data lies on the chip the way `nmbm_write_mgmt_range`
leaves it: its pieces on increasing blocks of a range.
-/
import LibWrt.Nmbm.Attach

namespace LibWrt.Nmbm

open List
open LibWrt.Flash LibWrt.Bytes

variable {g : Geometry} {env : Env}

/-! ## One block of the chip -/

/-- An operation on block `ba`. -/
abbrev On (ba : Nat) (op : Op Page) : Prop := op.block = ba

theorem writePhysPage_ran (ba pg : Nat) (data : Bytes) (tries : Nat) (d : Device Page) :
    Ran (fun op => ∃ left, op = .program ba pg left) d (writePhysPage env ba pg data tries d).2 := by
  induction tries generalizing d with
  | zero => exact .refl _ d
  | succ tries ih =>
    have hrun : Ran (fun op => ∃ left, op = .program ba pg left) d
        (d.run (.program ba pg (env.program d.log.length ba pg data).2)) := .run ⟨_, rfl⟩
    simp only [writePhysPage]
    split
    · exact hrun.trans (ih _)
    · exact hrun

theorem erasePhysBlock_ran (ba tries : Nat) (d : Device Page) :
    Ran (fun op => ∃ left, op = .erase ba left) d (erasePhysBlock env ba tries d).2 := by
  induction tries generalizing d with
  | zero => exact .refl _ d
  | succ tries ih =>
    have hrun : Ran (fun op => ∃ left, op = .erase ba left) d
        (d.run (.erase ba (env.erase d.log.length ba).2)) := .run ⟨_, rfl⟩
    simp only [erasePhysBlock]
    split
    · exact hrun.trans (ih _)
    · exact hrun

theorem markPhysBadBlock_ran (ba : Nat) (d : Device Page) :
    Ran (On ba) d (markPhysBadBlock env ba d) := .run rfl

theorem eraseBlockAndCheck_erases (ecc : Bool) (ba : Nat) (d : Device Page) :
    Ran (fun op => ∃ left, op = .erase ba left) d (eraseBlockAndCheck g env ecc ba d).2 := by
  have h : Ran (fun op => ∃ left, op = .erase ba left) d (erasePhysBlock env ba tryCount d).2 :=
    erasePhysBlock_ran ba tryCount d
  unfold eraseBlockAndCheck
  dsimp only
  split
  · exact h
  · split <;> exact h

theorem eraseBlockAndCheck_ran (ecc : Bool) (ba : Nat) (d : Device Page) :
    Ran (On ba) d (eraseBlockAndCheck g env ecc ba d).2 :=
  (eraseBlockAndCheck_erases ecc ba d).mono fun _ ⟨_, hop⟩ => by subst hop; rfl

/-- The pages below the one written to stay. -/
theorem writeVerifyPages_ran (ba pg : Nat) (chunks : List Bytes) (d : Device Page) :
    Ran (fun op => ∃ p left, pg ≤ p ∧ op = .program ba p left) d
      (writeVerifyPages g env ba pg chunks d).2 := by
  induction chunks generalizing pg d with
  | nil => exact .refl _ d
  | cons chunk chunks ih =>
    have hpage : Ran (fun op => ∃ p left, pg ≤ p ∧ op = .program ba p left) d
        (writePhysPage env ba pg (chunk ++ replicate (g.pgSize - chunk.length) 0xff)
          tryCount d).2 :=
      (writePhysPage_ran ba pg _ _ d).mono fun op ⟨left, hop⟩ => ⟨pg, left, le_rfl, hop⟩
    simp only [writeVerifyPages]
    split
    · exact hpage
    · split
      · exact hpage
      · split
        · exact hpage
        · exact hpage.trans ((ih (pg + 1) _).mono fun op ⟨p, left, hp, hop⟩ =>
            ⟨p, left, by omega, hop⟩)

theorem writeVerifyData_marks (ba : Nat) (data : Bytes) (d : Device Page) :
    (writeVerifyData g env ba data d).2.chip.marked = d.chip.marked :=
  (writeVerifyPages_ran ba 0 _ d).marks fun op ⟨p, left, _, hop⟩ b took => by simp [hop]

theorem writeVerifyData_ran (ba : Nat) (data : Bytes) (d : Device Page) :
    Ran (On ba) d (writeVerifyData g env ba data d).2 :=
  (writeVerifyPages_ran ba 0 _ d).mono fun _ ⟨_, _, _, hop⟩ => by subst hop; rfl

/-! ## Data on a block -/

/-- Block `ba` reads as `data`. -/
def Reads (g : Geometry) (chip : Chip Page) (ba : Nat) (data : Bytes) : Prop :=
  readData g chip ba data.length = .ok data

variable {ba : Nat} {data : Bytes} {d d' : Device Page}

theorem readPages_congr {chip chip' : Chip Page} (h : chip'.page ba = chip.page ba)
    (fuel pg size : Nat) :
    readPages g chip' ba fuel pg size = readPages g chip ba fuel pg size := by
  induction fuel generalizing pg size with
  | zero => rfl
  | succ fuel ih => simp only [readPages, readPhysPage, h, ih]

theorem Reads.congr {chip chip' : Chip Page} (h : chip'.page ba = chip.page ba)
    (hr : Reads g chip ba data) : Reads g chip' ba data := by
  unfold Reads readData at *
  rw [readPages_congr h, hr]

theorem page_of_ran {pg : Nat}
    (h : Ran (fun op => ∃ p left, pg + 1 ≤ p ∧ op = .program ba p left) d d') :
    d'.chip.page ba pg = d.chip.page ba pg := by
  obtain ⟨ops, -, hchip, hP⟩ := h
  rw [hchip]
  clear hchip
  generalize d.chip = chip
  induction ops generalizing chip with
  | nil => rfl
  | cons op ops ih =>
    obtain ⟨p, left, hp, rfl⟩ := hP op mem_cons_self
    rw [replay_cons, ih (fun o ho => hP o (mem_cons_of_mem _ ho))]
    have hne : pg ≠ p := by omega
    simp [Op.apply, hne]

/-- What was written and verified is read back. -/
theorem readPages_of_written {pg fuel fuel' : Nat} (hpg : 0 < g.pgSize) (hf : data.length ≤ fuel)
    (hf' : data.length ≤ fuel')
    (h : writeVerifyPages g env ba pg (piecesFrom g.pgSize fuel data) d = (true, d')) :
    readPages g d'.chip ba fuel' pg data.length = .ok data := by
  induction fuel generalizing pg data d fuel' with
  | zero =>
    have hnil : data = [] := length_eq_zero_iff.mp (by omega)
    subst hnil
    cases fuel' <;> rfl
  | succ fuel ih =>
    cases data with
    | nil => cases fuel' <;> rfl
    | cons b rest =>
      cases fuel' with
      | zero => simp at hf'
      | succ fuel' =>
        generalize hdata : b :: rest = data at hf hf' h ⊢
        have hne : data.isEmpty = false := by subst hdata; rfl
        have hpos : data.length ≠ 0 := by subst hdata; simp
        simp only [piecesFrom, hne, Bool.false_eq_true, if_false, writeVerifyPages] at h
        split at h
        · simp at h
        · split at h
          · simp at h
          · rename_i bytes hbytes
            split at h
            · simp at h
            · rename_i hsame
              have hsame' : bytes.take (data.take g.pgSize).length = data.take g.pgSize := by
                simpa using hsame
              -- the pages that follow leave this one alone
              have hpage : readPhysPage d'.chip ba pg = .ok bytes := by
                have hran := congrArg Prod.snd h ▸ writeVerifyPages_ran ba (pg + 1) _ _
                unfold readPhysPage at hbytes ⊢
                rw [page_of_ran hran]
                exact hbytes
              have hlen : (data.drop g.pgSize).length ≤ fuel := by
                rw [length_drop]; omega
              have hlen' : (data.drop g.pgSize).length ≤ fuel' := by
                rw [length_drop]; omega
              have hrest := ih hlen hlen' h
              have hmin : data.length - min g.pgSize data.length = (data.drop g.pgSize).length := by
                rw [length_drop]; omega
              simp only [readPages, hpos, if_false, hpage, hmin, hrest, bind, Except.bind]
              rw [length_take] at hsame'
              rw [hsame', take_append_drop]

theorem reads_of_written (hpg : 0 < g.pgSize) (h : writeVerifyData g env ba data d = (true, d')) :
    Reads g d'.chip ba data :=
  readPages_of_written hpg le_rfl le_rfl h

/-! ## Wear on a range of blocks -/

/-- `s'` is `s` after operations on the blocks from `lo` to `hi` that may have found good
    ones of them bad. -/
structure Worn (lo hi : Nat) (s s' : State) : Prop where
  ran : Ran (fun op => lo ≤ op.block ∧ op.block < hi) s.nand s'.nand
  frame : s'.ni = { s.ni with
    blockState := s'.ni.blockState, blockStateChanged := s'.ni.blockStateChanged }
  states : ∀ ba, s'.ni.getBlockState ba = s.ni.getBlockState ba ∨
    (lo ≤ ba ∧ ba < hi ∧ s.ni.good ba = true ∧ s'.ni.getBlockState ba = blockStBad)
  count : s'.ni.blockState.length = s.ni.blockState.length
  changed : s'.ni = s.ni ∨ s.ni.blockStateChanged < s'.ni.blockStateChanged

section Worn

variable {lo hi lo' hi' ba : Nat} {s s' s'' : State}

theorem Worn.refl (lo hi : Nat) (s : State) : Worn lo hi s s :=
  ⟨.refl _ _, rfl, fun _ => .inl rfl, rfl, .inl rfl⟩

theorem good_iff {ni : Instance} : ni.good ba = true ↔ ni.getBlockState ba = blockStGood := by
  simp [Instance.good]

theorem Worn.good (h : Worn lo hi s s') (hg : s'.ni.good ba = true) : s.ni.good ba = true := by
  rcases h.states ba with heq | ⟨-, -, -, hbad⟩
  · rw [good_iff] at hg ⊢
    rw [← heq, hg]
  · rw [good_iff, hbad] at hg
    exact absurd hg (by decide)

theorem Worn.trans (h : Worn lo hi s s') (h' : Worn lo hi s' s'') : Worn lo hi s s'' where
  ran := h.ran.trans h'.ran
  frame := by
    conv_lhs => rw [h'.frame, h.frame]
  states := by
    intro ba
    rcases h'.states ba with heq' | ⟨hlo, hhi, hg, hbad⟩
    · rcases h.states ba with heq | ⟨hlo, hhi, hg, hbad⟩
      · exact .inl (heq'.trans heq)
      · exact .inr ⟨hlo, hhi, hg, heq'.trans hbad⟩
    · exact .inr ⟨hlo, hhi, h.good hg, hbad⟩
  count := h'.count.trans h.count
  changed := by
    rcases h.changed with heq | hlt
    · rw [← heq]
      exact h'.changed
    · rcases h'.changed with heq' | hlt'
      · rw [heq']
        exact .inr hlt
      · exact .inr (hlt.trans hlt')

theorem Worn.mono (h : Worn lo hi s s') (hlo : lo' ≤ lo) (hhi : hi ≤ hi') : Worn lo' hi' s s' where
  ran := h.ran.mono fun op hop => ⟨hlo.trans hop.1, lt_of_lt_of_le hop.2 hhi⟩
  frame := h.frame
  states := by
    intro ba
    rcases h.states ba with heq | ⟨h₁, h₂, h₃⟩
    · exact .inl heq
    · exact .inr ⟨hlo.trans h₁, lt_of_lt_of_le h₂ hhi, h₃⟩
  count := h.count
  changed := h.changed

/-- Operations on one block of the range. -/
theorem Worn.on {nand : Device Page} (hran : Ran (On ba) s.nand nand) (hlo : lo ≤ ba)
    (hhi : ba < hi) : Worn lo hi s { s with nand := nand } where
  ran := hran.mono fun op hop => by rw [hop]; exact ⟨hlo, hhi⟩
  frame := rfl
  states := fun _ => .inl rfl
  count := rfl
  changed := .inl rfl

theorem getBlockState_setBad {ba' : Nat} (hlen : ba / 16 < s.ni.blockState.length) :
    (s.setBad ba).ni.getBlockState ba' =
      if ba' = ba then blockStBad else s.ni.getBlockState ba' := by
  simp only [State.setBad, Instance.setBlockState, Instance.getBlockState]
  split
  · rename_i heq
    subst heq
    rw [Packed.get_set_self (by omega) _ _ hlen]
    rfl
  · rename_i hne
    exact Packed.get_set_ne (by omega) _ _ (Ne.symm hne)

/-- A block recorded good is in the table. -/
theorem lt_of_good {ni : Instance} (hg : ni.good ba = true) : ba / 16 < ni.blockState.length := by
  rw [good_iff] at hg
  by_contra hge
  unfold Instance.getBlockState Packed.get at hg
  rw [getD_eq_getElem?_getD, getElem?_eq_none (by omega)] at hg
  simp [blockStGood] at hg

/-- A good block of the range is found bad. -/
theorem Worn.setBad (hlo : lo ≤ ba) (hhi : ba < hi) (hg : s.ni.good ba = true) :
    Worn lo hi s (s.setBad ba) where
  ran := .refl _ _
  frame := rfl
  states := by
    intro ba'
    rw [getBlockState_setBad (lt_of_good hg)]
    split
    · rename_i heq
      subst heq
      exact .inr ⟨hlo, hhi, hg, rfl⟩
    · exact .inl rfl
  count := by simp [State.setBad, Instance.setBlockState]
  changed := by
    rw [good_iff] at hg
    right
    simp only [State.setBad, Instance.setBlockState, hg]
    rw [if_pos (by decide)]
    omega

end Worn

/-! ## Erasing and writing a range -/

section Ranges

variable {s : State}

variable {lo hi ba : Nat}

/-- A block that failed is marked, on the chip and in the table. -/
theorem Worn.fail {nand : Device Page} (hran : Ran (On ba) s.nand nand) (hlo : lo ≤ ba)
    (hhi : ba < hi) (hg : s.ni.good ba = true) :
    Worn lo hi s ({ s with nand := markPhysBadBlock env ba nand }.setBad ba) :=
  (Worn.on (hran.trans (markPhysBadBlock_ran ba nand)) hlo hhi).trans (.setBad hlo hhi hg)

theorem eraseRangeFrom_worn (n ba : Nat) (s : State) :
    Worn ba (ba + n) s (eraseRangeFrom g env n ba s) := by
  induction n generalizing ba s with
  | zero => exact .refl _ _ s
  | succ n ih =>
    have hrest : ∀ s, Worn ba (ba + (n + 1)) s (eraseRangeFrom g env n (ba + 1) s) :=
      fun s => (ih (ba + 1) s).mono (by omega) (by omega)
    unfold eraseRangeFrom
    split
    · exact hrest s
    · rename_i hgood
      have hg : s.ni.good ba = true := by simpa using hgood
      split
      · exact (Worn.setBad le_rfl (by omega) hg).trans (hrest _)
      · have hran : Ran (On ba) s.nand
            (eraseBlockAndCheck g env s.ni.emptyPageEccOk ba s.nand).2 :=
          eraseBlockAndCheck_ran _ ba s.nand
        dsimp only
        split
        · exact (Worn.on hran le_rfl (by omega)).trans (hrest _)
        · exact (Worn.fail hran le_rfl (by omega) hg).trans (hrest _)

theorem eraseRange_worn (ba limit : Nat) (s : State) :
    Worn ba limit s (eraseRange g env ba limit s) := by
  unfold eraseRange
  rcases Nat.le_total ba limit with hle | hge
  · have hworn : Worn ba (ba + (limit - ba)) s (eraseRangeFrom g env (limit - ba) ba s) :=
      eraseRangeFrom_worn (limit - ba) ba s
    rwa [Nat.add_sub_cancel' hle] at hworn
  · rw [Nat.sub_eq_zero_of_le hge]
    exact .refl _ _ s

theorem writeMgmtBlock_worn (ba : Nat) (chunk : Bytes) (s : State) :
    Worn ba (ba + 1) s (writeMgmtBlock g env ba chunk s).2 := by
  unfold writeMgmtBlock
  split
  · exact .refl _ _ s
  · rename_i hgood
    have hg : s.ni.good ba = true := by simpa using hgood
    split
    · exact .setBad le_rfl (by omega) hg
    · have herase : Ran (On ba) s.nand
          (eraseBlockAndCheck g env s.ni.emptyPageEccOk ba s.nand).2 :=
        eraseBlockAndCheck_ran _ ba s.nand
      dsimp only
      split
      · have hran : Ran (On ba) s.nand (writeVerifyData g env ba chunk
            (eraseBlockAndCheck g env s.ni.emptyPageEccOk ba s.nand).2).2 :=
          herase.trans (writeVerifyData_ran ba chunk _)
        split
        · exact .on hran le_rfl (by omega)
        · exact .fail hran le_rfl (by omega) hg
      · exact .fail herase le_rfl (by omega) hg

/-- A block takes a chunk only if it is good and not marked, and then it reads as the chunk. -/
theorem writeMgmtBlock_reads {chunk : Bytes} {s s' : State} (hpg : 0 < g.pgSize)
    (h : writeMgmtBlock g env ba chunk s = (true, s')) :
    Reads g s'.nand.chip ba chunk ∧ s.ni.good ba = true ∧ s'.nand.chip.marked ba = false ∧
      s'.ni = s.ni := by
  unfold writeMgmtBlock at h
  split at h
  · simp at h
  · rename_i hgood
    split at h
    · simp at h
    · rename_i hmark
      dsimp only at h
      split at h
      · split at h
        · rename_i hok
          obtain rfl := (Prod.mk.inj h).2
          refine ⟨reads_of_written hpg (Prod.ext hok rfl), by simpa using hgood, ?_, rfl⟩
          rw [writeVerifyData_marks, (eraseBlockAndCheck_erases _ ba s.nand).marks
            fun op ⟨left, hop⟩ b took => by simp [hop]]
          simpa [checkBadPhysBlock] using hmark
        · simp at h
      · simp at h

/-- The pieces of `data` lie on increasing blocks from `lo` to `hi`. -/
def ChunksAt (g : Geometry) (chip : Chip Page) : Nat → Nat → List Bytes → Prop
  | lo, hi, [] => lo ≤ hi
  | lo, hi, chunk :: chunks => ∃ ba, lo ≤ ba ∧ Reads g chip ba chunk ∧
      ChunksAt g chip (ba + 1) hi chunks

theorem ChunksAt.le {chip : Chip Page} {chunks : List Bytes} (h : ChunksAt g chip lo hi chunks) :
    lo + chunks.length ≤ hi := by
  induction chunks generalizing lo with
  | nil => exact h
  | cons chunk chunks ih =>
    obtain ⟨ba, hba, -, hrest⟩ := h
    have := ih hrest
    simp only [length_cons]
    omega

theorem ChunksAt.mono {chip : Chip Page} {lo' hi' : Nat} {chunks : List Bytes}
    (h : ChunksAt g chip lo hi chunks) (hlo : lo' ≤ lo) (hhi : hi ≤ hi') :
    ChunksAt g chip lo' hi' chunks := by
  induction chunks generalizing lo lo' with
  | nil => exact (hlo.trans h).trans hhi
  | cons chunk chunks ih =>
    obtain ⟨ba, hba, hr, hrest⟩ := h
    exact ⟨ba, hlo.trans hba, hr, ih hrest le_rfl⟩

variable (env) in
/-- What a range write does, and what it leaves when it succeeds. -/
theorem writeMgmtRangeFrom_spec (hpg : 0 < g.pgSize) (start : Option Nat) (n ba : Nat)
    (chunks : List Bytes) (s : State) :
    Worn ba (ba + n) s (writeMgmtRangeFrom g env start n ba chunks s).2 ∧
      ∀ st en, (writeMgmtRangeFrom g env start n ba chunks s).1 = some (st, en) →
        en ≤ ba + n ∧ ChunksAt g (writeMgmtRangeFrom g env start n ba chunks s).2.nand.chip
          (if start.isNone ∧ chunks ≠ [] then st else ba) en chunks ∧
        (∀ b, start = some b → st = b) ∧ (start = none → chunks ≠ [] → ba ≤ st) := by
  induction n generalizing start ba chunks s with
  | zero =>
    cases chunks with
    | nil =>
      refine ⟨.refl _ _ s, fun st en h => ?_⟩
      obtain ⟨rfl, rfl⟩ : start.getD 0 = st ∧ ba = en := by
        simpa [writeMgmtRangeFrom] using h
      refine ⟨le_rfl, ?_, fun b hb => by simp [hb], fun _ hc => absurd rfl hc⟩
      simp [ChunksAt]
    | cons chunk chunks => exact ⟨.refl _ _ s, fun st en h => by simp [writeMgmtRangeFrom] at h⟩
  | succ n ih =>
    cases chunks with
    | nil =>
      refine ⟨.refl _ _ s, fun st en h => ?_⟩
      obtain ⟨rfl, rfl⟩ : start.getD 0 = st ∧ ba = en := by
        simpa [writeMgmtRangeFrom] using h
      refine ⟨by omega, ?_, fun b hb => by simp [hb], fun _ hc => absurd rfl hc⟩
      simp [ChunksAt]
    | cons chunk chunks =>
      have hblock : Worn ba (ba + (n + 1)) s (writeMgmtBlock g env ba chunk s).2 :=
        (writeMgmtBlock_worn ba chunk s).mono le_rfl (by omega)
      simp only [writeMgmtRangeFrom]
      rcases hw : writeMgmtBlock g env ba chunk s with ⟨ok, s₁⟩
      rw [hw] at hblock
      cases ok with
      | true =>
        obtain ⟨hworn, hrest⟩ := ih (some (start.getD ba)) (ba + 1) chunks s₁
        refine ⟨hblock.trans (hworn.mono (by omega) (by omega)), fun st en h => ?_⟩
        obtain ⟨hen, hat, hst, -⟩ := hrest st en h
        obtain rfl := hst _ rfl
        obtain ⟨hreads, -⟩ := writeMgmtBlock_reads hpg hw
        -- the blocks that follow leave this one alone
        have hkept : Reads g (writeMgmtRangeFrom g env (some (start.getD ba)) n (ba + 1) chunks
            s₁).2.nand.chip ba chunk := by
          refine hreads.congr (hworn.ran.page fun op hop => ?_)
          have := hop.1
          omega
        simp only [Option.isNone_some, Bool.false_eq_true, false_and, if_false] at hat
        refine ⟨by omega, ⟨ba, ?_, hkept, hat⟩, fun b hb => by simp [hb], fun hn _ => by simp [hn]⟩
        cases start <;> simp
      | false =>
        obtain ⟨hworn, hrest⟩ := ih start (ba + 1) (chunk :: chunks) s₁
        refine ⟨hblock.trans (hworn.mono (by omega) (by omega)), fun st en h => ?_⟩
        obtain ⟨hen, hat, hst, hge⟩ := hrest st en h
        refine ⟨by omega, ?_, hst, fun hn hc => by have := hge hn hc; omega⟩
        split at hat
        · rename_i hcond
          rw [if_pos hcond]
          exact hat
        · rename_i hcond
          rw [if_neg hcond]
          exact hat.mono (by omega) le_rfl

/-- The data lies on the chip from `lo` to `hi`. -/
def TableAt (g : Geometry) (chip : Chip Page) (lo hi : Nat) (data : Bytes) : Prop :=
  ChunksAt g chip lo hi (pieces g.blkSize data)

theorem Geometry.pgSize_pos (g : Geometry) : 0 < g.pgSize := Nat.two_pow_pos _
theorem Geometry.blkSize_pos (g : Geometry) : 0 < g.blkSize := Nat.two_pow_pos _

theorem pieces_ne_nil {n : Nat} {data : Bytes} (h : data ≠ []) : pieces n data ≠ [] := by
  cases data with
  | nil => exact absurd rfl h
  | cons b rest => simp [pieces, piecesFrom]

theorem writeInfoTable_worn (ba limit : Nat) (s : State) :
    Worn ba limit s (writeInfoTable g env ba limit s).2 := by
  have h : Worn ba (ba + (limit - ba)) s (writeMgmtRangeFrom g env none (limit - ba) ba
      (pieces g.blkSize s.ni.infoTableCache) s).2 :=
    (writeMgmtRangeFrom_spec env g.pgSize_pos none _ ba _ s).1
  unfold writeInfoTable writeMgmtRange
  rcases Nat.le_total ba limit with hle | hge
  · rwa [Nat.add_sub_cancel' hle] at h
  · rw [Nat.sub_eq_zero_of_le hge] at h ⊢
    cases pieces g.blkSize s.ni.infoTableCache <;> exact .refl _ _ s

/-- A table that is written lies in the range given for it. -/
theorem writeInfoTable_at {limit st en : Nat} {s s' : State} (hne : s.ni.infoTableCache ≠ [])
    (h : writeInfoTable g env ba limit s = (some (st, en), s')) :
    ba ≤ st ∧ en ≤ limit ∧ TableAt g s'.nand.chip st en s.ni.infoTableCache := by
  have h' : writeMgmtRangeFrom g env none (limit - ba) ba (pieces g.blkSize s.ni.infoTableCache) s =
      (some (st, en), s') := h
  obtain ⟨hen, hat, -, hge⟩ :=
    (writeMgmtRangeFrom_spec env g.pgSize_pos none (limit - ba) ba _ s).2 st en (congrArg Prod.fst h')
  rw [h'] at hat
  have hpieces : pieces g.blkSize s.ni.infoTableCache ≠ [] := pieces_ne_nil hne
  rw [if_pos ⟨rfl, hpieces⟩] at hat
  have hst := hge rfl hpieces
  have hlen := hat.le
  have hpos : 0 < (pieces g.blkSize s.ni.infoTableCache).length := length_pos_iff.mpr hpieces
  exact ⟨hst, by omega, hat⟩

end Ranges

end LibWrt.Nmbm
