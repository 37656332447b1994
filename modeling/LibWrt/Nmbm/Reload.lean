/-
LibWrt.Nmbm.Reload — the loader finds the table that was written.

`nmbm_write_mgmt_range` skips the blocks it cannot write and goes on behind
them. `nmbm_try_load_info_table` skips bad blocks as well, but it gives up
after as many blocks as a table without any has. `SpanAt` is what it can read,
`Loads` what it accepts; a search ends at the first block that `Loads`
(`searchInfoTableFrom_of_first`, `first_of_searchInfoTableFrom`), and the table
written is found exactly if it is such a block (`reloads_iff`).
-/
import LibWrt.Nmbm.Image
import LibWrt.Nmbm.Effects

namespace LibWrt.Nmbm

open Nat
open List hiding any_eq_true mem_map
open Option hiding any any_eq_true map mem_map
open LibWrt.Flash LibWrt.Bytes

variable {g : Geometry} {env : Env}

/-! ## Reading -/

variable {chip : Chip Page} {ba fuel size n b st en : Nat} {data : Bytes} {l l' : Instance}
  {s s' : State} {chunks : List Bytes}

/-- Where a read succeeds a shorter one does. -/
theorem readPages_shorter {fuel' pg size' : Nat} (hf : size ≤ fuel) (hle : size' ≤ size)
    (h : readPages g chip ba fuel pg size = .ok data) :
    ∃ data', readPages g chip ba fuel' pg size' = .ok data' := by
  induction fuel generalizing pg size size' data fuel' with
  | zero =>
    obtain rfl : size' = 0 := by omega
    cases fuel' <;> exact ⟨[], rfl⟩
  | succ fuel ih =>
    cases fuel' with
    | zero => exact ⟨[], rfl⟩
    | succ fuel' =>
      simp only [readPages]
      by_cases hz : size' = 0
      · exact ⟨[], by rw [if_pos hz]⟩
      · have hsize : size ≠ 0 := by omega
        have hpg : 0 < g.pgSize := g.pgSize_pos
        simp only [readPages, hsize, if_false] at h
        cases hpage : readPhysPage chip ba pg with
        | error e => simp [hpage, bind, Except.bind] at h
        | ok bytes =>
          cases hrest : readPages g chip ba fuel (pg + 1) (size - min g.pgSize size) with
          | error e => simp [hpage, hrest, bind, Except.bind] at h
          | ok rest =>
            obtain ⟨rest', hrest'⟩ : ∃ rest', readPages g chip ba fuel' (pg + 1)
              (size' - min g.pgSize size') = .ok rest' := ih (by omega) (by omega) hrest
            exact ⟨_, by simp [hz, hrest', bind, Except.bind]; rfl⟩

theorem length_readPages {pg : Nat} (h : readPages g chip ba fuel pg size = .ok data) :
    data.length ≤ size := by
  induction fuel generalizing pg size data with
  | zero =>
    obtain rfl : [] = data := by simpa [readPages] using h
    simp
  | succ fuel ih =>
    simp only [readPages] at h
    split at h
    · obtain rfl : [] = data := by simpa using h
      simp
    · cases hpage : readPhysPage chip ba pg with
      | error e => simp [hpage, bind, Except.bind] at h
      | ok bytes =>
        cases hrest : readPages g chip ba fuel (pg + 1) (size - min g.pgSize size) with
        | error e => simp [hpage, hrest, bind, Except.bind] at h
        | ok rest =>
          have hlen := ih hrest
          obtain rfl : bytes.take (min g.pgSize size) ++ rest = data := by
            simpa [hpage, hrest, bind, Except.bind] using h
          simp only [length_append, length_take]
          omega

/-- The `n` blocks from `ba` on can be used, and `size` bytes read from them one after the
    other are `data`. -/
def SpanAt (g : Geometry) (l : Instance) (chip : Chip Page) : Nat → Nat → Nat → Bytes → Prop
  | 0, _, size, data => size = 0 ∧ data = []
  | n + 1, ba, size, data => l.good ba = true ∧ chip.marked ba = false ∧
      ∃ chunk rest, readData g chip ba (min g.blkSize size) = .ok chunk ∧ data = chunk ++ rest ∧
        SpanAt g l chip n (ba + 1) (size - min g.blkSize size) rest

theorem SpanAt.good (h : SpanAt g l chip n ba size data) (hlo : ba ≤ b) (hhi : b < ba + n) :
    l.good b = true := by
  induction n generalizing ba size data with
  | zero => omega
  | succ n ih =>
    obtain ⟨hgood, -, -, rest, -, -, hrest⟩ := h
    rcases Nat.eq_or_lt_of_le hlo with rfl | hlt
    · exact hgood
    · exact ih hrest hlt (by omega)

theorem SpanAt.congr (h : SpanAt g l chip n ba size data)
    (hl : ∀ b, ba ≤ b → b < ba + n → l'.good b = true) : SpanAt g l' chip n ba size data := by
  induction n generalizing ba size data with
  | zero => exact h
  | succ n ih =>
    obtain ⟨-, hmark, chunk, rest, hread, hdata, hrest⟩ := h
    exact ⟨hl ba le_rfl (by omega), hmark, chunk, rest, hread, hdata,
      ih hrest fun b hlo hhi => hl b (by omega) (by omega)⟩

/-- A block that reads at any length up to a block. -/
def Sturdy (g : Geometry) (chip : Chip Page) (ba : Nat) : Prop :=
  chip.marked ba = false ∧ ∀ size, size ≤ g.blkSize → ∃ data, readData g chip ba size = .ok data

theorem SpanAt.sturdy (h : SpanAt g l chip n ba size data)
    (hsize : n * g.blkSize < size + g.blkSize) (hlo : ba ≤ b) (hhi : b + 1 < ba + n) :
    Sturdy g chip b := by
  induction n generalizing ba size data with
  | zero => omega
  | succ n ih =>
    obtain ⟨-, hmark, chunk, rest, hread, -, hrest⟩ := h
    have hn : n * g.blkSize < size := by
      rw [Nat.add_one_mul] at hsize
      omega
    have hone : g.blkSize ≤ n * g.blkSize := by
      have : 1 * g.blkSize ≤ n * g.blkSize := Nat.mul_le_mul_right _ (by omega)
      omega
    rcases Nat.eq_or_lt_of_le hlo with rfl | hlt
    · rw [Nat.min_eq_left (by omega)] at hread
      exact ⟨hmark, fun size' hle => readPages_shorter le_rfl hle hread⟩
    · exact ih hrest (by omega) hlt (by omega)

/-! ## One attempt -/

/-- What an attempt at the `n` blocks from `ba` on leaves behind: blocks it cannot read are
    bad. -/
structure Probed (g : Geometry) (n ba : Nat) (s s' : State) : Prop where
  nand : s'.nand = s.nand
  frame : s'.ni = { s.ni with
    infoTableCache := s'.ni.infoTableCache
    blockState := s'.ni.blockState
    blockStateChanged := s'.ni.blockStateChanged }
  good : ∀ b, s'.ni.good b = true → s.ni.good b = true
  kept : ∀ b, s.ni.good b = true → ba + n ≤ b ∨ b < ba ∨ Sturdy g s.nand.chip b →
    s'.ni.good b = true

theorem Probed.refl (n ba : Nat) (s : State) : Probed g n ba s s :=
  ⟨rfl, rfl, fun _ h => h, fun _ h _ => h⟩

theorem Probed.trans {n' ba' : Nat} {s'' : State} (h : Probed g n ba s s')
    (h' : Probed g n' ba' s' s'') (hlo : ba ≤ ba') (hhi : ba' + n' ≤ ba + n) :
    Probed g n ba s s'' where
  nand := h'.nand.trans h.nand
  frame := by
    conv_lhs => rw [h'.frame, h.frame]
  good := fun b hb => h.good b (h'.good b hb)
  kept := by
    intro b hb hout
    apply h'.kept b (h.kept b hb ‹_›)
    rw [h.nand]
    rcases hout with hout | hout | hsturdy
    · exact .inl (by omega)
    · exact .inr (.inl (by omega))
    · exact .inr (.inr hsturdy)

/-- A block that cannot be read is found bad. -/
theorem Probed.setBad (hg : s.ni.good ba = true) (hbad : ¬ Sturdy g s.nand.chip ba) :
    Probed g (n + 1) ba s (s.setBad ba) where
  nand := rfl
  frame := rfl
  good := by
    intro b hb
    rw [good_iff, getBlockState_setBad (lt_of_good hg)] at hb
    split at hb
    · exact absurd hb (by decide)
    · rwa [good_iff]
  kept := by
    intro b hb hout
    have hne : b ≠ ba := by
      rintro rfl
      rcases hout with hout | hout | hsturdy
      · omega
      · omega
      · exact hbad hsturdy
    rw [good_iff, getBlockState_setBad (lt_of_good hg), if_neg hne]
    exact good_iff.mp hb

@[simp] theorem readTableFrom_end (n ba : Nat) (start : Option Nat) (data : Bytes) (s : State) :
    readTableFrom g n ba 0 start data s = (some (data, start.getD 0, ba), s) := by
  unfold readTableFrom
  rw [if_pos rfl]

theorem readTableFrom_out (h : size ≠ 0) (ba : Nat) (start : Option Nat) (data : Bytes) (s : State) :
    readTableFrom g 0 ba size start data s = (none, s) := by
  unfold readTableFrom
  rw [if_neg h]

theorem readTableFrom_succ (h : size ≠ 0) (n ba : Nat) (start : Option Nat) (data : Bytes)
    (s : State) : readTableFrom g (n + 1) ba size start data s =
      if !s.ni.good ba then readTableFrom g n (ba + 1) size start data s
      else if checkBadPhysBlock s.nand.chip ba then
        readTableFrom g n (ba + 1) size start data (s.setBad ba)
      else
        match readData g s.nand.chip ba (min g.blkSize size) with
        | .error _ => readTableFrom g n (ba + 1) size start data (s.setBad ba)
        | .ok chunk =>
          if start.isNone && !checkInfoTableHeader g chunk then (none, s)
          else readTableFrom g n (ba + 1) (size - min g.blkSize size) (some (start.getD ba))
            (data ++ chunk) s := by
  conv_lhs => unfold readTableFrom
  exact if_neg h

theorem readTableFrom_probed (n ba size : Nat) (start : Option Nat) (data : Bytes) (s : State) :
    Probed g n ba s (readTableFrom g n ba size start data s).2 := by
  induction n generalizing ba size start data s with
  | zero =>
    unfold readTableFrom
    split <;> exact .refl _ _ s
  | succ n ih =>
    have hrest : ∀ {s'}, Probed g (n + 1) ba s s' → ∀ size start data,
        Probed g (n + 1) ba s (readTableFrom g n (ba + 1) size start data s').2 :=
      fun h size start data => h.trans (ih (ba + 1) size start data _) (by omega) (by omega)
    by_cases hz : size = 0
    · subst hz
      rw [readTableFrom_end]
      exact .refl _ _ s
    rw [readTableFrom_succ hz]
    split
    · exact hrest (.refl _ _ s) _ _ _
    · rename_i hgood
      have hg : s.ni.good ba = true := by simpa using hgood
      split
      · rename_i hmark
        refine hrest (.setBad hg fun hsturdy => ?_) _ _ _
        rw [checkBadPhysBlock, hsturdy.1] at hmark
        exact absurd hmark (by decide)
      · split
        · rename_i e hread
          refine hrest (.setBad hg fun hsturdy => ?_) _ _ _
          obtain ⟨data', hdata'⟩ := hsturdy.2 (min g.blkSize size) (Nat.min_le_left _ _)
          rw [hread] at hdata'
          simp at hdata'
        · split
          · exact .refl _ _ s
          · exact hrest (.refl _ _ s) _ _ _

theorem readTableFrom_none (ba : Nat) (start : Option Nat) (data : Bytes) (s : State)
    (h : n * g.blkSize < size) : (readTableFrom g n ba size start data s).1 = none := by
  induction n generalizing ba size start data s with
  | zero => rw [readTableFrom_out (by omega)]
  | succ n ih =>
    rw [Nat.add_one_mul] at h
    rw [readTableFrom_succ (by omega)]
    split
    · exact ih _ _ _ _ (by omega)
    · split
      · exact ih _ _ _ _ (by omega)
      · split
        · exact ih _ _ _ _ (by omega)
        · split
          · rfl
          · exact ih _ _ _ _ (by omega)

/-- What a span holds behind its first block is read to its end. -/
theorem readTableFrom_complete {rest : Bytes} (h : SpanAt g s.ni s.nand.chip n ba size rest)
    (hsize : n * g.blkSize < size + g.blkSize) :
    readTableFrom g n ba size (some st) data s = (some (data ++ rest, st, ba + n), s) := by
  induction n generalizing ba size rest data with
  | zero =>
    obtain ⟨rfl, rfl⟩ := h
    simp
  | succ n ih =>
    obtain ⟨hgood, hmark, chunk, rest, hread, rfl, hrest⟩ := h
    rw [Nat.add_one_mul] at hsize
    have hzero : n = 0 ∨ g.blkSize ≤ n * g.blkSize := by
      rcases Nat.eq_zero_or_pos n with h₀ | h₀
      · exact .inl h₀
      · exact .inr (Nat.le_mul_of_pos_left _ h₀)
    have hblk := g.blkSize_pos
    have hnext : n * g.blkSize < size - min g.blkSize size + g.blkSize := by
      rcases hzero with rfl | hle
      · omega
      · omega
    rw [readTableFrom_succ (by omega)]
    simp only [hgood, checkBadPhysBlock, hmark, hread, Bool.not_true, Bool.false_eq_true, if_false,
      isNone_some, Bool.false_and, getD_some]
    rw [ih hrest hnext, append_assoc, Nat.add_right_comm, Nat.add_assoc]

/-- What is read to the end behind the first block is a span. -/
theorem readTableFrom_sound {st' : Nat} {data' : Bytes} (hsize : n * g.blkSize < size + g.blkSize)
    (h : readTableFrom g n ba size (some st) data s = (some (data', st', en), s')) :
    s' = s ∧ st' = st ∧ en = ba + n ∧
      ∃ rest, data' = data ++ rest ∧ SpanAt g s.ni s.nand.chip n ba size rest := by
  induction n generalizing ba size data with
  | zero =>
    by_cases hz : size = 0
    · subst hz
      rw [readTableFrom_end] at h
      simp only [Prod.mk.injEq, some.injEq, getD_some] at h
      obtain ⟨⟨rfl, rfl, rfl⟩, rfl⟩ := h
      exact ⟨rfl, rfl, rfl, [], by simp, rfl, rfl⟩
    · rw [readTableFrom_out hz] at h
      simp at h
  | succ n ih =>
    rw [Nat.add_one_mul] at hsize
    have hnone (ba data s) : (readTableFrom g n ba size (some st) data s).1 = none :=
      readTableFrom_none ba (some st) data s (by omega)
    rw [readTableFrom_succ (by omega)] at h
    split at h
    · have := hnone (ba + 1) data s
      simp [h] at this
    · rename_i hgood
      split at h
      · have := hnone (ba + 1) data (s.setBad ba)
        simp [h] at this
      · rename_i hmark
        split at h
        · have := hnone (ba + 1) data (s.setBad ba)
          simp [h] at this
        · rename_i chunk hread
          simp only [isNone_some, Bool.false_and, Bool.false_eq_true, if_false,
            getD_some] at h
          have hone : n = 0 ∨ g.blkSize ≤ n * g.blkSize :=
            (Nat.eq_zero_or_pos n).imp_right (Nat.le_mul_of_pos_left _)
          have hblk := g.blkSize_pos
          have hnext : n * g.blkSize < size - min g.blkSize size + g.blkSize := by
            rcases hone with rfl | hone <;> omega
          obtain ⟨hs, hst, hen, rest, hdata, hrest⟩ := ih hnext h
          refine ⟨hs, hst, by omega, chunk ++ rest, by rw [hdata, append_assoc], ?_⟩
          exact ⟨by simpa using hgood, by simpa [checkBadPhysBlock] using hmark, chunk, rest, hread,
            rfl, hrest⟩

/-! ## Tables -/

abbrev Geometry.tableBlks (g : Geometry) : Nat := size2blk g g.infoTableSize

theorem tableBlks_spec (g : Geometry) : 0 < g.tableBlks ∧
    g.tableBlks * g.blkSize < g.infoTableSize + g.blkSize ∧
    g.infoTableSize ≤ g.tableBlks * g.blkSize := by
  have hblk := g.blkSize_pos
  have hl := layout_of_image g
  have hdiv : g.tableBlks = (g.infoTableSize + g.blkSize - 1) / g.blkSize := by
    unfold Geometry.tableBlks size2blk
    rw [shiftRight_eq_div_pow]
    rfl
  have hmod := div_add_mod (g.infoTableSize + g.blkSize - 1) g.blkSize
  have hlt := mod_lt (g.infoTableSize + g.blkSize - 1) hblk
  rw [← hdiv, Nat.mul_comm] at hmod
  unfold infoTableHeaderSize at hl
  refine ⟨?_, by omega, by omega⟩
  by_contra hz
  obtain hz : g.tableBlks = 0 := by omega
  rw [hz] at hmod
  omega

/-- A table with the image `data` lies on the blocks from `ba` on. -/
structure TableOf (g : Geometry) (l : Instance) (chip : Chip Page) (ba : Nat) (data : Bytes) :
    Prop where
  span : SpanAt g l chip g.tableBlks ba g.infoTableSize data
  header : ∃ chunk, readData g chip ba (min g.blkSize g.infoTableSize) = .ok chunk ∧
    checkInfoTableHeader g chunk = true
  checksum : checkHeader data g.infoTableSize = true
  tables : ∃ top, checkInfoTable g l ba (ba + g.tableBlks) data = some top

/-- The loader accepts a table at `ba`. -/
def Loads (g : Geometry) (l : Instance) (chip : Chip Page) (ba : Nat) : Prop :=
  ∃ data, TableOf g l chip ba data

/-- The check of the tables looks at the states of the blocks they lie on. -/
theorem checkInfoTable_congr {startBa endBa : Nat} (hcount : l'.dataBlockCount = l.dataBlockCount)
    (hsig : l'.signatureBa = l.signatureBa)
    (hgood : ∀ b, startBa ≤ b → b < endBa → l'.good b = l.good b) :
    checkInfoTable g l' startBa endBa data = checkInfoTable g l startBa endBa data := by
  have hmissed : ((List.range' startBa (endBa - startBa)).any fun ba =>
        l'.good ba && Packed.get (imageStates g data) ba != blockStGood) =
      (List.range' startBa (endBa - startBa)).any fun ba =>
        l.good ba && Packed.get (imageStates g data) ba != blockStGood := by
    rw [Bool.eq_iff_iff]
    simp only [List.any_eq_true, mem_range'_1]
    constructor <;>
    · rintro ⟨b, hb, hmiss⟩
      refine ⟨b, hb, ?_⟩
      simpa only [hgood b hb.1 (by omega)] using hmiss
  unfold checkInfoTable
  simp only [hcount, hsig, hmissed]

theorem TableOf.congr (h : TableOf g l chip ba data) (hcount : l'.dataBlockCount = l.dataBlockCount)
    (hsig : l'.signatureBa = l.signatureBa)
    (hgood : ∀ b, ba ≤ b → b < ba + g.tableBlks → l'.good b = true) :
    TableOf g l' chip ba data where
  span := h.span.congr hgood
  header := h.header
  checksum := h.checksum
  tables := by
    rw [checkInfoTable_congr hcount hsig fun b hlo hhi => ?_]
    · exact h.tables
    · rw [hgood b hlo hhi, h.span.good hlo hhi]

/-- An attempt further down does not change what can be loaded behind it: it has come to the
    last block of no table there. -/
theorem Probed.loads (h : Probed g g.tableBlks ba s s') (hlt : ba < b) :
    TableOf g s'.ni s'.nand.chip b data ↔ TableOf g s.ni s.nand.chip b data := by
  have hcount : s'.ni.dataBlockCount = s.ni.dataBlockCount := by rw [h.frame]
  have hsig : s'.ni.signatureBa = s.ni.signatureBa := by rw [h.frame]
  have hspec := tableBlks_spec g
  rw [h.nand]
  constructor
  · intro ht
    exact ht.congr hcount.symm hsig.symm fun x hlo hhi => h.good x (ht.span.good hlo hhi)
  · intro ht
    refine ht.congr hcount hsig fun x hlo hhi => h.kept x (ht.span.good hlo hhi) ?_
    by_cases hlast : x + 1 < b + g.tableBlks
    · exact .inr (.inr (ht.span.sturdy hspec.2.1 hlo hlast))
    · exact .inl (by omega)

/-- `tableBlks` blocks are too few for a table that does not start with the first of them. -/
theorem readTable_shape (g : Geometry) : ∃ n, g.tableBlks = n + 1 ∧
    n * g.blkSize < g.infoTableSize ∧
    n * g.blkSize < g.infoTableSize - min g.blkSize g.infoTableSize + g.blkSize := by
  obtain ⟨hpos, hlt, hle⟩ := tableBlks_spec g
  obtain ⟨n, hn⟩ := exists_eq_succ_of_ne_zero (Nat.pos_iff_ne_zero.mp hpos)
  refine ⟨n, hn, ?_⟩
  rw [hn, succ_mul] at hlt hle
  have hone : n = 0 ∨ g.blkSize ≤ n * g.blkSize :=
    (Nat.eq_zero_or_pos n).imp_right (Nat.le_mul_of_pos_left _)
  have hblk := g.blkSize_pos
  rcases hone with rfl | hone <;> omega

theorem readTable_complete (h : TableOf g s.ni s.nand.chip ba data) :
    readTableFrom g g.tableBlks ba g.infoTableSize none [] s =
      (some (data, ba, ba + g.tableBlks), s) := by
  obtain ⟨n, hn, hsize, hnext⟩ := readTable_shape g
  obtain ⟨chunk', hread', hheader⟩ := h.header
  have hspan := h.span
  rw [hn] at hspan ⊢
  obtain ⟨hgood, hmark, chunk, rest, hread, rfl, hrest⟩ := hspan
  obtain rfl : chunk' = chunk := by simpa [hread] using hread'.symm
  rw [readTableFrom_succ (by omega)]
  simp only [hgood, checkBadPhysBlock, hmark, hread, hheader, Bool.not_true, Bool.false_eq_true,
    if_false, isNone_none, Bool.and_false, getD_none, nil_append]
  rw [readTableFrom_complete hrest hnext, Nat.add_right_comm, Nat.add_assoc]

theorem readTable_sound
    (h : readTableFrom g g.tableBlks ba g.infoTableSize none [] s = (some (data, st, en), s')) :
    s' = s ∧ st = ba ∧ en = ba + g.tableBlks ∧
      SpanAt g s.ni s.nand.chip g.tableBlks ba g.infoTableSize data ∧
      ∃ chunk, readData g s.nand.chip ba (min g.blkSize g.infoTableSize) = .ok chunk ∧
        checkInfoTableHeader g chunk = true := by
  obtain ⟨n, hn, hsize, hnext⟩ := readTable_shape g
  have hnone (ba data s) : (readTableFrom g n ba g.infoTableSize none data s).1 = none :=
    readTableFrom_none ba none data s hsize
  rw [hn] at h ⊢
  rw [readTableFrom_succ (by omega)] at h
  split at h
  · have := hnone (ba + 1) [] s
    simp [h] at this
  · rename_i hgood
    split at h
    · have := hnone (ba + 1) [] (s.setBad ba)
      simp [h] at this
    · rename_i hmark
      split at h
      · have := hnone (ba + 1) [] (s.setBad ba)
        simp [h] at this
      · rename_i chunk hread
        split at h
        · simp at h
        · rename_i hheader
          simp only [getD_none, nil_append] at h
          obtain ⟨hs, hst, hen, rest, hdata, hrest⟩ := readTableFrom_sound hnext h
          refine ⟨hs, hst, by omega, ?_, chunk, hread, by simpa using hheader⟩
          exact ⟨by simpa using hgood, by simpa [checkBadPhysBlock] using hmark, chunk, rest, hread,
            hdata, hrest⟩

/-- A table on the chip is loaded. -/
theorem tryLoadInfoTable_complete (h : TableOf g s.ni s.nand.chip ba data) : ∃ top,
    tryLoadInfoTable g ba false s =
      (some
        { endBa := ba + g.tableBlks
          writeCount := (InfoTableHeader.ofBytes data).writeCount
          mappingBlocksTopBa := top },
       { s with ni := { s.ni with infoTableCache := data : Instance }.loadImage g data }) := by
  obtain ⟨top, htop⟩ := h.tables
  have htop' : checkInfoTable g { s.ni with infoTableCache := data } ba (ba + g.tableBlks) data =
      some top := htop
  refine ⟨top, ?_⟩
  unfold tryLoadInfoTable
  rw [readTable_complete h]
  simp only [h.checksum, Bool.not_true, Bool.false_eq_true, if_false, htop', Bool.not_false,
    Bool.true_or, if_true]

/-- What is loaded is a table on the chip, and a failed attempt leaves the tables alone. -/
theorem tryLoadInfoTable_sound {r : Option Found} (h : tryLoadInfoTable g ba false s = (r, s')) :
    (r ≠ none → ∃ data, TableOf g s.ni s.nand.chip ba data ∧ s'.ni.infoTableCache = data) ∧
      (r = none → Probed g g.tableBlks ba s s') := by
  have hprobed := readTableFrom_probed g.tableBlks ba g.infoTableSize none [] s (g := g)
  unfold tryLoadInfoTable at h
  split at h
  · rename_i s₁ hread
    obtain ⟨rfl, rfl⟩ := Prod.mk.inj h
    refine ⟨fun hr => absurd rfl hr, fun _ => ?_⟩
    rwa [hread] at hprobed
  · rename_i data st en s₁ hread
    obtain ⟨rfl, rfl, rfl, hspan, hheader⟩ := readTable_sound hread
    have hcache : Probed g g.tableBlks st s₁
        { s₁ with ni := { s₁.ni with infoTableCache := data } } :=
      ⟨rfl, rfl, fun _ h => h, fun _ h _ => h⟩
    dsimp only at h
    split at h
    · obtain ⟨rfl, rfl⟩ := Prod.mk.inj h
      exact ⟨fun hr => absurd rfl hr, fun _ => hcache⟩
    · rename_i hchecksum
      split at h
      · obtain ⟨rfl, rfl⟩ := Prod.mk.inj h
        exact ⟨fun hr => absurd rfl hr, fun _ => hcache⟩
      · rename_i top htop
        obtain ⟨rfl, rfl⟩ := Prod.mk.inj h
        refine ⟨fun _ => ⟨data, ⟨hspan, hheader, by simpa using hchecksum, top, htop⟩, ?_⟩, by simp⟩
        split <;> rfl

/-! ## The search -/

theorem searchInfoTableFrom_of_first (hlo : ba ≤ b) (hhi : b < ba + n)
    (ht : TableOf g s.ni s.nand.chip b data)
    (hfirst : ∀ b', ba ≤ b' → b' < b → ¬ Loads g s.ni s.nand.chip b') : ∃ found s',
    searchInfoTableFrom g false n ba s = (some (b, found), s') ∧
      found.writeCount = (InfoTableHeader.ofBytes data).writeCount ∧
      s'.ni.infoTableCache = data ∧ s'.ni.infoTable = .ofBytes data ∧
      s'.ni.blockState = imageStates g data ∧ s'.ni.blockMapping = imageMapping g data := by
  induction n generalizing ba s with
  | zero => omega
  | succ n ih =>
    unfold searchInfoTableFrom
    rcases Nat.eq_or_lt_of_le hlo with rfl | hlt
    · obtain ⟨top, htry⟩ := tryLoadInfoTable_complete ht
      rw [htry]
      exact ⟨_, _, rfl, rfl, rfl, rfl, rfl, rfl⟩
    · rcases htry : tryLoadInfoTable g ba false s with ⟨r, s₁⟩
      obtain ⟨hsome, hnone⟩ := tryLoadInfoTable_sound htry
      cases r with
      | some found =>
        obtain ⟨data', ht', -⟩ := hsome (by simp)
        exact absurd ⟨data', ht'⟩ (hfirst ba le_rfl hlt)
      | none =>
        have hprobed := hnone rfl
        refine ih hlt (by omega) ((hprobed.loads hlt).mpr ht) fun b' hb' hlt' => ?_
        rintro ⟨data', ht'⟩
        exact hfirst b' (by omega) hlt' ⟨data', (hprobed.loads hb').mp ht'⟩

theorem first_of_searchInfoTableFrom {found : Found}
    (h : searchInfoTableFrom g false n ba s = (some (b, found), s')) :
    ba ≤ b ∧ b < ba + n ∧ TableOf g s.ni s.nand.chip b s'.ni.infoTableCache ∧
      ∀ b', ba ≤ b' → b' < b → ¬ Loads g s.ni s.nand.chip b' := by
  induction n generalizing ba s with
  | zero => simp [searchInfoTableFrom] at h
  | succ n ih =>
    unfold searchInfoTableFrom at h
    rcases htry : tryLoadInfoTable g ba false s with ⟨r, s₁⟩
    obtain ⟨hsome, hnone⟩ := tryLoadInfoTable_sound htry
    rw [htry] at h
    cases r with
    | some found' =>
      simp only [Prod.mk.injEq, some.injEq] at h
      obtain ⟨⟨rfl, rfl⟩, rfl⟩ := h
      obtain ⟨data, ht, rfl⟩ := hsome (by simp)
      exact ⟨le_rfl, by omega, ht, fun b' hb' hlt => by omega⟩
    | none =>
      have hprobed := hnone rfl
      obtain ⟨hlo, hhi, ht, hfirst⟩ := ih h
      refine ⟨by omega, by omega, (hprobed.loads (by omega)).mp ht, fun b' hb' hlt => ?_⟩
      rcases Nat.eq_or_lt_of_le hb' with rfl | hb'
      · rintro ⟨data, hdata⟩
        obtain ⟨top, hok⟩ := tryLoadInfoTable_complete hdata
        rw [hok] at htry
        simp at htry
      · rintro ⟨data, hdata⟩
        exact hfirst b' hb' hlt ⟨data, (hprobed.loads hb').mpr hdata⟩

/-! ## The table written -/

theorem SpanAt.length (h : SpanAt g l chip n ba size data) : data.length ≤ size := by
  induction n generalizing ba size data with
  | zero => simp [h.2]
  | succ n ih =>
    obtain ⟨-, -, chunk, rest, hread, rfl, hrest⟩ := h
    have hchunk := length_readPages hread
    have hlen := ih hrest
    simp only [length_append]
    omega

theorem SpanAt.first (h : SpanAt g l chip (n + 1) ba size data) (hlen : data.length = size) :
    readData g chip ba (min g.blkSize size) = .ok (data.take (min g.blkSize size)) := by
  obtain ⟨-, -, chunk, rest, hread, rfl, hrest⟩ := h
  have hchunk := length_readPages hread
  have hrest := hrest.length
  simp only [length_append] at hlen
  rw [hread, take_left' (by omega)]

/-- The check of the tables passes if no block is mapped into the management blocks up to the
    table or to the signature, and no block of the table is bad in the table. -/
theorem checkInfoTable_isSome {startBa endBa : Nat} :
    (∃ top, checkInfoTable g l startBa endBa data = some top) ↔
      (∀ lb < l.dataBlockCount,
        ¬ (l.dataBlockCount ≤ ((imageMapping g data).getD lb 0).toNat ∧
            ((imageMapping g data).getD lb 0).toNat < endBa) ∧
          ((imageMapping g data).getD lb 0).toNat ≠ l.signatureBa) ∧
      ∀ b, startBa ≤ b → b < endBa → l.good b = true →
        Packed.get (imageStates g data) b = blockStGood := by
  unfold checkInfoTable
  dsimp only
  constructor
  · rintro ⟨top, h⟩
    split at h
    · simp at h
    · rename_i hnot
      simp only [Bool.or_eq_true, not_or, List.any_eq_true, List.mem_map, mem_range,
        mem_range'_1, not_exists, not_and] at hnot
      refine ⟨fun lb hlb => ?_, fun b hlo hhi hg => ?_⟩
      · have := hnot.1 _ ⟨lb, hlb, rfl⟩
        simpa only [ge_iff_le, Bool.and_eq_true, decide_eq_true_eq, beq_iff_eq, not_and] using this
      · have := hnot.2 b ⟨hlo, by omega⟩
        simpa [hg] using this
  · rintro ⟨hmap, hstate⟩
    rw [if_neg]
    · exact ⟨_, rfl⟩
    · simp only [Bool.or_eq_true, not_or, List.any_eq_true, List.mem_map, mem_range,
        mem_range'_1, not_exists, not_and]
      refine ⟨?_, fun b hb => ?_⟩
      · rintro pb ⟨lb, hlb, rfl⟩
        simpa only [ge_iff_le, Bool.and_eq_true, decide_eq_true_eq, beq_iff_eq, not_and]
          using hmap lb hlb
      · intro hg
        have hg' : l.good b = true ∧ Packed.get (imageStates g data) b ≠ blockStGood := by
          simpa using hg
        exact hg'.2 (hstate b hb.1 (by omega) hg'.1)

/-- No data block that the loader knows of is mapped into the management blocks below `en`, or
    to the signature. -/
def MappedOutside (l ni : Instance) (en : Nat) : Prop :=
  ∀ lb < l.dataBlockCount,
    ¬ (l.dataBlockCount ≤ (ni.blockMapping.getD lb 0).toNat ∧
        (ni.blockMapping.getD lb 0).toNat < en) ∧
      (ni.blockMapping.getD lb 0).toNat ≠ l.signatureBa

/-- When the image of the tables of `ni` is a table for the loader. -/
theorem tableOf_image {ni : Instance} (hs : Sized g ni) :
    TableOf g l chip ba (image g ni) ↔
      SpanAt g l chip g.tableBlks ba g.infoTableSize (image g ni) ∧
      (∀ b, ba ≤ b → b < ba + g.tableBlks → ni.good b = true) ∧
      MappedOutside l ni (ba + g.tableBlks) := by
  have hlen := length_image hs
  constructor
  · intro h
    have htables := checkInfoTable_isSome.mp h.tables
    rw [imageMapping_image hs, imageStates_image hs] at htables
    exact ⟨h.span, fun b hlo hhi => good_iff.mpr (htables.2 b hlo hhi (h.span.good hlo hhi)),
      htables.1⟩
  · rintro ⟨hspan, hgood, hmap⟩
    refine ⟨hspan, ?_, checkHeader_image hs, ?_⟩
    · obtain ⟨n, hn, -⟩ := readTable_shape g
      have hfirst := hn ▸ hspan
      refine ⟨_, hfirst.first hlen, checkInfoTableHeader_take hs ?_⟩
      have hl := layout_of_image g
      have := pgSize_ge g
      have := pgSize_le_blkSize g
      unfold infoTableHeaderSize at *
      omega
    · apply checkInfoTable_isSome.mpr
      rw [imageMapping_image hs, imageStates_image hs]
      exact ⟨hmap, fun b hlo hhi _ => good_iff.mp (hgood b hlo hhi)⟩

/-- The pieces lie on the blocks from `ba` on, one behind the other, which were good in `s`. -/
def Taken (g : Geometry) (s : State) (chip : Chip Page) : Nat → List Bytes → Prop
  | _, [] => True
  | ba, chunk :: chunks => Reads g chip ba chunk ∧ s.ni.good ba = true ∧ chip.marked ba = false ∧
      Taken g s chip (ba + 1) chunks

theorem Taken.mono (h : Taken g s' chip ba chunks)
    (hg : ∀ b, s'.ni.good b = true → s.ni.good b = true) :
    Taken g s chip ba chunks := by
  induction chunks generalizing ba with
  | nil => trivial
  | cons chunk chunks ih =>
    obtain ⟨hread, hgood, hmark, hrest⟩ := h
    exact ⟨hread, hg ba hgood, hmark, ih hrest⟩

/-- A range write that skips no block from its first piece on. -/
theorem writeMgmtRangeFrom_taken {start : Option Nat}
    (h : writeMgmtRangeFrom g env start n ba chunks s = (some (st, en), s'))
    (hen : en = (if start.isNone ∧ chunks ≠ [] then st else ba) + chunks.length) :
    Taken g s s'.nand.chip (if start.isNone ∧ chunks ≠ [] then st else ba) chunks := by
  induction n generalizing start ba chunks s with
  | zero =>
    cases chunks with
    | nil => trivial
    | cons chunk chunks => simp [writeMgmtRangeFrom] at h
  | succ n ih =>
    cases chunks with
    | nil => trivial
    | cons chunk chunks =>
      simp only [writeMgmtRangeFrom] at h
      rcases hw : writeMgmtBlock g env ba chunk s with ⟨ok, s₁⟩
      have hworn : Worn ba (ba + 1) s s₁ := by
        have hblock : Worn ba (ba + 1) s (writeMgmtBlock g env ba chunk s).2 :=
          writeMgmtBlock_worn ba chunk s
        rwa [hw] at hblock
      rw [hw] at h
      cases ok with
      | true =>
        dsimp only at h
        obtain ⟨hrun, hplace⟩ :=
          writeMgmtRangeFrom_spec env g.pgSize_pos (some (start.getD ba)) n (ba + 1) chunks s₁
        rw [h] at hrun hplace
        obtain ⟨hend, hat, hst, -⟩ := hplace st en rfl
        obtain rfl := hst _ rfl
        have hbase : (if start.isNone ∧ chunk :: chunks ≠ [] then start.getD ba else ba) = ba := by
          cases start <;> simp
        rw [hbase] at hen ⊢
        obtain ⟨hread, hgood, hmark, hni⟩ := writeMgmtBlock_reads g.pgSize_pos hw
        have hrest := ih h (by simp at hen ⊢; omega)
        have hout : ∀ op : Op Page, ba + 1 ≤ op.block ∧ op.block < ba + 1 + n → op.block ≠ ba :=
          fun op hop => by omega
        refine ⟨hread.congr (hrun.ran.page hout), hgood, ?_, ?_⟩
        · rw [hrun.ran.marked hout]
          exact hmark
        · simp only [isNone_some, Bool.false_eq_true, false_and, if_false] at hrest
          exact hrest.mono fun b => hworn.good
      | false =>
        dsimp only at h
        cases start with
        | none =>
          have hrest := ih h (by simpa using hen)
          simp only [isNone_none, ne_eq, reduceCtorEq, not_false_eq_true, and_self,
            if_true] at hrest ⊢
          exact hrest.mono fun b => hworn.good
        | some b =>
          -- the block skipped is one too many
          obtain ⟨-, hplace⟩ :=
            writeMgmtRangeFrom_spec env g.pgSize_pos (some b) n (ba + 1) (chunk :: chunks) s₁
          rw [h] at hplace
          have hle := (hplace st en rfl).2.1.le
          simp only [isNone_some, Bool.false_eq_true, false_and, if_false] at hle hen
          omega

/-- A span of pieces the loader can use. -/
theorem Taken.span (h : Taken g s chip ba (piecesFrom g.blkSize fuel data))
    (hfuel : data.length ≤ fuel) (hsize : data.length = size)
    (hl : ∀ b, ba ≤ b → b < ba + (piecesFrom g.blkSize fuel data).length → l.good b = true) :
    SpanAt g l chip (piecesFrom g.blkSize fuel data).length ba size data := by
  induction fuel generalizing ba size data with
  | zero =>
    have hnil : data = [] := length_eq_zero_iff.mp (by omega)
    subst hnil
    exact ⟨hsize.symm, rfl⟩
  | succ fuel ih =>
    cases data with
    | nil => exact ⟨hsize.symm, rfl⟩
    | cons b rest =>
      generalize hdata : b :: rest = data at h hfuel hsize hl ⊢
      have hne : data.isEmpty = false := by subst hdata; rfl
      have hpos : data.length ≠ 0 := by subst hdata; simp
      have hblk := g.blkSize_pos
      simp only [piecesFrom, hne, Bool.false_eq_true, if_false, length_cons] at h hl ⊢
      obtain ⟨hread, hgood, hmark, hrest⟩ := h
      have hlen : (data.take g.blkSize).length = min g.blkSize size := by
        rw [length_take, hsize]
      refine ⟨hl ba le_rfl (by omega), hmark, data.take g.blkSize, data.drop g.blkSize, ?_,
        (take_append_drop _ _).symm, ?_⟩
      · rw [← hlen]
        exact hread
      · refine ih hrest ?_ ?_ fun b hlo hhi => hl b (by omega) (by omega)
        · rw [List.length_drop]; omega
        · rw [List.length_drop]; omega

theorem Taken.good (h : Taken g s chip ba chunks) (hlo : ba ≤ b) (hhi : b < ba + chunks.length) :
    s.ni.good b = true := by
  induction chunks generalizing ba with
  | nil => simp at hhi; omega
  | cons chunk chunks ih =>
    obtain ⟨-, hgood, -, hrest⟩ := h
    rcases Nat.eq_or_lt_of_le hlo with rfl | hlt
    · exact hgood
    · exact ih hrest hlt (by simp only [length_cons] at hhi; omega)

/-! ## The round trip -/

/-- `nmbm_search_info_table` from `ba` finds the table of `ni` at `st` and takes it over. -/
def Reloads (g : Geometry) (l : Instance) (nand : Device Page) (ba limit st : Nat)
    (ni : Instance) : Prop :=
  ∃ found s', searchInfoTable g ba limit false { ni := l, nand := nand } = (some (st, found), s') ∧
    found.writeCount = ni.infoTable.writeCount ∧
    s'.ni.infoTableCache = ni.infoTableCache ∧
    s'.ni.infoTable.writeCount = ni.infoTable.writeCount ∧
    s'.ni.blockState = ni.blockState ∧ s'.ni.blockMapping = ni.blockMapping

/-- What the loader needs to find at `st` the table with the image of `ni`. -/
structure Reloadable (g : Geometry) (l : Instance) (chip : Chip Page) (ba limit st : Nat)
    (ni : Instance) : Prop where
  /-- the blocks of the table follow one another -/
  whole : SpanAt g l chip g.tableBlks st g.infoTableSize (image g ni)
  recorded : ∀ b, st ≤ b → b < st + g.tableBlks → ni.good b = true
  mapped : MappedOutside l ni (st + g.tableBlks)
  /-- the search stops before the last place a table has room at -/
  searched : st + g.tableBlks < limit
  first : ∀ b, ba ≤ b → b < st → ¬ Loads g l chip b

/-- The table that a range write reports is found again if and only if its blocks follow one
    another, and then they do if the write skipped no block behind the first. -/
theorem reloads_iff {w₀ w₁ : State} {ba limit st en : Nat} (hs : Sized g w₀.ni)
    (hlimit : limit < 2 ^ 32)
    (hw : writeInfoTable g env ba limit { w₀ with ni := (generateInfoTableCache g w₀.ni).2 } =
      (some (st, en), w₁)) (l : Instance) :
    (Reloads g l w₁.nand ba limit st (generateInfoTableCache g w₀.ni).2 ↔
        Reloadable g l w₁.nand.chip ba limit st w₀.ni) ∧
      (en = st + g.tableBlks → (∀ b, st ≤ b → b < en → l.good b = true) →
        SpanAt g l w₁.nand.chip g.tableBlks st g.infoTableSize (image g w₀.ni) ∧
          ∀ b, st ≤ b → b < en → w₀.ni.good b = true) := by
  have hlen := length_image hs
  have hspec := tableBlks_spec g
  have hne : image g w₀.ni ≠ [] := by
    intro hnil
    rw [hnil] at hlen
    have hl := layout_of_image g
    unfold infoTableHeaderSize at hl
    simp at hlen
    omega
  have hpieces : (pieces g.blkSize (image g w₀.ni)).length = g.tableBlks := by
    rw [length_pieces g.blkSize_pos, hlen]
    unfold Geometry.tableBlks size2blk
    rw [shiftRight_eq_div_pow]
    rfl
  have hcache : (generateInfoTableCache g w₀.ni).2.infoTableCache = image g w₀.ni := rfl
  obtain ⟨hst, hen, hat⟩ := writeInfoTable_at hne hw
  have hroom : st + g.tableBlks ≤ limit := by
    have := hat.le
    rw [hcache, hpieces] at this
    omega
  have hsub : sub32 limit g.tableBlks = limit - g.tableBlks := by
    unfold sub32
    omega
  refine ⟨⟨fun h => ?_, fun h => ?_⟩, fun hwhole hl => ?_⟩
  · obtain ⟨found, s', hsearch, -, htaken, -⟩ := h
    obtain ⟨hlo, hhi, ht, hfirst⟩ := first_of_searchInfoTableFrom hsearch
    rw [htaken, hcache] at ht
    obtain ⟨hspan, hgood, hmap⟩ := (tableOf_image hs).mp ht
    rw [hsub] at hhi
    exact ⟨hspan, hgood, hmap, by omega, hfirst⟩
  · have ht := (tableOf_image hs).mpr ⟨h.whole, h.recorded, h.mapped⟩
    have hhi : st < ba + (sub32 limit g.tableBlks - ba) := by
      have := h.searched
      rw [hsub]
      omega
    obtain ⟨found, s', hsearch, hcount, htaken, htable, hstate, hmapping⟩ :=
      searchInfoTableFrom_of_first (s := { ni := l, nand := w₁.nand }) hst hhi ht h.first
    have hwc : (InfoTableHeader.ofBytes (image g w₀.ni)).writeCount =
        (imageHeader g w₀.ni).writeCount := by
      rw [infoTableHeader_image hs]
    rw [imageStates_image hs] at hstate
    rw [imageMapping_image hs] at hmapping
    refine ⟨found, s', hsearch, hcount.trans hwc, htaken, ?_, hstate, hmapping⟩
    rw [htable, hwc]
    rfl
  · have htaken := writeMgmtRangeFrom_taken hw (by
      rw [hcache, if_pos ⟨rfl, pieces_ne_nil hne⟩, hwhole, hpieces])
    rw [hcache, if_pos ⟨rfl, pieces_ne_nil hne⟩] at htaken
    have hgood : ∀ b, st ≤ b → b < en → w₀.ni.good b = true := fun b hlo hhi =>
      htaken.good hlo (by rw [hwhole] at hhi; exact hpieces.symm ▸ hhi)
    refine ⟨?_, hgood⟩
    have hspan := Taken.span (l := l) htaken le_rfl hlen fun b hlo hhi => hl b hlo (by
      rw [hwhole]
      exact hpieces ▸ hhi)
    exact hpieces ▸ hspan

/-! ### A chip of sixteen blocks -/

def soundEnv : Env where
  erase _ _ := (false, fun _ => .ok [])
  program _ _ _ data := (false, .ok data)
  mark _ _ := true

def smallGeometry : Geometry where
  pgShift := 6
  blkShift := 6
  totalBlks := 16
  oobSize := 16
  pgShift_ge := by decide
  pgShift_le := by decide
  blkShift_lt := by decide
  totalBlks_lt := by decide

def smallInstance : Instance :=
  initStructure smallGeometry { mgmtStartBa := 7, dataBlockCount := 7, signatureBa := 15 }

def smallState (bad : Nat → Bool) : State where
  ni := smallInstance
  nand := { chip := { page := fun _ _ => .ok [], marked := bad } }

def writeSmall (bad : Nat → Bool) : Option (Nat × Nat) × State :=
  writeInfoTable smallGeometry soundEnv 7 15
    { smallState bad with ni := (generateInfoTableCache smallGeometry smallInstance).2 }

set_option maxRecDepth 100000 in
/-- Without bad blocks the table is found again. -/
theorem reloads_without_bad_blocks :
    Reloads smallGeometry smallInstance (writeSmall fun _ => false).2.nand 7 15 7
      (generateInfoTableCache smallGeometry smallInstance).2 := by
  have hw : writeSmall (fun _ => false) = (some (7, 10), (writeSmall fun _ => false).2) :=
    Prod.ext (by decide +kernel) rfl
  obtain ⟨hiff, hspan⟩ := @reloads_iff _ _ (smallState fun _ => false) _ _ _ _ _
    (initStructure_sized _) (by decide) hw smallInstance
  have hgood : ∀ b < 10, smallInstance.good b = true := by decide
  obtain ⟨hwhole, hrecorded⟩ := hspan (by decide) fun b _ hb => hgood b hb
  apply hiff.mpr
  exact
    { whole := hwhole
      recorded := fun b hlo hhi => hrecorded b hlo hhi
      mapped := by
        show ∀ lb < 7, _
        decide
      searched := by decide
      first := fun b hlo hhi => by omega }

set_option maxRecDepth 100000 in
/-- A bad block inside the table: the table is written around it and not found again. -/
theorem reload_misses_table :
    (writeSmall (· == 8)).1 = some (7, 11) ∧
      ∀ st, ¬ Reloads smallGeometry smallInstance (writeSmall (· == 8)).2.nand 7 15 st
        (generateInfoTableCache smallGeometry smallInstance).2 := by
  have hnone : (searchInfoTable smallGeometry 7 15 false
      { ni := smallInstance, nand := (writeSmall (· == 8)).2.nand }).1 = none := by
    decide +kernel
  refine ⟨by decide +kernel, fun st h => ?_⟩
  obtain ⟨found, s', hsearch, -⟩ := h
  rw [hsearch] at hnone
  simp at hnone

end LibWrt.Nmbm
