/-
LibWrt.MtkBmt.V2Mapping — what keeps the mapping of the BMT sound.

`Sound` relates the two tables: `bb_tbl` is injective on the logical data
blocks, the entries of the pool up to that of the BMT are distinct blocks above
them, and a pool block some data block is mapped to is flagged and lies below
the entry of the BMT. The scan establishes it, `upload_bmt` keeps it (an entry
that fails is not flagged, so nothing is mapped to it), and a remap keeps it
because it takes an entry that is not flagged.

The two operations that free something look at one table only. `unmap_block_v2`
maps a block to itself, which after a factory bad block is the physical block
of another one; the debug command frees the entries no block of the main area
uses, leaving out block 0, the PMT, and everything where the `int` of the size
is negative. `Careful` says when they do no harm, `Config.Fits` for which sizes
the tables are not left.
-/
import LibWrt.MtkBmt.V2Upload

namespace LibWrt.MtkBmt.V2

open List Option

variable {cfg : Config} {env : Env} {s s' : Bmtd} {bbt bbt' : Bbbt} {nand nand' : Nand}
  {n m : Nat}

/-! ## The property and the invariant -/

/-- The pool block that holds the table, if one does. -/
def Bmtd.bmtBlock (s : Bmtd) : Option Nat :=
  if s.bmtBlkIdx = 0xffff then none else (s.bbt.bmtTbl[s.bmtBlkIdx]?).map Bbmt.block

/-- No two data blocks share a physical block, none lies on the table, and a pool block
    has at most one data block. -/
structure MappingOk (cfg : Config) (s : Bmtd) : Prop where
  injective : ∀ i j p, i < cfg.poolLba → j < cfg.poolLba → s.bbt.bbTbl[i]? = some p →
    s.bbt.bbTbl[j]? = some p → i = j
  offBmt : ∀ i p, i < cfg.poolLba → s.bbt.bbTbl[i]? = some p → s.bmtBlock ≠ some p
  poolOnce : ∀ e ∈ s.bbt.bmtTbl, ∀ i j, i < cfg.poolLba → j < cfg.poolLba →
    s.bbt.bbTbl[i]? = some e.block → s.bbt.bbTbl[j]? = some e.block → i = j

/-- The sizes for which the scan stays in the tables: the number of a block fits a `u16`, `bb_tbl`
    does not run into `bmt_tbl`, the zeros and the blocks of the pool not behind the buffer. -/
structure Config.Fits (cfg : Config) : Prop where
  totalBlks_lt : cfg.totalBlks < 2 ^ 16
  two_le : 2 ≤ cfg.poolLba
  poolLba_lt : cfg.poolLba < 2 ^ 16
  poolLba_le : cfg.poolLba ≤ cfg.tableSize
  tableSize_le : cfg.tableSize ≤ cfg.bmtEntries
  totalBlks_le : cfg.totalBlks ≤ cfg.poolLba + cfg.bmtEntries

/-- The tables with that of the BMT at entry `n` of the pool. -/
structure Sound (cfg : Config) (bbt : Bbbt) (n : Nat) : Prop where
  sized : bbt.bbTbl.length = cfg.tableSize
  within : n < bbt.bmtTbl.length
  injective : ∀ i j p, i < cfg.poolLba → j < cfg.poolLba → bbt.bbTbl[i]? = some p →
    bbt.bbTbl[j]? = some p → i = j
  distinct : ∀ (j k : Nat) (e f : Bbmt), j ≤ n → k ≤ n → bbt.bmtTbl[j]? = some e →
    bbt.bmtTbl[k]? = some f → e.block = f.block → j = k
  high : ∀ (k : Nat) (e : Bbmt), k ≤ n → bbt.bmtTbl[k]? = some e → cfg.poolLba ≤ e.block
  used : ∀ (i k : Nat) (e : Bbmt), i < cfg.poolLba → k ≤ n → bbt.bmtTbl[k]? = some e →
    bbt.bbTbl[i]? = some e.block → e.mapped = normalMapped ∧ k < n

/-- The invariant of a run. After a failed upload only `bb_tbl` is still meaningful. -/
structure Inv (cfg : Config) (s : Bmtd) : Prop where
  injective : ∀ i j p, i < cfg.poolLba → j < cfg.poolLba → s.bbt.bbTbl[i]? = some p →
    s.bbt.bbTbl[j]? = some p → i = j
  sound : s.bmtBlkIdx ≠ 0xffff → Sound cfg s.bbt s.bmtBlkIdx

theorem Inv.mappingOk (h : Inv cfg s) : MappingOk cfg s where
  injective := h.injective
  offBmt := by
    intro i p hi hp hbmt
    unfold Bmtd.bmtBlock at hbmt
    split at hbmt
    · simp at hbmt
    · rename_i hidx
      obtain ⟨e, he, rfl⟩ := by simpa using hbmt
      have hs := h.sound hidx
      have hlt := (hs.used i s.bmtBlkIdx e hi le_rfl he hp).2
      exact Nat.lt_irrefl _ hlt
  poolOnce := fun e _ i j hi hj hpi hpj => h.injective i j e.block hi hj hpi hpj

/-! ## Storing the table -/

theorem Sound.uploaded (h : Sound cfg bbt n) (hu : Uploaded env n m bbt bbt') :
    Sound cfg bbt' m := by
  have hle := hu.le
  -- up to `m` the pool is as it was
  have hget : ∀ k ≤ m, bbt'.bmtTbl[k]? = bbt.bmtTbl[k]? := fun k hk => hu.kept k (.inl hk)
  obtain ⟨f, hf, hfn, -⟩ := hu.taken
  refine ⟨by rw [hu.bbTbl]; exact h.sized, ?_, ?_, ?_, ?_, ?_⟩
  · exact (List.getElem?_eq_some_iff.mp ((hget m le_rfl).trans hf)).1
  · intro i j p hi hj hpi hpj
    rw [hu.bbTbl] at hpi hpj
    exact h.injective i j p hi hj hpi hpj
  · intro j k e f hj hk he hf hef
    rw [hget j hj] at he
    rw [hget k hk] at hf
    exact h.distinct j k e f (by omega) (by omega) he hf hef
  · intro k e hk he
    rw [hget k hk] at he
    exact h.high k e (by omega) he
  · intro i k e hi hk he hp
    rw [hget k hk] at he
    rw [hu.bbTbl] at hp
    obtain ⟨hmapped, -⟩ := h.used i k e hi (by omega) he hp
    refine ⟨hmapped, ?_⟩
    -- the entry that took the table is not flagged
    have hkm : k ≠ m := by
      rintro rfl
      rw [he] at hf
      obtain rfl := some.inj hf
      exact hfn hmapped
    omega

theorem Bmtd.upload_inv (h : Sound cfg s.bbt s.bmtBlkIdx) (hs : s.upload cfg env = .ok s') :
    Inv cfg s' := by
  unfold Bmtd.upload at hs
  cases hr : uploadBmt cfg env s.bmtBlkIdx s.bbt s.nand with
  | error e => simp [hr, Except.map] at hs
  | ok r =>
    obtain ⟨o, bbt', nand'⟩ := r
    have hup := uploadBmt_iff.mp hr
    have hbb : bbt'.bbTbl = s.bbt.bbTbl := hup.bbTbl
    simp only [hr, Except.map] at hs
    obtain rfl := Except.ok.inj hs
    refine ⟨?_, ?_⟩
    · intro i j p hi hj hpi hpj
      simp only [hbb] at hpi hpj
      exact h.injective i j p hi hj hpi hpj
    · intro hidx
      cases o with
      | none => exact absurd rfl hidx
      | some m => exact h.uploaded hup.uploaded

/-! ## Remap and unmap -/

variable {block k i : Nat} {e : Bbmt} {l : List Nat}

/-- A data block may be mapped to any block no other data block is mapped to, if that is
    no pool block or a flagged one. -/
theorem Sound.setMapping (h : Sound cfg bbt n) {pb : Nat}
    (hfree : block < cfg.poolLba → ∀ j, j < cfg.poolLba → j ≠ block → bbt.bbTbl[j]? ≠ some pb)
    (hpool : ∀ (k : Nat) (e : Bbmt), k ≤ n → bbt.bmtTbl[k]? = some e → e.block = pb →
      block < cfg.poolLba → e.mapped = normalMapped ∧ k < n) :
    Sound cfg { bbt with bbTbl := bbt.bbTbl.set block pb } n := by
  have hget : ∀ i p : Nat, (bbt.bbTbl.set block pb)[i]? = some p →
      (i = block ∧ p = pb) ∨ (i ≠ block ∧ bbt.bbTbl[i]? = some p) := by
    intro i p hp
    rw [getElem?_set] at hp
    split at hp
    · rename_i hi
      split at hp
      · exact .inl ⟨hi.symm, (some.inj hp).symm⟩
      · simp at hp
    · rename_i hi
      exact .inr ⟨fun hc => hi hc.symm, hp⟩
  refine ⟨by simpa using h.sized, h.within, ?_, h.distinct, h.high, ?_⟩
  · intro i j p hi hj hpi hpj
    rcases hget i p hpi with ⟨rfl, rfl⟩ | ⟨hib, hpi'⟩
    · rcases hget j _ hpj with ⟨rfl, -⟩ | ⟨hjb, hpj'⟩
      · rfl
      · exact absurd hpj' (hfree hi j hj hjb)
    · rcases hget j p hpj with ⟨rfl, rfl⟩ | ⟨-, hpj'⟩
      · exact absurd hpi' (hfree hj i hi hib)
      · exact h.injective i j p hi hj hpi' hpj'
  · intro i k e hi hk he hp
    rcases hget i _ hp with ⟨rfl, hpb⟩ | ⟨-, hp⟩
    · exact hpool k e hk he hpb hi
    · exact h.used i k e hi hk he hp

/-- Flagging a free entry below the table's own. -/
theorem Sound.flag (h : Sound cfg bbt n) (hk : k < n) (he : bbt.bmtTbl[k]? = some e) :
    Sound cfg
      { bbt with bmtTbl := bbt.bmtTbl.set k { e with mapped := normalMapped } } n := by
  have hlt : k < bbt.bmtTbl.length := (List.getElem?_eq_some_iff.mp he).1
  have hget : ∀ (l : Nat) (f : Bbmt), (bbt.bmtTbl.set k { e with mapped := normalMapped })[l]? = some f →
      ∃ g, bbt.bmtTbl[l]? = some g ∧ f.block = g.block ∧
        (f = g ∨ (l = k ∧ f.mapped = normalMapped)) := by
    intro l f hf
    by_cases hl : l = k
    · subst hl
      rw [getElem?_set_self hlt] at hf
      obtain rfl := some.inj hf
      exact ⟨e, he, rfl, .inr ⟨rfl, rfl⟩⟩
    · rw [getElem?_set_ne (fun hc => hl hc.symm)] at hf
      exact ⟨f, hf, rfl, .inl rfl⟩
  refine ⟨h.sized, by simpa using h.within, h.injective, ?_, ?_, ?_⟩
  · intro j l f g hj hl hf hg hfg
    obtain ⟨f', hf', hfb, -⟩ := hget j f hf
    obtain ⟨g', hg', hgb, -⟩ := hget l g hg
    exact h.distinct j l f' g' hj hl hf' hg' (by rw [← hfb, ← hgb, hfg])
  · intro l f hl hf
    obtain ⟨g, hg, hfb, -⟩ := hget l f hf
    rw [hfb]
    exact h.high l g hl hg
  · intro i l f hi hl hf hp
    obtain ⟨g, hg, hfb, hcase⟩ := hget l f hf
    rw [hfb] at hp
    obtain ⟨hmapped, hln⟩ := h.used i l g hi hl hg hp
    rcases hcase with rfl | ⟨rfl, hf'⟩
    · exact ⟨hmapped, hln⟩
    · exact ⟨hf', hln⟩

/-- A remap takes an entry nothing is mapped to. -/
theorem remapBlockV2_inv {mappedBlock copyLen : Nat} {r : Bool} (h : Inv cfg s)
    (hidx : s.bmtBlkIdx ≠ 0xffff)
    (hs : remapBlockV2 cfg env s block mappedBlock copyLen = .ok (r, s')) : Inv cfg s' := by
  have hsound := h.sound hidx
  unfold remapBlockV2 at hs
  obtain ⟨found, hfound, hs⟩ := bind_ok hs
  cases found with
  | none =>
    obtain ⟨-, rfl⟩ := by simpa using hs
    exact h
  | some found =>
    obtain ⟨pb, bbt₁⟩ := found
    obtain ⟨k, e, hk, he, hpb, hpb0, hfree, rfl⟩ := findValidBlockInPool_spec hfound
    obtain ⟨bbt₂, hset, hs⟩ := bind_ok hs
    obtain rfl := setMapping_spec hset
    obtain ⟨s₁, hup, hs⟩ := bind_ok hs
    obtain ⟨-, rfl⟩ := by simpa using hs
    -- nothing is mapped to the entry: it was not flagged
    have hunused : ∀ j, j < cfg.poolLba → s.bbt.bbTbl[j]? ≠ some pb := by
      intro j hj hp
      have hmapped := (hsound.used j k e hj hk.le he (by rw [hpb]; exact hp)).1
      rw [hfree] at hmapped
      exact absurd hmapped (by decide)
    refine Bmtd.upload_inv (Sound.setMapping (hsound.flag hk he) (fun _ j hj _ => hunused j hj) ?_) hup
    intro l f hle hf hfb _
    have hlt : k < s.bbt.bmtTbl.length := (List.getElem?_eq_some_iff.mp he).1
    by_cases hl : l = k
    · subst hl
      rw [getElem?_set_self hlt] at hf
      obtain rfl := some.inj hf
      exact ⟨rfl, hk⟩
    · rw [getElem?_set_ne (fun hc => hl hc.symm)] at hf
      exact absurd (hsound.distinct l k f e hle hk.le hf he (by rw [hfb, hpb])) hl

theorem unmapBlockV2_inv (h : Inv cfg s) (hidx : s.bmtBlkIdx ≠ 0xffff)
    (hfree : block < cfg.poolLba →
      ∀ j, j < cfg.poolLba → j ≠ block → s.bbt.bbTbl[j]? ≠ some block)
    (hs : unmapBlockV2 cfg env s block = .ok s') : Inv cfg s' := by
  unfold unmapBlockV2 at hs
  obtain ⟨bbt₁, hset, hs⟩ := bind_ok hs
  obtain rfl := setMapping_spec hset
  refine Bmtd.upload_inv (Sound.setMapping (h.sound hidx) hfree ?_) hs
  -- the block is below the pool
  intro k e hk he heb hlt
  have := (h.sound hidx).high k e hk he
  omega

/-! ## Freeing pool entries -/

/-- Entries may lose their flag as long as no data block is mapped to them. -/
theorem Sound.release (h : Sound cfg bbt n) {gone : Nat → Bbmt → Bool}
    (hgone : ∀ (i k : Nat) (e : Bbmt), i < cfg.poolLba → k ≤ n → bbt.bmtTbl[k]? = some e →
      bbt.bbTbl[i]? = some e.block → gone k e = false) :
    Sound cfg
      { bbt with
        bmtTbl := bbt.bmtTbl.mapIdx fun k e =>
          if gone k e then { e with mapped := noMapped } else e } n := by
  have hget : ∀ (k : Nat) (f : Bbmt), (bbt.bmtTbl.mapIdx fun k e =>
      if gone k e then { e with mapped := noMapped } else e)[k]? = some f →
      ∃ e, bbt.bmtTbl[k]? = some e ∧ f.block = e.block ∧ (gone k e = false → f = e) := by
    intro k f hf
    rw [getElem?_mapIdx] at hf
    obtain ⟨e, he, rfl⟩ := map_eq_some_iff.mp hf
    refine ⟨e, he, ?_, fun hg => by simp [hg]⟩
    split <;> rfl
  refine ⟨h.sized, by simpa using h.within, h.injective, ?_, ?_, ?_⟩
  · intro j k f g hj hk hf hg hfg
    obtain ⟨f', hf', hfb, -⟩ := hget j f hf
    obtain ⟨g', hg', hgb, -⟩ := hget k g hg
    exact h.distinct j k f' g' hj hk hf' hg' (by rw [← hfb, ← hgb, hfg])
  · intro k f hk hf
    obtain ⟨e, he, hfb, -⟩ := hget k f hf
    rw [hfb]
    exact h.high k e hk he
  · intro i k f hi hk hf hp
    obtain ⟨e, he, hfb, hkept⟩ := hget k f hf
    rw [hfb] at hp
    rw [hkept (hgone i k e hi hk he hp)]
    exact h.used i k e hi hk he hp

/-- The mask has every pool entry that a block of the main area, but block 0, is mapped to. -/
theorem usedMask_of_mapped (h : Sound cfg s.bbt s.bmtBlkIdx) (hlow : 1 ≤ i)
    (hi : i < cfg.mainBlocks) (hipool : i < cfg.poolLba) (hle : k ≤ s.bmtBlkIdx)
    (he : s.bbt.bmtTbl[k]? = some e) (hp : s.bbt.bbTbl[i]? = some e.block) :
    usedMask cfg s k = true := by
  obtain ⟨-, hk⟩ := h.used i k e hipool hle he hp
  have hhigh := h.high k e hle he
  obtain ⟨hlt, hek⟩ := List.getElem?_eq_some_iff.mp he
  refine any_eq_true.mpr ⟨i, mem_range.mpr hi, ?_⟩
  simp only [Bool.and_eq_true, decide_eq_true_eq, bne_iff_ne, beq_iff_eq]
  refine ⟨⟨hlow, ?_⟩, ?_⟩
  · rw [hp]
    intro hc
    have := some.inj hc
    omega
  · refine findIdx?_eq_some_iff_getElem.mpr ⟨by rw [length_take]; omega, ?_, ?_⟩
    · rw [getElem_take, hek, hp]
      simp
    · intro j hj hbeq
      rw [getElem_take, hp] at hbeq
      have hj' : s.bbt.bmtTbl[j]? = some s.bbt.bmtTbl[j] := getElem?_eq_getElem (by omega)
      have hblock : s.bbt.bmtTbl[j].block = e.block := by simpa using hbeq
      have := h.distinct j k _ e (by omega) hle hj' he hblock
      omega

theorem mtkBmtDebugV2_inv (h : Inv cfg s) (hidx : s.bmtBlkIdx ≠ 0xffff)
    (hrest : ∀ i, i < cfg.poolLba → i = 0 ∨ cfg.mainBlocks ≤ i →
      ∀ e ∈ s.bbt.bmtTbl.take (s.bmtBlkIdx + 1), s.bbt.bbTbl[i]? ≠ some e.block)
    (hs : mtkBmtDebugV2 cfg env s = .ok s') : Inv cfg s' := by
  have hsound := h.sound hidx
  unfold mtkBmtDebugV2 at hs
  dsimp only at hs
  split at hs
  · simp at hs
  · split at hs
    · obtain rfl := Except.ok.inj hs
      exact h
    · refine Bmtd.upload_inv (hsound.release ?_) hs
      intro i k e hi hk he hp
      -- the block is not one of those the mask leaves out
      have hmem : e ∈ s.bbt.bmtTbl.take (s.bmtBlkIdx + 1) := by
        refine mem_of_getElem? (i := k) ?_
        rw [getElem?_take_of_lt (by omega), he]
      have hmain : ¬ (i = 0 ∨ cfg.mainBlocks ≤ i) := fun hc => hrest i hi hc e hmem hp
      have hused := usedMask_of_mapped hsound (by omega) (by omega) hi hk he hp
      simp [freed, hused]

/-! ## The first scan -/

theorem findValidBlock_spec {left b : Nat} (h : findValidBlock cfg nand left block = b) (hb : b ≠ 0) :
    block ≤ b := by
  fun_induction findValidBlock cfg nand left block with
  | case1 left block hge => omega
  | case2 block hlt hbad => omega
  | case3 block hlt hbad left ih => have := ih h; omega
  | case4 left block hlt hgood => omega

/-- Each data block gets a block above the one before. -/
theorem scanData_spec {prev : Nat} (h : scanData cfg nand prev n = .ok l) :
    l.length = n ∧ (prev :: l).Pairwise (· < ·) := by
  induction n generalizing prev l with
  | zero =>
    obtain rfl : l = [] := by simpa [scanData] using h.symm
    simp
  | succ n ih =>
    unfold scanData at h
    split at h
    · simp at h
    · rename_i hb
      generalize hblock : findValidBlock cfg nand cfg.bbMax (prev + 1) = block at h hb
      cases hrest : scanData cfg nand block n with
      | error e => simp [hrest, Except.map] at h
      | ok rest =>
        obtain rfl : block :: rest = l := by simpa [hrest, Except.map] using h
        have hgt := findValidBlock_spec hblock hb
        obtain ⟨hlen, hpair⟩ := ih hrest
        refine ⟨by simp [hlen], pairwise_cons.mpr ⟨?_, hpair⟩⟩
        intro p hp
        rcases mem_cons.mp hp with rfl | hp
        · omega
        · have := (pairwise_cons.mp hpair).1 p hp
          omega

theorem scanPool_spec (fuel block : Nat) :
    (scanPool cfg nand fuel block).Pairwise (· < ·) ∧
      ∀ b ∈ scanPool cfg nand fuel block, block ≤ b ∧ b ≠ 0 := by
  induction fuel generalizing block with
  | zero => simp [scanPool]
  | succ fuel ih =>
    unfold scanPool
    split
    · simp
    · rename_i hb
      generalize hblock : findValidBlock cfg nand cfg.bbMax block = b at hb ⊢
      have hge := findValidBlock_spec hblock hb
      obtain ⟨hpair, hmem⟩ := ih (b + 1)
      refine ⟨pairwise_cons.mpr ⟨fun p hp => ?_, hpair⟩, fun p hp => ?_⟩
      · have := (hmem p hp).1
        omega
      · rcases mem_cons.mp hp with rfl | hp
        · exact ⟨hge, hb⟩
        · have := hmem p hp
          omega

theorem le_getElem_of_pairwise (h : l.Pairwise (· < ·)) (hi : i < l.length) : i ≤ l[i] := by
  induction i with
  | zero => exact Nat.zero_le _
  | succ i ih =>
    have hstep := pairwise_iff_getElem.mp h i (i + 1) (by omega) hi (by omega)
    have := ih (by omega)
    omega

theorem index_eq_of_pairwise (h : l.Pairwise (· < ·)) {j p : Nat} (hj : l[j]? = some p)
    (hk : l[k]? = some p) : j = k := by
  obtain ⟨hj', rfl⟩ := List.getElem?_eq_some_iff.mp hj
  obtain ⟨hk', hkj⟩ := List.getElem?_eq_some_iff.mp hk
  rcases Nat.lt_trichotomy j k with hlt | heq | hgt
  · have := pairwise_iff_getElem.mp h j k hj' hk' hlt
    omega
  · exact heq
  · have := pairwise_iff_getElem.mp h k j hk' hj' hgt
    omega

theorem le_getLastD_of_pairwise (h : l.Pairwise (· < ·)) (hi : i < l.length) :
    l[i] ≤ l.getLastD 0 := by
  have hlast : l.getLastD 0 = l[l.length - 1] := by
    rw [getLastD_eq_getLast?, getLast?_eq_getElem?,
      getElem?_eq_getElem (by omega)]
    rfl
  rw [hlast]
  rcases Nat.lt_or_ge i (l.length - 1) with hlt | hge
  · exact (pairwise_iff_getElem.mp h i _ hi (by omega) hlt).le
  · have : i = l.length - 1 := by omega
    subst this
    exact le_rfl

/-- The table of the pool begins with the scanned blocks; the last one is flagged. -/
theorem scanned_get {pool : List Nat} {rest : List Bbmt} (hk : k < pool.length)
    (he : (((pool.map fun b => ({ block := b, mapped := noMapped } : Bbmt)).set (pool.length - 1)
        { block := pool.getLastD 0, mapped := bmtMapped }) ++ rest)[k]? = some e) :
    pool[k]? = some e.block := by
  rw [getElem?_append_left (by simpa using hk), getElem?_set] at he
  split at he
  · rename_i hlast
    subst hlast
    simp only [length_map, hk, if_true] at he
    obtain rfl := some.inj he
    have hne : pool ≠ [] := by rintro rfl; simp at hk
    rw [getElem?_eq_getElem hk, getLastD_eq_getLast?, getLast?_eq_getElem?,
      getElem?_eq_getElem hk]
    rfl
  · rw [getElem?_map, getElem?_eq_getElem hk] at he
    obtain rfl := some.inj he
    exact getElem?_eq_getElem hk

theorem scanBadBlocks_sound {buffer : Bbbt} {poolPba : Nat} (hfit : cfg.Fits)
    (h : scanBadBlocks cfg buffer nand = .ok (bbt, n, poolPba)) : Sound cfg bbt n := by
  unfold scanBadBlocks at h
  split at h
  · simp [bind, Except.bind] at h
  · obtain ⟨rest, hrest, h⟩ := bind_ok h
    obtain ⟨hlen, hdata⟩ := scanData_spec hrest
    dsimp only at h
    split at h
    · simp [bind, Except.bind] at h
    · generalize hpool : scanPool cfg nand cfg.totalBlks ((0 :: rest).getLastD 0 + 1) = pool at h
      obtain ⟨hpair, hmem⟩ := hpool ▸ scanPool_spec cfg.totalBlks ((0 :: rest).getLastD 0 + 1)
      split at h
      · simp [bind, Except.bind] at h
      · rename_i hroom
        simp only [Except.ok.injEq, Prod.mk.injEq] at h
        obtain ⟨rfl, rfl, rfl⟩ := h
        have hne : pool ≠ [] := fun hc => hroom (.inl hc)
        have hpos : 0 < pool.length := length_pos_iff.mpr hne
        -- a data block is mapped below the pool
        have hbelow : ∀ i p : Nat, i < cfg.poolLba →
            ((0 :: rest) ++ (range' cfg.poolLba (cfg.tableSize - cfg.poolLba)).map
              (buffer.bbTbl.getD · 0xffff))[i]? = some p → (0 :: rest)[i]? = some p := by
          intro i p hi hp
          have hi' : i < (0 :: rest).length := by simp only [length_cons, hlen]; omega
          rwa [getElem?_append_left hi'] at hp
        refine ⟨?_, ?_, ?_, ?_, ?_, ?_⟩
        · have := hfit.two_le
          have := hfit.poolLba_le
          simp only [length_append, length_cons, hlen, length_map, length_range']
          omega
        · simp only [length_append, length_set, length_map, length_range']
          omega
        · intro i j p hi hj hpi hpj
          exact index_eq_of_pairwise hdata (hbelow i p hi hpi) (hbelow j p hj hpj)
        · intro j k e f hj hk he hf hef
          have hj' := scanned_get (by omega) he
          have hk' := scanned_get (by omega) hf
          exact index_eq_of_pairwise hpair hj' (by rw [hef]; exact hk')
        · intro k e hk he
          have hge := (hmem _ (mem_of_getElem? (scanned_get (by omega) he))).1
          have hi : cfg.poolLba - 1 < (0 :: rest).length := by simp [hlen]
          have h₁ := le_getElem_of_pairwise hdata hi
          have h₂ := le_getLastD_of_pairwise hdata hi
          omega
        · intro i k e hi hk he hp
          obtain ⟨hi', hp⟩ := List.getElem?_eq_some_iff.mp (hbelow i _ hi hp)
          have hge := (hmem _ (mem_of_getElem? (scanned_get (by omega) he))).1
          have hle := le_getLastD_of_pairwise hdata hi'
          omega

/-! ## Runs -/

/-- What happens between two lookups: a remap, an unmap (`mark_good` and the first half of
    `repair`), the debug command, or reads, writes and erases of the chip. -/
inductive Op where
  | remap (block mappedBlock copyLen : Nat)
  | unmap (block : Nat)
  | debug
  | io (nand : Nand)

def Op.run (cfg : Config) (env : Env) (s : Bmtd) : Op → Except Failure Bmtd
  | .remap block mappedBlock copyLen =>
    (remapBlockV2 cfg env s block mappedBlock copyLen).map Prod.snd
  | .unmap block => unmapBlockV2 cfg env s block
  | .debug => mtkBmtDebugV2 cfg env s
  | .io nand => .ok { s with nand := nand }

/-- The table is stored somewhere and has the block; a block is unmapped only while no other
    data block is mapped to the physical block of its number; the debug command runs only while
    neither block 0 nor a block from `main_blocks` on is mapped into the pool. -/
def Careful (cfg : Config) (s : Bmtd) : Op → Prop
  | .remap block _ _ => s.bmtBlkIdx ≠ 0xffff ∧ block < cfg.tableSize
  | .unmap block => s.bmtBlkIdx ≠ 0xffff ∧ block < cfg.tableSize ∧ (block < cfg.poolLba →
      ∀ j, j < cfg.poolLba → j ≠ block → s.bbt.bbTbl[j]? ≠ some block)
  | .debug => s.bmtBlkIdx ≠ 0xffff ∧
      ∀ i, i < cfg.poolLba → i = 0 ∨ cfg.mainBlocks ≤ i →
        ∀ e ∈ s.bbt.bmtTbl.take (s.bmtBlkIdx + 1), s.bbt.bbTbl[i]? ≠ some e.block
  | .io _ => True

instance (cfg : Config) (s : Bmtd) : DecidablePred (Careful cfg s)
  | .remap block _ _ =>
    inferInstanceAs (Decidable (s.bmtBlkIdx ≠ 0xffff ∧ block < cfg.tableSize))
  | .unmap block => inferInstanceAs (Decidable (s.bmtBlkIdx ≠ 0xffff ∧ block < cfg.tableSize ∧
      (block < cfg.poolLba → ∀ j, j < cfg.poolLba → j ≠ block → s.bbt.bbTbl[j]? ≠ some block)))
  | .debug => inferInstanceAs (Decidable (s.bmtBlkIdx ≠ 0xffff ∧
      ∀ i, i < cfg.poolLba → i = 0 ∨ cfg.mainBlocks ≤ i →
        ∀ e ∈ s.bbt.bmtTbl.take (s.bmtBlkIdx + 1), s.bbt.bbTbl[i]? ≠ some e.block))
  | .io _ => inferInstanceAs (Decidable True)

/-- The states of the runs that start with the scan of a chip without a table and whose
    steps all meet `ok`. -/
inductive Reached (cfg : Config) (ok : Bmtd → Op → Prop) : Bmtd → Prop where
  | scan {env : Env} {nand : Nand} {s : Bmtd} :
      findBmt cfg nand cfg.totalBlks = .ok none → mtkBmtInitV2 cfg env nand = .ok s →
      Reached cfg ok s
  | step {env : Env} {s s' : Bmtd} (op : Op) : Reached cfg ok s → ok s op →
      op.run cfg env s = .ok s' → Reached cfg ok s'

theorem mtkBmtInitV2_inv (hfit : cfg.Fits) (hnone : findBmt cfg nand cfg.totalBlks = .ok none)
    (h : mtkBmtInitV2 cfg env nand = .ok s) : Inv cfg s := by
  unfold mtkBmtInitV2 at h
  rw [hnone] at h
  simp only [bind, Except.bind] at h
  split at h
  · simp at h
  · split at h
    · simp at h
    · split at h
      · simp at h
      · rename_i r hr
        obtain ⟨bbt, idx, poolPba⟩ := r
        dsimp only at h
        split at h
        · simp at h
        · rename_i s₁ hup
          split at h
          · simp at h
          · obtain rfl := Except.ok.inj h
            have hsound : Sound cfg bbt idx := scanBadBlocks_sound hfit hr
            exact Bmtd.upload_inv hsound hup

theorem Op.run_inv {op : Op} (h : Inv cfg s) (hok : Careful cfg s op)
    (hs : op.run cfg env s = .ok s') : Inv cfg s' := by
  cases op with
  | remap block mappedBlock copyLen =>
    cases hr : remapBlockV2 cfg env s block mappedBlock copyLen with
    | error e => simp [Op.run, hr, Except.map] at hs
    | ok r =>
      obtain rfl : r.2 = s' := by simpa [Op.run, hr, Except.map] using hs
      exact remapBlockV2_inv h hok.1 hr
  | unmap block => exact unmapBlockV2_inv h hok.1 hok.2.2 hs
  | debug => exact mtkBmtDebugV2_inv h hok.1 hok.2 hs
  | io nand =>
    obtain rfl := Except.ok.inj hs
    exact ⟨h.injective, h.sound⟩

/-! ## No access outside of the tables -/

theorem uploadBmt_defined (h : n < bbt.bmtTbl.length) :
    ∃ r, uploadBmt cfg env n bbt nand = .ok r := by
  induction n generalizing bbt nand with
  | zero =>
    have he := getElem?_eq_getElem h
    by_cases hn : bbt.bmtTbl[0].mapped = normalMapped
    · exact ⟨_, uploadBmt_normal he hn⟩
    · cases hf : env.fails bbt.bmtTbl[0] with
      | false => exact ⟨_, uploadBmt_taken he hn hf⟩
      | true => exact ⟨_, uploadBmt_failed he hn hf⟩
  | succ n ih =>
    have he := getElem?_eq_getElem h
    by_cases hn : bbt.bmtTbl[n + 1].mapped = normalMapped
    · exact ⟨_, uploadBmt_normal he hn⟩
    · cases hf : env.fails bbt.bmtTbl[n + 1] with
      | false => exact ⟨_, uploadBmt_taken he hn hf⟩
      | true =>
        rw [uploadBmt_failed he hn hf]
        exact ih (by simp only [failed_bmtTbl, length_set]; omega)

theorem Bmtd.upload_defined (h : s.bmtBlkIdx < s.bbt.bmtTbl.length) :
    ∃ s', s.upload cfg env = .ok s' := by
  obtain ⟨r, hr⟩ : ∃ r, uploadBmt cfg env s.bmtBlkIdx s.bbt s.nand = .ok r := uploadBmt_defined h
  exact ⟨_, by rw [Bmtd.upload, hr]; rfl⟩

/-- An `int` that was shifted up into a 64-bit size and comes down again has lost bits at most. -/
theorem shifted_le (x : BitVec 16) (s : Nat) :
    ((((x.setWidth 32 <<< s).signExtend 64) >>> s).setWidth 32).toInt.toNat ≤ x.toNat := by
  cases hmsb : (x.setWidth 32 <<< s).msb with
  | false =>
    have hle : (x.setWidth 32 <<< s).toNat >>> s ≤ x.toNat := by
      rw [BitVec.toNat_shiftLeft, BitVec.toNat_setWidth, Nat.shiftRight_eq_div_pow,
        Nat.shiftLeft_eq]
      refine Nat.div_le_of_le_mul ?_
      have h₁ := Nat.mod_le (x.toNat % 2 ^ 32 * 2 ^ s) (2 ^ 32)
      have h₂ := Nat.mul_le_mul_right (2 ^ s) (Nat.mod_le x.toNat (2 ^ 32))
      rw [Nat.mul_comm (2 ^ s)]
      omega
    rw [BitVec.signExtend_eq_setWidth_of_msb_false hmsb]
    generalize x.setWidth 32 <<< s = v at hle
    have hv : (((v.setWidth 64) >>> s).setWidth 32).toNat ≤ v.toNat >>> s := by
      rw [BitVec.toNat_setWidth, BitVec.toNat_ushiftRight, BitVec.toNat_setWidth,
        Nat.mod_eq_of_lt (show v.toNat < 2 ^ 64 by omega)]
      exact Nat.mod_le _ _
    rw [BitVec.toInt_eq_toNat_cond]
    split <;> omega
  | true =>
    -- the bits above the 32 are set as well, so the `int` is negative
    have hs : s < 32 := by
      by_contra hs
      rw [BitVec.shiftLeft_eq_zero (by omega)] at hmsb
      simp at hmsb
    have hneg : ((((x.setWidth 32 <<< s).signExtend 64) >>> s).setWidth 32).msb = true := by
      generalize x.setWidth 32 <<< s = v at hmsb
      rw [BitVec.msb_eq_getLsbD_last]
      rcases Nat.eq_zero_or_pos s with rfl | hpos
      · rw [BitVec.msb_eq_getLsbD_last] at hmsb
        simpa [-BitVec.getLsbD_eq_getElem, BitVec.getLsbD_signExtend] using hmsb
      · have hin : s + 31 < 64 := by omega
        have hge : 1 ≤ s := hpos
        simp [-BitVec.getLsbD_eq_getElem, BitVec.getLsbD_signExtend, hmsb, hin, hge]
    have := BitVec.toInt_neg_of_msb_true hneg
    omega

theorem Config.mainBlocks_le (hfit : cfg.Fits) : cfg.mainBlocks ≤ cfg.poolLba := by
  have htwo := hfit.two_le
  have hlt := hfit.poolLba_lt
  have hpmt : (BitVec.ofNat 16 cfg.poolLba - 2).toNat ≤ cfg.poolLba := by
    have h2 : BitVec.toNat (2 : BitVec 16) = 2 := rfl
    rw [BitVec.toNat_sub, BitVec.toNat_ofNat, h2]
    omega
  exact (shifted_le _ _).trans hpmt

theorem Op.run_defined (hfit : cfg.Fits) {op : Op} (h : Inv cfg s) (hok : Careful cfg s op) :
    ∃ s', op.run cfg env s = .ok s' := by
  cases op with
  | remap block mappedBlock copyLen =>
    obtain ⟨hidx, hblock⟩ := hok
    have hsound := h.sound hidx
    have hwithin := hsound.within
    have hfound : ∃ o, findValidBlockInPool s.bbt s.bmtBlkIdx = .ok o := by
      unfold findValidBlockInPool
      split
      · rename_i k hk
        obtain ⟨hlt, -, -⟩ := findIdx?_eq_some_iff_getElem.mp hk
        rw [length_take] at hlt
        rw [getElem?_eq_getElem (show k < s.bbt.bmtTbl.length by omega)]
        exact ⟨_, rfl⟩
      · exact ⟨none, if_neg (by omega)⟩
    obtain ⟨o, ho⟩ := hfound
    cases o with
    | none => exact ⟨s, by simp [Op.run, remapBlockV2, ho, bind, Except.bind, Except.map]⟩
    | some found =>
      obtain ⟨pb, bbt₁⟩ := found
      obtain ⟨k, e, hk, he, -, -, -, rfl⟩ := findValidBlockInPool_spec ho
      have hblock' : block < s.bbt.bbTbl.length := by rw [hsound.sized]; exact hblock
      simp only [Op.run, remapBlockV2, ho, Bbbt.setMapping, bind, Except.bind, hblock', if_true]
      generalize hs₁ : Bmtd.mk _ _ _ _ = s₁
      obtain ⟨s', hs'⟩ : ∃ s', s₁.upload cfg env = .ok s' :=
        Bmtd.upload_defined (by rw [← hs₁]; simpa using hwithin)
      exact ⟨s', by rw [hs']; rfl⟩
  | unmap block =>
    obtain ⟨hidx, hblock, -⟩ := hok
    have hsound := h.sound hidx
    have hblock' : block < s.bbt.bbTbl.length := by rw [hsound.sized]; exact hblock
    simp only [Op.run, unmapBlockV2, Bbbt.setMapping, bind, Except.bind, hblock', if_true]
    exact Bmtd.upload_defined hsound.within
  | debug =>
    have hsound := h.sound hok.1
    have hmain := Config.mainBlocks_le hfit
    have hlba := hfit.poolLba_le
    have hsized := hsound.sized
    have hwithin := hsound.within
    unfold Op.run mtkBmtDebugV2
    dsimp only
    rw [if_neg (by omega)]
    split
    · exact ⟨s, rfl⟩
    · exact Bmtd.upload_defined (by simpa using hwithin)
  | io nand => exact ⟨_, rfl⟩

theorem Reached.inv (hfit : cfg.Fits) (h : Reached cfg (Careful cfg) s) : Inv cfg s := by
  induction h with
  | scan hnone hinit => exact mtkBmtInitV2_inv hfit hnone hinit
  | step op _ hok hs ih => exact Op.run_inv ih hok hs

/-- In a run whose steps are all careful the mapping stays sound, and no careful step leaves the
    tables. -/
theorem mapping_ok_of_careful (hfit : cfg.Fits) (h : Reached cfg (Careful cfg) s) :
    MappingOk cfg s ∧
      ∀ (env : Env) (op : Op), Careful cfg s op → ∃ s', op.run cfg env s = .ok s' :=
  ⟨(h.inv hfit).mappingOk, fun _ _ hok => Op.run_defined hfit (h.inv hfit) hok⟩

/-! ## Two runs -/

def smallChip : Config := .ofProperties { blkShift := 17, totalBlks := 50 } 512 8 50

def calm : Env where
  eraseFails _ := false
  writeFails _ := false
  wrecked _ := erasedCell smallChip
  copied _ src _ := src
  buffer := (erasedCell smallChip).image

/-- An erased chip with the factory bad blocks `bad`. -/
def factoryNand (bad : List Nat) : Nand := fun b =>
  if b ∈ bad then { erasedCell smallChip with fdm := [0, 0xff, 0xff, 0xff] }
  else erasedCell smallChip

/-- The careful run of `ops`. -/
def carefulRun (cfg : Config) (env : Env) : Bmtd → List Op → Option Bmtd
  | s, [] => some s
  | s, op :: ops =>
    if Careful cfg s op then
      match op.run cfg env s with
      | .ok s' => carefulRun cfg env s' ops
      | .error _ => none
    else none

theorem Reached.carefulRun {ops : List Op} (h : Reached cfg (Careful cfg) s)
    (hrun : carefulRun cfg env s ops = some s') : Reached cfg (Careful cfg) s' := by
  induction ops generalizing s with
  | nil =>
    obtain rfl : s = s' := by simpa [V2.carefulRun] using hrun
    exact h
  | cons op ops ih =>
    unfold V2.carefulRun at hrun
    split at hrun
    · rename_i hok
      split at hrun
      · rename_i s₁ hs₁
        exact ih (h.step op hok hs₁) hrun
      · simp at hrun
    · simp at hrun

theorem smallChip_fits : smallChip.Fits := by
  constructor <;> decide

/-- Block 3 is remapped, the pool cleaned up and block 3 mapped back. -/
theorem mapping_ok_of_careful_example : ∃ s, Reached smallChip (Careful smallChip) s ∧
    MappingOk smallChip s ∧ s.bbt.bbTbl[3]? = some 3 := by
  have hrun : ((mtkBmtInitV2 smallChip calm (factoryNand [])).toOption.bind fun s =>
      carefulRun smallChip calm s [.remap 3 3 0, .debug, .unmap 3, .debug]).map
        (fun s => s.bbt.bbTbl[3]?) = some (some 3) := by decide +kernel
  obtain ⟨s, hs, hthree⟩ := map_eq_some_iff.mp hrun
  obtain ⟨s₀, hinit, hs⟩ := bind_eq_some_iff.mp hs
  have hnone : findBmt smallChip (factoryNand []) smallChip.totalBlks = .ok none := by
    decide +kernel
  have hreach : Reached smallChip (Careful smallChip) s :=
    (Reached.scan hnone (ok_of_toOption hinit)).carefulRun hs
  exact ⟨s, hreach, (mapping_ok_of_careful smallChip_fits hreach).1, hthree⟩

/-- With block 2 bad from the factory block 2 is mapped to 3, and `mark_good` maps block 3
    there too. -/
theorem unmap_collides : ∃ s, Reached smallChip (fun _ _ => True) s ∧ ¬ MappingOk smallChip s := by
  have hrun : ((mtkBmtInitV2 smallChip calm (factoryNand [2])).toOption.bind fun s =>
      (unmapBlockV2 smallChip calm s 3).toOption).map
        (fun s => (s.bbt.bbTbl[2]?, s.bbt.bbTbl[3]?)) = some (some 3, some 3) := by
    decide +kernel
  obtain ⟨s, hs, hval⟩ := map_eq_some_iff.mp hrun
  obtain ⟨s₀, hinit, hs⟩ := bind_eq_some_iff.mp hs
  obtain ⟨htwo, hthree⟩ := Prod.mk.inj hval
  have hnone : findBmt smallChip (factoryNand [2]) smallChip.totalBlks = .ok none := by
    decide +kernel
  refine ⟨s, ?_, fun hok => ?_⟩
  · exact (Reached.scan hnone (ok_of_toOption hinit)).step (.unmap 3) trivial
      (ok_of_toOption hs)
  · exact absurd (hok.injective 2 3 3 (by decide) (by decide) htwo hthree) (by decide)

end LibWrt.MtkBmt.V2
