/-
LibWrt.MtkBmt.Ranges — the remap ranges, in bytes and in blocks.

The ranges of the device tree are bytes, the loops over the blocks of a range
are `int`s. `mapping_block_in_range` returns the bytes of the range, or the
number of blocks where there is no range; its callers shift what they get in any
case. Here the `int`s are what the source has them: a value from 2 GiB on is
below zero.
-/
import LibWrt.MtkBmt.Bbt

namespace LibWrt.MtkBmt.Bbt

open List Option

/-- What an `int` has of a cell of the device tree. -/
def toInt (cell : Nat) : Int := (BitVec.ofNat 32 cell).toInt

/-- `mapping_block_in_range`, with the `int`s that it returns. -/
def mappingBlockInRangeInt (d : Desc) (block : Nat) : Option (Int × Int) :=
  if d.remapRange = [] then some (0, d.totalBlks)
  else (mappingBlockInRange d block).map fun r => (toInt r.1, toInt r.2)

/-- `get_mapping_block_index_bbt`, on these. The loops count from `start`; the block number
    is cut to 16 bits where its state is looked up. -/
def getMappingBlockIndexInt (d : Desc) (s : State) (block : Nat) : Int :=
  match mappingBlockInRangeInt d block with
  | none => block
  | some (start, stop) =>
    let start := start >>> d.blkShift
    let stop := stop >>> d.blkShift
    let n := (stop - start).toNat
    let bad : Nat → Bool := fun k => s.blockIsBad ((start + k) % 2 ^ 16).toNat
    match skipBad bad n 0 (block - start).toNat 0 with
    | (some k, _, _) => start + k
    | (none, ofs, badBlocks) =>
      match takeBad bad 0 n badBlocks ofs with
      | some k => start + k
      | none => block

/-! ## Below 2 GiB -/

theorem toInt_le (cell : Nat) : toInt cell ≤ cell := by
  simp only [toInt, BitVec.toInt_eq_toNat_bmod, BitVec.toNat_ofNat, Int.bmod_def]
  split <;> omega

theorem toInt_eq_iff (cell : Nat) : toInt cell = cell ↔ cell < 2 ^ 31 := by
  simp only [toInt, BitVec.toInt_eq_toNat_bmod, BitVec.toNat_ofNat, Int.bmod_def]
  split <;> omega

theorem shiftRight_natCast (v k : Nat) : (v : Int) >>> k = ((v >>> k : Nat) : Int) := rfl

/-- The first loop, counted from `start`. -/
theorem skipBad_add {bad bad' : Nat → Bool} {start n i : Nat}
    (h : ∀ k < i + n, bad' k = bad (start + k)) (ofs badBlocks : Nat) :
    skipBad bad n (start + i) ofs badBlocks =
      Prod.map (Option.map (start + ·)) id (skipBad bad' n i ofs badBlocks) := by
  induction n generalizing i ofs badBlocks with
  | zero => rfl
  | succ n ih =>
    have ih := @ih (i + 1) (fun k hk => h k (by omega))
    rw [show start + (i + 1) = start + i + 1 by omega] at ih
    simp only [skipBad, h i (by omega)]
    split
    · exact ih ofs (badBlocks + 1)
    · cases ofs with
      | zero => rfl
      | succ ofs => exact ih ofs badBlocks

theorem takeBad_add {bad bad' : Nat → Bool} {start n : Nat}
    (h : ∀ k < n, bad' k = bad (start + k)) (badBlocks ofs : Nat) :
    takeBad bad start n badBlocks ofs =
      (takeBad bad' 0 n badBlocks ofs).map (start + ·) := by
  induction n generalizing badBlocks with
  | zero => rfl
  | succ n ih =>
    have ih := ih fun k hk => h k (by omega)
    simp only [takeBad, Nat.zero_add, h n (by omega), ih]
    split
    · rfl
    · split
      · rfl
      · split <;> rfl

theorem lt_of_found {d : Desc} {block lo hi : Nat} (hd : d.remapRange ≠ [])
    (h : mappingBlockInRange d block = some (lo, hi)) : lo < hi := by
  have hfound := find?_some (by simpa [mappingBlockInRange, hd] using h)
  simp at hfound
  omega

theorem mappingBlockInRangeInt_eq {d : Desc} {block lo hi : Nat} (hd : d.remapRange ≠ [])
    (h : mappingBlockInRange d block = some (lo, hi)) (hhi : hi < 2 ^ 31) :
    mappingBlockInRangeInt d block = some ((lo : Int), (hi : Int)) := by
  have hlo : lo < 2 ^ 31 := (lt_of_found hd h).trans hhi
  simp [mappingBlockInRangeInt, hd, h, (toInt_eq_iff lo).mpr hlo, (toInt_eq_iff hi).mpr hhi]

/-- The two functions are the same on a range that an `int` holds. -/
theorem getMappingBlockIndexInt_eq {d : Desc} {s : State} {block lo hi : Nat}
    (h : mappingBlockInRange d block = some (lo, hi))
    (hrange : mappingBlockInRangeInt d block = some ((lo : Int), (hi : Int)))
    (hblks : hi >>> d.blkShift ≤ 2 ^ 16) :
    getMappingBlockIndexInt d s block = getMappingBlockIndexBbt d s block := by
  have hstart := start_le h
  unfold getMappingBlockIndexInt getMappingBlockIndexBbt
  simp only [hrange, h, shiftRight_natCast]
  generalize lo >>> d.blkShift = start at *
  generalize hi >>> d.blkShift = stop at *
  rw [show ((stop : Int) - start).toNat = stop - start by omega,
    show ((block : Int) - start).toNat = block - start by omega]
  generalize hb : (fun k : Nat => s.blockIsBad (((start : Int) + k) % 2 ^ 16).toNat) = bad'
  have hbad : ∀ k < stop - start, bad' k = s.blockIsBad (start + k) := by
    intro k hk
    rw [← hb]
    change s.blockIsBad _ = _
    congr 1
    omega
  have hskip := skipBad_add (n := stop - start) (i := 0) (fun k hk => hbad k (by omega))
    (block - start) 0
  rw [Nat.add_zero] at hskip
  rw [hskip]
  rcases skipBad bad' (stop - start) 0 (block - start) 0 with ⟨_ | k, ofs, badBlocks⟩
  · simp only [Prod.map, map_none, id]
    rw [takeBad_add hbad]
    cases takeBad bad' 0 (stop - start) badBlocks ofs <;> simp
  · simp

/-! ## A range is permuted -/

section Range

variable {d : Desc} {before after : List (Nat × Nat)} {start stop : Nat}

/-- The range from the block `start` to the block `stop` is configured, no earlier range
    overlaps it, and an `int` has its end. -/
structure Configured (d : Desc) (before after : List (Nat × Nat)) (start stop : Nat) : Prop where
  ranges : d.remapRange = before ++ (start <<< d.blkShift, stop <<< d.blkShift) :: after
  apart : ∀ r ∈ before, r.2 ≤ start <<< d.blkShift ∨ stop <<< d.blkShift ≤ r.1
  stop_lt : stop <<< d.blkShift < 2 ^ 31
  stop_le : stop ≤ 2 ^ 16

theorem shiftLeft_lt_iff {a b k : Nat} : a <<< k < b <<< k ↔ a < b := by
  rw [Nat.shiftLeft_eq, Nat.shiftLeft_eq]
  exact Nat.mul_lt_mul_right (Nat.two_pow_pos k)

theorem Configured.found (h : Configured d before after start stop) {block : Nat}
    (hlo : start ≤ block) (hhi : block < stop) :
    mappingBlockInRange d block = some (start <<< d.blkShift, stop <<< d.blkShift) := by
  have hlo' : start <<< d.blkShift ≤ block <<< d.blkShift :=
    not_lt.mp fun hc => absurd (shiftLeft_lt_iff.mp hc) (not_lt.mpr hlo)
  have hhi' : block <<< d.blkShift < stop <<< d.blkShift := shiftLeft_lt_iff.mpr hhi
  have haddr : block <<< d.blkShift % 2 ^ 32 = block <<< d.blkShift :=
    Nat.mod_eq_of_lt (by have := h.stop_lt; omega)
  have hne : d.remapRange ≠ [] := by simp [h.ranges]
  rw [mappingBlockInRange, if_neg hne, haddr, h.ranges, find?_append]
  have hbefore : before.find? (fun r => decide (¬ (block <<< d.blkShift < r.1 ∨
      block <<< d.blkShift ≥ r.2))) = none := by
    rw [find?_eq_none]
    intro r hr
    have := h.apart r hr
    simp only [decide_eq_true_eq]
    omega
  simp only [hbefore, none_or]
  exact find?_cons_of_pos (by simp only [decide_eq_true_eq]; omega)

/-- The `k`-th block of the range goes to the `k`-th one in the order of the range. -/
theorem Configured.index (h : Configured d before after start stop) (s : State) {k : Nat}
    (hk : k < stop - start) :
    ∃ p, (order s.blockIsBad start (stop - start))[k]? = some p ∧
      getMappingBlockIndexInt d s (start + k) = p := by
  have hfound : mappingBlockInRange d (start + k) =
      some (start <<< d.blkShift, stop <<< d.blkShift) := h.found (by omega) (by omega)
  have hshift : ∀ b, b <<< d.blkShift >>> d.blkShift = b := fun b => Nat.shiftLeft_shiftRight b _
  rw [getMappingBlockIndexInt_eq hfound
    (mappingBlockInRangeInt_eq (by simp [h.ranges]) hfound h.stop_lt)
    (by rw [hshift]; exact h.stop_le), getMappingBlockIndexBbt_eq d s hfound]
  simp only [hshift, Nat.add_sub_cancel_left, if_pos hk]
  have hlt : k < (order s.blockIsBad start (stop - start)).length := by rwa [length_order]
  exact ⟨_, getElem?_eq_getElem hlt, by simp [getElem?_eq_getElem hlt]⟩

theorem mem_order_iff {bad : Nat → Bool} {n i : Nat} :
    i ∈ order bad start n ↔ start ≤ i ∧ i < start + n := by
  simp only [order, goods, bads, mem_append, mem_filter, mem_range'_1]
  cases bad i <;> simp

theorem Configured.bijOn (h : Configured d before after start stop) (s : State) :
    Set.BijOn (getMappingBlockIndexInt d s) (Set.Ico start stop) (Set.Ico (start : Int) stop) := by
  have hindex : ∀ block ∈ Set.Ico start stop, ∃ p,
      (order s.blockIsBad start (stop - start))[block - start]? = some p ∧
        getMappingBlockIndexInt d s block = p := by
    intro block hb
    have := h.index s (k := block - start) (by have := hb.1; have := hb.2; omega)
    rwa [Nat.add_sub_cancel' hb.1] at this
  refine ⟨?_, ?_, ?_⟩
  · intro block hb
    obtain ⟨p, hp, heq⟩ := hindex block hb
    have := mem_order_iff.mp (mem_of_getElem? hp)
    rw [heq, Set.mem_Ico]
    omega
  · intro b hb c hc heq
    obtain ⟨p, hp, hbp⟩ := hindex b hb
    obtain ⟨q, hq, hcq⟩ := hindex c hc
    obtain rfl : p = q := by
      rw [hbp, hcq] at heq
      exact Int.ofNat_inj.mp heq
    have hlt := (List.getElem?_eq_some_iff.mp hp).1
    have := (List.getElem?_inj hlt (nodup_order _ _ _)).mp (hp.trans hq.symm)
    have := hb.1
    have := hc.1
    omega
  · intro i hi
    obtain ⟨hlo, hhi⟩ := hi
    obtain ⟨p, rfl⟩ := Int.eq_ofNat_of_zero_le (show 0 ≤ i by omega)
    have hmem : p ∈ order s.blockIsBad start (stop - start) := mem_order_iff.mpr (by omega)
    obtain ⟨k, hk⟩ := mem_iff_getElem?.mp hmem
    have hlt : k < stop - start := by
      have := (List.getElem?_eq_some_iff.mp hk).1
      rwa [length_order] at this
    obtain ⟨q, hq, heq⟩ := h.index s hlt
    obtain rfl : p = q := some.inj (hk.symm.trans hq)
    exact ⟨start + k, ⟨by omega, by omega⟩, heq⟩

theorem getMappingBlockIndexInt_outside {s : State} {block : Nat} (hd : d.remapRange ≠ [])
    (haddr : block <<< d.blkShift < 2 ^ 32)
    (h : ∀ r ∈ d.remapRange, ¬ (r.1 ≤ block <<< d.blkShift ∧ block <<< d.blkShift < r.2)) :
    getMappingBlockIndexInt d s block = block := by
  have hnone : mappingBlockInRange d block = none := by
    rw [mappingBlockInRange, if_neg hd, Nat.mod_eq_of_lt haddr, find?_eq_none]
    intro r hr
    have := h r hr
    simp only [decide_eq_true_eq]
    omega
  simp [getMappingBlockIndexInt, mappingBlockInRangeInt, hd, hnone]

/-- The blocks of a range that no earlier one overlaps are permuted, the good ones first. -/
theorem range_permuted (h : Configured d before after start stop) (s : State) :
    (∀ k p : Nat, (goods s.blockIsBad start (stop - start))[k]? = some p →
      getMappingBlockIndexInt d s (start + k) = p) ∧
    (∀ k p : Nat, (bads s.blockIsBad start (stop - start))[k]? = some p →
      getMappingBlockIndexInt d s
        (start + ((goods s.blockIsBad start (stop - start)).length + k)) = p) ∧
    Set.BijOn (getMappingBlockIndexInt d s) (Set.Ico start stop) (Set.Ico (start : Int) stop) ∧
    ∀ block, block <<< d.blkShift < 2 ^ 32 →
      (∀ r ∈ d.remapRange, ¬ (r.1 ≤ block <<< d.blkShift ∧ block <<< d.blkShift < r.2)) →
      getMappingBlockIndexInt d s block = block := by
  have hlen := length_goods_add_bads s.blockIsBad start (stop - start)
  refine ⟨fun k p hp => ?_, fun k p hp => ?_, h.bijOn s, fun block haddr hout =>
    getMappingBlockIndexInt_outside (by simp [h.ranges]) haddr hout⟩
  · have hlt := (List.getElem?_eq_some_iff.mp hp).1
    obtain ⟨q, hq, heq⟩ := h.index s (k := k) (by omega)
    rw [order, getElem?_append_left hlt, hp] at hq
    rw [heq, some.inj hq]
  · have hlt := (List.getElem?_eq_some_iff.mp hp).1
    obtain ⟨q, hq, heq⟩ := h.index s
      (k := (goods s.blockIsBad start (stop - start)).length + k) (by omega)
    rw [order, getElem?_append_right (by omega), Nat.add_sub_cancel_left, hp] at hq
    rw [heq, some.inj hq]

/-- A chip of eight blocks of 128 KiB, the block 2 bad, with ranges from block to block. -/
def sampleChip (ranges : List (Nat × Nat)) : Desc × State :=
  ({ blkShift := 17, totalBlks := 8, remapRange := ranges.map fun r => (r.1 <<< 17, r.2 <<< 17) },
    { bbtBuf := [0x30, 0], bmtBlkIdx := 7 })

theorem range_permuted_sample :
    getMappingBlockIndexInt (sampleChip [(0, 4), (4, 6)]).1 (sampleChip []).2 (0 + 2) = (3 : Nat) :=
  (@range_permuted (sampleChip [(0, 4), (4, 6)]).1 [] [(4 <<< 17, 6 <<< 17)] 0 4
    ⟨by decide, by simp, by decide, by decide⟩ (sampleChip []).2).1 2 3 (by decide)

/-- Two ranges that overlap send two blocks of the second one to the same block. -/
theorem range_permuted_fails :
    ¬ ∀ (d : Desc) (s : State) (start stop : Nat),
      (start <<< d.blkShift, stop <<< d.blkShift) ∈ d.remapRange →
        Set.InjOn (getMappingBlockIndexInt d s) (Set.Ico start stop) := by
  intro h
  have := h (sampleChip [(0, 4), (2, 6)]).1 (sampleChip []).2 2 6 (by decide)
    (show 3 ∈ Set.Ico 2 6 by simp) (show 5 ∈ Set.Ico 2 6 by simp) (by decide)
  omega

end Range

/-! ## The units -/

section Units

variable (d : Desc)

def meantBytes (block : Nat) : Option (Nat × Nat) :=
  if d.remapRange = [] then some (0, d.totalBlks <<< d.blkShift) else mappingBlockInRange d block

def converted (k : Nat) (v : Int) : Int := v >>> k * ((2 ^ k : Nat) : Int)

def convertedBytes (block : Nat) : Option (Int × Int) :=
  (mappingBlockInRangeInt d block).map (Prod.map (converted d.blkShift) (converted d.blkShift))

def UnitsAgree : Prop :=
  ∀ block < d.totalBlks, convertedBytes d block =
    (meantBytes d block).map fun r => ((r.1 : Int), (r.2 : Int))

/-- No block of the device goes to a bad block while a good one after that is unused. The
    last four blocks are not part of the device. -/
def NoneWasted : Prop :=
  ∀ (s : State) (block p : Nat), block + 4 < d.totalBlks →
    getMappingBlockIndexInt d s block = p → s.blockIsBad p = true →
    ∀ good, p < good → good < d.totalBlks → s.blockIsBad good = false →
      ∃ b, b + 4 < d.totalBlks ∧ getMappingBlockIndexInt d s b = good

/-- Ranges are configured, in blocks, and below 2 GiB. -/
def InBlocks : Prop :=
  if d.remapRange = [] then d.blkShift = 0 ∨ d.totalBlks = 0
  else ∀ block < d.totalBlks, ∀ lo hi, mappingBlockInRange d block = some (lo, hi) →
    2 ^ d.blkShift ∣ lo ∧ 2 ^ d.blkShift ∣ hi ∧ hi < 2 ^ 31

variable {d}

theorem converted_eq_iff (v k : Nat) : converted k (toInt v) = v ↔ 2 ^ k ∣ v ∧ v < 2 ^ 31 := by
  have hpow : (0 : Int) < ((2 ^ k : Nat) : Int) := by exact_mod_cast Nat.two_pow_pos k
  rw [converted, Int.shiftRight_eq_div_pow]
  constructor
  · intro h
    have hle := Int.ediv_mul_le (toInt v) hpow.ne'
    have heq : toInt v = v := le_antisymm (toInt_le v) (h ▸ hle)
    exact ⟨Int.natCast_dvd_natCast.mp (Dvd.intro_left _ h), (toInt_eq_iff v).mp heq⟩
  · rintro ⟨hdvd, hlt⟩
    rw [(toInt_eq_iff v).mpr hlt]
    exact Int.ediv_mul_cancel (Int.natCast_dvd_natCast.mpr hdvd)

/-- Without a range the mapping goes over the whole chip if a block is one byte. -/
theorem index_whole {s : State} (hd : d.remapRange = []) (hshift : d.blkShift = 0)
    (htotal : d.totalBlks < 2 ^ 16) {block : Nat} (hb : block < d.totalBlks) :
    ∃ p, (order s.blockIsBad 0 d.totalBlks)[block]? = some p ∧
      getMappingBlockIndexInt d s block = p := by
  have hfound : mappingBlockInRange d block = some (0, d.totalBlks) := by
    simp [mappingBlockInRange, hd]
  rw [getMappingBlockIndexInt_eq hfound (by simp [mappingBlockInRangeInt, hd])
    (by simp [hshift]; omega), getMappingBlockIndexBbt_eq d s hfound]
  have hlt : block < (order s.blockIsBad 0 d.totalBlks).length := by rwa [length_order]
  refine ⟨_, getElem?_eq_getElem hlt, ?_⟩
  simp [hshift, hb]

theorem noneWasted_whole (hd : d.remapRange = []) (hshift : d.blkShift = 0)
    (htotal : d.totalBlks < 2 ^ 16) : NoneWasted d := by
  intro s block p hb hp hbad good hpg hgood hok
  obtain ⟨q, hq, heq⟩ := index_whole (s := s) hd hshift htotal (show block < d.totalBlks by omega)
  obtain rfl : p = q := Int.ofNat_inj.mp (hp.symm.trans heq)
  -- A bad block comes after all good ones.
  have hlen : (goods s.blockIsBad 0 d.totalBlks).length ≤ block := by
    by_contra hlt
    rw [order, getElem?_append_left (not_le.mp hlt)] at hq
    have := (mem_filter.mp (mem_of_getElem? hq)).2
    simp [hbad] at this
  have hmem : good ∈ goods s.blockIsBad 0 d.totalBlks :=
    mem_filter.mpr ⟨by simp [mem_range'_1, hgood], by simp [hok]⟩
  obtain ⟨b, hb'⟩ := mem_iff_getElem?.mp hmem
  have hlt := (List.getElem?_eq_some_iff.mp hb').1
  obtain ⟨q, hq, heq⟩ := index_whole (s := s) hd hshift htotal (show b < d.totalBlks by omega)
  rw [order, getElem?_append_left hlt, hb'] at hq
  exact ⟨b, by omega, by rw [heq, ← some.inj hq]⟩

theorem unitsAgree_none_iff (hd : d.remapRange = []) :
    UnitsAgree d ↔ d.blkShift = 0 ∨ d.totalBlks = 0 := by
  have hagree : ∀ block, convertedBytes d block =
      (meantBytes d block).map (fun r => ((r.1 : Int), (r.2 : Int))) ↔
      (d.totalBlks >>> d.blkShift) * 2 ^ d.blkShift = d.totalBlks <<< d.blkShift := by
    intro block
    simp only [convertedBytes, mappingBlockInRangeInt, meantBytes, hd, if_true, map_some,
      some.injEq, Prod.map, Prod.mk.injEq, converted, shiftRight_natCast]
    rw [← Int.ofNat_inj]
    simp
  unfold UnitsAgree
  simp only [hagree]
  rcases Nat.eq_zero_or_pos d.totalBlks with hz | hpos
  · simp [hz]
  constructor
  · intro h
    have heq := h 0 hpos
    refine .inl (Nat.eq_zero_of_not_pos fun hk => ?_)
    have hle : (d.totalBlks >>> d.blkShift) * 2 ^ d.blkShift ≤ d.totalBlks := by
      rw [Nat.shiftRight_eq_div_pow]
      exact Nat.div_mul_le_self _ _
    have hgt : 2 ≤ 2 ^ d.blkShift := Nat.le_self_pow hk.ne' 2
    rw [heq, Nat.shiftLeft_eq] at hle
    have := Nat.mul_le_mul_left d.totalBlks hgt
    omega
  · rintro (h | h) block -
    · simp [h]
    · omega

theorem unitsAgree_ranges_iff (hd : d.remapRange ≠ []) :
    UnitsAgree d ↔ ∀ block < d.totalBlks, ∀ lo hi, mappingBlockInRange d block = some (lo, hi) →
      2 ^ d.blkShift ∣ lo ∧ 2 ^ d.blkShift ∣ hi ∧ hi < 2 ^ 31 := by
  refine forall₂_congr fun block _ => ?_
  cases hr : mappingBlockInRange d block with
  | none => simp [convertedBytes, mappingBlockInRangeInt, meantBytes, hd, hr]
  | some r =>
    have hlt := lt_of_found hd hr
    simp only [convertedBytes, mappingBlockInRangeInt, meantBytes, hd, hr, if_false,
      map_some, some.injEq, Prod.map, Prod.mk.injEq, converted_eq_iff]
    constructor
    · rintro ⟨hlo, hhi⟩ lo hi rfl
      exact ⟨hlo.1, hhi⟩
    · intro h
      obtain ⟨hlo, hhi, hend⟩ := h r.1 r.2 rfl
      exact ⟨⟨hlo, hlt.trans hend⟩, hhi, hend⟩

/-- The units agree, and no good block is wasted, where the ranges are given in blocks. -/
theorem units_agree_iff (htotal : d.totalBlks < 2 ^ 16) :
    UnitsAgree d ∧ (d.remapRange = [] → NoneWasted d) ↔ InBlocks d := by
  unfold InBlocks
  by_cases hd : d.remapRange = []
  · rw [if_pos hd, unitsAgree_none_iff hd]
    refine and_iff_left_of_imp fun h _ => ?_
    rcases h with h | h
    · exact noneWasted_whole hd h htotal
    · intro s block p hb
      omega
  · rw [if_neg hd, unitsAgree_ranges_iff hd]
    exact and_iff_left fun h => absurd h hd

theorem units_agree_sample :
    UnitsAgree (sampleChip [(0, 4)]).1 ∧
      ((sampleChip [(0, 4)]).1.remapRange = [] → NoneWasted (sampleChip [(0, 4)]).1) :=
  (units_agree_iff (d := (sampleChip [(0, 4)]).1) (by decide)).mpr (by
    rw [InBlocks, if_neg (by decide)]
    intro block _ lo hi h
    obtain ⟨rfl, rfl⟩ : 0 = lo ∧ 4 <<< 17 = hi := by
      have hmem := mem_of_find?_eq_some h
      simpa [sampleChip, eq_comm] using hmem
    decide)

/-- Without a range a bad block is kept, while the last blocks are good and unused. -/
theorem units_agree_fails :
    ¬ ∀ d : Desc, d.totalBlks < 2 ^ 16 →
      UnitsAgree d ∧ (d.remapRange = [] → NoneWasted d) := by
  intro h
  have hall := h (sampleChip []).1 (by decide)
  have hwaste := hall.2 rfl (sampleChip []).2 2 2 (by decide) (by decide) (by decide) 7
    (by decide) (by decide) (by decide)
  obtain ⟨b, hb, heq⟩ := hwaste
  have hlt : b < 4 := by
    change b + 4 < 8 at hb
    omega
  interval_cases b <;> revert heq <;> decide

end Units

end LibWrt.MtkBmt.Bbt
