/-
LibWrt.MtkBmt.Bbt — the bad block table of `mtk_bmt_bbt.c`.

There is no stored mapping: a block of a range maps to the good block of its
number in the range, and when these run out to a bad one, so the range is
used in the order of `order`: its good blocks, then its bad ones. A remap marks
the block it maps away from bad (`remapBlockBbt_blockIsBad`).

Addresses and block numbers are those of a chip whose size fits the `int`s
the source keeps them in.
-/
import LibWrt.MtkBmt.Desc
import LibWrt.Lib.Packed

namespace LibWrt.MtkBmt.Bbt

open List Option

inductive Call where
  | erase (block : Nat)
  | writeBmt (block : Nat) (buf : List (BitVec 8))
  | copy (dest src maxOffset : Nat)
  deriving DecidableEq

structure State where
  /-- two bits for each block, both set for a bad one -/
  bbtBuf : List (BitVec 8)
  bmtBlkIdx : Nat
  calls : List Call := []
  deriving DecidableEq

/-- `bbt_block_is_bad` -/
def State.blockIsBad (s : State) (block : Nat) : Bool := Packed.get s.bbtBuf block != 0

/-- `bbt_set_block_state`. A block beyond the buffer is not defined. -/
def bbtSetBlockState (s : State) (block : Nat) (bad : Bool) : Option State :=
  if block / 4 < s.bbtBuf.length then
    let buf := Packed.set s.bbtBuf block (if bad then 3 else 0)
    some
      { s with
        bbtBuf := buf
        calls := s.calls ++ [.erase s.bmtBlkIdx, .writeBmt s.bmtBlkIdx buf] }
  else none

/-- The first loop of `get_mapping_block_index_bbt` over `n` blocks from `i` on: the block
    it stops at, and what is left of `ofs` and found of bad blocks. -/
def skipBad (bad : Nat → Bool) : Nat → Nat → Nat → Nat → Option Nat × Nat × Nat
  | 0, _, ofs, badBlocks => (none, ofs, badBlocks)
  | n + 1, i, ofs, badBlocks =>
    if bad i then skipBad bad n (i + 1) ofs (badBlocks + 1)
    else
      match ofs with
      | 0 => (some i, 0, badBlocks)
      | ofs + 1 => skipBad bad n (i + 1) ofs badBlocks

/-- The second loop, down from the block before `start + n`. -/
def takeBad (bad : Nat → Bool) (start : Nat) : Nat → Nat → Nat → Option Nat
  | 0, _, _ => none
  | n + 1, badBlocks, ofs =>
    if badBlocks = 0 then none
    else if !bad (start + n) then takeBad bad start n badBlocks ofs
    else if badBlocks - 1 ≤ ofs then some (start + n)
    else takeBad bad start n (badBlocks - 1) ofs

/-- `get_mapping_block_index_bbt` -/
def getMappingBlockIndexBbt (d : Desc) (s : State) (block : Nat) : Nat :=
  match mappingBlockInRange d block with
  | none => block
  | some (lo, hi) =>
    let start := lo >>> d.blkShift
    let n := (hi >>> d.blkShift) - start
    match skipBad s.blockIsBad n start (block - start) 0 with
    | (some i, _, _) => i
    | (none, ofs, badBlocks) => (takeBad s.blockIsBad start n badBlocks ofs).getD block

/-- `remap_block_bbt` -/
def remapBlockBbt (d : Desc) (s : State) (block mappedBlk copyLen : Nat) :
    Option (Bool × State) :=
  match mappingBlockInRange d block with
  | none => some (false, s)
  | some _ => do
    let s ← bbtSetBlockState s mappedBlk true
    let newBlk := getMappingBlockIndexBbt d s block
    let copy := if copyLen > 0 then [.copy newBlk mappedBlk copyLen] else []
    some (true, { s with calls := s.calls ++ .erase newBlk :: copy })

/-! ## The order of a range -/

def goods (bad : Nat → Bool) (start n : Nat) : List Nat :=
  (range' start n).filter fun i => !bad i

def bads (bad : Nat → Bool) (start n : Nat) : List Nat := (range' start n).filter bad

def order (bad : Nat → Bool) (start n : Nat) : List Nat := goods bad start n ++ bads bad start n

theorem length_goods_add_bads (bad : Nat → Bool) (start n : Nat) :
    (goods bad start n).length + (bads bad start n).length = n := by
  induction n generalizing start with
  | zero => rfl
  | succ n ih =>
    have := ih (start + 1)
    simp only [goods, bads, range'_succ, filter_cons] at this ⊢
    cases bad start <;> simp <;> omega

@[simp] theorem length_order (bad : Nat → Bool) (start n : Nat) :
    (order bad start n).length = n := by
  simp [order, length_goods_add_bads]

theorem skipBad_spec (bad : Nat → Bool) (n i ofs badBlocks : Nat) :
    if ofs < (goods bad i n).length then (skipBad bad n i ofs badBlocks).1 = (goods bad i n)[ofs]?
    else skipBad bad n i ofs badBlocks =
      (none, ofs - (goods bad i n).length, badBlocks + (bads bad i n).length) := by
  induction n generalizing i ofs badBlocks with
  | zero => simp [goods, bads, skipBad]
  | succ n ih =>
    have hgoods : goods bad i (n + 1) =
        if bad i then goods bad (i + 1) n else i :: goods bad (i + 1) n := by
      simp only [goods, range'_succ, filter_cons]
      cases bad i <;> rfl
    have hbads : bads bad i (n + 1) =
        if bad i then i :: bads bad (i + 1) n else bads bad (i + 1) n := by
      simp only [bads, range'_succ, filter_cons]
    cases hi : bad i with
    | true =>
      have := ih (i + 1) ofs (badBlocks + 1)
      simp only [skipBad, hgoods, hbads, hi, if_true, length_cons]
      rw [show badBlocks + ((bads bad (i + 1) n).length + 1) =
        badBlocks + 1 + (bads bad (i + 1) n).length by omega]
      exact this
    | false =>
      cases ofs with
      | zero => simp [skipBad, hgoods, hi]
      | succ ofs =>
        have := ih (i + 1) ofs badBlocks
        simp only [skipBad, hgoods, hbads, hi, Bool.false_eq_true, if_false, length_cons,
          Nat.add_lt_add_iff_right, getElem?_cons_succ, Nat.add_sub_add_right]
        exact this

theorem takeBad_spec (bad : Nat → Bool) (start n ofs : Nat) :
    takeBad bad start n (bads bad start n).length ofs =
      (bads bad start n)[min ofs ((bads bad start n).length - 1)]? := by
  induction n with
  | zero => simp [bads, takeBad]
  | succ n ih =>
    have hbads : bads bad start (n + 1) =
        bads bad start n ++ if bad (start + n) then [start + n] else [] := by
      simp only [bads, range'_1_concat, filter_append, filter_cons,
        filter_nil]
    cases hlast : bad (start + n) with
    | false =>
      have hsame : bads bad start (n + 1) = bads bad start n := by simp [hbads, hlast]
      rw [hsame, takeBad]
      by_cases hz : (bads bad start n).length = 0
      · simp [length_eq_zero_iff.mp hz]
      · simp [hz, hlast, ih]
    | true =>
      have hmore : bads bad start (n + 1) = bads bad start n ++ [start + n] := by
        simp [hbads, hlast]
      rw [hmore, takeBad]
      simp only [length_append, length_singleton, Nat.add_one_ne_zero, if_false, hlast,
        Bool.not_true, Bool.false_eq_true, Nat.add_sub_cancel]
      by_cases hle : (bads bad start n).length ≤ ofs
      · rw [if_pos hle, Nat.min_eq_right hle, getElem?_concat_length]
      · have hlt : min ofs (bads bad start n).length = ofs := by omega
        have hlt' : min ofs ((bads bad start n).length - 1) = ofs := by omega
        rw [if_neg hle, ih, hlt, hlt', getElem?_append_left (by omega)]

variable {d : Desc} {s s' : State} {block m start n : Nat} {bad : Nat → Bool}

/-- A block of the range maps to the entry of its number in the order; one beyond the range
    to the last bad block there is. -/
theorem getMappingBlockIndexBbt_eq (d : Desc) (s : State) {lo hi : Nat}
    (h : mappingBlockInRange d block = some (lo, hi)) :
    getMappingBlockIndexBbt d s block =
      (let start := lo >>> d.blkShift
       let n := (hi >>> d.blkShift) - start
       if block - start < n then (order s.blockIsBad start n)[block - start]?.getD block
       else (bads s.blockIsBad start n).getLast?.getD block) := by
  unfold getMappingBlockIndexBbt
  simp only [h]
  generalize lo >>> d.blkShift = start
  generalize hi >>> d.blkShift - start = n
  have hlen := length_goods_add_bads s.blockIsBad start n
  have hskip := skipBad_spec s.blockIsBad n start (block - start) 0
  by_cases hgood : block - start < (goods s.blockIsBad start n).length
  · rw [if_pos hgood] at hskip
    rw [if_pos (by omega), order, getElem?_append_left hgood]
    rcases hr : skipBad s.blockIsBad n start (block - start) 0 with ⟨o, ofs, k⟩
    rw [hr] at hskip
    obtain ⟨i, hi⟩ : ∃ i, (goods s.blockIsBad start n)[block - start]? = some i :=
      ⟨_, getElem?_eq_getElem hgood⟩
    rw [hi] at hskip ⊢
    cases hskip
    rfl
  · rw [if_neg hgood] at hskip
    rw [hskip]
    simp only [Nat.zero_add]
    rw [takeBad_spec]
    split
    · rename_i hin
      rw [order, getElem?_append_right (by omega), Nat.min_eq_left (by omega)]
    · rw [Nat.min_eq_right (by omega), getLast?_eq_getElem?]

theorem start_le {lo hi : Nat} (h : mappingBlockInRange d block = some (lo, hi)) :
    lo >>> d.blkShift ≤ block := by
  unfold mappingBlockInRange at h
  split at h
  · obtain ⟨rfl, rfl⟩ := by simpa using h
    simp
  · have hfound := find?_some h
    have hlo : lo ≤ block <<< d.blkShift := by
      have hmod := Nat.mod_le (block <<< d.blkShift) (2 ^ 32)
      simp at hfound
      omega
    rw [Nat.shiftRight_eq_div_pow]
    rw [Nat.shiftLeft_eq] at hlo
    exact Nat.div_le_of_le_mul (by rw [Nat.mul_comm]; exact hlo)

theorem nodup_order (bad : Nat → Bool) (start n : Nat) : (order bad start n).Nodup := by
  unfold order goods bads
  have hrange : (range' start n).Nodup := nodup_range'
  refine List.Nodup.append (hrange.filter _) (hrange.filter _) ?_
  intro i hi hi'
  have h₁ := (mem_filter.mp hi).2
  have h₂ := (mem_filter.mp hi').2
  simp [h₂] at h₁

/-! ## Marking a block bad -/

/-- The bad blocks with `m` among them. -/
def marked (bad : Nat → Bool) (m : Nat) : Nat → Bool := fun i => i == m || bad i

theorem blockIsBad_setBad (h : bbtSetBlockState s m true = some s') :
    s'.blockIsBad = marked s.blockIsBad m := by
  unfold bbtSetBlockState at h
  split at h
  · rename_i hlen
    have hbuf : s'.bbtBuf = Packed.set s.bbtBuf m 3 := by rw [← some.inj h]; rfl
    funext i
    unfold State.blockIsBad marked
    rw [hbuf]
    by_cases hi : i = m
    · subst hi
      rw [Packed.get_set_self (by decide) _ _ hlen]
      simp
    · rw [Packed.get_set_ne (by decide) _ _ (Ne.symm hi)]
      simp [hi]
  · simp at h

/-- A remap marks the block it maps away from. -/
theorem remapBlockBbt_blockIsBad {mappedBlk copyLen : Nat}
    (h : remapBlockBbt d s block mappedBlk copyLen = some (true, s')) :
    s'.blockIsBad = marked s.blockIsBad mappedBlk := by
  unfold remapBlockBbt at h
  split at h
  · simp at h
  · obtain ⟨s₁, hset, h⟩ := bind_eq_some_iff.mp h
    obtain rfl := (Prod.mk.inj (some.inj h)).2
    have hbad : s₁.blockIsBad = marked s.blockIsBad mappedBlk := blockIsBad_setBad hset
    exact hbad

end LibWrt.MtkBmt.Bbt
