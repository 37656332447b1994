/-
LibWrt.Mtd.Dump — `mtd_dump` and `mtd_verify`.

The dumper reads a block at a time and drops the ones that are bad. Of the last
one it reads what is asked for, and moves on by that much only if the block is
bad. The verifier hashes all bytes as they come, those of bad blocks too.
-/
import LibWrt.Mtd.Write

namespace LibWrt.Mtd

open Nat

/-! ## `mtd_dump` -/

structure Dumper where
  pos : Nat
  offset : Nat
  size : Nat
  out : List UInt8

def dumpTurn (c : Chip) (d : Dumper) : Except Stop (Option Dumper) :=
  let len := if c.geo.erasesize < d.size then c.geo.erasesize else d.size
  let buf := c.read d.pos len
  let rlen := buf.length
  if rlen = 0 ∨ rlen ≠ len then .ok none
  else
    match c.mtdBlockIsBad d.offset with
    | none => .error .exit
    | some true => .ok (some { d with pos := d.pos + rlen, offset := d.offset + rlen })
    | some false =>
      .ok (some { pos := d.pos + rlen, offset := d.offset + rlen, size := d.size - rlen
                  out := d.out ++ buf })

def dumpLoop (c : Chip) : Nat → Dumper → Except Stop Dumper
  | 0, _ => .error .stuck
  | n + 1, d =>
    match dumpTurn c d with
    | .error stop => .error stop
    | .ok none => .ok d
    | .ok (some d) => if 0 < d.size then dumpLoop c n d else .ok d

/-- What is written to the standard output; without a size it is the whole partition. -/
def mtdDump (c : Chip) (partOffset size : Nat) : Except Stop (List UInt8) :=
  let size := if size = 0 then c.geo.size else size
  (dumpLoop c (c.geo.size + 1)
    { pos := c.geo.seekSet partOffset, offset := 0, size := size, out := [] }).map (·.out)

/-! ## `mtd_verify` -/

/-- The md5 sums of `libubox`: the sum of a file is that of its bytes, in whatever pieces
these are hashed. -/
structure Md5 where
  Ctx : Type
  Digest : Type
  [decEq : DecidableEq Digest]
  md5Begin : Ctx
  md5Hash : List UInt8 → Ctx → Ctx
  md5End : Ctx → Digest
  md5sum : List UInt8 → Digest
  md5sum_flatten : ∀ pieces : List (List UInt8),
    md5sum pieces.flatten = md5End (pieces.foldl (fun ctx piece => md5Hash piece ctx) md5Begin)

instance (md5 : Md5) : DecidableEq md5.Digest := md5.decEq

structure Verifier (md5 : Md5) where
  pos : Nat
  /-- `s.st_size` -/
  size : Nat
  ctx : md5.Ctx

def verifyTurn (md5 : Md5) (c : Chip) (v : Verifier md5) : Option (Verifier md5) :=
  let len := if 256 < v.size then 256 else v.size
  let buf := c.read v.pos len
  let rlen := buf.length
  if rlen = 0 then none
  else some { pos := v.pos + rlen, size := v.size - rlen, ctx := md5.md5Hash buf v.ctx }

def verifyLoop (md5 : Md5) (c : Chip) : Nat → Verifier md5 → Except Stop (Verifier md5)
  | 0, _ => .error .stuck
  | n + 1, v =>
    match verifyTurn md5 c v with
    | none => .ok v
    | some v => if 0 < v.size then verifyLoop md5 c n v else .ok v

def mtdVerify (md5 : Md5) (c : Chip) (file : List UInt8) : Except Stop Bool :=
  (verifyLoop md5 c (file.length + 1)
    { pos := 0, size := file.length, ctx := md5.md5Begin }).map fun v =>
      decide (md5.md5sum file = md5.md5End v.ctx)

/-! ## Verifying -/

section Verify

variable {md5 : Md5} {c : Chip}

def Hashed (v : Verifier md5) (bytes : List UInt8) (ctx : md5.Ctx) : Prop :=
  ∃ pieces : List (List UInt8), pieces.flatten = bytes ∧
    ctx = pieces.foldl (fun ctx piece => md5.md5Hash piece ctx) v.ctx

theorem verifyLoop_eq {n : Nat} {v : Verifier md5} (hn : v.size < n) :
    ∃ v', verifyLoop md5 c n v = .ok v' ∧ Hashed v (c.read v.pos v.size) v'.ctx := by
  induction n generalizing v with
  | zero => omega
  | succ n ih =>
    obtain ⟨len, hlen⟩ : ∃ len, len = if 256 < v.size then 256 else v.size := ⟨_, rfl⟩
    obtain ⟨m, hm⟩ : ∃ m, (c.read v.pos len).length = m := ⟨_, rfl⟩
    have hle : len ≤ v.size := by
      rw [hlen]
      split_ifs <;> omega
    have hsplit := read_split hle hm
    rw [verifyLoop, verifyTurn, ← hlen, hm]
    by_cases hzero : m = 0
    · -- There are no more bytes.
      rw [if_pos hzero]
      refine ⟨v, rfl, [], ?_, rfl⟩
      rw [length_read] at hm
      have hnone : min v.size (c.geo.size - v.pos) = 0 := by
        split_ifs at hlen <;> omega
      exact (List.length_eq_zero_iff.mp (by rw [length_read, hnone])).symm
    · rw [if_neg hzero]
      dsimp only
      have hmle : m ≤ v.size := by
        rw [length_read] at hm
        omega
      split_ifs with hmore
      · obtain ⟨v', hloop, pieces, hpieces, hctx⟩ :=
          ih (v := ⟨v.pos + m, v.size - m, md5.md5Hash (c.read v.pos len) v.ctx⟩)
            (by dsimp only; omega)
        refine ⟨v', hloop, c.read v.pos len :: pieces, ?_, hctx⟩
        rw [List.flatten_cons, hpieces, ← hsplit]
      · refine ⟨_, rfl, [c.read v.pos len], ?_, rfl⟩
        have hrest : v.size - m = 0 := by omega
        rw [hsplit, hrest]
        simp [Chip.read]

/-- Verified is what the partition begins with, in bad blocks too. -/
theorem mtdVerify_eq (md5 : Md5) (c : Chip) (file : List UInt8) : mtdVerify md5 c file =
    .ok (decide (md5.md5sum file = md5.md5sum (c.read 0 file.length))) := by
  obtain ⟨v', hloop, pieces, hpieces, hctx⟩ := verifyLoop_eq (c := c)
    (v := (⟨0, file.length, md5.md5Begin⟩ : Verifier md5)) (lt_succ_self file.length)
  have hsum : md5.md5End v'.ctx = md5.md5sum (c.read 0 file.length) := by
    rw [hctx, ← md5.md5sum_flatten, hpieces]
  rw [mtdVerify, hloop, ← hsum]
  rfl

end Verify

/-! ## Dumping -/

def dumped (c : Chip) : Nat → List UInt8
  | 0 => []
  | j + 1 =>
    if c.geo.Good j then dumped c j ++ c.read (j * c.geo.erasesize) c.geo.erasesize
    else dumped c j

def atBlock (c : Chip) (size j : Nat) : Dumper where
  pos := j * c.geo.erasesize
  offset := j * c.geo.erasesize
  size := size - count c.geo.Good j * c.geo.erasesize
  out := dumped c j

section Dumping

variable {c : Chip} {size j n : Nat}

theorem dumpTurn_piece {d : Dumper} {len : Nat} (hpos : d.offset = d.pos)
    (hlen : len = if c.geo.erasesize < d.size then c.geo.erasesize else d.size)
    (hzero : 0 < len) (hroom : d.pos + len ≤ c.geo.size) :
    dumpTurn c d = .ok (some
      (if c.geo.Good (d.pos / c.geo.erasesize) then
        { pos := d.pos + len, offset := d.pos + len, size := d.size - len
          out := d.out ++ c.read d.pos len }
      else { d with pos := d.pos + len, offset := d.pos + len })) := by
  have hread : (c.read d.pos len).length = len := by
    rw [length_read]
    omega
  rw [dumpTurn, ← hlen, hread, if_neg (by omega), hpos, Chip.mtdBlockIsBad_eq (by omega)]
  by_cases hgood : c.geo.Good (d.pos / c.geo.erasesize)
  · simp [hgood]
  · simp [hgood]

/-- Where a piece is cut short, the loop ends. -/
theorem dumpTurn_end {d : Dumper} {len : Nat}
    (hlen : len = if c.geo.erasesize < d.size then c.geo.erasesize else d.size)
    (hshort : c.geo.size < d.pos + len ∨ len = 0) : dumpTurn c d = .ok none := by
  rw [dumpTurn, ← hlen, length_read, if_pos (by omega)]

def dumpOn (c : Chip) (n : Nat) (d : Dumper) : Except Stop Dumper :=
  if 0 < d.size then dumpLoop c n d else .ok d

theorem dumpLoop_of_turn {d d' : Dumper} (h : dumpTurn c d = .ok (some d')) :
    dumpLoop c (n + 1) d = dumpOn c n d' := by
  rw [dumpLoop, h]
  rfl

theorem dumpTurn_block (hj : j < c.geo.blocks)
    (hroom : (count c.geo.Good j + 1) * c.geo.erasesize ≤ size) :
    dumpTurn c (atBlock c size j) = .ok (some (atBlock c size (j + 1))) := by
  have hpos := c.geo.erasesize_pos
  have hsize : (j + 1) * c.geo.erasesize ≤ c.geo.size := by
    rw [Geometry.size, Nat.mul_comm c.geo.erasesize]
    exact Nat.mul_le_mul_right _ hj
  rw [succ_mul] at hroom hsize
  have hlen : c.geo.erasesize = if c.geo.erasesize < (atBlock c size j).size then
      c.geo.erasesize else (atBlock c size j).size := by
    have hbig : c.geo.erasesize ≤ (atBlock c size j).size := by
      dsimp only [atBlock]
      omega
    split_ifs with hlt
    · rfl
    · omega
  rw [dumpTurn_piece rfl hlen hpos hsize]
  have hdiv : (atBlock c size j).pos / c.geo.erasesize = j := Nat.mul_div_cancel _ hpos
  rw [hdiv]
  by_cases hgood : c.geo.Good j
  · simp only [atBlock, if_pos hgood, dumped, count_succ, succ_mul, Nat.sub_sub]
  · simp only [atBlock, if_neg hgood, dumped, count_succ, succ_mul, Nat.add_zero]

theorem dumpLoop_blocks (hsize : 0 < size) (hj : j ≤ c.geo.blocks)
    (hroom : ∀ i < j, (count c.geo.Good i + 1) * c.geo.erasesize ≤ size) :
    dumpLoop c (n + j) (atBlock c size 0) = dumpOn c n (atBlock c size j) := by
  induction j generalizing n with
  | zero =>
    have hleft : 0 < (atBlock c size 0).size := by simpa [atBlock] using hsize
    rw [dumpOn, if_pos hleft]
    rfl
  | succ j ih =>
    have hmore := hroom j (lt_succ_self j)
    have hleft : 0 < (atBlock c size j).size := by
      have hpos := c.geo.erasesize_pos
      rw [succ_mul] at hmore
      dsimp only [atBlock]
      omega
    have hturns : n + (j + 1) = n + 1 + j := by omega
    rw [hturns, ih (le_of_succ_le hj) fun i hi => hroom i (lt_succ_of_lt hi), dumpOn,
      if_pos hleft, dumpLoop_of_turn (dumpTurn_block hj hmore)]

/-- What is asked for from good blocks is dumped. -/
theorem dumpLoop_good {d : Dumper} (hpos : d.offset = d.pos) (hsize : 0 < d.size)
    (hroom : d.pos + d.size ≤ c.geo.size)
    (hgood : ∀ b, b * c.geo.erasesize < d.pos + d.size → c.geo.Good b) (hn : d.size ≤ n) :
    ∃ d', dumpLoop c n d = .ok d' ∧ d'.out = d.out ++ c.read d.pos d.size := by
  induction n generalizing d with
  | zero => omega
  | succ n ih =>
    obtain ⟨len, hlen⟩ : ∃ len, len = if c.geo.erasesize < d.size then c.geo.erasesize
      else d.size := ⟨_, rfl⟩
    have hes := c.geo.erasesize_pos
    have hle : 0 < len ∧ len ≤ d.size := by
      rw [hlen]
      split_ifs <;> omega
    have hblock : c.geo.Good (d.pos / c.geo.erasesize) :=
      hgood _ ((div_mul_le_self _ _).trans_lt (by omega))
    have hturn := dumpTurn_piece hpos hlen hle.1 (by omega)
    rw [if_pos hblock] at hturn
    have hread : (c.read d.pos len).length = len := by
      rw [length_read]
      omega
    rw [dumpLoop_of_turn hturn, dumpOn, read_split hle.2 hread, ← List.append_assoc]
    dsimp only
    split_ifs with hmore
    · exact ih (d := ⟨d.pos + len, d.pos + len, d.size - len, d.out ++ c.read d.pos len⟩) rfl
        hmore (by dsimp only; omega) (fun b hb => hgood b (by dsimp only at hb; omega))
        (by dsimp only; omega)
    · have hnone : d.size - len = 0 := by omega
      refine ⟨_, rfl, ?_⟩
      rw [hnone, read_zero, List.append_nil]

theorem mtdDump_good (hsize : 0 < size) (hroom : size ≤ c.geo.size)
    (hgood : ∀ b, b * c.geo.erasesize < size → c.geo.Good b) :
    mtdDump c 0 size = .ok (c.read 0 size) := by
  have hstart : c.geo.seekSet 0 = 0 := by simp [Geometry.seekSet]
  obtain ⟨d, hloop, hout⟩ := dumpLoop_good (c := c) (n := c.geo.size + 1)
    (d := ⟨0, 0, size, []⟩) rfl hsize (by simpa using hroom) (by simpa using hgood)
    (by dsimp only; omega)
  rw [mtdDump, if_neg hsize.ne', hstart, hloop]
  exact congrArg Except.ok hout

/-- Without a size all good blocks are dumped. -/
theorem mtdDump_zero (c : Chip) : mtdDump c 0 0 = .ok (dumped c c.geo.blocks) := by
  have hstart : c.geo.seekSet 0 = 0 := by simp [Geometry.seekSet]
  have hall := blocks_mul c.geo
  have hjle := le_mul_erasesize c.geo c.geo.blocks
  have hroom : ∀ i < c.geo.blocks,
      (count c.geo.Good i + 1) * c.geo.erasesize ≤ c.geo.size := by
    intro i hi
    rw [← hall]
    exact Nat.mul_le_mul_right _ (Nat.lt_of_le_of_lt (count_le _) hi)
  have hturns : c.geo.size + 1 = c.geo.size - c.geo.blocks + 1 + c.geo.blocks := by omega
  have hfirst : (⟨0, 0, c.geo.size, []⟩ : Dumper) = atBlock c c.geo.size 0 := by
    simp [atBlock, dumped]
  rw [mtdDump, if_pos rfl, hstart, hfirst]
  by_cases hsize : c.geo.size = 0
  · have hblocks : c.geo.blocks = 0 := by omega
    have hend : dumpTurn c (atBlock c 0 0) = .ok none :=
      @dumpTurn_end c _ 0 (by simp [atBlock]) (.inr rfl)
    rw [hsize, hblocks, dumpLoop, hend]
    rfl
  · rw [hturns, dumpLoop_blocks (Nat.pos_of_ne_zero hsize) le_rfl hroom, dumpOn]
    split_ifs with hmore
    · have hpos := c.geo.erasesize_pos
      have hend : dumpTurn c (atBlock c c.geo.size c.geo.blocks) = .ok none := by
        refine dumpTurn_end rfl (.inl ?_)
        change c.geo.size < c.geo.blocks * c.geo.erasesize + _
        rw [hall]
        refine Nat.lt_add_of_pos_right ?_
        by_cases hlt : c.geo.erasesize < (atBlock c c.geo.size c.geo.blocks).size
        · rwa [if_pos hlt]
        · rwa [if_neg hlt]
      rw [dumpLoop, hend]
      rfl
    · rfl

end Dumping

end LibWrt.Mtd
