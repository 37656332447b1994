/-
LibWrt.MtkBmt.V2 — the BMT of `mtk_bmt_v2.c`.

`Bbbt` is the table as it lies in memory and on flash: `bb_tbl`, the
physical block of each logical block, and `bmt_tbl`, the blocks of the pool
with a flag each. `bmtTbl` is as long as the buffer allocated for the table
has room for. A block of the chip is known by what the manager reads of it:
whether the read succeeds, the table that starts in its first page, and the
first spare bytes of that page.

An access outside of the two tables is not followed (`Failure.undefined`),
also where an index of `bb_tbl` that is too large would still lie in `bmt_tbl`;
`Failure.fatal` is the error `-1` of the initialisation.
-/
import LibWrt.MtkBmt.Desc

namespace LibWrt.MtkBmt.V2

open Function

/-- `struct bbmt` -/
structure Bbmt where
  block : Nat
  mapped : Nat
  deriving DecidableEq

def noMapped : Nat := 0
def normalMapped : Nat := 1
def bmtMapped : Nat := 2

/-- `struct bbbt`, with the pool table that follows `bb_tbl` -/
structure Bbbt where
  signature : List UInt8
  version : Nat
  bbTbl : List Nat
  bmtTbl : List Bbmt
  deriving DecidableEq

/-- `BBMT_VERSION` -/
def bbmtVersion : Nat := 2

structure Config extends Desc where
  poolLba : Nat
  bbMax : Nat
  tableSize : Nat
  /-- the entries of `bmt_tbl` inside the allocated buffer -/
  bmtEntries : Nat

/-- `BMT_TABLE_MAX`, with `BBPOOL_RATIO` -/
def Config.bmtTableMax (cfg : Config) : Nat := cfg.tableSize * 2 % 2 ^ 32 / 100

/-- The sizes `mtk_bmt_init_v2` derives from the properties `mediatek,bmt-pool-size` and
    `mediatek,bmt-table-size`. The buffer is a multiple of the page. -/
def Config.ofProperties (d : Desc) (pgSize bmtPoolSize bmtTableSize : Nat) : Config where
  toDesc := d
  poolLba := (BitVec.ofNat 16 d.totalBlks - BitVec.ofNat 16 bmtPoolSize).toNat
  bbMax := d.totalBlks * 2 / 100
  tableSize := bmtTableSize
  bmtEntries :=
    let bufsz := (4 + bmtTableSize * 4 + (pgSize - 1)) / pgSize * pgSize % 2 ^ 32
    (bufsz - 4 - 2 * bmtTableSize) / 4

structure Cell where
  readable : Bool
  image : Bbbt
  fdm : List UInt8

abbrev Nand := Nat → Cell

/-- After an erase every byte is `0xff`. -/
def erasedCell (cfg : Config) : Cell where
  readable := true
  image :=
    { signature := [0xff, 0xff, 0xff]
      version := 0xff
      bbTbl := List.replicate cfg.tableSize 0xffff
      bmtTbl := List.replicate cfg.bmtEntries { block := 0xffff, mapped := 0xffff } }
  fdm := [0xff, 0xff, 0xff, 0xff]

/-- How the chip behaves during one call: the blocks on which an erase or the write of
    the table fails, what is left on them, what a copy makes of its destination, and what
    the reads of the initialisation left in the buffer of the table. -/
structure Env where
  eraseFails : Nat → Bool
  writeFails : Nat → Bool
  wrecked : Nat → Cell
  copied : Cell → Cell → Nat → Cell
  buffer : Bbbt

structure Bmtd where
  bbt : Bbbt
  bmtBlkIdx : Nat
  poolPba : Nat
  nand : Nand

inductive Failure where
  | undefined
  | fatal
  deriving DecidableEq

/-! ## The chip -/

/-- The read of the first page fails or its first spare byte is not `0xff`. -/
def isBad (nand : Nand) (block : Nat) : Bool :=
  !(nand block).readable || (nand block).fdm[0]? != some 0xff

/-- `bbt_nand_erase`: whether it failed, and the chip after it. -/
def bbtNandErase (cfg : Config) (env : Env) (nand : Nand) (block : Nat) : Bool × Nand :=
  if env.eraseFails block then (true, update nand block (env.wrecked block))
  else (false, update nand block (erasedCell cfg))

/-- `write_bmt`: the table and, after the first spare byte, the signature `bmt`. -/
def writeBmt (env : Env) (nand : Nand) (block : Nat) (bbt : Bbbt) : Bool × Nand :=
  if env.writeFails block then (true, update nand block (env.wrecked block))
  else (false, update nand block
    { readable := true, image := bbt, fdm := (nand block).fdm.take 1 ++ [98, 109, 116] })

/-- `bbt_nand_copy` -/
def bbtNandCopy (env : Env) (nand : Nand) (dest src maxOffset : Nat) : Nand :=
  update nand dest (env.copied (nand dest) (nand src) maxOffset)

/-! ## The first scan -/

/-- `find_valid_block`, with `left` bad blocks still to be skipped; 0 means none. -/
def findValidBlock (cfg : Config) (nand : Nand) : Nat → Nat → Nat
  | left, block =>
    if block ≥ cfg.totalBlks then 0
    else if isBad nand block then
      match left with
      | 0 => 0
      | left' + 1 => findValidBlock cfg nand left' (block + 1)
    else block

/-- `bb_tbl[i]` for the next `n` logical blocks, after the physical block `prev`. -/
def scanData (cfg : Config) (nand : Nand) : Nat → Nat → Except Failure (List Nat)
  | _, 0 => .ok []
  | prev, n + 1 =>
    match findValidBlock cfg nand cfg.bbMax (prev + 1) with
    | 0 => .error .fatal
    | block => (scanData cfg nand block n).map (block :: ·)

/-- The valid blocks from `block` on, until none is found. -/
def scanPool (cfg : Config) (nand : Nand) : Nat → Nat → List Nat
  | 0, _ => []
  | fuel + 1, block =>
    match findValidBlock cfg nand cfg.bbMax block with
    | 0 => []
    | b => b :: scanPool cfg nand fuel (b + 1)

/-- `scan_bad_blocks`: the tables, `bmt_blk_idx` and `pool_pba`. Behind the pool `bmt_tbl` has
    the zeros of `mtk_bmt_init_v2`, and then what was in the buffer. -/
def scanBadBlocks (cfg : Config) (buffer : Bbbt) (nand : Nand) : Except Failure (Bbbt × Nat × Nat) := do
  if cfg.tableSize < cfg.poolLba then .error .undefined
  let rest ← scanData cfg nand 0 (cfg.poolLba - 1)
  let bbTbl := 0 :: rest
  let poolPba := bbTbl.getLastD 0 + 1
  if poolPba ≥ cfg.totalBlks - 2 then .error .fatal
  let pool := scanPool cfg nand cfg.totalBlks poolPba
  -- the last entry is flagged before the pool is known not to be empty
  if pool = [] ∨ cfg.bmtEntries < pool.length then .error .undefined
  let free := pool.map fun b => { block := b, mapped := noMapped : Bbmt }
  let flagged := free.set (pool.length - 1)
    { block := pool.getLastD 0, mapped := bmtMapped }
  .ok ({ buffer with
         bbTbl := bbTbl ++ (List.range' cfg.poolLba (cfg.tableSize - cfg.poolLba)).map
           (buffer.bbTbl.getD · 0xffff)
         bmtTbl := flagged ++ (List.range' pool.length (cfg.bmtEntries - pool.length)).map fun k =>
           if k < cfg.tableSize then { block := 0, mapped := 0 }
           else buffer.bmtTbl.getD k { block := 0xffff, mapped := 0xffff } },
    pool.length - 1, poolPba)

/-! ## Storing the table -/

/-- `upload_bmt`: the index of the pool block that took the table, going down from `n`. A
    block that fails loses its entry. -/
def uploadBmt (cfg : Config) (env : Env) (n : Nat) (bbt : Bbbt) (nand : Nand) :
    Except Failure (Option Nat × Bbbt × Nand) :=
  match bbt.bmtTbl[n]? with
  | none => .error .undefined
  | some e =>
    if e.mapped = normalMapped then .ok (none, bbt, nand)
    else
      let dropped := fun bbt : Bbbt =>
        { bbt with bmtTbl := bbt.bmtTbl.set n { e with block := 0 } }
      let (eraseErr, nand₁) := bbtNandErase cfg env nand e.block
      if eraseErr then
        match n with
        | 0 => .ok (none, dropped bbt, nand₁)
        | m + 1 => uploadBmt cfg env m (dropped bbt) nand₁
      else
        let bbt₁ := { bbt with signature := [66, 77, 84], version := bbmtVersion }
        let (writeErr, nand₂) := writeBmt env nand₁ e.block bbt₁
        if writeErr then
          match n with
          | 0 => .ok (none, dropped bbt₁, nand₂)
          | m + 1 => uploadBmt cfg env m (dropped bbt₁) nand₂
        else .ok (some n, bbt₁, nand₂)

/-- `bmtd.bmt_blk_idx = upload_bmt(...)`; the failure `-1` is stored in 16 bits. -/
def Bmtd.upload (cfg : Config) (env : Env) (s : Bmtd) : Except Failure Bmtd :=
  (uploadBmt cfg env s.bmtBlkIdx s.bbt s.nand).map fun (idx, bbt, nand) =>
    { s with bbt := bbt, bmtBlkIdx := idx.getD 0xffff, nand := nand }

/-! ## Remapping -/

/-- A pool entry that `find_valid_block_in_pool` takes. -/
def Bbmt.free (e : Bbmt) : Bool := e.block != 0 && e.mapped == noMapped

/-- `find_valid_block_in_pool`: the entry taken, flagged in the table. -/
def findValidBlockInPool (bbt : Bbbt) (bmtBlkIdx : Nat) :
    Except Failure (Option (Nat × Bbbt)) :=
  match (bbt.bmtTbl.take bmtBlkIdx).findIdx? Bbmt.free with
  | some k =>
    match bbt.bmtTbl[k]? with
    | none => .error .undefined
    | some e => .ok (some (e.block,
        { bbt with bmtTbl := bbt.bmtTbl.set k { e with mapped := normalMapped } }))
  | none => if bbt.bmtTbl.length < bmtBlkIdx then .error .undefined else .ok none

/-- `bb_tbl[block] = pb` -/
def Bbbt.setMapping (bbt : Bbbt) (block pb : Nat) : Except Failure Bbbt :=
  if block < bbt.bbTbl.length then .ok { bbt with bbTbl := bbt.bbTbl.set block pb }
  else .error .undefined

/-- `remap_block_v2` -/
def remapBlockV2 (cfg : Config) (env : Env) (s : Bmtd) (block mappedBlock copyLen : Nat) :
    Except Failure (Bool × Bmtd) := do
  match ← findValidBlockInPool s.bbt s.bmtBlkIdx with
  | none => .ok (false, s)
  | some (newBlock, bbt) =>
    let bbt ← bbt.setMapping block newBlock
    let (_, nand) := bbtNandErase cfg env s.nand newBlock
    let nand := if copyLen > 0 then bbtNandCopy env nand newBlock mappedBlock copyLen else nand
    let s ← { s with bbt := bbt, nand := nand : Bmtd }.upload cfg env
    .ok (true, s)

/-- `unmap_block_v2` -/
def unmapBlockV2 (cfg : Config) (env : Env) (s : Bmtd) (block : Nat) :
    Except Failure Bmtd := do
  let bbt ← s.bbt.setMapping block block
  { s with bbt := bbt : Bmtd }.upload cfg env

/-! ## The debug file -/

/-- `mtd->size`, the shift of an `int`: `pmt_block << blk_shift`. -/
def Config.mtdSize (cfg : Config) : BitVec 64 :=
  ((BitVec.ofNat 16 cfg.poolLba - 2).setWidth 32 <<< cfg.blkShift).signExtend 64

/-- `main_blocks`, the `int` `mtd->size >> blk_shift`. No block is below a negative one. -/
def Config.mainBlocks (cfg : Config) : Nat :=
  ((cfg.mtdSize >>> cfg.blkShift).setWidth 32).toInt.toNat

/-- `mtk_bmt_get_mapping_mask`: a pool entry below `bmt_blk_idx` is in use. -/
def usedMask (cfg : Config) (s : Bmtd) (k : Nat) : Bool :=
  (List.range cfg.mainBlocks).any fun i =>
    i ≥ 1 && s.bbt.bbTbl[i]? != some i &&
      (s.bbt.bmtTbl.take s.bmtBlkIdx).findIdx? (fun e => some e.block == s.bbt.bbTbl[i]?) == some k

/-- Entry `k` of the pool is freed. -/
def freed (cfg : Config) (s : Bmtd) (k : Nat) (e : Bbmt) : Bool :=
  k ≤ s.bmtBlkIdx && e.mapped == normalMapped && !usedMask cfg s k

/-- `mtk_bmt_debug_v2` with the value 100: free the pool entries no data block uses. -/
def mtkBmtDebugV2 (cfg : Config) (env : Env) (s : Bmtd) : Except Failure Bmtd :=
  let bmtTbl := s.bbt.bmtTbl.mapIdx fun k e =>
    if freed cfg s k e then { e with mapped := noMapped } else e
  if s.bbt.bmtTbl.length ≤ s.bmtBlkIdx ∨ s.bbt.bbTbl.length < cfg.mainBlocks then
    .error .undefined
  else if bmtTbl = s.bbt.bmtTbl then .ok s
  else { s with bbt := { s.bbt with bmtTbl := bmtTbl } : Bmtd }.upload cfg env

/-! ## Finding the table again -/

/-- `is_valid_bmt` -/
def isValidBmt (cell : Cell) : Bool :=
  cell.image.signature == [66, 77, 84] && (cell.fdm.drop 1).take 3 == [98, 109, 116] &&
    cell.image.version == bbmtVersion

/-- `get_bmt_index`: the first flagged entry before the end of the pool, or 0. -/
def getBmtIndex (bmt : List Bbmt) : Except Failure Nat :=
  match bmt.findIdx? fun e => e.block == 0 || e.mapped == bmtMapped with
  | none => .error .undefined
  | some i =>
    match bmt[i]? with
    | some e => if e.block = 0 then .ok 0 else .ok i
    | none => .error .undefined

/-- The search of `mtk_bmt_init_v2` from `block` down: the block of the table, what is
    loaded of it and its index. -/
def findBmt (cfg : Config) (nand : Nand) : Nat → Except Failure (Option (Nat × Bbbt × Nat))
  | 0 => .ok none
  | block + 1 =>
    if block < cfg.poolLba then .ok none
    else if !(nand block).readable then findBmt cfg nand block
    else if !isValidBmt (nand block) then findBmt cfg nand block
    else do
      let idx ← getBmtIndex (nand block).image.bmtTbl
      if idx = 0 then .ok none
      else .ok (some (block, (nand block).image, idx))

/-- `mtk_bmt_init_v2`: load the table there is, or make one and store it. -/
def mtkBmtInitV2 (cfg : Config) (env : Env) (nand : Nand) : Except Failure Bmtd := do
  match ← findBmt cfg nand cfg.totalBlks with
  | some (_, bbt, idx) => .ok { bbt := bbt, bmtBlkIdx := idx, poolPba := 0, nand := nand }
  | none =>
    if cfg.totalBlks > cfg.tableSize + cfg.bmtTableMax then .error .fatal
    -- the `memset` of `table_size` pool entries
    if cfg.bmtEntries < cfg.tableSize then .error .undefined
    let (bbt, idx, poolPba) ← scanBadBlocks cfg env.buffer nand
    let s ← { bbt := bbt, bmtBlkIdx := idx, poolPba := poolPba, nand := nand : Bmtd }.upload
      cfg env
    if s.bmtBlkIdx = 0xffff then .error .fatal else .ok s

end LibWrt.MtkBmt.V2
