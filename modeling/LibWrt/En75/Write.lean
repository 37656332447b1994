/-
LibWrt.En75.Write — the context of the EN75xx manager, and what writes.

The array of the blocks of the reserve area holds them in descending order
and is looked at by position and by block; here it is their status by block.
A function of the source that changes the context and the chip is a function
from states to its result and a state.
-/
import LibWrt.En75.Tables

namespace LibWrt.En75

open LibWrt.Flash LibWrt.Bytes

/-- `enum block_status` -/
inductive Status where
  | invalid
  | available
  | bad
  | mapped
  | bmt
  | bbt
  | needErase
  deriving DecidableEq

/-- `struct en75_bmt_m` -/
structure Ctx where
  bbt : BbtTable := {}
  bmt : BmtTable := {}
  /-- the blocks of the reserve area -/
  rblocks : Nat → Status := fun _ => .invalid
  reserveAreaBegin : Nat := 0
  /-- the first block of a range and the block behind it -/
  canRemapRanges : List (Nat × Nat) := []
  bbtDirty : BitVec 8 := 0
  bmtDirty : BitVec 8 := 0
  canWriteFactoryBbt : Bool := false
  /-- the BMT was written behind its end, and so was what follows it in memory -/
  overrun : Bool := false

structure State where
  ctx : Ctx
  nand : Device Page

inductive Ret where
  | ok
  | inval
  | noSpc
  | io
  deriving DecidableEq

variable (g : Geometry) (env : Env)

/-! ## In memory -/

/-- `reserve_block_count` -/
def Ctx.reserveBlockCount (ctx : Ctx) : Nat := g.totalBlks - ctx.reserveAreaBegin

def Ctx.reserveBlocks (ctx : Ctx) : List Nat :=
  (List.range' ctx.reserveAreaBegin (ctx.reserveBlockCount g)).reverse

def Ctx.setStatus (ctx : Ctx) (ba : Nat) (status : Status) : Ctx :=
  { ctx with rblocks := Function.update ctx.rblocks ba status }

def State.setStatus (s : State) (ba : Nat) (status : Status) : State :=
  { s with ctx := s.ctx.setStatus ba status }

/-- `find_available_block`: the highest one from the end, the lowest one else -/
def findAvailableBlock (ctx : Ctx) (startFromEnd : Bool) : Option Nat :=
  (if startFromEnd then ctx.reserveBlocks g else (ctx.reserveBlocks g).reverse).find?
    fun ba => ctx.rblocks ba == .available

/-- The loop of `get_mapping_block_bbt` -/
def shiftBbt (table : List Nat) (block : Nat) : Nat :=
  table.foldl (fun block entry => if entry ≤ block then block + 1 else block) block

/-- `get_mapping_block_bbt` -/
def getMappingBlockBbt (ctx : Ctx) (block : Nat) : Option Nat :=
  let block := shiftBbt ctx.bbt.table block
  if block ≥ ctx.reserveAreaBegin then none else some block

/-- The search of `get_mapping_block`, from the end of the table. -/
def lookup (table : List BmtEntry) (block : Nat) : Option Nat :=
  (table.reverse.find? fun e => e.fromBlock == block).map BmtEntry.toBlock

/-- `get_mapping_block` -/
def getMappingBlock (ctx : Ctx) (block : Nat) : Option Nat :=
  (getMappingBlockBbt ctx block).map fun block => (lookup ctx.bmt.table block).getD block

/-- `block_index_is_sane` -/
def blockIndexIsSane (ctx : Ctx) (ba : Nat) (userBlock : Bool) : Bool :=
  decide (ba < g.totalBlks) &&
    if userBlock then decide (ba < ctx.reserveAreaBegin) else decide (ctx.reserveAreaBegin ≤ ba)

/-! ## Writing and erasing -/

/-- `WRITE_TRIES` and `ERASE_TRIES` -/
def tries : Nat := 3

/-- `w_write` -/
def wWrite (ba : Nat) (userArea : Bool) (w : Write) (s : State) : Ret × State :=
  if !blockIndexIsSane g s.ctx ba userArea then (.inval, s)
  else
    match writeFirst g env ba w tries s.nand with
    | (true, nand) => (.ok, { s with nand := nand })
    | (false, nand) => (.io, { s with nand := nand })

/-- `BLOCK_WORN_MARK` -/
def blockWornMark : UInt8 := 0x55

/-- `w_mark_bad` -/
def wMarkBad (ba : Nat) (userArea : Bool) (s : State) : State :=
  (wWrite g env ba userArea { fdm := { b0 := blockWornMark } } s).2

/-- `w_erase_one` -/
def wEraseOne (ba : Nat) (userArea : Bool) (s : State) : Ret × State :=
  if !blockIndexIsSane g s.ctx ba userArea then (.inval, s)
  else
    match bbtNandErase env ba tries s.nand with
    | (true, nand) => (.ok, { s with nand := nand })
    | (false, nand) => (.io, { s with nand := nand })

/-- One block of `w_erase_pending`. -/
def erasePendingOne (ba : Nat) (s : State) : State :=
  if s.ctx.rblocks ba ≠ .needErase then s
  else
    match wEraseOne g env ba false s with
    | (.ok, s) => s.setStatus ba .available
    | (.inval, s) => s.setStatus ba .bad
    | (_, s) => (wMarkBad g env ba false s).setStatus ba .bad

/-- The loop of `w_erase_pending` over some blocks. -/
def erasePendingFrom : List Nat → State → State
  | [], s => s
  | ba :: bas, s => erasePendingFrom bas (erasePendingOne g env ba s)

/-- `w_erase_pending` -/
def wErasePending (s : State) : State := erasePendingFrom g env (s.ctx.reserveBlocks g) s

/-- `mark_for_erasure` -/
def Ctx.markForErasure (ctx : Ctx) (withStatus : Status) : Ctx :=
  { ctx with
    rblocks := fun ba => if ctx.rblocks ba = withStatus then .needErase else ctx.rblocks ba }

/-! ## Updating the tables -/

/-- `w_update_table`, with so many tries left: the block that took the table -/
def wUpdateTable (startFromEnd : Bool) (data : Bytes) : Nat → State → Option Nat × State
  | 0, s => (none, s)
  | tries + 1, s =>
    match findAvailableBlock g s.ctx startFromEnd with
    | none => (none, s)
    | some ba =>
      match wWrite g env ba false { data := data } s with
      | (.ok, s) => (some ba, s)
      | (_, s) => wUpdateTable startFromEnd data tries (s.setStatus ba .needErase)

/-- `UPDATE_TABLE_TRIES` -/
def updateTableTries : Nat := 3

/-- `MAX_BMT_SIZE` -/
def maxBmtSize : Nat := 256

/-- The loop that clears the BMT behind its last entry, up to the number of reserve blocks. -/
def Ctx.clearBmt (ctx : Ctx) : Ctx :=
  { ctx with overrun := ctx.overrun || decide (maxBmtSize < ctx.reserveBlockCount g) }

/-- The first half of `w_sync_tables`: the BMT -/
def syncBmt (s : State) : Bool × State :=
  if s.ctx.bmtDirty = 0 then (true, s)
  else
    let s : State := { s with ctx := s.ctx.clearBmt g }
    match wUpdateTable g env true (bmtBytes g s.ctx.bmt) updateTableTries s with
    | (none, s) => (false, s)
    | (some ba, s) =>
      let ctx := (s.ctx.markForErasure .bmt).setStatus ba .bmt
      (true, { s with ctx := { ctx with bmtDirty := 0 } })

def syncBbt (s : State) : Bool × State :=
  if s.ctx.bbtDirty = 0 ∨ !s.ctx.canWriteFactoryBbt then (true, s)
  else
    match wUpdateTable g env false (bbtBytes g s.ctx.bbt) updateTableTries s with
    | (none, s) => (false, s)
    | (some ba, s) =>
      let ctx := (s.ctx.markForErasure .bbt).setStatus ba .bbt
      (true, { s with ctx := { ctx with bbtDirty := 0 } })

/-- `w_sync_tables`: whether it returns 0 -/
def wSyncTables (s : State) : Bool × State :=
  match syncBmt g env (wErasePending g env s) with
  | (false, s) => (false, s)
  | (true, s) =>
    match syncBbt g env s with
    | (false, s) => (false, s)
    | (true, s) => (true, wErasePending g env s)

/-! ## Remapping -/

def mappingFdm (block : Nat) : Fdm :=
  let bytes := half g.bigEndian block
  { b2 := bytes.getD 0 0, b3 := bytes.getD 1 0 }

def fdmBlock (fdm : Fdm) : Nat := ofHalf g.bigEndian [fdm.b2, fdm.b3]

/-- `w_make_mapping` -/
def wMakeMapping (replacement badBlock : Nat) (s : State) : Ret × State :=
  if badBlock ≥ s.ctx.reserveAreaBegin then (.inval, s)
  else if s.ctx.rblocks replacement ≠ .available then (.inval, s)
  else wWrite g env replacement false { fdm := mappingFdm g badBlock } s

/-- The tries of the copy in `w_remap_block` -/
def copyTries (dest src copyLen : Nat) : Nat → Device Page → Device Page
  | 0, d => d
  | tries + 1, d =>
    match bbtNandCopy g env dest src copyLen d with
    | (true, d) => d
    | (false, d) => copyTries dest src copyLen tries d

/-- `REMAP_COPY_TRIES` -/
def remapCopyTries : Nat := 10

/-- The first entry of `block` gets another replacement, if there is one. -/
def replaceEntry (block to' : Nat) : List BmtEntry → Option (List BmtEntry)
  | [] => none
  | e :: table =>
    if e.fromBlock = block then some ({ e with toBlock := to' } :: table)
    else (replaceEntry block to' table).map (e :: ·)

/-- The table with `block` mapped to a new replacement. -/
def mapEntry (table : List BmtEntry) (block to' : Nat) : List BmtEntry :=
  (replaceEntry block to' table).getD (table ++ [{ fromBlock := block, toBlock := to' }])

/-- `w_remap_block` -/
def wRemapBlock (block : Nat) (maybeMappedBlock : Option Nat) (copyLen : Nat) (s : State) :
    Ret × State :=
  if s.ctx.bmt.table.length = 0xff then (.noSpc, s)
  else
    match findAvailableBlock g s.ctx false with
    | none => (.noSpc, s)
    | some newBlock =>
      match wMakeMapping g env newBlock block s with
      | (.ok, s) =>
        let nand :=
          if copyLen = 0 then s.nand
          else copyTries g env newBlock (maybeMappedBlock.getD block) copyLen remapCopyTries s.nand
        let ctx :=
          { s.ctx with
            bmt := { s.ctx.bmt with table := mapEntry s.ctx.bmt.table block newBlock }
            bmtDirty := s.ctx.bmtDirty + 1 }
        let s := wMarkBad g env block true { ctx := ctx.setStatus newBlock .mapped, nand := nand }
        match maybeMappedBlock with
        | none => (.ok, s)
        | some mapped => (.ok, s.setStatus mapped .needErase)
      | (ret, s) => (ret, s.setStatus newBlock .needErase)

/-- `enum unmap_erase` -/
inductive UnmapErase where
  | noErase
  | attemptErase
  | requireErase
  deriving DecidableEq

/-- The replacement of the first entry of `block`, with its index. -/
def mappedEntry (table : List BmtEntry) (block : Nat) : Option (Nat × Nat) :=
  (table.findIdx? fun e => e.fromBlock == block).bind fun i =>
    table[i]?.map fun e => (i, e.toBlock)

/-- `w_unmap_block` -/
def wUnmapBlock (block : Nat) (erase : UnmapErase) (s : State) : Ret × State :=
  match mappedEntry s.ctx.bmt.table block with
  | none => (.inval, s)
  | some (bmtIndex, mapped) =>
    if mapped ∉ s.ctx.reserveBlocks g then (.inval, s)
    else
      let (ret, s) := if erase = .noErase then (.ok, s) else wEraseOne g env mapped false s
      if ret ≠ .ok ∧ erase = .requireErase then (ret, s)
      else
        let table := s.ctx.bmt.table
        let last := table.getLastD { fromBlock := 0, toBlock := 0 }
        let ctx :=
          { s.ctx with
            bmt := { s.ctx.bmt with table := (table.set bmtIndex last).dropLast }
            bmtDirty := s.ctx.bmtDirty + 1 }
        (.ok, { s with ctx := ctx.setStatus mapped .needErase })

end LibWrt.En75
