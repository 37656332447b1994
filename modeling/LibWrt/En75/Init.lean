/-
LibWrt.En75.Init — scanning the chip, and the operations of the manager.

`r_scan_reserve` looks at the first page of each block from the end of the
chip down until it has seen enough good ones. What it makes of a page is
`classify`; the tables it finds are the last ones it meets.
-/
import LibWrt.En75.Write

namespace LibWrt.En75

open LibWrt.Flash LibWrt.Bytes

variable (g : Geometry) (env : Env)

/-! ## Pages -/

/-- `fdm_is_bad`, apart from which kind -/
def fdmIsBad (fdm : Fdm) : Bool := !(fdm.b0 == 0xff && fdm.b1 == 0xff)

/-- `BB_WORN` of `fdm_is_bad` -/
def fdmIsWorn (fdm : Fdm) : Bool := fdmIsBad fdm && fdm.b0 == blockWornMark

/-- `fdm_is_mapped` -/
def fdmIsMapped (fdm : Fdm) : Bool :=
  fdm.b0 == 0xff && fdm.b1 == 0xff && (fdm.b2 != 0xff || fdm.b3 != 0xff)

/-- `block_is_erased` -/
def blockIsErased (data : Bytes) (fdm : Fdm) : Bool := data.all (· == 0xff) && fdm == {}

/-- What the scan sees in the first page of a block. -/
inductive Seen where
  | bad
  | mapped
  | bbt (bbt : BbtTable)
  | bmt (bmt : BmtTable)
  | erased
  | other

def Seen.status : Seen → Status
  | .bad => .bad
  | .mapped => .mapped
  | .bbt _ => .bbt
  | .bmt _ => .bmt
  | .erased => .available
  | .other => .needErase

/-- One block of `r_scan_reserve`; reading again gives the same. -/
def classify (page : Page) : Seen :=
  if !page.readable || fdmIsBad page.fdm then .bad
  else if fdmIsMapped page.fdm then .mapped
  else
    match tryParseBbt g (page.bytes g) with
    | some bbt => .bbt bbt
    | none =>
      match tryParseBmt g (page.bytes g) with
      | some bmt => .bmt bmt
      | none => if blockIsErased (page.bytes g) page.fdm then .erased else .other

def Ctx.see (ctx : Ctx) (ba : Nat) (seen : Seen) : Ctx :=
  let ctx := ctx.setStatus ba seen.status
  match seen with
  | .bbt bbt => { ctx with bbt := bbt }
  | .bmt bmt => { ctx with bmt := bmt }
  | _ => ctx

def Seen.count (seen : Seen) (goodBlocks : Nat) : Nat :=
  if seen.status = .bad then goodBlocks else goodBlocks + 1

/-- `REQUIRED_GOOD_BLOCKS` -/
def Geometry.requiredGoodBlocks (g : Geometry) : Nat := g.totalBlks * 8 / 100

/-- The loop of `r_scan_reserve` from `cursor` down, with so many good blocks so far. -/
def scanReserveFrom (chip : Chip Page) : Nat → Nat → Ctx → Option Ctx
  | 0, _, _ => none
  | cursor + 1, goodBlocks, ctx =>
    let seen := classify g (chip.page (cursor + 1) 0)
    let ctx := ctx.see (cursor + 1) seen
    let goodBlocks := seen.count goodBlocks
    if goodBlocks ≥ g.requiredGoodBlocks then some { ctx with reserveAreaBegin := cursor + 1 }
    else scanReserveFrom chip cursor goodBlocks ctx

/-- `r_scan_reserve` -/
def rScanReserve (chip : Chip Page) : Option Ctx := scanReserveFrom g chip (g.totalBlks - 1) 0 {}

/-! ## Reconstructing the tables -/

/-- The entry that `r_reconstruct_bmt` finds in a block. -/
def foundMapping (ctx : Ctx) (chip : Chip Page) (ba : Nat) : Option BmtEntry :=
  let page := chip.page ba 0
  if !page.readable || fdmIsBad page.fdm then none
  else
    let mappedBlock := fdmBlock g page.fdm
    if mappedBlock ≥ ctx.reserveAreaBegin then none
    else some { fromBlock := mappedBlock, toBlock := ba }

/-- `r_reconstruct_bmt` -/
def rReconstructBmt (ctx : Ctx) (chip : Chip Page) : Ctx :=
  { ctx with
    bmt :=
      { version := 1
        table := ((ctx.reserveBlocks g).filterMap (foundMapping g ctx chip)).foldl push [] }
    bmtDirty := ctx.bmtDirty + 1 }

/-- Whether `r_reconstruct_bbt` takes a block for factory bad. -/
def foundBad (ctx : Ctx) (chip : Chip Page) (ba : Nat) : Bool :=
  let page := chip.page ba 0
  !(ctx.bmt.table.any fun e => e.fromBlock == ba) &&
    !(page.readable && (!fdmIsBad page.fdm || fdmIsWorn page.fdm))

/-- `r_reconstruct_bbt` -/
def rReconstructBbt (ctx : Ctx) (chip : Chip Page) : Option BbtTable :=
  if ctx.bmt.version = 0 then none
  else
    some (sortBbt
      { version := 1
        table := ((List.range ctx.reserveAreaBegin).filter (foundBad ctx chip)).foldl push [] })

/-! ## The configuration -/

structure Config where
  canWriteFactoryBbt : Bool := false
  factoryBadblocks : Option (List Nat) := none
  /-- `MAX_FACTORY_BAD_BLOCKS_OF` -/
  factoryBadblocks_le : ∀ blocks ∈ factoryBadblocks, blocks.length ≤ 32 := by simp
  assertReserveSize : Option Nat := none
  enableRemap : Bool := false

/-- The ranges of `add_remap_range`. Without the property on the device there is none: the loop
    over the partitions looks for the property on the device again and passes over all of them. -/
def Config.remapRanges (cfg : Config) (ctx : Ctx) : List (Nat × Nat) :=
  if cfg.enableRemap then [(0, ctx.reserveAreaBegin)] else []

/-- The loop of `w_factory_badblocks` that clears the BBT, from its last entry down. The entry
    taken out is overwritten before the erase, which therefore is of block 0. -/
def clearBbt (blocks : List Nat) : List Nat → State → State
  | [], s => s
  | entry :: entries, s =>
    let s := { s with ctx := { s.ctx with bbt := { s.ctx.bbt with table := entries.reverse } } }
    clearBbt blocks entries (if entry ∈ blocks then s else (wEraseOne g env 0 true s).2)

def unmapBlocks : List Nat → State → State
  | [], s => s
  | block :: blocks, s =>
    match getMappingBlock s.ctx block with
    | none => unmapBlocks blocks s
    | some mapped =>
      if mapped < s.ctx.reserveAreaBegin then unmapBlocks blocks s
      else unmapBlocks blocks (wUnmapBlock g env block .noErase s).2

def addBlocks : List Nat → State → State
  | [], s => s
  | block :: blocks, s =>
    if block ∈ s.ctx.bbt.table then addBlocks blocks s
    else
      let bbt := { s.ctx.bbt with table := push s.ctx.bbt.table block }
      addBlocks blocks (wMarkBad g env block true { s with ctx := { s.ctx with bbt := bbt } })

/-- `w_factory_badblocks` -/
def wFactoryBadblocks (blocks : List Nat) (s : State) : Ret × State :=
  if s.ctx.bbt.version = 0 ∨ s.ctx.bmt.version = 0 then (.inval, s)
  else if blocks.any fun b => s.ctx.reserveAreaBegin ≤ b then (.inval, s)
  else if maxBbtSize < blocks.length then (.noSpc, s)
  else if !s.ctx.canWriteFactoryBbt then
    if s.ctx.bbt.table.length ≠ blocks.length then (.io, s)
    else if blocks.all fun b => s.ctx.bbt.table.contains b then (.ok, s)
    else (.io, s)
  else
    let s := clearBbt g env blocks s.ctx.bbt.table.reverse s
    let s := addBlocks g env blocks (unmapBlocks g env blocks s)
    (.ok, { s with
      ctx := { s.ctx with bbt := sortBbt s.ctx.bbt, bbtDirty := s.ctx.bbtDirty + 1 } })

/-- The tables of `w_init`, found or reconstructed. -/
def findTables (cfg : Config) (ctx : Ctx) (chip : Chip Page) : Option Ctx :=
  if ctx.bbt.version ≠ 0 then
    some (if ctx.bmt.version = 0 then rReconstructBmt g ctx chip else ctx)
  else if !ctx.canWriteFactoryBbt then none
  else if cfg.factoryBadblocks.isSome then
    some (if ctx.bmt.version = 0 then rReconstructBmt g ctx chip else ctx)
  else
    let ctx := if ctx.bmt.version = 0 then rReconstructBmt g ctx chip else ctx
    (rReconstructBbt ctx chip).map fun bbt => { ctx with bbt := bbt }

/-- `w_init`; the chip is changed also where it fails. -/
def wInit (cfg : Config) (nand : Device Page) : Option State × Device Page :=
  match rScanReserve g nand.chip with
  | none => (none, nand)
  | some ctx =>
    if cfg.assertReserveSize.any (· != ctx.reserveBlockCount g) then (none, nand)
    else
      let ctx :=
        { ctx with
          canWriteFactoryBbt := cfg.canWriteFactoryBbt
          canRemapRanges := cfg.remapRanges ctx }
      match findTables g cfg ctx nand.chip with
      | none => (none, nand)
      | some ctx =>
        match cfg.factoryBadblocks with
        | none => (some { ctx := ctx, nand := nand }, nand)
        | some blocks =>
          match wFactoryBadblocks g env blocks { ctx := ctx, nand := nand } with
          | (.ok, s) => (some s, s.nand)
          | (_, s) => (none, s.nand)

/-- The size of the device that `w_init` reports: a shift of an `int`, stored in 64 bits. -/
def Ctx.deviceSize (ctx : Ctx) : BitVec 64 :=
  (BitVec.ofInt 32 (ctx.reserveAreaBegin - ctx.bbt.table.length : Int) <<< g.blkShift).signExtend
    64

/-- The number of blocks below the reported size. -/
def Ctx.userBlocks (ctx : Ctx) : Nat := (ctx.deviceSize g).toNat / 2 ^ g.blkShift

/-! ## The operations -/

/-- `pub_init`: whether the tables could be synchronised, and the state -/
def pubInit (cfg : Config) (nand : Device Page) : Option (Bool × State) :=
  (wInit g env cfg nand).1.map (wSyncTables g env)

/-- `-EINVAL` in a `u16` -/
def invalBlock : Nat := 2 ^ 16 - 22

/-- `pub_remap_block`; the first result says whether the operation is to be tried again, the
    second whether the tables are synchronised. -/
def pubRemapBlock (userBlock mappedBlockIdx copyLen : Nat) (s : State) : Bool × Bool × State :=
  if !s.ctx.canRemapRanges.any fun r => r.1 ≤ userBlock && userBlock < r.2 then (false, true, s)
  else
    let block := (getMappingBlockBbt s.ctx userBlock).getD invalBlock
    if userBlock ≥ s.ctx.reserveAreaBegin then (false, true, s)
    else if mappedBlockIdx ≠ block ∧ mappedBlockIdx ∉ s.ctx.reserveBlocks g then (false, true, s)
    else
      let maybeMappedBlock := if mappedBlockIdx = block then none else some mappedBlockIdx
      let (ret, s) := wRemapBlock g env block maybeMappedBlock copyLen s
      let (synced, s) := wSyncTables g env s
      (ret ≠ .noSpc, synced, s)

/-- `pub_unmap_block` -/
def pubUnmapBlock (userBlock : Nat) (s : State) : Bool × State :=
  match getMappingBlockBbt s.ctx userBlock with
  | none => (true, s)
  | some block =>
    if userBlock ≥ s.ctx.reserveAreaBegin then (true, s)
    else wSyncTables g env (wUnmapBlock g env block .requireErase s).2

end LibWrt.En75
