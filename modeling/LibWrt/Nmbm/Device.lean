/-
LibWrt.Nmbm.Device — the chip below NMBM and the instance record of
`mtk_bmt_nmbm.c`.

The chip is a `Flash.Device`: its pages, its bad marks and the record of the
operations done to it. An `Env` decides the outcome of each operation by the
number of operations done before, so it can let any block fail at any time; a
page reads as what was left there, bytes or an error. A second or third read
gives what the first gave, and a read with corrected bitflips is a read that
went well: no caller of `nmbm_read_phys_page` and `nmbn_read_data` tells the
two apart.

Block addresses are natural numbers; the differences the source takes of them
are taken in 32 bits (`sub32`).
-/
import LibWrt.Lib.Flash
import LibWrt.Lib.Bytes
import LibWrt.Lib.Crc32
import LibWrt.Lib.Packed

namespace LibWrt.Nmbm

open LibWrt.Flash LibWrt.Bytes LibWrt.Crc32

abbrev Bytes := List UInt8

/-- The sizes of a chip. A page takes the signature, and the sizes of three blocks fit 32
    bits. -/
structure Geometry where
  pgShift : Nat
  blkShift : Nat
  totalBlks : Nat
  oobSize : Nat
  pgShift_ge : 6 ≤ pgShift
  pgShift_le : pgShift ≤ blkShift
  blkShift_lt : blkShift < 28
  totalBlks_lt : totalBlks < 2 ^ 16

def Geometry.pgSize (g : Geometry) : Nat := 2 ^ g.pgShift
def Geometry.blkSize (g : Geometry) : Nat := 2 ^ g.blkShift
def Geometry.pagesPerBlock (g : Geometry) : Nat := 2 ^ (g.blkShift - g.pgShift)

/-- `size2blk` -/
def size2blk (g : Geometry) (size : Nat) : Nat := (size + g.blkSize - 1) >>> g.blkShift

def sub32 (a b : Nat) : Nat := (a + 2 ^ 32 - b) % 2 ^ 32

/-- `-EBADMSG` and the other errors of a read. -/
inductive ReadError where
  | badmsg
  | io
  deriving DecidableEq

abbrev Page := Except ReadError Bytes

/-- The outcome of an operation, by the number of operations before it: whether it
    reports a failure, and what it leaves. -/
structure Env where
  erase : Nat → Nat → Bool × (Nat → Page)
  program : Nat → Nat → Nat → Bytes → Bool × Page
  /-- whether a bad mark takes -/
  mark : Nat → Nat → Bool

/-- `NMBM_TRY_COUNT` -/
def tryCount : Nat := 3

/-! ## High level NAND chip APIs -/

section Chip

variable (g : Geometry) (env : Env)

/-- `nmbm_read_phys_page` -/
def readPhysPage (chip : Chip Page) (ba pg : Nat) : Page := chip.page ba pg

/-- `nmbm_write_phys_page`, with so many tries left -/
def writePhysPage (ba pg : Nat) (data : Bytes) : Nat → Device Page → Bool × Device Page
  | 0, d => (false, d)
  | tries + 1, d =>
    let (failed, left) := env.program d.log.length ba pg data
    let d := d.run (.program ba pg left)
    if failed then writePhysPage ba pg data tries d else (true, d)

/-- `nmbm_erase_phys_block`, with so many tries left -/
def erasePhysBlock (ba : Nat) : Nat → Device Page → Bool × Device Page
  | 0, d => (false, d)
  | tries + 1, d =>
    let (failed, left) := env.erase d.log.length ba
    let d := d.run (.erase ba left)
    if failed then erasePhysBlock ba tries d else (true, d)

/-- `nmbm_check_bad_phys_block` -/
def checkBadPhysBlock (chip : Chip Page) (ba : Nat) : Bool := chip.marked ba

/-- `nmbm_mark_phys_bad_block` -/
def markPhysBadBlock (ba : Nat) (d : Device Page) : Device Page :=
  d.run (.mark ba (env.mark d.log.length ba))

/-- `nmbm_erase_block_and_check` -/
def eraseBlockAndCheck (emptyPageEccOk : Bool) (ba : Nat) (d : Device Page) :
    Bool × Device Page :=
  let (success, d) := erasePhysBlock env ba tryCount d
  if !success then (false, d)
  else if !emptyPageEccOk then (true, d)
  else ((List.range g.pagesPerBlock).all fun pg => readPhysPage d.chip ba pg != .error .badmsg, d)

/-- `nmbn_write_verify_data` at the start of a block, for the pages from `pg` on: the
    unused rest of a page is `0xff`. -/
def writeVerifyPages (ba : Nat) : Nat → List Bytes → Device Page → Bool × Device Page
  | _, [], d => (true, d)
  | pg, chunk :: chunks, d =>
    let page := chunk ++ List.replicate (g.pgSize - chunk.length) 0xff
    let (success, d) := writePhysPage env ba pg page tryCount d
    if !success then (false, d)
    else
      match readPhysPage d.chip ba pg with
      | .error _ => (false, d)
      | .ok bytes =>
        if bytes.take chunk.length != chunk then (false, d)
        else writeVerifyPages ba (pg + 1) chunks d

/-- `nmbn_write_verify_data` -/
def writeVerifyData (ba : Nat) (data : Bytes) (d : Device Page) : Bool × Device Page :=
  writeVerifyPages g env ba 0 (pieces g.pgSize data) d

/-- `nmbn_read_data` at the start of a block, for the pages from `pg` on -/
def readPages (chip : Chip Page) (ba : Nat) : Nat → Nat → Nat → Page
  | 0, _, _ => .ok []
  | fuel + 1, pg, size =>
    if size = 0 then .ok []
    else do
      let chunksize := min g.pgSize size
      let bytes ← readPhysPage chip ba pg
      let rest ← readPages chip ba fuel (pg + 1) (size - chunksize)
      .ok (bytes.take chunksize ++ rest)

/-- `nmbn_read_data` -/
def readData (chip : Chip Page) (ba size : Nat) : Page := readPages g chip ba size 0 size

/-- `nmbm_write_repeated_data`, for the pages from `pg` on -/
def writeRepeatedPages (ba : Nat) (data : Bytes) : Nat → Nat → Device Page → Bool × Device Page
  | _, 0, d => (true, d)
  | pg, n + 1, d =>
    let page := data ++ List.replicate (g.pgSize - data.length) 0xff
    let (success, d) := writePhysPage env ba pg page tryCount d
    if !success then (false, d)
    else
      match readPhysPage d.chip ba pg with
      | .error _ => (false, d)
      | .ok bytes =>
        if bytes.take data.length != data then (false, d)
        else writeRepeatedPages ba data (pg + 1) n d

/-- `nmbm_write_repeated_data` -/
def writeRepeatedData (ba : Nat) (data : Bytes) (d : Device Page) : Bool × Device Page :=
  if data.length > g.pgSize then (false, d)
  else writeRepeatedPages g env ba data 0 g.pagesPerBlock d

end Chip

/-! ## The instance -/

/-- `struct nmbm_header` -/
structure Header where
  magic : BitVec 32 := 0
  version : BitVec 32 := 0
  size : BitVec 32 := 0
  checksum : BitVec 32 := 0
  deriving DecidableEq

def magicSignature : BitVec 32 := 0x304d4d4e
def magicInfoTable : BitVec 32 := 0x314d4d4e

/-- `NMBM_VER` -/
def nmbmVer : BitVec 32 := 1

def Header.toBytes (h : Header) : Bytes := [h.magic, h.version, h.size, h.checksum].flatMap le32

/-- `sizeof(struct nmbm_header)` -/
def headerSize : Nat := 16

def Header.ofBytes (data : Bytes) : Header where
  magic := ofLe32 data
  version := ofLe32 (data.drop 4)
  size := ofLe32 (data.drop 8)
  checksum := ofLe32 (data.drop 12)

/-- `struct nmbm_signature`; `nand_size` is 64 bits wide. -/
structure Signature where
  header : Header := {}
  nandSize : Nat := 0
  blockSize : BitVec 32 := 0
  pageSize : BitVec 32 := 0
  spareSize : BitVec 32 := 0
  mgmtStartPb : BitVec 32 := 0
  maxTryCount : BitVec 32 := 0
  deriving DecidableEq

/-- `sizeof(struct nmbm_signature)` -/
def signatureSize : Nat := 48

/-- The fields after the header; the try count is a byte before three of padding, and four
    more bytes of padding end the structure. -/
def Signature.tail (s : Signature) : Bytes :=
  [BitVec.ofNat 32 s.nandSize, BitVec.ofNat 32 (s.nandSize / 2 ^ 32), s.blockSize, s.pageSize,
    s.spareSize, s.mgmtStartPb, s.maxTryCount, 0].flatMap le32

def Signature.toBytes (s : Signature) : Bytes := s.header.toBytes ++ s.tail

def Signature.ofBytes (data : Bytes) : Signature where
  header := .ofBytes data
  nandSize := (ofLe32 (data.drop 16)).toNat + 2 ^ 32 * (ofLe32 (data.drop 20)).toNat
  blockSize := ofLe32 (data.drop 24)
  pageSize := ofLe32 (data.drop 28)
  spareSize := ofLe32 (data.drop 32)
  mgmtStartPb := ofLe32 (data.drop 36)
  maxTryCount := ofLe32 (data.drop 40)

/-- `struct nmbm_info_table_header` -/
structure InfoTableHeader where
  header : Header := {}
  writeCount : BitVec 32 := 0
  stateTableOff : BitVec 32 := 0
  mappingTableOff : BitVec 32 := 0
  padding : BitVec 32 := 0
  deriving DecidableEq

def InfoTableHeader.toBytes (h : InfoTableHeader) : Bytes :=
  h.header.toBytes ++
    [h.writeCount, h.stateTableOff, h.mappingTableOff, h.padding].flatMap le32

/-- `sizeof(struct nmbm_info_table_header)` -/
def infoTableHeaderSize : Nat := 32

def InfoTableHeader.ofBytes (data : Bytes) : InfoTableHeader where
  header := .ofBytes data
  writeCount := ofLe32 (data.drop 16)
  stateTableOff := ofLe32 (data.drop 20)
  mappingTableOff := ofLe32 (data.drop 24)
  padding := ofLe32 (data.drop 28)

/-- `struct nmbm_instance`, without the sizes the geometry gives -/
structure Instance where
  signature : Signature := {}
  infoTableCache : Bytes := []
  infoTable : InfoTableHeader := {}
  blockState : List (BitVec 32) := []
  blockStateChanged : Nat := 0
  blockMapping : List (BitVec 32) := []
  blockMappingChanged : Nat := 0
  isProtected : Bool := false
  dataBlockCount : Nat := 0
  mgmtStartBa : Nat := 0
  mainTableBa : Nat := 0
  backupTableBa : Nat := 0
  mappingBlocksBa : Nat := 0
  mappingBlocksTopBa : Nat := 0
  signatureBa : Nat := 0
  maxRatio : Nat := 1
  maxReservedBlocks : Nat := 256
  emptyPageEccOk : Bool := false
  forceCreate : Bool := false

structure State where
  ni : Instance
  nand : Device Page

/-! ### Sizes -/

/-- `ALIGN` -/
def align (size unit : Nat) : Nat := (size + unit - 1) / unit * unit

def Geometry.stateTableSize (g : Geometry) : Nat := (g.totalBlks + 15) / 16 * 4
def Geometry.mappingTableSize (g : Geometry) : Nat := g.totalBlks * 4
def Geometry.stateTableOff (g : Geometry) : Nat := align infoTableHeaderSize g.pgSize
def Geometry.mappingTableOff (g : Geometry) : Nat :=
  g.stateTableOff + align g.stateTableSize g.pgSize
def Geometry.infoTableSize (g : Geometry) : Nat :=
  g.mappingTableOff + align g.mappingTableSize g.pgSize

/-- `nmbm_get_spare_block_count` -/
def getSpareBlockCount (blockCount : Nat) : Nat := max ((blockCount + 1) / 2) 2

def Geometry.infoTableSpareBlocks (g : Geometry) : Nat :=
  getSpareBlockCount (size2blk g g.infoTableSize)

/-! ### Block states -/

def blockStBad : BitVec 32 := 0
def blockStGood : BitVec 32 := 3

/-- `nmbm_get_block_state` -/
def Instance.getBlockState (ni : Instance) (ba : Nat) : BitVec 32 := Packed.get ni.blockState ba

def Instance.good (ni : Instance) (ba : Nat) : Bool := ni.getBlockState ba == blockStGood

/-- `nmbm_set_block_state` -/
def Instance.setBlockState (ni : Instance) (ba : Nat) (state : BitVec 32) : Instance :=
  let orig := ni.getBlockState ba
  { ni with
    blockState := Packed.set ni.blockState ba state
    blockStateChanged := if orig != state &&& 3 then ni.blockStateChanged + 1
      else ni.blockStateChanged }

def State.setBad (s : State) (ba : Nat) : State := { s with ni := s.ni.setBlockState ba blockStBad }

/-! ### Walks -/

/-- The loop of `nmbm_block_walk_asc`: `n` blocks from `ba` on, `count` good ones to skip. -/
def Instance.walkAscFrom (ni : Instance) : Nat → Nat → Nat → Option Nat
  | 0, _, _ => none
  | n + 1, ba, count =>
    if ni.good ba then
      match count with
      | 0 => some ba
      | count + 1 => ni.walkAscFrom n (ba + 1) count
    else ni.walkAscFrom n (ba + 1) count

/-- `nmbm_block_walk_asc` -/
def blockWalkAsc (g : Geometry) (ni : Instance) (ba count limit : Nat) : Option Nat :=
  let limit := if limit ≥ g.totalBlks then g.totalBlks - 1 else limit
  ni.walkAscFrom (limit - ba) ba count

/-- The loop of `nmbm_block_walk_desc`. -/
def Instance.walkDescFrom (ni : Instance) : Nat → Nat → Nat → Option Nat
  | 0, _, _ => none
  | n + 1, ba, count =>
    if ni.good ba then
      match count with
      | 0 => some ba
      | count + 1 => ni.walkDescFrom n (ba - 1) count
    else ni.walkDescFrom n (ba - 1) count

/-- `nmbm_block_walk_desc` -/
def blockWalkDesc (g : Geometry) (ni : Instance) (ba count limit : Nat) : Option Nat :=
  let limit := if limit ≥ g.totalBlks then g.totalBlks - 1 else limit
  ni.walkDescFrom (ba - limit) ba count

/-- `nmbm_try_reserve_blocks` with the least count 0: as many good blocks as there are, at
    most `count`. -/
def tryReserveBlocks (g : Geometry) (ni : Instance) (ba : Nat) : Nat → Nat → Option Nat
  | 0, limit => blockWalkAsc g ni ba 0 limit
  | count + 1, limit =>
    match blockWalkAsc g ni ba (count + 1) limit with
    | some nba => some nba
    | none => tryReserveBlocks g ni ba count limit

end LibWrt.Nmbm
