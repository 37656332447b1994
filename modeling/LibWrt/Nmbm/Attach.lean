/-
LibWrt.Nmbm.Attach — creating the manager, finding its info table, and remapping.

A search for an info table may find blocks bad, which changes the instance
also when it fails; `tryLoadInfoTable` and `searchInfoTable` return the state
in both cases.
-/
import LibWrt.Nmbm.Table

namespace LibWrt.Nmbm

open List
open LibWrt.Flash LibWrt.Bytes LibWrt.Crc32

variable (g : Geometry) (env : Env)

/-! ## Creating -/

/-- The loop of `nmbm_scan_badblocks` over the `n` blocks from `ba` on. -/
def scanBadblocksFrom : Nat → Nat → State → State
  | 0, _, s => s
  | n + 1, ba, s =>
    scanBadblocksFrom n (ba + 1) (if checkBadPhysBlock s.nand.chip ba then s.setBad ba else s)

/-- `nmbm_scan_badblocks` -/
def scanBadblocks (s : State) : State := scanBadblocksFrom g.totalBlks 0 s

def Instance.usable (ni : Instance) : List Nat :=
  (range ni.mgmtStartBa).filter fun pb => ni.getBlockState pb != blockStBad

/-- `nmbm_build_mapping_table`: the next good block for each logical block, then `-1`. -/
def buildMappingTable (ni : Instance) : Instance :=
  { ni with
    blockMapping := (ni.usable.map (BitVec.ofNat 32)) ++
      replicate (g.totalBlks - ni.usable.length) (BitVec.allOnes 32)
    dataBlockCount := ni.usable.length }

/-- The loop of `nmbm_write_signature` over `n` blocks from `ba` down. -/
def writeSignatureFrom (signature : Bytes) : Nat → Nat → State → Option Nat × State
  | 0, _, s => (none, s)
  | n + 1, ba, s =>
    if !s.ni.good ba then writeSignatureFrom signature n (ba - 1) s
    else if checkBadPhysBlock s.nand.chip ba then writeSignatureFrom signature n (ba - 1) (s.setBad ba)
    else
      let (erased, nand) := eraseBlockAndCheck g env s.ni.emptyPageEccOk ba s.nand
      let (success, nand) :=
        if erased then writeRepeatedData g env ba signature nand else (false, nand)
      let s := { s with nand := nand }
      if success then (some ba, s)
      else writeSignatureFrom signature n (ba - 1)
        ({ s with nand := markPhysBadBlock env ba s.nand }.setBad ba)

/-- `nmbm_write_signature` -/
def writeSignature (limit : Nat) (signature : Bytes) (s : State) : Option Nat × State :=
  writeSignatureFrom g env signature (g.totalBlks - 1 - limit) (g.totalBlks - 1) s

/-- `nmbm_map_block` -/
def mapBlock (lb : Nat) (s : State) : Bool × State :=
  if s.ni.mappingBlocksBa = s.ni.mappingBlocksTopBa then (false, s)
  else
    match blockWalkDesc g s.ni s.ni.mappingBlocksTopBa 0 s.ni.mappingBlocksBa with
    | none =>
      let (_, s) := updateInfoTable g env s
      (false, { s with ni := { s.ni with mappingBlocksTopBa := s.ni.mappingBlocksBa } })
    | some pb =>
      (true, { s with
        ni :=
          { s.ni with
            blockMapping := s.ni.blockMapping.set lb (BitVec.ofNat 32 pb)
            mappingBlocksTopBa := s.ni.mappingBlocksTopBa - 1
            blockMappingChanged := s.ni.blockMappingChanged + 1 } })

/-- The loop of `nmbm_create_info_table` over `n` logical blocks from `lb` on. -/
def remapDataAreaFrom : Nat → Nat → State → State
  | 0, _, s => s
  | n + 1, lb, s =>
    match mapBlock g env lb s with
    | (false, s) => s
    | (true, s) =>
      remapDataAreaFrom n (lb + 1)
        { s with ni := { s.ni with dataBlockCount := s.ni.dataBlockCount + 1 } }

/-- `nmbm_create_info_table` -/
def createInfoTable (s : State) : Bool × State :=
  match blockWalkDesc g s.ni s.ni.signatureBa 1 s.ni.mgmtStartBa with
  | none => (false, s)
  | some top =>
    let (_, ni) := generateInfoTableCache g { s.ni with mappingBlocksTopBa := top }
    match rebuildInfoTable g env { s with ni := ni } with
    | (false, s) => (false, s)
    | (true, s) =>
      updateInfoTable g env
        (remapDataAreaFrom g env (s.ni.mgmtStartBa - s.ni.dataBlockCount) s.ni.dataBlockCount s)

/-- `NMBM_MGMT_DIV` -/
def mgmtDiv : Nat := 16

/-- The boundary of the management blocks that `nmbm_create_new` determines. -/
def Instance.boundary (ni : Instance) : Nat :=
  let start := g.totalBlks * sub32 mgmtDiv ni.maxRatio % 2 ^ 32 / mgmtDiv
  if ni.maxReservedBlocks ≠ 0 ∧ sub32 g.totalBlks start > ni.maxReservedBlocks then
    sub32 g.totalBlks ni.maxReservedBlocks
  else start

def Geometry.signature (mgmtStartBa : Nat) : Signature where
  header :=
    { magic := magicSignature, version := nmbmVer, size := BitVec.ofNat 32 signatureSize }
  nandSize := g.totalBlks <<< g.blkShift
  blockSize := BitVec.ofNat 32 g.blkSize
  pageSize := BitVec.ofNat 32 g.pgSize
  spareSize := BitVec.ofNat 32 g.oobSize
  mgmtStartPb := BitVec.ofNat 32 mgmtStartBa
  maxTryCount := BitVec.ofNat 32 tryCount

/-- `nmbm_create_new` -/
def createNew (s : State) : Bool × State :=
  let s : State := { s with ni := { s.ni with mgmtStartBa := s.ni.boundary g } }
  let s := scanBadblocks g s
  let ni := buildMappingTable g s.ni
  let signature := updateChecksum (Geometry.signature g ni.mgmtStartBa).toBytes
  let s : State := { s with ni := { ni with signature := .ofBytes signature } }
  match writeSignature g env s.ni.mgmtStartBa signature s with
  | (none, s) => (false, s)
  | (some signatureBa, s) =>
    createInfoTable g env { s with ni := { s.ni with signatureBa := signatureBa } }

/-! ## Loading -/

/-- `nmbm_check_header` -/
def checkHeader (data : Bytes) (size : Nat) : Bool :=
  let header := Header.ofBytes data
  header.size.toNat ≤ size &&
    (let crc := crc32Le 0 { header with checksum := 0 }.toBytes
     header.checksum ==
      if header.size.toNat > headerSize then
        crc32Le crc ((data.drop headerSize).take (header.size.toNat - headerSize))
      else crc)

/-- `nmbm_check_info_table_header` -/
def checkInfoTableHeader (data : Bytes) : Bool :=
  let ifthdr := InfoTableHeader.ofBytes data
  ifthdr.header.magic == magicInfoTable &&
    ifthdr.header.size == BitVec.ofNat 32 g.infoTableSize &&
    !((ifthdr.mappingTableOff - ifthdr.stateTableOff).toNat < g.stateTableSize) &&
    !((BitVec.ofNat 32 g.infoTableSize - ifthdr.mappingTableOff).toNat < g.mappingTableSize)

def imageStates (data : Bytes) : List (BitVec 32) :=
  words (g.stateTableSize / 4) (data.drop (InfoTableHeader.ofBytes data).stateTableOff.toNat)

def imageMapping (data : Bytes) : List (BitVec 32) :=
  words g.totalBlks (data.drop (InfoTableHeader.ofBytes data).mappingTableOff.toNat)

/-- `nmbm_check_info_table`: the block of the top remapped block, less one. The comparisons
    are between 32-bit words without sign. -/
def checkInfoTable (ni : Instance) (startBa endBa : Nat) (data : Bytes) : Option Nat :=
  let mapped := (range ni.dataBlockCount).map fun ba =>
    ((imageMapping g data).getD ba 0).toNat
  let wrong := mapped.any fun pb =>
    (decide (pb ≥ ni.dataBlockCount) && decide (pb < endBa)) || pb == ni.signatureBa
  let minimum := mapped.foldl
    (fun low pb => if pb ≥ endBa ∧ pb < low then pb else low) ni.signatureBa
  let missed := (range' startBa (endBa - startBa)).any fun ba =>
    ni.good ba && Packed.get (imageStates g data) ba != blockStGood
  if wrong || missed then none else some (sub32 minimum 1)

/-- The blocks of a table as the loop of `nmbm_try_load_info_table` reads them, `n` blocks
    from `ba` on: the data read, the block it starts at and the block after it. -/
def readTableFrom : Nat → Nat → Nat → Option Nat → Bytes → State →
    Option (Bytes × Nat × Nat) × State
  | n, ba, sizeremain, start, data, s =>
    if sizeremain = 0 then (some (data, start.getD 0, ba), s)
    else
      match n with
      | 0 => (none, s)
      | n + 1 =>
        if !s.ni.good ba then readTableFrom n (ba + 1) sizeremain start data s
        else if checkBadPhysBlock s.nand.chip ba then
          readTableFrom n (ba + 1) sizeremain start data (s.setBad ba)
        else
          let chunksize := min g.blkSize sizeremain
          match readData g s.nand.chip ba chunksize with
          | .error _ => readTableFrom n (ba + 1) sizeremain start data (s.setBad ba)
          | .ok chunk =>
            if start.isNone && !checkInfoTableHeader g chunk then (none, s)
            else
              readTableFrom n (ba + 1) (sizeremain - chunksize) (some (start.getD ba))
                (data ++ chunk) s

/-- What a table found gives: the block after it, its write count and the top of the blocks
    that are free to map. -/
structure Found where
  endBa : Nat
  writeCount : BitVec 32
  mappingBlocksTopBa : Nat
  deriving DecidableEq

def Instance.loadImage (ni : Instance) (data : Bytes) : Instance :=
  { ni with
    infoTable := .ofBytes data
    blockState := imageStates g data
    blockMapping := imageMapping g data }

/-- `nmbm_try_load_info_table` -/
def tryLoadInfoTable (ba : Nat) (tableLoaded : Bool) (s : State) : Option Found × State :=
  match readTableFrom g (size2blk g g.infoTableSize) ba g.infoTableSize none [] s with
  | (none, s) => (none, s)
  | (some (data, startBa, endBa), s) =>
    let s : State := { s with ni := { s.ni with infoTableCache := data } }
    if !checkHeader data g.infoTableSize then (none, s)
    else
      match checkInfoTable g s.ni startBa endBa data with
      | none => (none, s)
      | some top =>
        let writeCount := (InfoTableHeader.ofBytes data).writeCount
        let s : State :=
          if !tableLoaded || s.ni.infoTable.writeCount < writeCount then
            { s with ni := s.ni.loadImage g data }
          else s
        (some { endBa := endBa, writeCount := writeCount, mappingBlocksTopBa := top }, s)

/-- The loop of `nmbm_search_info_table` over `n` blocks from `ba` on. -/
def searchInfoTableFrom (tableLoaded : Bool) : Nat → Nat → State → Option (Nat × Found) × State
  | 0, _, s => (none, s)
  | n + 1, ba, s =>
    match tryLoadInfoTable g ba tableLoaded s with
    | (some found, s) => (some (ba, found), s)
    | (none, s) => searchInfoTableFrom tableLoaded n (ba + 1) s

/-- `nmbm_search_info_table`: where the table starts, and what it gives. -/
def searchInfoTable (ba limit : Nat) (tableLoaded : Bool) (s : State) :
    Option (Nat × Found) × State :=
  searchInfoTableFrom g tableLoaded (sub32 limit (size2blk g g.infoTableSize) - ba) ba s

/-! ## Attaching -/

def signatureOfBlock (chip : Chip Page) (ba : Nat) : Option Signature :=
  (range g.pagesPerBlock).findSome? fun pg =>
    match readPages g chip ba signatureSize pg signatureSize with
    | .error _ => none
    | .ok data =>
      if checkHeader data signatureSize && (Header.ofBytes data).magic == magicSignature then
        some (.ofBytes data)
      else none

/-- The loop of `nmbm_find_signature` over `n` blocks below `ba`. -/
def findSignatureFrom (chip : Chip Page) : Nat → Nat → Option (Signature × Nat)
  | 0, _ => none
  | n + 1, ba =>
    if checkBadPhysBlock chip (ba - 1) then findSignatureFrom chip n (ba - 1)
    else
      match signatureOfBlock g chip (ba - 1) with
      | some signature => some (signature, ba - 1)
      | none => findSignatureFrom chip n (ba - 1)

/-- `nmbm_find_signature`, down to the block before the limit -/
def findSignature (ni : Instance) (chip : Chip Page) : Option (Signature × Nat) :=
  let limit := g.totalBlks / mgmtDiv * sub32 mgmtDiv ni.maxRatio % 2 ^ 32
  let limit :=
    if ni.maxReservedBlocks ≠ 0 ∧ sub32 g.totalBlks limit > ni.maxReservedBlocks then
      sub32 g.totalBlks ni.maxReservedBlocks
    else limit
  findSignatureFrom g chip (min (g.totalBlks + 1 - limit) g.totalBlks) g.totalBlks

/-- `nmbm_init_structure` -/
def initStructure (ni : Instance) : Instance :=
  { ni with
    infoTable :=
      { ni.infoTable with
        stateTableOff := BitVec.ofNat 32 g.stateTableOff
        mappingTableOff := BitVec.ofNat 32 g.mappingTableOff }
    blockState := replicate (g.stateTableSize / 4) (BitVec.allOnes 32)
    blockStateChanged := 0
    blockMapping := replicate g.totalBlks 0
    blockMappingChanged := 0 }

/-! ## Remapping -/

/-- `bbt_nand_erase` -/
def bbtNandErase (ba : Nat) (d : Device Page) : Device Page :=
  d.run (.erase ba (env.erase d.log.length ba).2)

/-- `bbt_nand_copy` of `n` pages from `pg` on, to the first error -/
def bbtNandCopy (dest src : Nat) : Nat → Nat → Device Page → Device Page
  | 0, _, d => d
  | n + 1, pg, d =>
    match readPhysPage d.chip src pg with
    | .error _ => d
    | .ok data =>
      let (failed, left) := env.program d.log.length dest pg data
      let d := d.run (.program dest pg left)
      if failed then d else bbtNandCopy dest src n (pg + 1) d

/-- The pages a copy of `copyLen` bytes takes. -/
def Geometry.copyPages (copyLen : Nat) : Nat :=
  min g.pagesPerBlock ((copyLen + g.pgSize - 1) / g.pgSize)

/-- `remap_block_nmbm` -/
def remapBlockNmbm (block mappedBlock copyLen : Nat) (s : State) : Bool × State :=
  if block ≥ s.ni.dataBlockCount then (false, s)
  else
    match mapBlock g env block (s.setBad mappedBlock) with
    | (false, s) => (false, s)
    | (true, s) =>
      let newBlock := (s.ni.blockMapping.getD block 0).toNat
      let nand := bbtNandErase env newBlock s.nand
      let nand :=
        if copyLen > 0 then
          bbtNandCopy env newBlock mappedBlock (Geometry.copyPages g copyLen) 0 nand
        else nand
      let (_, s) := updateInfoTable g env { s with nand := nand }
      (true, s)

end LibWrt.Nmbm
