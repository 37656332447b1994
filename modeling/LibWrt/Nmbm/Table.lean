/-
LibWrt.Nmbm.Table — writing the info tables, from `nmbm_write_mgmt_range` to
`nmbm_update_info_table`.

A function of the source that returns a flag and changes the instance is a
function from states to a flag and a state. The gotos to `next_block` and
`skip_bad_block` are the branches of one step, and the loops over block
addresses recurse on the number of blocks left.
-/
import LibWrt.Nmbm.Device

namespace LibWrt.Nmbm

open LibWrt.Flash LibWrt.Bytes LibWrt.Crc32

variable (g : Geometry) (env : Env)

/-! ## The image of the tables -/

/-- `nmbm_update_checksum` of a structure of `size` bytes. -/
def updateChecksum (data : Bytes) : Bytes :=
  let zeroed := data.take 12 ++ le32 0 ++ data.drop headerSize
  data.take 12 ++ le32 (crc32Le 0 (zeroed.take (ofLe32 (data.drop 8)).toNat)) ++
    data.drop headerSize

/-- `buf` with `data` copied over it at `off`. -/
def memcpy (buf : Bytes) (off : Nat) (data : Bytes) : Bytes :=
  buf.take off ++ data ++ buf.drop (off + data.length)

/-- `nmbm_generate_info_table_cache`: whether anything changed. -/
def generateInfoTableCache (ni : Instance) : Bool × Instance :=
  let cache := List.replicate g.infoTableSize 0xff
  let cache := memcpy cache ni.infoTable.stateTableOff.toNat (ni.blockState.flatMap le32)
  let cache := memcpy cache ni.infoTable.mappingTableOff.toNat (ni.blockMapping.flatMap le32)
  let changed := ni.blockStateChanged != 0 || ni.blockMappingChanged != 0
  let infoTable :=
    { ni.infoTable with
      header :=
        { ni.infoTable.header with
          magic := magicInfoTable
          version := nmbmVer
          size := BitVec.ofNat 32 g.infoTableSize }
      writeCount := if changed then ni.infoTable.writeCount + 1 else ni.infoTable.writeCount }
  let cache := updateChecksum (memcpy cache 0 infoTable.toBytes)
  (changed, { ni with infoTable := infoTable, infoTableCache := cache })

/-! ## Management ranges -/

/-- The loop of `nmbm_erase_range` over `n` blocks from `ba` on. -/
def eraseRangeFrom : Nat → Nat → State → State
  | 0, _, s => s
  | n + 1, ba, s =>
    if !s.ni.good ba then eraseRangeFrom n (ba + 1) s
    else if checkBadPhysBlock s.nand.chip ba then eraseRangeFrom n (ba + 1) (s.setBad ba)
    else
      let (success, nand) := eraseBlockAndCheck g env s.ni.emptyPageEccOk ba s.nand
      let s := { s with nand := nand }
      if success then eraseRangeFrom n (ba + 1) s
      else eraseRangeFrom n (ba + 1) ({ s with nand := markPhysBadBlock env ba s.nand }.setBad ba)

/-- `nmbm_erase_range` -/
def eraseRange (ba limit : Nat) (s : State) : State := eraseRangeFrom g env (limit - ba) ba s

/-- One block of `nmbm_write_mgmt_range`: whether it took the chunk. -/
def writeMgmtBlock (ba : Nat) (chunk : Bytes) (s : State) : Bool × State :=
  if !s.ni.good ba then (false, s)
  else if checkBadPhysBlock s.nand.chip ba then (false, s.setBad ba)
  else
    let (erased, nand) := eraseBlockAndCheck g env s.ni.emptyPageEccOk ba s.nand
    let (success, nand) := if erased then writeVerifyData g env ba chunk nand else (false, nand)
    let s := { s with nand := nand }
    if success then (true, s)
    else (false, { s with nand := markPhysBadBlock env ba s.nand }.setBad ba)

/-- The loop of `nmbm_write_mgmt_range` over `n` blocks from `ba` on; `start` is the block
    of the first chunk. The result is the range of the data. -/
def writeMgmtRangeFrom (start : Option Nat) : Nat → Nat → List Bytes → State →
    Option (Nat × Nat) × State
  | _, ba, [], s => (some (start.getD 0, ba), s)
  | 0, _, _ :: _, s => (none, s)
  | n + 1, ba, chunk :: chunks, s =>
    match writeMgmtBlock g env ba chunk s with
    | (true, s) => writeMgmtRangeFrom (some (start.getD ba)) n (ba + 1) chunks s
    | (false, s) => writeMgmtRangeFrom start n (ba + 1) (chunk :: chunks) s

/-- `nmbm_write_mgmt_range`: the start block of the data and the block after its end. -/
def writeMgmtRange (ba limit : Nat) (data : Bytes) (s : State) : Option (Nat × Nat) × State :=
  writeMgmtRangeFrom g env none (limit - ba) ba (pieces g.blkSize data) s

/-- `nmbm_write_info_table` -/
def writeInfoTable (ba limit : Nat) (s : State) : Option (Nat × Nat) × State :=
  writeMgmtRange g env ba limit s.ni.infoTableCache s

/-- `nmbm_mark_tables_clean` -/
def Instance.markTablesClean (ni : Instance) : Instance :=
  { ni with blockStateChanged := 0, blockMappingChanged := 0 }

/-- The highest start of a table below the mapped blocks, as the walks take it. -/
def Instance.tableLimit (ni : Instance) : Nat :=
  sub32 ni.mappingBlocksTopBa (size2blk g g.infoTableSize)

/-- `nmbm_try_reserve_blocks` for the spare blocks after a table -/
def Instance.reserveSpare (ni : Instance) (ba : Nat) : Option Nat :=
  tryReserveBlocks g ni ba g.infoTableSpareBlocks (ni.tableLimit g)

/-! ## Building and rescuing the tables -/

/-- `nmbm_rebuild_info_table` -/
def rebuildInfoTable (s : State) : Bool × State :=
  let s : State :=
    { s with
      ni :=
        { s.ni with
          mainTableBa := 0
          backupTableBa := 0
          mappingBlocksBa := s.ni.mappingBlocksTopBa } }
  match writeInfoTable g env s.ni.mgmtStartBa s.ni.mappingBlocksTopBa s with
  | (none, s) => (false, { s with ni := { s.ni with isProtected := true } })
  | (some (tableStartBa, mainTableEndBa), s) =>
    let ni :=
      { s.ni with
        mainTableBa := tableStartBa
        mappingBlocksBa := mainTableEndBa : Instance }
    let s : State := { s with ni := ni.markTablesClean }
    match s.ni.reserveSpare g mainTableEndBa with
    | none => (true, s)
    | some nextStartBa =>
      match writeInfoTable g env nextStartBa s.ni.mappingBlocksTopBa s with
      | (none, s) => (true, s)
      | (some (tableStartBa, tableEndBa), s) =>
        let s : State :=
          { s with
            ni :=
              { s.ni with
                backupTableBa := tableStartBa
                mappingBlocksBa := tableEndBa } }
        (true, eraseRange g env mainTableEndBa s.ni.backupTableBa s)

/-- The loops that write a table at `start + n`, or at the nearest place before it down to
    `start` that takes it. -/
def writeDownTo (start : Nat) : Nat → State → Option (Nat × Nat) × State
  | 0, s => writeInfoTable g env start s.ni.mappingBlocksTopBa s
  | n + 1, s =>
    match writeInfoTable g env (start + (n + 1)) s.ni.mappingBlocksTopBa s with
    | (some range, s) => (some range, s)
    | (none, s) => writeDownTo start n s

def State.backupToMain (s : State) : State :=
  { s with ni := { s.ni with mainTableBa := s.ni.backupTableBa, backupTableBa := 0 } }

/-- `nmbm_rescue_main_info_table` -/
def rescueMainInfoTable (s : State) : Bool × State :=
  match s.ni.reserveSpare g s.ni.mappingBlocksBa with
  | none => (true, s.backupToMain)
  | some writeBa =>
    match writeDownTo g env s.ni.mappingBlocksBa (writeBa - s.ni.mappingBlocksBa) s with
    | (none, s) => (true, s.backupToMain)
    | (some (tmpTableStartBa, tmpTableEndBa), s) =>
      let s : State := { s with ni := { s.ni with mappingBlocksBa := tmpTableEndBa } }
      match writeInfoTable g env s.ni.mgmtStartBa tmpTableStartBa s with
      | (none, s) =>
        let ni := { s.ni with mainTableBa := tmpTableStartBa, backupTableBa := 0 : Instance }
        (true, { s with ni := ni.markTablesClean })
      | (some (mainTableStartBa, mainTableEndBa), s) =>
        let ni := { s.ni with mainTableBa := mainTableStartBa : Instance }
        let s : State := { s with ni := ni.markTablesClean }
        if mainTableEndBa ≤ tmpTableStartBa then
          (true, { s with ni := { s.ni with backupTableBa := tmpTableStartBa } })
        else
          let s : State := { s with ni := { s.ni with mappingBlocksBa := mainTableEndBa } }
          match s.ni.reserveSpare g mainTableEndBa with
          | none => (true, { s with ni := { s.ni with backupTableBa := 0 } })
          | some writeBa =>
            match writeDownTo g env mainTableEndBa (writeBa - mainTableEndBa) s with
            | (none, s) => (true, { s with ni := { s.ni with backupTableBa := 0 } })
            | (some (tmpTableStartBa, tmpTableEndBa), s) =>
              let s : State :=
                { s with
                  ni :=
                    { s.ni with
                      backupTableBa := tmpTableStartBa
                      mappingBlocksBa := tmpTableEndBa } }
              (true, eraseRange g env mainTableEndBa s.ni.backupTableBa s)

/-! ## Updating the tables -/

/-- The second half of `nmbm_update_info_table_once`, from the label `write_main_table` on. -/
def updateMainTable (mainTableLimit : Nat) (s : State) : Bool × State :=
  if s.ni.mainTableBa = 0 then rebuildInfoTable g env s
  else
    match writeInfoTable g env s.ni.mainTableBa mainTableLimit s with
    | (none, s) =>
      if s.ni.backupTableBa = 0 then rebuildInfoTable g env s else rescueMainInfoTable g env s
    | (some (tableStartBa, tableEndBa), s) =>
      let ni :=
        { s.ni with
          mainTableBa := tableStartBa
          mappingBlocksBa :=
            if s.ni.backupTableBa = 0 then tableEndBa else s.ni.mappingBlocksBa : Instance }
      (true, { s with ni := ni.markTablesClean })

/-- `nmbm_update_info_table_once` -/
def updateInfoTableOnce (force : Bool) (s : State) : Bool × State :=
  let (changed, ni) := generateInfoTableCache g s.ni
  let s : State := { s with ni := ni }
  if !changed && !force then (true, s)
  else if s.ni.backupTableBa = 0 then updateMainTable g env s.ni.mappingBlocksTopBa s
  else
    match writeInfoTable g env s.ni.backupTableBa s.ni.mappingBlocksTopBa s with
    | (none, s) =>
      let ni :=
        { s.ni with mappingBlocksBa := s.ni.backupTableBa, backupTableBa := 0 : Instance }
      updateMainTable g env ni.mappingBlocksTopBa { s with ni := ni }
    | (some (tableStartBa, tableEndBa), s) =>
      let ni :=
        { s.ni with
          backupTableBa := tableStartBa
          mappingBlocksBa := tableEndBa : Instance }
      updateMainTable g env tableStartBa { s with ni := ni.markTablesClean }

/-- The loop of `nmbm_update_info_table`, for at most `fuel` passes. -/
def updateInfoTableFrom : Nat → State → Bool × State
  | 0, s => (false, s)
  | fuel + 1, s =>
    if s.ni.blockStateChanged = 0 ∧ s.ni.blockMappingChanged = 0 then (true, s)
    else
      match updateInfoTableOnce g env false s with
      | (false, s) => (false, s)
      | (true, s) => updateInfoTableFrom fuel s

/-- `nmbm_update_info_table`. A pass that leaves something to write has found a bad block,
    so there are at most as many passes as blocks, and two more. -/
def updateInfoTable (s : State) : Bool × State :=
  if s.ni.isProtected then (true, s) else updateInfoTableFrom g env (g.totalBlks + 2) s

end LibWrt.Nmbm
