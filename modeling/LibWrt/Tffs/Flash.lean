/-
LibWrt.Tffs.Flash — the entries of a TFFS on NAND flash.

`scanMtd` finds the sectors that are good, `findEntry` goes over them for the
segments of an entry. The id of a sector that was read is kept, and the next
lookup takes it from there. A write outside of an array gives nothing at all;
the device is read without an error.
-/
import LibWrt.Lib.Bits

namespace LibWrt.Tffs

open LibWrt.Bits Function

/-! ## The device -/

/-- `TFFS_ID_END` -/
def idEnd : Nat := 0xffffffff

/-- `TFFS_BLOCK_HEADER_MAGIC` -/
def blockHeaderMagic : Nat := 0x41564d5f54464653

/-- `TFFS_MAXIMUM_SEGMENT_SIZE` -/
def maximumSegmentSize : Nat := 0x800 - 0x18

/-- `TFFS_SECTORS_PER_PAGE` -/
def sectorsPerPage : Nat := 2

/-- `TFFS_SEGMENT_CLEARED` -/
def segmentCleared : Nat := 0xffffffff

structure Sector where
  data : List UInt8
  oob : List UInt8
  data_length : data.length = 0x800

structure Config where
  /-- Words are in network order: the machine's, or `swap_bytes`. -/
  big : Bool
  readOobSectorHealth : Bool
  /-- The segments that an array of the machine can have. -/
  maxSegments : Nat
  /-- The sectors of a block. -/
  blockSectors : Nat
  numSectors : Nat
  /-- The size of a device has 32 bits. -/
  size_lt : 0x800 * numSectors < 2 ^ 32

abbrev Image := Nat → Sector

/-- `read_uint32`, `read_uint64` -/
def Config.word (cfg : Config) (bytes : Nat) (buf : List UInt8) (off : Nat) : Nat :=
  let read := (buf.drop off).take bytes
  beNat (if cfg.big then read else read.reverse)

/-! ## The scan -/

/-- `check_sector` -/
def checkSector (cfg : Config) (s : Sector) : Bool :=
  !cfg.readOobSectorHealth || (s.oob.getD 0 0 == 0xff && s.oob.getD 1 0 == 0xff)

/-- `sector_mark_bad` of a number that is an `int`, if it is in the array. -/
def sectorMarkBad (cfg : Config) (good : Nat → Bool) (num : Nat) : Option (Nat → Bool) :=
  if num < 8 * ((cfg.numSectors + 7) / 8) then some (update good num false) else none

def markHeaderBad (cfg : Config) (s : Sector) (sector : Nat) :
    Nat → Nat → (Nat → Bool) → Option (Nat → Bool)
  | 0, _, good => some good
  | n + 1, i, good =>
    let bad := (sector + cfg.word 8 s.data (0x1c + 8 * i)) % 2 ^ 32
    (sectorMarkBad cfg good bad).bind (markHeaderBad cfg s sector n (i + 1))

structure Scan where
  good : Nat → Bool
  sectorIds : Nat → Nat

/-- `check_block` -/
def checkBlock (cfg : Config) (img : Image) (sector : Nat) (s : Scan) : Option (Bool × Scan) :=
  let hdr := img sector
  if !checkSector cfg hdr then some (false, s)
  else
    let s := { s with sectorIds := update s.sectorIds sector (cfg.word 4 hdr.data 0) }
    if cfg.word 8 hdr.data 0 ≠ blockHeaderMagic then some (false, s)
    else if cfg.word 4 hdr.data 0x0c ≠ sectorsPerPage then some (false, s)
    else
      (markHeaderBad cfg hdr sector (cfg.word 4 hdr.data 0x0c) 0 s.good).map fun good =>
        (true, { s with good })

/-- The loop of `scan_mtd` over so many sectors, with the valid blocks. -/
def scanLoop (cfg : Config) (img : Image) :
    Nat → Nat → Bool → Nat → Scan → Option (Nat × Scan)
  | 0, _, _, valid, s => some (valid, s)
  | n + 1, sector, blockOk, valid, s =>
    if sector % cfg.blockSectors = 0 then
      (checkBlock cfg img sector s).bind fun (blockOk, s) =>
        scanLoop cfg img n (sector + 1) blockOk (if blockOk then valid + 1 else valid)
          { s with good := update s.good sector false }
    else if !blockOk || !s.good sector || !checkSector cfg (img sector) then
      scanLoop cfg img n (sector + 1) blockOk valid
        { s with good := update s.good sector false }
    else scanLoop cfg img n (sector + 1) blockOk valid s

/-- `scan_mtd`, if there is a valid block. -/
def scanMtd (cfg : Config) (img : Image) : Option Scan :=
  match scanLoop cfg img cfg.numSectors 0 false 0 ⟨fun _ => true, fun _ => 0⟩ with
  | some (valid, s) => if valid ≠ 0 then some s else none
  | none => none

/-! ## The lookup -/

structure Segment where
  rev : Nat
  seg : Nat
  nextSeg : Nat
  val : List UInt8
  deriving DecidableEq

def readSegment (cfg : Config) (s : Sector) : Segment where
  rev := cfg.word 4 s.data 0x0c
  seg := cfg.word 4 s.data 0x10
  nextSeg := cfg.word 4 s.data 0x14
  val := (s.data.drop 0x18).take (cfg.word 4 s.data 0x04)

def readId (cfg : Config) (s : Sector) : Nat := cfg.word 4 s.data 0x00

def consistent (cfg : Config) (s : Sector) : Bool :=
  cfg.word 4 s.oob 0x02 == cfg.word 4 s.data 0x00 &&
    cfg.word 4 s.oob 0x06 == cfg.word 4 s.data 0x04 &&
    cfg.word 4 s.oob 0x0a == cfg.word 4 s.data 0x0c

/-- `rev`, `segments` and `num_segments` -/
structure Collected where
  rev : Nat
  segments : List (Option (List UInt8))
  deriving DecidableEq

/-- `new_num_segs` -/
def Segment.newNumSegs (e : Segment) : Nat :=
  (if e.nextSeg = 0 then e.seg + 1 else e.nextSeg + 1) % 2 ^ 32

def Collected.renew (c : Collected) (e : Segment) : Collected :=
  if e.rev > c.rev then { rev := e.rev, segments := [] } else c

/-- The segment goes into the array, which grows for it. -/
def Collected.place (maxSegments : Nat) (c : Collected) (e : Segment) : Option Collected :=
  if e.seg = segmentCleared then some c
  else if c.segments.length < e.newNumSegs ∧ maxSegments < e.newNumSegs then none
  else
    let segments := c.segments ++ List.replicate (e.newNumSegs - c.segments.length) none
    if e.seg < segments.length then some { c with segments := segments.set e.seg (some e.val) }
    else none

def collect (maxSegments : Nat) (c : Collected) (e : Segment) : Option Collected :=
  if e.rev < c.rev then some c else (c.renew e).place maxSegments e

/-- The locals of `find_entry`, and the ids. -/
structure Lookup where
  blockEnd : Bool
  collected : Collected
  sectorIds : Nat → Nat

def readSector (cfg : Config) (s : Sector) (id sector : Nat) (l : Lookup) : Option Lookup :=
  let l := { l with sectorIds := update l.sectorIds sector (readId cfg s) }
  if cfg.readOobSectorHealth && !consistent cfg s then some l
  else if readId cfg s = idEnd then some { l with blockEnd := true }
  else if cfg.word 4 s.data 0x04 > maximumSegmentSize then some l
  else if readId cfg s = id then
    (collect cfg.maxSegments l.collected (readSegment cfg s)).map fun collected =>
      { l with collected }
  else some l

/-- One turn of the loop of `find_entry`. -/
def findTurn (cfg : Config) (good : Nat → Bool) (img : Image) (id sector : Nat) (l : Lookup) :
    Option Lookup :=
  if l.blockEnd then
    some (if sector % cfg.blockSectors = 0 then { l with blockEnd := false } else l)
  else if good sector then
    if l.sectorIds sector ≠ 0 ∧ l.sectorIds sector = idEnd then some { l with blockEnd := true }
    else if l.sectorIds sector ≠ 0 ∧ l.sectorIds sector ≠ id then some l
    else readSector cfg (img sector) id sector l
  else some l

def findLoop (cfg : Config) (good : Nat → Bool) (img : Image) (id : Nat) :
    Nat → Nat → Lookup → Option Lookup
  | 0, _, l => some l
  | n + 1, sector, l =>
    (findTurn cfg good img id sector l).bind (findLoop cfg good img id n (sector + 1))

/-- What is made of the segments, if there is one and none is missing. The length has 32 bits. -/
def assemble (segments : List (Option (List UInt8))) : Option (Option (List UInt8)) :=
  if segments = [] ∨ none ∈ segments then some none
  else
    let value := (segments.map fun s => s.getD []).flatten
    if value.length < 2 ^ 32 then some (some value) else none

/-- `find_entry`, with the ids for the next one. -/
def findEntry (cfg : Config) (good : Nat → Bool) (img : Image) (id : Nat)
    (sectorIds : Nat → Nat) : Option (Option (List UInt8) × (Nat → Nat)) :=
  (findLoop cfg good img id cfg.numSectors 0 ⟨false, ⟨0, []⟩, sectorIds⟩).bind fun l =>
    (assemble l.collected.segments).map fun value => (value, l.sectorIds)

def findEntries (cfg : Config) (good : Nat → Bool) (img : Image) :
    List Nat → (Nat → Nat) → Option (Nat → Nat)
  | [], sectorIds => some sectorIds
  | id :: ids, sectorIds =>
    (findEntry cfg good img id sectorIds).bind fun r => findEntries cfg good img ids r.2

end LibWrt.Tffs
