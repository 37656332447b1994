/-
LibWrt.En75.Chip — the chip as the EN75xx block manager uses it.

A page has data and the first four spare bytes (`fdm`). Programming clears
bits of both and erasing sets them. The manager never reads back what it
wrote, so the outcome of an operation that succeeds is part of the chip. What
a failed one leaves comes from the environment, by the number of operations
before it: a failed program operation cleared some of the bits it was to
clear, and a failed erase can have left anything.
-/
import LibWrt.Lib.Bytes
import LibWrt.Lib.Flash

namespace LibWrt.En75

open List
open LibWrt.Bytes LibWrt.Flash

abbrev Bytes := List UInt8

structure Geometry where
  totalBlks : Nat
  pgSize : Nat
  pagesPerBlock : Nat
  blkShift : Nat
  /-- the byte order of the host, which the tables are stored in -/
  bigEndian : Bool
  totalBlks_pos : 0 < totalBlks
  totalBlks_lt : totalBlks < 2 ^ 16
  pgSize_ge : 2048 ≤ pgSize
  pagesPerBlock_pos : 0 < pagesPerBlock
  blkSize_eq : pgSize * pagesPerBlock = 2 ^ blkShift

/-! ## Pages -/

/-- `fdm` -/
structure Fdm where
  b0 : UInt8 := 0xff
  b1 : UInt8 := 0xff
  b2 : UInt8 := 0xff
  b3 : UInt8 := 0xff
  deriving DecidableEq

def Fdm.and (a b : Fdm) : Fdm where
  b0 := a.b0 &&& b.b0
  b1 := a.b1 &&& b.b1
  b2 := a.b2 &&& b.b2
  b3 := a.b3 &&& b.b3

def Fdm.or (a b : Fdm) : Fdm where
  b0 := a.b0 ||| b.b0
  b1 := a.b1 ||| b.b1
  b2 := a.b2 ||| b.b2
  b3 := a.b3 ||| b.b3

/-- A page: the data at its start, behind which it is erased, and whether it can be read. -/
structure Page where
  readable : Bool
  data : Bytes
  fdm : Fdm
  deriving DecidableEq

def blankPage : Page where
  readable := true
  data := []
  fdm := {}

/-- `data` in a buffer of a page. -/
def pad (g : Geometry) (data : Bytes) : Bytes :=
  (data ++ replicate (g.pgSize - data.length) 0xff).take g.pgSize

def Page.bytes (g : Geometry) (p : Page) : Bytes := pad g p.data

/-- What is programmed to a page: data at its start, and spare bytes. -/
structure Write where
  data : Bytes := []
  fdm : Fdm := {}
  deriving DecidableEq

/-- A page after a program operation. It can be read if it has the data that was written. -/
def Page.program (g : Geometry) (p : Page) (w : Write) : Page :=
  let data := zipWith (· &&& ·) (p.bytes g) (pad g w.data)
  { readable := if w.data.isEmpty then p.readable else data == pad g w.data
    data := data
    fdm := p.fdm.and w.fdm }

/-- What a failed program operation did: bits that it did not clear, and whether the page can
    still be read. -/
structure Left where
  readable : Bool
  data : Bytes
  fdm : Fdm

def Page.programFailed (g : Geometry) (p : Page) (w : Write) (left : Left) : Page where
  readable := left.readable
  data := zipWith (· &&& ·) (p.bytes g)
    (zipWith (· ||| ·) (pad g w.data) (pad g left.data))
  fdm := p.fdm.and (w.fdm.or left.fdm)

/-! ## Operations -/

/-- The operations that fail, with what they leave. -/
structure Env where
  erase : Nat → Nat → Option (Nat → Page)
  program : Nat → Nat → Nat → Option Left

variable (g : Geometry) (env : Env)

/-- `_erase` -/
def erase (ba : Nat) (d : Device Page) : Bool × Device Page :=
  match env.erase d.log.length ba with
  | none => (true, d.run (.erase ba fun _ => blankPage))
  | some left => (false, d.run (.erase ba left))

/-- `_write_oob` on a page -/
def writeOob (ba pg : Nat) (w : Write) (d : Device Page) : Bool × Device Page :=
  let page := d.chip.page ba pg
  match env.program d.log.length ba pg with
  | none => (true, d.run (.program ba pg (page.program g w)))
  | some left => (false, d.run (.program ba pg (page.programFailed g w left)))

/-- `bbt_nand_erase`, with so many tries left -/
def bbtNandErase (ba : Nat) : Nat → Device Page → Bool × Device Page
  | 0, d => (false, d)
  | tries + 1, d =>
    match erase env ba d with
    | (true, d) => (true, d)
    | (false, d) => bbtNandErase ba tries d

/-- The tries of `w_write` for the first page of a block -/
def writeFirst (ba : Nat) (w : Write) : Nat → Device Page → Bool × Device Page
  | 0, d => (false, d)
  | tries + 1, d =>
    match writeOob g env ba 0 w d with
    | (true, d) => (true, d)
    | (false, d) => writeFirst ba w tries d

/-- The loop of `bbt_nand_copy` over the `n` pages from `pg` on; the spare bytes are not
    copied. -/
def bbtNandCopyFrom (dest src : Nat) : Nat → Nat → Device Page → Bool × Device Page
  | 0, _, d => (true, d)
  | n + 1, pg, d =>
    if !(d.chip.page src pg).readable then (false, d)
    else
      match writeOob g env dest pg { data := (d.chip.page src pg).bytes g } d with
      | (false, d) => (false, d)
      | (true, d) => bbtNandCopyFrom dest src n (pg + 1) d

/-- `bbt_nand_copy`: the pages that start below `copyLen` -/
def bbtNandCopy (dest src copyLen : Nat) (d : Device Page) : Bool × Device Page :=
  bbtNandCopyFrom g env dest src (min g.pagesPerBlock ((copyLen + g.pgSize - 1) / g.pgSize)) 0 d

end LibWrt.En75
