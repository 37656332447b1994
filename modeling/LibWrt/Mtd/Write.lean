/-
LibWrt.Mtd.Write — `mtd_write`, without the jffs2 insertion.

The image is read in pieces, each of which a failing read ends; the bytes before
it are written, and the reading goes on behind it. It is written in chunks of an
erase block. What was written (`w`), what
was erased (`e`) and the bad blocks that were skipped are counted apart, and the
position of the file is the kernel's. When a block cannot be erased the writing
goes on with the next device of the list, with what the buffer holds. The buffer
is as long as an erase block of the first device; bytes of it that were not
stored yet have no value.
-/
import LibWrt.Mtd.Device

namespace LibWrt.Mtd

structure Options where
  noErase : Bool
  partOffset : Nat

/-- The program exits, or it does what has no meaning. -/
inductive Stop where
  | exit
  /-- More is stored in the buffer than was allocated. -/
  | overflow
  /-- Bytes are read that were not stored in the buffer. -/
  | unset
  /-- The turns of a loop are used up. -/
  | stuck
  deriving DecidableEq

/-! ## The buffer -/

abbrev Buffer := List (Option UInt8)

/-- The bytes are stored at `pos`, if there is room. -/
def Buffer.store (buf : Buffer) (pos : Nat) (bytes : List UInt8) : Option Buffer :=
  if pos + bytes.length ≤ buf.length then
    some (buf.take pos ++ bytes.map some ++ buf.drop (pos + bytes.length))
  else none

def allSet : Buffer → Option (List UInt8)
  | [] => some []
  | none :: _ => none
  | some byte :: buf => (allSet buf).map (byte :: ·)

def Buffer.load (buf : Buffer) (pos len : Nat) : Option (List UInt8) :=
  if pos + len ≤ buf.length then allSet ((buf.drop pos).take len) else none

/-! ## The state -/

structure Writer where
  chip : Chip
  pos : Nat
  /-- The devices after this one. -/
  next : List Chip
  /-- The devices that were closed, the last one first. -/
  closed : List Chip
  /-- What is not read yet, up to a read that fails or to the end. -/
  image : List UInt8
  /-- What is read after the reads that fail. -/
  later : List (List UInt8)
  buf : Buffer
  buflen : Nat
  offset : Nat
  w : Nat
  e : Nat
  skipBadBlocks : Nat

section Write

variable (opt : Options) (s : Writer)

def Writer.erasesize : Nat := s.chip.geo.erasesize

/-- The loop of reads: it ends with a chunk in the buffer, at the end of the image, or with a
read that fails. -/
def readChunk : Except Stop Writer :=
  let n := s.erasesize - s.buflen
  match s.buf.store s.buflen (s.image.take n) with
  | none => .error .overflow
  | some buf =>
    let s := { s with buf := buf, buflen := s.buflen + min n s.image.length }
    if n ≤ s.image.length then .ok { s with image := s.image.drop n }
    else .ok { s with image := s.later.headD [], later := s.later.tail }

/-- `Pad block to eraseblock size` -/
def padChunk : Except Stop Writer :=
  if s.buflen < s.erasesize then
    match s.buf.store s.buflen (List.replicate (s.erasesize - s.buflen) 0xff) with
    | none => .error .overflow
    | some buf => .ok { s with buf := buf, buflen := s.erasesize }
  else .ok s

def writeErased : Except Stop Writer :=
  if s.w < s.e then
    match s.buf.load s.offset (s.e - s.w) with
    | none => .error .unset
    | some bytes =>
      let chip := (s.chip.write s.pos bytes).elim s.chip (·.2)
      .ok { s with chip := chip, offset := s.e - s.w }
  else .ok s

def openNext (chip : Chip) (next : List Chip) : Writer :=
  { s with chip := chip, pos := chip.geo.seekSet opt.partOffset, next := next
           closed := s.chip :: s.closed, w := 0, e := 0 }

/-- A turn of the loop that erases; it returns whether another device is used. -/
def eraseTurn : Except Stop (Bool × Writer) :=
  match s.chip.mtdBlockIsBad s.e with
  | none => .error .exit
  | some true =>
    -- Move the file pointer along over the bad block.
    .ok (false, { s with
      skipBadBlocks := s.skipBadBlocks + s.erasesize, e := s.e + s.erasesize
      pos := s.chip.geo.seekCur s.pos s.erasesize })
  | some false =>
    match s.chip.erase (s.e + opt.partOffset) with
    | some chip => .ok (false, { s with chip := chip, e := s.e + s.erasesize })
    | none =>
      match s.next with
      | [] => .error .exit
      | chip :: next => (writeErased s).map fun s => (true, openNext opt s chip next)

end Write

def eraseLoop (opt : Options) : Nat → Writer → Except Stop (Bool × Writer)
  | 0, _ => .error .stuck
  | n + 1, s =>
    if s.w + s.buflen + s.skipBadBlocks ≤ s.e then .ok (false, s)
    else
      match eraseTurn opt s with
      | .error stop => .error stop
      | .ok (true, s) => .ok (true, s)
      | .ok (false, s) => eraseLoop opt n s

def eraseChunk (opt : Options) (s : Writer) : Except Stop (Bool × Writer) :=
  if opt.noErase then .ok (false, s) else eraseLoop opt (s.chip.geo.blocks + 2) s

def writeChunk (s : Writer) : Except Stop Writer :=
  match s.buf.load s.offset s.buflen with
  | none => .error .unset
  | some bytes =>
    match s.chip.write s.pos bytes with
    | none => .error .exit
    | some (len, chip) =>
      -- Insufficient space.
      if len < s.buflen then .error .exit
      else .ok { s with chip := chip, pos := s.pos + len, w := s.w + s.buflen, buflen := 0
                        offset := 0 }

def writeTurn (opt : Options) (s : Writer) : Except Stop (Bool × Writer) :=
  match readChunk s with
  | .error stop => .error stop
  | .ok s =>
    if s.buflen = 0 then .ok (true, s)
    else
      match padChunk s with
      | .error stop => .error stop
      | .ok s =>
        match eraseChunk opt s with
        | .error stop => .error stop
        | .ok (true, s) => .ok (false, s)
        | .ok (false, s) => (writeChunk s).map fun s => (false, s)

def writeLoop (opt : Options) : Nat → Writer → Except Stop Writer
  | 0, _ => .error .stuck
  | n + 1, s =>
    match writeTurn opt s with
    | .error stop => .error stop
    | .ok (true, s) => .ok s
    | .ok (false, s) => writeLoop opt n s

def Writer.start (opt : Options) (chip : Chip) (next : List Chip) (begun image : List UInt8)
    (later : List (List UInt8)) : Writer :=
  { chip := chip, pos := chip.geo.seekSet opt.partOffset, next := next, closed := []
    image := image, later := later
    buf := begun.map some ++ List.replicate (chip.geo.erasesize - begun.length) none
    buflen := begun.length, offset := 0, w := 0, e := 0, skipBadBlocks := 0 }

/-- Each turn takes bytes of the image, or goes on to another device. -/
def mtdWrite (opt : Options) (chip : Chip) (next : List Chip) (begun image : List UInt8)
    (later : List (List UInt8)) : Except Stop Writer :=
  writeLoop opt (begun.length + image.length + later.flatten.length + next.length + 2)
    (.start opt chip next begun image later)

end LibWrt.Mtd
