/-
LibWrt.Bcm4908img.Bootfs — listing and renaming the files of a bootfs.

The nodes of the JFFS2 file system are gone through from the start of the
bootfs on, until one has another magic. A file is renamed in its directory
entry; then the checksum of the image is computed anew and the tail is written
again, over the last bytes of the file.
-/
import LibWrt.Bcm4908img.Parse

namespace LibWrt.Bcm4908img

open LibWrt.Bytes
open LibWrt.Crc32 (crc32Le)
open LibWrt.Loop

/-- A string of C, without its end. -/
structure Name where
  bytes : List UInt8
  nonzero : ∀ b ∈ bytes, b ≠ 0
  deriving DecidableEq

theorem ne_zero_of_mem_takeWhile (buf : List UInt8) : ∀ b ∈ buf.takeWhile (· ≠ 0), b ≠ 0 := by
  intro b hb
  have hall := List.all_eq_true.mp List.all_takeWhile b hb
  exact of_decide_eq_true hall

def nameOf (buf : List UInt8) : Name where
  bytes := buf.takeWhile (· ≠ 0)
  nonzero := ne_zero_of_mem_takeWhile buf

/-- What is read at an offset. -/
inductive Look where
  | short
  /-- No node. -/
  | stop
  /-- A node that is no directory entry, and how far the next one is. -/
  | other (step : Nat)
  | entry (step : Nat) (name : List UInt8)
  deriving DecidableEq

/-- How far the next node is, in 32 bits. -/
def nodeStep (totlen : BitVec 32) : Nat := (totlen.toNat + 3) % 2 ^ 32 / 4 * 4

/-- Fields are in the byte order of the machine. -/
def lookNode (bigEndian : Bool) (file : List UInt8) (offset : Nat) : Look :=
  let node := fread file offset 12
  if node.length ≠ 12 then .short
  else if ofHalf bigEndian node ≠ 0x1985 then .stop
  else
    let step := nodeStep (ofWord32 bigEndian node 4)
    if ofHalf bigEndian (node.drop 2) ≠ 0xe001 then .other step
    else
      let dirent := fread file (offset + 12) 28
      if dirent.length ≠ 28 then .short
      else
        let nsize := (dirent[16]?.getD 0).toNat
        let name := fread file (offset + 40) nsize
        if name.length ≠ nsize then .short else .entry step name

/-! ## Listing -/

structure LsCursor where
  offset : Nat
  printed : List Name

structure Listing where
  printed : List Name
  err : Int
  deriving DecidableEq

def lsTurn (bigEndian : Bool) (file : List UInt8) (c : LsCursor) : LsCursor ⊕ Listing :=
  match lookNode bigEndian file c.offset with
  | .short => .inr { printed := c.printed, err := - EIO }
  | .stop => .inr { printed := c.printed, err := 0 }
  | .other step => .inl { c with offset := c.offset + step }
  | .entry step name =>
    .inl { offset := c.offset + step, printed := c.printed ++ [nameOf name] }

def bcm4908imgBootfsLs (bigEndian : Bool) (file : List UInt8) (info : Info) (n : Nat) :
    Option Listing :=
  run (lsTurn bigEndian file) n { offset := info.bootfsOffset, printed := [] }

/-! ## Renaming -/

inductive Search where
  | ret (err : Int)
  | found (offset nsize : Nat)

def mvTurn (bigEndian : Bool) (file : List UInt8) (oldname : Name) (offset : Nat) :
    Nat ⊕ Search :=
  match lookNode bigEndian file offset with
  | .short => .inr (.ret (- EIO))
  | .stop => .inr (.ret (-ENOENT))
  | .other step => .inl (offset + step)
  | .entry step name =>
    if nameOf name = oldname then .inr (.found offset name.length) else .inl (offset + step)

structure Mv where
  ret : Int
  file : List UInt8

/-- The first bytes in memory from a name on; `behind` is what follows it there. -/
def nameMem (name : Name) (behind : List UInt8) (nsize : Nat) : List UInt8 :=
  (name.bytes ++ 0 :: (behind ++ List.replicate nsize 0)).take nsize

def writeEntry (bigEndian : Bool) (file : List UInt8) (offset : Nat) (name : List UInt8) :
    List UInt8 :=
  overwrite (overwrite file (offset + 36) (word32 bigEndian (crc32Le 0 name))) (offset + 40) name

/-- The tail, with the checksum of the file, at the end of the file. -/
def writeTail (file : List UInt8) (info : Info) : List UInt8 :=
  overwrite file (file.length - tailLen)
    (le32 (rangeCrc file info.cferomOffset info.tailOffset) ++ info.tail.drop 4)

/-- What is made of the search. -/
def mvFrom (bigEndian : Bool) (file : List UInt8) (info : Info) (newname : Name)
    (behind : List UInt8) : Search → Mv
  | .ret err => { ret := err, file := file }
  | .found offset nsize =>
    { ret := 0
      file := writeTail (writeEntry bigEndian file offset (nameMem newname behind nsize)) info }

def bcm4908imgBootfsMv (bigEndian : Bool) (file : List UInt8) (info : Info)
    (oldname newname : Name) (behind : List UInt8) (n : Nat) : Option Mv :=
  if newname.bytes.length ≠ oldname.bytes.length then some { ret := -EINVAL, file := file }
  else
    (run (mvTurn bigEndian file oldname) n info.bootfsOffset).map
      (mvFrom bigEndian file info newname behind)

end LibWrt.Bcm4908img
