/-
LibWrt.Mtdsplit.Wfi — the parsers for whole flash images.

A device has two halves with an image each. In an image the boot loader and
the kernel are files of a JFFS2 file system, of which only the directory
entries are looked at, and the root file system is on UBI. The half with the
larger boot flag is active.
-/
import LibWrt.Lib.Crc32
import LibWrt.Lib.Loop
import LibWrt.Mtdsplit.Master

namespace LibWrt.Mtdsplit

open LibWrt.Bytes
open LibWrt.Crc32 (crc32Le)
open LibWrt.Loop

/-- A device, and what its node says. `behind` is what follows the buffer for a block, and
`behindName` what follows a name, where the code reads too far. -/
structure Wfi where
  master : Master
  brcmCferam : Option (List UInt8)
  behind : List UInt8
  behindName : List UInt8

def CFERAM_NAME : List UInt8 := [0x63, 0x66, 0x65, 0x72, 0x61, 0x6d]
def KERNEL_NAME : List UInt8 := [0x76, 0x6d, 0x6c, 0x69, 0x6e, 0x75, 0x78, 0x2e, 0x6c, 0x7a]
def OPENWRT_NAME : List UInt8 := [0x31, 0x2d, 0x6f, 0x70, 0x65, 0x6e, 0x77, 0x72, 0x74]
def CFE_MAGIC_PFX : List UInt8 := CFERAM_NAME ++ [0x2e]
def SERCOMM_MAGIC_PFX : List UInt8 := [0x65, 0x52, 0x63, 0x4f, 0x6d, 0x4d, 0x2e]

def magicLen : Nat := 10

/-! ## Directory entries

A node is given by the memory from its first byte on. -/

def jffs2DirentCrc (node : List UInt8) : BitVec 32 := crc32Le 0 (node.take 32)

def jffs2DirentValid (bigEndian : Bool) (node : List UInt8) : Bool :=
  ofHalf bigEndian node = 0x1985 ∧ ofHalf bigEndian (node.drop 2) = 0xe001 ∧
    ofWord32 bigEndian node 20 ≠ 0 ∧ ofWord32 bigEndian node 32 = jffs2DirentCrc node

def nodeName (node : List UInt8) : List UInt8 := node.drop 40

def nodeNsize (node : List UInt8) : Nat := (node[28]?.getD 0).toNat

/-- `!memcmp(node->name, name, name_len)` -/
def named (name node : List UInt8) : Bool := (nodeName node).take name.length = name

/-- The name is that of the file, and not `1-openwrt`, which is looked for first. -/
def isFile (name node : List UInt8) : Bool := !named OPENWRT_NAME node && named name node

def nextNode (bigEndian : Bool) (pos : Nat) (node : List UInt8) : Nat :=
  ((pos + (ofWord32 bigEndian node 4).toNat) % 2 ^ 32 + 3) % 2 ^ 32 / 4 * 4

/-- Where a search for a file is: a block, and a position in the buffer if it was read. -/
structure Cursor where
  offs : Nat
  inside : Option (List UInt8 × Nat)
  valid : Bool

inductive Find where
  | found (offs : Nat) (node : List UInt8)
  | ret (err : Int)

namespace Wfi

variable (w : Wfi)

def jffs2Magic (offs : Nat) : Bool :=
  match w.master.readHeader offs 2 with
  | .error _ => false
  | .ok magic => ofHalf w.master.bigEndian magic = 0x1985

/-- A turn of the loop over the blocks, or of the one over the nodes of a block. -/
def findTurn (name : List UInt8) (stop : Int) (c : Cursor) : Cursor ⊕ Find :=
  match c.inside with
  | none =>
    if (c.offs : Int) < stop then
      if w.jffs2Magic c.offs then
        match w.master.mtdRead c.offs w.master.erasesize with
        | .error rc => .inr (.ret rc)
        | .ok buf =>
          if buf.length ≠ w.master.erasesize then .inr (.ret (-EINVAL))
          else .inl { c with inside := some (buf, 0) }
      else .inl { c with offs := c.offs + w.master.erasesize }
    else .inr (.ret (-ENOENT))
  | some (buf, pos) =>
    if pos < w.master.erasesize then
      let node := (buf ++ w.behind).drop pos
      if jffs2DirentValid w.master.bigEndian node then
        if named OPENWRT_NAME node then
          .inl { c with
            inside := some (buf, nextNode w.master.bigEndian pos node)
            valid := true }
        else if named name node then
          if c.valid then .inr (.found c.offs node) else .inr (.ret (-EINVAL))
        else .inl { c with inside := some (buf, nextNode w.master.bigEndian pos node) }
      else .inl { c with inside := some (buf, pos + 4) }
    else .inl { c with offs := c.offs + w.master.erasesize, inside := none }

/-- At most `n` turns of the loops. -/
def jffs2FindFile (n : Nat) (offs : Nat) (size : Int) (name : List UInt8) : Option Find :=
  run (w.findTurn name (offs + size)) n { offs := offs, inside := none, valid := false }

def ubiMagic (offs : Nat) : Option Unit :=
  match w.master.readHeader offs 4 with
  | .error _ => none
  | .ok magic => if ofWord32 true magic 0 = 0x55424923 then some () else none

def ubifsFind (n : Nat) (offs : Nat) (size : Int) : Option (Option Nat) :=
  (run (seekTurn w.master.erasesize (offs + size) w.ubiMagic) n offs).map fun found =>
    found.map Prod.fst

def cferamName : List UInt8 :=
  let name := w.brcmCferam.getD CFERAM_NAME
  name.take (min name.length 32 - 1)

/-- From the kernel on; `cfe` is where the boot loader was found. -/
def parseKernel (n off size : Nat) (cfe : Option Nat) (start : Nat) :
    Option (Except Int (List Part)) :=
  (w.jffs2FindFile n start (size - (start - off : Int)) KERNEL_NAME).bind fun find =>
    match find with
    | .ret err => some (.error err)
    | .found kernelOff _ =>
      let rootfsOff := kernelOff + w.master.erasesize
      (w.ubifsFind n rootfsOff (size - (rootfsOff - off : Int))).map fun found =>
        match found with
        | none => .error (-ENOENT)
        | some rootfsOff => .ok <|
            (match cfe with
              | none => []
              | some cfeOff =>
                [{ name := "cferam", offset := cfeOff, size := kernelOff - cfeOff }]) ++
            [{ name := "firmware", offset := kernelOff, size := size - (kernelOff - off) },
              { name := "kernel", offset := kernelOff, size := rootfsOff - kernelOff },
              { name := "ubi", offset := rootfsOff, size := size - (rootfsOff - off) }]

def parseBcmWfi (n off size : Nat) (cfePart : Bool) : Option (Except Int (List Part)) :=
  if cfePart then
    (w.jffs2FindFile n off size w.cferamName).bind fun find =>
      match find with
      | .ret err => some (.error err)
      | .found cfeOff _ => w.parseKernel n off size (some cfeOff) (cfeOff + w.master.erasesize)
  else w.parseKernel n off size none off

end Wfi

/-! ## Two images -/

def charToNum (c : UInt8) : Int := if 48 ≤ c ∧ c ≤ 57 then c.toNat - 48 else 0

def magicNum (mem : List UInt8) : Int :=
  charToNum (mem[7]?.getD 0) * 100 + charToNum (mem[8]?.getD 0) * 10 +
    charToNum (mem[9]?.getD 0)

/-- `name` is the memory that it is in. -/
def cferamBootflagValue (name : Option (List UInt8)) (nameLen : Nat) : Int :=
  match name with
  | none => -ENOENT
  | some name =>
    if magicLen ≤ nameLen ∧ name.take CFE_MAGIC_PFX.length = CFE_MAGIC_PFX then magicNum name
    else -ENOENT

structure Handed where
  ret : Int
  parts : Option (List Part)
  deriving DecidableEq

namespace Wfi

variable (w : Wfi)

def img1 : Part := { name := "img1", offset := 0, size := w.master.size / 2 }

def img2 : Part where
  name := "img2"
  offset := w.master.size / 2
  size := w.master.size - w.master.size / 2

/-- `kstrndup` of the name of a node. -/
def kstrndupName (node : List UInt8) : List UInt8 :=
  ((nodeName node).take (nodeNsize node)).takeWhile (· ≠ 0) ++ 0 :: w.behindName

def bootflag : Find → Int
  | .ret _ => cferamBootflagValue none 0
  | .found _ node => cferamBootflagValue (some (w.kstrndupName node)) (nodeNsize node)

def active (bf1 bf2 : Int) : Part := if bf2 ≤ bf1 then w.img1 else w.img2

def inactive (bf1 bf2 : Int) : Part := if bf2 ≤ bf1 then w.img2 else w.img1

/-- What both parsers do with the boot flags. An error is not positive, so that the array with
both images is handed out. -/
def handOut (n : Nat) (bf1 bf2 : Int) (cfePart : Bool) : Option Handed :=
  (w.parseBcmWfi n (w.active bf1 bf2).offset (w.active bf1 bf2).size cfePart).map fun ret =>
    match ret with
    | .ok ps => { ret := ps.length + 1, parts := some (ps ++ [w.inactive bf1 bf2]) }
    | .error ret => { ret := ret, parts := some [w.img1, w.img2] }

def mtdsplitParseBcmWfiSplit (n : Nat) : Option Handed :=
  (w.jffs2FindFile n w.img1.offset w.img1.size CFERAM_NAME).bind fun find1 =>
    (w.jffs2FindFile n w.img2.offset w.img2.size CFERAM_NAME).bind fun find2 =>
      w.handOut n (w.bootflag find1) (w.bootflag find2) true

end Wfi

def sercommMagic (mtd : Master) (offs : Nat) : Option Int :=
  match mtd.readHeader offs magicLen with
  | .error _ => none
  | .ok buf =>
    if buf.take SERCOMM_MAGIC_PFX.length = SERCOMM_MAGIC_PFX then some (magicNum buf) else none

def foundValue : Option (Nat × Int) → Int
  | none => -ENOENT
  | some (_, value) => value

def sercommBootflagValue (mtd : Master) (n : Nat) : Option Int :=
  (run (seekTurn mtd.erasesize mtd.size (sercommMagic mtd)) n 0).map foundValue

/-- With the two devices for the boot flags, if they are there. The flag is whether the second
is erased. -/
def Wfi.mtdsplitParseSerWfi (w : Wfi) (n : Nat) (mtdBf1 mtdBf2 : Option Master) :
    Option (Handed × Bool) :=
  match mtdBf1, mtdBf2 with
  | none, _ => some ({ ret := -ENOENT, parts := none }, false)
  | some _, none => some ({ ret := -ENOENT, parts := none }, false)
  | some mtdBf1, some mtdBf2 =>
    (sercommBootflagValue mtdBf1 n).bind fun bf1 =>
      (sercommBootflagValue mtdBf2 n).bind fun bf2 =>
        let equal : Bool := bf1 = bf2 ∧ 0 ≤ bf2
        let bf2 := if equal then -ENOENT else bf2
        (w.handOut n bf1 bf2 false).map fun handed => (handed, equal)

end LibWrt.Mtdsplit
