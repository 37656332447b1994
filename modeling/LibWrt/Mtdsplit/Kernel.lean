/-
LibWrt.Mtdsplit.Kernel — the parsers that split a device into a kernel and a
root file system.

The size of an image that does not fit stays when the loop over the blocks goes
on, and is only cleared by the next turn. So a header in the last block, with
too large an image, passes for one that was found behind the end of the device.
The offsets of a TRX header are taken as they are.
-/
import LibWrt.Mtdsplit.Master

namespace LibWrt.Mtdsplit

open LibWrt.Bytes

/-! ## uImage -/

/-- The properties of the node; they count if it is compatible with `openwrt,uimage`. -/
structure UimageNode where
  openwrt : Bool
  padding : Option (BitVec 32)
  ihMagic : Option (BitVec 32)
  ihType : Option (BitVec 32)
  offset : Option (BitVec 32)
  partitionMagic : Option (BitVec 32)

structure Uimage where
  extralen : BitVec 32
  ihMagic : BitVec 32
  ihType : BitVec 32
  headerOffset : BitVec 32
  partMagic : BitVec 32

def uimageDefault : Uimage where
  extralen := 0
  ihMagic := 0x27051956
  ihType := 2
  headerOffset := 0
  partMagic := 0

def uimageParseDt (np : Option UimageNode) : Uimage :=
  match np with
  | none => uimageDefault
  | some np =>
    if np.openwrt then
      { extralen := np.padding.getD uimageDefault.extralen
        ihMagic := np.ihMagic.getD uimageDefault.ihMagic
        ihType := np.ihType.getD uimageDefault.ihType
        headerOffset := np.offset.getD uimageDefault.headerOffset
        partMagic := np.partitionMagic.getD uimageDefault.partMagic }
    else uimageDefault

/-- `sizeof(struct uimage_header)` -/
def uimageHeaderLen : Nat := 64

def uimageVerifyDefault (buf : List UInt8) (ihMagic ihType : BitVec 32) : Bool :=
  ofWord32 true buf 0 = ihMagic ∧ buf[28]? = some 5 ∧
    buf[30]?.map (fun type => BitVec.ofNat 32 type.toNat) = some ihType

/-- What the header says, without overflow; the padding is signed. -/
def uimageDeclared (u : Uimage) (header : List UInt8) : Int :=
  uimageHeaderLen + (ofWord32 true header 12).toNat + u.headerOffset.toNat + u.extralen.toInt

def uimageAccept (m : Master) (u : Uimage) (offset : Nat) : Option Image :=
  match m.readHeader offset (m.wrap (uimageHeaderLen + u.headerOffset.toNat)) with
  | .error _ => none
  | .ok buf =>
    if u.headerOffset ≠ 0 ∧ u.partMagic ≠ 0 ∧ ofWord32 true buf 0 ≠ u.partMagic then none
    else
      let header := buf.drop u.headerOffset.toNat
      if uimageVerifyDefault header u.ihMagic u.ihType then
        some { size := (uimageDeclared u header % (2 ^ m.bits : Nat)).toNat, header := header }
      else none

/-- The partitions of an image at the offset; `before` is what is returned if there is no root
file system in front of it. -/
def kernelAndRootfs (m : Master) (before : Int → Int) (offset size : Nat) : Result :=
  let rootfsName (type : PartType) := if type = .ubi then "ubi" else "rootfs"
  if offset = 0 then
    match m.mtdFindRootfsFrom (m.wrap (offset + size)) (m.wrap m.size) with
    | none => .stuck
    | some (.error ret) => .ret ret
    | some (.ok (rootfsOffset, type)) =>
      let rootfsSize := m.wrap (m.size - rootfsOffset)
      if rootfsSize = 0 then .ret (-ENOENT)
      else
        .parts [{ name := "kernel", offset := offset, size := m.wrap (rootfsOffset - offset) },
          { name := rootfsName type, offset := rootfsOffset, size := rootfsSize }]
  else
    match m.mtdCheckRootfsMagic 0 with
    | .error ret => .ret (before ret)
    | .ok type =>
      .parts [{ name := rootfsName type, offset := 0, size := offset },
        { name := "kernel", offset := offset, size := size }]

/-- A parser that looks for an image and returns `missing` if there is none. -/
def parseImage (m : Master) (accept : Nat → Option Image) (missing : Int) (before : Int → Int) :
    Result :=
  match m.findImage accept (m.size + 1) 0 { size := 0, header := [] } with
  | none => .stuck
  | some (offset, image) =>
    if image.size = 0 then .ret missing else kernelAndRootfs m before offset image.size

def mtdsplitParseUimage (m : Master) (np : Option UimageNode) : Result :=
  parseImage m (uimageAccept m (uimageParseDt np)) 0 fun _ => -ENOENT

/-! ## jImage -/

/-- `MAX_HEADER_LEN`, and the size of the header. -/
def jimageHeaderLen : Nat := 56

/-- The offset of the header in the buffer, if it is valid. -/
def jimageVerifyDefault (bigEndian : Bool) (buf : List UInt8) : Option Nat :=
  if ofHalf bigEndian (buf.drop 2) = 0x2B24 ∧ ofHalf bigEndian (buf.drop 16) = 0x2124 ∧
      buf[0]? = buf[1]? ∧ buf[1]? = some 0x04 ∧ buf[19]? = some 0x02 then some 0
  else none

def jimageDeclared (m : Master) (ret : Nat) (header : List UInt8) : Nat :=
  jimageHeaderLen + (ofWord32 m.bigEndian header 24).toNat + ret

def jimageAccept (m : Master) (findHeader : List UInt8 → Option Nat) (offset : Nat) :
    Option Image :=
  match m.readHeader offset jimageHeaderLen with
  | .error _ => none
  | .ok buf => (findHeader buf).map fun ret =>
      { size := m.wrap (jimageDeclared m ret (buf.drop ret)), header := buf.drop ret }

def mtdsplitParseJimage (m : Master) : Result :=
  parseImage m (jimageAccept m (jimageVerifyDefault m.bigEndian)) (-ENOENT) fun ret => ret

/-! ## TRX -/

/-- `sizeof(struct trx_header)` -/
def trxHeaderLen : Nat := 32

def trxDeclared (header : List UInt8) : Nat := (ofWord32 false header 4).toNat

def trxAccept (m : Master) (offset : Nat) : Option Image :=
  match m.readHeader offset trxHeaderLen with
  | .error _ => none
  | .ok header =>
    if ofWord32 false header 0 = 0x30524448 then
      some { size := m.wrap (trxDeclared header), header := header }
    else none

def trxOffset (m : Master) (header : List UInt8) (i : Nat) : Nat :=
  (ofWord32 m.bigEndian header (16 + 4 * i)).toNat

def mtdsplitParseTrx (m : Master) : Result :=
  match m.findImage (trxAccept m) (m.size + 1) 0 { size := 0, header := [] } with
  | none => .stuck
  | some (offset, image) =>
    if image.size = 0 then .ret (-ENOENT)
    else
      let kernelOffset := m.wrap (offset + trxOffset m image.header 0)
      let rootfsOffset := m.wrap (offset + trxOffset m image.header 1)
      -- Differences of a `size_t` wrap around.
      let rootfsSize := m.wrap (m.size + 2 ^ 64 - rootfsOffset)
      if rootfsSize = 0 then .ret (-ENOENT)
      else
        .parts [{ name := "kernel", offset := kernelOffset
                  size := m.wrap (rootfsOffset + 2 ^ m.bits - kernelOffset) },
          { name := "rootfs", offset := rootfsOffset, size := rootfsSize }]

end LibWrt.Mtdsplit
