/-
LibWrt.Mtdsplit.Master — the device that is split, and the search for a root
file system.

A parser looks at the erase blocks one after the other until one begins with a
header that it accepts. Offsets are of the type `size_t`, sizes of a device and
of partitions have 64 bits.
-/
import LibWrt.Lib.Bytes

namespace LibWrt.Mtdsplit

open Nat
open LibWrt.Bytes

/-- `bits` are those of a `size_t`. A read gives an error, or the bytes that were read, which may
be fewer than asked for. -/
structure Master where
  size : Nat
  erasesize : Nat
  bits : Nat
  bigEndian : Bool
  mtdRead : Nat → Nat → Except Int (List UInt8)
  erasesize_pos : 0 < erasesize
  bits_ge : 32 ≤ bits
  bits_le : bits ≤ 64
  size_lt : size < 2 ^ 64
  mtdRead_neg : ∀ offset len ret, mtdRead offset len = .error ret → ret < 0

def EIO : Int := 5
def ENOENT : Int := 2
def EINVAL : Int := 22

inductive PartType where
  | squashfs
  | jffs2
  | ubi
  deriving DecidableEq

structure Part where
  name : String
  offset : Nat
  size : Nat
  deriving DecidableEq

structure Image where
  size : Nat
  header : List UInt8

inductive Result where
  | parts (ps : List Part)
  | ret (err : Int)
  /-- The turns of a loop are used up. -/
  | stuck
  deriving DecidableEq

namespace Master

variable (m : Master)

/-- The value in a `size_t`. -/
def wrap (n : Nat) : Nat := n % 2 ^ m.bits

/-- `mtd_rounddown_to_eb`; blocks are counted, and multiplied, in 32 bits. -/
def roundDownToEb (sz : Nat) : Nat :=
  if sz % m.erasesize = 0 then sz
  else sz / m.erasesize % 2 ^ 32 * m.erasesize % 2 ^ 32

def mtdNextEb (offset : Nat) : Nat := m.wrap (m.roundDownToEb offset + m.erasesize)

def readHeader (offset headerLen : Nat) : Except Int (List UInt8) :=
  match m.mtdRead offset headerLen with
  | .error ret => .error ret
  | .ok buf => if buf.length ≠ headerLen then .error (- EIO) else .ok buf

def mtdCheckRootfsMagic (offset : Nat) : Except Int PartType :=
  match m.readHeader offset 4 with
  | .error ret => .error ret
  | .ok magic =>
    if ofWord32 false magic 0 = 0x73717368 then .ok .squashfs
    else if ofWord32 m.bigEndian magic 0 = 0x19852003 then .ok .jffs2
    else if ofWord32 true magic 0 = 0x55424923 then .ok .ubi
    else .error (-EINVAL)

/-- The loop of `mtd_find_rootfs_from`. -/
def findRootfs (limit : Nat) : Nat → Nat → Option (Except Int (Nat × PartType))
  | 0, _ => none
  | n + 1, offset =>
    if offset < limit then
      match m.mtdCheckRootfsMagic offset with
      | .error _ => findRootfs limit n (m.mtdNextEb offset)
      | .ok type => some (.ok (offset, type))
    else some (.error (-ENOENT))

def mtdFindRootfsFrom (start limit : Nat) : Option (Except Int (Nat × PartType)) :=
  m.findRootfs limit (m.size + 1) start

/-- The loop of a parser over the erase blocks. What is left at its end are the offset, and the
image of the last turn. -/
def findImage (accept : Nat → Option Image) : Nat → Nat → Image → Option (Nat × Image)
  | 0, _, _ => none
  | n + 1, offset, image =>
    if offset < m.size then
      match accept offset with
      | none => findImage accept n (m.wrap (offset + m.erasesize)) { size := 0, header := [] }
      | some image =>
        if m.wrap (offset + image.size) > m.size then
          findImage accept n (m.wrap (offset + m.erasesize)) image
        else some (offset, image)
    else some (offset, image)

/-- Sizes and block boundaries are words of 32 bits. -/
def Small : Prop := m.size + m.erasesize ≤ 2 ^ 32

end Master

theorem wide_ge : 32 ≤ 64 := by decide

theorem wide_le : 64 ≤ 64 := le_rfl

/-- A device of which everything can be read, with a `size_t` of 64 bits. -/
def readable (content : List UInt8) (erasesize : Nat) (bigEndian : Bool) (hpos : 0 < erasesize)
    (hlt : content.length < 2 ^ 64) : Master where
  size := content.length
  erasesize := erasesize
  bits := 64
  bigEndian := bigEndian
  mtdRead offset len := .ok ((content.drop offset).take len)
  erasesize_pos := hpos
  bits_ge := wide_ge
  bits_le := wide_le
  size_lt := hlt
  mtdRead_neg _ _ _ h := by cases h

/-! ## The searches -/

section Search

variable {m : Master}

theorem Master.two_pow_le (m : Master) : 2 ^ 32 ≤ 2 ^ m.bits :=
  Nat.pow_le_pow_right (by decide) m.bits_ge

variable {n offset limit start j : Nat} {accept : Nat → Option Image}

theorem wrap_of_lt (h : n < 2 ^ m.bits) : m.wrap n = n := mod_eq_of_lt h

theorem roundDownToEb_eq (hsmall : m.Small) (h : offset < m.size) :
    m.roundDownToEb offset = offset / m.erasesize * m.erasesize := by
  have hle := div_mul_le_self offset m.erasesize
  have hdiv := Nat.div_le_self offset m.erasesize
  rw [Master.Small] at hsmall
  have hpos := m.erasesize_pos
  rw [Master.roundDownToEb]
  split_ifs with hzero
  · exact (Nat.div_mul_cancel (dvd_of_mod_eq_zero hzero)).symm
  · have hblocks : offset / m.erasesize < 2 ^ 32 := by omega
    rw [mod_eq_of_lt hblocks, mod_eq_of_lt (by omega)]

theorem lt_mtdNextEb (hsmall : m.Small) (h : offset < m.size) :
    offset < m.mtdNextEb offset := by
  have hle := div_mul_le_self offset m.erasesize
  have hmod := div_add_mod' offset m.erasesize
  have hlt := mod_lt offset m.erasesize_pos
  have hpow := m.two_pow_le
  have hsum := hsmall
  rw [Master.Small] at hsum
  rw [Master.mtdNextEb, roundDownToEb_eq hsmall h, wrap_of_lt (by omega)]
  omega

theorem findRootfs_spec (hsmall : m.Small) {type : PartType} (hlimit : limit ≤ m.size)
    (h : m.findRootfs limit n start = some (.ok (offset, type))) :
    start ≤ offset ∧ offset < limit := by
  induction n generalizing start with
  | zero => cases h
  | succ n ih =>
    rw [Master.findRootfs] at h
    split_ifs at h with hlt
    · split at h
      · have hnext := lt_mtdNextEb hsmall (Nat.lt_of_lt_of_le hlt hlimit)
        obtain ⟨hle, hoffset⟩ := ih h
        exact ⟨by omega, hoffset⟩
      · obtain ⟨rfl, rfl⟩ := Prod.mk.inj (Except.ok.inj (Option.some.inj h))
        exact ⟨le_rfl, hlt⟩
    · cases Option.some.inj h

/-- From block `j` on, an image that fits is found at the offset. -/
def Found (m : Master) (accept : Nat → Option Image) (j offset : Nat) (image : Image) : Prop :=
  (∃ k, j ≤ k ∧ offset = k * m.erasesize) ∧ offset < m.size ∧ accept offset = some image ∧
    offset + image.size ≤ m.size

/-- From block `j` up to the limit, no image fits. -/
def NoneFits (m : Master) (accept : Nat → Option Image) (j limit : Nat) : Prop :=
  ∀ k image, j ≤ k → k * m.erasesize < limit → accept (k * m.erasesize) = some image →
    m.size < k * m.erasesize + image.size

theorem NoneFits.of_succ (h : NoneFits m accept (j + 1) limit)
    (hthis : ∀ image, accept (j * m.erasesize) = some image →
      m.size < j * m.erasesize + image.size) : NoneFits m accept j limit := by
  intro k image hk hlt himage
  rcases Nat.eq_or_lt_of_le hk with rfl | hjk
  · exact hthis image himage
  · exact h k image hjk hlt himage

theorem NoneFits.self :
    NoneFits m accept j (j * m.erasesize) := by
  intro k image hk hlt
  have hmul := Nat.mul_le_mul_right m.erasesize hk
  omega

/-- The loop ends at the first image that fits, if there is one. -/
theorem findImage_spec (hsmall : m.Small)
    (hwrap : ∀ k image, accept (k * m.erasesize) = some image →
      image.size + m.size < 2 ^ m.bits) {image image' : Image}
    (h : m.findImage accept n (j * m.erasesize) image = some (offset, image')) :
    Found m accept j offset image' ∧ NoneFits m accept j offset ∨ NoneFits m accept j m.size := by
  induction n generalizing j image with
  | zero => cases h
  | succ n ih =>
    have hpow := m.two_pow_le
    have hsum := hsmall
    rw [Master.Small] at hsum
    rw [Master.findImage] at h
    split_ifs at h with hlt
    · have hnext : m.wrap (j * m.erasesize + m.erasesize) = (j + 1) * m.erasesize := by
        rw [wrap_of_lt (by omega), succ_mul]
      -- A block that is passed over holds no image that fits.
      have hpass {image : Image} (hrest : m.findImage accept n ((j + 1) * m.erasesize) image =
          some (offset, image')) (hthis : ∀ image, accept (j * m.erasesize) = some image →
            m.size < j * m.erasesize + image.size) :
          Found m accept j offset image' ∧ NoneFits m accept j offset ∨
            NoneFits m accept j m.size := by
        rcases ih hrest with ⟨⟨⟨k, hk, hoffset⟩, hfound⟩, hnone⟩ | hnone
        · exact .inl ⟨⟨⟨k, le_of_succ_le hk, hoffset⟩, hfound⟩, hnone.of_succ hthis⟩
        · exact .inr (hnone.of_succ hthis)
      split at h
      · rename_i hnone
        rw [hnext] at h
        exact hpass h fun image himage => by rw [hnone] at himage; cases himage
      · rename_i image₁ hsome
        have hfit := hwrap _ _ hsome
        rw [wrap_of_lt (by omega)] at h
        split_ifs at h with hbig
        · rw [hnext] at h
          refine hpass h fun image himage => ?_
          rw [hsome] at himage
          cases himage
          exact hbig
        · obtain ⟨rfl, rfl⟩ := Prod.mk.inj (Option.some.inj h)
          exact .inl ⟨⟨⟨j, le_rfl, rfl⟩, hlt, hsome, by omega⟩, .self⟩
    · refine .inr fun k image hk hkm _ => ?_
      have hmul := Nat.mul_le_mul_right m.erasesize hk
      omega

end Search

end LibWrt.Mtdsplit
