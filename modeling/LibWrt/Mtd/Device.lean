/-
LibWrt.Mtd.Device — a flash partition as its character device gives access to it.

Blocks are erased one at a time, and writing clears bits. Only a NAND partition
has bad blocks. A request past the end fails, but for a write or a read that
begins before it: that one is cut. What was done is kept, the newest first.
-/
import LibWrt.Lib.Bytes

namespace LibWrt.Mtd

open List Nat
open LibWrt.Bytes

/-- A partition; sizes are `int`s. -/
structure Geometry where
  erasesize : Nat
  blocks : Nat
  nand : Bool
  bad : Nat → Bool
  /-- Erasing the block fails. -/
  worn : Nat → Bool
  erasesize_pos : 0 < erasesize
  size_lt : erasesize * blocks < 2 ^ 31

def Geometry.size (g : Geometry) : Nat := g.erasesize * g.blocks

/-- The block is not bad, as there are no bad blocks but in NAND flash. -/
def Geometry.Good (g : Geometry) (b : Nat) : Prop := ¬ (g.nand = true ∧ g.bad b = true)

instance (g : Geometry) : DecidablePred g.Good := fun _ => inferInstanceAs (Decidable (¬ _))

inductive Op where
  | erase (block : Nat)
  | write (pos : Nat) (bytes : List UInt8)
  deriving DecidableEq

structure Chip where
  geo : Geometry
  data : Nat → UInt8
  ops : List Op

namespace Chip

def erased (c : Chip) (b : Nat) : Chip :=
  { c with
    data := fun x => if x / c.geo.erasesize = b then 0xff else c.data x
    ops := .erase b :: c.ops }

/-- The bits of the bytes that are not set are cleared. -/
def programmed (c : Chip) (pos : Nat) (bytes : List UInt8) : Chip :=
  { c with
    data := fun x =>
      if pos ≤ x then match bytes[x - pos]? with
        | some byte => c.data x &&& byte
        | none => c.data x
      else c.data x
    ops := .write pos bytes :: c.ops }

/-- `MEMERASE` of one block; the offset is a 32-bit word. -/
def erase (c : Chip) (start : Nat) : Option Chip :=
  let start := start % 2 ^ 32
  let b := start / c.geo.erasesize
  if start % c.geo.erasesize = 0 ∧ b < c.geo.blocks ∧ c.geo.Good b ∧ c.geo.worn b = false then
    some (c.erased b)
  else none

/-- `MEMGETBADBLOCK`, which fails past the end. -/
def isBad (c : Chip) (offset : Nat) : Option Bool :=
  if offset < c.geo.size then some (c.geo.bad (offset / c.geo.erasesize)) else none

/-- `mtd_block_is_bad`, which exits if it cannot be told. -/
def mtdBlockIsBad (c : Chip) (offset : Nat) : Option Bool :=
  if c.geo.nand then c.isBad offset else some false

def write (c : Chip) (pos : Nat) (bytes : List UInt8) : Option (Nat × Chip) :=
  if pos < c.geo.size then
    let bytes := bytes.take (c.geo.size - pos)
    some (bytes.length, c.programmed pos bytes)
  else none

def read (c : Chip) (pos len : Nat) : List UInt8 :=
  (List.range (min len (c.geo.size - pos))).map fun x => c.data (pos + x)

end Chip

/-! ## Positions -/

/-- `lseek(fd, offset, SEEK_SET)` after the device was opened. -/
def Geometry.seekSet (g : Geometry) (offset : Nat) : Nat := if offset ≤ g.size then offset else 0

/-- `lseek(fd, offset, SEEK_CUR)` -/
def Geometry.seekCur (g : Geometry) (pos offset : Nat) : Nat :=
  if pos + offset ≤ g.size then pos + offset else pos

/-! ## Sizes -/

theorem le_mul_erasesize (g : Geometry) (j : Nat) : j ≤ j * g.erasesize :=
  Nat.le_mul_of_pos_right j g.erasesize_pos

theorem blocks_mul (g : Geometry) : g.blocks * g.erasesize = g.size := Nat.mul_comm _ _

theorem mul_le_size {g : Geometry} {j : Nat} (h : j ≤ g.blocks) : j * g.erasesize ≤ g.size := by
  rw [← blocks_mul]
  exact Nat.mul_le_mul_right _ h

/-! ## What the operations do -/

namespace Chip

variable {c c' : Chip} {pos : Nat} {bytes : List UInt8}

@[simp] theorem geo_erased (b : Nat) : (c.erased b).geo = c.geo := rfl
@[simp] theorem geo_programmed : (c.programmed pos bytes).geo = c.geo := rfl
@[simp] theorem ops_erased (b : Nat) : (c.erased b).ops = .erase b :: c.ops := rfl
@[simp] theorem ops_programmed : (c.programmed pos bytes).ops = .write pos bytes :: c.ops := rfl

theorem erase_eq_some {start : Nat} (h : c.erase start = some c') :
    ∃ b, start % 2 ^ 32 = b * c.geo.erasesize ∧ b < c.geo.blocks ∧ c.geo.Good b ∧
      c' = c.erased b := by
  unfold erase at h
  dsimp only at h
  split_ifs at h with hok
  obtain ⟨halign, hlt, hgood, -⟩ := hok
  refine ⟨_, ?_, hlt, hgood, (Option.some.inj h).symm⟩
  rw [Nat.div_mul_cancel (dvd_of_mod_eq_zero halign)]

theorem isBad_eq_some {offset : Nat} {bad : Bool} (h : c.isBad offset = some bad) :
    offset < c.geo.size ∧ bad = c.geo.bad (offset / c.geo.erasesize) := by
  unfold isBad at h
  split_ifs at h with hlt
  exact ⟨hlt, (Option.some.inj h).symm⟩

theorem mtdBlockIsBad_eq {offset : Nat} (h : offset < c.geo.size) :
    c.mtdBlockIsBad offset = some (decide ¬ c.geo.Good (offset / c.geo.erasesize)) := by
  rw [Chip.mtdBlockIsBad, Chip.isBad, if_pos h]
  cases hnand : c.geo.nand with
  | false => simp [Geometry.Good, hnand]
  | true => simp [Geometry.Good, hnand]

/-- A write that is not cut has room. -/
theorem write_eq_some {len : Nat} (h : c.write pos bytes = some (len, c'))
    (hlen : bytes.length ≤ len) :
    pos + bytes.length ≤ c.geo.size ∧ len = bytes.length ∧ c' = c.programmed pos bytes := by
  unfold write at h
  split_ifs at h with hpos
  simp only [Option.some.injEq, Prod.mk.injEq, length_take] at h
  obtain ⟨hl, hc⟩ := h
  have hroom : bytes.length ≤ c.geo.size - pos := by omega
  rw [take_of_length_le hroom] at hc
  exact ⟨by omega, by omega, hc.symm⟩

theorem write_of_room (hroom : pos + bytes.length ≤ c.geo.size) (hne : 0 < bytes.length) :
    c.write pos bytes = some (bytes.length, c.programmed pos bytes) := by
  have htake : bytes.take (c.geo.size - pos) = bytes := take_of_length_le (by omega)
  rw [write, if_pos (by omega), htake]

theorem data_stored {b x : Nat} (hx : x < bytes.length) (hlen : bytes.length ≤ c.geo.erasesize) :
    ((c.erased b).programmed (b * c.geo.erasesize) bytes).data (b * c.geo.erasesize + x) =
      bytes[x] := by
  have hpos := c.geo.erasesize_pos
  have hblock : (b * c.geo.erasesize + x) / c.geo.erasesize = b := by
    rw [Nat.add_comm, add_mul_div_right _ _ hpos, div_eq_of_lt (by omega), Nat.zero_add]
  simp only [programmed, erased, Nat.le_add_right, if_true, Nat.add_sub_cancel_left,
    getElem?_eq_getElem hx, hblock, ff_and]

/-- The other bytes are as they were. -/
theorem data_other {b x : Nat} (hx : x / c.geo.erasesize ≠ b)
    (hlen : bytes.length ≤ c.geo.erasesize) :
    ((c.erased b).programmed (b * c.geo.erasesize) bytes).data x = c.data x := by
  have hpos := c.geo.erasesize_pos
  have hout : ¬ b * c.geo.erasesize ≤ x ∨
      bytes.length ≤ x - b * c.geo.erasesize := by
    by_contra hin
    rw [not_or, not_not, not_le] at hin
    refine hx (Nat.div_eq_of_lt_le hin.1 ?_)
    rw [succ_mul]
    omega
  simp only [programmed, erased, if_neg hx]
  split_ifs with hle
  · rw [getElem?_eq_none (by rcases hout with h | h <;> [exact absurd hle h; exact h])]
  · rfl

end Chip

/-! ## Reading -/

section Read

variable {c : Chip} {pos len : Nat}

@[simp] theorem length_read (c : Chip) (pos len : Nat) :
    (c.read pos len).length = min len (c.geo.size - pos) := by
  simp [Chip.read]

theorem getElem?_read (x : Nat) :
    (c.read pos len)[x]? =
      if x < min len (c.geo.size - pos) then some (c.data (pos + x)) else none := by
  rw [Chip.read, getElem?_map]
  split_ifs with hx
  · rw [getElem?_range hx]
    rfl
  · rw [getElem?_eq_none (by rw [length_range]; omega)]
    rfl

theorem read_congr {c' : Chip} (hgeo : c'.geo = c.geo)
    (hdata : ∀ x, pos ≤ x → x < pos + len → c'.data x = c.data x) :
    c'.read pos len = c.read pos len := by
  rw [Chip.read, Chip.read, hgeo]
  refine map_congr_left fun x hx => hdata _ (by omega) ?_
  have hlt := mem_range.mp hx
  omega

/-- What is read at once is what is read in two pieces; the first one may be short. -/
theorem read_split {size m : Nat} (hlen : len ≤ size) (hm : (c.read pos len).length = m) :
    c.read pos size = c.read pos len ++ c.read (pos + m) (size - m) := by
  have hread := hm
  rw [length_read] at hread
  refine ext_getElem? fun x => ?_
  rw [getElem?_append, hm, getElem?_read, getElem?_read, getElem?_read]
  rcases Nat.lt_or_ge x m with hx | hx
  · have hall : x < min size (c.geo.size - pos) := by omega
    have hfirst : x < min len (c.geo.size - pos) := by omega
    rw [if_pos hall, if_pos hx, if_pos hfirst]
  · have hsum : pos + m + (x - m) = pos + x := by omega
    have hiff : x < min size (c.geo.size - pos) ↔
        x - m < min (size - m) (c.geo.size - (pos + m)) := by omega
    rw [if_neg (Nat.not_lt.mpr hx), hsum]
    exact if_congr hiff rfl rfl

theorem read_zero (c : Chip) (pos : Nat) : c.read pos 0 = [] := by simp [Chip.read]

end Read

def firstBad : Chip where
  geo :=
    { erasesize := 4, blocks := 4, nand := true, bad := fun b => b == 0, worn := fun _ => false
      erasesize_pos := by decide, size_lt := by decide }
  data := fun _ => 0xff
  ops := []

end LibWrt.Mtd
