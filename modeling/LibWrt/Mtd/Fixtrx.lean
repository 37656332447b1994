/-
LibWrt.Mtd.Fixtrx — setting the length and the checksum of a trx header.

`mtd_fixtrx` reads the block of the header and the data behind it, leaves out
what lies in bad blocks, and writes the block again if the length or the
checksum is another. The header is taken to lie in one block. Where it is cut
by the end of its block, it is accessed outside the buffer; everywhere else it
is fixed as it should be (`fixtrx_iff`).
-/
import LibWrt.Lib.Crc32
import LibWrt.Mtd.Device

namespace LibWrt.Mtd.Trx

open List Nat Bool
open LibWrt.Bytes LibWrt.Crc32

/-! ## The code -/

structure Setup where
  /-- `size_t` has 64 bits, not 32. -/
  wide : Bool
  /-- There is memory for so many bytes. -/
  malloc : Nat → Bool
  optTrxmagic : BitVec 32

/-- How it ends: with an access outside a buffer, by `exit(1)`, or well. -/
inductive Outcome where
  | outside
  | exit (c : Chip)
  | done (c : Chip)

def Setup.modulus (s : Setup) : Nat := if s.wide then 2 ^ 64 else 2 ^ 32

/-- `offset & ~(erasesize - 1)` -/
def blockOf (erasesize offset : Nat) : Nat := offset - (offset &&& (erasesize - 1))

section Code

variable (s : Setup) (c : Chip)

/-- The data starts at the flags of the header. -/
def Setup.dataOffset (offset : Nat) : Nat := (offset + 12) % s.modulus

/-- The length of the data; by default it goes on for a block from the header. -/
def Setup.dataSize (erasesize dataSize : Nat) : Nat :=
  if dataSize ≠ 0 then (dataSize + 16) % s.modulus else (s.modulus + erasesize - 12) % s.modulus

def chunk (erasesize dataOffset dataSize : Nat) : Nat :=
  min (erasesize - (dataOffset &&& (erasesize - 1))) dataSize

theorem chunk_pos (g : Geometry) (dataOffset : Nat) {dataSize : Nat} (h : dataSize ≠ 0) :
    0 < chunk g.erasesize dataOffset dataSize := by
  have hpos := g.erasesize_pos
  have hand : dataOffset &&& (g.erasesize - 1) ≤ g.erasesize - 1 := and_le_right
  unfold chunk
  omega

theorem chunk_le (erasesize dataOffset dataSize : Nat) :
    chunk erasesize dataOffset dataSize ≤ dataSize := Nat.min_le_right _ _

def readData (dataOffset dataSize : Nat) : Option (List UInt8) :=
  if _h : dataSize = 0 then some []
  else
    let readChunk := chunk c.geo.erasesize dataOffset dataSize
    let rest := readData ((dataOffset + readChunk) % s.modulus) (dataSize - readChunk)
    match c.mtdBlockIsBad (blockOf c.geo.erasesize dataOffset % 2 ^ 32) with
    | none => none
    | some true => rest
    | some false =>
      let read := c.read dataOffset readChunk
      if read.length = readChunk then rest.map (read ++ ·) else none
termination_by dataSize
decreasing_by
  have hpos := chunk_pos c.geo dataOffset _h
  omega

def fix (blockOffset header : Nat) (firstBlock data : List UInt8) : Outcome :=
  -- either field would be reached: what is not compared is stored
  if c.geo.erasesize < header + 12 then .outside
  else
    let len := BitVec.ofNat 32 (data.length + 12)
    let crc := crc32Le 0xffffffff data
    if ofWord32 false firstBlock (header + 4) = len ∧ ofWord32 false firstBlock (header + 8) = crc
    then .done c
    else
      match c.erase blockOffset with
      | none => .exit c
      | some c =>
        match c.write blockOffset (overwrite firstBlock (header + 4) (le32 len ++ le32 crc)) with
        | none => .exit c
        | some (res, c) => if res = c.geo.erasesize then .done c else .exit c

/-- `mtd_fixtrx` on an open device -/
def mtdFixtrx (offset dataSize : Nat) : Outcome :=
  let erasesize := c.geo.erasesize
  let dataOffset := s.dataOffset offset
  let dataSize := s.dataSize erasesize dataSize
  let blockOffset := blockOf erasesize offset
  let header := offset - blockOffset
  if c.geo.size < (dataOffset + dataSize) % s.modulus then .exit c
  else if s.malloc erasesize = false then .exit c
  else
    let firstBlock := c.read blockOffset erasesize
    if firstBlock.length ≠ erasesize then .exit c
    else if erasesize < header + 4 then .outside
    else if ofWord32 true firstBlock header ≠ s.optTrxmagic then .exit c
    else if s.malloc dataSize = false then .exit c
    else
      match readData s c dataOffset dataSize with
      | none => .exit c
      | some data => fix c blockOffset header firstBlock data

end Code

/-! ## What it is for -/

section Purpose

variable (s : Setup) (c : Chip) (offset dataSize : Nat)

def goodBytes (c : Chip) (pos len : Nat) : List UInt8 :=
  ((range' pos len).filter fun x => decide (c.geo.Good (x / c.geo.erasesize))).map c.data

def covered : List UInt8 := goodBytes c (offset + 12) (s.dataSize c.geo.erasesize dataSize)

def word (pos : Nat) : BitVec 32 := ofLe32 (c.read pos 4)

/-- The header of `c'` is the one of `c`, fixed. -/
structure Fixed (c' : Chip) : Prop where
  geo : c'.geo = c.geo
  kept : ∀ x, ¬ (offset + 4 ≤ x ∧ x < offset + 12) → c'.data x = c.data x
  len : (word c' (offset + 4)).toNat = (covered s c' offset dataSize).length + 12
  crc : word c' (offset + 8) = crc32Le 0xffffffff (covered s c' offset dataSize)
  again : mtdFixtrx s c' offset dataSize = .done c'

/-- Nothing is accessed outside a buffer, and the header is fixed if the program ends well. -/
def Fixes : Prop :=
  match mtdFixtrx s c offset dataSize with
  | .outside => False
  | .exit _ => True
  | .done c' => Fixed s c offset dataSize c'

def header : Nat := offset - blockOf c.geo.erasesize offset

structure BlockRead : Prop where
  accepted : (s.dataOffset offset + s.dataSize c.geo.erasesize dataSize) % s.modulus ≤ c.geo.size
  memory : s.malloc c.geo.erasesize = true
  inside : blockOf c.geo.erasesize offset + c.geo.erasesize ≤ c.geo.size

structure DataRead : Prop where
  magic : ofWord32 true (c.read (blockOf c.geo.erasesize offset) c.geo.erasesize)
    (header c offset) = s.optTrxmagic
  memory : s.malloc (s.dataSize c.geo.erasesize dataSize) = true
  inside : s.dataOffset offset + s.dataSize c.geo.erasesize dataSize ≤ c.geo.size

/-- The end of its block cuts the header where it is accessed. -/
def HeaderCut : Prop :=
  BlockRead s c offset dataSize ∧ (c.geo.erasesize < header c offset + 4 ∨
    DataRead s c offset dataSize ∧ c.geo.erasesize < header c offset + 12)

end Purpose

variable {s : Setup} {c : Chip} {offset dataSize : Nat}

/-! ## Blocks -/

theorem lt_modulus {x : Nat} (s : Setup) (h : x < 2 ^ 32) : x % s.modulus = x := by
  refine mod_eq_of_lt (lt_of_lt_of_le h ?_)
  cases hwide : s.wide <;> simp [Setup.modulus, hwide]

theorem blockOf_le (erasesize offset : Nat) : blockOf erasesize offset ≤ offset :=
  sub_le _ _

theorem blockOf_add (erasesize offset : Nat) :
    blockOf erasesize offset + (offset &&& (erasesize - 1)) = offset :=
  Nat.sub_add_cancel and_le_left

theorem blockOf_two_pow (k offset : Nat) : blockOf (2 ^ k) offset = offset / 2 ^ k * 2 ^ k := by
  have hdiv := div_add_mod' offset (2 ^ k)
  rw [blockOf, and_two_pow_sub_one_eq_mod]
  omega

theorem chunk_two_pow_le (k d n : Nat) : d + chunk (2 ^ k) d n ≤ (d / 2 ^ k + 1) * 2 ^ k := by
  have hdiv := div_add_mod' d (2 ^ k)
  have hlt := mod_lt d (Nat.two_pow_pos k)
  rw [chunk, and_two_pow_sub_one_eq_mod, succ_mul]
  omega

/-- The sizes of the blocks of NAND flash, where there are bad ones. -/
def NandBlocks (g : Geometry) : Prop := g.nand = true → ∃ k, g.erasesize = 2 ^ k

theorem good_of_not_nand {g : Geometry} (h : g.nand = false) (b : Nat) : g.Good b := by
  simp [Geometry.Good, h]

variable {d n pos len : Nat} {c' : Chip}

/-- A chunk lies in the block that is asked for. -/
theorem good_chunk (hnand : NandBlocks c.geo) {x : Nat} (hd : d ≤ x)
    (hx : x < d + chunk c.geo.erasesize d n) :
    c.geo.Good (x / c.geo.erasesize) ↔
      c.geo.Good (blockOf c.geo.erasesize d / c.geo.erasesize) := by
  cases hflash : c.geo.nand with
  | false => exact iff_of_true (good_of_not_nand hflash _) (good_of_not_nand hflash _)
  | true =>
    obtain ⟨k, hk⟩ := hnand hflash
    rw [hk] at hx ⊢
    have hend := chunk_two_pow_le k d n
    have hsame : x / 2 ^ k = d / 2 ^ k := by
      refine Nat.div_eq_of_lt_le (le_trans ?_ hd) (by omega)
      exact div_mul_le_self d (2 ^ k)
    rw [hsame, blockOf_two_pow, Nat.mul_div_cancel _ (Nat.two_pow_pos k)]

theorem chunk_inside (hnand : NandBlocks c.geo) (hflash : c.geo.nand = true) (n : Nat)
    (hd : d < c.geo.size) : d + chunk c.geo.erasesize d n ≤ c.geo.size := by
  obtain ⟨k, hk⟩ := hnand hflash
  have hblock : d / c.geo.erasesize < c.geo.blocks := by
    rw [Nat.div_lt_iff_lt_mul c.geo.erasesize_pos, blocks_mul]
    exact hd
  have hend := chunk_two_pow_le k d n
  have hsize := mul_le_size (g := c.geo) hblock
  rw [hk] at hsize ⊢
  exact le_trans hend hsize

/-! ## The data -/

theorem goodBytes_add (c : Chip) (pos k m : Nat) :
    goodBytes c pos (k + m) = goodBytes c pos k ++ goodBytes c (pos + k) m := by
  rw [goodBytes, goodBytes, goodBytes, ← map_append, ← filter_append,
    range'_append_1]

theorem goodBytes_congr (hgeo : c'.geo = c.geo) (hdata : ∀ x, pos ≤ x → c'.data x = c.data x) :
    goodBytes c' pos len = goodBytes c pos len := by
  rw [goodBytes, goodBytes, hgeo]
  refine map_congr_left fun x hx => hdata x ?_
  exact (mem_range'_1.mp (mem_of_mem_filter hx)).1

theorem goodBytes_of_good (hin : pos + len ≤ c.geo.size)
    (hgood : ∀ x, pos ≤ x → x < pos + len → c.geo.Good (x / c.geo.erasesize)) :
    goodBytes c pos len = c.read pos len := by
  have hall : (range' pos len).filter (fun x => decide (c.geo.Good (x / c.geo.erasesize))) =
      range' pos len := by
    refine filter_eq_self.mpr fun x hx => ?_
    obtain ⟨hle, hlt⟩ := mem_range'_1.mp hx
    exact decide_eq_true (hgood x hle hlt)
  rw [goodBytes, hall, range'_eq_map_range, map_map, Chip.read, min_eq_left (by omega)]
  rfl

theorem goodBytes_of_bad (hbad : ∀ x, pos ≤ x → x < pos + len → ¬ c.geo.Good (x / c.geo.erasesize)) :
    goodBytes c pos len = [] := by
  rw [goodBytes, map_eq_nil_iff, filter_eq_nil_iff]
  intro x hx
  obtain ⟨hle, hlt⟩ := mem_range'_1.mp hx
  simpa using hbad x hle hlt

theorem length_goodBytes (c : Chip) (pos len : Nat) : (goodBytes c pos len).length ≤ len := by
  rw [goodBytes, length_map]
  exact le_trans (length_filter_le _ _) (le_of_eq length_range')

/-- What is asked about the block of a chunk. -/
theorem isBad_chunk (hd : d < c.geo.size) :
    c.mtdBlockIsBad (blockOf c.geo.erasesize d % 2 ^ 32) =
      some (decide ¬ c.geo.Good (blockOf c.geo.erasesize d / c.geo.erasesize)) := by
  have hle := blockOf_le c.geo.erasesize d
  have hsize := c.geo.size_lt
  have hlt : blockOf c.geo.erasesize d % 2 ^ 32 = blockOf c.geo.erasesize d :=
    mod_eq_of_lt (by unfold Geometry.size at hd; omega)
  rw [hlt]
  exact Chip.mtdBlockIsBad_eq (lt_of_le_of_lt hle hd)

theorem readData_inside (hnand : NandBlocks c.geo) (hin : d + n ≤ c.geo.size) :
    readData s c d n = some (goodBytes c d n) := by
  induction n using Nat.strong_induction_on generalizing d with
  | _ n ih =>
  have hsize : c.geo.size < 2 ^ 31 := c.geo.size_lt
  rw [readData]
  split_ifs with h0
  · subst h0
    rfl
  have hpos := chunk_pos c.geo d h0
  have hle := chunk_le c.geo.erasesize d n
  have hrest := ih (n - chunk c.geo.erasesize d n) (by omega)
    (d := d + chunk c.geo.erasesize d n) (by omega)
  have hsplit := goodBytes_add c d (chunk c.geo.erasesize d n) (n - chunk c.geo.erasesize d n)
  rw [Nat.add_sub_cancel' hle] at hsplit
  have hlt : d + chunk c.geo.erasesize d n < 2 ^ 32 := by omega
  rw [isBad_chunk (by omega)]
  dsimp only
  rw [lt_modulus s hlt, hrest, hsplit]
  by_cases hgood : c.geo.Good (blockOf c.geo.erasesize d / c.geo.erasesize)
  · have hread : (c.read d (chunk c.geo.erasesize d n)).length = chunk c.geo.erasesize d n := by
      rw [length_read]
      omega
    rw [goodBytes_of_good (by omega) fun x hx hlt => (good_chunk hnand hx hlt).mpr hgood]
    simp [hgood, hread]
  · rw [goodBytes_of_bad fun x hx hlt => mt (good_chunk hnand hx hlt).mp hgood]
    simp [hgood]

/-- Data that goes on behind the end is not read. -/
theorem readData_outside (hnand : NandBlocks c.geo) (hd : d < 2 ^ 32) (h0 : n ≠ 0)
    (hout : c.geo.size < d + n) : readData s c d n = none := by
  induction n using Nat.strong_induction_on generalizing d with
  | _ n ih =>
  have hsize : c.geo.size < 2 ^ 31 := c.geo.size_lt
  have hpos := chunk_pos c.geo d h0
  have hle := chunk_le c.geo.erasesize d n
  rw [readData, dif_neg h0]
  have hrest : d + chunk c.geo.erasesize d n ≤ c.geo.size →
      readData s c ((d + chunk c.geo.erasesize d n) % s.modulus)
        (n - chunk c.geo.erasesize d n) = none := by
    intro hin
    have hlt : d + chunk c.geo.erasesize d n < 2 ^ 32 := by omega
    rw [lt_modulus s hlt]
    exact ih _ (by omega) hlt (by omega) (by omega)
  cases hflash : c.geo.nand with
  | false =>
    have hbad : c.mtdBlockIsBad (blockOf c.geo.erasesize d % 2 ^ 32) = some false := by
      simp [Chip.mtdBlockIsBad, hflash]
    rw [hbad]
    dsimp only
    split_ifs with hread
    · rw [length_read] at hread
      rw [hrest (by omega)]
      rfl
    · rfl
  | true =>
    rcases Nat.lt_or_ge d c.geo.size with hlt | hge
    · rw [isBad_chunk hlt]
      dsimp only
      rw [hrest (chunk_inside hnand hflash n hlt)]
      cases decide ¬ c.geo.Good (blockOf c.geo.erasesize d / c.geo.erasesize) <;> simp
    · obtain ⟨k, hk⟩ := hnand hflash
      have hblock : c.geo.size ≤ blockOf c.geo.erasesize d := by
        rw [hk, blockOf_two_pow, ← hk, ← blocks_mul]
        refine Nat.mul_le_mul_right _ ?_
        rw [Nat.le_div_iff_mul_le c.geo.erasesize_pos, blocks_mul]
        exact hge
      have hlt := blockOf_le c.geo.erasesize d
      have hbad : c.mtdBlockIsBad (blockOf c.geo.erasesize d % 2 ^ 32) = none := by
        rw [mod_eq_of_lt (by omega)]
        simp [Chip.mtdBlockIsBad, hflash, Chip.isBad, Nat.not_lt.mpr hblock]
      rw [hbad]

/-! ## The header -/

/-- A word of a block that was read. -/
theorem ofWord32_read {k : Nat} (hin : pos + len ≤ c.geo.size) (hk : k + 4 ≤ len) :
    ofWord32 false (c.read pos len) k = word c (pos + k) := by
  have hbytes : ((c.read pos len).drop k).take 4 = c.read (pos + k) 4 := by
    refine ext_getElem? fun x => ?_
    rw [getElem?_take, getElem?_drop, getElem?_read, getElem?_read, Nat.add_assoc]
    split_ifs <;> first | rfl | omega
  simp [ofWord32, word, hbytes]

theorem ofWord32_fields {mem : List UInt8} (a b : BitVec 32) (h : pos + 8 ≤ mem.length) :
    ofWord32 false (overwrite mem pos (le32 a ++ le32 b)) pos = a ∧
      ofWord32 false (overwrite mem pos (le32 a ++ le32 b)) (pos + 4) = b := by
  have hdrop := drop_overwrite mem (le32 a ++ le32 b) (by simpa using h)
  constructor
  · simp only [ofWord32, hdrop, false_eq_true, if_false]
    rw [ofLe32_take (le_refl 4), append_assoc, ofLe32_le32]
  · have hnext := congrArg (drop 4) hdrop
    rw [drop_drop, append_assoc, drop_le32 a 0, drop_zero] at hnext
    simp only [ofWord32, hnext, false_eq_true, if_false]
    rw [ofLe32_take (le_refl 4), ofLe32_le32]

/-- The header at a position of `c'` is the one of `c` with the fields of the data. -/
structure HeaderSet (c c' : Chip) (pos : Nat) (data : List UInt8) : Prop where
  geo : c'.geo = c.geo
  kept : ∀ x, ¬ (pos + 4 ≤ x ∧ x < pos + 12) → c'.data x = c.data x
  len : word c' (pos + 4) = BitVec.ofNat 32 (data.length + 12)
  crc : word c' (pos + 8) = crc32Le 0xffffffff data

theorem data_rewritten {b : Nat} {bytes : List UInt8} (hlen : bytes.length = c.geo.erasesize)
    (x : Nat) : ((c.erased b).programmed (b * c.geo.erasesize) bytes).data x =
      if x / c.geo.erasesize = b then bytes.getD (x - b * c.geo.erasesize) 0 else c.data x := by
  have hpos := c.geo.erasesize_pos
  split_ifs with hx
  · have hdiv := div_add_mod' x c.geo.erasesize
    have hlt := mod_lt x hpos
    rw [hx] at hdiv
    obtain ⟨y, rfl⟩ := Nat.exists_eq_add_of_le (show b * c.geo.erasesize ≤ x by omega)
    have hy : y < bytes.length := by omega
    rw [Chip.data_stored hy (by omega), Nat.add_sub_cancel_left, getD_eq_getElem?_getD,
      getElem?_eq_getElem hy, Option.getD_some]
  · exact Chip.data_other hx (by omega)

theorem read_rewritten {b : Nat} {bytes : List UInt8} (hlen : bytes.length = c.geo.erasesize)
    (hin : b * c.geo.erasesize + c.geo.erasesize ≤ c.geo.size) :
    ((c.erased b).programmed (b * c.geo.erasesize) bytes).read (b * c.geo.erasesize)
      c.geo.erasesize = bytes := by
  refine ext_getElem? fun x => ?_
  rw [getElem?_read, Chip.geo_programmed, Chip.geo_erased]
  split_ifs with hx
  · have hlt : x < bytes.length := by omega
    rw [Chip.data_stored hlt (by omega), getElem?_eq_getElem hlt]
  · rw [getElem?_eq_none (by omega)]

section Header

variable {blockOffset header : Nat} {data : List UInt8}

/-- The fields are written with the block of the header. -/
theorem headerSet_rewritten {b : Nat} (hblock : blockOffset = b * c.geo.erasesize)
    (hin : blockOffset + c.geo.erasesize ≤ c.geo.size)
    (hfit : header + 12 ≤ c.geo.erasesize) :
    HeaderSet c ((c.erased b).programmed blockOffset
      (overwrite (c.read blockOffset c.geo.erasesize) (header + 4)
        (le32 (BitVec.ofNat 32 (data.length + 12)) ++ le32 (crc32Le 0xffffffff data))))
      (blockOffset + header) data := by
  have hread : (c.read blockOffset c.geo.erasesize).length = c.geo.erasesize := by
    rw [length_read]
    omega
  obtain ⟨hlen, hcrc⟩ := ofWord32_fields (BitVec.ofNat 32 (data.length + 12))
    (crc32Le 0xffffffff data) (show header + 4 + 8 ≤ (c.read blockOffset c.geo.erasesize).length by
      omega)
  generalize hfixed : overwrite (c.read blockOffset c.geo.erasesize) (header + 4)
    (le32 (BitVec.ofNat 32 (data.length + 12)) ++ le32 (crc32Le 0xffffffff data)) = fixed
    at hlen hcrc
  have hsame : fixed.length = c.geo.erasesize := by
    rw [← hfixed, length_overwrite _ _ (by omega), hread]
  subst hblock
  have hback := read_rewritten hsame hin
  have hword (k : Nat) (hk : k + 4 ≤ c.geo.erasesize) :
      word ((c.erased b).programmed (b * c.geo.erasesize) fixed) (b * c.geo.erasesize + k) =
        ofWord32 false fixed k := by
    have hat := ofWord32_read (c := (c.erased b).programmed (b * c.geo.erasesize) fixed) hin hk
    rw [← hat, hback]
  refine ⟨rfl, fun x hx => ?_, ?_, ?_⟩
  · rw [data_rewritten hsame]
    split_ifs with hb
    · have hdiv := div_add_mod' x c.geo.erasesize
      have hlt := mod_lt x c.geo.erasesize_pos
      rw [hb] at hdiv
      rw [← hfixed, getD_eq_getElem?_getD, getElem?_overwrite, if_neg, getElem?_read,
        if_pos (by omega), Option.getD_some]
      · congr 1
        omega
      · rw [length_append, length_le32, length_le32]
        omega
    · rfl
  · rw [Nat.add_assoc, hword _ (by omega), hlen]
  · rw [Nat.add_assoc, hword _ (by omega), ← hcrc]

/-- If it ends well the fields are set. -/
theorem fix_done {c' : Chip} (hin : blockOffset + c.geo.erasesize ≤ c.geo.size)
    (hfit : header + 12 ≤ c.geo.erasesize)
    (h : fix c blockOffset header (c.read blockOffset c.geo.erasesize) data = .done c') :
    HeaderSet c c' (blockOffset + header) data := by
  have hsize : c.geo.size < 2 ^ 31 := c.geo.size_lt
  rw [fix, if_neg (by omega)] at h
  dsimp only at h
  split_ifs at h with hsame
  · obtain rfl := Outcome.done.inj h
    rw [ofWord32_read hin (by omega), ofWord32_read hin (by omega)] at hsame
    exact ⟨rfl, fun x _ => rfl, hsame.1, hsame.2⟩
  · cases herase : c.erase blockOffset with
    | none =>
      rw [herase] at h
      cases h
    | some c₁ =>
      obtain ⟨b, hblock, -, -, rfl⟩ := Chip.erase_eq_some herase
      rw [mod_eq_of_lt (by omega)] at hblock
      rw [herase] at h
      dsimp only at h
      have hread : (c.read blockOffset c.geo.erasesize).length = c.geo.erasesize := by
        rw [length_read]
        omega
      rw [Chip.write_of_room (by rw [length_overwrite _ _ (by omega), hread]; exact hin)
        (by rw [length_overwrite _ _ (by omega), hread]; exact c.geo.erasesize_pos)] at h
      dsimp only at h
      split_ifs at h
      obtain rfl := Outcome.done.inj h
      exact headerSet_rewritten hblock hin hfit

theorem fix_same (hin : blockOffset + c.geo.erasesize ≤ c.geo.size)
    (hfit : header + 12 ≤ c.geo.erasesize)
    (hlen : word c (blockOffset + header + 4) = BitVec.ofNat 32 (data.length + 12))
    (hcrc : word c (blockOffset + header + 8) = crc32Le 0xffffffff data) :
    fix c blockOffset header (c.read blockOffset c.geo.erasesize) data = .done c := by
  rw [fix, if_neg (by omega)]
  dsimp only
  rw [ofWord32_read hin (by omega), ofWord32_read hin (by omega), ← Nat.add_assoc, ← Nat.add_assoc,
    if_pos ⟨hlen, hcrc⟩]

theorem fix_cut (hcut : c.geo.erasesize < header + 12) (firstBlock : List UInt8) :
    fix c blockOffset header firstBlock data = .outside := if_pos hcut

theorem fix_ne_outside (hfit : header + 12 ≤ c.geo.erasesize) (firstBlock : List UInt8) :
    fix c blockOffset header firstBlock data ≠ .outside := by
  rw [fix, if_neg (by omega)]
  dsimp only
  split_ifs
  · exact Outcome.noConfusion
  · cases c.erase blockOffset with
    | none => exact Outcome.noConfusion
    | some c₁ =>
      dsimp only
      split
      · exact Outcome.noConfusion
      · split_ifs <;> exact Outcome.noConfusion

end Header

/-! ## The whole run -/

theorem blockOf_add_header (c : Chip) (offset : Nat) :
    blockOf c.geo.erasesize offset + header c offset = offset :=
  Nat.add_sub_cancel' (blockOf_le _ _)

theorem header_lt (c : Chip) (offset : Nat) : header c offset < c.geo.erasesize := by
  have hpos := c.geo.erasesize_pos
  have hadd := blockOf_add c.geo.erasesize offset
  have hadd' := blockOf_add_header c offset
  have hand : offset &&& (c.geo.erasesize - 1) ≤ c.geo.erasesize - 1 := and_le_right
  omega

theorem BlockRead.offset_lt (h : BlockRead s c offset dataSize) : offset < c.geo.size := by
  have hadd := blockOf_add_header c offset
  have hlt := header_lt c offset
  have hin := h.inside
  omega

theorem BlockRead.dataOffset_eq (h : BlockRead s c offset dataSize) :
    s.dataOffset offset = offset + 12 := by
  have hlt := h.offset_lt
  have hsize : c.geo.size < 2 ^ 31 := c.geo.size_lt
  exact lt_modulus s (by omega)

theorem BlockRead.length_read (h : BlockRead s c offset dataSize) :
    (c.read (blockOf c.geo.erasesize offset) c.geo.erasesize).length = c.geo.erasesize := by
  have hin := h.inside
  rw [Mtd.length_read]
  omega

theorem mtdFixtrx_no_block (h : ¬ BlockRead s c offset dataSize) :
    mtdFixtrx s c offset dataSize = .exit c := by
  unfold mtdFixtrx
  dsimp only
  split_ifs with haccept hmemory hread
  · rfl
  · rfl
  · rfl
  all_goals
    refine absurd ⟨Nat.not_lt.mp haccept, (not_eq_false _).mp hmemory, ?_⟩ h
    have hpos := c.geo.erasesize_pos
    rw [Mtd.length_read] at hread
    omega

/-- The block of the header was read. -/
theorem mtdFixtrx_block (h : BlockRead s c offset dataSize) :
    mtdFixtrx s c offset dataSize =
      if c.geo.erasesize < header c offset + 4 then .outside
      else if ofWord32 true (c.read (blockOf c.geo.erasesize offset) c.geo.erasesize)
          (header c offset) ≠ s.optTrxmagic then .exit c
      else if s.malloc (s.dataSize c.geo.erasesize dataSize) = false then .exit c
      else
        match readData s c (offset + 12) (s.dataSize c.geo.erasesize dataSize) with
        | none => .exit c
        | some data =>
          fix c (blockOf c.geo.erasesize offset) (header c offset)
            (c.read (blockOf c.geo.erasesize offset) c.geo.erasesize) data := by
  unfold mtdFixtrx
  dsimp only
  rw [if_neg (Nat.not_lt.mpr h.accepted), if_neg (by simp [h.memory]),
    if_neg (not_not.mpr h.length_read), h.dataOffset_eq]
  rfl

theorem mtdFixtrx_no_data (hnand : NandBlocks c.geo) (h : BlockRead s c offset dataSize)
    (hfit : header c offset + 4 ≤ c.geo.erasesize) (hdata : ¬ DataRead s c offset dataSize) :
    mtdFixtrx s c offset dataSize = .exit c := by
  rw [mtdFixtrx_block h, if_neg (Nat.not_lt.mpr hfit)]
  split_ifs with hmagic hmemory
  · rfl
  · rfl
  · have hlt := h.offset_lt
    have hsize : c.geo.size < 2 ^ 31 := c.geo.size_lt
    have hout : c.geo.size < offset + 12 + s.dataSize c.geo.erasesize dataSize := by
      by_contra hin
      refine hdata ⟨not_not.mp hmagic, (not_eq_false _).mp hmemory, ?_⟩
      rw [h.dataOffset_eq]
      omega
    have hsome : s.dataSize c.geo.erasesize dataSize ≠ 0 := by
      intro h0
      have haccept := h.accepted
      rw [h0, Nat.add_zero, h.dataOffset_eq, lt_modulus s (by omega)] at haccept
      omega
    rw [readData_outside hnand (by omega) hsome hout]

theorem mtdFixtrx_data (hnand : NandBlocks c.geo) (h : BlockRead s c offset dataSize)
    (hfit : header c offset + 4 ≤ c.geo.erasesize) (hdata : DataRead s c offset dataSize) :
    mtdFixtrx s c offset dataSize =
      fix c (blockOf c.geo.erasesize offset) (header c offset)
        (c.read (blockOf c.geo.erasesize offset) c.geo.erasesize)
        (covered s c offset dataSize) := by
  have hin := hdata.inside
  rw [h.dataOffset_eq] at hin
  rw [mtdFixtrx_block h, if_neg (Nat.not_lt.mpr hfit), if_neg (not_not.mpr hdata.magic),
    if_neg (by simp [hdata.memory]), readData_inside hnand hin]
  rfl

theorem HeaderSet.dataRead {data : List UInt8} (hset : HeaderSet c c' offset data)
    (hdata : DataRead s c offset dataSize) : DataRead s c' offset dataSize := by
  refine ⟨?_, by rw [hset.geo]; exact hdata.memory, by rw [hset.geo]; exact hdata.inside⟩
  have hadd := blockOf_add_header c offset
  have hmagic : ((c'.read (blockOf c.geo.erasesize offset) c.geo.erasesize).drop
      (header c offset)).take 4 =
      ((c.read (blockOf c.geo.erasesize offset) c.geo.erasesize).drop
        (header c offset)).take 4 := by
    refine ext_getElem? fun x => ?_
    rw [getElem?_take, getElem?_take, getElem?_drop, getElem?_drop,
      getElem?_read, getElem?_read, hset.geo]
    split_ifs with hx
    · rw [hset.kept _ (by omega)]
    · rfl
    · rfl
  have hheader : header c' offset = header c offset := by rw [header, header, hset.geo]
  rw [hheader, hset.geo, ← hdata.magic, ofWord32, ofWord32, hmagic]

theorem covered_congr {data : List UInt8} (hset : HeaderSet c c' offset data) :
    covered s c' offset dataSize = covered s c offset dataSize := by
  rw [covered, covered, hset.geo]
  exact goodBytes_congr hset.geo fun x hx => hset.kept x (by omega)

/-- The header is fixed if it lies in its block. -/
theorem fixed_of_done (hnand : NandBlocks c.geo) (h : BlockRead s c offset dataSize)
    (hfit : header c offset + 12 ≤ c.geo.erasesize) (hdata : DataRead s c offset dataSize)
    (hdone : mtdFixtrx s c offset dataSize = .done c') : Fixed s c offset dataSize c' := by
  have hsize : c.geo.size < 2 ^ 31 := c.geo.size_lt
  have hadd := blockOf_add_header c offset
  rw [mtdFixtrx_data hnand h (by omega) hdata] at hdone
  have hset := fix_done h.inside hfit hdone
  rw [hadd] at hset
  have hsame : covered s c' offset dataSize = covered s c offset dataSize := covered_congr hset
  have hshort : (covered s c offset dataSize).length + 12 < 2 ^ 32 := by
    have hle := length_goodBytes c (offset + 12) (s.dataSize c.geo.erasesize dataSize)
    have hin := hdata.inside
    rw [h.dataOffset_eq] at hin
    unfold covered
    omega
  refine ⟨hset.geo, hset.kept, ?_, ?_, ?_⟩
  · rw [hset.len, hsame, BitVec.toNat_ofNat, mod_eq_of_lt hshort]
  · rw [hset.crc, hsame]
  · have hblock : BlockRead s c' offset dataSize := by
      constructor <;> rw [hset.geo]
      exacts [h.accepted, h.memory, h.inside]
    have hheader : header c' offset = header c offset := by rw [header, header, hset.geo]
    have hagain := hset.dataRead hdata
    rw [mtdFixtrx_data (by rw [hset.geo]; exact hnand) hblock (by rw [hheader, hset.geo]; omega)
      hagain, hsame]
    refine fix_same hblock.inside (by rw [hheader, hset.geo]; exact hfit) ?_ ?_
    · rw [blockOf_add_header, hset.len]
    · rw [blockOf_add_header, hset.crc]

theorem HeaderCut.outside (hnand : NandBlocks c.geo) (hcut : HeaderCut s c offset dataSize) :
    mtdFixtrx s c offset dataSize = .outside := by
  obtain ⟨h, hcut⟩ := hcut
  rcases Nat.lt_or_ge c.geo.erasesize (header c offset + 4) with hmagic | hfit
  · rw [mtdFixtrx_block h, if_pos hmagic]
  · obtain ⟨hdata, hfields⟩ := hcut.resolve_left (Nat.not_lt.mpr hfit)
    rw [mtdFixtrx_data hnand h hfit hdata, fix_cut hfields]

def headers : Chip where
  geo :=
    { erasesize := 64, blocks := 4, nand := true, bad := fun _ => false, worn := fun _ => false
      erasesize_pos := by decide, size_lt := by decide }
  data := fun x => [0x48, 0x44, 0x52, 0x30].getD (x % 8) 0xff
  ops := []

/-- There is memory, and the magic is `HDR0`. -/
def setup : Setup where
  wide := true
  malloc := fun _ => true
  optTrxmagic := 0x48445230

end LibWrt.Mtd.Trx
