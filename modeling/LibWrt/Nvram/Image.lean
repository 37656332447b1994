/-
LibWrt.Nvram.Image — the nvram partition: commit, open and info.

The partition holds a header and behind it the pairs as `name=value` with a
NUL each, and one more NUL. The header is in little endian, as its checksum
asks for. Bytes that would be written behind the end of the mapping are left
out.
-/
import LibWrt.Nvram.Store
import LibWrt.Lib.Bytes
import Mathlib.Data.List.TakeWhile

namespace LibWrt.Nvram

open List UInt8
open Bytes

def CString.ofBytes (bytes : List UInt8) : CString :=
  ⟨bytes.takeWhile (· ≠ 0), fun h => by simpa using mem_takeWhile_imp h⟩

def CString.ofString (s : String) : CString :=
  .ofBytes (s.toList.map fun c => ofNat c.toNat)

/-! ## Header -/

/-- `nvram_header_t` -/
structure Header where
  magic : BitVec 32
  len : BitVec 32
  crcVerInit : BitVec 32
  configRefresh : BitVec 32
  configNcdl : BitVec 32

/-- `sizeof(nvram_header_t)` -/
def headerSize : Nat := 20

/-- `NVRAM_MAGIC` -/
def magic : BitVec 32 := 0x48534C46

/-- `NVRAM_MIN_SPACE` -/
def minSpace : Nat := 0x8000

/-- `NVRAM_CRC_START_POSITION` -/
def crcStartPosition : Nat := 9

namespace Header

def words (hd : Header) : List (BitVec 32) :=
  [hd.magic, hd.len, hd.crcVerInit, hd.configRefresh, hd.configNcdl]

def bytes (hd : Header) : List UInt8 := hd.words.flatMap le32

def ofBytes (bytes : List UInt8) : Header where
  magic := ofLe32 bytes
  len := ofLe32 (bytes.drop 4)
  crcVerInit := ofLe32 (bytes.drop 8)
  configRefresh := ofLe32 (bytes.drop 12)
  configNcdl := ofLe32 (bytes.drop 16)

end Header

/-- `crc8_table` -/
def crc8Table : List UInt8 := [
  0x00, 0xF7, 0xB9, 0x4E, 0x25, 0xD2, 0x9C, 0x6B, 0x4A, 0xBD, 0xF3, 0x04, 0x6F, 0x98, 0xD6, 0x21,
  0x94, 0x63, 0x2D, 0xDA, 0xB1, 0x46, 0x08, 0xFF, 0xDE, 0x29, 0x67, 0x90, 0xFB, 0x0C, 0x42, 0xB5,
  0x7F, 0x88, 0xC6, 0x31, 0x5A, 0xAD, 0xE3, 0x14, 0x35, 0xC2, 0x8C, 0x7B, 0x10, 0xE7, 0xA9, 0x5E,
  0xEB, 0x1C, 0x52, 0xA5, 0xCE, 0x39, 0x77, 0x80, 0xA1, 0x56, 0x18, 0xEF, 0x84, 0x73, 0x3D, 0xCA,
  0xFE, 0x09, 0x47, 0xB0, 0xDB, 0x2C, 0x62, 0x95, 0xB4, 0x43, 0x0D, 0xFA, 0x91, 0x66, 0x28, 0xDF,
  0x6A, 0x9D, 0xD3, 0x24, 0x4F, 0xB8, 0xF6, 0x01, 0x20, 0xD7, 0x99, 0x6E, 0x05, 0xF2, 0xBC, 0x4B,
  0x81, 0x76, 0x38, 0xCF, 0xA4, 0x53, 0x1D, 0xEA, 0xCB, 0x3C, 0x72, 0x85, 0xEE, 0x19, 0x57, 0xA0,
  0x15, 0xE2, 0xAC, 0x5B, 0x30, 0xC7, 0x89, 0x7E, 0x5F, 0xA8, 0xE6, 0x11, 0x7A, 0x8D, 0xC3, 0x34,
  0xAB, 0x5C, 0x12, 0xE5, 0x8E, 0x79, 0x37, 0xC0, 0xE1, 0x16, 0x58, 0xAF, 0xC4, 0x33, 0x7D, 0x8A,
  0x3F, 0xC8, 0x86, 0x71, 0x1A, 0xED, 0xA3, 0x54, 0x75, 0x82, 0xCC, 0x3B, 0x50, 0xA7, 0xE9, 0x1E,
  0xD4, 0x23, 0x6D, 0x9A, 0xF1, 0x06, 0x48, 0xBF, 0x9E, 0x69, 0x27, 0xD0, 0xBB, 0x4C, 0x02, 0xF5,
  0x40, 0xB7, 0xF9, 0x0E, 0x65, 0x92, 0xDC, 0x2B, 0x0A, 0xFD, 0xB3, 0x44, 0x2F, 0xD8, 0x96, 0x61,
  0x55, 0xA2, 0xEC, 0x1B, 0x70, 0x87, 0xC9, 0x3E, 0x1F, 0xE8, 0xA6, 0x51, 0x3A, 0xCD, 0x83, 0x74,
  0xC1, 0x36, 0x78, 0x8F, 0xE4, 0x13, 0x5D, 0xAA, 0x8B, 0x7C, 0x32, 0xC5, 0xAE, 0x59, 0x17, 0xE0,
  0x2A, 0xDD, 0x93, 0x64, 0x0F, 0xF8, 0xB6, 0x41, 0x60, 0x97, 0xD9, 0x2E, 0x45, 0xB2, 0xFC, 0x0B,
  0xBE, 0x49, 0x07, 0xF0, 0x9B, 0x6C, 0x22, 0xD5, 0xF4, 0x03, 0x4D, 0xBA, 0xD1, 0x26, 0x68, 0x9F]

/-- `hndcrc8` -/
def hndcrc8 (data : List UInt8) (crc : UInt8) : UInt8 :=
  data.foldl (fun crc b => crc8Table.getD (crc ^^^ b).toNat 0) crc

/-! ## Numbers in strings -/

def hexDigit (n : Nat) : UInt8 := ofNat (if n < 10 then 48 + n else 55 + n)

/-- The lowest `n` hexadecimal digits of a number. -/
def hexDigits : Nat → Nat → List UInt8
  | 0, _ => []
  | n + 1, v => hexDigit (v / 16 ^ n % 16) :: hexDigits n v

/-- `sprintf` of `0x%04X` and `0x%08X` -/
def sprintfHex (n v : Nat) : CString := .ofBytes (48 :: 120 :: hexDigits n v)

def digitValue (c : UInt8) : Nat :=
  if 48 ≤ c ∧ c ≤ 57 then c.toNat - 48
  else if 97 ≤ c ∧ c ≤ 122 then c.toNat - 87
  else if 65 ≤ c ∧ c ≤ 90 then c.toNat - 55
  else 36

def isSpace (c : UInt8) : Bool := c = 32 || (9 ≤ c && c ≤ 13)

def takeSign : List UInt8 → Bool × List UInt8
  | 45 :: s => (true, s)
  | 43 :: s => (false, s)
  | s => (false, s)

def takeBase : List UInt8 → Nat × List UInt8
  | 48 :: 120 :: s => (16, s)
  | 48 :: 88 :: s => (16, s)
  | 48 :: s => (8, s)
  | s => (10, s)

/-- `strtoul` in base 0, with a `long` of 32 bits -/
def strtoul (s : CString) : BitVec 32 :=
  let (negative, s) := takeSign (s.val.dropWhile isSpace)
  let (base, s) := takeBase s
  let n := (s.takeWhile fun c => digitValue c < base).foldl (fun n c => n * base + digitValue c) 0
  if 2 ^ 32 ≤ n then BitVec.allOnes 32
  else if negative then -BitVec.ofNat 32 n else BitVec.ofNat 32 n

/-! ## Parsing -/

/-- The pairs in the data behind the header; there are none if a string does not end. -/
def parse : Nat → List UInt8 → Option (List (CString × CString))
  | 0, _ => none
  | fuel + 1, data =>
    match data with
    | [] => none
    | 0 :: _ => some []
    | c :: data =>
      let name := (c :: data).takeWhile fun b => b ≠ 0 && b ≠ 61
      match (c :: data).drop name.length with
      | [] => none
      | 0 :: _ => some []
      | _ :: rest =>
        let value := CString.ofBytes rest
        match rest.drop value.length with
        | [] => none
        | _ :: rest => (parse fuel rest).map fun pairs => (.ofBytes name, value) :: pairs

def sdramInit : CString := .ofString "sdram_init"
def sdramConfig : CString := .ofString "sdram_config"
def sdramRefresh : CString := .ofString "sdram_refresh"
def sdramNcdl : CString := .ofString "sdram_ncdl"

def sdramNames : List CString := [sdramInit, sdramConfig, sdramRefresh, sdramNcdl]

namespace Handle

/-- `nvram_header` -/
def header (h : Handle) : Header := .ofBytes (h.mmap.drop h.offset)

def setDefault (h : Handle) (name value : CString) : Handle :=
  if (h.get name).isSome then h else (h.set name value).2

def setSdram (h : Handle) : Handle :=
  let header := h.header
  let h := h.setDefault sdramInit (sprintfHex 4 (header.crcVerInit >>> 16).toNat)
  let h := h.setDefault sdramConfig (sprintfHex 4 (header.configRefresh &&& 0xffff).toNat)
  let h := h.setDefault sdramRefresh (sprintfHex 4 (header.configRefresh >>> 16).toNat)
  h.setDefault sdramNcdl (sprintfHex 8 header.configNcdl.toNat)

def data (h : Handle) : List UInt8 := h.mmap.drop (h.offset + headerSize)

/-- `_nvram_rehash`; nothing comes back where a string runs behind the mapping. -/
def rehash (h : Handle) : Option Handle :=
  (parse (h.data.length + 1) h.data).map fun pairs =>
    (pairs.foldl (fun h p => (h.set p.1 p.2).2) h.free).setSdram

/-! ## Commit -/

def tupleBytes (t : CString × CString) : List UInt8 := t.1.val ++ 61 :: t.2.val ++ [0]

/-- The tuples of a chain behind what is written; the first that has no room ends the chain. -/
def writeChain (h : Handle) : List UInt8 → List (CString × CString) → List UInt8
  | out, [] => out
  | out, t :: chain =>
    if headerSize + out.length + (t.1.length + 1 + t.2.length + 1) > h.length - h.offset - 2 then
      out
    else writeChain h (out ++ tupleBytes t) chain

def writeTuples (h : Handle) : List UInt8 :=
  (finRange 257).foldl (fun out i => h.writeChain out (h.hash i)) []

/-- `SDRAM_INIT` -/
def sdramInitValue : BitVec 32 := 0x419

/-- `SDRAM_CONFIG` -/
def sdramConfigValue : BitVec 32 := 0x0000

/-- `SDRAM_REFRESH` -/
def sdramRefreshValue : BitVec 32 := 0x40 &&& 0xff ||| 0x8000

/-- `NVRAM_VERSION` -/
def version : BitVec 32 := 1

def regenerate (h : Handle) : Header :=
  match h.get sdramInit, h.get sdramConfig, h.get sdramRefresh, h.get sdramNcdl with
  | some init, some config, some refresh, some ncdl =>
    { magic := magic
      len := 0
      crcVerInit := version <<< 8 ||| (strtoul init &&& 0xffff) <<< 16
      configRefresh := strtoul config &&& 0xffff ||| (strtoul refresh &&& 0xffff) <<< 16
      configNcdl := strtoul ncdl }
  | _, _, _, _ =>
    { magic := magic
      len := 0
      crcVerInit := version <<< 8 ||| sdramInitValue <<< 16
      configRefresh := sdramConfigValue ||| sdramRefreshValue <<< 16
      configNcdl := 0 }

/-- `NVRAM_ROUNDUP` to words -/
def roundup (n : Nat) : Nat := (n + 3) / 4 * 4

/-- How many bytes are cleared behind the second NUL, with an address that may be negative as an
    `int`. -/
def padding (high : Bool) (ptr : Nat) : Nat :=
  if ptr % 4 = 0 then 0 else if high then 8 - ptr % 4 else 4 - ptr % 4

/-- The partition that `nvram_commit` writes. -/
def commitImage (high : Bool) (h : Handle) : List UInt8 :=
  let start := h.offset + headerSize
  let mem := overwrite h.mmap start (replicate (h.length - h.offset - headerSize) 0xff)
  let out := h.writeTuples ++ [0]
  let ptr := start + out.length
  let mem := overwrite mem start (out ++ replicate (padding high ptr) 0)
  let len := roundup (ptr + 1 - h.offset)
  let header := h.regenerate
  let tmp := { header with magic := 0 }
  let crc := hndcrc8 ((mem.drop start).take (len - headerSize))
    (hndcrc8 (tmp.bytes.drop crcStartPosition) 0xff)
  overwrite mem h.offset { header with
    len := BitVec.ofNat 32 len
    crcVerInit := header.crcVerInit ||| BitVec.ofNat 32 crc.toNat }.bytes

/-- `nvram_commit`, with a mapping that may lie at a high address -/
def commit (high : Bool) (h : Handle) : Option (Int × Handle) :=
  ({ h with mmap := h.commitImage high }).rehash.map fun h => (0, h)

/-! ## Open and info -/

/-- `nvram_open` of a partition, on a machine where a `char` may be signed. A size that an `int`
    does not hold or that is below the least is not taken. -/
def openArea (signed : Bool) (area : List UInt8) (rdonly : Bool) : Option Handle :=
  if area.length < minSpace ∨ 2 ^ 31 ≤ area.length then none
  else
    ((range ((area.length - minSpace) / 4 + 1)).find? fun i =>
        ofLe32 (area.drop (4 * i)) = magic).bind fun i =>
      let h : Handle :=
        { signed, mmap := area, length := area.length, offset := 4 * i, hash := .empty, dead := [] }
      if rdonly || h.header.len.toNat < h.length - h.offset then h.rehash else none

/-- The checksum that `do_info` calculates. -/
def infoCrc (h : Handle) : UInt8 :=
  hndcrc8 ((h.mmap.drop (h.offset + crcStartPosition)).take
    (h.header.len.toNat - crcStartPosition)) 0xff

/-- The checksum and the length that `do_info` shows. -/
def headerCrc (h : Handle) : UInt8 := ofNat (h.header.crcVerInit &&& 0xff).toNat

end Handle

/-! ## What is opened -/

namespace Handle

variable {h h' : Handle}

theorem Wf.setDefault (hwf : h.Wf) (name value : CString) : (h.setDefault name value).Wf := by
  rw [Handle.setDefault]
  split
  · exact hwf
  · exact hwf.set name value

theorem Wf.setPairs (hwf : h.Wf) (pairs : List (CString × CString)) :
    (pairs.foldl (fun h p => (h.set p.1 p.2).2) h).Wf := by
  induction pairs generalizing h with
  | nil => exact hwf
  | cons p pairs ih => exact ih (hwf.set p.1 p.2)

theorem set_rest (h : Handle) (name value : CString) : ∃ hash, (h.set name value).2 =
    { h with hash := hash } := by
  rw [set]
  split
  · exact ⟨_, rfl⟩
  · exact ⟨h.hash, rfl⟩

theorem setSdram_rest (h : Handle) : ∃ hash, h.setSdram = { h with hash := hash } := by
  have hstep : ∀ (hash : Chains 257 CString CString) (name value : CString), ∃ hash',
      (Handle.setDefault { h with hash := hash } name value) = { h with hash := hash' } := by
    intro hash name value
    rw [setDefault]
    split
    · exact ⟨hash, rfl⟩
    · exact set_rest _ name value
  simp only [setSdram]
  obtain ⟨hash₁, h₁⟩ := hstep h.hash sdramInit (sprintfHex 4 (h.header.crcVerInit >>> 16).toNat)
  obtain ⟨hash₂, h₂⟩ := hstep hash₁ sdramConfig
    (sprintfHex 4 (h.header.configRefresh &&& 0xffff).toNat)
  obtain ⟨hash₃, h₃⟩ := hstep hash₂ sdramRefresh
    (sprintfHex 4 (h.header.configRefresh >>> 16).toNat)
  obtain ⟨hash₄, h₄⟩ := hstep hash₃ sdramNcdl (sprintfHex 8 h.header.configNcdl.toNat)
  exact ⟨hash₄, by rw [h₁, h₂, h₃, h₄]⟩

@[simp] theorem length_setSdram (h : Handle) : h.setSdram.length = h.length := by
  obtain ⟨hash, heq⟩ := setSdram_rest h
  rw [heq]

@[simp] theorem offset_setSdram (h : Handle) : h.setSdram.offset = h.offset := by
  obtain ⟨hash, heq⟩ := setSdram_rest h
  rw [heq]

theorem Wf.setSdram (hwf : h.Wf) : h.setSdram.Wf :=
  (((hwf.setDefault _ _).setDefault _ _).setDefault _ _).setDefault _ _

theorem wf_rehash (hre : h.rehash = some h') : h'.Wf := by
  obtain ⟨pairs, -, rfl⟩ := Option.map_eq_some_iff.mp hre
  exact ((wf_free h).setPairs pairs).setSdram

theorem openArea_eq_some {signed rdonly : Bool} {area : List UInt8}
    (hopen : openArea signed area rdonly = some h) :
    minSpace ≤ area.length ∧ area.length < 2 ^ 31 ∧
      ∃ i, (range ((area.length - minSpace) / 4 + 1)).find? (fun i =>
          ofLe32 (area.drop (4 * i)) = magic) = some i ∧
        (Handle.mk signed area area.length (4 * i) .empty []).rehash = some h := by
  rw [openArea] at hopen
  split at hopen
  · cases hopen
  · rename_i hsize
    obtain ⟨i, hfind, hre⟩ := Option.bind_eq_some_iff.mp hopen
    dsimp only at hre
    split at hre
    · exact ⟨by omega, by omega, i, hfind, hre⟩
    · cases hre

theorem openArea_wf {signed rdonly : Bool} {area : List UInt8}
    (hopen : openArea signed area rdonly = some h) : h.Wf := by
  obtain ⟨-, -, i, -, hre⟩ := openArea_eq_some hopen
  exact wf_rehash hre

theorem call_set_accepted (h : Handle) (name value : CString) :
    (h.call (.set name value)).1 = .status 0 ↔ h.HasRoom value := by
  rw [call, set]
  by_cases hroom : h.HasRoom value <;> simp [hroom]

theorem call_set_refused {value : CString} (hroom : ¬ h.HasRoom value) (name : CString) :
    h.call (.set name value) = (.status (-12), h) := by
  simp only [call, set, if_neg hroom]

theorem get_setDefault {name name' : CString} (value : CString)
    (hkeep : name ≠ name' ∨ (h.get name).isSome) :
    (h.setDefault name' value).get name = h.get name := by
  rw [setDefault]
  split
  · rfl
  · rename_i hnone
    rw [get_set, if_neg]
    rintro ⟨rfl, -⟩
    rcases hkeep with hne | hsome
    · exact hne rfl
    · exact hnone hsome

theorem get_setSdram {name : CString} (hkeep : name ∉ sdramNames ∨ (h.get name).isSome) :
    h.setSdram.get name = h.get name := by
  have hne : ∀ name' ∈ sdramNames, name ≠ name' ∨ (h.get name).isSome := by
    intro name' hmem
    rcases hkeep with hno | hsome
    · exact .inl fun heq => hno (heq ▸ hmem)
    · exact .inr hsome
  have hstep : ∀ (g : Handle) (name' value : CString), name' ∈ sdramNames →
      g.get name = h.get name → (g.setDefault name' value).get name = h.get name := by
    intro g name' value hmem heq
    rw [get_setDefault value (by rw [heq]; exact hne name' hmem), heq]
  exact hstep _ _ _ (by simp [sdramNames]) (hstep _ _ _ (by simp [sdramNames])
    (hstep _ _ _ (by simp [sdramNames]) (hstep _ _ _ (by simp [sdramNames]) rfl)))

def blankArea (n : Nat) : List UInt8 := le32 magic ++ replicate 16 0 ++ replicate (n + 1) 0

theorem openArea_blank {n : Nat} (hmin : minSpace ≤ n + 21) (hmax : n + 21 < 2 ^ 31)
    (signed rdonly : Bool) : openArea signed (blankArea n) rdonly = some
      (Handle.mk signed (blankArea n) (n + 21) 0 .empty []).free.setSdram := by
  have hlength : (blankArea n).length = n + 21 := by
    simp only [blankArea, length_append, length_le32, length_replicate]
    omega
  have hfind : (range ((n + 21 - minSpace) / 4 + 1)).find? (fun i =>
      ofLe32 ((blankArea n).drop (4 * i)) = magic) = some 0 := by
    rw [range_succ_eq_map]
    exact find?_cons_of_pos rfl
  have hlen : (Handle.mk signed (blankArea n) (n + 21) 0 .empty []).header.len = 0 := rfl
  have hparse : ∀ fuel, parse (fuel + 1) (Handle.mk signed (blankArea n) (n + 21) 0 .empty []).data =
      some [] := fun fuel => rfl
  rw [openArea, hlength, if_neg (by omega), hfind, Option.bind_some]
  dsimp only
  rw [if_pos (by simp [hlen]), rehash, hparse]
  rfl

end Handle

end LibWrt.Nvram
