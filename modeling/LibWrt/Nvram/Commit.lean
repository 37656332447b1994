/-
LibWrt.Nvram.Commit — what a commit writes is what is opened again.

`Mapped` is what every handle of an opened partition keeps. For one of them
the image of a commit has the header where it was (`header_image`) and, if
the pairs fit, the pairs behind it (`parse_image`). But a commit never fails:
pairs without room are left out, and where the area is almost full the length
in the header is too long for the partition to be opened for writing.
-/
import LibWrt.Nvram.Image

namespace LibWrt.Nvram

open List Nat UInt8
open Bytes

/-! ## Parsing what is written -/

@[simp] theorem CString.ofBytes_append (s : CString) (rest : List UInt8) :
    CString.ofBytes (s.val ++ 0 :: rest) = s := by
  apply Subtype.ext
  show (s.val ++ 0 :: rest).takeWhile (· ≠ 0) = s.val
  rw [takeWhile_append_of_pos, takeWhile_cons_of_neg (by simp), append_nil]
  intro b hb
  have hne : b ≠ 0 := fun heq => s.property (heq ▸ hb)
  simpa using hne

@[simp] theorem CString.ofBytes_val (s : CString) : CString.ofBytes s.val = s := by
  apply Subtype.ext
  show s.val.takeWhile (· ≠ 0) = s.val
  rw [takeWhile_eq_self_iff]
  intro b hb
  have hne : b ≠ 0 := fun heq => s.property (heq ▸ hb)
  simpa using hne

/-- A pair is parsed back, if its name has no `=`. -/
theorem parse_tuple {fuel : Nat} {t : CString × CString} (hname : 61 ∉ t.1.val)
    (rest : List UInt8) :
    parse (fuel + 1) (Handle.tupleBytes t ++ rest) = (parse fuel rest).map fun pairs =>
      t :: pairs := by
  have hbytes : Handle.tupleBytes t ++ rest = t.1.val ++ 61 :: (t.2.val ++ 0 :: rest) := by
    simp [Handle.tupleBytes]
  have htake : (t.1.val ++ 61 :: (t.2.val ++ 0 :: rest)).takeWhile (fun b => b ≠ 0 && b ≠ 61) =
      t.1.val := by
    rw [takeWhile_append_of_pos, takeWhile_cons_of_neg (by simp), append_nil]
    intro b hb
    have hzero : b ≠ 0 := fun heq => t.1.property (heq ▸ hb)
    have heq : b ≠ 61 := fun heq => hname (heq ▸ hb)
    simp [hzero, heq]
  have hne : ∃ c data, c ≠ 0 ∧ t.1.val ++ 61 :: (t.2.val ++ 0 :: rest) = c :: data := by
    rcases hval : t.1.val with _ | ⟨c, cs⟩
    · exact ⟨61, _, by decide, rfl⟩
    · refine ⟨c, _, fun hc => t.1.property ?_, rfl⟩
      rw [hval, hc]
      exact mem_cons_self
  rw [hbytes]
  obtain ⟨c, data, hc, hcons⟩ := hne
  rw [hcons, parse]
  · rw [← hcons, htake, drop_left]
    split
    · rename_i heq
      cases heq
    · rename_i heq
      exact absurd (List.cons.inj heq).1 (by decide)
    · rename_i heq
      obtain ⟨-, rfl⟩ := List.cons.inj heq
      simp only [CString.ofBytes_append, CString.ofBytes_val, CString.length, drop_left]
  · exact hc

/-- Written pairs and a NUL are parsed back. -/
theorem parse_tuples {fuel : Nat} {pairs : List (CString × CString)}
    (hnames : ∀ t ∈ pairs, 61 ∉ t.1.val) (hfuel : pairs.length < fuel) (rest : List UInt8) :
    parse fuel (pairs.flatMap Handle.tupleBytes ++ 0 :: rest) = some pairs := by
  induction pairs generalizing fuel with
  | nil =>
    obtain ⟨fuel, rfl⟩ := exists_eq_succ_of_ne_zero (by omega : fuel ≠ 0)
    rfl
  | cons t pairs ih =>
    obtain ⟨fuel, rfl⟩ := exists_eq_succ_of_ne_zero (by omega : fuel ≠ 0)
    have hrest := ih (fun t ht => hnames t (mem_cons_of_mem _ ht))
      (lt_of_succ_lt_succ hfuel)
    rw [flatMap_cons, append_assoc, parse_tuple (hnames t mem_cons_self), hrest]
    rfl

namespace Handle

variable {h h' : Handle}

/-! ## What is written -/

@[simp] theorem length_tupleBytes (t : CString × CString) :
    (tupleBytes t).length = t.1.length + t.2.length + 2 := by
  simp only [tupleBytes, CString.length, length_append, length_cons, length_nil]
  omega

theorem length_le_flatMap {t : CString × CString} {pairs : List (CString × CString)}
    (ht : t ∈ pairs) : (tupleBytes t).length ≤ (pairs.flatMap tupleBytes).length := by
  rw [length_flatMap]
  exact le_sum_of_mem (mem_map_of_mem ht)

theorem length_le_length_flatMap (pairs : List (CString × CString)) :
    pairs.length ≤ (pairs.flatMap tupleBytes).length := by
  induction pairs with
  | nil => simp
  | cons t pairs ih =>
    rw [flatMap_cons, length_append, length_tupleBytes, length_cons]
    omega

theorem writeChain_eq {out : List UInt8} {chain : List (CString × CString)}
    (hroom : headerSize + (out ++ chain.flatMap tupleBytes).length ≤ h.length - h.offset - 2) :
    h.writeChain out chain = out ++ chain.flatMap tupleBytes := by
  induction chain generalizing out with
  | nil => simp [writeChain]
  | cons t chain ih =>
    rw [flatMap_cons, ← append_assoc] at hroom ⊢
    have hfirst : headerSize + out.length + (t.1.length + 1 + t.2.length + 1) ≤
        h.length - h.offset - 2 := by
      rw [length_append, length_append, length_tupleBytes] at hroom
      omega
    rw [writeChain, if_neg (by omega), ih hroom]

/-- The bytes that the header, the pairs and the NUL at their end need, and the one behind it. -/
def used (h : Handle) : Nat := headerSize + (h.hash.pairs.flatMap tupleBytes).length + 2

def Fits (h : Handle) : Prop := h.used ≤ h.length - h.offset

theorem writeTuples_eq (hfits : h.Fits) : h.writeTuples = h.hash.pairs.flatMap tupleBytes := by
  have hfold : ∀ (is : List (Fin 257)) (out : List UInt8),
      headerSize + (out ++ (is.map h.hash).flatten.flatMap tupleBytes).length ≤
        h.length - h.offset - 2 →
      is.foldl (fun out i => h.writeChain out (h.hash i)) out =
        out ++ (is.map h.hash).flatten.flatMap tupleBytes := by
    intro is
    induction is with
    | nil => simp
    | cons i is ih =>
      intro out hroom
      rw [map_cons, flatten_cons, flatMap_append, ← append_assoc] at hroom ⊢
      rw [foldl_cons, writeChain_eq, ih _ hroom]
      rw [length_append] at hroom
      omega
  have hpairs : h.hash.pairs = ((finRange 257).map h.hash).flatten := by
    rw [Chains.pairs, ofFn_eq_map]
  rw [Fits, used] at hfits
  rw [writeTuples, hfold, hpairs, nil_append]
  rw [← hpairs, nil_append]
  omega

/-! ## The header -/

theorem ofBytes_header (hd : Header) (rest : List UInt8) : Header.ofBytes (hd.bytes ++ rest) = hd := by
  obtain ⟨magic, len, crcVerInit, configRefresh, configNcdl⟩ := hd
  have hbytes : (Header.mk magic len crcVerInit configRefresh configNcdl).bytes ++ rest =
      le32 magic ++ (le32 len ++ (le32 crcVerInit ++ (le32 configRefresh ++
        (le32 configNcdl ++ rest)))) := by
    simp [Header.bytes, Header.words]
  rw [hbytes, Header.ofBytes, ofLe32_le32]
  simp only [drop_le32 magic 0, drop_le32 magic 4, drop_le32 magic 8, drop_le32 magic 12,
    drop_le32 len 0, drop_le32 len 4, drop_le32 len 8, drop_le32 crcVerInit 0,
    drop_le32 crcVerInit 4, drop_le32 configRefresh 0, drop_zero, ofLe32_le32]

@[simp] theorem length_header_bytes (hd : Header) : hd.bytes.length = headerSize := by
  simp [Header.bytes, Header.words, headerSize]

theorem le32_or {w : BitVec 32} (crc : UInt8) (hlow : w.toNat % 2 ^ 8 = 0) :
    le32 (w ||| BitVec.ofNat 32 crc.toNat) = crc :: (le32 w).drop 1 := by
  have hcrc := crc.toNat_lt
  obtain ⟨k, hk⟩ := dvd_of_mod_eq_zero hlow
  have hor : (w ||| BitVec.ofNat 32 crc.toNat).toNat = 2 ^ 8 * k + crc.toNat := by
    rw [BitVec.toNat_or, BitVec.toNat_ofNat, mod_eq_of_lt (by omega), hk,
      two_pow_add_eq_or_of_lt (by omega)]
  have hbyte : ofNat (2 ^ 8 * k + crc.toNat) = crc := by
    apply UInt8.toNat.inj
    rw [toNat_ofNat']
    omega
  have hsecond : (2 ^ 8 * k + crc.toNat) / 2 ^ 8 = 2 ^ 8 * k / 2 ^ 8 := by omega
  have hthird : (2 ^ 8 * k + crc.toNat) / 2 ^ 16 = 2 ^ 8 * k / 2 ^ 16 := by omega
  have hfourth : (2 ^ 8 * k + crc.toNat) / 2 ^ 24 = 2 ^ 8 * k / 2 ^ 24 := by omega
  rw [le32, le32, hor, hk, hbyte, hsecond, hthird, hfourth]
  rfl

/-- The checksum is the lowest byte of its word, and is not over itself. -/
theorem drop_header_bytes (hd : Header) (crc : UInt8) (magic len : BitVec 32)
    (hlow : hd.crcVerInit.toNat % 2 ^ 8 = 0) :
    Header.bytes { hd with
      magic := magic, len := len, crcVerInit := hd.crcVerInit ||| BitVec.ofNat 32 crc.toNat } =
      le32 magic ++ le32 len ++ crc :: hd.bytes.drop crcStartPosition := by
  simp only [Header.bytes, Header.words, flatMap_cons, flatMap_nil, le32_or crc hlow]
  rfl

theorem regenerate_low (h : Handle) : h.regenerate.crcVerInit.toNat % 2 ^ 8 = 0 := by
  have hlow : ∀ w : BitVec 32, (version <<< 8 ||| w <<< 16).toNat % 2 ^ 8 = 0 := by
    intro w
    have hversion : (version <<< 8).toNat % 2 ^ 8 = 0 := by decide
    have hzero : (w <<< 16).toNat % 2 ^ 8 = 0 := by
      rw [BitVec.toNat_shiftLeft, shiftLeft_eq]
      omega
    rw [BitVec.toNat_or, or_mod_two_pow, hversion, hzero]
    rfl
  rw [regenerate]
  split
  · exact hlow (strtoul _ &&& 0xffff)
  · exact hlow sdramInitValue

theorem regenerate_magic (h : Handle) : h.regenerate.magic = magic := by
  rw [regenerate]
  split <;> rfl

/-! ## The image -/

/-- What every handle of an opened partition keeps: it covers the partition, and starts where the
    magic was found first. -/
structure Mapped (h : Handle) : Prop where
  length_eq : h.mmap.length = h.length
  room : h.offset + minSpace ≤ h.length
  small : h.length < 2 ^ 31
  aligned : h.offset % 4 = 0
  first : ∀ i, 4 * i < h.offset → ofLe32 (h.mmap.drop (4 * i)) ≠ magic

/-- The header that a commit writes, and the bytes behind it. -/
theorem commitImage_drop (hm : h.Mapped) (high : Bool) (hfits : h.Fits) : ∃ rest crc,
    (h.commitImage high).drop h.offset = Header.bytes { h.regenerate with
        len := BitVec.ofNat 32 (roundup h.used)
        crcVerInit := h.regenerate.crcVerInit ||| BitVec.ofNat 32 crc.toNat } ++
      (h.hash.pairs.flatMap tupleBytes ++ 0 :: rest) ∧
    crc = hndcrc8 ((h.hash.pairs.flatMap tupleBytes ++ 0 :: rest).take
      (roundup h.used - headerSize)) (hndcrc8 (h.regenerate.bytes.drop crcStartPosition) 0xff) := by
  have hroom : h.offset + headerSize ≤ h.mmap.length := by
    rw [hm.length_eq]
    exact Nat.le_trans (Nat.add_le_add_left (by decide) _) hm.room
  rw [commitImage, writeTuples_eq hfits]
  set out := h.hash.pairs.flatMap tupleBytes with hout
  set cleared := overwrite h.mmap (h.offset + headerSize)
    (replicate (h.length - h.offset - headerSize) 0xff)
  set zeros := replicate (padding high (h.offset + headerSize + (out ++ [0]).length)) (0 : UInt8)
  have hcleared : cleared.length = h.length := by
    rw [length_overwrite _ _ hroom, hm.length_eq]
  rw [hm.length_eq, ← hcleared] at hroom
  set mem := overwrite cleared (h.offset + headerSize) (out ++ [0] ++ zeros)
  have hmem : mem.length = h.length := by
    rw [length_overwrite _ _ hroom, hcleared]
  have hused : h.used = headerSize + out.length + 2 := rfl
  have hbound : (out ++ [0]).length ≤ cleared.length - (h.offset + headerSize) := by
    rw [Fits, hused] at hfits
    rw [hcleared, length_append, length_singleton]
    omega
  obtain ⟨rest, hrest⟩ : ∃ rest, mem.drop (h.offset + headerSize) = out ++ 0 :: rest := by
    have hdrop := drop_overwrite_take cleared (out ++ [0] ++ zeros) hroom
    rw [append_assoc (out ++ [0]) zeros (cleared.drop _), take_append,
      take_of_length_le hbound] at hdrop
    exact ⟨_, hdrop.trans (append_assoc out [0] _)⟩
  have hlen : h.offset + headerSize + (out ++ [0]).length + 1 - h.offset = h.used := by
    rw [hused, length_append, length_singleton]
    omega
  have htmp : (Header.bytes { h.regenerate with magic := 0 }).drop crcStartPosition =
      h.regenerate.bytes.drop crcStartPosition := rfl
  refine ⟨rest, _, ?_, rfl⟩
  rw [drop_overwrite, length_header_bytes, hrest, hlen, htmp]
  rw [length_header_bytes, hmem, ← hcleared]
  exact hroom

end Handle

namespace Handle

variable {h h' : Handle}

theorem commitImage_take (hm : h.Mapped) (high : Bool) :
    (h.commitImage high).take h.offset = h.mmap.take h.offset ∧
      (h.commitImage high).length = h.length := by
  have hroom : h.offset + headerSize ≤ h.mmap.length := by
    rw [hm.length_eq]
    exact Nat.le_trans (Nat.add_le_add_left (by decide) _) hm.room
  have hpos : h.offset ≤ h.mmap.length := Nat.le_trans (Nat.le_add_right _ _) hroom
  have hcleared : ∀ bytes, (overwrite h.mmap (h.offset + headerSize) bytes).length =
      h.mmap.length := fun bytes => length_overwrite _ _ hroom
  have hmem : ∀ bytes bytes', (overwrite (overwrite h.mmap (h.offset + headerSize) bytes)
      (h.offset + headerSize) bytes').length = h.mmap.length := by
    intro bytes bytes'
    rw [length_overwrite _ _ (by rw [hcleared]; exact hroom), hcleared]
  simp only [commitImage]
  constructor
  · rw [take_overwrite _ _ (Nat.le_refl _) (by rw [hmem]; exact hpos),
      take_overwrite _ _ (Nat.le_add_right _ _) (by rw [hcleared]; exact hroom),
      take_overwrite _ _ (Nat.le_add_right _ _) hroom]
  · rw [length_overwrite _ _ (by rw [hmem]; exact hpos), hmem, hm.length_eq]

/-- A partition with the handle's magic first where the handle has it is opened there. -/
theorem openArea_eq {area : List UInt8} (signed rdonly : Bool) (hm : h.Mapped)
    (hlength : area.length = h.length) (htake : area.take h.offset = h.mmap.take h.offset)
    (hmagic : ofLe32 (area.drop h.offset) = magic) :
    openArea signed area rdonly =
      if rdonly || (Header.ofBytes (area.drop h.offset)).len.toNat < h.length - h.offset then
        (Handle.mk signed area h.length h.offset .empty []).rehash
      else none := by
  obtain ⟨i, hi⟩ := dvd_of_mod_eq_zero hm.aligned
  have hroom := hm.room
  have hsmall := hm.small
  have hfind : (range ((h.length - minSpace) / 4 + 1)).find? (fun i =>
      ofLe32 (area.drop (4 * i)) = magic) = some i := by
    rw [find?_range_eq_some]
    refine ⟨by simpa [hi] using hmagic, mem_range.mpr (by omega), fun j hj => ?_⟩
    have hword : ∀ l : List UInt8, ofLe32 (l.drop (4 * j)) =
        ofLe32 ((l.take h.offset).drop (4 * j)) := by
      intro l
      rw [drop_take, ofLe32_take (by omega)]
    have hne := hm.first j (by omega)
    rw [hword, ← htake, ← hword] at hne
    simpa using hne
  rw [openArea, hlength, if_neg (by omega), hfind, Option.bind_some, ← hi]
  rfl

end Handle

namespace Handle

variable {h h' : Handle}

/-! ## What comes back -/

theorem setPairs_rest (h : Handle) (pairs : List (CString × CString)) :
    ∃ hash, pairs.foldl (fun h p => (h.set p.1 p.2).2) h = { h with hash := hash } := by
  induction pairs generalizing h with
  | nil => exact ⟨h.hash, rfl⟩
  | cons p pairs ih =>
    obtain ⟨hash, hset⟩ := set_rest h p.1 p.2
    obtain ⟨hash', hrest⟩ := ih (h.set p.1 p.2).2
    rw [foldl_cons, hrest, hset]
    exact ⟨hash', rfl⟩

theorem rehash_rest (hre : h.rehash = some h') :
    ∃ hash, h' = { h with hash := hash, dead := [] } := by
  obtain ⟨pairs, -, rfl⟩ := Option.map_eq_some_iff.mp hre
  obtain ⟨hash, hpairs⟩ := setPairs_rest h.free pairs
  obtain ⟨hash', hsdram⟩ := setSdram_rest (pairs.foldl (fun h p => (h.set p.1 p.2).2) h.free)
  rw [hsdram, hpairs]
  exact ⟨hash', rfl⟩

/-- Pairs with room for their values are set in the chains one after the other. -/
theorem hash_setPairs {pairs : List (CString × CString)} (hroom : ∀ p ∈ pairs, h.HasRoom p.2) :
    pairs.foldl (fun h p => (h.set p.1 p.2).2) h = { h with
      hash := pairs.foldl (fun t p => t.set (chainOf h.signed) p.1 p.2) h.hash } := by
  induction pairs generalizing h with
  | nil => rfl
  | cons p pairs ih =>
    have hfirst : (h.set p.1 p.2).2 = { h with
        hash := h.hash.set (chainOf h.signed) p.1 p.2 } := by
      rw [set, if_pos (hroom p mem_cons_self)]
    have hrest := @ih { h with hash := h.hash.set (chainOf h.signed) p.1 p.2 }
      fun q hq => hroom q (mem_cons_of_mem _ hq)
    rw [foldl_cons, foldl_cons, hfirst]
    exact hrest

/-- The handle gives back the pairs behind the header. -/
theorem rehash_pairs (hwf : h.Wf) (hfits : h.Fits) (hnames : ∀ t ∈ h.hash.pairs, 61 ∉ t.1.val)
    {area rest : List UInt8}
    (hdata : area.drop (h.offset + headerSize) = h.hash.pairs.flatMap tupleBytes ++ 0 :: rest) :
    ∃ h', (Handle.mk h.signed area h.length h.offset .empty []).rehash = some h' ∧
      ∀ name, name ∉ sdramNames ∨ (h.get name).isSome → h'.get name = h.get name := by
  set opened := Handle.mk h.signed area h.length h.offset .empty []
  have hparse : parse (opened.data.length + 1) opened.data = some h.hash.pairs := by
    have hlen := length_le_length_flatMap h.hash.pairs
    rw [show opened.data = _ from hdata]
    exact parse_tuples hnames (by rw [length_append]; omega) rest
  refine ⟨_, by rw [rehash, hparse]; rfl, fun name hkeep => ?_⟩
  have hroom : ∀ t ∈ h.hash.pairs, opened.free.HasRoom t.2 := by
    intro t ht
    have hle := length_le_flatMap ht
    rw [length_tupleBytes] at hle
    have hused : h.used ≤ h.length - h.offset := hfits
    rw [used] at hused
    show t.2.length + 1 ≤ h.length - h.offset
    omega
  have hget : (h.hash.pairs.foldl (fun h p => (h.set p.1 p.2).2) opened.free).get name =
      h.get name := by
    rw [hash_setPairs hroom]
    exact Chains.Wf.get_refill hwf name
  rw [get_setSdram (by rw [hget]; exact hkeep), hget]

/-! ## Commits -/

/-- A commit that keeps its promise: after a success the partition is opened again with the same
    pairs, but for SDRAM parameters that were not there, and with a header that has the checksum
    and the length; pairs that do not fit are refused and leave the partition as it was. -/
def CommitOk (high : Bool) (h : Handle) : Prop :=
  ∃ stat h', h.commit high = some (stat, h') ∧
    (stat = 0 → ∀ rdonly, ∃ h'', openArea h.signed h'.mmap rdonly = some h'' ∧
      (∀ name, name ∉ sdramNames ∨ (h.get name).isSome → h''.get name = h.get name) ∧
      h''.headerCrc = h''.infoCrc ∧ h''.header.len.toNat = roundup h.used) ∧
    (¬ h.Fits → stat ≠ 0 ∧ h'.mmap = h.mmap)

theorem openArea_mapped {signed rdonly : Bool} {area : List UInt8}
    (hopen : openArea signed area rdonly = some h) : h.Mapped := by
  obtain ⟨hmin, hmax, i, hfind, hre⟩ := openArea_eq_some hopen
  rw [find?_range_eq_some] at hfind
  obtain ⟨-, hmem, hbefore⟩ := hfind
  rw [mem_range] at hmem
  obtain ⟨hash, rfl⟩ := rehash_rest hre
  refine ⟨rfl, ?_, hmax, ?_, fun j hj => ?_⟩
  · show 4 * i + minSpace ≤ area.length
    omega
  · show 4 * i % 4 = 0
    omega
  · have hne := hbefore j (by
      have : 4 * j < 4 * i := hj
      omega)
    simpa using hne

theorem Mapped.run (hm : h.Mapped) (calls : List Call) : (h.run calls).Mapped := by
  obtain ⟨hmmap, hlength, hoffset⟩ := run_area h calls
  exact ⟨by rw [hmmap, hlength, hm.length_eq], by rw [hoffset, hlength]; exact hm.room,
    by rw [hlength]; exact hm.small, by rw [hoffset]; exact hm.aligned,
    by rw [hoffset, hmmap]; exact hm.first⟩

theorem openArea_image (hm : h.Mapped) (hfits : h.Fits) (high rdonly : Bool) :
    openArea h.signed (h.commitImage high) rdonly =
      if rdonly || roundup h.used < h.length - h.offset then
        (Handle.mk h.signed (h.commitImage high) h.length h.offset .empty []).rehash
      else none := by
  obtain ⟨htake, hlength⟩ := commitImage_take hm high
  obtain ⟨rest, crc, hdrop, -⟩ := commitImage_drop hm high hfits
  have hused : h.used ≤ h.length - h.offset := hfits
  have hsmall := hm.small
  have hlen : (BitVec.ofNat 32 (roundup h.used)).toNat = roundup h.used := by
    rw [BitVec.toNat_ofNat, mod_eq_of_lt]
    rw [roundup]
    omega
  have hmagic : (Header.ofBytes ((h.commitImage high).drop h.offset)).magic = magic := by
    rw [hdrop, ofBytes_header]
    exact regenerate_magic h
  rw [openArea_eq h.signed rdonly hm hlength htake hmagic, hdrop, ofBytes_header]
  dsimp only
  rw [hlen]

theorem hndcrc8_append (a b : List UInt8) (crc : UInt8) :
    hndcrc8 (a ++ b) crc = hndcrc8 b (hndcrc8 a crc) := foldl_append

theorem headerCrc_eq (h : Handle) : h.headerCrc = ofNat h.header.crcVerInit.toNat := by
  apply UInt8.toNat.inj
  have hmask : (h.header.crcVerInit &&& 0xff).toNat = h.header.crcVerInit.toNat % 2 ^ 8 := by
    rw [BitVec.toNat_and]
    exact and_two_pow_sub_one_eq_mod _ 8
  rw [headerCrc, hmask, toNat_ofNat', toNat_ofNat', mod_mod]

/-- The checksum of a header and the data behind it, in two steps. -/
theorem infoCrc_eq {hd : Header} {body : List UInt8} {crc : UInt8} {len : BitVec 32}
    (hlow : hd.crcVerInit.toNat % 2 ^ 8 = 0) (hlen : headerSize ≤ len.toNat)
    (hmmap : h.mmap.drop h.offset = Header.bytes { hd with
      len := len, crcVerInit := hd.crcVerInit ||| BitVec.ofNat 32 crc.toNat } ++ body) :
    h.headerCrc = crc ∧ h.infoCrc = hndcrc8 (body.take (len.toNat - headerSize))
      (hndcrc8 (hd.bytes.drop crcStartPosition) 0xff) := by
  have hheader : h.header = { hd with
      len := len, crcVerInit := hd.crcVerInit ||| BitVec.ofNat 32 crc.toNat } := by
    rw [header, hmmap, ofBytes_header]
  constructor
  · have hbyte := (List.cons.inj (le32_or crc hlow)).1
    rw [headerCrc_eq, hheader]
    exact hbyte
  · have hdrop : h.mmap.drop (h.offset + crcStartPosition) =
        hd.bytes.drop crcStartPosition ++ body := by
      rw [← drop_drop, hmmap, drop_header_bytes _ _ _ _ hlow]
      rfl
    have hcount : (hd.bytes.drop crcStartPosition).length = headerSize - crcStartPosition := by
      rw [length_drop, length_header_bytes]
    have hsplit : len.toNat - crcStartPosition =
        (hd.bytes.drop crcStartPosition).length + (len.toNat - headerSize) := by
      rw [hcount]
      simp only [headerSize, crcStartPosition] at hlen ⊢
      omega
    rw [infoCrc, hdrop, hheader]
    dsimp only
    rw [hsplit, take_length_add_append, hndcrc8_append]

/-- Pairs that do not fit are lost, and where there is hardly room behind them the partition is
    not opened for writing again. -/
theorem lt_of_commitOk (hm : h.Mapped) {high : Bool} (hok : CommitOk high h) :
    roundup h.used < h.length - h.offset := by
  obtain ⟨stat, h', hcommit, hok, hrefused⟩ := hok
  obtain ⟨h₁, hre, heq⟩ := Option.map_eq_some_iff.mp hcommit
  obtain ⟨rfl, rfl⟩ := Prod.mk.inj heq
  have hfits : h.Fits := by
    by_contra hno
    exact (hrefused hno).1 rfl
  obtain ⟨hash, hmmap⟩ := rehash_rest hre
  obtain ⟨h'', hopen', -⟩ := hok rfl false
  have himage : h₁.mmap = h.commitImage high := by rw [hmmap]
  rw [himage, openArea_image hm hfits] at hopen'
  by_contra hno
  simp [hno] at hopen'

theorem commitOk_of_lt (hm : h.Mapped) (hwf : h.Wf) (hnames : ∀ t ∈ h.hash.pairs, 61 ∉ t.1.val)
    (hlt : roundup h.used < h.length - h.offset) (high : Bool) : CommitOk high h := by
  have hfits : h.Fits := by
    rw [Fits]
    rw [roundup] at hlt
    omega
  obtain ⟨rest, crc, hdrop, hcrc⟩ := commitImage_drop hm high hfits
  have hdata : (h.commitImage high).drop (h.offset + headerSize) =
      h.hash.pairs.flatMap tupleBytes ++ 0 :: rest := by
    rw [← drop_drop, hdrop, drop_left' (length_header_bytes _)]
  obtain ⟨h'', hre, hget⟩ := rehash_pairs hwf hfits hnames hdata
  obtain ⟨hash, hrest⟩ := rehash_rest hre
  have himage : h''.mmap.drop h''.offset = (h.commitImage high).drop h.offset := by rw [hrest]
  have hlen : (BitVec.ofNat 32 (roundup h.used)).toNat = roundup h.used := by
    have hsmall := hm.small
    rw [BitVec.toNat_ofNat, mod_eq_of_lt]
    omega
  have hheader : headerSize ≤ (BitVec.ofNat 32 (roundup h.used)).toNat := by
    rw [hlen, roundup, used]
    omega
  obtain ⟨hstored, hinfo⟩ := infoCrc_eq (regenerate_low h) hheader (himage.trans hdrop)
  rw [hlen, ← hcrc] at hinfo
  refine ⟨0, h'', ?_, fun _ rdonly => ⟨h'', ?_, hget, hstored.trans hinfo.symm, ?_⟩,
    fun hno => absurd hfits hno⟩
  · exact congrArg (Option.map fun h => ((0 : Int), h)) hre
  · rw [show h''.mmap = h.commitImage high by rw [hrest], openArea_image hm hfits, hre]
    simp [hlt]
  · rw [header, himage, hdrop, ofBytes_header]
    exact hlen

def longValue : CString := ⟨replicate 32767 65, fun hmem =>
  absurd (eq_of_mem_replicate hmem) (by decide)⟩

end Handle

end LibWrt.Nvram
