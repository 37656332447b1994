/-
LibWrt.Nmbm.Image — the image of the info tables.

`nmbm_generate_info_table_cache` copies the state table, the mapping table and
the header over a buffer of `0xff` and puts the checksum into the header. For
an instance with the sizes and offsets of its chip (`Sized`) the image passes
the checks of the loader, and the loader's view of it gives the tables back.
-/
import LibWrt.Nmbm.Attach

namespace LibWrt.Nmbm

open BitVec (toNat_ofNat toNat_sub)
open List LibWrt.Nmbm.Geometry InfoTableHeader Nat
open LibWrt.Bytes LibWrt.Crc32

variable {g : Geometry}

/-! ## Sizes -/

theorem le_align {size unit : Nat} (h : 0 < unit) : size ≤ align size unit := by
  have := div_add_mod (size + unit - 1) unit
  have := mod_lt (size + unit - 1) h
  unfold align
  rw [Nat.mul_comm]
  omega

theorem align_le {size unit : Nat} (h : 0 < unit) : align size unit < size + unit := by
  have := div_mul_le_self (size + unit - 1) unit
  unfold align
  omega

theorem pgSize_ge (g : Geometry) : 64 ≤ g.pgSize := by
  have : 2 ^ 6 ≤ 2 ^ g.pgShift := Nat.pow_le_pow_right (by decide) g.pgShift_ge
  unfold pgSize
  omega

theorem pgSize_le_blkSize (g : Geometry) : g.pgSize ≤ g.blkSize :=
  Nat.pow_le_pow_right (by decide) g.pgShift_le

theorem blkSize_lt (g : Geometry) : g.blkSize < 2 ^ 28 :=
  Nat.pow_lt_pow_right (by decide) g.blkShift_lt

/-- The tables lie behind the header, one behind the other, inside the image. -/
theorem layout_of_image (g : Geometry) :
    infoTableHeaderSize ≤ g.stateTableOff ∧
    g.stateTableOff + g.stateTableSize ≤ g.mappingTableOff ∧
    g.mappingTableOff + g.mappingTableSize ≤ g.infoTableSize ∧ g.infoTableSize < 2 ^ 32 := by
  have hpg := pgSize_ge g
  have hle := pgSize_le_blkSize g
  have hlt := blkSize_lt g
  have hblk := g.totalBlks_lt
  have h₁ : infoTableHeaderSize ≤ align infoTableHeaderSize g.pgSize := le_align (by omega)
  have h₂ : g.stateTableSize ≤ align g.stateTableSize g.pgSize := le_align (by omega)
  have h₃ : g.mappingTableSize ≤ align g.mappingTableSize g.pgSize := le_align (by omega)
  have h₁' : align infoTableHeaderSize g.pgSize < infoTableHeaderSize + g.pgSize :=
    align_le (by omega)
  have h₂' : align g.stateTableSize g.pgSize < g.stateTableSize + g.pgSize := align_le (by omega)
  have h₃' : align g.mappingTableSize g.pgSize < g.mappingTableSize + g.pgSize :=
    align_le (by omega)
  have hstate : g.stateTableSize ≤ 2 ^ 14 + 4 := by unfold stateTableSize; omega
  have hmapping : g.mappingTableSize < 2 ^ 18 := by unfold mappingTableSize; omega
  refine ⟨h₁, ?_, ?_, ?_⟩
  · unfold Geometry.mappingTableOff; omega
  · unfold infoTableSize; omega
  · unfold infoTableSize Geometry.mappingTableOff Geometry.stateTableOff
      infoTableHeaderSize at *
    omega

/-- The instance has the sizes and offsets `nmbm_init_structure` gives it. -/
structure Sized (g : Geometry) (ni : Instance) : Prop where
  stateTableOff : ni.infoTable.stateTableOff = BitVec.ofNat 32 g.stateTableOff
  mappingTableOff : ni.infoTable.mappingTableOff = BitVec.ofNat 32 g.mappingTableOff
  blockState : 4 * ni.blockState.length = g.stateTableSize
  blockMapping : 4 * ni.blockMapping.length = g.mappingTableSize

theorem initStructure_sized (ni : Instance) : Sized g (initStructure g ni) where
  stateTableOff := rfl
  mappingTableOff := rfl
  blockState := by
    simp only [initStructure, length_replicate, stateTableSize]
    omega
  blockMapping := by
    simp only [initStructure, length_replicate, mappingTableSize]
    omega

/-! ## Copies -/

theorem length_memcpy {buf data : Bytes} {off : Nat} (h : off + data.length ≤ buf.length) :
    (memcpy buf off data).length = buf.length := by
  simp only [memcpy, length_append, length_take, length_drop]
  omega

theorem drop_memcpy {buf data : Bytes} {off : Nat} (h : off ≤ buf.length) :
    (memcpy buf off data).drop off = data ++ buf.drop (off + data.length) := by
  unfold memcpy
  rw [append_assoc, drop_append_of_le_length (by simp; omega), drop_take_self,
    nil_append]

/-! ## The image -/

def tableBuffer (g : Geometry) (ni : Instance) : Bytes :=
  memcpy (memcpy (replicate g.infoTableSize 0xff) ni.infoTable.stateTableOff.toNat
    (ni.blockState.flatMap le32)) ni.infoTable.mappingTableOff.toNat
    (ni.blockMapping.flatMap le32)

theorem stateTableOff_toNat {ni : Instance} (h : Sized g ni) :
    ni.infoTable.stateTableOff.toNat = g.stateTableOff := by
  have := layout_of_image g
  rw [h.stateTableOff, toNat_ofNat, mod_eq_of_lt (by omega)]

theorem mappingTableOff_toNat {ni : Instance} (h : Sized g ni) :
    ni.infoTable.mappingTableOff.toNat = g.mappingTableOff := by
  have := layout_of_image g
  rw [h.mappingTableOff, toNat_ofNat, mod_eq_of_lt (by omega)]

section Tables

variable {ni : Instance} (h : Sized g ni)

include h

/-- The buffer when the state table is in it, and then the mapping table. -/
theorem tableBuffer_eq : ∃ buf,
    buf = memcpy (replicate g.infoTableSize 0xff) g.stateTableOff (ni.blockState.flatMap le32) ∧
    buf.length = g.infoTableSize ∧
    tableBuffer g ni = memcpy buf g.mappingTableOff (ni.blockMapping.flatMap le32) := by
  have hl := layout_of_image g
  have hst := h.blockState
  refine ⟨_, rfl, ?_, ?_⟩
  · rw [length_memcpy, length_replicate]
    rw [length_flatMap_le32, length_replicate]; omega
  · rw [tableBuffer, stateTableOff_toNat h, mappingTableOff_toNat h]

theorem length_tableBuffer : (tableBuffer g ni).length = g.infoTableSize := by
  have hl := layout_of_image g
  have hmp := h.blockMapping
  obtain ⟨buf, -, hlen, htable⟩ := tableBuffer_eq h
  rw [htable, length_memcpy, hlen]
  rw [length_flatMap_le32]; omega

/-- The mapping table in the buffer. -/
theorem drop_mapping_tableBuffer : ∃ rest,
    (tableBuffer g ni).drop g.mappingTableOff = ni.blockMapping.flatMap le32 ++ rest := by
  have hl := layout_of_image g
  have hst := h.blockState
  obtain ⟨buf, hbuf, hlen, htable⟩ := tableBuffer_eq h
  rw [htable]
  exact ⟨_, drop_memcpy (by omega)⟩

/-- The state table in the buffer: the mapping table lies behind it. -/
theorem drop_state_tableBuffer : ∃ rest,
    (tableBuffer g ni).drop g.stateTableOff = ni.blockState.flatMap le32 ++ rest := by
  have hl := layout_of_image g
  have hst := h.blockState
  obtain ⟨buf, hbuf, hlen, htable⟩ := tableBuffer_eq h
  rw [htable]
  have hdrop : ∃ rest, buf.drop g.stateTableOff = ni.blockState.flatMap le32 ++ rest := by
    rw [hbuf]
    exact ⟨_, drop_memcpy (by rw [length_replicate]; omega)⟩
  obtain ⟨rest, hrest⟩ := hdrop
  -- what the copy of the mapping table leaves in front of it
  refine ⟨rest.take (g.mappingTableOff - g.stateTableOff - (ni.blockState.flatMap le32).length) ++
    (ni.blockMapping.flatMap le32 ++
      buf.drop (g.mappingTableOff + (ni.blockMapping.flatMap le32).length)), ?_⟩
  have hfront : (buf.take g.mappingTableOff).drop g.stateTableOff =
      ni.blockState.flatMap le32 ++
        rest.take (g.mappingTableOff - g.stateTableOff - (ni.blockState.flatMap le32).length) := by
    rw [drop_take, hrest, take_append, take_of_length_le]
    rw [length_flatMap_le32]
    omega
  unfold memcpy
  rw [append_assoc, drop_append_of_le_length (by rw [length_take]; omega), hfront,
    append_assoc]

end Tables

def imageHeader (g : Geometry) (ni : Instance) : InfoTableHeader :=
  (generateInfoTableCache g ni).2.infoTable

def image (g : Geometry) (ni : Instance) : Bytes := (generateInfoTableCache g ni).2.infoTableCache

def imageTail (g : Geometry) (ni : Instance) : Bytes :=
  [(imageHeader g ni).writeCount, (imageHeader g ni).stateTableOff,
    (imageHeader g ni).mappingTableOff, (imageHeader g ni).padding].flatMap le32 ++
  (tableBuffer g ni).drop infoTableHeaderSize

def imageFront (g : Geometry) : Bytes :=
  [magicInfoTable, nmbmVer, BitVec.ofNat 32 g.infoTableSize].flatMap le32

@[simp] theorem length_imageFront (g : Geometry) : (imageFront g).length = 12 := rfl

section Image

variable {ni : Instance} (h : Sized g ni)

include h

theorem length_imageTail : (imageTail g ni).length = g.infoTableSize - headerSize := by
  have hl := layout_of_image g
  unfold imageTail headerSize infoTableHeaderSize at *
  rw [length_append, length_flatMap_le32, length_drop, length_tableBuffer h]
  simp only [length_cons, length_nil]
  omega

/-- The image, with the checksum over all of it but the checksum itself. -/
theorem image_eq : image g ni =
    imageFront g ++ (le32 (crc32Le 0 (imageFront g ++ (le32 0 ++ imageTail g ni))) ++
      imageTail g ni) := by
  have hl := layout_of_image g
  have htail := length_imageTail h
  -- the buffer with the header copied over its start
  have hcopy : memcpy (tableBuffer g ni) 0 (imageHeader g ni).toBytes =
      imageFront g ++ (le32 (imageHeader g ni).header.checksum ++ imageTail g ni) := by
    unfold memcpy imageTail imageFront
    simp [toBytes, Header.toBytes, imageHeader, generateInfoTableCache,
      infoTableHeaderSize]
  have himage : image g ni =
      updateChecksum (memcpy (tableBuffer g ni) 0 (imageHeader g ni).toBytes) := rfl
  rw [himage, hcopy]
  unfold updateChecksum
  dsimp only
  have htake : (imageFront g ++ (le32 (imageHeader g ni).header.checksum ++ imageTail g ni)).take
      12 = imageFront g := take_left' rfl
  have hdrop : (imageFront g ++ (le32 (imageHeader g ni).header.checksum ++ imageTail g ni)).drop
      headerSize = imageTail g ni := by
    rw [← append_assoc]
    exact drop_left' rfl
  have hsize : (ofLe32 ((imageFront g ++ (le32 (imageHeader g ni).header.checksum ++
      imageTail g ni)).drop 8)).toNat = g.infoTableSize := by
    have hfront : (imageFront g).drop 8 = le32 (BitVec.ofNat 32 g.infoTableSize) := rfl
    rw [drop_append_of_le_length (by simp), hfront, ofLe32_le32, toNat_ofNat,
      mod_eq_of_lt hl.2.2.2]
  rw [htake, hdrop, hsize, take_of_length_le]
  · simp only [append_assoc]
  · simp only [length_append, length_imageFront, length_le32, htail]
    unfold headerSize infoTableHeaderSize at *
    omega

theorem length_image : (image g ni).length = g.infoTableSize := by
  have hl := layout_of_image g
  have htail := length_imageTail h
  rw [image_eq h]
  simp only [length_append, length_imageFront, length_le32, htail]
  unfold headerSize infoTableHeaderSize at *
  omega

/-! ## What the loader sees -/

theorem drop_header_image : (image g ni).drop headerSize = imageTail g ni := by
  rw [image_eq h, ← append_assoc]
  exact drop_left' rfl

theorem header_image : Header.ofBytes (image g ni) =
    { magic := magicInfoTable
      version := nmbmVer
      size := BitVec.ofNat 32 g.infoTableSize
      checksum := crc32Le 0 (imageFront g ++ (le32 0 ++ imageTail g ni)) } := by
  rw [image_eq h]
  generalize crc32Le 0 (imageFront g ++ (le32 0 ++ imageTail g ni)) = crc
  generalize imageTail g ni = tail
  unfold imageFront Header.ofBytes
  simp only [flatMap_cons, flatMap_nil, append_nil, append_assoc]
  rw [ofLe32_le32, drop_le32 _ 0, drop_le32 _ 4, drop_le32 _ 0, drop_le32 _ 8, drop_le32 _ 4,
    drop_le32 _ 0]
  simp only [drop_zero, ofLe32_le32]

/-- The image passes the check of its checksum. -/
theorem checkHeader_image : checkHeader (image g ni) g.infoTableSize = true := by
  have hl := layout_of_image g
  have htail := length_imageTail h
  have hsize : (BitVec.ofNat 32 g.infoTableSize).toNat = g.infoTableSize := by
    rw [toNat_ofNat, mod_eq_of_lt hl.2.2.2]
  have hbig : g.infoTableSize > headerSize := by
    unfold headerSize infoTableHeaderSize at *
    omega
  have htake : (imageTail g ni).take (g.infoTableSize - headerSize) = imageTail g ni :=
    take_of_length_le (le_of_eq htail)
  unfold checkHeader
  simp only [header_image h, hsize, drop_header_image h, htake, if_pos hbig, le_refl, decide_true,
    Bool.true_and, beq_iff_eq]
  rw [← crc32Le_append]
  simp only [Header.toBytes, imageFront, flatMap_cons, flatMap_nil, append_nil,
    append_assoc]

/-- The fields of the header behind the part all headers share. -/
theorem infoTableHeader_image : ofBytes (image g ni) =
    { header := Header.ofBytes (image g ni)
      writeCount := (imageHeader g ni).writeCount
      stateTableOff := BitVec.ofNat 32 g.stateTableOff
      mappingTableOff := BitVec.ofNat 32 g.mappingTableOff
      padding := (imageHeader g ni).padding } := by
  have hstate : (imageHeader g ni).stateTableOff = BitVec.ofNat 32 g.stateTableOff :=
    h.stateTableOff
  have hmapping : (imageHeader g ni).mappingTableOff = BitVec.ofNat 32 g.mappingTableOff :=
    h.mappingTableOff
  have hdrop (n : Nat) : (image g ni).drop (n + 16) = (imageTail g ni).drop n := by
    rw [Nat.add_comm, ← drop_drop, ← drop_header_image h]
    rfl
  unfold ofBytes
  rw [hdrop 0, hdrop 4, hdrop 8, hdrop 12]
  generalize Header.ofBytes (image g ni) = header
  unfold imageTail
  generalize (tableBuffer g ni).drop infoTableHeaderSize = rest
  simp only [flatMap_cons, flatMap_nil, append_nil, append_assoc]
  rw [drop_le32 _ 0, drop_le32 _ 4, drop_le32 _ 0, drop_le32 _ 8, drop_le32 _ 4, drop_le32 _ 0]
  simp only [drop_zero, ofLe32_le32, hstate, hmapping]

/-- The header alone makes the check, so the first block of the image passes it. -/
theorem checkInfoTableHeader_take {n : Nat} (hn : infoTableHeaderSize ≤ n) :
    checkInfoTableHeader g ((image g ni).take n) = true := by
  have hl := layout_of_image g
  have hlen := length_image h
  have hfields : ofBytes ((image g ni).take n) =
      ofBytes (image g ni) := by
    unfold infoTableHeaderSize at hn
    unfold ofBytes Header.ofBytes
    simp only [drop_take]
    repeat rw [ofLe32_take (by omega)]
  unfold checkInfoTableHeader
  rw [hfields, infoTableHeader_image h, header_image h]
  have hstate : (BitVec.ofNat 32 g.mappingTableOff - BitVec.ofNat 32 g.stateTableOff).toNat =
      g.mappingTableOff - g.stateTableOff := by
    rw [toNat_sub, toNat_ofNat, toNat_ofNat]
    omega
  have hmapping : (BitVec.ofNat 32 g.infoTableSize - BitVec.ofNat 32 g.mappingTableOff).toNat =
      g.infoTableSize - g.mappingTableOff := by
    rw [toNat_sub, toNat_ofNat, toNat_ofNat]
    omega
  simp only [hstate, hmapping, beq_self_eq_true, Bool.true_and, Bool.and_eq_true,
    Bool.not_eq_true', decide_eq_false_iff_not]
  omega

theorem drop_image {off : Nat} (hoff : infoTableHeaderSize ≤ off) :
    (image g ni).drop off = (tableBuffer g ni).drop off := by
  obtain ⟨k, rfl⟩ := Nat.exists_eq_add_of_le hoff
  have hsplit : infoTableHeaderSize + k = headerSize + (headerSize + k) := by
    unfold infoTableHeaderSize headerSize
    omega
  rw [hsplit, ← drop_drop, drop_header_image h, imageTail, ← drop_drop,
    drop_left' (by rfl), ← hsplit, drop_drop]

theorem imageStates_image : imageStates g (image g ni) = ni.blockState := by
  have hl := layout_of_image g
  have hsize := h.blockState
  have hoff : (ofBytes (image g ni)).stateTableOff.toNat = g.stateTableOff := by
    rw [infoTableHeader_image h, toNat_ofNat, mod_eq_of_lt (by omega)]
  have hcount : g.stateTableSize / 4 = ni.blockState.length := by omega
  obtain ⟨rest, hrest⟩ := drop_state_tableBuffer h
  unfold imageStates
  rw [hoff, drop_image h hl.1, hrest, hcount, words_flatMap_le32]

theorem imageMapping_image : imageMapping g (image g ni) = ni.blockMapping := by
  have hl := layout_of_image g
  have hsize := h.blockMapping
  have hoff : (ofBytes (image g ni)).mappingTableOff.toNat =
      g.mappingTableOff := by
    rw [infoTableHeader_image h, toNat_ofNat, mod_eq_of_lt (by omega)]
  have hcount : g.totalBlks = ni.blockMapping.length := by
    unfold mappingTableSize at hsize
    omega
  obtain ⟨rest, hrest⟩ := drop_mapping_tableBuffer h
  unfold imageMapping
  rw [hoff, drop_image h (by omega), hrest, hcount, words_flatMap_le32]

end Image

end LibWrt.Nmbm
