/-
LibWrt.Bcm4908img.Create — images that are created, and parsed again.

The checksum is carried on over the files that are appended, but not over the
zeros between them. So what the parser computes is another one, as soon as
zeros are appended that the checksum does not happen to be blind for.
-/
import LibWrt.Bcm4908img.Parse

namespace LibWrt.Bcm4908img

open List Option Nat
open LibWrt.Bytes
open LibWrt.Crc32 (crc32Le)
open LibWrt.Loop

/-- An option of `create`. A file may not be there; numbers are of the type `long`. -/
inductive CreateOpt where
  | file (bytes : Option (List UInt8))
  | align (alignment : BitVec 64)
  | offset (offset : BitVec 64)

structure Creation where
  trx : List UInt8
  crc32 : BitVec 32
  curOffset : Nat

def creationStart : Creation := { trx := [], crc32 := 0xffffffff, curOffset := 0 }

/-- `malloc` says whether there is so much memory. -/
def appendZeros (malloc : Nat → Bool) (s : Creation) (length : Nat) : Creation :=
  if malloc length then
    { s with trx := s.trx ++ replicate length 0, curOffset := s.curOffset + length }
  else s

def appendFile (s : Creation) (bytes : List UInt8) : Creation where
  trx := s.trx ++ bytes
  crc32 := crc32Le s.crc32 bytes
  curOffset := s.curOffset + bytes.length

/-- Nothing comes of a division by zero. -/
def createOpt (malloc : Nat → Bool) (s : Creation) : CreateOpt → Option Creation
  | .file none => some s
  | .file (some bytes) => some (appendFile s bytes)
  | .align alignment =>
    if BitVec.ofNat 64 s.curOffset &&& (alignment - 1) ≠ 0 then
      if alignment = 0 then none
      else some (appendZeros malloc s (alignment.toNat - s.curOffset % alignment.toNat))
    else some s
  | .offset offset =>
    let bytes := (offset - BitVec.ofNat 64 s.curOffset).toInt
    if bytes < 0 then some s else some (appendZeros malloc s bytes.toNat)

def createOpts (malloc : Nat → Bool) : Creation → List CreateOpt → Option Creation
  | s, [] => some s
  | s, opt :: opts => (createOpt malloc s opt).bind fun s => createOpts malloc s opts

def tailBytes (crc32 : BitVec 32) : List UInt8 :=
  le32 crc32 ++ le32 0x5732 ++ le32 0x4908 ++ le32 3 ++ le32 2

def bcm4908imgCreate (malloc : Nat → Bool) (opts : List CreateOpt) : Option (List UInt8) :=
  (createOpts malloc creationStart opts).map fun s => s.trx ++ tailBytes s.crc32

/-! ## What is said of an image -/

/-- The image is made and accepted, its parts are in order, and the firmware is what is between
the bootfs and the tail. -/
def Agrees (malloc : Nat → Bool) (opts : List CreateOpt) : Prop :=
  ∃ image, bcm4908imgCreate malloc opts = some image ∧
    ∃ info, Gives (bcm4908imgParse image) (.ok info) ∧
      info.cferomOffset ≤ info.bootfsOffset ∧ info.bootfsOffset < info.rootfsOffset ∧
      info.rootfsOffset < info.tailOffset ∧
      (info.paddingOffset ≠ 0 →
        info.bootfsOffset < info.paddingOffset ∧ info.paddingOffset < info.rootfsOffset) ∧
      bcm4908imgExtract image info .firmware =
        .ok (fread image info.bootfsOffset (info.tailOffset - info.bootfsOffset))

def HasImage (content : List UInt8) : Prop :=
  ∃ j k, j < k ∧ jffs2At content (j * blockLen) = true ∧ ubiAt content (k * blockLen) = true

/-- What the parser takes for a vendor header or a vendor tail. -/
def Vendor (content : List UInt8) : Prop :=
  ofWord32 true content 0 = 0x2a23245e ∨
    fread content (content.length - (linksysTailLen - tailLen)) LINKSYS_MAGIC.length = LINKSYS_MAGIC

/-- There is a padding block in front of the rootfs, or enough of the rootfs to be read. -/
def Readable (content : List UInt8) : Prop :=
  ∃ bootfs rootfs padding, BootfsAt content 0 content.length bootfs ∧
    RootfsAt content bootfs content.length rootfs padding ∧
    (padding ≠ 0 ∨ rootfs + (256 - tailLen) ≤ content.length)

def optBytes : CreateOpt → List UInt8
  | .file (some bytes) => bytes
  | _ => []

def fileBytes (opts : List CreateOpt) : List UInt8 := opts.flatMap optBytes

section Create

variable {content : List UInt8}

/-! ## Parts of a content -/

variable {file rest : List UInt8} {tail bootfs offset rootfs padding : Nat} {malloc : Nat → Bool}
  {s : Creation} {opts : List CreateOpt}

theorem BootfsAt.unique {cferom a b : Nat} (ha : BootfsAt file cferom tail a)
    (hb : BootfsAt file cferom tail b) : a = b := by
  obtain ⟨k, rfl, -, hk, hbefore⟩ := ha
  obtain ⟨l, rfl, -, hl, hbefore'⟩ := hb
  rcases Nat.lt_trichotomy k l with hlt | rfl | hlt
  · rw [hbefore' k hlt] at hk
    cases hk
  · rfl
  · rw [hbefore l hlt] at hl
    cases hl

theorem RootfsAt.unique {a b p q : Nat} (ha : RootfsAt file bootfs tail a p)
    (hb : RootfsAt file bootfs tail b q) :
    a = b ∧ p = q := by
  obtain ⟨k, rfl, -, hk, hbefore, rfl⟩ := ha
  obtain ⟨l, rfl, -, hl, hbefore', rfl⟩ := hb
  rcases Nat.lt_trichotomy k l with hlt | rfl | hlt
  · rw [hbefore' k hlt] at hk
    cases hk
  · exact ⟨rfl, rfl⟩
  · rw [hbefore l hlt] at hl
    cases hl

theorem not_isAllFf_of_jffs2At (h : jffs2At file offset = true) :
    isAllFf (fread file offset 256) = false := by
  rw [jffs2At, decide_eq_true_eq] at h
  rw [fread]
  generalize file.drop offset = bytes at h ⊢
  rcases bytes with _ | ⟨a, _ | ⟨b, rest⟩⟩
  · exact absurd h (by decide)
  · exact absurd h (by simp [ofHalf])
  · rw [Bool.eq_false_iff]
    intro hff
    simp only [isAllFf, take_succ_cons, all_cons, Bool.and_eq_true,
      decide_eq_true_eq] at hff
    obtain ⟨rfl, rfl, -⟩ := hff
    exact absurd h (by simp [ofHalf])

/-- The parts of an accepted image are in order. -/
theorem order_of_rootfsAt (hjffs2 : jffs2At file bootfs = true)
    (h : RootfsAt file bootfs tail rootfs padding) :
    bootfs + blockLen ≤ rootfs ∧ rootfs < tail ∧
      (padding ≠ 0 → bootfs < padding ∧ padding < rootfs) := by
  obtain ⟨k, rfl, hlt, hubi, -, rfl⟩ := h
  have hk : k ≠ 0 := by
    rintro rfl
    rw [Nat.zero_mul, Nat.add_zero] at hubi
    rw [not_jffs2At_of_ubiAt hubi] at hjffs2
    cases hjffs2
  have hone := Nat.mul_le_mul_right blockLen (Nat.one_le_iff_ne_zero.mpr hk)
  refine ⟨by omega, hlt, fun hpadding => ?_⟩
  rcases paddingFrom_cases bootfs k with hzero | ⟨j, hj, heq, hff⟩
  · exact absurd hzero hpadding
  · have hj0 : j ≠ 0 := by
      rintro rfl
      rw [Nat.zero_mul, Nat.add_zero, not_isAllFf_of_jffs2At hjffs2] at hff
      cases hff
    have hlow := Nat.mul_le_mul_right blockLen (Nat.one_le_iff_ne_zero.mpr hj0)
    have hhigh := Nat.mul_le_mul_right blockLen (succ_le_of_lt hj)
    have hpos : 0 < blockLen := by decide
    rw [succ_mul] at hhigh
    omega

/-! ## A content and its tail -/

theorem drop_append_of_le {n : Nat} (h : offset + n ≤ content.length) :
    fread (content ++ rest) offset n = fread content offset n := by
  rw [fread, fread, drop_append_of_le_length (by omega), take_append_of_le_length]
  rw [length_drop]
  omega

theorem jffs2At_append (h : offset + 2 ≤ content.length) :
    jffs2At (content ++ rest) offset = jffs2At content offset := by
  have htake : fread (content ++ rest) offset 2 = fread content offset 2 := drop_append_of_le h
  rw [fread, fread] at htake
  rw [jffs2At, jffs2At, ← ofHalf_take, htake, ofHalf_take]

theorem ofWord32_append (bigEndian : Bool) (h : offset + 4 ≤ content.length) :
    ofWord32 bigEndian (content ++ rest) offset = ofWord32 bigEndian content offset := by
  have htake : fread (content ++ rest) offset 4 = fread content offset 4 := drop_append_of_le h
  rw [fread, fread] at htake
  rw [ofWord32, ofWord32, htake]

theorem ubiAt_append (h : offset + 4 ≤ content.length) :
    ubiAt (content ++ rest) offset = ubiAt content offset := by
  rw [ubiAt, ubiAt, ofWord32_append true h]

theorem paddingFrom_append {k : Nat} (h : bootfs + k * blockLen ≤ content.length) :
    paddingFrom (content ++ rest) bootfs k = paddingFrom content bootfs k := by
  induction k with
  | zero => rfl
  | succ k ih =>
    rw [succ_mul] at h
    have hpos : 256 ≤ blockLen := by decide
    have hthis : fread (content ++ rest) (bootfs + k * blockLen) 256 =
        fread content (bootfs + k * blockLen) 256 := drop_append_of_le (by omega)
    rw [paddingFrom, paddingFrom, ih (by omega), hthis]

theorem BootfsAt.append (hread : bootfs + 2 ≤ content.length)
    (h : BootfsAt content 0 content.length bootfs) :
    BootfsAt (content ++ rest) 0 content.length bootfs := by
  obtain ⟨k, rfl, hlt, hk, hbefore⟩ := h
  refine ⟨k, rfl, hlt, by rw [jffs2At_append hread, hk], fun j hj => ?_⟩
  have hmul := Nat.mul_le_mul_right blockLen hj.le
  rw [jffs2At_append (by omega), hbefore j hj]

theorem RootfsAt.append (hread : rootfs + 4 ≤ content.length)
    (h : RootfsAt content bootfs content.length rootfs padding) :
    RootfsAt (content ++ rest) bootfs content.length rootfs padding := by
  obtain ⟨k, rfl, hlt, hk, hbefore, rfl⟩ := h
  refine ⟨k, rfl, hlt, by rw [ubiAt_append hread, hk], fun j hj => ?_, ?_⟩
  · have hmul := Nat.mul_le_mul_right blockLen hj.le
    rw [ubiAt_append (by omega), hbefore j hj]
  · rw [paddingFrom_append (by omega)]

theorem length_of_ubiAt (h : ubiAt file offset = true) :
    offset + 4 ≤ file.length := by
  have hlength := congrArg length (bytes_of_ubiAt h)
  rw [length_take, length_drop] at hlength
  simp only [length_cons, length_nil] at hlength
  omega

theorem hasImage_of_parts (hbootfs : BootfsAt content 0 content.length bootfs)
    (hrootfs : RootfsAt content bootfs content.length rootfs padding) : HasImage content := by
  obtain ⟨k, rfl, -, hk, -⟩ := hbootfs
  have hlt := (order_of_rootfsAt hk hrootfs).1
  obtain ⟨l, rfl, -, hl, -⟩ := hrootfs
  refine ⟨k, k + l, ?_, by simpa using hk, ?_⟩
  · have hpos : 0 < blockLen := by decide
    have hne : l ≠ 0 := by
      rintro rfl
      omega
    omega
  · rw [Nat.add_mul]
    simpa using hl

/-- The first bootfs and the first rootfs behind it. -/
theorem HasImage.first (h : HasImage content) : ∃ bootfs rootfs padding,
    BootfsAt content 0 content.length bootfs ∧
      RootfsAt content bootfs content.length rootfs padding ∧
      blockLen ≤ rootfs ∧ rootfs + 4 ≤ content.length := by
  obtain ⟨j, k, hjk, hj, hk⟩ := h
  have hboot : ∃ j, jffs2At content (j * blockLen) = true := ⟨j, hj⟩
  have hfind := Nat.find_spec hboot
  have hle : Nat.find hboot ≤ j := Nat.find_min' hboot hj
  generalize hj0 : Nat.find hboot = j₀ at hfind hle
  have hbefore (i : Nat) (hi : i < j₀) : jffs2At content (i * blockLen) = false := by
    rw [← hj0] at hi
    exact Bool.eq_false_iff.mpr (Nat.find_min hboot hi)
  have hroot : ∃ m, ubiAt content (j₀ * blockLen + m * blockLen) = true := by
    refine ⟨k - j₀, ?_⟩
    rw [← Nat.add_mul, Nat.add_sub_cancel' (by omega)]
    exact hk
  have hroot_find := Nat.find_spec hroot
  generalize hm0 : Nat.find hroot = m₀ at hroot_find
  have hread := length_of_ubiAt hroot_find
  have horder : RootfsAt content (j₀ * blockLen) content.length (j₀ * blockLen + m₀ * blockLen)
      (paddingFrom content (j₀ * blockLen) m₀) := by
    refine ⟨m₀, rfl, by omega, hroot_find, fun i hi => ?_, rfl⟩
    rw [← hm0] at hi
    exact Bool.eq_false_iff.mpr (Nat.find_min hroot hi)
  have hfirst := (order_of_rootfsAt hfind horder).1
  refine ⟨j₀ * blockLen, j₀ * blockLen + m₀ * blockLen, _, ?_, horder, by omega, hread⟩
  refine ⟨j₀, by rw [Nat.zero_add], by omega, hfind, fun i hi => ?_⟩
  rw [Nat.zero_add]
  exact hbefore i hi

/-! ## Which images are accepted -/

theorem length_tailBytes (crc32 : BitVec 32) : (tailBytes crc32).length = tailLen := rfl

theorem ofWord32_tailBytes (crc32 : BitVec 32) : ofWord32 false (tailBytes crc32) 0 = crc32 :=
  ofLe32_le32 crc32 []

theorem vendor_append (hlong : blockLen ≤ content.length) (hvendor : ¬Vendor content)
    (crc32 : BitVec 32) :
    vendorHeader (content ++ tailBytes crc32) = 0 ∧
      findTail (content ++ tailBytes crc32) = content.length := by
  rw [blockLen] at hlong
  rw [Vendor, not_or] at hvendor
  have hlength : (content ++ tailBytes crc32).length = content.length + tailLen := by
    rw [length_append, length_tailBytes]
  have hmagic : LINKSYS_MAGIC.length = 9 := rfl
  constructor
  · rw [vendorHeader, ofWord32_append true (by omega), if_neg hvendor.1]
  · have hpos : (content ++ tailBytes crc32).length - linksysTailLen =
        content.length - (linksysTailLen - tailLen) := by
      rw [hlength, linksysTailLen, tailLen]
      omega
    have hnone : vendorTail (content ++ tailBytes crc32) = false := by
      rw [vendorTail, decide_eq_false_iff_not, hpos, drop_append_of_le]
      · exact hvendor.2
      · rw [hmagic, linksysTailLen, tailLen]
        omega
    rw [findTail, hnone, if_neg Bool.false_ne_true, hlength]
    omega

/-- A content without anything of a vendor is accepted with a tail, if and only if the checksum in
the tail is its own and the rootfs can be read. -/
theorem accepts_append_iff (himage : HasImage content) (hvendor : ¬Vendor content)
    {crc32 : BitVec 32} :
    (∃ info, Accepts (content ++ tailBytes crc32) info) ↔
      crc32 = crc32Le 0xffffffff content ∧ Readable content := by
  obtain ⟨bootfs, rootfs, padding, hbootfs, hrootfs, hblock, hread⟩ := himage.first
  obtain ⟨hheader, htail⟩ := vendor_append (by omega) hvendor crc32
  have horder := order_of_rootfsAt (by obtain ⟨-, -, -, h, -⟩ := hbootfs; exact h) hrootfs
  have hpos : 2 ≤ blockLen := by decide
  have hbootfs' : BootfsAt (content ++ tailBytes crc32) 0 content.length bootfs :=
    hbootfs.append (by omega)
  have hrootfs' : RootfsAt (content ++ tailBytes crc32) bootfs content.length rootfs padding :=
    hrootfs.append hread
  have hlength : (content ++ tailBytes crc32).length = content.length + tailLen := by
    rw [length_append, length_tailBytes]
  have hcrc : rangeCrc (content ++ tailBytes crc32) 0 content.length =
      crc32Le 0xffffffff content := by
    rw [rangeCrc, Nat.sub_zero, drop_append_of_le (by omega), fread, drop_zero,
      take_length]
  have hbytes : fread (content ++ tailBytes crc32) content.length tailLen = tailBytes crc32 := by
    rw [fread, drop_left, ← length_tailBytes crc32, take_length]
  constructor
  · rintro ⟨info, h⟩
    have hb := h.bootfs
    have hr := h.rootfs
    have hc := h.crc32_eq
    have ht := h.tail_eq
    rw [h.cferomOffset_eq, h.tailOffset_eq, hheader, htail] at hb hc
    rw [h.tailOffset_eq, htail] at hr ht
    have heq := hb.unique hbootfs'
    rw [heq] at hr
    obtain ⟨hr, hp⟩ := hr.unique hrootfs'
    have hvalid := h.valid
    rw [hc, ht, hbytes, ofWord32_tailBytes, hcrc] at hvalid
    refine ⟨hvalid.symm, bootfs, rootfs, padding, hbootfs, hrootfs, ?_⟩
    have hreadable := h.readable
    rw [hr, hp, hlength] at hreadable
    rw [tailLen] at hreadable ⊢
    omega
  · rintro ⟨rfl, bootfs₁, rootfs₁, padding₁, hb, hr, hreadable⟩
    obtain rfl := hb.unique hbootfs
    obtain ⟨rfl, rfl⟩ := hr.unique hrootfs
    rw [tailLen] at hreadable
    have hbig : 1024 ≤ blockLen := by decide
    refine ⟨{ cferomOffset := 0, bootfsOffset := bootfs₁, paddingOffset := padding₁
              rootfsOffset := rootfs₁, tailOffset := content.length
              crc32 := crc32Le 0xffffffff content
              tail := tailBytes (crc32Le 0xffffffff content) },
      by omega, hheader.symm, htail.symm, hbootfs', hrootfs', ?_, hcrc.symm, hbytes.symm,
      (ofWord32_tailBytes _).symm⟩
    rw [hlength, tailLen]
    dsimp only
    omega

/-! ## Images that are created -/

theorem createOpt_crc32 {s' : Creation} {opt : CreateOpt} (h : createOpt malloc s opt = some s') :
    s'.crc32 = crc32Le s.crc32 (optBytes opt) := by
  have hzeros (length : Nat) : (appendZeros malloc s length).crc32 = s.crc32 := by
    rw [appendZeros]
    split_ifs <;> rfl
  cases opt with
  | file bytes =>
    cases bytes with
    | none =>
      cases h
      rfl
    | some bytes =>
      cases h
      rfl
  | align alignment =>
    rw [createOpt] at h
    split_ifs at h
    · obtain rfl := some.inj h
      exact hzeros _
    · obtain rfl := some.inj h
      rfl
  | offset offset =>
    simp only [createOpt] at h
    split_ifs at h
    · obtain rfl := some.inj h
      rfl
    · obtain rfl := some.inj h
      exact hzeros _

/-- The checksum is that of the files. -/
theorem createOpts_crc32 {s' : Creation} (h : createOpts malloc s opts = some s') :
    s'.crc32 = crc32Le s.crc32 (fileBytes opts) := by
  induction opts generalizing s with
  | nil =>
    cases h
    rfl
  | cons opt opts ih =>
    rw [createOpts] at h
    obtain ⟨t, ht, hrest⟩ := bind_eq_some_iff.mp h
    rw [ih hrest, createOpt_crc32 ht, fileBytes, fileBytes, flatMap_cons,
      Crc32.crc32Le_append]

theorem bcm4908imgCreate_eq (h : createOpts malloc creationStart opts = some s) :
    bcm4908imgCreate malloc opts =
      some (s.trx ++ tailBytes (crc32Le 0xffffffff (fileBytes opts))) := by
  rw [bcm4908imgCreate, h, map_some, createOpts_crc32 h]
  rfl

theorem agrees_iff :
    Agrees malloc opts ↔ ∃ s, createOpts malloc creationStart opts = some s ∧
      ∃ info, Accepts (s.trx ++ tailBytes (crc32Le 0xffffffff (fileBytes opts))) info := by
  constructor
  · rintro ⟨image, himage, info, hinfo, -⟩
    obtain ⟨s, hs, -⟩ := map_eq_some_iff.mp himage
    rw [bcm4908imgCreate_eq hs] at himage
    obtain rfl := some.inj himage
    exact ⟨s, hs, info, gives_parse_ok_iff.mp hinfo⟩
  · rintro ⟨s, hs, info, h⟩
    refine ⟨_, bcm4908imgCreate_eq hs, info, gives_parse_ok_iff.mpr h, ?_⟩
    have hbootfs := h.bootfs
    obtain ⟨k, hk, hlt, hjffs2, -⟩ := hbootfs
    obtain ⟨hle, htail, hpadding⟩ := order_of_rootfsAt hjffs2 h.rootfs
    have hpos : 0 < blockLen := by decide
    refine ⟨by omega, by omega, htail, hpadding, ?_⟩
    simp only [bcm4908imgExtract]
    rw [if_neg (by omega)]

/-- What is created is parsed again, if and only if nothing is divided by zero, and the content has
nothing of a vendor, the checksum of the files is that of all the content, and the rootfs can be
read; or it has, and is accepted all the same, of which nothing more is said. -/
theorem create_iff {malloc : Nat → Bool} {opts : List CreateOpt}
    (himage : ∀ s, createOpts malloc creationStart opts = some s → HasImage s.trx) :
    Agrees malloc opts ↔ ∃ s, createOpts malloc creationStart opts = some s ∧
      (¬Vendor s.trx ∧ crc32Le 0xffffffff (fileBytes opts) = crc32Le 0xffffffff s.trx ∧
          Readable s.trx ∨
        Vendor s.trx ∧
          ∃ info, Accepts (s.trx ++ tailBytes (crc32Le 0xffffffff (fileBytes opts))) info) := by
  rw [agrees_iff]
  refine exists_congr fun s => and_congr_right fun hs => ?_
  by_cases hvendor : Vendor s.trx
  · simp only [hvendor, not_true_eq_false, false_and, false_or, true_and]
  · rw [accepts_append_iff (himage s hs) hvendor]
    simp only [hvendor, not_false_eq_true, true_and, false_and, or_false]

/-! ## Two images -/

def rootfsSample : List UInt8 := [0x55, 0x42, 0x49, 0x23] ++ replicate 252 0

theorem length_rootfsSample : rootfsSample.length = 256 := by
  rw [rootfsSample, length_append, length_replicate]
  rfl

/-- In front of it is a block with a bootfs. -/
theorem sample_parts {front : List UInt8} (hfront : front.length = blockLen)
    (hmagic : front.take 4 = [0x85, 0x19, 0xcf, 0xbe]) :
    BootfsAt (front ++ rootfsSample) 0 (front ++ rootfsSample).length 0 ∧
      RootfsAt (front ++ rootfsSample) 0 (front ++ rootfsSample).length blockLen 0 ∧
      ¬Vendor (front ++ rootfsSample) := by
  have hsample := length_rootfsSample
  have hlength : (front ++ rootfsSample).length = blockLen + 256 := by
    rw [length_append, hfront, hsample]
  have hpos : 256 ≤ blockLen := by decide
  have hfour : fread (front ++ rootfsSample) 0 4 = [0x85, 0x19, 0xcf, 0xbe] := by
    rw [drop_append_of_le (by omega), fread, drop_zero, hmagic]
  have hword : ofWord32 true (front ++ rootfsSample) 0 = 0x8519cfbe := by
    rw [← ofWord32_fread true _ 0 (le_refl 4), hfour]
    decide
  have hjffs2 : jffs2At (front ++ rootfsSample) 0 = true := by
    have htwo : ((front ++ rootfsSample).drop 0).take 2 = [0x85, 0x19] := by
      have htake := congrArg (take 2) hfour
      rw [fread, take_take] at htake
      exact htake
    rw [jffs2At, ← ofHalf_take, htwo]
    decide
  have hdrop (n : Nat) : (front ++ rootfsSample).drop (blockLen + n) = rootfsSample.drop n := by
    rw [← hfront, drop_append]
    simp
  have hubi : ubiAt (front ++ rootfsSample) blockLen = true := by
    rw [ubiAt, ofWord32, ← Nat.add_zero blockLen, hdrop]
    decide
  have hone : 0 + 1 * blockLen = blockLen := by omega
  refine ⟨?_, ?_, ?_⟩
  · exact ⟨0, rfl, by omega, hjffs2, fun j hj => absurd hj j.not_lt_zero⟩
  · refine ⟨1, hone.symm, by omega, hubi, fun j hj => ?_, ?_⟩
    · obtain rfl := Nat.lt_one_iff.mp hj
      rw [Nat.zero_mul, ubiAt, hword]
      decide
    · rw [paddingFrom, paddingFrom, Nat.zero_mul, not_isAllFf_of_jffs2At hjffs2]
      rfl
  · rw [Vendor, hword, hlength, fread, linksysTailLen, tailLen]
    have hend : blockLen + 256 - (256 - 20) = blockLen + 20 := rfl
    rw [hend, hdrop]
    decide +kernel

theorem crc32Le_replicate {crc : BitVec 32} {byte : UInt8} (h : Crc32.byte crc byte = crc)
    (n : Nat) : crc32Le crc (replicate n byte) = crc := by
  induction n with
  | zero => rfl
  | succ n ih =>
    rw [replicate_succ, crc32Le, foldl_cons, h]
    exact ih

/-- A bootfs that is one byte short of a block; at its end the checksum stays what it is. -/
def bootfsSample : List UInt8 :=
  [0x85, 0x19, 0xcf, 0xbe, 0x1e, 0x3c] ++ replicate 131065 0xd7

theorem length_bootfsSample : bootfsSample.length = 131071 := by
  rw [bootfsSample, length_append, length_replicate]
  rfl

theorem crc32Le_bootfsSample : crc32Le 0xffffffff bootfsSample = 0x777040d6 := by
  have hhead : crc32Le 0xffffffff [0x85, 0x19, 0xcf, 0xbe, 0x1e, 0x3c] = 0x777040d6 := by
    decide +kernel
  rw [bootfsSample, Crc32.crc32Le_append, hhead]
  exact crc32Le_replicate (by decide +kernel) _

theorem take_bootfsSample (rest : List UInt8) :
    (bootfsSample ++ rest).take 4 = [0x85, 0x19, 0xcf, 0xbe] := by
  rw [bootfsSample, append_assoc, take_append_of_le_length (by decide)]
  rfl

/-- With a single zero between the bootfs and the rootfs, the image is not accepted. -/
theorem create_fails : ∃ opts : List CreateOpt,
    (∀ s, createOpts (fun _ => true) creationStart opts = some s → HasImage s.trx) ∧
      ¬Agrees (fun _ => true) opts := by
  have hlength : (bootfsSample ++ [0]).length = blockLen := by
    rw [length_append, length_bootfsSample]
    rfl
  obtain ⟨hboot, hroot, hvendor⟩ := sample_parts hlength (take_bootfsSample _)
  have himage := hasImage_of_parts hboot hroot
  have hopts : createOpts (fun _ => true) creationStart
      [.file (some bootfsSample), .align 0x20000, .file (some rootfsSample)] =
        some { trx := bootfsSample ++ [0] ++ rootfsSample
               crc32 := crc32Le 0x777040d6 rootfsSample
               curOffset := 131072 + rootfsSample.length } := by
    have hfile : createOpt (fun _ => true) creationStart (.file (some bootfsSample)) =
        some { trx := bootfsSample, crc32 := 0x777040d6, curOffset := 131071 } := by
      rw [createOpt, appendFile, creationStart, crc32Le_bootfsSample, length_bootfsSample]
      rfl
    have halign : createOpt (fun _ => true)
        { trx := bootfsSample, crc32 := 0x777040d6, curOffset := 131071 } (.align 0x20000) =
          some { trx := bootfsSample ++ [0], crc32 := 0x777040d6, curOffset := 131072 } := by
      rw [createOpt, if_pos (by decide), if_neg (by decide)]
      rfl
    rw [createOpts, hfile, bind_some, createOpts, halign, bind_some, createOpts,
      createOpt, appendFile, bind_some, createOpts]
  refine ⟨[.file (some bootfsSample), .align 0x20000, .file (some rootfsSample)], ?_, ?_⟩
  · intro s hs
    rw [hopts] at hs
    obtain rfl := some.inj hs
    exact himage
  · intro h
    obtain ⟨s, hs, haccepts⟩ := agrees_iff.mp h
    rw [hopts] at hs
    obtain rfl := some.inj hs
    have hfiles : fileBytes [.file (some bootfsSample), .align 0x20000,
        .file (some rootfsSample)] = bootfsSample ++ rootfsSample := by
      simp only [fileBytes, flatMap_cons, flatMap_nil, optBytes, nil_append,
        append_nil]
    rw [hfiles, accepts_append_iff himage hvendor, Crc32.crc32Le_append, Crc32.crc32Le_append,
      Crc32.crc32Le_append, crc32Le_bootfsSample] at haccepts
    have hsame := Crc32.crc32Le_injective rootfsSample haccepts.1
    exact absurd hsame (by decide +kernel)

/-- With a bootfs that is aligned as it is, nothing is padded, and the image is accepted. -/
theorem create_iff_files :
    Agrees (fun _ => true)
      [.file (some (bootfsSample ++ [0])), .align 0x20000, .file (some rootfsSample)] := by
  have hlength : (bootfsSample ++ [0]).length = blockLen := by
    rw [length_append, length_bootfsSample]
    rfl
  obtain ⟨hboot, hroot, hvendor⟩ := sample_parts hlength (take_bootfsSample _)
  have himage := hasImage_of_parts hboot hroot
  have hopts : createOpts (fun _ => true) creationStart
      [.file (some (bootfsSample ++ [0])), .align 0x20000, .file (some rootfsSample)] =
        some { trx := bootfsSample ++ [0] ++ rootfsSample
               crc32 := crc32Le (crc32Le 0xffffffff (bootfsSample ++ [0])) rootfsSample
               curOffset := blockLen + rootfsSample.length } := by
    have hfile : createOpt (fun _ => true) creationStart (.file (some (bootfsSample ++ [0]))) =
        some { trx := bootfsSample ++ [0], crc32 := crc32Le 0xffffffff (bootfsSample ++ [0])
               curOffset := blockLen } := by
      rw [createOpt, appendFile, creationStart, hlength, Nat.zero_add, nil_append]
    have halign {crc : BitVec 32} : createOpt (fun _ => true)
        { trx := bootfsSample ++ [0], crc32 := crc, curOffset := blockLen } (.align 0x20000) =
          some { trx := bootfsSample ++ [0], crc32 := crc, curOffset := blockLen } := by
      have haligned : ¬BitVec.ofNat 64 blockLen &&& (0x20000 - 1) ≠ 0 := by decide
      rw [createOpt, if_neg haligned]
    rw [createOpts, hfile, bind_some, createOpts, halign, bind_some, createOpts,
      createOpt, appendFile, bind_some, createOpts]
  refine (create_iff ?_).mpr ⟨_, hopts, .inl ⟨hvendor, ?_, 0, blockLen, 0, hboot, hroot, ?_⟩⟩
  · intro s hs
    rw [hopts] at hs
    obtain rfl := some.inj hs
    exact himage
  · simp only [fileBytes, flatMap_cons, flatMap_nil, optBytes, nil_append, append_nil]
  · right
    have htotal : (bootfsSample ++ [0] ++ rootfsSample).length = blockLen + 256 := by
      rw [length_append, hlength, length_rootfsSample]
    change blockLen + (256 - tailLen) ≤ (bootfsSample ++ [0] ++ rootfsSample).length
    omega

end Create

end LibWrt.Bcm4908img
