/-
LibWrt.Bcm4908img.Parse — the parser for BCM4908 images.

An image is an optional vendor header, an optional cferom, the bootfs, maybe
padding, the rootfs, a tail with the checksum of all that is behind the vendor
header, and an optional vendor tail. The bootfs and the rootfs begin at steps
of 128 KiB from the end of the vendor header on.
-/
import LibWrt.Lib.Bytes
import LibWrt.Lib.Crc32
import LibWrt.Lib.Loop

namespace LibWrt.Bcm4908img

open List Nat
open LibWrt.Bytes
open LibWrt.Crc32 (crc32Le)
open LibWrt.Loop

def ENOENT : Int := 2
def EIO : Int := 5
def EINVAL : Int := 22
def EPROTO : Int := 71

/-- Up to `n` bytes of a file from a position on. -/
def fread (file : List UInt8) (pos n : Nat) : List UInt8 := (file.drop pos).take n

/-- `sizeof(struct bcm4908img_tail)` -/
def tailLen : Nat := 20

/-- `sizeof(struct linksys_tail)` -/
def linksysTailLen : Nat := 256

def LINKSYS_MAGIC : List UInt8 := [0x2e, 0x4c, 0x49, 0x4e, 0x4b, 0x53, 0x59, 0x53, 0x2e]

/-- Where the bootfs and the rootfs may begin. -/
def blockLen : Nat := 0x20000

structure Info where
  cferomOffset : Nat
  bootfsOffset : Nat
  paddingOffset : Nat
  rootfsOffset : Nat
  tailOffset : Nat
  crc32 : BitVec 32
  tail : List UInt8

def vendorHeader (file : List UInt8) : Nat :=
  if ofWord32 true file 0 = 0x2a23245e then (ofWord32 true file 4).toNat else 0

def vendorTail (file : List UInt8) : Bool :=
  fread file (file.length - linksysTailLen) LINKSYS_MAGIC.length = LINKSYS_MAGIC

/-- Where the tail is; the file has 1024 bytes at least. -/
def findTail (file : List UInt8) : Nat :=
  if vendorTail file then file.length - tailLen - linksysTailLen else file.length - tailLen

/-- What is seen at an offset when looking for the bootfs. -/
def lookBootfs (file : List UInt8) (offset : Nat) : Option (Except Int Unit) :=
  let buf := fread file offset 2
  if buf.length ≠ 2 then some (.error (- EIO))
  else if ofHalf true buf = 0x8519 then some (.ok ()) else none

/-- Where the search for the rootfs is; the padding is at `padding` if that is not 0. -/
structure RootfsCursor where
  offset : Nat
  padding : Nat

def isAllFf (buf : List UInt8) : Bool := buf.all (· = 0xff)

def rootfsTurn (file : List UInt8) (tail : Nat) (c : RootfsCursor) :
    RootfsCursor ⊕ Except Int RootfsCursor :=
  if c.offset < tail then
    let length := if c.padding ≠ 0 then 4 else 256
    let buf := fread file c.offset length
    if buf.length ≠ length then .inr (.error (- EIO))
    else
      let padding := if c.padding = 0 ∧ isAllFf buf then c.offset else c.padding
      if ofWord32 true buf 0 = 0x55424923 then .inr (.ok { c with padding := padding })
      else .inl { offset := c.offset + blockLen, padding := padding }
  else .inr (.error (-EPROTO))

def rangeCrc (file : List UInt8) (start stop : Nat) : BitVec 32 :=
  crc32Le 0xffffffff (fread file start (stop - start))

def parseFrom (file : List UInt8) (bootfs : Nat) : Except Int RootfsCursor → Except Int Info
  | .error err => .error err
  | .ok rootfs =>
    let crc := rangeCrc file (vendorHeader file) (findTail file)
    let tailBytes := fread file (findTail file) tailLen
    if crc ≠ ofWord32 false tailBytes 0 then .error (-EPROTO)
    else .ok
      { cferomOffset := vendorHeader file
        bootfsOffset := bootfs
        paddingOffset := rootfs.padding
        rootfsOffset := rootfs.offset
        tailOffset := findTail file
        crc32 := crc
        tail := tailBytes }

/-- What is made of the bootfs; at most `n` turns of the search for the rootfs. -/
def parseBehind (file : List UInt8) (n : Nat) :
    Option (Nat × Except Int Unit) → Option (Except Int Info)
  | none => some (.error (-EPROTO))
  | some (_, .error err) => some (.error err)
  | some (bootfs, .ok ()) =>
    (run (rootfsTurn file (findTail file)) n { offset := bootfs, padding := 0 }).map
      (parseFrom file bootfs)

def bcm4908imgParse (file : List UInt8) (n : Nat) : Option (Except Int Info) :=
  if file.length < 1024 then some (.error (- EIO))
  else
    (run (seekTurn blockLen (findTail file) (lookBootfs file)) n (vendorHeader file)).bind
      (parseBehind file n)

inductive ExtractType where
  | cferom
  | bootfs
  | rootfs
  | firmware

def bcm4908imgExtract (file : List UInt8) (info : Info) (type : ExtractType) :
    Except Int (List UInt8) :=
  let range (offset stop : Nat) : Except Int (List UInt8) :=
    if stop - offset = 0 then .error (-EINVAL) else .ok (fread file offset (stop - offset))
  match type with
  | .cferom =>
    if info.bootfsOffset - info.cferomOffset = 0 then .error (-ENOENT)
    else range info.cferomOffset info.bootfsOffset
  | .bootfs =>
    range info.bootfsOffset
      (if info.paddingOffset ≠ 0 then info.paddingOffset else info.rootfsOffset)
  | .rootfs => range info.rootfsOffset info.tailOffset
  | .firmware => range info.bootfsOffset info.tailOffset

/-! ## Images that are accepted -/

def jffs2At (file : List UInt8) (offset : Nat) : Bool :=
  ofHalf true (file.drop offset) = 0x8519

def ubiAt (file : List UInt8) (offset : Nat) : Bool :=
  ofWord32 true file offset = 0x55424923

/-- The first of `k` blocks that has nothing written to it, or 0. -/
def paddingFrom (file : List UInt8) (start : Nat) : Nat → Nat
  | 0 => 0
  | k + 1 =>
    let padding := paddingFrom file start k
    if padding = 0 ∧ isAllFf (fread file (start + k * blockLen) 256) then start + k * blockLen
    else padding

def BootfsAt (file : List UInt8) (cferom tail bootfs : Nat) : Prop :=
  ∃ k, bootfs = cferom + k * blockLen ∧ bootfs < tail ∧ jffs2At file bootfs = true ∧
    ∀ j < k, jffs2At file (cferom + j * blockLen) = false

/-- The first block behind it with a rootfs, and the padding in front of that. -/
def RootfsAt (file : List UInt8) (bootfs tail rootfs padding : Nat) : Prop :=
  ∃ k, rootfs = bootfs + k * blockLen ∧ rootfs < tail ∧ ubiAt file rootfs = true ∧
    (∀ j < k, ubiAt file (bootfs + j * blockLen) = false) ∧ padding = paddingFrom file bootfs k

structure Accepts (file : List UInt8) (info : Info) : Prop where
  length_ge : 1024 ≤ file.length
  cferomOffset_eq : info.cferomOffset = vendorHeader file
  tailOffset_eq : info.tailOffset = findTail file
  bootfs : BootfsAt file info.cferomOffset info.tailOffset info.bootfsOffset
  rootfs : RootfsAt file info.bootfsOffset info.tailOffset info.rootfsOffset info.paddingOffset
  readable : info.paddingOffset ≠ 0 ∨ info.rootfsOffset + 256 ≤ file.length
  crc32_eq : info.crc32 = rangeCrc file info.cferomOffset info.tailOffset
  tail_eq : info.tail = fread file info.tailOffset tailLen
  valid : info.crc32 = ofWord32 false info.tail 0

section Accepts

variable {file : List UInt8}

@[simp] theorem length_fread (file : List UInt8) (pos n : Nat) :
    (fread file pos n).length = min n (file.length - pos) := by
  rw [fread, length_take, length_drop]

theorem ofWord32_fread (bigEndian : Bool) (file : List UInt8) (pos : Nat) {n : Nat} (hn : 4 ≤ n) :
    ofWord32 bigEndian (fread file pos n) 0 = ofWord32 bigEndian file pos := by
  simp only [ofWord32, fread, drop_zero, take_take, Nat.min_eq_left hn]

theorem ofHalf_take (bytes : List UInt8) : ofHalf true (bytes.take 2) = ofHalf true bytes := by
  match bytes with
  | [] => rfl
  | [a] => rfl
  | a :: b :: rest => rfl

theorem findTail_le (h : 1024 ≤ file.length) :
    findTail file + tailLen ≤ file.length ∧ file.length ≤ findTail file + tailLen + linksysTailLen := by
  rw [findTail, tailLen, linksysTailLen]
  split_ifs <;> omega

variable {offset tail bootfs : Nat} {c : RootfsCursor}

theorem lookBootfs_eq (h : offset + 2 ≤ file.length) :
    lookBootfs file offset = if jffs2At file offset then some (.ok ()) else none := by
  have hlength : (fread file offset 2).length = 2 := by
    rw [length_fread]
    omega
  simp only [lookBootfs, hlength, ne_eq, not_true_eq_false, if_false]
  simp only [jffs2At, fread, ofHalf_take, decide_eq_true_eq]

theorem ends_bootfs_iff {cferom : Nat} (htail : tail + tailLen ≤ file.length) :
    Ends (seekTurn blockLen tail (lookBootfs file)) cferom (some (bootfs, .ok ())) ↔
      BootfsAt file cferom tail bootfs := by
  have hlook {offset : Nat} (h : offset < tail) :
      lookBootfs file offset = if jffs2At file offset then some (.ok ()) else none :=
    lookBootfs_eq (by rw [tailLen] at htail; omega)
  rw [ends_seek_iff]
  constructor
  · rintro ⟨k, rfl, hlt, hthis, hnone⟩
    have hlt' := Int.ofNat_lt.mp hlt
    rw [hlook hlt'] at hthis
    refine ⟨k, rfl, hlt', by simpa using hthis, fun j hj => ?_⟩
    have hmul := Nat.mul_le_mul_right blockLen hj.le
    have hj' := hnone j hj
    rw [hlook (by omega)] at hj'
    simpa using hj'
  · rintro ⟨k, rfl, hlt, hthis, hnone⟩
    refine ⟨k, rfl, Int.ofNat_lt.mpr hlt, by rw [hlook hlt, if_pos hthis], fun j hj => ?_⟩
    have hmul := Nat.mul_le_mul_right blockLen hj.le
    rw [hlook (by omega), hnone j hj]
    rfl

/-- A turn in front of the tail, where enough can be read. -/
theorem rootfsTurn_eq (hlt : c.offset < tail)
    (hread : c.padding ≠ 0 ∧ c.offset + 4 ≤ file.length ∨ c.offset + 256 ≤ file.length) :
    rootfsTurn file tail c =
      let padding := if c.padding = 0 ∧ isAllFf (fread file c.offset 256) then c.offset
        else c.padding
      if ubiAt file c.offset then .inr (.ok { c with padding := padding })
      else .inl { offset := c.offset + blockLen, padding := padding } := by
  rw [rootfsTurn, if_pos hlt]
  by_cases hpadding : c.padding = 0
  · have hlength : (fread file c.offset 256).length = 256 := by
      rw [length_fread]
      omega
    simp only [hpadding, ne_eq, not_true_eq_false, if_false, hlength, true_and, ubiAt,
      ofWord32_fread true file c.offset (n := 256) (by decide), decide_eq_true_eq]
  · have hlength : (fread file c.offset 4).length = 4 := by
      rw [length_fread]
      omega
    simp only [hpadding, ne_eq, not_false_eq_true, if_true, hlength, not_true_eq_false, if_false,
      false_and, ubiAt, ofWord32_fread true file c.offset (n := 4) (by decide),
      decide_eq_true_eq]

/-- A turn that does not fail reads what it needs, in front of the tail. -/
theorem rootfsTurn_reads (h : ∀ err, rootfsTurn file tail c ≠ .inr (.error err)) :
    c.offset < tail ∧
      (c.padding ≠ 0 ∧ c.offset + 4 ≤ file.length ∨ c.offset + 256 ≤ file.length) := by
  by_cases hlt : c.offset < tail
  · refine ⟨hlt, ?_⟩
    by_contra hread
    have hlength : (fread file c.offset (if c.padding ≠ 0 then 4 else 256)).length ≠
        if c.padding ≠ 0 then 4 else 256 := by
      rw [length_fread]
      split_ifs <;> omega
    refine h (- EIO) ?_
    rw [rootfsTurn, if_pos hlt]
    exact if_pos hlength
  · exact absurd (by rw [rootfsTurn, if_neg hlt]) (h (-EPROTO))

theorem not_isAllFf_of_ubiAt (h : ubiAt file offset = true) (hread : offset + 256 ≤ file.length) :
    isAllFf (fread file offset 256) = false := by
  rw [Bool.eq_false_iff]
  intro hff
  have hbytes : fread file offset 256 = replicate 256 0xff := by
    rw [eq_replicate_iff]
    refine ⟨by rw [length_fread]; omega, ?_⟩
    simpa [isAllFf] using hff
  rw [ubiAt, ← ofWord32_fread true file offset (n := 256) (by decide), hbytes] at h
  exact absurd h (by decide)

/-- The cursor after `k` blocks without a rootfs. -/
def cursorAt (file : List UInt8) (bootfs k : Nat) : RootfsCursor where
  offset := bootfs + k * blockLen
  padding := paddingFrom file bootfs k

theorem cursorAt_succ (bootfs k : Nat) : cursorAt file bootfs (k + 1) =
    { offset := (cursorAt file bootfs k).offset + blockLen
      padding := if (cursorAt file bootfs k).padding = 0 ∧
          isAllFf (fread file (cursorAt file bootfs k).offset 256)
        then (cursorAt file bootfs k).offset else (cursorAt file bootfs k).padding } := by
  rw [cursorAt, succ_mul, ← Nat.add_assoc]
  rfl

theorem leads_rootfs (h : Leads (rootfsTurn file tail) { offset := bootfs, padding := 0 } c) :
    ∃ k, c = cursorAt file bootfs k ∧ ∀ j < k, ubiAt file (bootfs + j * blockLen) = false := by
  refine @Leads.invariant _ _ _ (fun c => ∃ k, c = cursorAt file bootfs k ∧
    ∀ j < k, ubiAt file (bootfs + j * blockLen) = false) _ _ h ?_ ?_
  · exact ⟨0, by simp [cursorAt, paddingFrom], fun j hj => absurd hj j.not_lt_zero⟩
  rintro c c' ⟨k, rfl, hnone⟩ hturn
  obtain ⟨hlt, hread⟩ := rootfsTurn_reads fun err herr => by rw [hturn] at herr; cases herr
  rw [rootfsTurn_eq hlt hread] at hturn
  dsimp only at hturn
  cases hubi : ubiAt file (cursorAt file bootfs k).offset with
  | true =>
    rw [hubi, if_pos rfl] at hturn
    cases hturn
  | false =>
    rw [hubi, if_neg Bool.false_ne_true] at hturn
    refine ⟨k + 1, (Sum.inl.inj hturn).symm.trans (cursorAt_succ bootfs k).symm, fun j hj => ?_⟩
    rcases Nat.lt_succ_iff_lt_or_eq.mp hj with hj | rfl
    · exact hnone j hj
    · exact hubi

theorem ends_rootfs_iff (htail : tail + tailLen ≤ file.length) :
    Ends (rootfsTurn file tail) { offset := bootfs, padding := 0 } (.ok c) ↔
      RootfsAt file bootfs tail c.offset c.padding ∧
        (c.padding ≠ 0 ∨ c.offset + 256 ≤ file.length) := by
  rw [tailLen] at htail
  rw [ends_iff_leads]
  constructor
  · rintro ⟨c', hleads, hturn⟩
    obtain ⟨k, rfl, hnone⟩ := leads_rootfs hleads
    obtain ⟨hlt, hread⟩ := rootfsTurn_reads fun err herr => by rw [hturn] at herr; cases herr
    rw [rootfsTurn_eq hlt hread] at hturn
    dsimp only at hturn
    split_ifs at hturn with hubi hff
    · obtain ⟨hzero, hff⟩ := hff
      rcases hread with ⟨hpadding, -⟩ | hread
      · exact absurd hzero hpadding
      · rw [not_isAllFf_of_ubiAt hubi hread] at hff
        cases hff
    · obtain rfl := Except.ok.inj (Sum.inr.inj hturn)
      refine ⟨⟨k, rfl, hlt, hubi, hnone, rfl⟩, ?_⟩
      exact hread.imp And.left id
  · rintro ⟨⟨k, hoffset, hlt, hubi, hnone, hpadding⟩, hread⟩
    have hc : c = cursorAt file bootfs k := by
      rw [cursorAt, ← hoffset, ← hpadding]
    have hleads (j : Nat) (hj : j ≤ k) :
        Leads (rootfsTurn file tail) { offset := bootfs, padding := 0 }
          (cursorAt file bootfs j) := by
      induction j with
      | zero =>
        have hstart : cursorAt file bootfs 0 = { offset := bootfs, padding := 0 } := by
          simp [cursorAt, paddingFrom]
        rw [hstart]
        exact .refl
      | succ j ih =>
        have hmul := Nat.mul_le_mul_right blockLen hj
        rw [succ_mul, blockLen] at hmul
        have hbefore : (cursorAt file bootfs j).offset + 256 < tail := by
          rw [hoffset, blockLen] at hlt
          simp only [cursorAt, blockLen]
          omega
        refine (ih (le_of_succ_le hj)).tail ?_
        rw [rootfsTurn_eq (by omega) (.inr (by omega)), cursorAt_succ]
        have hthis : ubiAt file (cursorAt file bootfs j).offset = false := hnone j hj
        simp only [hthis, Bool.false_eq_true, if_false]
    refine ⟨c, hc ▸ hleads k le_rfl, ?_⟩
    rw [rootfsTurn_eq hlt (by omega), if_pos hubi, if_neg]
    rintro ⟨hzero, hff⟩
    rw [not_isAllFf_of_ubiAt hubi (hread.resolve_left (absurd hzero))] at hff
    cases hff

theorem grows_parseBehind (found : Option (Nat × Except Int Unit)) :
    Grows fun n => parseBehind file n found := by
  match found with
  | none => exact grows_const _
  | some (_, .error err) => exact grows_const _
  | some (bootfs, .ok ()) => exact (grows_run _ _).map _

/-- The steps of the parser. -/
theorem gives_parse_iff (hlength : 1024 ≤ file.length) {ret : Except Int Info} :
    Gives (bcm4908imgParse file) ret ↔
      ∃ found, Ends (seekTurn blockLen (findTail file) (lookBootfs file)) (vendorHeader file)
          found ∧ Gives (fun n => parseBehind file n found) ret := by
  have hdef : bcm4908imgParse file = fun n =>
      (run (seekTurn blockLen (findTail file) (lookBootfs file)) n (vendorHeader file)).bind
        (parseBehind file n) := by
    funext n
    rw [bcm4908imgParse, if_neg (by omega)]
  rw [hdef, gives_bind_iff (grows_run _ _) grows_parseBehind]
  simp only [gives_run_iff]

theorem gives_parseBehind_ok_iff {ret : Except Int Info} :
    Gives (fun n => parseBehind file n (some (bootfs, .ok ()))) ret ↔ ∃ rootfs,
      Ends (rootfsTurn file (findTail file)) { offset := bootfs, padding := 0 } rootfs ∧
        parseFrom file bootfs rootfs = ret := by
  simp only [parseBehind, gives_map_iff, gives_run_iff]

/-- An image is accepted if and only if its parts are where they should be and the checksum in its
tail is right. -/
theorem gives_parse_ok_iff {info : Info} :
    Gives (bcm4908imgParse file) (.ok info) ↔ Accepts file info := by
  constructor
  · intro h
    have hlength : 1024 ≤ file.length := by
      by_contra hshort
      obtain ⟨n, hn⟩ := h
      rw [bcm4908imgParse, if_pos (by omega)] at hn
      cases hn
    have htail := (findTail_le hlength).1
    obtain ⟨found, hfound, hrest⟩ := (gives_parse_iff hlength).mp h
    match found with
    | none => cases gives_const_iff.mp hrest
    | some (_, .error err) => cases gives_const_iff.mp hrest
    | some (bootfs, .ok ()) =>
      obtain ⟨rootfs, hrootfs, hinfo⟩ := gives_parseBehind_ok_iff.mp hrest
      cases rootfs with
      | error err => cases hinfo
      | ok rootfs =>
        rw [parseFrom] at hinfo
        split_ifs at hinfo with hcrc
        obtain rfl := Except.ok.inj hinfo
        rw [ends_bootfs_iff htail] at hfound
        rw [ends_rootfs_iff htail] at hrootfs
        constructor
        · exact hlength
        · dsimp only
        · dsimp only
        · dsimp only; exact hfound
        · dsimp only; exact hrootfs.1
        · dsimp only; exact hrootfs.2
        · dsimp only
        · dsimp only
        · dsimp only; exact not_not.mp hcrc
  · intro h
    have htail := (findTail_le h.length_ge).1
    have hinfo : parseFrom file info.bootfsOffset
        (.ok { offset := info.rootfsOffset, padding := info.paddingOffset }) = .ok info := by
      have hcrc : rangeCrc file (vendorHeader file) (findTail file) = info.crc32 := by
        rw [h.crc32_eq, h.cferomOffset_eq, h.tailOffset_eq]
      have hbytes : fread file (findTail file) tailLen = info.tail := by
        rw [h.tail_eq, h.tailOffset_eq]
      simp only [parseFrom, hcrc, hbytes, ne_eq, h.valid, not_true_eq_false, if_false]
      rw [← h.valid, ← h.cferomOffset_eq, ← h.tailOffset_eq]
    have hbootfs := h.bootfs
    have hrootfs := h.rootfs
    rw [h.cferomOffset_eq, h.tailOffset_eq] at hbootfs
    rw [h.tailOffset_eq] at hrootfs
    refine (gives_parse_iff h.length_ge).mpr ⟨some (info.bootfsOffset, .ok ()), ?_,
      gives_parseBehind_ok_iff.mpr ⟨_, ?_, hinfo⟩⟩
    · exact (ends_bootfs_iff htail).mpr hbootfs
    · exact (ends_rootfs_iff htail).mpr ⟨hrootfs, h.readable⟩

theorem ofLe32_of_short {bytes : List UInt8} (h : bytes.length < 4) : ofLe32 bytes = 0 := by
  rcases bytes with _ | ⟨a, _ | ⟨b, _ | ⟨c, _ | ⟨d, rest⟩⟩⟩⟩
  · rfl
  · rfl
  · rfl
  · rfl
  · simp only [length_cons] at h
    omega

theorem bytes_of_ubiAt (h : ubiAt file offset = true) :
    (file.drop offset).take 4 = [0x55, 0x42, 0x49, 0x23] := by
  rw [ubiAt, decide_eq_true_eq] at h
  by_cases hlength : offset + 4 ≤ file.length
  · have hbytes := word32_ofWord32 true hlength
    rw [h] at hbytes
    exact hbytes.symm
  · have hshort : ((file.drop offset).take 4).length < 4 := by
      rw [length_take, length_drop]
      omega
    rw [ofWord32, if_pos rfl, ofLe32_of_short (by rw [length_reverse]; exact hshort)] at h
    exact absurd h (by decide)

theorem not_jffs2At_of_ubiAt (h : ubiAt file offset = true) :
    jffs2At file offset = false := by
  have hbytes := bytes_of_ubiAt h
  have htwo : (file.drop offset).take 2 = ((file.drop offset).take 4).take 2 := by
    rw [take_take]
    rfl
  rw [jffs2At, ← ofHalf_take, htwo, hbytes]
  decide

theorem paddingFrom_cases (bootfs k : Nat) : paddingFrom file bootfs k = 0 ∨
    ∃ j < k, paddingFrom file bootfs k = bootfs + j * blockLen ∧
      isAllFf (fread file (bootfs + j * blockLen) 256) = true := by
  induction k with
  | zero => exact .inl rfl
  | succ k ih =>
    rw [paddingFrom]
    split_ifs with hff
    · exact .inr ⟨k, lt_succ_self k, rfl, hff.2⟩
    · rcases ih with hzero | ⟨j, hj, hpadding, hff⟩
      · exact .inl hzero
      · exact .inr ⟨j, lt_succ_of_lt hj, hpadding, hff⟩

end Accepts

end LibWrt.Bcm4908img
