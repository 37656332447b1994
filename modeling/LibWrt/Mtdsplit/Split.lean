/-
LibWrt.Mtdsplit.Split — where the kernel and the root file system are.

If an image fits, the loop over the blocks ends at the first one. Behind it the
root file system is looked for, or before it, so the two partitions are what
they should be. For a TRX image this depends on the offsets in its header.
-/
import LibWrt.Mtdsplit.Kernel

namespace LibWrt.Mtdsplit

open List Nat Int

structure Apart (m : Master) (a b : Part) : Prop where
  left_pos : 0 < a.size
  right_pos : 0 < b.size
  left_le : a.offset + a.size ≤ m.size
  right_le : b.offset + b.size ≤ m.size
  disjoint : a.offset + a.size ≤ b.offset ∨ b.offset + b.size ≤ a.offset

/-- A kernel that starts where it may, and a root file system. -/
def SplitBy (m : Master) (starts : Nat → Prop) (ps : List Part) : Prop :=
  ∃ kernel rootfs, (ps = [kernel, rootfs] ∨ ps = [rootfs, kernel]) ∧ kernel.name = "kernel" ∧
    Apart m kernel rootfs ∧ starts kernel.offset

/-- A block begins with a header that is accepted, and the image that it declares fits. -/
def Fits (m : Master) (accept : Nat → Option Image) (declared : List UInt8 → Int)
    (offset : Nat) : Prop :=
  (∃ k, offset = k * m.erasesize) ∧ offset < m.size ∧ ∃ image, accept offset = some image ∧
    offset + declared image.header ≤ m.size

/-- The sizes that are declared at the start of a block are not negative, and in a `size_t`, also
behind the device. -/
def Declares (m : Master) (accept : Nat → Option Image) (declared : List UInt8 → Int) : Prop :=
  ∀ k image, accept (k * m.erasesize) = some image →
    0 ≤ declared image.header ∧ declared image.header + m.size < 2 ^ m.bits

section Image

variable {m : Master} {accept : Nat → Option Image} {declared : List UInt8 → Int}

/-- The size of an image is what is declared, in a `size_t`. -/
def Wraps (m : Master) (accept : Nat → Option Image) (declared : List UInt8 → Int) : Prop :=
  ∀ offset image, accept offset = some image →
    image.size = (declared image.header % (2 ^ m.bits : Nat)).toNat

variable {offset k : Nat} {image : Image}

theorem size_eq (hwraps : Wraps m accept declared) (hdeclares : Declares m accept declared)
    (h : accept (k * m.erasesize) = some image) :
    (image.size : Int) = declared image.header ∧ image.size + m.size < 2 ^ m.bits := by
  obtain ⟨hpos, hlt⟩ := hdeclares k image h
  have hpow : ((2 ^ m.bits : Nat) : Int) = 2 ^ m.bits := by norm_cast
  have hmod : declared image.header % (2 ^ m.bits : Nat) = declared image.header := by
    refine emod_eq_of_lt hpos ?_
    rw [hpow]
    omega
  have hsize := hwraps _ image h
  rw [hmod] at hsize
  have heq : (image.size : Int) = declared image.header := by omega
  refine ⟨heq, ?_⟩
  zify
  omega

/-- The loop ends at the first header whose image fits, if there is one. -/
theorem found_of_fits (hsmall : m.Small) (hwraps : Wraps m accept declared)
    (hdeclares : Declares m accept declared) {o : Nat} (ho : Fits m accept declared o) {n : Nat}
    {image' : Image} (h : m.findImage accept n 0 image = some (offset, image')) :
    Found m accept 0 offset image' ∧ NoneFits m accept 0 offset := by
  have hspec := findImage_spec hsmall (fun k image himage =>
    (size_eq hwraps hdeclares himage).2) (j := 0) (by rwa [Nat.zero_mul])
  refine hspec.resolve_right fun hnone => ?_
  obtain ⟨⟨k, rfl⟩, hlt, image, himage, hfits⟩ := ho
  obtain ⟨heq, -⟩ := size_eq hwraps hdeclares himage
  have hbig := hnone k image (Nat.zero_le k) hlt himage
  omega

theorem Found.fits (hwraps : Wraps m accept declared) (hdeclares : Declares m accept declared)
    (h : Found m accept 0 offset image) :
    Fits m accept declared offset := by
  obtain ⟨⟨k, -, rfl⟩, hlt, himage, hfit⟩ := h
  obtain ⟨heq, -⟩ := size_eq hwraps hdeclares himage
  exact ⟨⟨k, rfl⟩, hlt, image, himage, by omega⟩

theorem kernelAndRootfs_apart (hsmall : m.Small) {before : Int → Int} {size : Nat} {ps : List Part}
    (hsize : 0 < size) (hfit : offset + size ≤ m.size) (hwrap : size + m.size < 2 ^ m.bits)
    (h : kernelAndRootfs m before offset size = .parts ps) :
    ∃ kernel rootfs, (ps = [kernel, rootfs] ∨ ps = [rootfs, kernel]) ∧ kernel.name = "kernel" ∧
      Apart m kernel rootfs ∧ kernel.offset = offset := by
  have hpow := m.two_pow_le
  have hsum := hsmall
  rw [Master.Small] at hsum
  rw [kernelAndRootfs] at h
  split_ifs at h with hzero
  · subst hzero
    rw [wrap_of_lt (by omega), wrap_of_lt (n := m.size) (by omega), Nat.zero_add] at h
    split at h
    · cases h
    · cases h
    · rename_i rootfsOffset type hroot
      obtain ⟨hle, hlt⟩ := findRootfs_spec hsmall le_rfl hroot
      rw [wrap_of_lt (by omega), wrap_of_lt (by omega)] at h
      dsimp only at h
      rw [if_neg (by omega)] at h
      refine ⟨_, _, .inl (Result.parts.inj h).symm, rfl, ?_, rfl⟩
      constructor
      · dsimp only; omega
      · dsimp only; omega
      · dsimp only; omega
      · dsimp only; omega
      · left; dsimp only; omega
  · split at h
    · cases h
    · refine ⟨_, _, .inr (Result.parts.inj h).symm, rfl, ?_, rfl⟩
      constructor
      · exact hsize
      · exact Nat.pos_of_ne_zero hzero
      · exact hfit
      · dsimp only; omega
      · right; dsimp only; omega

/-- The partitions are right if and only if an image fits. -/
theorem parseImage_iff (hsmall : m.Small) (hwraps : Wraps m accept declared)
    (hdeclares : Declares m accept declared) {missing : Int} {before : Int → Int}
    {ps : List Part} (h : parseImage m accept missing before = .parts ps) :
    SplitBy m (Fits m accept declared) ps ↔ ∃ o, Fits m accept declared o := by
  constructor
  · rintro ⟨kernel, -, -, -, -, hfits⟩
    exact ⟨kernel.offset, hfits⟩
  · rintro ⟨o, ho⟩
    rw [parseImage] at h
    split at h
    · cases h
    · rename_i offset image hfind
      split_ifs at h with hempty
      have hfound := (found_of_fits hsmall hwraps hdeclares ho hfind).1
      have hfits := hfound.fits hwraps hdeclares
      obtain ⟨⟨k, -, rfl⟩, hlt, himage, hfit⟩ := hfound
      obtain ⟨kernel, rootfs, hps, hname, hapart, hoffset⟩ :=
        kernelAndRootfs_apart hsmall (Nat.pos_of_ne_zero hempty) hfit
          (size_eq hwraps hdeclares himage).2 h
      exact ⟨kernel, rootfs, hps, hname, hapart, hoffset ▸ hfits⟩

end Image

/-! ## The three parsers -/

def FirstFits (m : Master) (accept : Nat → Option Image) (declared : List UInt8 → Int)
    (offset : Nat) : Prop :=
  Fits m accept declared offset ∧ ∀ o, o < offset → ¬Fits m accept declared o

section Parsers

variable {m : Master}

theorem FirstFits.eq_of_found {accept : Nat → Option Image} {declared : List UInt8 → Int}
    (hwraps : Wraps m accept declared) (hdeclares : Declares m accept declared) {o offset : Nat}
    {image : Image} (h : FirstFits m accept declared o) (hfound : Found m accept 0 offset image)
    (hnone : NoneFits m accept 0 offset) : offset = o := by
  rcases Nat.lt_trichotomy offset o with hlt | rfl | hgt
  · exact absurd (hfound.fits hwraps hdeclares) (h.2 offset hlt)
  · rfl
  · obtain ⟨⟨k, rfl⟩, -, image₁, himage, hfit⟩ := h.1
    have hbig := hnone k image₁ (Nat.zero_le k) hgt himage
    have heq := (size_eq hwraps hdeclares himage).1
    omega

theorem uimage_wraps (u : Uimage) : Wraps m (uimageAccept m u) (uimageDeclared u) := by
  intro offset image h
  rw [uimageAccept] at h
  split at h
  · cases h
  · dsimp only at h
    split_ifs at h
    cases h
    rfl

def jimageSize (m : Master) (header : List UInt8) : Int := jimageDeclared m 0 header

theorem jimage_wraps : Wraps m (jimageAccept m (jimageVerifyDefault m.bigEndian))
    (jimageSize m) := by
  intro offset image h
  rw [jimageAccept] at h
  split at h
  · cases h
  · rw [Option.map_eq_some_iff] at h
    obtain ⟨ret, hret, rfl⟩ := h
    rw [jimageVerifyDefault] at hret
    split_ifs at hret
    cases hret
    rw [jimageSize, ← natCast_mod, toNat_natCast]
    rfl

def trxSize (header : List UInt8) : Int := trxDeclared header

theorem trx_wraps : Wraps m (trxAccept m) trxSize := by
  intro offset image h
  rw [trxAccept] at h
  split at h
  · cases h
  · split_ifs at h
    cases h
    rw [trxSize, ← natCast_mod, toNat_natCast]
    rfl

/-- The offsets of a TRX header are in order, and lead into the device. -/
def Ordered (m : Master) (offset : Nat) (header : List UInt8) : Prop :=
  trxOffset m header 0 < trxOffset m header 1 ∧ offset + trxOffset m header 1 < m.size

/-- A difference that does not wrap around. -/
theorem wrap_sub {n r k : Nat} (hle : r ≤ n) (hlt : n < 2 ^ m.bits) (hk : 2 ^ m.bits ∣ k) :
    m.wrap (n + k - r) = n - r := by
  have heq : n + k - r = n - r + k := by omega
  rw [Master.wrap, heq, add_mod, mod_eq_zero_of_dvd hk, Nat.add_zero, mod_mod]
  exact mod_eq_of_lt (by omega)

theorem mtdsplitParseTrx_apart (hsmall : m.Small) (hdeclares : Declares m (trxAccept m) trxSize)
    {ps : List Part} (h : mtdsplitParseTrx m = .parts ps) {offset : Nat} {image : Image}
    (hfirst : FirstFits m (trxAccept m) trxSize offset) (himage : trxAccept m offset = some image)
    (hordered : Ordered m offset image.header) :
    SplitBy m (fun start => start = offset + trxOffset m image.header 0) ps := by
  rw [mtdsplitParseTrx] at h
  split at h
  · cases h
  · rename_i offset₁ image₁ hfind
    obtain ⟨hfound, hnone⟩ := found_of_fits hsmall trx_wraps hdeclares hfirst.1 hfind
    obtain rfl := hfirst.eq_of_found trx_wraps hdeclares hfound hnone
    obtain rfl : image = image₁ := Option.some.inj (himage.symm.trans hfound.2.2.1)
    obtain ⟨hlt, hin⟩ := hordered
    have hpow := m.two_pow_le
    have hsum := hsmall
    rw [Master.Small] at hsum
    have hkernel : m.wrap (offset₁ + trxOffset m image.header 0) =
        offset₁ + trxOffset m image.header 0 := wrap_of_lt (by omega)
    have hrootfs : m.wrap (offset₁ + trxOffset m image.header 1) =
        offset₁ + trxOffset m image.header 1 := wrap_of_lt (by omega)
    have hrest : m.wrap (m.size + 2 ^ 64 - (offset₁ + trxOffset m image.header 1)) =
        m.size - (offset₁ + trxOffset m image.header 1) :=
      wrap_sub (by omega) (by have hpos := m.erasesize_pos; omega)
        (Nat.pow_dvd_pow 2 m.bits_le)
    dsimp only at h
    rw [hkernel, hrootfs, hrest, wrap_sub (by omega) (by omega) dvd_rfl] at h
    split_ifs at h
    refine ⟨_, _, .inl (Result.parts.inj h).symm, rfl, ?_, rfl⟩
    constructor
    · dsimp only; omega
    · dsimp only; omega
    · dsimp only; omega
    · dsimp only; omega
    · left; dsimp only; omega

/-- What the three parsers make of a device. -/
theorem parsers_split (hsmall : m.Small) :
    (∀ (np : Option UimageNode) (ps : List Part),
      Declares m (uimageAccept m (uimageParseDt np)) (uimageDeclared (uimageParseDt np)) →
      mtdsplitParseUimage m np = .parts ps →
      (SplitBy m (Fits m (uimageAccept m (uimageParseDt np)) (uimageDeclared (uimageParseDt np)))
          ps ↔
        ∃ o, Fits m (uimageAccept m (uimageParseDt np)) (uimageDeclared (uimageParseDt np)) o)) ∧
    (∀ ps : List Part,
      Declares m (jimageAccept m (jimageVerifyDefault m.bigEndian)) (jimageSize m) →
      mtdsplitParseJimage m = .parts ps →
      (SplitBy m (Fits m (jimageAccept m (jimageVerifyDefault m.bigEndian)) (jimageSize m)) ps ↔
        ∃ o, Fits m (jimageAccept m (jimageVerifyDefault m.bigEndian)) (jimageSize m) o)) ∧
    (∀ (ps : List Part) (offset : Nat) (image : Image),
      Declares m (trxAccept m) trxSize →
      mtdsplitParseTrx m = .parts ps →
      FirstFits m (trxAccept m) trxSize offset → trxAccept m offset = some image →
      Ordered m offset image.header →
      SplitBy m (fun start => start = offset + trxOffset m image.header 0) ps) := by
  refine ⟨?_, ?_, ?_⟩
  · intro np ps hdeclares h
    exact parseImage_iff hsmall (uimage_wraps _) hdeclares h
  · intro ps hdeclares h
    exact parseImage_iff hsmall jimage_wraps hdeclares h
  · intro ps offset image hdeclares h hfirst himage hordered
    exact mtdsplitParseTrx_apart hsmall hdeclares h hfirst himage hordered

/-- In 64 bits, no size that is declared wraps around. -/
theorem declares_of_wide (hsmall : m.Small) (hbits : m.bits = 64) :
    (∀ u : Uimage, -64 ≤ u.extralen.toInt →
      Declares m (uimageAccept m u) (uimageDeclared u)) ∧
    Declares m (jimageAccept m (jimageVerifyDefault m.bigEndian)) (jimageSize m) ∧
    Declares m (trxAccept m) trxSize := by
  rw [Master.Small] at hsmall
  refine ⟨?_, ?_, ?_⟩
  · intro u hu offset image _
    have hlt := BitVec.toInt_lt (x := u.extralen)
    rw [uimageDeclared, uimageHeaderLen, hbits]
    omega
  · intro offset image _
    rw [jimageSize, jimageDeclared, jimageHeaderLen, hbits]
    omega
  · intro offset image _
    rw [trxSize, trxDeclared, hbits]
    omega

theorem block_pos : 0 < 64 := by decide

def flash (content : List UInt8) (hlt : content.length < 2 ^ 64) : Master :=
  readable content 64 false block_pos hlt

/-- A uImage header with a size of less than 256, and the rest of its block. -/
def uimageBlock (size : UInt8) : List UInt8 :=
  [0x27, 0x05, 0x19, 0x56] ++ replicate 11 0 ++ [size] ++ replicate 12 0 ++ [5, 0, 2] ++
    replicate 33 0

def trxBlock (len kernel rootfs : UInt8) : List UInt8 :=
  [0x48, 0x44, 0x52, 0x30, len] ++ replicate 11 0 ++ [kernel, 0, 0, 0, rootfs] ++
    replicate 43 0

def jimageBlock (size : UInt8) : List UInt8 :=
  [4, 4, 0x24, 0x2B] ++ replicate 12 0 ++ [0x24, 0x21, 0, 2] ++ replicate 4 0 ++ [size] ++
    replicate 39 0

def squashfsBlock : List UInt8 := [0x68, 0x73, 0x71, 0x73] ++ replicate 60 0

/-- A header in the last block whose image does not fit gives a kernel behind the device, and
the kernel of a TRX image is behind its header. -/
theorem parsers_split_fails :
    (∃ m ps, mtdsplitParseUimage m none = .parts ps ∧
      ¬SplitBy m (Fits m (uimageAccept m uimageDefault) (uimageDeclared uimageDefault)) ps) ∧
    ∃ m ps, mtdsplitParseTrx m = .parts ps ∧ ¬SplitBy m (Fits m (trxAccept m) trxSize) ps := by
  constructor
  · refine ⟨flash (squashfsBlock ++ uimageBlock 1) (by decide +kernel),
      [⟨"rootfs", 0, 128⟩, ⟨"kernel", 128, 65⟩], by decide +kernel, ?_⟩
    intro h
    obtain ⟨kernel, rootfs, hps | hps, hname, hapart, -⟩ := h
    · cases hps
      exact absurd hname (by decide)
    · cases hps
      exact absurd hapart.left_le (by decide +kernel)
  · refine ⟨flash (trxBlock 128 28 64 ++ squashfsBlock) (by decide +kernel),
      [⟨"kernel", 28, 36⟩, ⟨"rootfs", 64, 64⟩], by decide +kernel, ?_⟩
    intro h
    obtain ⟨kernel, rootfs, hps | hps, hname, -, ⟨k, hk⟩, -⟩ := h
    · cases hps
      change 28 = k * 64 at hk
      omega
    · cases hps
      exact absurd hname (by decide)

theorem parsers_split_flash :
    (∃ m ps, mtdsplitParseUimage m none = .parts ps ∧
      SplitBy m (Fits m (uimageAccept m uimageDefault) (uimageDeclared uimageDefault)) ps) ∧
    (∃ m ps, mtdsplitParseJimage m = .parts ps ∧
      SplitBy m (Fits m (jimageAccept m (jimageVerifyDefault m.bigEndian)) (jimageSize m)) ps) ∧
    ∃ m ps, mtdsplitParseTrx m = .parts ps ∧ SplitBy m (fun start => start = 28) ps := by
  refine ⟨?_, ?_, ?_⟩
  · let m := flash (uimageBlock 0 ++ squashfsBlock) (by decide +kernel)
    have hsmall : m.Small := by change _ ≤ _; decide +kernel
    refine ⟨m, [⟨"kernel", 0, 64⟩, ⟨"rootfs", 64, 64⟩], by decide +kernel, ?_⟩
    refine ((parsers_split hsmall).1 none _ ((declares_of_wide hsmall rfl).1 _ (by decide))
      (by decide +kernel)).mpr ⟨0, ⟨0, rfl⟩, by decide +kernel, _, rfl, by decide +kernel⟩
  · let m := flash (squashfsBlock ++ jimageBlock 8) (by decide +kernel)
    have hsmall : m.Small := by change _ ≤ _; decide +kernel
    refine ⟨m, [⟨"rootfs", 0, 64⟩, ⟨"kernel", 64, 64⟩], by decide +kernel, ?_⟩
    refine ((parsers_split hsmall).2.1 _ (declares_of_wide hsmall rfl).2.1
      (by decide +kernel)).mpr ⟨64, ⟨1, rfl⟩, by decide +kernel, _, rfl, by decide +kernel⟩
  · let m := flash (trxBlock 128 28 64 ++ squashfsBlock) (by decide +kernel)
    have hsmall : m.Small := by change _ ≤ _; decide +kernel
    refine ⟨m, [⟨"kernel", 28, 36⟩, ⟨"rootfs", 64, 64⟩], by decide +kernel, ?_⟩
    refine (parsers_split hsmall).2.2 _ 0 _ (declares_of_wide hsmall rfl).2.2
      (by decide +kernel) ⟨⟨⟨0, rfl⟩, by decide +kernel, _, rfl, by decide +kernel⟩, ?_⟩ rfl
      ⟨by decide +kernel, by decide +kernel⟩
    intro o ho
    omega

end Parsers

end LibWrt.Mtdsplit
