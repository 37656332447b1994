/-
LibWrt.Mtd.ReadBack — whether what was written is what is read.

The writer and the dumper drop bad blocks, the verifier does not: it finds the
image only if there is no bad block inside, or if what is in one happens to give
the same sum. The dumper moves on by less than a block where the last piece of
the image is behind a bad one, so it may read that piece in the middle.
-/
import LibWrt.Mtd.Dump
import LibWrt.Mtd.Placement

namespace LibWrt.Mtd

open List Nat

/-- The partition with the image in its first good blocks, and `0xff` behind it. -/
def laid (c : Chip) (image : List UInt8) : Chip :=
  { c with
    data := fun x =>
      if c.geo.Good (x / c.geo.erasesize) ∧
          count c.geo.Good (x / c.geo.erasesize) < chunks c.geo.erasesize image then
        image.getD (count c.geo.Good (x / c.geo.erasesize) * c.geo.erasesize +
          x % c.geo.erasesize) 0xff
      else c.data x }

/-- The dump begins with `n` bytes of good blocks; without a size everything is dumped, so there
must be nothing. -/
def Clean (g : Geometry) (n : Nat) : Prop :=
  n = 0 ∧ (∀ b < g.blocks, ¬ g.Good b) ∨ n ≠ 0 ∧ ∀ b, b * g.erasesize < n → g.Good b

/-- The chunks that were written, of what the reads delivered, begin with the image. -/
def Delivers (erasesize : Nat) (written image : List UInt8) : Prop :=
  ∀ x < image.length, x / erasesize < chunks erasesize written ∧
    written.getD x 0xff = image.getD x 0xff

/-! ## What is stored -/

section Laid

variable {c c' : Chip} {image : List UInt8}

theorem getElem?_chunk {erasesize k x : Nat} (hx : x < erasesize) :
    (chunk erasesize image k)[x]? = some (image.getD (k * erasesize + x) 0xff) := by
  have hlen : ((image.drop (k * erasesize)).take erasesize).length =
      min erasesize (image.length - k * erasesize) := by simp
  rw [chunk, padded]
  rcases Nat.lt_or_ge (k * erasesize + x) image.length with hlt | hge
  · rw [getElem?_append_left (by omega), getElem?_take_of_lt hx, getElem?_drop,
      getElem?_eq_getElem hlt, getD_eq_getElem _ _ hlt]
  · rw [getElem?_append_right (by omega), getElem?_replicate,
      getD_eq_default _ _ hge, if_pos (by omega)]

/-- A block that no chunk went to is as it was. -/
theorem data_kept {place : Nat → Nat} {n x : Nat} (h : ∀ k < n, x / c.geo.erasesize ≠ place k) :
    (c.storeChunks place image n).data x = c.data x := by
  induction n with
  | zero => rfl
  | succ n ih =>
    have hlen : (chunk c.geo.erasesize image n).length ≤
        (c.storeChunks place image n).geo.erasesize := by simp
    have hne : x / (c.storeChunks place image n).geo.erasesize ≠ place n := by
      rw [geo_storeChunks]
      exact h n (by omega)
    have hother := Chip.data_other hne hlen
    rw [geo_storeChunks] at hother
    rw [← ih fun k hk => h k (by omega), ← hother]
    simp only [Chip.storeChunks, Chip.storeChunk, geo_storeChunks]

theorem Stored.eq_laid (h : Stored c 0 image c') :
    c' = { laid c image with ops := c'.ops } := by
  have hpos := c.geo.erasesize_pos
  have hdata : c'.data = (laid c image).data := by
    funext x
    rw [h.chip]
    simp only [laid]
    split_ifs with hin
    · obtain ⟨hgood, hlt⟩ := hin
      have hplace : placeOf c.geo 0 (count c.geo.Good (x / c.geo.erasesize)) =
          x / c.geo.erasesize := by rw [placeOf, nth_count hgood, Nat.zero_add]
      have hstored := @data_storeChunks c _ image _ _ _ h.fits.injective hlt (mod_lt x hpos)
      rw [hplace, div_add_mod', getElem?_chunk (mod_lt x hpos)] at hstored
      exact (Option.some.inj hstored).symm
    · refine data_kept fun k hk hblock => hin ?_
      have hgood := h.fits.good k hk
      have hcount := h.fits.count k hk
      have hnth : placeOf c.geo 0 k = nth c.geo.Good k := Nat.zero_add _
      rw [hblock, hnth, hcount]
      exact ⟨hnth ▸ hgood, hk⟩
  have hgeo : c'.geo = c.geo := by rw [h.chip, geo_storeChunks]
  obtain ⟨geo, data, ops⟩ := c'
  simp only at hdata hgeo
  rw [hdata, hgeo]
  rfl

/-- In a good block with good blocks before it are the bytes of the chunk, or it is as it was. -/
theorem data_laid {x : Nat} (hgood : ∀ b, b * c.geo.erasesize ≤ x → c.geo.Good b) :
    (laid c image).data x =
      if x / c.geo.erasesize < chunks c.geo.erasesize image then image.getD x 0xff
      else c.data x := by
  have hcount : count c.geo.Good (x / c.geo.erasesize) = x / c.geo.erasesize :=
    count_iff_forall.mpr fun b hb => hgood b
      ((Nat.mul_le_mul_right _ hb.le).trans (div_mul_le_self _ _))
  have hblock : c.geo.Good (x / c.geo.erasesize) := hgood _ (div_mul_le_self _ _)
  simp only [laid, hblock, hcount, div_add_mod', true_and]

end Laid

/-! ## Nothing to dump -/

section Dumped

variable {c : Chip}

theorem dumped_eq_nil {j : Nat} (hj : j ≤ c.geo.blocks) :
    dumped c j = [] ↔ ∀ b < j, ¬ c.geo.Good b := by
  induction j with
  | zero => simp [dumped]
  | succ j ih =>
    have hfirst := ih (le_of_succ_le hj)
    rw [dumped]
    split_ifs with hgood
    · have hread : c.read (j * c.geo.erasesize) c.geo.erasesize ≠ [] := by
        have hpos := c.geo.erasesize_pos
        have hle := mul_le_size hj
        rw [succ_mul] at hle
        rw [← length_pos_iff, length_read]
        omega
      constructor
      · intro h
        exact absurd (append_eq_nil_iff.mp h).2 hread
      · intro h
        exact absurd hgood (h j (lt_succ_self j))
    · rw [hfirst]
      constructor
      · intro h b hb
        rcases Nat.lt_succ_iff_lt_or_eq.mp hb with hb | rfl
        · exact h b hb
        · exact hgood
      · intro h b hb
        exact h b (lt_succ_of_lt hb)

end Dumped

/-! ## Other bytes before -/

section Alike

variable {opt : Options} {s t s' : Writer}

/-- Runs over devices with the same blocks, whatever is stored in them. -/
structure Alike (s t : Writer) : Prop where
  same : t = { s with chip := t.chip }
  geo : t.chip.geo = s.chip.geo

theorem Alike.erasesize (h : Alike s t) : t.erasesize = s.erasesize := by
  rw [Writer.erasesize, h.geo]
  rfl

theorem Alike.readChunk (h : Alike s t) (hread : readChunk s = .ok s') :
    ∃ t', Mtd.readChunk t = .ok t' ∧ Alike s' t' ∧ s'.next = s.next := by
  unfold Mtd.readChunk at hread ⊢
  rw [h.erasesize, h.same]
  dsimp only at hread ⊢
  split at hread
  · cases hread
  · split_ifs at hread ⊢
    · obtain rfl := Except.ok.inj hread
      exact ⟨_, rfl, ⟨rfl, h.geo⟩, rfl⟩
    · obtain rfl := Except.ok.inj hread
      exact ⟨_, rfl, ⟨rfl, h.geo⟩, rfl⟩

theorem Alike.padChunk (h : Alike s t) (hpad : padChunk s = .ok s') :
    ∃ t', Mtd.padChunk t = .ok t' ∧ Alike s' t' ∧ s'.next = s.next := by
  unfold Mtd.padChunk at hpad ⊢
  rw [h.erasesize, h.same]
  dsimp only
  split_ifs at hpad ⊢ with hlt
  · split at hpad
    · cases hpad
    · obtain rfl := Except.ok.inj hpad
      exact ⟨_, rfl, ⟨rfl, h.geo⟩, rfl⟩
  · obtain rfl := Except.ok.inj hpad
    exact ⟨_, rfl, ⟨rfl, h.geo⟩, rfl⟩

theorem Chip.erase_alike {c d c' : Chip} {start : Nat} (hgeo : d.geo = c.geo)
    (h : c.erase start = some c') : ∃ d', d.erase start = some d' ∧ d'.geo = c'.geo := by
  unfold Chip.erase at h ⊢
  rw [hgeo]
  dsimp only at h ⊢
  split_ifs at h ⊢
  obtain rfl := Option.some.inj h
  exact ⟨_, rfl, hgeo⟩

theorem Alike.eraseTurn {r : Bool} (h : Alike s t) (hlast : s.next = [])
    (hturn : eraseTurn opt s = .ok (r, s')) :
    ∃ t', Mtd.eraseTurn opt t = .ok (r, t') ∧ Alike s' t' ∧ s'.next = [] := by
  have hbad : t.chip.mtdBlockIsBad s.e = s.chip.mtdBlockIsBad s.e := by
    unfold Chip.mtdBlockIsBad Chip.isBad
    rw [h.geo]
  unfold Mtd.eraseTurn at hturn ⊢
  rw [h.erasesize, h.same]
  dsimp only
  rw [hbad, h.geo]
  split at hturn
  · cases hturn
  · obtain ⟨rfl, rfl⟩ := Prod.mk.inj (Except.ok.inj hturn)
    exact ⟨_, rfl, ⟨rfl, h.geo⟩, hlast⟩
  · split at hturn
    · rename_i chip herase
      obtain ⟨rfl, rfl⟩ := Prod.mk.inj (Except.ok.inj hturn)
      obtain ⟨chip', herase', hgeo⟩ := Chip.erase_alike h.geo herase
      dsimp only
      rw [herase']
      exact ⟨_, rfl, ⟨rfl, hgeo⟩, hlast⟩
    · rw [hlast] at hturn
      cases hturn

theorem Alike.eraseLoop {r : Bool} {n : Nat} (h : Alike s t) (hlast : s.next = [])
    (hloop : eraseLoop opt n s = .ok (r, s')) :
    ∃ t', Mtd.eraseLoop opt n t = .ok (r, t') ∧ Alike s' t' ∧ s'.next = [] := by
  induction n generalizing s t with
  | zero => cases hloop
  | succ n ih =>
    have hturns : t.w + t.buflen + t.skipBadBlocks ≤ t.e ↔
        s.w + s.buflen + s.skipBadBlocks ≤ s.e := by rw [h.same]
    rw [Mtd.eraseLoop] at hloop ⊢
    split_ifs at hloop with hdone
    · obtain ⟨rfl, rfl⟩ := Prod.mk.inj (Except.ok.inj hloop)
      rw [if_pos (hturns.mpr hdone)]
      exact ⟨t, rfl, h, hlast⟩
    · rw [if_neg fun hle => hdone (hturns.mp hle)]
      split at hloop
      · cases hloop
      · rename_i s₁ hturn
        obtain ⟨rfl, rfl⟩ := Prod.mk.inj (Except.ok.inj hloop)
        obtain ⟨t₁, hturn', halike, hlast'⟩ := h.eraseTurn hlast hturn
        rw [hturn']
        exact ⟨t₁, rfl, halike, hlast'⟩
      · rename_i s₁ hturn
        obtain ⟨t₁, hturn', halike, hlast'⟩ := h.eraseTurn hlast hturn
        rw [hturn']
        exact ih halike hlast' hloop

theorem Alike.writeChunk (h : Alike s t) (hwrite : writeChunk s = .ok s') :
    ∃ t', Mtd.writeChunk t = .ok t' ∧ Alike s' t' ∧ s'.next = s.next := by
  unfold Mtd.writeChunk at hwrite ⊢
  rw [h.same]
  dsimp only
  split at hwrite
  · cases hwrite
  · unfold Chip.write at hwrite ⊢
    rw [h.geo]
    split_ifs at hwrite ⊢
    dsimp only at hwrite ⊢
    split_ifs at hwrite ⊢
    obtain rfl := Except.ok.inj hwrite
    exact ⟨_, rfl, ⟨rfl, h.geo⟩, rfl⟩

theorem Alike.writeTurn {last : Bool} (h : Alike s t) (hlast : s.next = [])
    (hturn : writeTurn opt s = .ok (last, s')) :
    ∃ t', Mtd.writeTurn opt t = .ok (last, t') ∧ Alike s' t' ∧ s'.next = [] := by
  unfold Mtd.writeTurn at hturn ⊢
  split at hturn
  · cases hturn
  · rename_i s₁ hread
    obtain ⟨t₁, hread', h₁, hnext₁⟩ := h.readChunk hread
    have hlen : t₁.buflen = s₁.buflen := by rw [h₁.same]
    rw [hread']
    dsimp only
    rw [hlen]
    split_ifs at hturn ⊢
    · obtain ⟨rfl, rfl⟩ := Prod.mk.inj (Except.ok.inj hturn)
      exact ⟨t₁, rfl, h₁, hnext₁.trans hlast⟩
    · split at hturn
      · cases hturn
      · rename_i s₂ hpad
        obtain ⟨t₂, hpad', h₂, hnext₂⟩ := h₁.padChunk hpad
        have hlast₂ : s₂.next = [] := hnext₂.trans (hnext₁.trans hlast)
        have herase : ∀ r s₃, eraseChunk opt s₂ = .ok (r, s₃) →
            ∃ t₃, eraseChunk opt t₂ = .ok (r, t₃) ∧ Alike s₃ t₃ ∧ s₃.next = [] := by
          intro r s₃ herase
          unfold eraseChunk at herase ⊢
          split_ifs at herase ⊢
          · obtain ⟨rfl, rfl⟩ := Prod.mk.inj (Except.ok.inj herase)
            exact ⟨t₂, rfl, h₂, hlast₂⟩
          · rw [h₂.geo]
            exact h₂.eraseLoop hlast₂ herase
        rw [hpad']
        dsimp only
        split at hturn
        · cases hturn
        · rename_i s₃ hs₃
          obtain ⟨rfl, rfl⟩ := Prod.mk.inj (Except.ok.inj hturn)
          obtain ⟨t₃, ht₃, h₃⟩ := herase _ _ hs₃
          rw [ht₃]
          exact ⟨t₃, rfl, h₃⟩
        · rename_i s₃ hs₃
          obtain ⟨t₃, ht₃, h₃, hlast₃⟩ := herase _ _ hs₃
          rw [ht₃]
          dsimp only
          cases hwrite : Mtd.writeChunk s₃ with
          | error stop =>
            rw [hwrite] at hturn
            cases hturn
          | ok s₄ =>
            rw [hwrite] at hturn
            obtain ⟨rfl, rfl⟩ := Prod.mk.inj (Except.ok.inj hturn)
            obtain ⟨t₄, hwrite', h₄, hnext₄⟩ := h₃.writeChunk hwrite
            rw [hwrite']
            exact ⟨t₄, rfl, h₄, hnext₄.trans hlast₃⟩

theorem Alike.writeLoop {n : Nat} (h : Alike s t) (hlast : s.next = [])
    (hloop : writeLoop opt n s = .ok s') : ∃ t', Mtd.writeLoop opt n t = .ok t' := by
  induction n generalizing s t with
  | zero => cases hloop
  | succ n ih =>
    rw [Mtd.writeLoop] at hloop ⊢
    split at hloop
    · cases hloop
    · rename_i s₁ hturn
      obtain ⟨t₁, hturn', -⟩ := h.writeTurn hlast hturn
      rw [hturn']
      exact ⟨t₁, rfl⟩
    · rename_i s₁ hturn
      obtain ⟨t₁, hturn', h₁, hlast₁⟩ := h.writeTurn hlast hturn
      rw [hturn']
      exact ih h₁ hlast₁ hloop

/-- Whether an image is written does not depend on what is stored before. -/
theorem mtdWrite_data {c : Chip} {begun image : List UInt8} {later : List (List UInt8)}
    (h : mtdWrite opt c [] begun image later = .ok s') (data : Nat → UInt8) :
    ∃ t', mtdWrite opt { c with data := data } [] begun image later = .ok t' :=
  Alike.writeLoop (s := .start opt c [] begun image later)
    (t := .start opt { c with data := data } [] begun image later) ⟨rfl, rfl⟩ rfl h

end Alike

/-! ## Reading back -/

section ReadBack

variable {opt : Options} {c : Chip} {begun image : List UInt8} {later : List (List UInt8)}
  {s' : Writer}

theorem Stored.count_le {c' : Chip} (h : Stored c 0 image c') :
    chunks c.geo.erasesize image ≤ count c.geo.Good c.geo.blocks := by
  cases hn : chunks c.geo.erasesize image with
  | zero => exact Nat.zero_le _
  | succ n =>
    have hlast : n < chunks c.geo.erasesize image := by omega
    have hgood := h.fits.good n hlast
    have hlt := h.fits.lt n hlast
    have hcount := h.fits.count n hlast
    rw [placeOf, Nat.zero_add] at hgood hlt
    have hmono := count_monotone c.geo.Good hlt
    rw [count_succ, if_pos hgood, hcount] at hmono
    exact hmono

theorem mtdVerify_iff (md5 : Md5) (c : Chip) (file : List UInt8) :
    mtdVerify md5 c file = .ok true ↔
      md5.md5sum file = md5.md5sum (c.read 0 file.length) := by
  rw [mtdVerify_eq, Except.ok.injEq, decide_eq_true_eq]

/-- Of good blocks only, what is verified is what is dumped. -/
theorem dumped_of_verified {file : List UInt8} (hclean : Clean c.geo file.length)
    (hread : c.read 0 file.length = file) : mtdDump c 0 file.length = .ok file := by
  rcases hclean with ⟨hnil, hnone⟩ | ⟨hne, hgood⟩
  · rw [hnil, mtdDump_zero, (dumped_eq_nil le_rfl).mpr hnone, length_eq_zero_iff.mp hnil]
  · have hsize : file.length ≤ c.geo.size := by
      have hlen := congrArg length hread
      rw [length_read] at hlen
      omega
    rw [mtdDump_good (Nat.pos_of_ne_zero hne) hsize hgood, hread]

theorem read_eq_iff {file : List UInt8} : c.read 0 file.length = file ↔
    file.length ≤ c.geo.size ∧ ∀ x < file.length, c.data x = file.getD x 0xff := by
  constructor
  · intro hread
    have hlen := congrArg length hread
    rw [length_read] at hlen
    refine ⟨by omega, fun x hx => ?_⟩
    have hbyte : (c.read 0 file.length)[x]? = file[x]? := by rw [hread]
    rw [getElem?_read, if_pos (by omega), Nat.zero_add, getElem?_eq_getElem hx] at hbyte
    rw [getD_eq_getElem _ _ hx]
    exact Option.some.inj hbyte
  · rintro ⟨hle, hdata⟩
    refine ext_getElem? fun x => ?_
    rw [getElem?_read, Nat.zero_add]
    split_ifs with hx
    · have hlt : x < file.length := by omega
      rw [hdata x hlt, getElem?_eq_getElem hlt, getD_eq_getElem _ _ hlt]
    · rw [getElem?_eq_none (by omega)]

/-- The image is found at the start of the partition, whatever was there before, if and only if it
was delivered and its blocks are good. -/
theorem read_laid_iff {written whole : List UInt8} (hne : whole ≠ [])
    (hroom : chunks c.geo.erasesize written ≤ c.geo.blocks) :
    (∀ data, (laid { c with data := data } written).read 0 whole.length = whole) ↔
      Clean c.geo whole.length ∧ Delivers c.geo.erasesize written whole := by
  have hlen : 0 < whole.length := length_pos_iff.mpr hne
  have hpos := c.geo.erasesize_pos
  constructor
  · intro hread
    have hdata := fun data => (read_eq_iff.mp (hread data)).2
    have hgood : ∀ b, b * c.geo.erasesize < whole.length → c.geo.Good b := by
      intro b hb
      by_contra hbad
      -- a bad block keeps what was there
      have hkept := hdata (fun _ => whole.getD (b * c.geo.erasesize) 0xff + 1) _ hb
      simp only [laid, Nat.mul_div_cancel _ hpos, hbad, false_and, if_false] at hkept
      exact absurd hkept (by simp)
    refine ⟨.inr ⟨hlen.ne', hgood⟩, fun x hx => ?_⟩
    have hbyte := hdata (fun x => whole.getD x 0xff + 1) x hx
    rw [data_laid (c := { c with data := fun x => whole.getD x 0xff + 1 }) fun b hb =>
      hgood b (hb.trans_lt hx)] at hbyte
    split_ifs at hbyte with hin
    · exact ⟨hin, hbyte⟩
    · exact absurd hbyte (by simp)
  · rintro ⟨hclean, hdelivers⟩ data
    have hgood := (hclean.resolve_left fun h => hlen.ne' h.1).2
    refine read_eq_iff.mpr ⟨?_, fun x hx => ?_⟩
    · have hlast := (hdelivers (whole.length - 1) (by omega)).1
      have hlt := (Nat.div_lt_iff_lt_mul hpos).mp (hlast.trans_le hroom)
      rw [blocks_mul] at hlt
      change whole.length ≤ c.geo.size
      omega
    · obtain ⟨hin, hbyte⟩ := hdelivers x hx
      rw [data_laid (c := { c with data := data }) fun b hb => hgood b (hb.trans_lt hx),
        if_pos hin, hbyte]

def ownSum : Md5 where
  Ctx := List UInt8
  Digest := List UInt8
  md5Begin := []
  md5Hash := fun bytes ctx => ctx ++ bytes
  md5End := fun ctx => ctx
  md5sum := fun bytes => bytes
  md5sum_flatten := by
    intro pieces
    have hall : ∀ ctx : List UInt8,
        pieces.foldl (fun ctx piece => ctx ++ piece) ctx = ctx ++ pieces.flatten := by
      induction pieces with
      | nil => simp
      | cons piece pieces ih =>
        intro ctx
        rw [foldl_cons, ih, flatten_cons, append_assoc]
    exact (hall []).symm

end ReadBack

/-! ## A bad block -/

def dumpAfter (opt : Options) (c : Chip) (image : List UInt8) : Option (List UInt8) :=
  match mtdWrite opt c [] [] image [] with
  | .ok s => (mtdDump s.chip 0 image.length).toOption
  | .error _ => none

def lastBad : Chip :=
  { firstBad with geo := { firstBad.geo with bad := fun b => b == 3 } }

end LibWrt.Mtd
