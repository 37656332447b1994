/-
LibWrt.Mtd.Placement — where an image is written in one device.

Whether a block is bad is asked for the block `e`, but the block `e` after the
offset is the one that is erased and written. So chunk `k` goes as far behind the
offset as the `k`-th good block is behind the start of the partition. This is
right if these are the good blocks at and after the offset, one by one, as they
are without an offset.
-/
import LibWrt.Mtd.Buffer
import Mathlib.Data.Nat.Nth

namespace LibWrt.Mtd

open List Chip Nat

/-! ## The erase loop -/

section Erase

variable {opt : Options} {s s' : Writer} {n j : Nat} {r : Bool}

/-- For the next chunk one good block is erased, after the bad ones. -/
structure Erased (opt : Options) (s : Writer) (j i b : Nat) (s' : Writer) : Prop where
  le : j ≤ i
  skipped : ∀ m, j ≤ m → m < i → ¬ s.chip.geo.Good m
  good : s.chip.geo.Good i
  inside : s.chip.geo.nand = true → i < s.chip.geo.blocks
  block : (i * s.erasesize + opt.partOffset) % 2 ^ 32 = b * s.erasesize
  lt : b < s.chip.geo.blocks
  goodBlock : s.chip.geo.Good b
  after : s' = { s with chip := s.chip.erased b, e := (i + 1) * s.erasesize
                        skipBadBlocks := s.skipBadBlocks + (i - j) * s.erasesize, pos := s'.pos }
  pos : s.pos = opt.partOffset + j * s.erasesize →
    opt.partOffset + i * s.erasesize ≤ s.chip.geo.size →
      s'.pos = opt.partOffset + i * s.erasesize

/-- A bad block is skipped before. -/
theorem Erased.skip {i b : Nat} {t : Writer} (hbad : ¬ s.chip.geo.Good j)
    (ht : t = { s with skipBadBlocks := s.skipBadBlocks + s.erasesize
                       e := (j + 1) * s.erasesize
                       pos := s.chip.geo.seekCur s.pos s.erasesize })
    (h : Erased opt t (j + 1) i b s') : Erased opt s j i b s' := by
  subst ht
  constructor
  · exact le_of_succ_le h.le
  · intro m hm hi
    rcases Nat.lt_or_ge j m with hlt | hge
    · exact h.skipped m hlt hi
    · rwa [Nat.le_antisymm hge hm]
  · exact h.good
  · exact h.inside
  · exact h.block
  · exact h.lt
  · exact h.goodBlock
  · have hsum : s.skipBadBlocks + s.erasesize + (i - (j + 1)) * s.erasesize =
        s.skipBadBlocks + (i - j) * s.erasesize := by
      have hij : i - j = i - (j + 1) + 1 := by
        have := h.le
        omega
      rw [hij, succ_mul]
      omega
    have hafter := h.after
    dsimp only [Writer.erasesize] at hafter hsum ⊢
    rw [hsum] at hafter
    exact hafter
  · intro hpos hroom
    refine h.pos ?_ hroom
    have hle : (j + 1) * s.erasesize ≤ i * s.erasesize := Nat.mul_le_mul_right _ h.le
    have hsucc : (j + 1) * s.erasesize = j * s.erasesize + s.erasesize := succ_mul _ _
    dsimp only [Writer.erasesize, Geometry.seekCur] at *
    rw [if_pos (by omega)]
    omega

/-- A turn skips a bad block, or erases a block behind the offset. -/
theorem eraseTurn_single (hnext : s.next = []) (he : s.e = j * s.erasesize)
    (h : eraseTurn opt s = .ok (r, s')) :
    r = false ∧
      (¬ s.chip.geo.Good j ∧
          s' = { s with skipBadBlocks := s.skipBadBlocks + s.erasesize
                        e := (j + 1) * s.erasesize
                        pos := s.chip.geo.seekCur s.pos s.erasesize } ∨
        s.chip.geo.Good j ∧ (s.chip.geo.nand = true → j < s.chip.geo.blocks) ∧
          ∃ b, (j * s.erasesize + opt.partOffset) % 2 ^ 32 = b * s.erasesize ∧
            b < s.chip.geo.blocks ∧ s.chip.geo.Good b ∧
            s' = { s with chip := s.chip.erased b, e := (j + 1) * s.erasesize }) := by
  have hpos : 0 < s.chip.geo.erasesize := s.chip.geo.erasesize_pos
  have hdiv : s.e / s.chip.geo.erasesize = j := by
    rw [he]
    exact Nat.mul_div_cancel _ hpos
  have hsucc : s.e + s.erasesize = (j + 1) * s.erasesize := by rw [he, succ_mul]
  unfold eraseTurn at h
  rw [hsucc] at h
  split at h
  · cases h
  · rename_i hbad
    obtain ⟨rfl, rfl⟩ := Prod.mk.inj (Except.ok.inj h)
    refine ⟨rfl, .inl ⟨fun hgood => hgood ?_, rfl⟩⟩
    unfold mtdBlockIsBad at hbad
    split_ifs at hbad with hnand
    · have hj := (isBad_eq_some hbad).2
      rw [hdiv] at hj
      exact ⟨hnand, hj.symm⟩
    · simp at hbad
  · rename_i hbad
    have hgood : s.chip.geo.Good j := by
      rintro ⟨hnand, hj⟩
      rw [mtdBlockIsBad, if_pos hnand] at hbad
      have hfalse := (isBad_eq_some hbad).2
      rw [hdiv, hj] at hfalse
      cases hfalse
    have hinside : s.chip.geo.nand = true → j < s.chip.geo.blocks := by
      intro hnand
      rw [mtdBlockIsBad, if_pos hnand] at hbad
      have hlt := (isBad_eq_some hbad).1
      rw [he, Geometry.size, Nat.mul_comm] at hlt
      exact Nat.lt_of_mul_lt_mul_left hlt
    split at h
    · rename_i chip herase
      obtain ⟨rfl, rfl⟩ := Prod.mk.inj (Except.ok.inj h)
      obtain ⟨b, hblock, hlt, hb, rfl⟩ := erase_eq_some herase
      rw [he] at hblock
      exact ⟨rfl, .inr ⟨hgood, hinside, b, hblock, hlt, hb, rfl⟩⟩
    · rw [hnext] at h
      cases h

theorem eraseLoop_single (hnext : s.next = []) (he : s.e = j * s.erasesize)
    (hone : s.w + s.buflen + s.skipBadBlocks = s.e + s.erasesize)
    (h : eraseLoop opt n s = .ok (r, s')) :
    r = false ∧ ∃ i b, Erased opt s j i b s' := by
  have hpos : 0 < s.erasesize := s.chip.geo.erasesize_pos
  induction n generalizing s j with
  | zero => cases h
  | succ n ih =>
    have hsucc : (j + 1) * s.erasesize = s.e + s.erasesize := by rw [he, succ_mul]
    rw [eraseLoop, if_neg (by omega)] at h
    split at h
    · cases h
    · rename_i t hturn
      cases (eraseTurn_single hnext he hturn).1
    · rename_i t hturn
      obtain ⟨-, ⟨hbad, rfl⟩ | ⟨hgood, hinside, b, hblock, hlt, hb, rfl⟩⟩ :=
        eraseTurn_single hnext he hturn
      · have hrest := ih (s := { s with skipBadBlocks := s.skipBadBlocks + s.erasesize
                                        e := (j + 1) * s.erasesize
                                        pos := s.chip.geo.seekCur s.pos s.erasesize })
          (j := j + 1) hnext rfl (by dsimp only [Writer.erasesize] at *; omega) h hpos
        obtain ⟨hr, i, b, herased⟩ := hrest
        exact ⟨hr, i, b, herased.skip hbad rfl⟩
      · cases n with
        | zero => cases h
        | succ n =>
          rw [eraseLoop, if_pos (by dsimp only [Writer.erasesize] at *; omega)] at h
          obtain ⟨rfl, rfl⟩ := Prod.mk.inj (Except.ok.inj h)
          refine ⟨rfl, j, b, le_rfl, fun m hm hi => absurd hi (by omega), hgood, hinside, hblock,
            hlt, hb, ?_, fun h _ => h⟩
          simp

end Erase

/-! ## Chunks -/

/-- The chunk `k` of the image, padded. -/
def chunk (erasesize : Nat) (image : List UInt8) (k : Nat) : List UInt8 :=
  padded erasesize ((image.drop (k * erasesize)).take erasesize)

def chunks (erasesize : Nat) (image : List UInt8) : Nat :=
  (image.length + erasesize - 1) / erasesize

theorem chunks_eq {erasesize m : Nat} {image : List UInt8} (hpos : 0 < erasesize)
    (hle : image.length ≤ m * erasesize) (hlt : m * erasesize < image.length + erasesize) :
    m = chunks erasesize image := by
  refine (Nat.div_eq_of_lt_le ?_ ?_).symm
  · omega
  · rw [succ_mul]
    omega

@[simp] theorem length_chunk (erasesize : Nat) (image : List UInt8) (k : Nat) :
    (chunk erasesize image k).length = erasesize := by
  simp [chunk]

def Chip.storeChunk (c : Chip) (b : Nat) (bytes : List UInt8) : Chip :=
  (c.erased b).programmed (b * c.geo.erasesize) bytes

def Chip.storeChunks (c : Chip) (place : Nat → Nat) (image : List UInt8) : Nat → Chip
  | 0 => c
  | k + 1 => (c.storeChunks place image k).storeChunk (place k) (chunk c.geo.erasesize image k)

section Chunks

variable {c : Chip} {place : Nat → Nat} {image : List UInt8}

@[simp] theorem geo_storeChunks (k : Nat) : (c.storeChunks place image k).geo = c.geo := by
  induction k with
  | zero => rfl
  | succ k ih => exact ih

/-- The operations that store the chunk `k`, the newest first. -/
def chunkOps (c : Chip) (place : Nat → Nat) (image : List UInt8) (k : Nat) : List Op :=
  [.write (place k * c.geo.erasesize) (chunk c.geo.erasesize image k), .erase (place k)]

def storeOps (c : Chip) (place : Nat → Nat) (image : List UInt8) : Nat → List Op
  | 0 => []
  | k + 1 => chunkOps c place image k ++ storeOps c place image k

theorem ops_storeChunks (k : Nat) :
    (c.storeChunks place image k).ops = storeOps c place image k ++ c.ops := by
  induction k with
  | zero => rfl
  | succ k ih =>
    simp only [storeChunks, storeChunk, ops_programmed, ops_erased, ih,
      geo_storeChunks]
    rfl

theorem mem_storeOps {k : Nat} {op : Op} : op ∈ storeOps c place image k ↔
    ∃ i < k, op ∈ chunkOps c place image i := by
  induction k with
  | zero => simp [storeOps]
  | succ k ih =>
    simp only [storeOps, mem_append, ih, Nat.lt_succ_iff_lt_or_eq]
    constructor
    · rintro (h | ⟨i, hi, h⟩)
      · exact ⟨k, .inr rfl, h⟩
      · exact ⟨i, .inl hi, h⟩
    · rintro ⟨i, hi | rfl, h⟩
      · exact .inr ⟨i, hi, h⟩
      · exact .inl h

theorem data_storeChunks {n k x : Nat} (hinj : ∀ i < n, ∀ i' < n, place i = place i' → i = i')
    (hk : k < n) (hx : x < c.geo.erasesize) :
    (chunk c.geo.erasesize image k)[x]? =
      some ((c.storeChunks place image n).data (place k * c.geo.erasesize + x)) := by
  induction n with
  | zero => omega
  | succ n ih =>
    have hlen : (chunk c.geo.erasesize image n).length ≤
        (c.storeChunks place image n).geo.erasesize := by simp
    by_cases hkn : k = n
    · subst hkn
      have hx' : x < (chunk c.geo.erasesize image k).length := by simpa using hx
      have hstored := data_stored (c := c.storeChunks place image k) (b := place k) hx' hlen
      rw [geo_storeChunks] at hstored
      rw [getElem?_eq_getElem hx', ← hstored]
      simp only [storeChunks, storeChunk, geo_storeChunks]
    · have hold := ih (fun i hi i' hi' => hinj i (by omega) i' (by omega)) (by omega)
      have hblock : (place k * c.geo.erasesize + x) / c.geo.erasesize = place k := by
        rw [Nat.add_comm, add_mul_div_right _ _ c.geo.erasesize_pos, div_eq_of_lt hx,
          Nat.zero_add]
      have hne : (place k * c.geo.erasesize + x) / (c.storeChunks place image n).geo.erasesize ≠
          place n := by
        rw [geo_storeChunks, hblock]
        exact fun heq => hkn (hinj k (by omega) n (by omega) heq)
      have hother := data_other hne hlen
      rw [geo_storeChunks] at hother
      rw [hold, ← hother]
      simp only [storeChunks, storeChunk, geo_storeChunks]

theorem read_storeChunks {n k : Nat} (hinj : ∀ i < n, ∀ i' < n, place i = place i' → i = i')
    (hk : k < n) (hlt : place k < c.geo.blocks) :
    (c.storeChunks place image n).read (place k * c.geo.erasesize) c.geo.erasesize =
      chunk c.geo.erasesize image k := by
  have hroom : place k * c.geo.erasesize + c.geo.erasesize ≤ c.geo.size := by
    rw [← succ_mul, Geometry.size, Nat.mul_comm c.geo.erasesize]
    exact Nat.mul_le_mul_right _ hlt
  have hlen : min c.geo.erasesize (c.geo.size - place k * c.geo.erasesize) = c.geo.erasesize := by
    omega
  refine ext_getElem? fun x => ?_
  rw [Chip.read, geo_storeChunks, hlen, getElem?_map]
  rcases Nat.lt_or_ge x c.geo.erasesize with hx | hx
  · rw [data_storeChunks hinj hk hx, getElem?_range hx]
    rfl
  · rw [getElem?_eq_none (by simpa using hx), getElem?_eq_none (by simpa using hx)]
    rfl

end Chunks

/-! ## Failing reads -/

/-- What is written of an image that is read in pieces: each is padded to whole chunks, and the
writing ends where a read fails before a byte of a chunk was read. -/
def delivered (erasesize : Nat) (piece : List UInt8) : List (List UInt8) → List UInt8
  | [] => piece
  | next :: later =>
    if erasesize ∣ piece.length then piece
    else piece ++ replicate (erasesize - piece.length % erasesize) 0xff ++
      delivered erasesize next later

section Delivered

variable {erasesize : Nat} {piece : List UInt8} {later : List (List UInt8)}

theorem delivered_eq_nil : delivered erasesize piece later = [] ↔ piece = [] := by
  cases later with
  | nil => rfl
  | cons next later =>
    rw [delivered]
    split_ifs with hdvd
    · rfl
    · constructor
      · intro h
        exact (append_eq_nil_iff.mp (append_eq_nil_iff.mp h).1).1
      · rintro rfl
        exact absurd (dvd_zero _) hdvd

/-- The next chunk is of the piece. -/
theorem padded_delivered :
    padded erasesize ((delivered erasesize piece later).take erasesize) =
      padded erasesize (piece.take erasesize) := by
  cases later with
  | nil => rfl
  | cons next later =>
    rw [delivered]
    split_ifs with hdvd
    · rfl
    · rcases Nat.lt_or_ge piece.length erasesize with hlt | hge
      · have hlen : (piece ++ replicate (erasesize - piece.length % erasesize)
            (0xff : UInt8)).length = erasesize := by
          rw [length_append, length_replicate, mod_eq_of_lt hlt]
          omega
        rw [take_left' hlen, take_of_length_le hlt.le, padded_of_le hlen.ge,
          mod_eq_of_lt hlt, padded]
      · rw [take_append_of_le_length (by rw [length_append]; omega),
          take_append_of_le_length hge]

theorem drop_delivered (hne : piece ≠ []) :
    (delivered erasesize piece later).drop erasesize =
      if erasesize ≤ piece.length then delivered erasesize (piece.drop erasesize) later
      else delivered erasesize (later.headD []) later.tail := by
  have hlen : 0 < piece.length := length_pos_iff.mpr hne
  cases later with
  | nil =>
    simp only [delivered, headD_nil, tail_nil]
    split_ifs with hge
    · rfl
    · exact drop_of_length_le (Nat.le_of_not_le hge)
  | cons next later =>
    simp only [delivered, headD_cons, tail_cons]
    split_ifs with hdvd hge hdvd' hge hdvd'
    · rfl
    · rw [length_drop, Nat.dvd_sub_self_right] at hdvd'
      exact absurd (.inl hdvd) hdvd'
    · exact absurd (le_of_dvd hlen hdvd) hge
    · rw [length_drop, Nat.dvd_sub_self_right] at hdvd'
      rcases hdvd' with hdvd' | hle
      · exact absurd hdvd' hdvd
      · exact absurd (hle.antisymm hge ▸ dvd_rfl) hdvd
    · have hmod : (piece.drop erasesize).length % erasesize = piece.length % erasesize := by
        rw [length_drop, Nat.mod_eq_sub_mod hge]
      rw [append_assoc, append_assoc, drop_append_of_le_length hge, hmod]
    · have hlen' : (piece ++ replicate (erasesize - piece.length % erasesize)
          (0xff : UInt8)).length = erasesize := by
        rw [length_append, length_replicate, mod_eq_of_lt (by omega)]
        omega
      exact drop_left' hlen'

end Delivered

/-! ## A run -/

/-- Where the chunk `k` goes: the `k`-th good block of the partition, behind the offset. -/
noncomputable def placeOf (g : Geometry) (off k : Nat) : Nat := off + nth g.Good k

structure Fits (g : Geometry) (off k : Nat) : Prop where
  count : ∀ i < k, count g.Good (nth g.Good i) = i
  lt : ∀ i < k, placeOf g off i < g.blocks
  good : ∀ i < k, g.Good (placeOf g off i)

theorem Fits.succ {g : Geometry} {off k : Nat} (h : Fits g off k)
    (hcount : Nat.count g.Good (nth g.Good k) = k) (hlt : placeOf g off k < g.blocks)
    (hgood : g.Good (placeOf g off k)) : Fits g off (k + 1) where
  count i hi := by
    rcases Nat.lt_succ_iff_lt_or_eq.mp hi with hi | rfl
    · exact h.count i hi
    · exact hcount
  lt i hi := by
    rcases Nat.lt_succ_iff_lt_or_eq.mp hi with hi | rfl
    · exact h.lt i hi
    · exact hlt
  good i hi := by
    rcases Nat.lt_succ_iff_lt_or_eq.mp hi with hi | rfl
    · exact h.good i hi
    · exact hgood

theorem Fits.injective {g : Geometry} {off k : Nat} (h : Fits g off k) :
    ∀ i < k, ∀ i' < k, placeOf g off i = placeOf g off i' → i = i' := by
  intro i hi i' hi' heq
  have hnth : nth g.Good i = nth g.Good i' := by simpa [placeOf] using heq
  rw [← h.count i hi, ← h.count i' hi', hnth]

/-- The state after `k` chunks. -/
structure Top (c : Chip) (off : Nat) (image : List UInt8) (k : Nat) (s : Writer) : Prop where
  chip : s.chip = c.storeChunks (placeOf c.geo off) image k
  next : s.next = []
  w : s.w = k * c.geo.erasesize
  e : ∃ j, s.e = j * c.geo.erasesize ∧ count c.geo.Good j = k ∧
    s.skipBadBlocks + k * c.geo.erasesize = j * c.geo.erasesize ∧
    s.pos = (off + j) * c.geo.erasesize ∧ off + j ≤ c.geo.blocks
  holds : ∃ begun, Holds s begun ∧ begun.length ≤ c.geo.erasesize ∧
    delivered c.geo.erasesize (begun ++ s.image) s.later = image.drop (k * c.geo.erasesize)
  offset : s.offset = 0
  lt : k * c.geo.erasesize < image.length + c.geo.erasesize
  fits : Fits c.geo off k

structure Stored (c : Chip) (off : Nat) (image : List UInt8) (c' : Chip) : Prop where
  chip : c' = c.storeChunks (placeOf c.geo off) image (chunks c.geo.erasesize image)
  fits : Fits c.geo off (chunks c.geo.erasesize image)

section Run

variable {opt : Options} {c : Chip} {off k : Nat} {image : List UInt8} {s s' : Writer}

theorem count_of_not {p : Nat → Prop} [DecidablePred p] {j i : Nat} (hle : j ≤ i)
    (h : ∀ m, j ≤ m → m < i → ¬ p m) : count p i = count p j := by
  induction i, hle using le_induction with
  | base => rfl
  | succ i hle ih =>
    rw [count_succ, if_neg (h i hle (lt_succ_self i)),
      ih fun m hm hi => h m hm (lt_succ_of_lt hi)]
    rfl

/-- The block that is erased is as far behind the offset as the good one is behind the start. -/
theorem block_eq {g : Geometry} {i b : Nat} (hoff : off ≤ g.blocks)
    (hinside : g.nand = true → i < g.blocks) (hlast : g.nand = false → off + i ≤ g.blocks)
    (h : (i * g.erasesize + off * g.erasesize) % 2 ^ 32 = b * g.erasesize) : b = off + i := by
  have hsize := g.size_lt
  have hpos := g.erasesize_pos
  have hle : ∀ m, m ≤ g.blocks → m * g.erasesize < 2 ^ 31 := by
    intro m hm
    have := Nat.mul_le_mul_right g.erasesize hm
    rw [Nat.mul_comm g.blocks] at this
    omega
  have hsum : i * g.erasesize + off * g.erasesize < 2 ^ 32 := by
    cases hnand : g.nand with
    | true =>
      have h1 := hle i (hinside hnand).le
      have h2 := hle off hoff
      omega
    | false =>
      have h1 := hle (off + i) (hlast hnand)
      rw [Nat.add_mul] at h1
      omega
  rw [mod_eq_of_lt hsum, ← Nat.add_mul] at h
  have heq := eq_of_mul_eq_mul_right hpos h
  omega

theorem Top.written {s₂ s₃ : Writer} {buf : Buffer} {piece : List UInt8}
    {later : List (List UInt8)} {i j b : Nat}
    (hpart : opt.partOffset = off * c.geo.erasesize) (hoff : off ≤ c.geo.blocks)
    (hs : Top c off image k s) (hlt : k * c.geo.erasesize < image.length)
    (hcount : count c.geo.Good j = k)
    (hskip : s.skipBadBlocks + k * c.geo.erasesize = j * c.geo.erasesize)
    (hpos : s.pos = (off + j) * c.geo.erasesize) (hj : off + j ≤ c.geo.blocks)
    (hrest : delivered c.geo.erasesize piece later = image.drop ((k + 1) * c.geo.erasesize))
    (hs₂ : s₂ = { s with buf := buf, buflen := c.geo.erasesize, image := piece, later := later })
    (hholds : Holds s₂ (chunk c.geo.erasesize image k)) (herased : Erased opt s₂ j i b s₃)
    (hwrite : writeChunk s₃ = .ok s') : Top c off image (k + 1) s' := by
  have hgeo : s₂.chip.geo = c.geo := by rw [hs₂, hs.chip, geo_storeChunks]
  have hes : s₂.erasesize = c.geo.erasesize := by rw [Writer.erasesize, hgeo]
  obtain ⟨hij, hskipped, hgood, hinside, hblock, hb, hbgood, hafter, hposition⟩ := herased
  rw [hgeo] at hgood hinside hb hbgood
  rw [hes, hpart] at hblock hposition
  have hone : c.geo.nand = false → off + i ≤ c.geo.blocks := by
    intro hnand
    have hall : ∀ m, s₂.chip.geo.Good m := fun m => by simp [Geometry.Good, hgeo, hnand]
    rcases Nat.lt_or_ge j i with hji | hji
    · exact absurd (hall j) (hskipped j le_rfl hji)
    · omega
  obtain rfl := block_eq hoff hinside hone hblock
  have hcount' : count c.geo.Good i = k := by
    rw [count_of_not hij fun m hm hi => by simpa [hgeo] using hskipped m hm hi, hcount]
  have hnth : nth c.geo.Good k = i := by rw [← hcount', nth_count hgood]
  have hplace : placeOf c.geo off k = off + i := by rw [placeOf, hnth]
  have hroom : off * c.geo.erasesize + i * c.geo.erasesize ≤ s₂.chip.geo.size := by
    rw [hgeo, ← Nat.add_mul, Geometry.size, Nat.mul_comm c.geo.erasesize]
    exact Nat.mul_le_mul_right _ hb.le
  have hpos₃ : s₃.pos = (off + i) * c.geo.erasesize := by
    rw [hposition ?_ hroom, Nat.add_mul]
    rw [hs₂]
    change s.pos = _
    rw [hpos, Nat.add_mul]
  have hoffset : s₃.offset = 0 := by
    rw [hafter, hs₂]
    exact hs.offset
  have hholds₃ : Holds s₃ (chunk c.geo.erasesize image k) := by
    rw [hafter]
    exact hholds
  obtain ⟨-, hs'⟩ := writeChunk_eq_ok hholds₃ hoffset hwrite
  have hchip₃ : s₃.chip = (c.storeChunks (placeOf c.geo off) image k).erased (off + i) := by
    rw [hafter, hs₂, ← hs.chip]
  have hw₃ : s₃.w = k * c.geo.erasesize := by rw [hafter, hs₂, ← hs.w]
  have he₃ : s₃.e = (i + 1) * c.geo.erasesize := by rw [hafter, ← hes]
  have hskip₃ : s₃.skipBadBlocks = s.skipBadBlocks + (i - j) * c.geo.erasesize := by
    rw [hafter, ← hes, hs₂]
  have himage₃ : s₃.image = piece := by rw [hafter, hs₂]
  have hlater₃ : s₃.later = later := by rw [hafter, hs₂]
  have hnext₃ : s₃.next = [] := by rw [hafter, hs₂, ← hs.next]
  have hsucc : (k + 1) * c.geo.erasesize = k * c.geo.erasesize + c.geo.erasesize :=
    succ_mul _ _
  rw [length_chunk] at hs'
  rw [hs']
  constructor
  · simp only [hchip₃, hpos₃, storeChunks, storeChunk, geo_storeChunks, hplace]
  · exact hnext₃
  · dsimp only
    omega
  · refine ⟨i + 1, he₃, ?_, ?_, ?_, by omega⟩
    · rw [count_succ, if_pos hgood, hcount']
    · have hsum : j * c.geo.erasesize + (i - j) * c.geo.erasesize = i * c.geo.erasesize := by
        rw [← Nat.add_mul]
        congr 1
        omega
      have hsucc' : (i + 1) * c.geo.erasesize = i * c.geo.erasesize + c.geo.erasesize :=
        succ_mul _ _
      dsimp only
      omega
    · have hsucc' : (off + (i + 1)) * c.geo.erasesize =
          (off + i) * c.geo.erasesize + c.geo.erasesize := succ_mul _ _
      dsimp only
      omega
  · refine ⟨[], ⟨by simp, rfl⟩, by simp, ?_⟩
    dsimp only
    rw [himage₃, hlater₃, nil_append, hrest]
  · rfl
  · omega
  · exact hs.fits.succ (by rw [hnth, hcount']) (hplace ▸ hb) (hplace ▸ hbgood)

theorem writeTurn_single (hno : opt.noErase = false)
    (hpart : opt.partOffset = off * c.geo.erasesize) (hoff : off ≤ c.geo.blocks)
    (hs : Top c off image k s) {last : Bool} (h : writeTurn opt s = .ok (last, s')) :
    last = true ∧ s'.chip = s.chip ∧ image.length ≤ k * c.geo.erasesize ∨
      last = false ∧ Top c off image (k + 1) s' := by
  obtain ⟨j, he, hcount, hskip, hpos, hj⟩ := hs.e
  obtain ⟨begun, hholds, hbegun, himage⟩ := hs.holds
  have hgeo : s.chip.geo = c.geo := by rw [hs.chip, geo_storeChunks]
  have hes : s.erasesize = c.geo.erasesize := by rw [Writer.erasesize, hgeo]
  have hpos' := c.geo.erasesize_pos
  unfold writeTurn at h
  split at h
  · cases h
  · rename_i s₁ hread
    obtain ⟨buf, hs₁, -, hholds₁⟩ := readChunk_eq_ok hholds hread
    rw [hes] at hs₁ hholds₁
    have htake : begun ++ s.image.take (c.geo.erasesize - begun.length) =
        (begun ++ s.image).take c.geo.erasesize := by
      rw [take_append, take_of_length_le hbegun]
    have hchunk : padded c.geo.erasesize ((begun ++ s.image).take c.geo.erasesize) =
        chunk c.geo.erasesize image k := by
      rw [chunk, ← himage, padded_delivered]
    rw [htake] at hholds₁
    split_ifs at h with hempty
    · -- There is no more of the image.
      obtain ⟨rfl, rfl⟩ := Prod.mk.inj (Except.ok.inj h)
      refine .inl ⟨rfl, by rw [hs₁], ?_⟩
      rw [hholds₁.2, length_eq_zero_iff, take_eq_nil_iff] at hempty
      rw [delivered_eq_nil.mpr (hempty.resolve_left hpos'.ne')] at himage
      exact drop_eq_nil_iff.mp himage.symm
    · have hne : begun ++ s.image ≠ [] := by
        intro hnil
        rw [hholds₁.2, hnil, take_nil] at hempty
        exact hempty rfl
      have hlt : k * c.geo.erasesize < image.length := by
        by_contra hge
        rw [drop_of_length_le (Nat.le_of_not_lt hge), delivered_eq_nil] at himage
        exact hne himage
      have hrest : delivered c.geo.erasesize (s.rest (c.geo.erasesize - begun.length)).1
          (s.rest (c.geo.erasesize - begun.length)).2 =
            image.drop ((k + 1) * c.geo.erasesize) := by
        rw [succ_mul, ← drop_drop, ← himage, drop_delivered hne, length_append,
          Writer.rest]
        split_ifs with hge hge' hge'
        · rw [drop_append, drop_of_length_le hbegun, nil_append]
        · omega
        · omega
        · rfl
      split at h
      · cases h
      · rename_i s₂ hpad
        obtain ⟨buf₂, hs₂, -, hholds₂⟩ := padChunk_eq_ok hholds₁ hpad
        have hes₁ : s₁.erasesize = c.geo.erasesize := by rw [hs₁]; exact hes
        rw [hes₁, hchunk] at hholds₂
        have hlen₂ : s₂.buflen = c.geo.erasesize := by rw [hholds₂.2, length_chunk]
        have hs₂ : s₂ = { s with
            buf := buf₂, buflen := c.geo.erasesize
            image := (s.rest (c.geo.erasesize - begun.length)).1
            later := (s.rest (c.geo.erasesize - begun.length)).2 } := by
          rw [hs₂, hlen₂, hs₁]
        rw [eraseChunk, if_neg (by simp [hno])] at h
        have hnext₂ : s₂.next = [] := by rw [hs₂]; exact hs.next
        have hes₂ : s₂.erasesize = c.geo.erasesize := by rw [hs₂]; exact hes
        have he₂ : s₂.e = j * s₂.erasesize := by rw [hes₂, hs₂]; exact he
        have hone : s₂.w + s₂.buflen + s₂.skipBadBlocks = s₂.e + s₂.erasesize := by
          rw [he₂, hes₂, hs₂]
          dsimp only
          rw [hs.w]
          omega
        split at h
        · cases h
        · rename_i s₃ hloop
          cases (eraseLoop_single hnext₂ he₂ hone hloop).1
        · rename_i s₃ hloop
          obtain ⟨-, i, b, herased⟩ := eraseLoop_single hnext₂ he₂ hone hloop
          cases hwrite : writeChunk s₃ with
          | error stop =>
            rw [hwrite] at h
            cases h
          | ok s₄ =>
            rw [hwrite] at h
            obtain ⟨rfl, rfl⟩ := Prod.mk.inj (Except.ok.inj h)
            exact .inr ⟨rfl, hs.written hpart hoff hlt hcount hskip hpos hj hrest hs₂ hholds₂
              herased hwrite⟩

theorem writeLoop_single (hno : opt.noErase = false)
    (hpart : opt.partOffset = off * c.geo.erasesize) (hoff : off ≤ c.geo.blocks)
    (hs : Top c off image k s) {n : Nat} (h : writeLoop opt n s = .ok s') :
    Stored c off image s'.chip := by
  induction n generalizing s k with
  | zero => cases h
  | succ n ih =>
    rw [writeLoop] at h
    split at h
    · cases h
    · rename_i t hturn
      obtain rfl := Except.ok.inj h
      rcases writeTurn_single hno hpart hoff hs hturn with ⟨-, hchip, hend⟩ | ⟨hlast, -⟩
      · have hk := chunks_eq c.geo.erasesize_pos hend hs.lt
        rw [hchip]
        exact ⟨by rw [hs.chip, hk], hk ▸ hs.fits⟩
      · cases hlast
    · rename_i t hturn
      rcases writeTurn_single hno hpart hoff hs hturn with ⟨hlast, -⟩ | ⟨-, htop⟩
      · cases hlast
      · exact ih htop h

theorem mtdWrite_single {begun : List UInt8} {later : List (List UInt8)} (hno : opt.noErase = false)
    (hpart : opt.partOffset = off * c.geo.erasesize) (hoff : off ≤ c.geo.blocks)
    (hbegun : begun.length ≤ c.geo.erasesize) (h : mtdWrite opt c [] begun image later = .ok s') :
    Stored c off (delivered c.geo.erasesize (begun ++ image) later) s'.chip := by
  have hseek : c.geo.seekSet opt.partOffset = off * c.geo.erasesize := by
    have hle : off * c.geo.erasesize ≤ c.geo.size := by
      rw [Geometry.size, Nat.mul_comm c.geo.erasesize]
      exact Nat.mul_le_mul_right _ hoff
    rw [hpart, Geometry.seekSet, if_pos hle]
  refine writeLoop_single (k := 0) hno hpart hoff ?_ h
  constructor
  · rfl
  · rfl
  · simp [Writer.start]
  · exact ⟨0, by simp [Writer.start], by simp, by simp [Writer.start],
      by simpa [Writer.start] using hseek, by simpa using hoff⟩
  · exact ⟨begun, holds_start opt c [] begun image later, hbegun, by simp [Writer.start]⟩
  · rfl
  · have := c.geo.erasesize_pos
    omega
  · exact ⟨by simp, by simp, by simp⟩

/-- An image without bytes changes nothing. -/
theorem mtdWrite_nil {later : List (List UInt8)} {next : List Chip}
    (h : mtdWrite opt c next [] [] later = .ok s') :
    s'.chip = c := by
  have hturn : ∃ s, writeTurn opt (Writer.start opt c next [] [] later) = .ok (true, s) ∧
      s.chip = c := by
    rw [writeTurn, readChunk_nil (s := Writer.start opt c next [] [] later) rfl rfl]
    exact ⟨_, rfl, rfl⟩
  obtain ⟨s, hturn, hchip⟩ := hturn
  simp only [mtdWrite, writeLoop, hturn] at h
  obtain rfl := Except.ok.inj h
  exact hchip

end Run

end LibWrt.Mtd
