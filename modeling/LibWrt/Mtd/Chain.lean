/-
LibWrt.Mtd.Chain — turns of `mtd_write` where there may be a next device.

A turn writes a chunk, or finds the device full: then the chunk is kept in the
buffer, and the next device begins with it. What is erased is ahead of what is
written.
-/
import LibWrt.Mtd.Buffer

namespace LibWrt.Mtd

open List Nat

/-- No block that begins in the first `n` bytes is bad, and each one can be erased. -/
def Geometry.Sound (g : Geometry) (n : Nat) : Prop :=
  ∀ b < g.blocks, b * g.erasesize < n → g.Good b ∧ g.worn b = false

theorem Geometry.Sound.mono {g : Geometry} {n m : Nat} (h : g.Sound n) (hle : m ≤ n) :
    g.Sound m := fun b hb hm => h b hb (hm.trans_le hle)

/-! ## Erasing -/

section Erase

variable {opt : Options} {s : Writer} {n j : Nat}

/-- The blocks from `j` to `j'` are erased, as few as are needed. -/
structure Cleared (s : Writer) (j j' : Nat) (chip : Chip) : Prop where
  le : j ≤ j'
  inside : j' ≤ s.chip.geo.blocks
  room : s.w + s.buflen ≤ j' * s.erasesize
  least : ∀ i, j ≤ i → s.w + s.buflen ≤ i * s.erasesize → j' ≤ i
  geo : chip.geo = s.chip.geo
  cleared : ∀ x, j * s.erasesize ≤ x → x < j' * s.erasesize → chip.data x = 0xff
  kept : ∀ x, x < j * s.erasesize → chip.data x = s.chip.data x

theorem erase_sound {c : Chip} {b : Nat} (hb : b < c.geo.blocks) (hgood : c.geo.Good b)
    (hworn : c.geo.worn b = false) : c.erase (b * c.geo.erasesize) = some (c.erased b) := by
  have hlt : b * c.geo.erasesize < 2 ^ 32 := by
    have hle := mul_le_size hb.le
    have hsize := c.geo.size_lt
    rw [Geometry.size] at hle
    omega
  simp only [Chip.erase, mod_eq_of_lt hlt, mul_mod_left,
    Nat.mul_div_cancel _ c.geo.erasesize_pos]
  rw [if_pos ⟨trivial, hb, hgood, hworn⟩]

theorem eraseTurn_sound (hpart : opt.partOffset = 0) (he : s.e = j * s.erasesize)
    (hj : j < s.chip.geo.blocks) (hgood : s.chip.geo.Good j) (hworn : s.chip.geo.worn j = false) :
    eraseTurn opt s = .ok (false, { s with chip := s.chip.erased j
                                           e := (j + 1) * s.erasesize }) := by
  have hlt : s.e < s.chip.geo.size := by
    have hle := mul_le_size (g := s.chip.geo) hj
    have hpos := s.chip.geo.erasesize_pos
    rw [succ_mul] at hle
    rw [he, Writer.erasesize]
    omega
  have hbad : s.chip.mtdBlockIsBad s.e = some false := by
    have hdiv : s.e / s.chip.geo.erasesize = j := by
      rw [he]
      exact Nat.mul_div_cancel _ s.chip.geo.erasesize_pos
    rw [Chip.mtdBlockIsBad_eq hlt, hdiv]
    simp [hgood]
  have herase : s.chip.erase s.e = some (s.chip.erased j) := by
    rw [he]
    exact erase_sound hj hgood hworn
  rw [eraseTurn, hbad, hpart, Nat.add_zero, herase, he, succ_mul]

theorem data_erased {c : Chip} (b x : Nat) : (c.erased b).data x =
    if x / c.geo.erasesize = b then 0xff else c.data x := rfl

theorem eraseLoop_sound (hpart : opt.partOffset = 0)
    (hsound : s.chip.geo.Sound (s.w + s.buflen)) (hskip : s.skipBadBlocks = 0) (he : s.e = j * s.erasesize) (hj : j ≤ s.chip.geo.blocks)
    (hroom : s.w + s.buflen ≤ s.chip.geo.size) (hn : s.chip.geo.blocks < n + j) :
    ∃ j' chip, Cleared s j j' chip ∧
      eraseLoop opt n s = .ok (false, { s with chip := chip, e := j' * s.erasesize }) := by
  induction n generalizing s j with
  | zero => omega
  | succ n ih =>
    rw [eraseLoop]
    have hpos : 0 < s.erasesize := s.chip.geo.erasesize_pos
    split_ifs with hdone <;> rw [hskip, Nat.add_zero] at hdone
    · refine ⟨j, s.chip, ⟨le_rfl, hj, he ▸ hdone, fun i hi _ => hi, rfl, ?_, fun x _ => rfl⟩, ?_⟩
      · intro x hx hx'
        omega
      · rw [← he]
    · have hlt : j < s.chip.geo.blocks := by
        have hsize := blocks_mul s.chip.geo
        have hmul : j * s.erasesize < s.chip.geo.blocks * s.chip.geo.erasesize := by omega
        exact Nat.lt_of_mul_lt_mul_right hmul
      obtain ⟨hgood, hworn⟩ := hsound j hlt (by change j * s.erasesize < _; omega)
      rw [eraseTurn_sound hpart he hlt hgood hworn]
      obtain ⟨j', chip, hcleared, hloop⟩ :=
        ih (s := { s with chip := s.chip.erased j, e := (j + 1) * s.erasesize }) (j := j + 1)
          hsound hskip rfl hlt hroom (by change s.chip.geo.blocks < _; omega)
      refine ⟨j', chip, ⟨?_, hcleared.inside, hcleared.room, ?_, hcleared.geo, ?_, ?_⟩, hloop⟩
      · exact le_of_succ_le hcleared.le
      · intro i hi hfits
        refine hcleared.least i ?_ hfits
        by_contra hle
        obtain rfl : i = j := by omega
        omega
      · intro x hx hx'
        rcases Nat.lt_or_ge x ((j + 1) * s.erasesize) with hblock | hblock
        · rw [hcleared.kept x hblock]
          change (s.chip.erased j).data x = _
          rw [data_erased]
          exact if_pos (Nat.div_eq_of_lt_le hx hblock)
        · exact hcleared.cleared x hblock hx'
      · intro x hx
        have hsucc : (j + 1) * s.erasesize = j * s.erasesize + s.erasesize := succ_mul _ _
        have hne : x / s.chip.geo.erasesize ≠ j := by
          have hdiv := (Nat.div_lt_iff_lt_mul (k := s.chip.geo.erasesize) hpos).mpr hx
          omega
        rw [hcleared.kept x (by change x < (j + 1) * s.erasesize; omega)]
        change (s.chip.erased j).data x = _
        rw [data_erased, if_neg hne]

end Erase

/-! ## The bytes that are left -/

/-- What is left of the image is in the buffer and not read yet, and may be padded already; no
read fails any more. -/
def Left (s : Writer) (rest : List UInt8) : Prop :=
  s.later = [] ∧ ∃ begun q, Holds s begun ∧ begun ++ s.image = rest ++ replicate q 0xff ∧
    (0 < q → s.image = [] ∧ rest ≠ [])

def piece (len : Nat) (rest : List UInt8) : List UInt8 :=
  rest.take len ++ replicate (len - rest.length) 0xff

@[simp] theorem length_piece (len : Nat) (rest : List UInt8) : (piece len rest).length = len := by
  simp only [piece, length_append, length_take, length_replicate]
  omega

section Left

variable {opt : Options} {s : Writer} {rest begun image : List UInt8}

theorem padded_eq_piece (erasesize : Nat) {q : Nat}
    (h : begun ++ image = rest ++ replicate q 0xff) (hq : 0 < q → image = [] ∧ rest ≠ []) :
    padded erasesize (begun ++ image.take (erasesize - begun.length)) =
        piece (max begun.length erasesize) rest ∧
      image.drop (erasesize - begun.length) = rest.drop (max begun.length erasesize) := by
  have hlen := congrArg length h
  simp only [length_append, length_replicate] at hlen
  rcases Nat.eq_zero_or_pos q with rfl | hq'
  · rw [replicate_zero, append_nil] at h
    subst h
    have hmax : max begun.length erasesize = begun.length + (erasesize - begun.length) := by omega
    rw [hmax, piece, take_length_add_append, drop_length_add_append]
    refine ⟨?_, rfl⟩
    rw [padded]
    congr 2
    simp only [length_append, length_take]
    omega
  · obtain ⟨rfl, -⟩ := hq hq'
    rw [append_nil] at h
    subst h
    simp only [length_append, length_replicate, take_nil, append_nil,
      drop_nil, padded, piece]
    rw [take_of_length_le (by omega), drop_of_length_le (by omega), append_assoc,
      replicate_append_replicate]
    refine ⟨?_, rfl⟩
    congr 2
    omega

/-- A chunk is read and padded. -/
theorem filled (hs : Left s rest) (hne : rest ≠ []) (hsize : s.erasesize ≤ s.buf.length) :
    ∃ s₁ buf, readChunk s = .ok s₁ ∧ s₁.buflen ≠ 0 ∧
      padChunk s₁ = .ok { s with buf := buf, buflen := max s.buflen s.erasesize
                                 image := rest.drop (max s.buflen s.erasesize) } ∧
      buf.length = s.buf.length ∧
      buf.take (max s.buflen s.erasesize) = (piece (max s.buflen s.erasesize) rest).map some := by
  obtain ⟨hlater, begun, q, hholds, hbytes, hq⟩ := hs
  obtain ⟨hpiece, hdrop⟩ := padded_eq_piece s.erasesize hbytes hq
  have hheld := hholds.le_length
  have hlen := congrArg length hbytes
  simp only [length_append, length_replicate] at hlen
  have hrest : 0 < rest.length := length_pos_iff.mpr hne
  obtain ⟨s₁, hread⟩ := readChunk_of_room hholds hsize
  obtain ⟨buf₁, hs₁, hbuf₁, hholds₁⟩ := readChunk_eq_ok hholds hread
  rw [rest_of_later_nil hlater] at hs₁
  have hes : s₁.erasesize = s.erasesize := by rw [hs₁]; rfl
  obtain ⟨s₂, hpad⟩ := padChunk_of_room (s := s₁) (by rw [hes, hs₁]; exact hbuf₁ ▸ hsize)
  obtain ⟨buf₂, hs₂, hbuf₂, hholds₂⟩ := padChunk_eq_ok hholds₁ hpad
  rw [hes, hpiece] at hholds₂
  have hbuflen : s₂.buflen = max s.buflen s.erasesize := by
    rw [hholds₂.2, length_piece, hholds.2]
  refine ⟨s₁, buf₂, hread, ?_, ?_, ?_, ?_⟩
  · have hpos : 0 < s.erasesize := s.chip.geo.erasesize_pos
    rw [hholds₁.2, length_append, length_take]
    omega
  · rw [hpad, hs₂, hbuflen, hs₁, hdrop, hholds.2, ← hlater]
  · rw [hbuf₂, hs₁]
    exact hbuf₁
  · have htaken := hholds₂.1
    rw [hbuflen, ← hholds.2, hs₂] at htaken
    exact htaken

end Left

/-! ## Turns -/

/-- The bytes of the devices, one after the other, as far as they are written. -/
def whole (s : Writer) : List UInt8 :=
  s.closed.reverse.flatMap (fun c => c.read 0 c.geo.size) ++ s.chip.read 0 s.w

def Writer.devices (s : Writer) : List Geometry :=
  (s.closed.reverse ++ s.chip :: s.next).map (·.geo)

structure Moved (s s' : Writer) (bytes : List UInt8) : Prop where
  whole : whole s' = whole s ++ bytes
  devices : s'.devices = s.devices
  next : ∃ k, s'.next = s.next.drop k ∧ s'.closed.length = s.closed.length + k

/-- Before a turn: what is erased is ahead of what is written. -/
structure At (s : Writer) (rest : List UInt8) : Prop where
  left : Left s rest
  offset : s.offset = 0
  skip : s.skipBadBlocks = 0
  pos : s.pos = s.w
  erased : ∃ j, s.e = j * s.erasesize ∧ j ≤ s.chip.geo.blocks ∧ s.w ≤ s.e ∧
    ∀ x, s.w ≤ x → x < s.e → s.chip.data x = 0xff

theorem Moved.trans {s s₁ s₂ : Writer} {bytes more : List UInt8} (h : Moved s s₁ bytes)
    (h' : Moved s₁ s₂ more) : Moved s s₂ (bytes ++ more) := by
  obtain ⟨k, hnext, hclosed⟩ := h.next
  obtain ⟨k', hnext', hclosed'⟩ := h'.next
  refine ⟨?_, h'.devices.trans h.devices, k + k', ?_, by omega⟩
  · rw [h'.whole, h.whole, append_assoc]
  · rw [hnext', hnext, drop_drop]

section Turns

variable {opt : Options} {s : Writer} {rest : List UInt8}

theorem writeTurn_done (hs : At s []) :
    ∃ s', writeTurn opt s = .ok (true, s') ∧ Moved s s' [] := by
  obtain ⟨hlater, begun, q, hholds, hbytes, hq⟩ := hs.left
  have hzero : q = 0 := by
    by_contra hq'
    exact (hq (Nat.pos_of_ne_zero hq')).2 rfl
  rw [hzero] at hbytes
  obtain ⟨rfl, himage⟩ := append_eq_nil_iff.mp hbytes
  have hread : readChunk s = .ok s := by
    rw [readChunk_nil hholds.2 himage, hlater]
    dsimp only [headD_nil, tail_nil]
    rw [← himage, ← hlater]
  refine ⟨s, ?_, by simp, rfl, 0, rfl, rfl⟩
  rw [writeTurn, hread]
  dsimp only
  rw [hholds.2]
  rfl

structure Stores (s : Writer) (len : Nat) (rest : List UInt8) (s' : Writer) : Prop where
  at' : At s' (rest.drop len)
  moved : Moved s s' (piece len rest)
  buflen : s'.buflen = 0
  image : s'.image = rest.drop len
  w : s'.w = s.w + len
  geo : s'.chip.geo = s.chip.geo
  next : s'.next = s.next
  buf : s'.buf.length = s.buf.length
  least : ∀ i, s.e ≤ i * s.erasesize → s.w + len ≤ i * s.erasesize → s'.e ≤ i * s.erasesize

/-- What is written to bytes that were erased is read after what is before. -/
theorem read_programmed {c : Chip} {pos : Nat} {bytes : List UInt8}
    (hroom : pos + bytes.length ≤ c.geo.size)
    (herased : ∀ x, pos ≤ x → x < pos + bytes.length → c.data x = 0xff) :
    (c.programmed pos bytes).read 0 (pos + bytes.length) = c.read 0 pos ++ bytes := by
  have hgeo : (c.programmed pos bytes).geo = c.geo := rfl
  refine ext_getElem? fun x => ?_
  have hlen : (c.read 0 pos).length = pos := by
    rw [length_read]
    omega
  rw [getElem?_read, getElem?_append, hlen, getElem?_read, hgeo, Nat.zero_add]
  rcases Nat.lt_or_ge x pos with hx | hx
  · rw [if_pos (by omega), if_pos hx, if_pos (by omega)]
    simp only [Chip.programmed, if_neg (Nat.not_le.mpr hx)]
  · rw [if_neg (Nat.not_lt.mpr hx)]
    split_ifs with hin
    · have hbyte : x - pos < bytes.length := by omega
      simp only [Chip.programmed, if_pos hx, getElem?_eq_getElem hbyte]
      rw [herased x hx (by omega), Bytes.ff_and]
    · rw [getElem?_eq_none (by omega)]

theorem writeTurn_store (hno : opt.noErase = false) (hpart : opt.partOffset = 0)
    (hs : At s rest) (hne : rest ≠ []) (hsize : s.erasesize ≤ s.buf.length)
    (hsound : s.chip.geo.Sound (s.w + max s.buflen s.erasesize))
    (hroom : s.w + max s.buflen s.erasesize ≤ s.chip.geo.size) :
    ∃ s', writeTurn opt s = .ok (false, s') ∧ Stores s (max s.buflen s.erasesize) rest s' := by
  obtain ⟨s₁, buf, hread, hzero, hpad, hbuf, htaken⟩ := filled hs.left hne hsize
  obtain ⟨j, he, hj, hle, hff⟩ := hs.erased
  have hlenpos : 0 < max s.buflen s.erasesize := by
    have hpos : 0 < s.erasesize := s.chip.geo.erasesize_pos
    omega
  generalize max s.buflen s.erasesize = len at *
  obtain ⟨j', chip, hcleared, hloop⟩ := eraseLoop_sound
    (s := { s with buf := buf, buflen := len, image := rest.drop len })
    (n := s.chip.geo.blocks + 2) hpart hsound hs.skip he hj hroom (by dsimp only; omega)
  have hgeo : chip.geo = s.chip.geo := hcleared.geo
  have hinside : j' ≤ s.chip.geo.blocks := hcleared.inside
  have hfits : s.w + len ≤ j' * s.erasesize := hcleared.room
  have hkept : ∀ x, x < s.e → chip.data x = s.chip.data x := by
    intro x hx
    exact hcleared.kept x (he ▸ hx)
  have herased : ∀ x, s.w ≤ x → x < j' * s.erasesize → chip.data x = 0xff := by
    intro x hx hx'
    rcases Nat.lt_or_ge x s.e with hlt | hge
    · rw [hkept x hlt, hff x hx hlt]
    · exact hcleared.cleared x (he ▸ hge) hx'
  have hwrite : chip.write s.w (piece len rest) =
      some (len, chip.programmed s.w (piece len rest)) := by
    have hwhole : chip.write s.w (piece len rest) =
        some ((piece len rest).length, chip.programmed s.w (piece len rest)) :=
      Chip.write_of_room (by rw [length_piece, hgeo]; exact hroom)
        (by rw [length_piece]; exact hlenpos)
    rwa [length_piece] at hwhole
  have hchunk : writeChunk
      { s with chip := chip, buf := buf, buflen := len, image := rest.drop len
               e := j' * s.erasesize } =
      .ok { s with chip := chip.programmed s.w (piece len rest), buf := buf, buflen := 0
                   image := rest.drop len, e := j' * s.erasesize, pos := s.w + len
                   w := s.w + len, offset := 0 } := by
    have hload := load_of_holds (s := { s with chip := chip, buf := buf, buflen := len
                                               image := rest.drop len, e := j' * s.erasesize })
      ⟨htaken, (length_piece len rest).symm⟩
    rw [writeChunk, hs.offset]
    dsimp only at hload ⊢
    rw [hload, hs.pos]
    dsimp only
    rw [hwrite]
    dsimp only
    rw [if_neg (Nat.lt_irrefl _)]
  refine ⟨{ s with chip := chip.programmed s.w (piece len rest), buf := buf, buflen := 0
                   image := rest.drop len, e := j' * s.erasesize, pos := s.w + len
                   w := s.w + len, offset := 0 }, ?_, ?_⟩
  · rw [writeTurn, hread]
    dsimp only
    rw [if_neg hzero, hpad]
    dsimp only
    rw [eraseChunk, if_neg (by simp [hno])]
    dsimp only at hloop ⊢
    rw [hloop]
    dsimp only [Writer.erasesize] at hchunk ⊢
    rw [hchunk]
    rfl
  · constructor
    · refine ⟨⟨hs.left.1, [], 0, ⟨rfl, rfl⟩, by simp, by simp⟩, rfl, hs.skip, rfl, j', ?_, ?_, hfits, ?_⟩
      · change j' * s.erasesize = j' * chip.geo.erasesize
        rw [hgeo]
        rfl
      · change j' ≤ chip.geo.blocks
        rwa [hgeo]
      · intro x hx hx'
        have hend : (piece len rest)[x - s.w]? = none := by
          rw [getElem?_eq_none]
          rw [length_piece]
          dsimp only at hx
          omega
        have hbefore : s.w ≤ x := by
          dsimp only at hx
          omega
        simp only [Chip.programmed, if_pos hbefore, hend]
        exact herased x hbefore hx'
    · refine ⟨?_, ?_, 0, rfl, rfl⟩
      · have hbefore : chip.read 0 s.w = s.chip.read 0 s.w :=
          read_congr hgeo fun x _ hx => hkept x (by omega)
        have hread' : (chip.programmed s.w (piece len rest)).read 0
            (s.w + (piece len rest).length) = chip.read 0 s.w ++ piece len rest :=
          read_programmed (by rw [length_piece, hgeo]; exact hroom)
            (fun x hx hx' => herased x hx (by rw [length_piece] at hx'; omega))
        rw [length_piece, hbefore] at hread'
        simp only [whole]
        rw [hread', append_assoc]
      · simp only [Writer.devices, map_append, map_cons, Chip.geo_programmed, hgeo]
    · rfl
    · rfl
    · rfl
    · exact hgeo
    · rfl
    · exact hbuf
    · intro i hi hi'
      refine Nat.mul_le_mul_right _ (hcleared.least i ?_ hi')
      rw [he] at hi
      have hpos : 0 < s.erasesize := s.chip.geo.erasesize_pos
      exact Nat.le_of_mul_le_mul_right hi hpos

/-- After a turn that goes on to the next device, with the chunk in the buffer. -/
structure Opens (s : Writer) (len : Nat) (rest : List UInt8) (chip : Chip) (next : List Chip)
    (s' : Writer) : Prop where
  at' : At s' rest
  moved : Moved s s' []
  buflen : s'.buflen = len
  image : s'.image = rest.drop len
  w : s'.w = 0
  e : s'.e = 0
  chip : s'.chip = chip
  next : s'.next = next
  buf : s'.buf.length = s.buf.length

theorem left_piece {len : Nat} (hlater : s.later = []) (hne : rest ≠ []) (hlen : s.buflen = len)
    (htaken : s.buf.take len = (piece len rest).map some) (himage : s.image = rest.drop len) :
    Left s rest := by
  refine ⟨hlater, piece len rest, len - rest.length, ⟨hlen ▸ htaken, by rw [hlen, length_piece]⟩, ?_, ?_⟩
  · rw [piece, himage]
    rcases Nat.le_total len rest.length with hle | hge
    · rw [Nat.sub_eq_zero_of_le hle]
      simp
    · rw [drop_of_length_le hge, take_of_length_le hge, append_nil]
  · intro hq
    exact ⟨himage.trans (drop_of_length_le (by omega)), hne⟩

theorem writeTurn_next {chip : Chip} {next : List Chip} (hno : opt.noErase = false)
    (hpart : opt.partOffset = 0) (hs : At s rest) (hne : rest ≠ [])
    (hsize : s.erasesize ≤ s.buf.length) (hnand : s.chip.geo.nand = false)
    (hfull : s.w = s.chip.geo.size) (hnext : s.next = chip :: next) :
    ∃ s', writeTurn opt s = .ok (false, s') ∧
      Opens s (max s.buflen s.erasesize) rest chip next s' := by
  obtain ⟨s₁, buf, hread, hzero, hpad, hbuf, htaken⟩ := filled hs.left hne hsize
  obtain ⟨j, he, hj, hle, -⟩ := hs.erased
  have hpos : 0 < s.erasesize := s.chip.geo.erasesize_pos
  have hlenpos : 0 < max s.buflen s.erasesize := by omega
  have hend : s.e = s.chip.geo.size := by
    have hmax := mul_le_size hj
    rw [Writer.erasesize] at he
    omega
  generalize max s.buflen s.erasesize = len at *
  have hbad : s.chip.mtdBlockIsBad s.e = some false := by simp [Chip.mtdBlockIsBad, hnand]
  have herase : s.chip.erase s.e = none := by
    have hlt : s.e < 2 ^ 32 := by
      have hsize' := s.chip.geo.size_lt
      rw [← Geometry.size] at hsize'
      omega
    have hout : s.e / s.chip.geo.erasesize = s.chip.geo.blocks := by
      rw [hend, ← blocks_mul, Nat.mul_div_cancel _ s.chip.geo.erasesize_pos]
    simp only [Chip.erase, mod_eq_of_lt hlt, hout, Nat.lt_irrefl, false_and, and_false,
      if_false]
  refine ⟨{ s with chip := chip, pos := 0, next := next, closed := s.chip :: s.closed, w := 0
                   e := 0, buf := buf, buflen := len, image := rest.drop len }, ?_, ?_⟩
  · have hturn : eraseTurn opt { s with buf := buf, buflen := len, image := rest.drop len } =
        .ok (true, { s with chip := chip, pos := 0, next := next, closed := s.chip :: s.closed
                            w := 0, e := 0, buf := buf, buflen := len
                            image := rest.drop len }) := by
      have hseek : chip.geo.seekSet 0 = 0 := by simp [Geometry.seekSet]
      rw [eraseTurn]
      dsimp only
      rw [hbad, hpart, Nat.add_zero, herase, hnext]
      dsimp only
      rw [writeErased, if_neg (by dsimp only; omega)]
      simp only [Except.map, openNext, hpart, hseek]
    rw [writeTurn, hread]
    dsimp only
    rw [if_neg hzero, hpad]
    dsimp only
    rw [eraseChunk, if_neg (by simp [hno]), eraseLoop, hturn,
      if_neg (by dsimp only; rw [hs.skip]; omega)]
  · constructor
    · refine ⟨left_piece hs.left.1 hne rfl htaken rfl, hs.offset, hs.skip, rfl, 0, ?_, Nat.zero_le _,
        le_rfl, ?_⟩
      · simp
      · intro x _ hx
        exact absurd hx (Nat.not_lt_zero x)
    · refine ⟨?_, ?_, 1, ?_, rfl⟩
      · simp only [whole, reverse_cons, flatMap_append, flatMap_cons,
          flatMap_nil, append_nil, read_zero, hfull]
      · simp only [Writer.devices, hnext, reverse_cons, append_assoc, cons_append,
          nil_append]
      · rw [hnext]
        rfl
    · rfl
    · rfl
    · rfl
    · rfl
    · rfl
    · rfl
    · exact hbuf

end Turns

end LibWrt.Mtd
