/-
LibWrt.Mtd.Spread — an image over several devices.

The first chunk of a device is as long as an erase block of the device before,
and the buffer as long as one of the first device. Where the erase size does not
divide the chunk, what is erased stays ahead of what is written, and when there
is nothing left to erase the device is not full. Devices of one erase size suit
every image that they have room for.
-/
import LibWrt.Mtd.Chain

namespace LibWrt.Mtd

open List Nat

def roundUp (erasesize n : Nat) : Nat := (n + erasesize - 1) / erasesize * erasesize

/-- The devices for the `held` bytes in a buffer of `alloc` bytes and the `left` ones after them.
Each device has erase blocks that fit the buffer. The image ends in a device with room for what is
left in whole blocks, none of which is bad or cannot be erased; a device before is empty, or has
no such block at all and the chunk that is held fills blocks of it. -/
def Suits (alloc : Nat) : Nat → Nat → List Geometry → Prop
  | held, left, [] => held + left = 0
  | held, left, g :: gs =>
    held + left = 0 ∨ g.erasesize ≤ alloc ∧
      (roundUp g.erasesize (max held g.erasesize) +
            roundUp g.erasesize (left - (g.erasesize - held)) ≤ g.size ∧
          g.Sound (roundUp g.erasesize (max held g.erasesize) +
            roundUp g.erasesize (left - (g.erasesize - held))) ∨
        g.nand = false ∧ g.size = 0 ∧
          Suits alloc (max held g.erasesize) (left - (g.erasesize - held)) gs ∨
        g.nand = false ∧ g.Sound g.size ∧ g.erasesize ∣ max held g.erasesize ∧ max held g.erasesize ≤ g.size ∧
          g.size - max held g.erasesize < left - (g.erasesize - held) ∧
          Suits alloc g.erasesize
            (left - (g.erasesize - held) - (g.size - max held g.erasesize) - g.erasesize) gs)

/-! ## Runs -/

/-- The rest of the image is written, and padded by less than the buffer holds. -/
def Written (opt : Options) (n : Nat) (s : Writer) (rest : List UInt8) : Prop :=
  ∃ s' p, writeLoop opt n s = .ok s' ∧ Moved s s' (rest ++ List.replicate p 0xff) ∧
    (rest = [] → p = 0) ∧ (p = 0 ∨ p < s.buf.length)

section Runs

variable {opt : Options} {s s₁ : Writer} {rest : List UInt8} {n len : Nat}

theorem writeLoop_of_turn (h : writeTurn opt s = .ok (false, s₁)) :
    writeLoop opt (n + 1) s = writeLoop opt n s₁ := by rw [writeLoop, h]

theorem Written.done (hs : At s []) : Written opt (n + 1) s [] := by
  obtain ⟨s', hturn, hmoved⟩ := @writeTurn_done opt s hs
  refine ⟨s', 0, ?_, hmoved, fun _ => rfl, .inl rfl⟩
  rw [writeLoop, hturn]

theorem Written.store (hne : rest ≠ []) (hlen : len ≤ s.buf.length)
    (hturn : writeTurn opt s = .ok (false, s₁)) (h₁ : Stores s len rest s₁)
    (h : Written opt n s₁ (rest.drop len)) : Written opt (n + 1) s rest := by
  obtain ⟨s', p, hloop, hmoved, hzero, hless⟩ := h
  have hrest : 0 < rest.length := length_pos_iff.mpr hne
  have hall := h₁.moved.trans hmoved
  rw [h₁.buf] at hless
  rw [← writeLoop_of_turn hturn] at hloop
  rcases Nat.le_total len rest.length with hle | hge
  · refine ⟨s', p, hloop, ?_, fun h => absurd h hne, hless⟩
    rw [piece, Nat.sub_eq_zero_of_le hle, replicate_zero, append_nil,
      ← append_assoc, take_append_drop] at hall
    exact hall
  · have hdrop : rest.drop len = [] := drop_of_length_le hge
    refine ⟨s', len - rest.length, hloop, ?_, fun h => absurd h hne, .inr (by omega)⟩
    rw [hzero hdrop, hdrop, piece, take_of_length_le hge, replicate_zero,
      append_nil, append_nil] at hall
    exact hall

theorem Written.next {chip : Chip} {next : List Chip}
    (hturn : writeTurn opt s = .ok (false, s₁)) (h₁ : Opens s len rest chip next s₁)
    (h : Written opt n s₁ rest) : Written opt (n + 1) s rest := by
  obtain ⟨s', p, hloop, hmoved, hzero, hless⟩ := h
  rw [h₁.buf] at hless
  rw [← writeLoop_of_turn hturn] at hloop
  exact ⟨s', p, hloop, h₁.moved.trans hmoved, hzero, hless⟩

/-! ### Rounding -/

theorem roundUp_zero {erasesize : Nat} (hpos : 0 < erasesize) : roundUp erasesize 0 = 0 := by
  rw [roundUp, div_eq_of_lt (by omega), Nat.zero_mul]

theorem le_roundUp {erasesize : Nat} (hpos : 0 < erasesize) (k : Nat) :
    k ≤ roundUp erasesize k := by
  have hlt := lt_div_mul_add (a := k + erasesize - 1) hpos
  rw [roundUp]
  omega

theorem roundUp_sub {erasesize k : Nat} (hpos : 0 < erasesize) (hk : 0 < k) :
    roundUp erasesize (k - erasesize) + erasesize = roundUp erasesize k := by
  rcases Nat.le_total k erasesize with hle | hge
  · have hone : (k + erasesize - 1) / erasesize = 1 :=
      Nat.div_eq_of_lt_le (by omega) (by omega)
    rw [Nat.sub_eq_zero_of_le hle, roundUp_zero hpos, roundUp, hone]
    omega
  · have hsum : k + erasesize - 1 = k - erasesize + erasesize - 1 + erasesize := by omega
    rw [roundUp, roundUp, hsum, add_div_right _ hpos, succ_mul]

theorem roundUp_le {erasesize k m : Nat} (hpos : 0 < erasesize) (h : k ≤ m * erasesize) :
    roundUp erasesize k ≤ m * erasesize := by
  refine Nat.mul_le_mul_right _ (le_of_lt_succ ((Nat.div_lt_iff_lt_mul hpos).mpr ?_))
  rw [succ_mul]
  omega

/-! ### One device after the other -/

/-- A device begins with the chunk that is held. -/
def Arrives (opt : Options) (next : List Chip) : Prop :=
  ∀ (n : Nat) (s : Writer) (rest : List UInt8), At s rest → s.next = next → s.w = 0 → s.e = 0 →
    Suits s.buf.length s.buflen s.image.length (s.chip.geo :: next.map (·.geo)) →
    rest.length + next.length < n → Written opt n s rest

/-- What is left goes to the device, or fills it and goes on to the next one. -/
def Goes (s : Writer) (left : Nat) : Prop :=
  s.e + roundUp s.erasesize left ≤ s.chip.geo.size ∧
      s.chip.geo.Sound (s.e + roundUp s.erasesize left) ∨
    s.chip.geo.nand = false ∧ s.chip.geo.Sound s.chip.geo.size ∧ s.e = s.w ∧ s.chip.geo.size - s.w < left ∧
      Suits s.buf.length s.erasesize (left - (s.chip.geo.size - s.w) - s.erasesize)
        (s.next.map (·.geo))

theorem length_drop_lt {len : Nat} (hlen : 0 < len) (hne : rest ≠ []) :
    (rest.drop len).length < rest.length := by
  have hrest : 0 < rest.length := length_pos_iff.mpr hne
  rw [List.length_drop]
  omega

theorem written_middle (hno : opt.noErase = false) (hpart : opt.partOffset = 0)
    (hnext : ∀ chip next, s.next = chip :: next → Arrives opt next) (hs : At s rest)
    (hbuflen : s.buflen = 0) (himage : s.image = rest)
    (hsize : s.erasesize ≤ s.buf.length) (hgoes : Goes s rest.length)
    (hn : rest.length + s.next.length < n) : Written opt n s rest := by
  induction n generalizing s rest with
  | zero => omega
  | succ n ih =>
    by_cases hne : rest = []
    · subst hne
      exact .done hs
    · have hpos : 0 < s.erasesize := s.chip.geo.erasesize_pos
      have hrest : 0 < rest.length := length_pos_iff.mpr hne
      have hmax : max s.buflen s.erasesize = s.erasesize := by omega
      obtain ⟨j, he, hj, hle, -⟩ := hs.erased
      have hsucc : (j + 1) * s.erasesize = j * s.erasesize + s.erasesize := succ_mul _ _
      have hstore : s.w + s.erasesize ≤ s.chip.geo.size →
          s.chip.geo.Sound (s.w + s.erasesize) →
          (∀ s', Stores s s.erasesize rest s' → Goes s' (rest.length - s.erasesize)) →
          Written opt (n + 1) s rest := by
        intro hroom hsound hmore
        obtain ⟨s', hturn, hs'⟩ := writeTurn_store hno hpart hs hne hsize
          (by rw [hmax]; exact hsound) (by rw [hmax]; exact hroom)
        rw [hmax] at hs'
        have hes : s'.erasesize = s.erasesize := by rw [Writer.erasesize, hs'.geo]; rfl
        have hdrop := length_drop_lt hpos hne
        refine .store hne hsize hturn hs' (ih (by rw [hs'.next]; exact hnext) hs'.at' hs'.buflen
          hs'.image (by rw [hes, hs'.buf]; exact hsize) ?_ (by rw [hs'.next]; omega))
        rw [List.length_drop]
        exact hmore s' hs'
      rcases hgoes with ⟨hends, hsound⟩ | ⟨hnand, hsound, heq, hmore, hsuits⟩
      · have hround := roundUp_sub hpos hrest
        refine hstore (by omega) (hsound.mono (by omega)) fun s' hs' => .inl ?_
        have hes : s'.erasesize = s.erasesize := by rw [Writer.erasesize, hs'.geo]; rfl
        have hleast := hs'.least (j + 1) (by omega) (by omega)
        rw [hes, hs'.geo]
        exact ⟨by omega, hsound.mono (by omega)⟩
      · by_cases hfull : s.w = s.chip.geo.size
        · cases hchips : s.next with
          | nil =>
            rw [hchips] at hsuits
            simp only [map_nil, Suits] at hsuits
            omega
          | cons chip next =>
            obtain ⟨s', hturn, hs'⟩ := writeTurn_next hno hpart hs hne hsize hnand hfull hchips
            rw [hmax] at hs'
            refine .next hturn hs' (hnext chip next hchips n s' rest hs'.at' hs'.next hs'.w hs'.e
              ?_ ?_)
            · rw [hs'.buf, hs'.buflen, hs'.image, hs'.chip, List.length_drop]
              rw [hchips, hfull, Nat.sub_self] at hsuits
              exact hsuits
            · rw [hchips, length_cons] at hn
              omega
        · have hroom : s.w + s.erasesize ≤ s.chip.geo.size := by
            have hlt : j < s.chip.geo.blocks := by
              have hmul : j * s.erasesize < s.chip.geo.blocks * s.erasesize := by
                have hmaxsize := mul_le_size hj
                have hall : s.chip.geo.blocks * s.erasesize = s.chip.geo.size := blocks_mul _
                change j * s.erasesize ≤ _ at hmaxsize
                omega
              exact Nat.lt_of_mul_lt_mul_right hmul
            have hmaxsize := mul_le_size (g := s.chip.geo) hlt
            change (j + 1) * s.erasesize ≤ _ at hmaxsize
            omega
          refine hstore hroom (hsound.mono hroom) fun s' hs' => .inr ?_
          have hes : s'.erasesize = s.erasesize := by rw [Writer.erasesize, hs'.geo]; rfl
          have hleast := hs'.least (j + 1) (by omega) (by omega)
          obtain ⟨-, -, -, hle', -⟩ := hs'.at'.erased
          have hw := hs'.w
          rw [hs'.geo, hs'.buf, hs'.next, hes, hw]
          refine ⟨hnand, hsound, by omega, by omega, ?_⟩
          have hleft : rest.length - s.erasesize - (s.chip.geo.size - (s.w + s.erasesize)) =
              rest.length - (s.chip.geo.size - s.w) := by omega
          rw [hleft]
          exact hsuits

theorem Left.length (h : Left s rest) :
    ∃ q, s.buflen + s.image.length = rest.length + q ∧ (0 < q → rest ≠ []) := by
  obtain ⟨-, begun, q, hholds, hbytes, hq⟩ := h
  have hlen := congrArg List.length hbytes
  rw [length_append, length_append, length_replicate, ← hholds.2] at hlen
  exact ⟨q, hlen, fun h => (hq h).2⟩

/-- What is not read yet is as long as what is behind the next chunk. -/
theorem Left.length_drop (h : Left s rest) :
    (rest.drop (max s.buflen s.erasesize)).length =
      s.image.length - (s.erasesize - s.buflen) := by
  obtain ⟨-, begun, q, hholds, hbytes, hq⟩ := h
  have hdrop := (padded_eq_piece s.erasesize hbytes hq).2
  rw [hholds.2, ← hdrop, List.length_drop]

theorem arrives_of (hno : opt.noErase = false) (hpart : opt.partOffset = 0) {next : List Chip}
    (hnext : ∀ chip tail, next = chip :: tail → Arrives opt tail) : Arrives opt next := by
  intro n s rest hs hchips hw he hsuits hn
  obtain ⟨k, rfl⟩ : ∃ k, n = k + 1 := ⟨n - 1, by omega⟩
  obtain ⟨q, hlen, hq⟩ := hs.left.length
  by_cases hne : rest = []
  · subst hne
    exact .done hs
  · have hrest : 0 < rest.length := length_pos_iff.mpr hne
    have hpos : 0 < s.erasesize := s.chip.geo.erasesize_pos
    have hchunk := hs.left.length_drop
    have hchunkpos : 0 < max s.buflen s.erasesize := by omega
    have hcut := length_drop_lt hchunkpos hne
    obtain ⟨hsize, hplace⟩ := hsuits.resolve_left (by omega)
    have hheld : s.buflen ≤ s.buf.length := by
      obtain ⟨-, begun, -, hholds, -⟩ := hs.left
      rw [hholds.2]
      exact hholds.le_length
    rw [← hchips] at hnext
    have hgeo : s.chip.geo.erasesize = s.erasesize := rfl
    rw [hgeo] at hsize hplace
    have hstore : max s.buflen s.erasesize ≤ s.chip.geo.size →
        s.chip.geo.Sound (max s.buflen s.erasesize) →
        (∀ s', Stores s (max s.buflen s.erasesize) rest s' →
          Goes s' (rest.drop (max s.buflen s.erasesize)).length) →
        Written opt (k + 1) s rest := by
      intro hroom hsound hmore
      obtain ⟨s', hturn, hs'⟩ := writeTurn_store hno hpart hs hne hsize
        (by rw [hw, Nat.zero_add]; exact hsound) (by rw [hw, Nat.zero_add]; exact hroom)
      have hes : s'.erasesize = s.erasesize := by rw [Writer.erasesize, hs'.geo]; rfl
      refine .store hne (max_le hheld hsize) hturn hs' (written_middle hno hpart
        (by rw [hs'.next]; exact hnext) hs'.at' hs'.buflen hs'.image
        (by rw [hes, hs'.buf]; exact hsize) (hmore s' hs') ?_)
      rw [hs'.next, hchips]
      omega
    rw [← hchunk] at hplace
    rcases hplace with ⟨hends, hsound⟩ | ⟨hnand, hzero, hsuits⟩ |
      ⟨hnand, hsound, hdvd, hroom, hmore, hsuits⟩
    · have hround := le_roundUp hpos (max s.buflen s.erasesize)
      refine hstore (by omega) (hsound.mono (by omega)) fun s' hs' => .inl ?_
      have hes : s'.erasesize = s.erasesize := by rw [Writer.erasesize, hs'.geo]; rfl
      have hleast := hs'.least ((max s.buflen s.erasesize + s.erasesize - 1) / s.erasesize)
        (by rw [he]; exact Nat.zero_le _) (by rw [hw, Nat.zero_add]; exact hround)
      change s'.e ≤ roundUp s.erasesize _ at hleast
      rw [hes, hs'.geo]
      exact ⟨by omega, hsound.mono (by omega)⟩
    · -- The device has no blocks.
      cases next with
      | nil =>
        simp only [map_nil, Suits] at hsuits
        omega
      | cons chip next =>
        obtain ⟨s', hturn, hs'⟩ := writeTurn_next hno hpart hs hne hsize hnand
          (by rw [hw, hzero]) hchips
        refine .next hturn hs' (hnext chip next hchips k s' rest hs'.at' hs'.next hs'.w hs'.e ?_ ?_)
        · rw [hs'.buf, hs'.buflen, hs'.image, hs'.chip]
          exact hsuits
        · rw [length_cons] at hn
          omega
    · refine hstore hroom (hsound.mono hroom) fun s' hs' => .inr ?_
      obtain ⟨i, hi⟩ := hdvd
      have hes : s'.erasesize = s.erasesize := by rw [Writer.erasesize, hs'.geo]; rfl
      have hleast := hs'.least i (by rw [he]; exact Nat.zero_le _)
        (by rw [hw, Nat.zero_add, hi, Nat.mul_comm])
      rw [Nat.mul_comm, ← hi] at hleast
      obtain ⟨-, -, -, hle', -⟩ := hs'.at'.erased
      have hw' := hs'.w
      rw [hw, Nat.zero_add] at hw'
      rw [hs'.geo, hs'.buf, hs'.next, hes, hw', hchips]
      exact ⟨hnand, hsound, by omega, hmore, hsuits⟩

theorem arrives (hno : opt.noErase = false) (hpart : opt.partOffset = 0) (next : List Chip) :
    Arrives opt next := by
  induction next with
  | nil => exact arrives_of hno hpart fun chip next h => by cases h
  | cons chip next ih => exact arrives_of hno hpart fun chip' next' h => by cases h; exact ih

end Runs

/-! ## Several devices -/

/-- The bytes of the image follow each other over the devices, with `0xff` behind them, and what
comes after is as it was. -/
structure Spread (c : Chip) (next : List Chip) (image : List UInt8) (s' : Writer) : Prop where
  bytes : ∃ p < c.geo.erasesize, whole s' = image ++ List.replicate p 0xff
  devices : s'.devices = (c :: next).map (·.geo)
  next : s'.next = next.drop s'.closed.length

section Same

variable {erasesize held left : Nat} {gs : List Geometry}

theorem dvd_sum (h : ∀ g ∈ gs, g.erasesize = erasesize) :
    erasesize ∣ (gs.map Geometry.size).sum := by
  refine List.dvd_sum fun size hsize => ?_
  obtain ⟨g, hg, rfl⟩ := mem_map.mp hsize
  rw [Geometry.size, h g hg]
  exact Nat.dvd_mul_right _ _

theorem suits_same (hpos : 0 < erasesize)
    (h : ∀ g ∈ gs, g.erasesize = erasesize ∧ g.nand = false ∧ g.Sound g.size) (hheld : held ≤ erasesize)
    (hroom : held + left ≤ (gs.map Geometry.size).sum) : Suits erasesize held left gs := by
  induction gs generalizing held left with
  | nil =>
    simp only [map_nil, sum_nil] at hroom
    exact Nat.le_zero.mp hroom
  | cons g gs ih =>
    obtain ⟨hes, hnand, hsound⟩ := h g mem_cons_self
    have hrest : ∀ g' ∈ gs, g'.erasesize = erasesize ∧ g'.nand = false ∧ g'.Sound g'.size :=
      fun g' hg' => h g' (mem_cons_of_mem _ hg')
    rw [map_cons, sum_cons] at hroom
    by_cases hzero : held + left = 0
    · exact .inl hzero
    · refine .inr ⟨hes.le, ?_⟩
      rw [hes, max_eq_right hheld]
      obtain ⟨left', hleft⟩ : ∃ left', left' = left - (erasesize - held) := ⟨_, rfl⟩
      rw [← hleft]
      obtain ⟨m, hm⟩ := dvd_sum fun g' hg' => (hrest g' hg').1
      have hmore : 0 < (gs.map Geometry.size).sum → erasesize ≤ (gs.map Geometry.size).sum :=
        fun hsum => le_of_dvd hsum ⟨m, hm⟩
      have hone : roundUp erasesize erasesize = erasesize := by
        have hround := roundUp_sub hpos hpos
        rw [Nat.sub_self, roundUp_zero hpos] at hround
        omega
      have hsize : g.size = g.blocks * erasesize := by rw [← hes, blocks_mul]
      rw [hone]
      by_cases hends : erasesize + roundUp erasesize left' ≤ g.size
      · exact .inl ⟨hends, hsound.mono hends⟩
      · refine .inr ?_
        by_cases hblocks : g.blocks = 0
        · rw [hblocks, Nat.zero_mul] at hsize
          exact .inl ⟨hnand, hsize, ih hrest le_rfl (by omega)⟩
        · obtain ⟨b, hb⟩ : ∃ b, g.blocks = b + 1 := ⟨g.blocks - 1, by omega⟩
          rw [hb, succ_mul] at hsize
          have hfull : g.size - erasesize < left' := by
            by_contra hle
            have hround := roundUp_le (m := b) hpos (k := left') (by omega)
            omega
          exact .inr ⟨hnand, hsound, dvd_rfl, by omega, hfull, ih hrest le_rfl (by omega)⟩

end Same

def norChip (erasesize blocks : Nat) (hpos : 0 < erasesize)
    (hsize : erasesize * blocks < 2 ^ 31) : Chip where
  geo := { erasesize := erasesize, blocks := blocks, nand := false, bad := fun _ => false
           worn := fun _ => false, erasesize_pos := hpos, size_lt := hsize }
  data := fun _ => 0
  ops := []

theorem sound_norChip {erasesize blocks : Nat} {hpos : 0 < erasesize}
    {hsize : erasesize * blocks < 2 ^ 31} :
    (norChip erasesize blocks hpos hsize).geo.nand = false ∧
      (norChip erasesize blocks hpos hsize).geo.Sound
        (norChip erasesize blocks hpos hsize).geo.size :=
  ⟨rfl, fun _ _ _ => ⟨fun hbad => Bool.false_ne_true hbad.1, rfl⟩⟩

end LibWrt.Mtd
