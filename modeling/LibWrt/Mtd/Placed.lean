/-
LibWrt.Mtd.Placed — which images are where they belong.

An image is placed if its chunks are in the good blocks at and after the offset,
in their order, each of which was erased before, and if no other block was
touched. It is so for an image that is written with erasing if and only if its
chunks are what the reads deliver, failing ones among them, and the first good
blocks of the partition, moved by the offset, are the first good blocks after
the offset.
-/
import LibWrt.Mtd.Placement

namespace LibWrt.Mtd

open List Nat

/-- The `k`-th good block at or after the offset. -/
noncomputable def goodFrom (g : Geometry) (off k : Nat) : Nat :=
  nth (fun b => off ≤ b ∧ g.Good b) k

def Op.block (erasesize : Nat) : Op → Nat
  | .erase b => b
  | .write pos _ => pos / erasesize

def Op.written : Op → Option (Nat × List UInt8)
  | .erase _ => none
  | .write pos bytes => some (pos, bytes)

/-- What `ops`, the newest first, have done to the device `c`. -/
structure Placed (c : Chip) (off : Nat) (image : List UInt8) (c' : Chip) (ops : List Op) :
    Prop where
  log : c'.ops = ops ++ c.ops
  stored : ∀ k < chunks c.geo.erasesize image,
    c'.read (goodFrom c.geo off k * c.geo.erasesize) c.geo.erasesize =
      chunk c.geo.erasesize image k
  writes : ops.reverse.filterMap Op.written = (range (chunks c.geo.erasesize image)).map
    fun k => (goodFrom c.geo off k * c.geo.erasesize, chunk c.geo.erasesize image k)
  erased : ∀ newer older pos bytes, ops = newer ++ .write pos bytes :: older →
    .erase (pos / c.geo.erasesize) ∈ older
  kept : ∀ op ∈ ops, off ≤ op.block c.geo.erasesize ∧ c.geo.Good (op.block c.geo.erasesize)

/-- The good blocks of the partition, moved by the offset, are those after the offset. -/
def Straight (g : Geometry) (off n : Nat) : Prop := ∀ k < n, placeOf g off k = goodFrom g off k

/-- The chunks of an image, one after the other. -/
def chunkList (erasesize : Nat) (image : List UInt8) : List (List UInt8) :=
  (range (chunks erasesize image)).map (chunk erasesize image)

theorem chunkList_eq {erasesize : Nat} {image image' : List UInt8}
    (h : chunkList erasesize image = chunkList erasesize image') :
    chunks erasesize image = chunks erasesize image' ∧
      ∀ k < chunks erasesize image', chunk erasesize image k = chunk erasesize image' k := by
  have hlen : chunks erasesize image = chunks erasesize image' := by
    simpa [chunkList] using congrArg List.length h
  refine ⟨hlen, fun k hk => ?_⟩
  rw [chunkList, chunkList, hlen, map_inj_left] at h
  exact h k (mem_range.mpr hk)

/-! ## With erasing -/

section Operations

variable {c : Chip} {place : Nat → Nat} {image : List UInt8}

theorem written_storeOps (n : Nat) : (storeOps c place image n).reverse.filterMap Op.written =
    (range n).map fun k => (place k * c.geo.erasesize, chunk c.geo.erasesize image k) := by
  induction n with
  | zero => rfl
  | succ n ih =>
    rw [storeOps, reverse_append, filterMap_append, ih, range_succ,
      map_append]
    rfl

theorem erased_storeOps (n : Nat) (newer older : List Op) (pos : Nat) (bytes : List UInt8)
    (h : storeOps c place image n = newer ++ .write pos bytes :: older) :
    .erase (pos / c.geo.erasesize) ∈ older := by
  induction n generalizing newer with
  | zero => simp [storeOps] at h
  | succ n ih =>
    have hpos := c.geo.erasesize_pos
    rw [storeOps, chunkOps] at h
    cases newer with
    | nil =>
      simp only [cons_append, nil_append, List.cons.injEq, Op.write.injEq] at h
      obtain ⟨⟨rfl, -⟩, rfl⟩ := h
      rw [Nat.mul_div_cancel _ hpos]
      exact mem_cons_self
    | cons op newer =>
      cases newer with
      | nil => simp at h
      | cons op' newer =>
        simp only [cons_append, nil_append, List.cons.injEq] at h
        exact ih newer h.2.2

theorem block_of_mem {k : Nat} {op : Op} (h : op ∈ chunkOps c place image k) :
    op.block c.geo.erasesize = place k := by
  have hpos := c.geo.erasesize_pos
  simp only [chunkOps, mem_cons, not_mem_nil, or_false] at h
  rcases h with rfl | rfl
  · exact Nat.mul_div_cancel _ hpos
  · rfl

end Operations

/-! ## Without -/

def WrittenOnly (c c' : Chip) (ops : List Op) : Prop :=
  c'.ops = ops ++ c.ops ∧ ∀ op ∈ ops, ∃ pos bytes, op = .write pos bytes

section NoErase

variable {opt : Options} {s s' : Writer} {begun : List UInt8}

theorem writeChunk_chip (h : writeChunk s = .ok s') :
    s'.buflen = 0 ∧ ∃ bytes, s'.chip = s.chip.programmed s.pos bytes := by
  unfold writeChunk at h
  split at h
  · cases h
  · split at h
    · cases h
    · rename_i len chip hwrite
      split_ifs at h
      obtain rfl := Except.ok.inj h
      unfold Chip.write at hwrite
      split_ifs at hwrite
      obtain ⟨-, rfl⟩ := Prod.mk.inj (Option.some.inj hwrite)
      exact ⟨rfl, _, rfl⟩

/-- A turn writes a chunk, or is the last one. -/
theorem writeTurn_noErase (hno : opt.noErase = true) (hs : Holds s begun) {last : Bool}
    (h : writeTurn opt s = .ok (last, s')) :
    last = true ∧ s'.chip = s.chip ∨
      last = false ∧ Holds s' [] ∧ ∃ pos bytes, WrittenOnly s.chip s'.chip [.write pos bytes] := by
  unfold writeTurn at h
  split at h
  · cases h
  · rename_i s₁ hread
    obtain ⟨buf, hs₁, -, hholds₁⟩ := readChunk_eq_ok hs hread
    split_ifs at h with hempty
    · obtain ⟨rfl, rfl⟩ := Prod.mk.inj (Except.ok.inj h)
      exact .inl ⟨rfl, by rw [hs₁]⟩
    · split at h
      · cases h
      · rename_i s₂ hpad
        obtain ⟨buf₂, hs₂, -, -⟩ := padChunk_eq_ok hholds₁ hpad
        rw [eraseChunk, if_pos hno] at h
        dsimp only at h
        cases hwrite : writeChunk s₂ with
        | error stop =>
          rw [hwrite] at h
          cases h
        | ok s₃ =>
          rw [hwrite] at h
          obtain ⟨rfl, rfl⟩ := Prod.mk.inj (Except.ok.inj h)
          obtain ⟨hzero, bytes, hchip⟩ := writeChunk_chip hwrite
          have hold : s₂.chip = s.chip := by rw [hs₂, hs₁]
          refine .inr ⟨rfl, ⟨by simp [hzero], by simpa using hzero⟩, s₂.pos, bytes, ?_, ?_⟩
          · rw [hchip, hold]
            rfl
          · intro op hop
            exact ⟨_, _, mem_singleton.mp hop⟩

theorem writeLoop_noErase (hno : opt.noErase = true) (hs : Holds s begun) {n : Nat}
    (h : writeLoop opt n s = .ok s') : ∃ ops, WrittenOnly s.chip s'.chip ops := by
  induction n generalizing s begun with
  | zero => cases h
  | succ n ih =>
    rw [writeLoop] at h
    split at h
    · cases h
    · rename_i t hturn
      obtain rfl := Except.ok.inj h
      rcases writeTurn_noErase hno hs hturn with ⟨-, hchip⟩ | ⟨hlast, -⟩
      · exact ⟨[], by rw [hchip]; rfl, by simp⟩
      · cases hlast
    · rename_i t hturn
      rcases writeTurn_noErase hno hs hturn with ⟨hlast, -⟩ | ⟨-, hholds, pos, bytes, hops, -⟩
      · cases hlast
      · obtain ⟨ops, hrest, honly⟩ := ih hholds h
        refine ⟨ops ++ [.write pos bytes], ?_, fun op hop => ?_⟩
        · rw [hrest, hops, append_assoc]
        · rcases mem_append.mp hop with hop | hop
          · exact honly op hop
          · exact ⟨_, _, mem_singleton.mp hop⟩

end NoErase

/-! ## Placement -/

section Placement

variable {opt : Options} {c : Chip} {off : Nat} {begun image whole : List UInt8}
  {later : List (List UInt8)} {s' : Writer}

theorem chunks_nil {erasesize : Nat} (hpos : 0 < erasesize) : chunks erasesize [] = 0 :=
  (chunks_eq hpos (by simp) (by simpa using hpos)).symm

theorem placed_nil (c : Chip) (off : Nat) : Placed c off [] c [] := by
  have hzero := chunks_nil c.geo.erasesize_pos
  exact ⟨rfl, by simp [hzero], by simp [hzero], by simp, by simp⟩

theorem eq_nil_of_chunks {erasesize : Nat} (hpos : 0 < erasesize)
    (h : chunks erasesize image = 0) : image = [] := by
  rw [chunks, Nat.div_eq_zero_iff] at h
  exact length_eq_zero_iff.mp (by omega)

/-- What was stored is placed if the good blocks are straight. -/
theorem Stored.placed {c' : Chip} (h : Stored c off image c')
    (hsame : chunkList c.geo.erasesize image = chunkList c.geo.erasesize whole)
    (hstraight : Straight c.geo off (chunks c.geo.erasesize whole)) :
    Placed c off whole c'
      (storeOps c (placeOf c.geo off) image (chunks c.geo.erasesize image)) := by
  have hchip := h.chip
  obtain ⟨hchunks, hchunk⟩ := chunkList_eq hsame
  constructor
  · rw [hchip, ops_storeChunks]
  · intro k hk
    rw [hchip, ← hstraight k hk, ← hchunk k hk]
    rw [← hchunks] at hk
    exact read_storeChunks h.fits.injective hk (h.fits.lt k hk)
  · rw [written_storeOps, hchunks]
    refine map_congr_left fun k hk => ?_
    rw [hstraight k (mem_range.mp hk), hchunk k (mem_range.mp hk)]
  · exact erased_storeOps _
  · intro op hop
    obtain ⟨k, hk, hmem⟩ := mem_storeOps.mp hop
    rw [block_of_mem hmem]
    exact ⟨Nat.le_add_right _ _, h.fits.good k hk⟩

theorem Stored.straight {c' : Chip} {ops : List Op} (h : Stored c off image c')
    (hplaced : Placed c off whole c' ops) :
    chunkList c.geo.erasesize image = chunkList c.geo.erasesize whole ∧
      Straight c.geo off (chunks c.geo.erasesize whole) := by
  have hops : ops = storeOps c (placeOf c.geo off) image (chunks c.geo.erasesize image) := by
    have hlog := hplaced.log
    rw [h.chip, ops_storeChunks] at hlog
    exact (append_cancel_right hlog).symm
  have hwrites := hplaced.writes
  rw [hops, written_storeOps] at hwrites
  have hsame : chunkList c.geo.erasesize image = chunkList c.geo.erasesize whole := by
    have hsnd := congrArg (List.map Prod.snd) hwrites
    rw [map_map, map_map] at hsnd
    exact hsnd
  rw [(chunkList_eq hsame).1, map_inj_left] at hwrites
  refine ⟨hsame, fun k hk => ?_⟩
  have hpair := (Prod.mk.inj (hwrites k (mem_range.mpr hk))).1
  exact eq_of_mul_eq_mul_right c.geo.erasesize_pos hpair

/-- With an image that has bytes, and with enough good blocks, the offset is inside. -/
theorem offset_le (hne : whole ≠ [])
    (hroom : chunks c.geo.erasesize whole ≤
      count (fun b => off ≤ b ∧ c.geo.Good b) c.geo.blocks) : off ≤ c.geo.blocks := by
  by_contra hlt
  have hnone : count (fun b => off ≤ b ∧ c.geo.Good b) c.geo.blocks = 0 := by
    refine count_of_forall_not fun b hb hgood => ?_
    omega
  exact hne (eq_nil_of_chunks c.geo.erasesize_pos (by omega))

end Placement

def opsOf (result : Except Stop Writer) : Option (List Op) :=
  match result with
  | .ok s => some s.chip.ops
  | .error _ => none

theorem of_opsOf {result : Except Stop Writer} {ops : List Op} (h : opsOf result = some ops) :
    ∃ s, result = .ok s ∧ s.chip.ops = ops := by
  cases result with
  | error stop => cases h
  | ok s => exact ⟨s, rfl, Option.some.inj h⟩

theorem goodFrom_firstBad : goodFrom firstBad.geo 1 0 = 1 := by
  have hgood : (1 ≤ 1 ∧ firstBad.geo.Good 1) := by decide
  have hcount : count (fun b => 1 ≤ b ∧ firstBad.geo.Good b) 1 = 0 := by decide
  have hnth := nth_count (p := fun b => 1 ≤ b ∧ firstBad.geo.Good b) hgood
  rwa [hcount] at hnth

end LibWrt.Mtd
