/-
LibWrt.Mtd.Buffer — what the parts of a turn do with the buffer.

The buffer holds bytes at its start: those that were read, then a chunk that is
padded. A chunk that begins at the start of the buffer is written as it is.
-/
import LibWrt.Mtd.Write

namespace LibWrt.Mtd

open List

@[simp] theorem allSet_map (bytes : List UInt8) : allSet (bytes.map some) = some bytes := by
  induction bytes with
  | nil => rfl
  | cons byte bytes ih => simp [allSet, ih]

def padded (erasesize : Nat) (bytes : List UInt8) : List UInt8 :=
  bytes ++ replicate (erasesize - bytes.length) 0xff

@[simp] theorem length_padded (erasesize : Nat) (bytes : List UInt8) :
    (padded erasesize bytes).length = max bytes.length erasesize := by
  simp [padded]
  omega

theorem padded_of_le {erasesize : Nat} {bytes : List UInt8} (h : erasesize ≤ bytes.length) :
    padded erasesize bytes = bytes := by simp [padded, h]

def Holds (s : Writer) (bytes : List UInt8) : Prop :=
  s.buf.take s.buflen = bytes.map some ∧ s.buflen = bytes.length

theorem holds_start (opt : Options) (c : Chip) (next : List Chip) (begun image : List UInt8)
    (later : List (List UInt8)) : Holds (.start opt c next begun image later) begun := by
  constructor
  · simp [Writer.start]
  · rfl

section Parts

variable {s s' : Writer} {bytes : List UInt8}

theorem Holds.le_length (h : Holds s bytes) : bytes.length ≤ s.buf.length := by
  have hlen := congrArg length h.1
  simp only [length_take, length_map, h.2] at hlen
  omega

theorem store_eq_some {buf buf' : Buffer} {pos : Nat} (h : buf.store pos bytes = some buf') :
    pos + bytes.length ≤ buf.length ∧ buf'.length = buf.length ∧
      buf'.take (pos + bytes.length) = buf.take pos ++ bytes.map some := by
  unfold Buffer.store at h
  split_ifs at h with hroom
  obtain rfl := Option.some.inj h
  refine ⟨hroom, by simp; omega, ?_⟩
  rw [take_append_of_le_length (by simp; omega), take_of_length_le (by simp)]

theorem store_of_room {buf : Buffer} {pos : Nat} (h : pos + bytes.length ≤ buf.length) :
    ∃ buf', buf.store pos bytes = some buf' := by
  simp [Buffer.store, h]

/-- What is left to read after a chunk was filled up from it. -/
def Writer.rest (s : Writer) (n : Nat) : List UInt8 × List (List UInt8) :=
  if n ≤ s.image.length then (s.image.drop n, s.later) else (s.later.headD [], s.later.tail)

theorem rest_of_later_nil {n : Nat} (h : s.later = []) : s.rest n = (s.image.drop n, []) := by
  unfold Writer.rest
  split_ifs with hn
  · rw [h]
  · rw [h, drop_of_length_le (Nat.le_of_not_le hn)]
    rfl

/-- What is read is appended. -/
theorem readChunk_eq_ok (hs : Holds s bytes) (h : readChunk s = .ok s') :
    ∃ buf, s' = { s with buf := buf, buflen := s'.buflen
                         image := (s.rest (s.erasesize - bytes.length)).1
                         later := (s.rest (s.erasesize - bytes.length)).2 } ∧
      buf.length = s.buf.length ∧
      Holds s' (bytes ++ s.image.take (s.erasesize - bytes.length)) := by
  unfold readChunk at h
  dsimp only at h
  rw [hs.2] at h
  split at h
  · cases h
  · rename_i buf hstore
    obtain ⟨-, hlength, htaken⟩ := store_eq_some hstore
    rw [length_take] at htaken
    have hholds : buf.take (bytes.length + min (s.erasesize - bytes.length) s.image.length) =
        (bytes ++ s.image.take (s.erasesize - bytes.length)).map some := by
      rw [htaken, ← hs.2, hs.1, map_append]
    refine ⟨buf, ?_, hlength, ?_, ?_⟩
    · unfold Writer.rest
      split_ifs at h ⊢ with hn
      · obtain rfl := Except.ok.inj h
        rfl
      · obtain rfl := Except.ok.inj h
        rfl
    · split_ifs at h with hn
      · obtain rfl := Except.ok.inj h
        exact hholds
      · obtain rfl := Except.ok.inj h
        exact hholds
    · split_ifs at h with hn
      · obtain rfl := Except.ok.inj h
        simp
      · obtain rfl := Except.ok.inj h
        simp

/-- With nothing to read the buffer stays empty. -/
theorem readChunk_nil (hlen : s.buflen = 0) (himage : s.image = []) :
    readChunk s = .ok { s with image := s.later.headD [], later := s.later.tail } := by
  have hpos : 0 < s.erasesize := s.chip.geo.erasesize_pos
  have hstore : s.buf.store 0 [] = some s.buf := by simp [Buffer.store]
  rw [readChunk, hlen, himage, take_nil, hstore]
  dsimp only
  rw [if_neg (by rw [Nat.sub_zero, length_nil]; omega), length_nil, Nat.min_zero]

/-- A chunk is padded to an erase block. -/
theorem padChunk_eq_ok (hs : Holds s bytes) (h : padChunk s = .ok s') :
    ∃ buf, s' = { s with buf := buf, buflen := s'.buflen } ∧ buf.length = s.buf.length ∧
      Holds s' (padded s.erasesize bytes) := by
  unfold padChunk at h
  split_ifs at h with hlt
  · split at h
    · cases h
    · rename_i buf hstore
      obtain rfl := Except.ok.inj h
      obtain ⟨-, hlength, htaken⟩ := store_eq_some hstore
      rw [hs.2] at hlt htaken
      rw [length_replicate, Nat.add_sub_cancel' hlt.le, ← hs.2, hs.1] at htaken
      refine ⟨buf, rfl, hlength, ?_, ?_⟩
      · rw [htaken, padded, map_append, hs.2]
      · simp only [length_padded]
        omega
  · obtain rfl := Except.ok.inj h
    rw [hs.2] at hlt
    rw [padded_of_le (Nat.le_of_not_lt hlt)]
    exact ⟨s.buf, rfl, rfl, hs⟩

/-- A buffer of an erase block is long enough. -/
theorem readChunk_of_room (hs : Holds s bytes) (hroom : s.erasesize ≤ s.buf.length) :
    ∃ s', readChunk s = .ok s' := by
  have hheld := hs.le_length
  have hfits : s.buflen + (s.image.take (s.erasesize - s.buflen)).length ≤ s.buf.length := by
    rw [length_take, hs.2]
    omega
  obtain ⟨buf, hstore⟩ := store_of_room hfits
  rw [readChunk, hstore]
  dsimp only
  split_ifs
  · exact ⟨_, rfl⟩
  · exact ⟨_, rfl⟩

theorem padChunk_of_room (hroom : s.erasesize ≤ s.buf.length) : ∃ s', padChunk s = .ok s' := by
  rw [padChunk]
  split_ifs with hlt
  · have hfits : s.buflen + (replicate (s.erasesize - s.buflen) (0xff : UInt8)).length ≤
        s.buf.length := by
      rw [length_replicate]
      omega
    obtain ⟨buf, hstore⟩ := store_of_room hfits
    rw [hstore]
    exact ⟨_, rfl⟩
  · exact ⟨s, rfl⟩

theorem load_of_holds (hs : Holds s bytes) : s.buf.load 0 s.buflen = some bytes := by
  have hroom : 0 + s.buflen ≤ s.buf.length := by
    rw [hs.2, Nat.zero_add]
    exact hs.le_length
  rw [Buffer.load, if_pos hroom, drop_zero, hs.1, allSet_map]

/-- A chunk is written where the file is. -/
theorem writeChunk_eq_ok (hs : Holds s bytes) (hoffset : s.offset = 0)
    (h : writeChunk s = .ok s') :
    s.pos + bytes.length ≤ s.chip.geo.size ∧
      s' = { s with chip := s.chip.programmed s.pos bytes, pos := s.pos + bytes.length
                    w := s.w + bytes.length, buflen := 0, offset := 0 } := by
  unfold writeChunk at h
  rw [hoffset, load_of_holds hs] at h
  dsimp only at h
  split at h
  · cases h
  · rename_i len chip hwrite
    split_ifs at h with hlen
    obtain rfl := Except.ok.inj h
    rw [hs.2] at hlen ⊢
    obtain ⟨hroom, rfl, rfl⟩ := Chip.write_eq_some hwrite (Nat.le_of_not_lt hlen)
    exact ⟨hroom, rfl⟩

end Parts

end LibWrt.Mtd
