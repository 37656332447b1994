/-
LibWrt.Tffs.Reader — reading entries and key names out of an image.

The tool for NOR flash goes from entry to entry by their lengths. It looks at
the header before it looks where the image ends, and returns an entry with the
id whether the image holds all of it or not (`findEntry_iff`). Both tools read
the names of the keys up to a zero, wherever that is (`parseKeyNames_iff`).
-/
import LibWrt.Lib.Bytes
import LibWrt.Lib.Walk
import LibWrt.Tffs.Lookup

namespace LibWrt.Tffs.Reader

open LibWrt.Bytes LibWrt.Loop LibWrt.Walk

/-! ## The search -/

/-- `TFFS_ID_END` of the tool for NOR flash -/
def idEnd : Nat := 0xffff

/-- `TFFS_ID_TABLE_NAME` -/
def idTableName : Nat := 0x01ff

/-- `get_walk_size` -/
def walkSize (len : Nat) : Nat := (len + 3) % 2 ^ 32 / 4 * 4

def readHalf (bigEndian : Bool) (image : List UInt8) (pos : Nat) : Option Nat :=
  if pos + 2 ≤ image.length then some (ofHalf bigEndian (image.drop pos)) else none

section Search

variable (bigEndian : Bool) (image : List UInt8)

/-- `get_header_id` and `get_header_len` -/
def headerId (pos : Nat) : Nat := ofHalf bigEndian (image.drop pos)

def headerLen (pos : Nat) : Nat := ofHalf bigEndian (image.drop (pos + 2))

def nextEntry (pos : Nat) : Nat := (pos + 4 + walkSize (headerLen bigEndian image pos)) % 2 ^ 32

/-- A turn of `find_entry`: where the entry is found, if it is. The result is none where something
is read outside the image. The end has the same bytes in either order. -/
def findTurn (id : Nat) : Nat × Unit → (Nat × Unit) ⊕ Option (Option Nat)
  | (pos, _) =>
    match readHalf bigEndian image pos with
    | none => .inr none
    | some thisId =>
      if thisId = id then .inr (some (some pos))
      else
        match readHalf bigEndian image (pos + 2) with
        | none => .inr none
        | some len =>
          let pos := (pos + 4 + walkSize len) % 2 ^ 32
          if pos < image.length ∧ thisId ≠ idEnd then .inl (pos, ()) else .inr (some none)

/-- `find_entry` -/
def FindEntry (id : Nat) (r : Option Nat) : Prop :=
  Ends (findTurn bigEndian image id) (0, ()) (some r)

/-! ## What the search is to find -/

/-- Where entry `i` is. -/
def entryPos (i : Nat) : Nat := place (nextEntry bigEndian image) 0 i

def HasNext (pos : Nat) : Prop :=
  pos + 4 ≤ image.length ∧ headerId bigEndian image pos ≠ idEnd ∧
    nextEntry bigEndian image pos < image.length

/-- An entry with the id, and all of it is in the image. -/
def Contained (id pos : Nat) : Prop :=
  headerId bigEndian image pos = id ∧ id ≠ idEnd ∧
    pos + 4 + headerLen bigEndian image pos ≤ image.length

/-- The first of the entries with the id that are contained in the image, or nothing. -/
def IsFirst (id : Nat) : Option Nat → Prop
  | some pos =>
    ∃ i, Visits (nextEntry bigEndian image) (HasNext bigEndian image) 0 i ∧
      pos = entryPos bigEndian image i ∧ Contained bigEndian image id pos ∧
      ∀ k < i, ¬ Contained bigEndian image id (entryPos bigEndian image k)
  | none =>
    ∀ i, Visits (nextEntry bigEndian image) (HasNext bigEndian image) 0 i →
      ¬ Contained bigEndian image id (entryPos bigEndian image i)

/-- The search comes to an end, reads inside the image only, and finds what it is to find. -/
def Finds (id : Nat) : Prop :=
  ∃ r, FindEntry bigEndian image id r ∧ IsFirst bigEndian image id r

/-! ## Where the search goes wrong -/

/-- The entry is another one, and there is one behind it. -/
def GoesOn (id pos : Nat) : Prop := headerId bigEndian image pos ≠ id ∧ HasNext bigEndian image pos

/-- What is looked at is in the image: the id, and the length of an entry with another id. -/
structure Inside (id pos : Nat) : Prop where
  readId : pos + 2 ≤ image.length
  readLen : headerId bigEndian image pos ≠ id → pos + 4 ≤ image.length

end Search

variable {bigEndian : Bool} {image : List UInt8} {id : Nat}

/-- An entry is looked at from its header on. -/
theorem readHalf_inside {pos : Nat} (h : pos + 2 ≤ image.length) :
    readHalf bigEndian image pos = some (headerId bigEndian image pos) := if_pos h

theorem readHalf_len {pos : Nat} (h : pos + 4 ≤ image.length) :
    readHalf bigEndian image (pos + 2) = some (headerLen bigEndian image pos) :=
  if_pos (by omega)

theorem findTurn_walks : Walks (findTurn bigEndian image id) (nextEntry bigEndian image)
    (GoesOn bigEndian image id) (Inside bigEndian image id) (fun _ _ => ())
    (fun pos _ => some (if headerId bigEndian image pos = id then some pos else none)) none where
  go pos _ hin hgo := by
    obtain ⟨hne, hlen, hend, hlt⟩ := hgo
    simp only [findTurn, readHalf_inside hin.readId, hne, if_false, readHalf_len hlen]
    exact if_pos ⟨hlt, hend⟩
  stop pos _ hin hstop := by
    by_cases hid : headerId bigEndian image pos = id
    · simp only [findTurn, readHalf_inside hin.readId, hid, if_true]
    · have hlen := hin.readLen hid
      simp only [findTurn, readHalf_inside hin.readId, hid, if_false, readHalf_len hlen]
      exact if_neg fun h => hstop ⟨hid, hlen, h.2, h.1⟩
  leave pos _ hin := by
    by_cases hread : pos + 2 ≤ image.length
    · by_cases hid : headerId bigEndian image pos = id
      · exact absurd ⟨hread, fun h => absurd hid h⟩ hin
      · have hnone : readHalf bigEndian image (pos + 2) = none := by
          refine if_neg fun hlen => hin ⟨hread, fun _ => ?_⟩
          omega
        simp only [findTurn, readHalf_inside hread, hid, if_false, hnone]
    · have hnone : readHalf bigEndian image pos = none := if_neg hread
      simp only [findTurn, hnone]
  ne _ _ := by simp

/-- There are only so many places to go on from. -/
instance : Finite {pos // GoesOn bigEndian image id pos} := by
  refine Finite.of_injective
    (fun pos => (⟨pos.1, by have := pos.2.2.1; omega⟩ : Fin image.length)) ?_
  intro a b hab
  exact Subtype.ext (Fin.mk.inj hab)

theorem hasNext_of_goesOn {n : Nat}
    (h : Visits (nextEntry bigEndian image) (GoesOn bigEndian image id) 0 n) :
    Visits (nextEntry bigEndian image) (HasNext bigEndian image) 0 n := fun i hi => (h i hi).2

/-- What the search comes to is what it is to find, if the entry that it takes is contained in the
image. -/
theorem isFirst_iff {n : Nat}
    (h : StopsAt (nextEntry bigEndian image) (GoesOn bigEndian image id) 0 n) :
    IsFirst bigEndian image id
        (if headerId bigEndian image (entryPos bigEndian image n) = id then
          some (entryPos bigEndian image n) else none) ↔
      (headerId bigEndian image (entryPos bigEndian image n) = id →
        Contained bigEndian image id (entryPos bigEndian image n)) := by
  have hother : ∀ k < n, ¬ Contained bigEndian image id (entryPos bigEndian image k) :=
    fun k hk hcont => (h.1 k hk).1 hcont.1
  by_cases hid : headerId bigEndian image (entryPos bigEndian image n) = id
  · rw [if_pos hid]
    constructor
    · rintro ⟨i, -, -, hcont, -⟩ -
      exact hcont
    · exact fun hcont => ⟨n, hasNext_of_goesOn h.1, rfl, hcont hid, hother⟩
  · rw [if_neg hid]
    refine ⟨fun _ hid' => absurd hid' hid, fun _ i hi hcont => ?_⟩
    have hin : i ≤ n := by
      by_contra hlt
      exact h.2 ⟨hid, hi n (by omega)⟩
    rcases Nat.eq_or_lt_of_le hin with rfl | hlt
    · exact hid hcont.1
    · exact hother i hlt hcont

/-- The search is right if and only if the lengths do not lead back, what is looked at is in the
image, and an entry with the id that it comes to is contained in the image. -/
theorem finds_iff : Finds bigEndian image id ↔
    NoReturn (nextEntry bigEndian image) (GoesOn bigEndian image id) 0 ∧
      ∀ i, Visits (nextEntry bigEndian image) (GoesOn bigEndian image id) 0 i →
        Inside bigEndian image id (entryPos bigEndian image i) ∧
          (headerId bigEndian image (entryPos bigEndian image i) = id →
            Contained bigEndian image id (entryPos bigEndian image i)) := by
  constructor
  · rintro ⟨r, hends, hfirst⟩
    obtain ⟨n, hstop, hin, heq⟩ := (findTurn_walks.ends_iff (by simp)).mp hends
    rw [Option.some.inj heq] at hfirst
    refine ⟨exists_stopsAt_iff.mp ⟨n, hstop⟩, fun i hi => ⟨hin i (hstop.le hi), fun hid => ?_⟩⟩
    rcases Nat.eq_or_lt_of_le (hstop.le hi) with rfl | hlt
    · exact (isFirst_iff hstop).mp hfirst hid
    · exact absurd hid (hstop.1 i hlt).1
  · rintro ⟨hret, hall⟩
    obtain ⟨n, hstop⟩ := exists_stopsAt_iff.mpr hret
    refine ⟨_, (findTurn_walks.ends_iff (by simp)).mpr
      ⟨n, hstop, fun i hi => (hall i (hstop.1.mono hi)).1, rfl⟩, ?_⟩
    exact (isFirst_iff hstop).mpr (hall n hstop.1).2

/-! ## The names of the keys -/

section Names

variable (bigEndian readsId : Bool) (bytes : List UInt8) (len : Nat)

/-- `strlen`; none where there is no zero. -/
def strlen (pos : Nat) : Option Nat := (bytes.drop pos).idxOf? 0

/-- `read_uint32`, which only one of the tools does here -/
def readsIdInside (pos : BitVec 32) : Bool := !readsId || decide (pos.toNat + 4 ≤ bytes.length)

def nextName (pos : BitVec 32) : BitVec 32 :=
  pos + 4 + BitVec.ofNat 32 (walkSize (((strlen bytes (pos + 4).toNat).getD 0) + 1))

def keyName (pos : BitVec 32) : BitVec 32 × List UInt8 :=
  (ofWord32 bigEndian bytes pos.toNat, (bytes.drop (pos + 4).toNat).takeWhile (· != 0))

/-- A turn of `parse_key_names`. -/
def nameTurn : BitVec 32 × List (BitVec 32 × List UInt8) →
    (BitVec 32 × List (BitVec 32 × List UInt8)) ⊕ Option (List (BitVec 32 × List UInt8))
  | (pos, names) =>
    if readsIdInside readsId bytes pos then
      match strlen bytes (pos + 4).toNat with
      | none => .inr none
      | some n =>
        let names := names ++ [keyName bigEndian bytes pos]
        let pos := pos + 4 + BitVec.ofNat 32 (walkSize (n + 1))
        if pos.toNat < len then .inl (pos, names) else .inr (some names)
    else .inr none

/-- `parse_key_names` -/
def ParseKeyNames (names : List (BitVec 32 × List UInt8)) : Prop :=
  Ends (nameTurn bigEndian readsId bytes len) (0, []) (some names)

def NameFollows (pos : BitVec 32) : Prop := (nextName bytes pos).toNat < len

/-- The id that is read and the zero behind the name are there. -/
def NameInside (pos : BitVec 32) : Prop :=
  readsIdInside readsId bytes pos = true ∧ (strlen bytes (pos + 4).toNat).isSome

/-- The positions do not lead back, and every name ends in the bytes. -/
def NamesEnd : Prop :=
  NoReturn (nextName bytes) (NameFollows bytes len) 0 ∧
    ∀ i, Visits (nextName bytes) (NameFollows bytes len) 0 i →
      NameInside readsId bytes (place (nextName bytes) 0 i)

end Names

section Names

variable {readsId : Bool} {bytes : List UInt8} {len : Nat}

theorem nameTurn_walks : Walks (nameTurn bigEndian readsId bytes len) (nextName bytes)
    (NameFollows bytes len) (NameInside readsId bytes)
    (fun pos names => names ++ [keyName bigEndian bytes pos])
    (fun pos names => some (names ++ [keyName bigEndian bytes pos])) none where
  go pos names hin hgo := by
    obtain ⟨hid, hsome⟩ := hin
    obtain ⟨n, hn⟩ := Option.isSome_iff_exists.mp hsome
    unfold NameFollows nextName at hgo
    rw [hn] at hgo
    simp only [nameTurn, hid, if_true, hn, nextName, Option.getD_some]
    exact if_pos hgo
  stop pos names hin hstop := by
    obtain ⟨hid, hsome⟩ := hin
    obtain ⟨n, hn⟩ := Option.isSome_iff_exists.mp hsome
    unfold NameFollows nextName at hstop
    rw [hn] at hstop
    simp only [nameTurn, hid, if_true, hn]
    exact if_neg hstop
  leave pos names hin := by
    by_cases hid : readsIdInside readsId bytes pos = true
    · cases hn : strlen bytes (pos + 4).toNat with
      | none => simp only [nameTurn, hid, if_true, hn]
      | some n => exact absurd ⟨hid, by rw [hn]; rfl⟩ hin
    · simp only [nameTurn, hid]
      rfl
  ne _ _ := by simp

instance : Finite {pos // NameFollows bytes len pos} := by
  refine Finite.of_injective (fun pos => pos.1.toFin) ?_
  intro a b hab
  exact Subtype.ext (BitVec.toFin_inj.mp hab)

/-- The names are parsed, and only inside the bytes, if and only if every one of them ends. -/
theorem parseKeyNames_iff :
    (∃ names, ParseKeyNames bigEndian readsId bytes len names) ↔ NamesEnd readsId bytes len := by
  constructor
  · rintro ⟨names, hends⟩
    obtain ⟨n, hstop, hin, -⟩ := (nameTurn_walks.ends_iff (by simp)).mp hends
    exact ⟨exists_stopsAt_iff.mp ⟨n, hstop⟩, fun i hi => hin i (hstop.le hi)⟩
  · rintro ⟨hret, hall⟩
    obtain ⟨n, hstop⟩ := exists_stopsAt_iff.mpr hret
    exact ⟨_, (nameTurn_walks.ends_iff (by simp)).mpr
      ⟨n, hstop, fun i hi => hall i (hstop.1.mono hi), rfl⟩⟩

end Names

/-! ## The tool for NAND flash -/

section Nand

variable {cfg : Config} {img img' : Image} {good : Nat → Bool}

theorem findLoop_congr {n sector : Nat} {l : Lookup}
    (h : ∀ i, sector ≤ i → i < sector + n → img' i = img i) :
    findLoop cfg good img' id n sector l = findLoop cfg good img id n sector l := by
  induction n generalizing sector l with
  | zero => rfl
  | succ n ih =>
    have hturn : Tffs.findTurn cfg good img' id sector l =
        Tffs.findTurn cfg good img id sector l := by
      unfold Tffs.findTurn
      rw [h sector le_rfl (by omega)]
    rw [findLoop, findLoop, hturn]
    congr 1
    funext l
    exact ih fun i hi hlt => h i (by omega) (by omega)

theorem findEntry_congr (h : ∀ i < cfg.numSectors, img' i = img i) (sectorIds : Nat → Nat) :
    findEntry cfg good img' id sectorIds = findEntry cfg good img id sectorIds := by
  unfold findEntry
  rw [findLoop_congr fun i _ hi => h i (by omega)]

/-- A segment that is no longer than possible is in its sector. -/
theorem readSegment_length (s : Sector) (h : cfg.word 4 s.data 0x04 ≤ maximumSegmentSize) :
    (readSegment cfg s).val.length = cfg.word 4 s.data 0x04 := by
  have hdata := s.data_length
  unfold readSegment maximumSegmentSize at *
  dsimp only
  rw [List.length_take, List.length_drop]
  omega

end Nand

/-! ## Both tools -/

/-- Both tools come to an end and read inside what is loaded only, and the one for NOR flash finds
what it is to find. The names of the keys are those of the entry at `pos` of the image, and of the
value of an entry. -/
structure ReadersRight (bigEndian : Bool) (image : List UInt8) (id pos : Nat) (cfg : Config)
    (img : Image) (value : List UInt8) : Prop where
  norSearch : Finds bigEndian image id
  norNames : ∃ names, ParseKeyNames bigEndian false (image.drop (pos + 4))
    (headerLen bigEndian image pos) names
  nandSearch : ∀ (good : Nat → Bool) (id : Nat) (sectorIds : Nat → Nat),
    (∀ img', (∀ i < cfg.numSectors, img' i = img i) →
      findEntry cfg good img' id sectorIds = findEntry cfg good img id sectorIds) ∧
    ∀ e ∈ segmentSectors cfg good img id,
      (readSegment cfg e).val.length = cfg.word 4 e.data 0x04
  nandNames : ∃ names, ParseKeyNames cfg.big true value value.length names

/-- It is so if and only if, with the tool for NOR flash, what is looked at is in the image and
entries with the id are contained in it, and every name ends in what is loaded. -/
theorem readersRight_iff (pos : Nat) (cfg : Config) (img : Image) (value : List UInt8) :
    ReadersRight bigEndian image id pos cfg img value ↔
      (NoReturn (nextEntry bigEndian image) (GoesOn bigEndian image id) 0 ∧
        ∀ i, Visits (nextEntry bigEndian image) (GoesOn bigEndian image id) 0 i →
          Inside bigEndian image id (entryPos bigEndian image i) ∧
            (headerId bigEndian image (entryPos bigEndian image i) = id →
              Contained bigEndian image id (entryPos bigEndian image i))) ∧
      NamesEnd false (image.drop (pos + 4)) (headerLen bigEndian image pos) ∧
      NamesEnd true value value.length := by
  constructor
  · intro h
    exact ⟨finds_iff.mp h.norSearch, parseKeyNames_iff.mp h.norNames,
      parseKeyNames_iff.mp h.nandNames⟩
  · rintro ⟨hsearch, hnames, hnand⟩
    refine ⟨finds_iff.mpr hsearch, parseKeyNames_iff.mpr hnames, fun good id sectorIds => ?_,
      parseKeyNames_iff.mpr hnand⟩
    refine ⟨fun img' himg => findEntry_congr himg sectorIds, fun e he => ?_⟩
    obtain ⟨i, hi, rfl⟩ := List.mem_map.mp he
    exact readSegment_length _ (length_le_of_entry (mem_entries hi).2.2)

/-- An entry is returned that goes on behind the image. -/
theorem readers_cut_entry :
    ¬ ReadersRight false [0xff, 0x01, 0x10, 0x00] idTableName 0 twoSectors (oneSegment 0 0)
      [1, 0, 0, 0, 0x61, 0, 0, 0] := by
  rintro ⟨⟨r, hends, hfirst⟩, -⟩
  obtain rfl : r = some 0 := Option.some.inj (hends.unique (.stop rfl))
  obtain ⟨-, -, -, hcont, -⟩ := hfirst
  exact absurd hcont.2.2 (by decide)

end LibWrt.Tffs.Reader
