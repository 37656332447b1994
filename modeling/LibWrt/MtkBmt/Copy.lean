/-
LibWrt.MtkBmt.Copy — what a remap saves of a failing block.

`bbt_nand_copy` copies page by page and returns at the first page that it
cannot read, and at the first write that is an error. It reads spare bytes as well, but it says how many of them to
write after the write (`wr_ops.ooblen`), so they are not written. The
destination holds what could be read exactly if the writes are no error and the
spare bytes were there before, and whatever stands behind the page where the
copy ends too (`bbtNandCopy_iff`).
-/
import LibWrt.Lib.Flash
import Mathlib.Tactic

namespace LibWrt.MtkBmt.Copy

open Flash (Chip Op)

@[ext]
structure Page where
  data : List UInt8
  oob : List UInt8
  deriving DecidableEq

/-- The fields of `bmtd` that the copy reads. -/
structure Geometry where
  pgShift : Nat
  blkShift : Nat
  oobsize : Nat
  le : pgShift ≤ blkShift

def Geometry.pgSize (g : Geometry) : Nat := 2 ^ g.pgShift

def Geometry.blkSize (g : Geometry) : Nat := 2 ^ g.blkShift

/-- `blk_size >> pg_shift` -/
def Geometry.pages (g : Geometry) : Nat := g.blkSize >>> g.pgShift

/-- The answer of `_read_oob`; bit flips are corrected. `retlen` is the length, but for `empty`,
    where there is no error and `retlen` is 0. -/
inductive Read where
  | ok
  | bitflip
  | empty
  | failed (errno : Nat)
  deriving DecidableEq

/-- The page is delivered. -/
def Read.Readable (r : Read) : Prop := r = .ok ∨ r = .bitflip

/-- The answer of `_write_oob`, with what an error leaves in the page. -/
inductive Write where
  | ok
  | failed (errno : Nat) (left : Page)
  deriving DecidableEq

def Write.leaves : Write → Page → Page
  | .ok, page => page
  | .failed _ left, _ => left

/-- `_write_oob` of a page, with so many of the spare bytes. -/
def writeOob (write : Nat → Nat → Write) (chip : Chip Page) (block page : Nat)
    (data oob : List UInt8) (ooblen : Nat) : Chip Page :=
  let old := chip.page block page
  (Op.program block page ((write block page).leaves
    { data := data, oob := oob.take ooblen ++ old.oob.drop ooblen })).apply chip

/-- The loop of `bbt_nand_copy`, with so many pages to go. -/
def copyLoop (g : Geometry) (read : Nat → Nat → Read) (write : Nat → Nat → Write)
    (destBlk srcBlk : Nat) (maxOffset : Int) : Nat → Nat → Chip Page → Int × Chip Page
  | 0, _, chip => (0, chip)
  | left + 1, offset, chip =>
    if (offset : Int) ≥ maxOffset then (0, chip)
    else
      let page := offset >>> g.pgShift
      let rd := chip.page srcBlk page
      let rdOoblen := min (g.oobsize / g.pages) 64
      let wrOoblen := 0
      match read srcBlk page with
      | .failed errno => (-errno, chip)
      | .empty => (0, chip)
      | _ =>
        let chip := writeOob write chip destBlk page rd.data (rd.oob.take rdOoblen) wrOoblen
        match write destBlk page with
        | .failed errno _ => (-errno, chip)
        | .ok => copyLoop g read write destBlk srcBlk maxOffset left (offset + g.pgSize) chip

/-- `bbt_nand_copy` -/
def bbtNandCopy (g : Geometry) (read : Nat → Nat → Read) (write : Nat → Nat → Write)
    (chip : Chip Page) (destBlk srcBlk : Nat) (maxOffset : Int) : Int × Chip Page :=
  copyLoop g read write destBlk srcBlk maxOffset g.pages 0 chip

/-! ## What the loop leaves -/

section Loop

variable {g : Geometry} {read : Nat → Nat → Read} {write : Nat → Nat → Write}
  {destBlk srcBlk : Nat} {maxOffset : Int}

theorem pgSize_pos (g : Geometry) : 0 < g.pgSize := Nat.two_pow_pos _

@[simp] theorem writeOob_none (chip : Chip Page) (block page : Nat) (data oob : List UInt8) :
    (writeOob write chip block page data oob 0).page block page =
      (write block page).leaves { data := data, oob := (chip.page block page).oob } := by
  simp [writeOob, Op.apply]

theorem writeOob_other {chip : Chip Page} {block page b p : Nat} {data oob : List UInt8}
    {ooblen : Nat} (h : ¬ (b = block ∧ p = page)) :
    (writeOob write chip block page data oob ooblen).page b p = chip.page b p := by
  by_cases hb : b = block
  · subst hb
    have hp : p ≠ page := fun hp => h ⟨rfl, hp⟩
    simp [writeOob, Op.apply, hp]
  · simp [writeOob, Op.apply, hb]

/-- The loop goes on behind the page. -/
def Passed (read : Nat → Nat → Read) (write : Nat → Nat → Write) (destBlk srcBlk j : Nat) : Prop :=
  (read srcBlk j).Readable ∧ write destBlk j = .ok

/-- The loop, at page `k`, gets to write page `i`. -/
def Reached (g : Geometry) (read : Nat → Nat → Read) (write : Nat → Nat → Write)
    (destBlk srcBlk : Nat) (maxOffset : Int) (k i : Nat) : Prop :=
  ((i * g.pgSize : Nat) : Int) < maxOffset ∧
    (∀ j, k ≤ j → j < i → Passed read write destBlk srcBlk j) ∧ (read srcBlk i).Readable

theorem page_offset (g : Geometry) (k : Nat) : (k * g.pgSize) >>> g.pgShift = k := by
  rw [Nat.shiftRight_eq_div_pow]
  exact Nat.mul_div_cancel k (pgSize_pos g)

theorem copyLoop_end {left k : Nat} {chip : Chip Page}
    (h : maxOffset ≤ ((k * g.pgSize : Nat) : Int)) :
    copyLoop g read write destBlk srcBlk maxOffset left (k * g.pgSize) chip = (0, chip) := by
  cases left with
  | zero => rfl
  | succ left => rw [copyLoop, if_pos h]

theorem copyLoop_unread {left k : Nat} {chip : Chip Page} (h : ¬ (read srcBlk k).Readable) :
    (copyLoop g read write destBlk srcBlk maxOffset left (k * g.pgSize) chip).2 = chip := by
  cases left with
  | zero => rfl
  | succ left =>
    rw [copyLoop]
    split
    · rfl
    · simp only [page_offset]
      cases hres : read srcBlk k with
      | ok => exact absurd (.inl hres) h
      | bitflip => exact absurd (.inr hres) h
      | empty => rfl
      | failed errno => rfl

/-- A page that can be read is written; the loop goes on if that is no error. -/
theorem copyLoop_go {left k : Nat} {chip : Chip Page}
    (hmax : ((k * g.pgSize : Nat) : Int) < maxOffset) (hread : (read srcBlk k).Readable) :
    ∃ oob, (copyLoop g read write destBlk srcBlk maxOffset (left + 1) (k * g.pgSize) chip).2 =
      let chip := writeOob write chip destBlk k (chip.page srcBlk k).data oob 0
      if write destBlk k = .ok then
        (copyLoop g read write destBlk srcBlk maxOffset left ((k + 1) * g.pgSize) chip).2
      else chip := by
  refine ⟨(chip.page srcBlk k).oob.take (min (g.oobsize / g.pages) 64), ?_⟩
  rw [copyLoop, if_neg (not_le.mpr hmax), Nat.succ_mul]
  simp only [page_offset]
  rcases hread with hread | hread <;> cases hwrite : write destBlk k <;> simp [hread]

theorem Reached.lt {k i : Nat} (h : Reached g read write destBlk srcBlk maxOffset k i)
    (hki : k ≤ i) : ((k * g.pgSize : Nat) : Int) < maxOffset := by
  have hle := Nat.mul_le_mul_right g.pgSize hki
  have := h.1
  omega

/-- A page that the loop does not get to is as it was. -/
theorem copyLoop_other {left k i : Nat} {chip : Chip Page}
    (h : k ≤ i → i < k + left → ¬ Reached g read write destBlk srcBlk maxOffset k i) :
    (copyLoop g read write destBlk srcBlk maxOffset left (k * g.pgSize) chip).2.page destBlk i =
      chip.page destBlk i := by
  induction left generalizing k chip with
  | zero => rfl
  | succ left ih =>
    by_cases hmax : ((k * g.pgSize : Nat) : Int) < maxOffset
    · by_cases hread : (read srcBlk k).Readable
      · obtain ⟨oob, hgo⟩ :=
          @copyLoop_go g read write destBlk srcBlk maxOffset left k chip hmax hread
        have hsame : (writeOob write chip destBlk k (chip.page srcBlk k).data oob 0).page destBlk i =
            chip.page destBlk i := by
          refine writeOob_other fun hik => ?_
          obtain rfl := hik.2
          exact h le_rfl (by omega) ⟨hmax, fun j hj hji => absurd hj (by omega), hread⟩
        rw [hgo]
        dsimp only
        split
        · rename_i hwrite
          rw [ih fun hki hi hreach => ?_, hsame]
          refine h (by omega) (by omega) ⟨hreach.1, fun j hj hji => ?_, hreach.2.2⟩
          rcases Nat.eq_or_lt_of_le hj with rfl | hj
          · exact ⟨hread, hwrite⟩
          · exact hreach.2.1 j hj hji
        · exact hsame
      · rw [copyLoop_unread hread]
    · rw [copyLoop_end (not_lt.mp hmax)]

/-- A page that the loop gets to is what its write leaves: the data of the source with its own
spare bytes, if the write is no error. -/
theorem copyLoop_reached {left k i : Nat} {chip : Chip Page} (hki : k ≤ i) (hi : i < k + left)
    (h : Reached g read write destBlk srcBlk maxOffset k i) :
    (copyLoop g read write destBlk srcBlk maxOffset left (k * g.pgSize) chip).2.page destBlk i =
      (write destBlk i).leaves
        { data := (chip.page srcBlk i).data, oob := (chip.page destBlk i).oob } := by
  induction left generalizing k chip with
  | zero => omega
  | succ left ih =>
    have hread : (read srcBlk k).Readable := by
      rcases Nat.eq_or_lt_of_le hki with rfl | hlt
      · exact h.2.2
      · exact (h.2.1 k le_rfl hlt).1
    obtain ⟨oob, hgo⟩ :=
      @copyLoop_go g read write destBlk srcBlk maxOffset left k chip (h.lt hki) hread
    rw [hgo]
    rcases Nat.eq_or_lt_of_le hki with rfl | hlt
    · -- the page is written now, and left alone from here on
      dsimp only
      split
      · rw [copyLoop_other fun hki' => by omega, writeOob_none]
      · rw [writeOob_none]
    · have hdata : ∀ b, (writeOob write chip destBlk k (chip.page srcBlk k).data oob 0).page b i =
          chip.page b i := fun b => writeOob_other fun hik => by omega
      rw [if_pos (h.2.1 k le_rfl hlt).2,
        ih hlt (by omega) ⟨h.1, fun j hj => h.2.1 j (by omega), h.2.2⟩, hdata, hdata]

/-- When a page that can be read is saved. -/
theorem bbtNandCopy_page_iff {chip : Chip Page} {i : Nat} (hi : i < g.pages)
    (hmax : ((i * g.pgSize : Nat) : Int) < maxOffset) (hread : (read srcBlk i).Readable) :
    (bbtNandCopy g read write chip destBlk srcBlk maxOffset).2.page destBlk i =
        chip.page srcBlk i ↔
      ((∀ j < i, Passed read write destBlk srcBlk j) → (write destBlk i).leaves
        { data := (chip.page srcBlk i).data, oob := (chip.page destBlk i).oob } =
          chip.page srcBlk i) ∧
      ((∃ j < i, ¬ Passed read write destBlk srcBlk j) →
        chip.page destBlk i = chip.page srcBlk i) := by
  have hstart : bbtNandCopy g read write chip destBlk srcBlk maxOffset =
      copyLoop g read write destBlk srcBlk maxOffset g.pages (0 * g.pgSize) chip := by
    rw [Nat.zero_mul]
    rfl
  rw [hstart]
  by_cases hall : ∀ j < i, Passed read write destBlk srcBlk j
  · have hreach : Reached g read write destBlk srcBlk maxOffset 0 i :=
      ⟨hmax, fun j _ hji => hall j hji, hread⟩
    have hnone : ¬ ∃ j < i, ¬ Passed read write destBlk srcBlk j := by
      rintro ⟨j, hj, hno⟩
      exact hno (hall j hj)
    rw [copyLoop_reached (Nat.zero_le _) (by omega) hreach]
    exact ⟨fun h => ⟨fun _ => h, fun h' => absurd h' hnone⟩, fun h => h.1 hall⟩
  · have hsome : ∃ j < i, ¬ Passed read write destBlk srcBlk j := by simpa using hall
    have hnot : ¬ Reached g read write destBlk srcBlk maxOffset 0 i := fun h =>
      hall fun j hj => h.2.1 j (Nat.zero_le _) hj
    rw [copyLoop_other fun _ _ => hnot]
    exact ⟨fun h => ⟨fun h' => absurd h' hall, fun _ => h⟩, fun h => h.2 hsome⟩

end Loop

/-! ## What is saved -/

/-- The pages of a block below `maxOffset` that can be read. -/
def Counted (g : Geometry) (read : Nat → Nat → Read) (srcBlk : Nat) (maxOffset : Int)
    (i : Nat) : Prop :=
  i < g.pages ∧ ((i * g.pgSize : Nat) : Int) < maxOffset ∧ (read srcBlk i).Readable

def Saved (g : Geometry) (read : Nat → Nat → Read) (write : Nat → Nat → Write) (chip : Chip Page)
    (destBlk srcBlk : Nat) (maxOffset : Int) : Prop :=
  ∀ i, Counted g read srcBlk maxOffset i →
    (bbtNandCopy g read write chip destBlk srcBlk maxOffset).2.page destBlk i = chip.page srcBlk i

/-- The copy saves everything exactly if no write is an error and the destination had the spare
bytes, and all of the pages behind one that is unreadable or whose write is an error. -/
theorem bbtNandCopy_iff (g : Geometry) (read : Nat → Nat → Read) (write : Nat → Nat → Write)
    (chip : Chip Page) (destBlk srcBlk : Nat) (maxOffset : Int) :
    Saved g read write chip destBlk srcBlk maxOffset ↔
      ∀ i, Counted g read srcBlk maxOffset i →
        ((∀ j < i, Passed read write destBlk srcBlk j) → (write destBlk i).leaves
          { data := (chip.page srcBlk i).data, oob := (chip.page destBlk i).oob } =
            chip.page srcBlk i) ∧
        ((∃ j < i, ¬ Passed read write destBlk srcBlk j) →
          chip.page destBlk i = chip.page srcBlk i) :=
  forall₂_congr fun _ hi => bbtNandCopy_page_iff hi.1 hi.2.1 hi.2.2

/-- A block of four pages whose first cannot be read, and one with spare bytes. -/
theorem bbtNandCopy_loses :
    ¬ Saved { pgShift := 1, blkShift := 3, oobsize := 1, le := by decide }
        (fun _ page => if page = 0 then .failed 74 else .ok) (fun _ _ => .ok)
        { page := fun block _ => if block = 0 then ⟨[1, 2], [0xff]⟩ else ⟨[0xff, 0xff], [0xff]⟩
          marked := fun _ => false } 1 0 8 ∧
      ¬ Saved { pgShift := 1, blkShift := 3, oobsize := 1, le := by decide } (fun _ _ => .ok) (fun _ _ => .ok)
        { page := fun block _ => if block = 0 then ⟨[1, 2], [3]⟩ else ⟨[0xff, 0xff], [0xff]⟩
          marked := fun _ => false } 1 0 8 := by
  refine ⟨fun h => ?_, fun h => ?_⟩
  · have := h 1 ⟨by decide, by decide, by simp [Read.Readable]⟩
    exact absurd this (by decide)
  · have := h 0 ⟨by decide, by decide, by simp [Read.Readable]⟩
    exact absurd this (by decide)

end LibWrt.MtkBmt.Copy
