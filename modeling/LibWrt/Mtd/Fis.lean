/-
LibWrt.Mtd.Fis — putting new partitions into the FIS directory.

The directory is a block of descriptors that ends before the first without a
name. The descriptors from the first to the last of the old partitions are
taken out, whatever stands between them, and the new ones are put in. With
fewer new ones the rest is to be cleared from a length below zero. The exact
condition under which the directory comes out right is `remap_iff`.
-/
import Mathlib.Data.List.DropRight
import Mathlib.Tactic

namespace LibWrt.Mtd.Fis

open List hiding Vector

/-! ## The directory -/

/-- `struct fis_image_desc` -/
structure Desc where
  name : Vector UInt8 16
  flashBase : UInt32
  memBase : UInt32
  size : UInt32
  entryPoint : UInt32
  dataLength : UInt32
  pad : Vector UInt8 212
  crcDesc : UInt32
  crcFile : UInt32
  deriving DecidableEq

/-- `struct fis_part`; the offset is not used. -/
structure Part where
  name : Vector UInt8 16
  loadaddr : UInt32
  size : UInt32
  length : UInt32
  crc : UInt32

/-- A name as `strncmp` with the size of the array compares it. -/
def cName (name : Vector UInt8 16) : List UInt8 := name.toList.takeWhile (· != 0)

def endsDir (name : Vector UInt8 16) : Bool := name[0] == 0 || name[0] == 0xff

def Desc.isEnd (desc : Desc) : Bool := endsDir desc.name

def isOld (old : List Part) (desc : Desc) : Bool :=
  old.any fun part => cName desc.name == cName part.name

/-- A block of bytes `0xff`, and one of zeros. -/
def filled (byte : UInt8) : Desc where
  name := Vector.replicate 16 byte
  flashBase := if byte = 0 then 0 else 0xffffffff
  memBase := if byte = 0 then 0 else 0xffffffff
  size := if byte = 0 then 0 else 0xffffffff
  entryPoint := if byte = 0 then 0 else 0xffffffff
  dataLength := if byte = 0 then 0 else 0xffffffff
  pad := Vector.replicate 212 byte
  crcDesc := if byte = 0 then 0 else 0xffffffff
  crcFile := if byte = 0 then 0 else 0xffffffff

/-! ## The code -/

/-- The loop of `fis_validate` over the directory. -/
def foundFrom (old : List Part) : List Desc → Nat → Nat
  | [], found => found
  | desc :: dir, found =>
    if desc.isEnd then found
    else foundFrom old dir (if isOld old desc then found + 1 else found)

/-- `fis_validate` -/
def fisValidate (old new : List Part) (dir : List Desc) : Int :=
  if new.dropLast.any (·.size == 0) then -1
  else if foundFrom old dir 0 = old.length then 1
  else -1

/-- What the first loop of `fis_remap` finds: the highest base, and the first and the last of the
old partitions, each with its place. -/
structure Scan where
  offset : UInt32 := 0
  first : Option (Desc × Nat) := none
  last : Option (Desc × Nat) := none

def scanFrom (old : List Part) : List Desc → Nat → Scan → Scan
  | [], _, scan => scan
  | desc :: dir, i, scan =>
    if desc.isEnd then scan
    else
      let offset := if scan.offset < desc.flashBase then desc.flashBase else scan.offset
      if isOld old desc then
        scanFrom old dir (i + 1)
          { offset := offset, first := scan.first.or (some (desc, i)), last := some (desc, i) }
      else scanFrom old dir (i + 1) { scan with offset := offset }

/-- The second loop: the lowest base above `base`. -/
def spaceFrom (base : UInt32) : List Desc → UInt32 → UInt32
  | [], offset => offset
  | desc :: dir, offset =>
    if desc.isEnd then offset
    else
      spaceFrom base dir
        (if desc.flashBase > base ∧ desc.flashBase < offset then desc.flashBase else offset)

/-- `memmove` of so many descriptors; a negative number is a huge one, which leaves the block. -/
def memmove (dir : List Desc) (dest src : Nat) (n : Int) : Option (List Desc) :=
  if n < 0 ∨ dest + n > dir.length ∨ src + n > dir.length then none
  else some (dir.take dest ++ (dir.drop src).take n.toNat ++ dir.drop (dest + n.toNat))

/-- `memset` of so many descriptors to `0xff` -/
def memset (dir : List Desc) (dest n : Int) : Option (List Desc) :=
  if n < 0 ∨ dest < 0 ∨ dest + n > dir.length then none
  else
    some (dir.take dest.toNat ++ replicate n.toNat (filled 0xff) ++
      dir.drop (dest + n).toNat)

def moveRest (dir : List Desc) (desc last : Nat) : Option (List Desc) :=
  let stop : Int := dir.length
  if desc ≠ last then
    let tmp : Int := if desc > last then desc else last
    (memmove dir desc last (stop - tmp)).bind fun dir =>
      if desc < last then
        let tmp : Int := stop - (last - desc)
        memset dir tmp (tmp - stop)
      else some dir
  else some dir

def newDesc (part : Part) (offset size : UInt32) : Desc :=
  let length := if part.size > 0 then part.size else size
  { filled 0 with
    name := part.name
    crcDesc := 0
    crcFile := part.crc
    flashBase := offset
    memBase := part.loadaddr
    entryPoint := part.loadaddr
    size := length
    dataLength := if part.length > 0 then part.length else length }

def newDescs : List Part → UInt32 → UInt32 → List Desc
  | [], _, _ => []
  | part :: new, offset, size =>
    let desc := newDesc part offset size
    desc :: newDescs new (offset + desc.size) (size - desc.size)

def store (dir : List Desc) (at' : Nat) (descs : List Desc) : Option (List Desc) :=
  if at' + descs.length > dir.length then none
  else some (dir.take at' ++ descs ++ dir.drop (at' + descs.length))

/-- `fis_remap` on the block; there is no result where it leaves the block or reads at a null
pointer. -/
def fisRemap (old new : List Part) (dir : List Desc) : Option (List Desc) :=
  let scan := scanFrom old dir 0 {}
  match scan.first, scan.last with
  | some (first, i), some (last, j) =>
    let swap : Bool := first.flashBase > last.flashBase
    let firstFb := if swap then last else first
    let lastFb := if swap then first else last
    let offset := spaceFrom lastFb.flashBase dir scan.offset
    let size := offset - firstFb.flashBase
    (moveRest dir (i + new.length) (j + 1)).bind fun dir =>
      store dir i (newDescs new firstFb.flashBase size)
  | _, _ => none

/-! ## What it should do -/

def entries (dir : List Desc) : List Desc := dir.takeWhile (!·.isEnd)

def olds (old : List Part) (dir : List Desc) : List Desc := (entries dir).filter (isOld old)

def others (old : List Part) (dir : List Desc) : List Desc :=
  (entries dir).filter (!isOld old ·)

def Desc.Covers (desc : Desc) (addr : Nat) : Prop :=
  desc.flashBase.toNat ≤ addr ∧ addr < desc.flashBase.toNat + desc.size.toNat

/-- Partitions that follow one another from `start`. -/
def Consecutive : Nat → List Desc → Prop
  | _, [] => True
  | start, desc :: descs =>
    desc.flashBase.toNat = start ∧ Consecutive (start + desc.size.toNat) descs

/-- A descriptor for a new partition; without a size the code chooses one. -/
structure IsNew (part : Part) (desc : Desc) : Prop where
  name : desc.name = part.name
  loadaddr : desc.memBase = part.loadaddr ∧ desc.entryPoint = part.loadaddr
  crc : desc.crcFile = part.crc
  size : part.size ≠ 0 → desc.size = part.size

/-- `base` is the lowest base of the old partitions. -/
def Lowest (old : List Part) (dir : List Desc) (base : UInt32) : Prop :=
  (∃ desc ∈ olds old dir, desc.flashBase = base) ∧ ∀ desc ∈ olds old dir, base ≤ desc.flashBase

/-- The new partitions follow one another from the lowest old base, and overlap no other one. -/
def Placed (old : List Part) (dir news : List Desc) : Prop :=
  ∃ base, Lowest old dir base ∧ Consecutive base.toNat news ∧
    ∀ desc ∈ news, ∀ other ∈ others old dir, ∀ addr, ¬ (desc.Covers addr ∧ other.Covers addr)

/-- The directory after the remap: where the first of the old partitions stood are the new ones,
and the others are as they were. -/
def Remapped (old new : List Part) (dir dir' : List Desc) : Prop :=
  ∃ news, Forall₂ IsNew new news ∧
    entries dir' = (entries dir).takeWhile (!isOld old ·) ++ news ++
      ((entries dir).dropWhile (!isOld old ·)).filter (!isOld old ·) ∧
    Placed old dir news

/-- The remap stays in the block and the directory comes out right. -/
def RemapOk (old new : List Part) (dir : List Desc) : Prop :=
  ∃ dir', fisRemap old new dir = some dir' ∧ dir'.length = dir.length ∧ Remapped old new dir dir'

/-! ## The condition -/

/-- The lowest base above `top`, or `top` if there is none. -/
def nextBase (dir : List Desc) (top : UInt32) : UInt32 :=
  (((entries dir).map Desc.flashBase).filter (top < ·)).min?.getD top

/-- The sizes together, where the last one without a size takes what is left of the space. -/
def total (space : UInt32) (new : List Part) : Nat :=
  (new.map fun part => part.size.toNat).sum +
    if new.getLast?.any (·.size == 0) then
      (new.foldl (fun left part => left - part.size) space).toNat
    else 0

/-- The old partitions stand next to one another. -/
def Adjacent (old : List Part) (dir : List Desc) : Prop :=
  ∃ pre post, entries dir = pre ++ olds old dir ++ post

/-- The new partitions are not fewer than the old ones, and the block has room for them. -/
def Room (old new : List Part) (dir : List Desc) : Prop :=
  (olds old dir).length ≤ new.length ∧
    (entries dir).length + new.length ≤ dir.length + (olds old dir).length

/-- The first or the last of the old partitions has the lowest base, and from there on is the flash
for the new ones. -/
def Fits (old new : List Part) (dir : List Desc) : Prop :=
  ∃ first last, (olds old dir).head? = some first ∧ (olds old dir).getLast? = some last ∧
    let low := min first.flashBase last.flashBase
    let top := max first.flashBase last.flashBase
    (∀ desc ∈ olds old dir, low ≤ desc.flashBase) ∧
    low.toNat + (new.dropLast.map fun part => part.size.toNat).sum < 2 ^ 32 ∧
    ∀ other ∈ others old dir, ∀ addr, other.Covers addr →
      ¬ (low.toNat ≤ addr ∧ addr < low.toNat + total (nextBase dir top - low) new)

/-! ## The entries -/

theorem entries_cons (desc : Desc) (dir : List Desc) :
    entries (desc :: dir) = if desc.isEnd then [] else desc :: entries dir := by
  cases h : desc.isEnd with
  | true => simp [entries, h]
  | false => simp [entries, h]

variable {descs dir : List Desc} {new : List Part}

theorem entries_append (h : ∀ desc ∈ descs, desc.isEnd = false) (dir : List Desc) :
    entries (descs ++ dir) = descs ++ entries dir := by
  induction descs with
  | nil => rfl
  | cons desc descs ih =>
    rw [cons_append, entries_cons, h desc mem_cons_self]
    simp [ih fun d hd => h d (mem_cons_of_mem _ hd)]

theorem entries_take (k : Nat) (dir : List Desc) : entries (dir.take k) = (entries dir).take k := by
  induction dir generalizing k with
  | nil => simp [entries]
  | cons desc dir ih =>
    cases k with
    | zero => simp [entries]
    | succ k =>
      rw [take_succ_cons, entries_cons, entries_cons, ih]
      split
      · rfl
      · rfl

theorem entries_drop {n : Nat} (h : n ≤ (entries dir).length) :
    entries (dir.drop n) = (entries dir).drop n := by
  induction n generalizing dir with
  | zero => rfl
  | succ n ih =>
    cases dir with
    | nil => rfl
    | cons desc dir =>
      rw [entries_cons] at h ⊢
      split
      · rename_i hend
        rw [if_pos hend] at h
        simp at h
      · rename_i hend
        rw [if_neg hend, length_cons] at h
        exact ih (by omega)

theorem isEnd_of_mem {desc : Desc} (h : desc ∈ entries dir) :
    desc.isEnd = false := by
  have hnot := mem_takeWhile_imp h
  simpa using hnot

theorem entries_le (dir : List Desc) : (entries dir).length ≤ dir.length :=
  (List.takeWhile_prefix _).length_le

/-! ## The span of the old partitions -/

/-- The directory up to the first, from the first to the last, and from the last of the old
partitions. -/
structure Span (old : List Part) (dir pre mid post : List Desc) (first last : Desc) : Prop where
  entries : entries dir = pre ++ mid ++ post
  pre : ∀ desc ∈ pre, isOld old desc = false
  post : ∀ desc ∈ post, isOld old desc = false
  head : mid.head? = some first
  getLast : mid.getLast? = some last
  first : isOld old first = true
  last : isOld old last = true

theorem exists_span {old : List Part} (h : olds old dir ≠ []) :
    ∃ pre mid post first last, Span old dir pre mid post first last := by
  obtain ⟨pre, rest, hpre, hrest, hnone, hhead⟩ : ∃ pre rest, entries dir = pre ++ rest ∧
      rest ≠ [] ∧ (∀ desc ∈ pre, isOld old desc = false) ∧
        ∀ first, rest.head? = some first → isOld old first = true := by
    refine ⟨(entries dir).takeWhile (!isOld old ·), (entries dir).dropWhile (!isOld old ·),
      takeWhile_append_dropWhile.symm, fun hnil => ?_, fun desc hdesc => ?_,
      fun first hfirst => ?_⟩
    · rw [dropWhile_eq_nil_iff] at hnil
      refine h (filter_eq_nil_iff.mpr fun desc hdesc hold => ?_)
      simpa [hold] using hnil desc hdesc
    · simpa using mem_takeWhile_imp hdesc
    · have hnot := head?_dropWhile_not (fun d => !isOld old d) (entries dir)
      rw [hfirst] at hnot
      simpa using hnot
  obtain ⟨mid, post, hmid, hnone', hlast⟩ : ∃ mid post, rest = mid ++ post ∧
      (∀ desc ∈ post, isOld old desc = false) ∧
        ∀ last, mid.getLast? = some last → isOld old last = true := by
    refine ⟨rest.rdropWhile (!isOld old ·), rest.rtakeWhile (!isOld old ·), ?_, ?_, ?_⟩
    · rw [rdropWhile, rtakeWhile, ← reverse_append,
        takeWhile_append_dropWhile, reverse_reverse]
    · intro desc hdesc
      simpa using mem_rtakeWhile_imp hdesc
    · intro last hlast
      have hnot := head?_dropWhile_not (fun d => !isOld old d) rest.reverse
      rw [rdropWhile, getLast?_reverse] at hlast
      rw [hlast] at hnot
      simpa using hnot
  have hne : mid ≠ [] := by
    rintro rfl
    obtain ⟨first, hfirst⟩ := Option.isSome_iff_exists.mp (isSome_head?.mpr hrest)
    rw [nil_append] at hmid
    rw [hmid] at hfirst
    have hold := hhead first (by rw [hmid]; exact hfirst)
    rw [hnone' first (mem_of_head? hfirst)] at hold
    cases hold
  obtain ⟨first, hfirst⟩ := Option.isSome_iff_exists.mp (isSome_head?.mpr hne)
  obtain ⟨last, hlast'⟩ := Option.isSome_iff_exists.mp (getLast?_isSome.mpr hne)
  refine ⟨pre, mid, post, first, last, ?_, hnone, hnone', hfirst, hlast', ?_, hlast last hlast'⟩
  · rw [hpre, hmid, append_assoc]
  · refine hhead first ?_
    rw [hmid, head?_append, hfirst]
    rfl

section Span

variable {old new : List Part} {dir pre mid post : List Desc} {first last : Desc}

theorem filter_none {l : List Desc} (h : ∀ desc ∈ l, isOld old desc = false) :
    l.filter (isOld old) = [] :=
  filter_eq_nil_iff.mpr fun desc hdesc => by simp [h desc hdesc]

theorem filter_others {l : List Desc} (h : ∀ desc ∈ l, isOld old desc = false) :
    l.filter (!isOld old ·) = l :=
  filter_eq_self.mpr fun desc hdesc => by simp [h desc hdesc]

section

variable (h : Span old dir pre mid post first last)

include h

theorem Span.olds_eq :
    olds old dir = mid.filter (isOld old) := by
  rw [olds, h.entries, filter_append, filter_append, filter_none h.pre,
    filter_none h.post, nil_append, append_nil]

theorem Span.mid_cons :
    ∃ rest, mid = first :: rest := head?_eq_some_iff.mp h.head

theorem Span.mid_snoc :
    ∃ front, mid = front ++ [last] := getLast?_eq_some_iff.mp h.getLast

theorem Span.head_olds :
    (olds old dir).head? = some first := by
  obtain ⟨rest, hmid⟩ := h.mid_cons
  rw [h.olds_eq, hmid, filter_cons_of_pos h.first]
  rfl

theorem Span.getLast_olds :
    (olds old dir).getLast? = some last := by
  obtain ⟨front, hmid⟩ := h.mid_snoc
  rw [h.olds_eq, hmid, filter_append, filter_cons_of_pos h.last]
  simp

theorem Span.takeWhile :
    (Fis.entries dir).takeWhile (!isOld old ·) = pre ∧
      (Fis.entries dir).dropWhile (!isOld old ·) = mid ++ post := by
  obtain ⟨rest, hmid⟩ := h.mid_cons
  have hpre : ∀ desc ∈ pre, (!isOld old desc) = true := fun d hd => by simp [h.pre d hd]
  rw [h.entries, hmid, append_assoc, takeWhile_append_of_pos hpre,
    dropWhile_append_of_pos hpre]
  simp [h.first]

/-- The old partitions are next to one another if they fill the span. -/
theorem Span.adjacent_iff :
    Adjacent old dir ↔ mid.filter (!isOld old ·) = [] := by
  constructor
  · rintro ⟨pre', post', heq⟩
    have hfilter : olds old dir = pre'.filter (isOld old) ++ olds old dir ++
        post'.filter (isOld old) := by
      conv_lhs => rw [olds, heq]
      rw [filter_append, filter_append, olds, filter_filter]
      simp
    have hlen := congrArg length hfilter
    simp only [length_append] at hlen
    have hpre' : ∀ desc ∈ pre', isOld old desc = false := by
      intro desc hdesc
      have hnil := eq_nil_of_length_eq_zero (show (pre'.filter (isOld old)).length = 0 by omega)
      simpa using filter_eq_nil_iff.mp hnil desc hdesc
    have hpost' : ∀ desc ∈ post', isOld old desc = false := by
      intro desc hdesc
      have hnil := eq_nil_of_length_eq_zero
        (show (post'.filter (isOld old)).length = 0 by omega)
      simpa using filter_eq_nil_iff.mp hnil desc hdesc
    have hthere : Span old dir pre' (olds old dir) post' first last :=
      ⟨heq, hpre', hpost', h.head_olds, h.getLast_olds, h.first, h.last⟩
    have hrest : olds old dir ++ post' = mid ++ post := by
      rw [← hthere.takeWhile.2, h.takeWhile.2]
    rw [filter_eq_nil_iff]
    intro desc hdesc
    suffices hmem : desc ∈ olds old dir by simp [(mem_filter.mp hmem).2]
    rcases append_eq_append_iff.mp hrest with ⟨x, hmid, hx⟩ | ⟨x, holds, -⟩
    · -- what is in the span behind the old ones would be behind the last of them
      obtain ⟨front, hfront⟩ := h.mid_snoc
      cases x using reverseRecOn with
      | nil =>
        rw [hmid, append_nil] at hdesc
        exact hdesc
      | append_singleton x y =>
        have hy : y = last := by
          rw [← append_assoc, hfront] at hmid
          exact (append_inj' hmid rfl).2 |> singleton_inj.mp |>.symm
        have hnot := hpost' last (by rw [hx, hy]; simp)
        rw [h.last] at hnot
        cases hnot
    · rw [holds]
      exact mem_append_left _ hdesc
  · intro hnil
    refine ⟨pre, post, ?_⟩
    rw [h.olds_eq, h.entries, filter_eq_self.mpr]
    intro desc hdesc
    simpa using filter_eq_nil_iff.mp hnil desc hdesc

end

end Span

/-! ## The loops over the directory -/

def marks (old : List Part) (descs : List Desc) (i : Nat) : List (Desc × Nat) :=
  (descs.zipIdx i).filter fun mark => isOld old mark.1

theorem marks_cons (old : List Part) (desc : Desc) (descs : List Desc) (i : Nat) :
    marks old (desc :: descs) i =
      if isOld old desc then (desc, i) :: marks old descs (i + 1)
      else marks old descs (i + 1) := by
  rw [marks, zipIdx_cons, filter_cons]
  rfl

theorem marks_none {old : List Part} (h : ∀ desc ∈ descs, isOld old desc = false) (i : Nat) :
    marks old descs i = [] := by
  refine filter_eq_nil_iff.mpr fun mark hmark => ?_
  simp [h mark.1 (fst_mem_of_mem_zipIdx hmark)]

theorem scanFrom_spec (old : List Part) (dir : List Desc) (i : Nat) (scan : Scan) :
    (scanFrom old dir i scan).first = scan.first.or (marks old (entries dir) i).head? ∧
      (scanFrom old dir i scan).last = (marks old (entries dir) i).getLast?.or scan.last := by
  induction dir generalizing i scan with
  | nil => simp [scanFrom, marks, entries]
  | cons desc dir ih =>
    unfold scanFrom
    rw [entries_cons]
    split
    · simp [marks]
    · dsimp only
      split
      · rename_i hold
        obtain ⟨hfirst, hlast⟩ := ih (i + 1)
          { offset := if scan.offset < desc.flashBase then desc.flashBase else scan.offset
            first := scan.first.or (some (desc, i)), last := some (desc, i) }
        rw [hfirst, hlast, marks_cons, if_pos hold]
        refine ⟨?_, ?_⟩
        · cases scan.first <;> simp
        · cases marks old (entries dir) (i + 1) with
          | nil => simp
          | cons mark marks => simp [getLast?_cons]
      · rename_i hold
        obtain ⟨hfirst, hlast⟩ := ih (i + 1) { scan with
          offset := if scan.offset < desc.flashBase then desc.flashBase else scan.offset }
        rw [hfirst, hlast, marks_cons, if_neg hold]
        exact ⟨rfl, rfl⟩

/-- The offset of the scan is the highest base. -/
theorem scanFrom_offset (old : List Part) (dir : List Desc) (i : Nat) (scan : Scan) :
    scan.offset ≤ (scanFrom old dir i scan).offset ∧
      (∀ desc ∈ entries dir, desc.flashBase ≤ (scanFrom old dir i scan).offset) ∧
      ((scanFrom old dir i scan).offset = scan.offset ∨
        ∃ desc ∈ entries dir, desc.flashBase = (scanFrom old dir i scan).offset) := by
  induction dir generalizing i scan with
  | nil => simp [scanFrom, entries]
  | cons desc dir ih =>
    unfold scanFrom
    rw [entries_cons]
    split
    · simp
    · dsimp only
      -- the offset after this descriptor
      generalize hoffset : (if scan.offset < desc.flashBase then desc.flashBase else scan.offset) =
        offset
      have hle : scan.offset ≤ offset ∧ desc.flashBase ≤ offset ∧
          (offset = scan.offset ∨ desc.flashBase = offset) := by
        rw [← hoffset]
        split
        · rename_i hlt
          exact ⟨UInt32.le_of_lt hlt, UInt32.le_refl _, .inr rfl⟩
        · rename_i hlt
          exact ⟨UInt32.le_refl _, UInt32.not_lt.mp hlt, .inl rfl⟩
      have hstep : ∀ scan' : Scan, scan'.offset = offset →
          scan.offset ≤ (scanFrom old dir (i + 1) scan').offset ∧
          (∀ d ∈ desc :: entries dir, d.flashBase ≤ (scanFrom old dir (i + 1) scan').offset) ∧
          ((scanFrom old dir (i + 1) scan').offset = scan.offset ∨
            ∃ d ∈ desc :: entries dir, d.flashBase =
              (scanFrom old dir (i + 1) scan').offset) := by
        intro scan' heq
        obtain ⟨hfrom, hall, hsome⟩ := ih (i + 1) scan'
        rw [heq] at hfrom hsome
        refine ⟨UInt32.le_trans hle.1 hfrom, fun d hd => ?_, ?_⟩
        · rcases mem_cons.mp hd with rfl | hd
          · exact UInt32.le_trans hle.2.1 hfrom
          · exact hall d hd
        · rcases hsome with hsame | ⟨d, hd, hbase⟩
          · rw [hsame]
            rcases hle.2.2 with hold | hnew
            · exact .inl hold
            · exact .inr ⟨desc, mem_cons_self, hnew⟩
          · exact .inr ⟨d, mem_cons_of_mem _ hd, hbase⟩
      split
      · exact hstep _ rfl
      · exact hstep _ rfl

theorem spaceFrom_spec (base : UInt32) (dir : List Desc) (offset : UInt32) :
    (∀ desc ∈ entries dir, base < desc.flashBase → spaceFrom base dir offset ≤ desc.flashBase) ∧
      spaceFrom base dir offset ≤ offset ∧
      (spaceFrom base dir offset = offset ∨
        ∃ desc ∈ entries dir, base < desc.flashBase ∧
          desc.flashBase = spaceFrom base dir offset) := by
  induction dir generalizing offset with
  | nil => simp [spaceFrom, entries]
  | cons desc dir ih =>
    unfold spaceFrom
    rw [entries_cons]
    split
    · simp
    · obtain ⟨hall, hle, hsome⟩ := ih
        (if desc.flashBase > base ∧ desc.flashBase < offset then desc.flashBase else offset)
      refine ⟨fun d hd hlt => ?_, ?_, ?_⟩
      · rcases mem_cons.mp hd with rfl | hd
        · refine UInt32.le_trans hle ?_
          split
          · exact UInt32.le_refl _
          · rename_i hnot
            exact UInt32.not_lt.mp fun h => hnot ⟨hlt, h⟩
        · exact hall d hd hlt
      · refine UInt32.le_trans hle ?_
        split
        · rename_i hlt
          exact UInt32.le_of_lt hlt.2
        · exact UInt32.le_refl _
      · rcases hsome with hsame | ⟨d, hd, hlt, hbase⟩
        · rw [hsame]
          split
          · rename_i hlt
            exact .inr ⟨desc, mem_cons_self, hlt.1, rfl⟩
          · exact .inl rfl
        · exact .inr ⟨d, mem_cons_of_mem _ hd, hlt, hbase⟩

/-- From the highest base the second loop comes to the next one above `top`. -/
theorem spaceFrom_eq {top highest : UInt32} (hall : ∀ desc ∈ entries dir, desc.flashBase ≤ highest)
    (hhighest : ∃ desc ∈ entries dir, desc.flashBase = highest)
    (htop : ∃ desc ∈ entries dir, desc.flashBase = top) :
    spaceFrom top dir highest = nextBase dir top := by
  obtain ⟨hlow, -, hsome⟩ := spaceFrom_spec top dir highest
  obtain ⟨d, hd, hbase⟩ := hhighest
  obtain ⟨d', hd', hbase'⟩ := htop
  have hle : top ≤ highest := hbase' ▸ hall d' hd'
  have hmem : ∀ base, base ∈ ((entries dir).map Desc.flashBase).filter (top < ·) ↔
      (∃ desc ∈ entries dir, desc.flashBase = base) ∧ top < base := by
    intro base
    simp [mem_filter, mem_map]
  rw [nextBase]
  by_cases hlt : top < highest
  · have hmin : (((entries dir).map Desc.flashBase).filter (top < ·)).min? =
        some (spaceFrom top dir highest) := by
      rw [min?_eq_some_iff]
      refine ⟨(hmem _).mpr ?_, fun base hmembase => ?_⟩
      · rcases hsome with hsame | ⟨e, he, hlt', heq⟩
        · rw [hsame]
          exact ⟨⟨d, hd, hbase⟩, hlt⟩
        · exact ⟨⟨e, he, heq⟩, heq ▸ hlt'⟩
      · obtain ⟨⟨e, he, rfl⟩, hlt'⟩ := (hmem base).mp hmembase
        exact hlow e he hlt'
    rw [hmin, Option.getD_some]
  · have hnil : ((entries dir).map Desc.flashBase).filter (top < ·) = [] := by
      refine eq_nil_iff_forall_not_mem.mpr fun base hmembase => ?_
      obtain ⟨⟨e, he, rfl⟩, hlt'⟩ := (hmem base).mp hmembase
      exact hlt (UInt32.lt_of_lt_of_le hlt' (hall e he))
    have htop' : highest = top := UInt32.le_antisymm (UInt32.not_lt.mp hlt) hle
    rw [hnil]
    show _ = top
    rcases hsome with hsame | ⟨e, he, hlt', -⟩
    · rw [hsame, htop']
    · exact absurd (UInt32.lt_of_lt_of_le hlt' (hall e he)) hlt

/-! ## The code on a span -/

section Span

variable {old new : List Part} {dir pre mid post : List Desc} {first last : Desc}

theorem Span.scan (h : Span old dir pre mid post first last) :
    (scanFrom old dir 0 {}).first = some (first, pre.length) ∧
      (scanFrom old dir 0 {}).last = some (last, pre.length + mid.length - 1) := by
  obtain ⟨hfirst, hlast⟩ := scanFrom_spec old dir 0 {}
  have hmarks : marks old (Fis.entries dir) 0 = marks old mid pre.length := by
    rw [h.entries, marks, zipIdx_append, zipIdx_append, filter_append,
      filter_append]
    have hpre := marks_none h.pre 0
    have hpost := marks_none h.post (0 + (pre ++ mid).length)
    rw [marks] at hpre hpost
    rw [hpre, hpost, nil_append, append_nil, Nat.zero_add]
    rfl
  rw [hfirst, hlast, hmarks]
  constructor
  · obtain ⟨rest, hmid⟩ := h.mid_cons
    rw [hmid, marks_cons, if_pos h.first]
    rfl
  · obtain ⟨front, hmid⟩ := h.mid_snoc
    rw [hmid, marks, zipIdx_append, filter_append]
    have hold := h.last
    simp [hold]

theorem Span.space (h : Span old dir pre mid post first last) {top : UInt32}
    (htop : top = first.flashBase ∨ top = last.flashBase) :
    spaceFrom top dir (scanFrom old dir 0 {}).offset = nextBase dir top := by
  obtain ⟨-, hall, hsome⟩ := scanFrom_offset old dir 0 {}
  have hfirst : first ∈ Fis.entries dir := by
    rw [h.entries]
    exact mem_append_left _ (mem_append_right _ (mem_of_head? h.head))
  have hlast : last ∈ Fis.entries dir := by
    rw [h.entries]
    exact mem_append_left _ (mem_append_right _ (mem_of_getLast? h.getLast))
  refine spaceFrom_eq hall ?_ ?_
  · rcases hsome with hzero | hhighest
    · -- the highest base is 0
      refine ⟨first, hfirst, UInt32.le_antisymm (hall first hfirst) ?_⟩
      rw [hzero]
      exact UInt32.zero_le
    · exact hhighest
  · rcases htop with rfl | rfl
    · exact ⟨first, hfirst, rfl⟩
    · exact ⟨last, hlast, rfl⟩

/-- The rest is moved only behind the old place of the last. -/
theorem moveRest_eq_some {desc last : Nat} {dir' : List Desc} (hlast : last ≤ dir.length) :
    moveRest dir desc last = some dir' ↔ last ≤ desc ∧ desc ≤ dir.length ∧
      dir' = dir.take desc ++ (dir.drop last).take (dir.length - desc) := by
  have hend : dir.drop (desc + (dir.length - desc)) = [] :=
    drop_eq_nil_of_le (by omega)
  unfold moveRest
  dsimp only
  split
  · rename_i hne
    by_cases hgt : desc > last
    · simp only [if_pos hgt, if_neg (show ¬ desc < last by omega)]
      rw [memmove]
      split
      · rename_i hout
        simp
        omega
      · rename_i hin
        have hnat : ((dir.length : Int) - (desc : Int)).toNat = dir.length - desc := by omega
        rw [hnat, hend, append_nil, Option.bind_some, Option.some.injEq]
        constructor
        · rintro rfl
          exact ⟨by omega, by omega, rfl⟩
        · rintro ⟨-, -, rfl⟩
          rfl
    · simp only [if_neg hgt, if_pos (show desc < last by omega)]
      rw [memmove]
      split
      · simp
        omega
      · rw [Option.bind_some, memset, if_pos (.inl (by omega))]
        simp
        omega
  · rename_i heq
    have hsame : desc = last := not_not.mp heq
    have hall : dir.take desc ++ (dir.drop last).take (dir.length - desc) = dir := by
      have hrest : (dir.drop last).take (dir.length - last) = dir.drop last :=
        take_of_length_le (by simp)
      rw [hsame, hrest, take_append_drop]
    rw [hall, Option.some.injEq]
    constructor
    · rintro rfl
      exact ⟨by omega, by omega, rfl⟩
    · rintro ⟨-, -, rfl⟩
      rfl

theorem store_moved {desc i : Nat} {descs : List Desc} (rest : List Desc)
    (h : i + descs.length = desc) (hle : desc ≤ dir.length) :
    store (dir.take desc ++ rest) i descs = some (dir.take i ++ descs ++ rest) := by
  have hlen : (dir.take desc).length = desc := by
    rw [length_take]
    omega
  have hdrop : (dir.take desc ++ rest).drop desc = rest := drop_left' hlen
  have htake : (dir.take desc ++ rest).take i = dir.take i := by
    rw [take_append_of_le_length (by omega), take_take, min_eq_left (by omega)]
  unfold store
  rw [if_neg (by rw [length_append]; omega), h, hdrop, htake]

theorem length_newDescs (new : List Part) (offset size : UInt32) :
    (newDescs new offset size).length = new.length := by
  induction new generalizing offset size with
  | nil => rfl
  | cons part new ih => simp [newDescs, ih]

/-- What the lowest and the highest of the two bases give. -/
def Span.news (_ : Span old dir pre mid post first last) (new : List Part) : List Desc :=
  newDescs new (min first.flashBase last.flashBase)
    (nextBase dir (max first.flashBase last.flashBase) - min first.flashBase last.flashBase)

/-- The remap stays in the block if the new ones fill the span and end in the block. -/
theorem Span.remap (h : Span old dir pre mid post first last) (dir' : List Desc) :
    fisRemap old new dir = some dir' ↔
      mid.length ≤ new.length ∧ pre.length + new.length ≤ dir.length ∧
      dir' = pre ++ h.news new ++
        (dir.drop (pre.length + mid.length)).take (dir.length - (pre.length + new.length)) := by
  have hpos : 0 < mid.length := by
    obtain ⟨rest, hmid⟩ := h.mid_cons
    rw [hmid]
    exact Nat.succ_pos _
  have hle : pre.length + mid.length ≤ dir.length := by
    have hentries := entries_le dir
    rw [h.entries, length_append, length_append] at hentries
    omega
  have hpre : dir.take pre.length = pre := by
    have hdir : Fis.entries dir ++ dir.dropWhile (!·.isEnd) = dir :=
      takeWhile_append_dropWhile
    rw [h.entries, append_assoc, append_assoc] at hdir
    rw [← hdir, take_left]
  have hspan : (if (decide (first.flashBase > last.flashBase)) then last else first).flashBase =
        min first.flashBase last.flashBase ∧
      (if (decide (first.flashBase > last.flashBase)) then first else last).flashBase =
        max first.flashBase last.flashBase := by
    rw [UInt32.min_def, UInt32.max_def]
    by_cases hgt : last.flashBase < first.flashBase
    · simp [hgt, UInt32.not_le.mpr hgt]
    · simp [hgt, UInt32.not_lt.mp hgt]
  have htop : max first.flashBase last.flashBase = first.flashBase ∨
      max first.flashBase last.flashBase = last.flashBase := by
    rw [UInt32.max_def]
    split
    · exact .inr rfl
    · exact .inl rfl
  unfold fisRemap
  dsimp only
  rw [h.scan.1, h.scan.2]
  dsimp only
  rw [hspan.1, hspan.2, h.space htop, show pre.length + mid.length - 1 + 1 =
    pre.length + mid.length by omega, Option.bind_eq_some_iff]
  have hnews : (h.news new).length = new.length := length_newDescs _ _ _
  constructor
  · rintro ⟨moved, hmoved, hstore⟩
    obtain ⟨hspan', hroom, rfl⟩ := (moveRest_eq_some hle).mp hmoved
    change store _ _ (h.news new) = some dir' at hstore
    rw [store_moved _ (by rw [hnews]) hroom, hpre] at hstore
    exact ⟨by omega, hroom, (Option.some.inj hstore).symm⟩
  · rintro ⟨hspan', hroom, rfl⟩
    refine ⟨_, (moveRest_eq_some hle).mpr ⟨by omega, hroom, rfl⟩, ?_⟩
    change store _ _ (h.news new) = some _
    rw [store_moved _ (by rw [hnews]) hroom, hpre]

end Span

/-! ## The new descriptors -/

theorem newDescs_isNew (new : List Part) (offset size : UInt32) :
    Forall₂ IsNew new (newDescs new offset size) := by
  induction new generalizing offset size with
  | nil => exact .nil
  | cons part new ih =>
    refine .cons ⟨rfl, ⟨rfl, rfl⟩, rfl, fun hsize => ?_⟩ (ih _ _)
    have hpos : part.size > 0 := UInt32.pos_iff_ne_zero.mpr hsize
    simp [newDesc, hpos]

theorem IsNew.isEnd {part : Part} {desc : Desc} (h : IsNew part desc) :
    desc.isEnd = endsDir part.name := by
  rw [Desc.isEnd, h.name]

/-- The new names are no ends if the descriptors are none. -/
theorem isEnd_iff_names {news : List Desc} (h : Forall₂ IsNew new news) :
    (∀ desc ∈ news, desc.isEnd = false) ↔ ∀ part ∈ new, endsDir part.name = false := by
  induction h with
  | nil => simp
  | cons hnew _ ih => rw [forall_mem_cons, forall_mem_cons, ih, hnew.isEnd]

/-- The sizes as they come out, in a list of which the last only may be without. -/
theorem sum_newDescs (offset space : UInt32) (h : ∀ part ∈ new.dropLast, part.size ≠ 0) :
    ((newDescs new offset space).map fun desc => desc.size.toNat).sum = total space new := by
  induction new generalizing offset space with
  | nil => rfl
  | cons part new ih =>
    cases new with
    | nil =>
      by_cases hzero : part.size = 0
      · simp [newDescs, newDesc, total, hzero]
      · have hpos : part.size > 0 := UInt32.pos_iff_ne_zero.mpr hzero
        simp [newDescs, newDesc, total, hzero, hpos]
    | cons part' new =>
      rw [dropLast_cons_cons] at h
      have hpos : part.size > 0 :=
        UInt32.pos_iff_ne_zero.mpr (h part mem_cons_self)
      have hsize : (newDesc part offset space).size = part.size := by simp [newDesc, hpos]
      rw [newDescs, map_cons, sum_cons, hsize,
        ih _ _ fun p hp => h p (mem_cons_of_mem _ hp), total, total,
        getLast?_cons_cons]
      simp only [map_cons, sum_cons, foldl_cons]
      omega

/-- They follow one another from the offset, unless a base before the last wraps. -/
theorem consecutive_newDescs (start : Nat) (offset space : UInt32) (hne : new ≠ [])
    (h : ∀ part ∈ new.dropLast, part.size ≠ 0) :
    Consecutive start (newDescs new offset space) ↔
      offset.toNat = start ∧
        offset.toNat + (new.dropLast.map fun part => part.size.toNat).sum < 2 ^ 32 := by
  induction new generalizing start offset space with
  | nil => exact absurd rfl hne
  | cons part new ih =>
    cases new with
    | nil =>
      have hlt := offset.toNat_lt
      simp [newDescs, Consecutive, newDesc]
      omega
    | cons part' new =>
      rw [dropLast_cons_cons] at h ⊢
      have hpos : part.size > 0 :=
        UInt32.pos_iff_ne_zero.mpr (h part mem_cons_self)
      have hsize : (newDesc part offset space).size = part.size := by simp [newDesc, hpos]
      have hbase : (newDesc part offset space).flashBase = offset := rfl
      have hadd := UInt32.toNat_add offset part.size
      rw [newDescs, Consecutive, hsize, hbase, ih _ _ _ (cons_ne_nil _ _)
        fun p hp => h p (mem_cons_of_mem _ hp), map_cons, sum_cons]
      omega

/-- Partitions that follow one another cover the flash from the first to the last. -/
theorem covers_iff {start : Nat} (h : Consecutive start descs) (addr : Nat) :
    (∃ desc ∈ descs, desc.Covers addr) ↔
      start ≤ addr ∧ addr < start + (descs.map fun desc => desc.size.toNat).sum := by
  induction descs generalizing start with
  | nil =>
    simp
  | cons desc descs ih =>
    have hrest := ih h.2
    have hbase : desc.flashBase.toNat = start := h.1
    have hsplit : (∃ d ∈ desc :: descs, d.Covers addr) ↔
        desc.Covers addr ∨ ∃ d ∈ descs, d.Covers addr := by simp
    rw [hsplit, hrest, Desc.Covers, hbase, map_cons, sum_cons]
    omega

/-! ## The exact condition -/

section Span

variable {old new : List Part} {dir pre mid post : List Desc} {first last : Desc}

theorem sizes_of_valid (h : fisValidate old new dir = 1) :
    ∀ part ∈ new.dropLast, part.size ≠ 0 := by
  intro part hpart hzero
  rw [fisValidate, if_pos (any_eq_true.mpr ⟨part, hpart, by simp [hzero]⟩)] at h
  cases h

section

variable (h : Span old dir pre mid post first last)

include h

/-- The entries of the result, if the new names are no ends. -/
theorem Span.entries_result {news : List Desc}
    (hnews : ∀ desc ∈ news, desc.isEnd = false) (k : Nat) :
    Fis.entries (pre ++ news ++ (dir.drop (pre.length + mid.length)).take k) =
      pre ++ news ++ post.take k := by
  have hpost : Fis.entries (dir.drop (pre.length + mid.length)) = post := by
    rw [entries_drop (by rw [h.entries]; simp), h.entries, ← length_append, drop_left]
  have hall : ∀ desc ∈ pre ++ news, desc.isEnd = false := by
    intro desc hdesc
    rcases mem_append.mp hdesc with hdesc | hdesc
    · refine @isEnd_of_mem dir desc ?_
      rw [h.entries, append_assoc]
      exact mem_append_left _ hdesc
    · exact hnews desc hdesc
  rw [entries_append hall, entries_take, hpost]

theorem Span.placed_iff_fits (hne : new ≠ [])
    (hsizes : ∀ part ∈ new.dropLast, part.size ≠ 0) :
    Placed old dir (h.news new) ↔ Fits old new dir := by
  have hfits : Fits old new dir ↔ (∀ desc ∈ olds old dir,
        min first.flashBase last.flashBase ≤ desc.flashBase) ∧
      (min first.flashBase last.flashBase).toNat +
        (new.dropLast.map fun part => part.size.toNat).sum < 2 ^ 32 ∧
      ∀ other ∈ others old dir, ∀ addr, other.Covers addr →
        ¬ ((min first.flashBase last.flashBase).toNat ≤ addr ∧
          addr < (min first.flashBase last.flashBase).toNat +
            total (nextBase dir (max first.flashBase last.flashBase) -
              min first.flashBase last.flashBase) new) := by
    rw [Fits, h.head_olds, h.getLast_olds]
    simp
  have hmem : ∃ desc ∈ olds old dir, desc.flashBase = min first.flashBase last.flashBase := by
    rw [UInt32.min_def]
    split
    · exact ⟨first, mem_of_head? h.head_olds, rfl⟩
    · exact ⟨last, mem_of_getLast? h.getLast_olds, rfl⟩
  rw [hfits]
  generalize hlow : min first.flashBase last.flashBase = low at hmem ⊢
  have hnews : h.news new = newDescs new low
      (nextBase dir (max first.flashBase last.flashBase) - low) := by rw [Span.news, hlow]
  rw [hnews]
  generalize nextBase dir (max first.flashBase last.flashBase) - low = space
  have hfree : Consecutive low.toNat (newDescs new low space) →
      ((∀ desc ∈ newDescs new low space, ∀ other ∈ others old dir, ∀ addr,
          ¬ (desc.Covers addr ∧ other.Covers addr)) ↔
        ∀ other ∈ others old dir, ∀ addr, other.Covers addr →
          ¬ (low.toNat ≤ addr ∧ addr < low.toNat + total space new)) := by
    intro hcons
    have hcovers := covers_iff hcons
    rw [sum_newDescs low space hsizes] at hcovers
    constructor
    · intro hnone other hother addr haddr hin
      obtain ⟨desc, hdesc, hcover⟩ := (hcovers addr).mpr hin
      exact hnone desc hdesc other hother addr ⟨hcover, haddr⟩
    · rintro hnone desc hdesc other hother addr ⟨hcover, haddr⟩
      exact hnone other hother addr haddr ((hcovers addr).mp ⟨desc, hdesc, hcover⟩)
  constructor
  · rintro ⟨base, hlowest, hcons, hnone⟩
    obtain ⟨hbase, hwrap⟩ := (consecutive_newDescs _ _ _ hne hsizes).mp hcons
    obtain rfl : low = base := UInt32.toNat_inj.mp hbase
    exact ⟨hlowest.2, hwrap, (hfree hcons).mp hnone⟩
  · rintro ⟨hall, hwrap, hnone⟩
    have hcons : Consecutive low.toNat (newDescs new low space) :=
      (consecutive_newDescs _ _ _ hne hsizes).mpr ⟨rfl, hwrap⟩
    exact ⟨low, ⟨hmem, hall⟩, hcons, (hfree hcons).mpr hnone⟩

/-- The block stays in order around the new ones exactly where the old ones are adjacent, and
there is room. -/
theorem Span.ok_iff (hvalid : fisValidate old new dir = 1) :
    RemapOk old new dir ↔ Adjacent old dir ∧ Room old new dir ∧
      (∀ part ∈ new, endsDir part.name = false) ∧ Fits old new dir := by
  have hsizes := sizes_of_valid hvalid
  have hpos : 0 < mid.length := by
    obtain ⟨rest, hmid⟩ := h.mid_cons
    rw [hmid]
    exact Nat.succ_pos _
  have hlength : (h.news new).length = new.length := length_newDescs _ _ _
  have hisNew : Forall₂ IsNew new (h.news new) := newDescs_isNew _ _ _
  have hentries := congrArg length h.entries
  rw [length_append, length_append] at hentries
  have hmid := @List.length_eq_length_filter_add _ mid (isOld old)
  rw [← h.olds_eq] at hmid
  constructor
  · rintro ⟨dir', hremap, -, news, hforall, hdir', hplaced⟩
    obtain ⟨hspan, hroom, rfl⟩ := (h.remap dir').mp hremap
    have hnew : ∀ desc ∈ news, desc.isEnd = false := by
      intro desc hdesc
      have hin : desc ∈ (Fis.entries dir).takeWhile (!isOld old ·) ++ news ++
          ((Fis.entries dir).dropWhile (!isOld old ·)).filter (!isOld old ·) :=
        mem_append_left _ (mem_append_right _ hdesc)
      rw [← hdir'] at hin
      exact isEnd_of_mem hin
    have hnames := (isEnd_iff_names hforall).mp hnew
    rw [h.entries_result ((isEnd_iff_names hisNew).mpr hnames), h.takeWhile.1, h.takeWhile.2,
      filter_append, filter_others h.post, append_assoc, append_assoc] at hdir'
    obtain ⟨hsame, hrest⟩ := append_inj (append_cancel_left hdir')
      (hlength.trans hforall.length_eq)
    -- nothing is left of the span, and nothing of the rest is lost
    have hcount := congrArg length hrest
    rw [length_take, length_append] at hcount
    have hnone' : mid.filter (!isOld old ·) = [] := eq_nil_of_length_eq_zero (by omega)
    rw [hnone', length_nil] at hcount hmid
    have hne : new ≠ [] := by
      rintro rfl
      rw [length_nil] at hspan
      omega
    refine ⟨h.adjacent_iff.mpr hnone', ⟨by omega, by omega⟩, hnames, ?_⟩
    exact (h.placed_iff_fits hne hsizes).mp (hsame ▸ hplaced)
  · rintro ⟨hadjacent, ⟨hspan, hroom⟩, hnames, hfits⟩
    have hnone' := h.adjacent_iff.mp hadjacent
    rw [hnone', length_nil] at hmid
    have hne : new ≠ [] := by
      rintro rfl
      rw [length_nil] at hspan
      omega
    have hle := entries_le dir
    refine ⟨_, (h.remap _).mpr ⟨by omega, by omega, rfl⟩, ?_, h.news new, hisNew, ?_,
      (h.placed_iff_fits hne hsizes).mpr hfits⟩
    · rw [length_append, length_append, length_take, length_drop, hlength]
      omega
    · rw [h.entries_result ((isEnd_iff_names hisNew).mpr hnames), h.takeWhile.1, h.takeWhile.2,
        filter_append, filter_others h.post, hnone', nil_append,
        take_of_length_le (by omega)]

end

end Span

/-- The remap is right exactly for old partitions next to one another, of which the first or the
last has the lowest base, not fewer new ones with names, room in the block, and room in the
flash. -/
theorem remap_iff {old new : List Part} {dir : List Desc} (hvalid : fisValidate old new dir = 1) :
    RemapOk old new dir ↔ Adjacent old dir ∧ Room old new dir ∧
      (∀ part ∈ new, endsDir part.name = false) ∧ Fits old new dir := by
  by_cases hnone : olds old dir = []
  · -- without an old partition the code reads at a null pointer
    have hmarks : marks old (entries dir) 0 = [] := by
      refine marks_none (fun desc hdesc => ?_) 0
      simpa using filter_eq_nil_iff.mp hnone desc hdesc
    constructor
    · rintro ⟨dir', hremap, -⟩
      have hfirst := (scanFrom_spec old dir 0 {}).1
      rw [hmarks] at hfirst
      unfold fisRemap at hremap
      dsimp only at hremap
      rw [hfirst] at hremap
      cases hremap
    · rintro ⟨-, -, -, first, last, hhead, -⟩
      rw [hnone] at hhead
      cases hhead
  · obtain ⟨pre, mid, post, first, last, hspan⟩ := exists_span hnone
    exact hspan.ok_iff hvalid

/-! ### A directory of four partitions -/

def letter (byte : UInt8) : Vector UInt8 16 := (Vector.replicate 16 0).set 0 byte

def smallPart (byte : UInt8) (size : UInt32) : Part where
  name := letter byte
  loadaddr := 0
  size := size
  length := 0
  crc := 0

def smallDesc (byte : UInt8) (base size : UInt32) : Desc :=
  { filled 0 with name := letter byte, flashBase := base, size := size }

def smallDir : List Desc :=
  [smallDesc 0x61 0 0x10000, smallDesc 0x62 0x10000 0x10000, smallDesc 0x63 0x20000 0x20000,
    smallDesc 0x64 0x40000 0x10000, filled 0xff, filled 0xff]

def smallOld : List Part := [smallPart 0x63 0, smallPart 0x62 0]

theorem olds_small : olds smallOld smallDir =
    [smallDesc 0x62 0x10000 0x10000, smallDesc 0x63 0x20000 0x20000] := by rfl

theorem others_small : others smallOld smallDir =
    [smallDesc 0x61 0 0x10000, smallDesc 0x64 0x40000 0x10000] := by rfl

/-- b and c become three partitions, the last of which takes what is left. -/
theorem remap_grow :
    RemapOk smallOld [smallPart 0x65 0x8000, smallPart 0x66 0x10000, smallPart 0x67 0]
      smallDir := by
  refine (remap_iff (by decide +kernel)).mpr ⟨?_, ?_, ?_, ?_⟩
  · refine ⟨[smallDesc 0x61 0 0x10000], [smallDesc 0x64 0x40000 0x10000], ?_⟩
    rw [olds_small]
    rfl
  · rw [Room, olds_small]
    decide +kernel
  · decide +kernel
  · refine ⟨smallDesc 0x62 0x10000 0x10000, smallDesc 0x63 0x20000 0x20000, ?_, ?_, ?_, ?_, ?_⟩
    · rw [olds_small]
      rfl
    · rw [olds_small]
      rfl
    · rw [olds_small]
      decide +kernel
    · decide +kernel
    · intro other hother addr hcovers
      have htotal : total (nextBase smallDir (max 0x10000 0x20000) - min 0x10000 0x20000)
          [smallPart 0x65 0x8000, smallPart 0x66 0x10000, smallPart 0x67 0] = 0x30000 := by
        decide +kernel
      have hlow : (min (0x10000 : UInt32) 0x20000).toNat = 0x10000 := by decide +kernel
      change ¬ ((min (0x10000 : UInt32) 0x20000).toNat ≤ addr ∧
        addr < (min (0x10000 : UInt32) 0x20000).toNat +
          total (nextBase smallDir (max 0x10000 0x20000) - min 0x10000 0x20000)
            [smallPart 0x65 0x8000, smallPart 0x66 0x10000, smallPart 0x67 0])
      rw [htotal, hlow]
      rw [others_small] at hother
      simp only [mem_cons, not_mem_nil, or_false] at hother
      rcases hother with rfl | rfl
      · have hlt : addr < (0 : UInt32).toNat + (0x10000 : UInt32).toNat := hcovers.2
        simp at hlt
        omega
      · have hle : (0x40000 : UInt32).toNat ≤ addr := hcovers.1
        simp at hle
        omega

/-- One partition for b and c: the rest of the block is to be cleared from a length below zero. -/
theorem remap_shrink_fails :
    fisValidate smallOld [smallPart 0x65 0] smallDir = 1 ∧
      ¬ RemapOk smallOld [smallPart 0x65 0] smallDir := by
  refine ⟨by decide +kernel, ?_⟩
  rintro ⟨dir', hremap, -⟩
  have hnone : (fisRemap smallOld [smallPart 0x65 0] smallDir).isNone = true := by decide +kernel
  rw [hremap] at hnone
  cases hnone

end LibWrt.Mtd.Fis
