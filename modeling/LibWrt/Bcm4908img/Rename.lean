/-
LibWrt.Bcm4908img.Rename — what renaming a file of a bootfs leaves of an image.

A bootfs is sound when its nodes are as long as what they hold, and lie in it
one behind another. Then only the renamed entry is another one, for the parser
and for the list of files; the tail is another matter. It is written to the end
of the file, where it is only in an image without a vendor tail.
-/
import LibWrt.Bcm4908img.Bootfs
import LibWrt.Bcm4908img.Create

namespace LibWrt.Bcm4908img

open List Nat
open LibWrt.Bytes
open LibWrt.Crc32 (crc32Le)
open LibWrt.Loop

def bootfsEnd (info : Info) : Nat :=
  if info.paddingOffset ≠ 0 then info.paddingOffset else info.rootfsOffset

def InBlock (info : Info) (offset length : Nat) : Prop :=
  ∃ m, info.bootfsOffset + m * blockLen ≤ offset ∧
    offset + length ≤ info.bootfsOffset + (m + 1) * blockLen

/-- The nodes from an offset on are whole, up to where there is none; these entries are among
them. -/
inductive Nodes (bigEndian : Bool) (file : List UInt8) (info : Info) :
    Nat → List (Nat × List UInt8) → Prop where
  | stop {offset : Nat} : offset ≤ bootfsEnd info → lookNode bigEndian file offset = .stop →
      Nodes bigEndian file info offset []
  | other {offset step : Nat} {entries : List (Nat × List UInt8)} :
      lookNode bigEndian file offset = .other step → 12 ≤ step →
      offset + step ≤ bootfsEnd info → Nodes bigEndian file info (offset + step) entries →
      Nodes bigEndian file info offset entries
  | entry {offset step : Nat} {name : List UInt8} {entries : List (Nat × List UInt8)} :
      lookNode bigEndian file offset = .entry step name → 40 + name.length ≤ step →
      offset + step ≤ bootfsEnd info → InBlock info offset (40 + name.length) →
      Nodes bigEndian file info (offset + step) entries →
      Nodes bigEndian file info offset ((offset, name) :: entries)

/-- More than a renaming looks at: the nodes up to the end of the bootfs, and a rootfs. -/
structure Sound (bigEndian : Bool) (file : List UInt8) (info : Info) : Prop where
  nodes : ∃ entries, Nodes bigEndian file info info.bootfsOffset entries
  /-- The rootfs has its magic in front of the tail. -/
  rootfs : info.rootfsOffset + 4 ≤ info.tailOffset

def FirstNamed (bigEndian : Bool) (file : List UInt8) (info : Info) (name : Name)
    (offset nsize : Nat) : Prop :=
  Ends (mvTurn bigEndian file name) info.bootfsOffset (.found offset nsize)

structure Renamed (bigEndian : Bool) (file file' : List UInt8) (info : Info)
    (oldname newname : Name) : Prop where
  accepted : ∃ info', Gives (bcm4908imgParse file') (.ok info')
  listed : ∀ info', Gives (bcm4908imgParse file') (.ok info') → ∀ listing',
    Gives (bcm4908imgBootfsLs bigEndian file' info') listing' ↔
      ∃ listing, Gives (bcm4908imgBootfsLs bigEndian file info) listing ∧
        listing' = { listing with printed := listing.printed.replace oldname newname }
  /-- Nothing but the checksum and the name in the entry, and the checksum in the tail. -/
  unchanged : file'.length = file.length ∧ ∃ offset nsize,
    FirstNamed bigEndian file info oldname offset nsize ∧
      ∀ i, (i < offset + 36 ∨ offset + 40 + nsize ≤ i) →
        (i < info.tailOffset ∨ info.tailOffset + 4 ≤ i) → file'[i]? = file[i]?

def RenamesOrNot (bigEndian : Bool) (file : List UInt8) (info : Info) (oldname newname : Name)
    (behind : List UInt8) : Prop :=
  ∀ mv, Gives (bcm4908imgBootfsMv bigEndian file info oldname newname behind) mv →
    (mv.ret = 0 → Renamed bigEndian file mv.file info oldname newname) ∧
      (mv.ret ≠ 0 → mv.file = file)

/-! ## Bytes that are the same -/

def SameOn (file file' : List UInt8) (lo hi : Nat) : Prop :=
  ∀ i, lo ≤ i → i < hi → file'[i]? = file[i]?

section Same

variable {file file' : List UInt8} {lo hi : Nat}

theorem SameOn.mono (h : SameOn file file' lo hi) {lo' hi' : Nat} (hlo : lo ≤ lo')
    (hhi : hi' ≤ hi) : SameOn file file' lo' hi' :=
  fun i hi₁ hi₂ => h i (hlo.trans hi₁) (Nat.lt_of_lt_of_le hi₂ hhi)

theorem SameOn.fread {pos n : Nat} (h : SameOn file file' pos (pos + n)) :
    fread file' pos n = fread file pos n := by
  apply ext_getElem?
  intro i
  rw [Bcm4908img.fread, Bcm4908img.fread, getElem?_take, getElem?_take]
  split
  · rw [getElem?_drop, getElem?_drop]
    exact h _ (by omega) (by omega)
  · rfl

theorem SameOn.ofWord32 {pos : Nat} (h : SameOn file file' pos (pos + 4)) (bigEndian : Bool) :
    ofWord32 bigEndian file' pos = ofWord32 bigEndian file pos := by
  rw [← ofWord32_fread bigEndian file' pos (le_refl 4), h.fread,
    ofWord32_fread bigEndian file pos (le_refl 4)]

theorem SameOn.jffs2At {offset : Nat} (h : SameOn file file' offset (offset + 2)) :
    jffs2At file' offset = jffs2At file offset := by
  have hbytes := h.fread
  rw [Bcm4908img.fread, Bcm4908img.fread] at hbytes
  rw [Bcm4908img.jffs2At, ← ofHalf_take, hbytes, ofHalf_take]
  rfl

theorem SameOn.ubiAt {offset : Nat} (h : SameOn file file' offset (offset + 4)) :
    ubiAt file' offset = ubiAt file offset := by
  rw [Bcm4908img.ubiAt, h.ofWord32]
  rfl

theorem SameOn.vendorHeader (h : SameOn file file' 0 8) :
    vendorHeader file' = vendorHeader file := by
  rw [Bcm4908img.vendorHeader, (h.mono (Nat.le_refl 0) (by decide)).ofWord32,
    SameOn.ofWord32 (h.mono (Nat.zero_le 4) (Nat.le_refl 8))]
  rfl

theorem SameOn.vendorTail (hlength : file'.length = file.length)
    (h : SameOn file file' (file.length - linksysTailLen)
      (file.length - linksysTailLen + LINKSYS_MAGIC.length)) :
    vendorTail file' = vendorTail file := by
  rw [Bcm4908img.vendorTail, hlength, h.fread]
  rfl

theorem paddingFrom_congr {bootfs k : Nat}
    (h : ∀ j < k, isAllFf (fread file' (bootfs + j * blockLen) 256) =
      isAllFf (fread file (bootfs + j * blockLen) 256)) :
    paddingFrom file' bootfs k = paddingFrom file bootfs k := by
  induction k with
  | zero => rfl
  | succ k ih =>
    rw [paddingFrom, paddingFrom, ih fun j hj => h j (lt_succ_of_lt hj),
      h k (lt_succ_self k)]

end Same

/-! ## What is looked at -/

section Look

variable {bigEndian : Bool} {file file' : List UInt8} {offset step : Nat} {name name' : List UInt8}

def nsizeAt (file : List UInt8) (offset : Nat) : Nat := (file[offset + 28]?.getD 0).toNat

theorem nsize_fread (file : List UInt8) (offset : Nat) :
    ((fread file (offset + 12) 28)[16]?.getD 0).toNat = nsizeAt file offset := by
  rw [fread, getElem?_take, if_pos (by decide), getElem?_drop, nsizeAt]

theorem lookNode_eq (bigEndian : Bool) (file : List UInt8) (offset : Nat) :
    lookNode bigEndian file offset =
      if (fread file offset 12).length ≠ 12 then .short
      else if ofHalf bigEndian (fread file offset 12) ≠ 0x1985 then .stop
      else if ofHalf bigEndian ((fread file offset 12).drop 2) ≠ 0xe001 then
        .other (nodeStep (ofWord32 bigEndian (fread file offset 12) 4))
      else if (fread file (offset + 12) 28).length ≠ 28 then .short
      else if (fread file (offset + 40) (nsizeAt file offset)).length ≠ nsizeAt file offset then
        .short
      else .entry (nodeStep (ofWord32 bigEndian (fread file offset 12) 4))
        (fread file (offset + 40) (nsizeAt file offset)) := by
  simp only [lookNode, nsize_fread]

theorem lookNode_stop_iff : lookNode bigEndian file offset = .stop ↔
    (fread file offset 12).length = 12 ∧ ofHalf bigEndian (fread file offset 12) ≠ 0x1985 := by
  rw [lookNode_eq]
  constructor
  · intro h
    split_ifs at h with hlength hmagic
    exact ⟨not_not.mp hlength, hmagic⟩
  · rintro ⟨hlength, hmagic⟩
    rw [if_neg (not_not.mpr hlength), if_pos hmagic]

theorem lookNode_other_iff : lookNode bigEndian file offset = .other step ↔
    (fread file offset 12).length = 12 ∧ ofHalf bigEndian (fread file offset 12) = 0x1985 ∧
      nodeStep (ofWord32 bigEndian (fread file offset 12) 4) = step ∧
      ofHalf bigEndian ((fread file offset 12).drop 2) ≠ 0xe001 := by
  rw [lookNode_eq]
  constructor
  · intro h
    split_ifs at h with hlength hmagic htype
    exact ⟨not_not.mp hlength, not_not.mp hmagic, Look.other.inj h, htype⟩
  · rintro ⟨hlength, hmagic, hstep, htype⟩
    rw [if_neg (not_not.mpr hlength), if_neg (not_not.mpr hmagic), if_pos htype, hstep]

theorem lookNode_entry_iff : lookNode bigEndian file offset = .entry step name ↔
    (fread file offset 12).length = 12 ∧ ofHalf bigEndian (fread file offset 12) = 0x1985 ∧
      nodeStep (ofWord32 bigEndian (fread file offset 12) 4) = step ∧
      ofHalf bigEndian ((fread file offset 12).drop 2) = 0xe001 ∧
      (fread file (offset + 12) 28).length = 28 ∧ name.length = nsizeAt file offset ∧
      fread file (offset + 40) name.length = name := by
  rw [lookNode_eq]
  constructor
  · intro h
    split_ifs at h with hlength hmagic htype hdirent hname
    obtain ⟨hstep, rfl⟩ := Look.entry.inj h
    have hsize := not_not.mp hname
    exact ⟨not_not.mp hlength, not_not.mp hmagic, hstep, not_not.mp htype, not_not.mp hdirent,
      hsize, by rw [hsize]⟩
  · rintro ⟨hlength, hmagic, hstep, htype, hdirent, hsize, hname⟩
    rw [hsize] at hname
    rw [if_neg (not_not.mpr hlength), if_neg (not_not.mpr hmagic), if_neg (not_not.mpr htype),
      if_neg (not_not.mpr hdirent), hname, if_neg (not_not.mpr hsize), hstep]

theorem ofHalf_fread (file : List UInt8) (offset : Nat) :
    ofHalf bigEndian (fread file offset 12) = ofHalf bigEndian (fread file offset 2) := by
  rw [fread, fread]
  rcases file.drop offset with _ | ⟨a, _ | ⟨b, rest⟩⟩ <;> rfl

theorem lookNode_stop_congr (h : lookNode bigEndian file offset = .stop)
    (hlength : file'.length = file.length) (hsame : SameOn file file' offset (offset + 2)) :
    lookNode bigEndian file' offset = .stop := by
  rw [lookNode_stop_iff, length_fread, ofHalf_fread] at h ⊢
  rw [hlength, hsame.fread]
  exact h

theorem lookNode_other_congr (h : lookNode bigEndian file offset = .other step)
    (hsame : SameOn file file' offset (offset + 12)) :
    lookNode bigEndian file' offset = .other step := by
  rw [lookNode_other_iff] at h ⊢
  rw [hsame.fread]
  exact h

/-- An entry with another name. -/
theorem lookNode_entry_congr (h : lookNode bigEndian file offset = .entry step name)
    (hlength : file'.length = file.length) (hsame : SameOn file file' offset (offset + 36))
    (hname : fread file' (offset + 40) name'.length = name')
    (hsize : name'.length = name.length) :
    lookNode bigEndian file' offset = .entry step name' := by
  rw [lookNode_entry_iff, length_fread file (offset + 12)] at h
  rw [lookNode_entry_iff, length_fread file' (offset + 12),
    (hsame.mono (le_refl offset) (by omega)).fread, hlength]
  obtain ⟨hread, hmagic, hstep, htype, hdirent, hn, -⟩ := h
  refine ⟨hread, hmagic, hstep, htype, hdirent, ?_, hname⟩
  rw [hsize, hn, nsizeAt, nsizeAt, hsame (offset + 28) (by omega) (by omega)]

theorem lookNode_entry_ne (h : lookNode bigEndian file offset = .entry step name) :
    file[offset]? ≠ some 0xff := by
  obtain ⟨hlength, hmagic, -⟩ := lookNode_entry_iff.mp h
  intro hff
  rw [ofHalf_fread] at hmagic
  have hdrop : (file.drop offset)[0]? = some 0xff := by
    rw [getElem?_drop]
    exact hff
  rw [fread] at hmagic
  generalize file.drop offset = bytes at hmagic hdrop
  rcases bytes with _ | ⟨a, _ | ⟨b, rest⟩⟩
  · cases hdrop
  · cases hmagic
  · obtain rfl := Option.some.inj hdrop
    have hb := b.toNat_lt
    have hff : (0xff : UInt8).toNat = 255 := rfl
    cases bigEndian with
    | true =>
      have hsum : b.toNat + 2 ^ 8 * (0xff : UInt8).toNat = 0x1985 := hmagic
      omega
    | false =>
      have hsum : (0xff : UInt8).toNat + 2 ^ 8 * b.toNat = 0x1985 := hmagic
      omega

end Look

/-! ## The nodes of a bootfs -/

section Nodes

variable {bigEndian : Bool} {file file' : List UInt8} {info : Info} {offset : Nat}
  {entries : List (Nat × List UInt8)}

def entryName (entry : Nat × List UInt8) : Name := nameOf entry.2

section

variable (h : Nodes bigEndian file info offset entries)

include h

/-- All names are listed. -/
theorem Nodes.ends_ls (printed : List Name) :
    Ends (lsTurn bigEndian file) { offset := offset, printed := printed }
      { printed := printed ++ entries.map entryName, err := 0 } := by
  induction h generalizing printed with
  | stop _ hlook =>
    refine .stop ?_
    rw [lsTurn, hlook, map_nil, append_nil]
  | other hlook _ _ _ ih =>
    refine .next ?_ (ih printed)
    rw [lsTurn, hlook]
  | @entry offset step name _ hlook _ _ _ _ ih =>
    have hnext := ih (printed ++ [nameOf name])
    rw [append_assoc] at hnext
    refine .next ?_ hnext
    rw [lsTurn, hlook]

/-- An entry lies in the bootfs, from this offset on, and in one block. -/
theorem Nodes.entry_mem {entry : Nat × List UInt8} (hmem : entry ∈ entries) :
    offset ≤ entry.1 ∧ entry.1 + 40 + entry.2.length ≤ bootfsEnd info ∧
      InBlock info entry.1 (40 + entry.2.length) := by
  induction h with
  | stop => cases hmem
  | other _ _ _ _ ih =>
    obtain ⟨hle, hrest⟩ := ih hmem
    exact ⟨by omega, hrest⟩
  | entry _ hstep hend hblock _ ih =>
    rcases mem_cons.mp hmem with rfl | hmem
    · dsimp only
      exact ⟨le_refl _, by omega, hblock⟩
    · obtain ⟨hle, hrest⟩ := ih hmem
      exact ⟨by omega, hrest⟩

theorem Nodes.found {name : Name}
    {found nsize : Nat} (hfound : Ends (mvTurn bigEndian file name) offset (.found found nsize)) :
    ∃ front buf rest step, entries = front ++ (found, buf) :: rest ∧
      lookNode bigEndian file found = .entry step buf ∧ buf.length = nsize ∧
      nameOf buf = name ∧ ∀ entry ∈ front, entryName entry ≠ name := by
  induction h with
  | stop _ hlook =>
    cases hfound with
    | stop hturn => rw [mvTurn, hlook] at hturn; cases hturn
    | next hturn _ => rw [mvTurn, hlook] at hturn; cases hturn
  | other hlook _ _ _ ih =>
    cases hfound with
    | stop hturn => rw [mvTurn, hlook] at hturn; cases hturn
    | next hturn hrest =>
      rw [mvTurn, hlook] at hturn
      obtain rfl := Sum.inl.inj hturn
      exact ih hrest
  | @entry offset step buf entries hlook _ _ _ _ ih =>
    have hturn : mvTurn bigEndian file name offset =
        if nameOf buf = name then .inr (.found offset buf.length) else .inl (offset + step) := by
      rw [mvTurn, hlook]
    by_cases hname : nameOf buf = name
    · rw [if_pos hname] at hturn
      obtain ⟨rfl, rfl⟩ := Search.found.inj (hfound.unique (.stop hturn))
      exact ⟨[], buf, entries, step, rfl, hlook, rfl, hname, fun entry hmem => by cases hmem⟩
    · rw [if_neg hname] at hturn
      have hrest : Ends (mvTurn bigEndian file name) (offset + step) (.found found nsize) := by
        cases hfound with
        | stop hstop => rw [hturn] at hstop; cases hstop
        | next hnext hrest =>
          rw [hturn] at hnext
          obtain rfl := Sum.inl.inj hnext
          exact hrest
      obtain ⟨front, buf', rest, step', rfl, hlook', hsize, hname', hfront⟩ := ih hrest
      refine ⟨(offset, buf) :: front, buf', rest, step', rfl, hlook', hsize, hname', ?_⟩
      intro entry hmem
      rcases mem_cons.mp hmem with rfl | hmem
      · exact hname
      · exact hfront entry hmem

/-- Nodes that nothing was written to. -/
theorem Nodes.same (hlength : file'.length = file.length)
    (hsame : SameOn file file' offset (bootfsEnd info + 2)) :
    Nodes bigEndian file' info offset entries := by
  induction h with
  | stop hle hlook =>
    exact .stop hle (lookNode_stop_congr hlook hlength (hsame.mono (le_refl _) (by omega)))
  | other hlook hstep hend _ ih =>
    refine .other (lookNode_other_congr hlook ?_) hstep hend (ih ?_)
    · exact hsame.mono (le_refl _) (by omega)
    · exact hsame.mono (by omega) (le_refl _)
  | entry hlook hstep hend hblock _ ih =>
    refine .entry (lookNode_entry_congr hlook hlength ?_ ?_ rfl) hstep hend hblock (ih ?_)
    · exact hsame.mono (le_refl _) (by omega)
    · rw [(hsame.mono (by omega) (by omega)).fread]
      exact (lookNode_entry_iff.mp hlook).2.2.2.2.2.2
    · exact hsame.mono (by omega) (le_refl _)

end

/-- A file with another name in an entry, its checksum in front of that, and another end. -/
structure Rewritten (file file' : List UInt8) (entry : Nat) (name : List UInt8) : Prop where
  length_eq : file'.length = file.length
  front : SameOn file file' 0 (entry + 36)
  name_eq : fread file' (entry + 40) name.length = name
  back : SameOn file file' (entry + 40 + name.length) (file.length - tailLen)

theorem Nodes.rewritten {front rest : List (Nat × List UInt8)} {entry : Nat}
    {buf name : List UInt8}
    (h : Nodes bigEndian file info offset (front ++ (entry, buf) :: rest))
    (hfile : Rewritten file file' entry name) (hsize : name.length = buf.length)
    (hend : bootfsEnd info + 2 ≤ file.length - tailLen) :
    Nodes bigEndian file' info offset (front ++ (entry, name) :: rest) := by
  generalize hentries : front ++ (entry, buf) :: rest = entries at h
  induction h generalizing front with
  | stop => exact absurd hentries (by simp)
  | other hlook hstep hle hnext ih =>
    subst hentries
    have hbehind := (hnext.entry_mem (mem_append_right front mem_cons_self)).1
    dsimp only at hbehind
    refine .other (lookNode_other_congr hlook ?_) hstep hle (ih rfl)
    exact hfile.front.mono (Nat.zero_le _) (by omega)
  | entry hlook hstep hle hblock hnext ih =>
    cases front with
    | nil =>
      obtain ⟨hhead, rfl⟩ := List.cons.inj hentries
      obtain ⟨rfl, rfl⟩ := Prod.mk.inj hhead
      refine .entry (lookNode_entry_congr hlook hfile.length_eq ?_ hfile.name_eq hsize) ?_ hle ?_
        (hnext.same hfile.length_eq ?_)
      · exact hfile.front.mono (Nat.zero_le _) (le_refl _)
      · rw [hsize]
        exact hstep
      · rw [hsize]
        exact hblock
      · exact hfile.back.mono (by omega) hend
    | cons head front =>
      obtain ⟨rfl, rfl⟩ := List.cons.inj hentries
      have hbehind := (hnext.entry_mem (mem_append_right front mem_cons_self)).1
      dsimp only at hbehind
      refine .entry (lookNode_entry_congr hlook hfile.length_eq ?_ ?_ rfl) hstep hle hblock
        (ih rfl)
      · exact hfile.front.mono (Nat.zero_le _) (by omega)
      · rw [(hfile.front.mono (Nat.zero_le _) (by omega)).fread]
        exact (lookNode_entry_iff.mp hlook).2.2.2.2.2.2

end Nodes

/-! ## The parser on a renamed file -/

section Parser

variable {bigEndian : Bool} {file file' : List UInt8} {info : Info} {entry : Nat}
  {buf name : List UInt8}

/-- There is much behind the bootfs. -/
theorem Accepts.bootfsEnd_le (h : Accepts file info) :
    bootfsEnd info ≤ info.rootfsOffset ∧ bootfsEnd info + 256 ≤ file.length := by
  obtain ⟨k, -, -, hjffs2, -⟩ := h.bootfs
  obtain ⟨-, hlt, hpadding⟩ := order_of_rootfsAt hjffs2 h.rootfs
  have htail := (findTail_le h.length_ge).1
  rw [← h.tailOffset_eq] at htail
  rw [bootfsEnd]
  split_ifs with hzero
  · have hsteps := h.rootfs
    obtain ⟨k, hk, -, -, -, hpad⟩ := hsteps
    have hcases : paddingFrom file info.bootfsOffset k = 0 ∨ _ := paddingFrom_cases _ k
    rcases hcases with hp | ⟨j, hj, hp, -⟩
    · exact absurd (hpad.trans hp) hzero
    · have hmul := Nat.mul_le_mul_right blockLen (succ_le_of_lt hj)
      have hbig : 256 ≤ blockLen := by decide
      rw [succ_mul] at hmul
      omega
  · exact ⟨le_refl _, h.readable.resolve_left hzero⟩

theorem Rewritten.block (hfile : Rewritten file file' entry name)
    (hblock : InBlock info entry (40 + name.length)) {j n : Nat} (hn : n ≤ 256)
    (hend : info.bootfsOffset + j * blockLen + n ≤ file.length - tailLen) :
    SameOn file file' (info.bootfsOffset + j * blockLen) (info.bootfsOffset + j * blockLen + n) ∨
      info.bootfsOffset + j * blockLen ≤ entry ∧
        entry < info.bootfsOffset + j * blockLen + n := by
  obtain ⟨m, hlo, hhi⟩ := hblock
  have hbig : 256 ≤ blockLen := by decide
  rcases Nat.lt_trichotomy j m with hlt | rfl | hlt
  · have hmul := Nat.mul_le_mul_right blockLen (succ_le_of_lt hlt)
    rw [succ_mul] at hmul
    exact .inl (hfile.front.mono (Nat.zero_le _) (by omega))
  · by_cases hnear : entry < info.bootfsOffset + j * blockLen + n
    · exact .inr ⟨hlo, hnear⟩
    · exact .inl (hfile.front.mono (Nat.zero_le _) (by omega))
  · have hmul := Nat.mul_le_mul_right blockLen (succ_le_of_lt hlt)
    rw [succ_eq_add_one] at hmul
    exact .inl (hfile.back.mono (by omega) (by omega))

theorem Rewritten.ubiAt_block (hfile : Rewritten file file' entry name)
    (hblock : InBlock info entry (40 + name.length)) {j : Nat}
    (hend : info.bootfsOffset + j * blockLen + 4 ≤ file.length - tailLen) :
    ubiAt file' (info.bootfsOffset + j * blockLen) =
      ubiAt file (info.bootfsOffset + j * blockLen) := by
  rcases hfile.block hblock (by decide) hend with hsame | ⟨hle, hlt⟩
  · exact hsame.ubiAt
  · have hsame : SameOn file file' (info.bootfsOffset + j * blockLen)
        (info.bootfsOffset + j * blockLen + 4) := hfile.front.mono (Nat.zero_le _) (by omega)
    exact hsame.ubiAt

theorem not_isAllFf_of_ne {pos : Nat} (hlo : pos ≤ entry) (hhi : entry < pos + 256)
    (hin : entry < file.length) (hne : file[entry]? ≠ some 0xff) :
    isAllFf (fread file pos 256) = false := by
  rw [Bool.eq_false_iff]
  intro hall
  rw [isAllFf, all_eq_true] at hall
  have hget : (fread file pos 256)[entry - pos]? = file[entry]? := by
    rw [fread, getElem?_take, if_pos (by omega), getElem?_drop]
    congr 1
    omega
  rw [getElem?_eq_getElem hin] at hne hget
  have hff := hall _ (mem_of_getElem? hget)
  rw [decide_eq_true_eq] at hff
  exact hne (congrArg some hff)

section

variable (hfile : Rewritten file file' entry name)

include hfile

theorem Rewritten.isAllFf_block (hblock : InBlock info entry (40 + name.length))
    (hin : entry < file.length)
    (hne : file[entry]? ≠ some 0xff) {j : Nat}
    (hend : info.bootfsOffset + j * blockLen + 256 ≤ file.length - tailLen) :
    isAllFf (fread file' (info.bootfsOffset + j * blockLen) 256) =
      isAllFf (fread file (info.bootfsOffset + j * blockLen) 256) := by
  rcases hfile.block hblock (le_refl 256) hend with hsame | ⟨hle, hlt⟩
  · rw [hsame.fread]
  · have hne' : file'[entry]? ≠ some 0xff := by
      rw [hfile.front entry (Nat.zero_le _) (by omega)]
      exact hne
    rw [not_isAllFf_of_ne hle hlt hin hne,
      not_isAllFf_of_ne hle hlt (by rw [hfile.length_eq]; exact hin) hne']

/-- The parts of an image stay where they are. -/
theorem Rewritten.parts (h : Accepts file info)
    (hlook : file[entry]? ≠ some 0xff) (hlo : info.bootfsOffset ≤ entry)
    (hhi : entry + 40 + name.length ≤ bootfsEnd info)
    (hblock : InBlock info entry (40 + name.length))
    (hrootfs : info.rootfsOffset + 4 ≤ info.tailOffset) :
    vendorHeader file' = info.cferomOffset ∧ findTail file' = info.tailOffset ∧
      BootfsAt file' info.cferomOffset info.tailOffset info.bootfsOffset ∧
      RootfsAt file' info.bootfsOffset info.tailOffset info.rootfsOffset info.paddingOffset := by
  have hbehind := h.bootfsEnd_le.2
  have htail := (findTail_le h.length_ge).1
  rw [← h.tailOffset_eq] at htail
  have hmagic : LINKSYS_MAGIC.length = 9 := rfl
  have hvendor : vendorTail file' = vendorTail file := by
    refine SameOn.vendorTail hfile.length_eq (hfile.back.mono ?_ ?_)
    · rw [linksysTailLen]
      omega
    · have hlong := h.length_ge
      rw [linksysTailLen, hmagic, tailLen]
      omega
  refine ⟨?_, ?_, ?_, ?_⟩
  · rw [(hfile.front.mono (Nat.le_refl 0) (by omega)).vendorHeader, h.cferomOffset_eq]
  · rw [findTail, hvendor, hfile.length_eq, h.tailOffset_eq]
    rfl
  · obtain ⟨k, hk, hlt, hthis, hbefore⟩ := h.bootfs
    refine ⟨k, hk, hlt, ?_, fun j hj => ?_⟩
    · rw [(hfile.front.mono (Nat.zero_le _) (by omega)).jffs2At, hthis]
    · have hmul := Nat.mul_le_mul_right blockLen hj.le
      rw [(hfile.front.mono (Nat.zero_le _) (by omega)).jffs2At, hbefore j hj]
  · obtain ⟨k, hk, hlt, hthis, hbefore, hpadding⟩ := h.rootfs
    have hbig : 256 ≤ blockLen := by decide
    have hblocks (j : Nat) (hj : j < k) :
        info.bootfsOffset + j * blockLen + 256 ≤ file.length - tailLen := by
      have hmul := Nat.mul_le_mul_right blockLen (succ_le_of_lt hj)
      rw [succ_mul] at hmul
      omega
    refine ⟨k, hk, hlt, ?_, fun j hj => ?_, ?_⟩
    · rw [hk] at hthis hrootfs ⊢
      rw [hfile.ubiAt_block hblock (by omega), hthis]
    · have hle := hblocks j hj
      rw [hfile.ubiAt_block hblock (by omega), hbefore j hj]
    · rw [hpadding]
      exact (paddingFrom_congr fun j hj =>
        hfile.isAllFf_block hblock (by omega) hlook (hblocks j hj)).symm

/-- It is accepted if and only if the checksum in the tail is that of the new content. -/
theorem Rewritten.accepts_iff (h : Accepts file info)
    (hlook : file[entry]? ≠ some 0xff) (hlo : info.bootfsOffset ≤ entry)
    (hhi : entry + 40 + name.length ≤ bootfsEnd info)
    (hblock : InBlock info entry (40 + name.length))
    (hrootfs : info.rootfsOffset + 4 ≤ info.tailOffset) :
    (∃ info', Accepts file' info') ↔ rangeCrc file' info.cferomOffset info.tailOffset =
      ofWord32 false file' info.tailOffset := by
  obtain ⟨hheader, htail, hboot, hroot⟩ := hfile.parts h hlook hlo hhi hblock hrootfs
  have hfour : 4 ≤ tailLen := by decide
  constructor
  · rintro ⟨info', h'⟩
    have hvalid := h'.valid
    rw [h'.crc32_eq, h'.tail_eq, ofWord32_fread false file' _ hfour, h'.cferomOffset_eq,
      h'.tailOffset_eq, hheader, htail] at hvalid
    exact hvalid
  · intro hcrc
    refine ⟨{ info with
      crc32 := rangeCrc file' info.cferomOffset info.tailOffset
      tail := fread file' info.tailOffset tailLen }, ?_⟩
    constructor
    · rw [hfile.length_eq]
      exact h.length_ge
    · exact hheader.symm
    · exact htail.symm
    · exact hboot
    · exact hroot
    · rw [hfile.length_eq]
      exact h.readable
    · dsimp only
    · dsimp only
    · dsimp only
      rw [ofWord32_fread false file' _ hfour]
      exact hcrc

end

end Parser

/-! ## The renamed file -/

section Mv

variable {bigEndian : Bool} {file : List UInt8} {info : Info} {oldname newname : Name}
  {behind : List UInt8} {entry nsize : Nat}

theorem length_nameMem (newname : Name) (behind : List UInt8) (nsize : Nat) :
    (nameMem newname behind nsize).length = nsize := by
  rw [nameMem, length_take]
  simp only [length_append, length_cons, length_replicate]
  omega

/-- The new name ends where it should. -/
theorem nameOf_nameMem (h : newname.bytes.length ≤ nsize) :
    nameOf (nameMem newname behind nsize) = newname := by
  have hbytes : (nameMem newname behind nsize).takeWhile (· ≠ 0) = newname.bytes := by
    rw [nameMem, take_append, take_of_length_le h, takeWhile_append_of_pos]
    · cases nsize - newname.bytes.length with
      | zero => rw [take_zero, takeWhile_nil, append_nil]
      | succ k =>
        rw [take_succ_cons, takeWhile_cons_of_neg (by simp), append_nil]
    · intro b hb
      exact decide_eq_true (newname.nonzero b hb)
  cases newname with
  | mk bytes nonzero =>
    dsimp only at hbytes
    rw [nameOf, Name.mk.injEq]
    exact hbytes

theorem length_writeEntry {name : List UInt8} (h : entry + 40 + name.length ≤ file.length) :
    (writeEntry bigEndian file entry name).length = file.length := by
  have hone : (overwrite file (entry + 36) (word32 bigEndian (crc32Le 0 name))).length =
      file.length := length_overwrite file _ (by omega)
  rw [writeEntry, length_overwrite _ _ (by rw [hone]; omega), hone]

theorem getElem?_writeEntry {name : List UInt8} {i : Nat}
    (h : i < entry + 36 ∨ entry + 40 + name.length ≤ i) :
    (writeEntry bigEndian file entry name)[i]? = file[i]? := by
  rw [writeEntry, getElem?_overwrite, if_neg (by omega), getElem?_overwrite, length_word32,
    if_neg (by omega)]

theorem Accepts.length_tail (h : Accepts file info) : info.tail.length = tailLen := by
  have htail := (findTail_le h.length_ge).1
  rw [h.tail_eq, length_fread, h.tailOffset_eq]
  omega

theorem Accepts.tail_eq_append (h : Accepts file info) :
    le32 info.crc32 ++ info.tail.drop 4 = info.tail := by
  have hlength := h.length_tail
  have hword : word32 false (ofWord32 false info.tail 0) = (info.tail.drop 0).take 4 :=
    word32_ofWord32 false (by rw [hlength]; decide)
  rw [← h.valid, drop_zero] at hword
  have hle : le32 info.crc32 = info.tail.take 4 := hword
  rw [hle, take_append_drop]

def newTail (file : List UInt8) (info : Info) : List UInt8 :=
  le32 (rangeCrc file info.cferomOffset info.tailOffset) ++ info.tail.drop 4

theorem Accepts.length_newTail (h : Accepts file info) (file' : List UInt8) :
    (newTail file' info).length = tailLen := by
  rw [newTail, length_append, length_le32, length_drop, h.length_tail]
  rfl

section Written

variable {file' : List UInt8}

theorem getElem?_writeTail (htail : (newTail file' info).length = tailLen)
    (hlong : tailLen ≤ file'.length) (i : Nat) :
    (writeTail file' info)[i]? = if i < file'.length - tailLen then file'[i]?
      else (newTail file' info)[i - (file'.length - tailLen)]? := by
  have hwrite : writeTail file' info =
      overwrite file' (file'.length - tailLen) (newTail file' info) := rfl
  rw [hwrite, getElem?_overwrite, htail]
  by_cases hlt : i < file'.length - tailLen
  · rw [if_pos hlt, if_neg (by omega)]
  · rw [if_neg hlt]
    by_cases hin : i < file'.length
    · rw [if_pos ⟨by omega, by omega, hin⟩]
    · rw [if_neg (by omega), getElem?_eq_none (by omega),
        getElem?_eq_none (by rw [htail]; omega)]

theorem length_writeTail (hlong : tailLen ≤ file'.length) :
    (writeTail file' info).length = file'.length := by
  rw [writeTail, length_overwrite _ _ (by omega)]

theorem fread_writeTail (htail : (newTail file' info).length = tailLen)
    (hlong : tailLen ≤ file'.length) :
    fread (writeTail file' info) (file'.length - tailLen) tailLen = newTail file' info := by
  apply ext_getElem?
  intro i
  rw [fread, getElem?_take, getElem?_drop]
  split
  · rw [getElem?_writeTail htail hlong, if_neg (by omega), Nat.add_sub_cancel_left]
  · rw [getElem?_eq_none (by rw [htail]; omega)]

end Written

theorem rewritten_mv (h : Accepts file info) {name : List UInt8}
    (hroom : entry + 40 + name.length ≤ file.length - tailLen) :
    Rewritten file (writeTail (writeEntry bigEndian file entry name) info) entry name := by
  have hlength : (writeEntry bigEndian file entry name).length = file.length :=
    length_writeEntry (by omega)
  have hlong : tailLen ≤ (writeEntry bigEndian file entry name).length := by
    have hge := h.length_ge
    rw [hlength, tailLen]
    omega
  have htail := h.length_newTail (writeEntry bigEndian file entry name)
  have hget {i : Nat} (hi : i < file.length - tailLen) :
      (writeTail (writeEntry bigEndian file entry name) info)[i]? =
        (writeEntry bigEndian file entry name)[i]? := by
    rw [getElem?_writeTail htail hlong, hlength, if_pos hi]
  constructor
  · rw [length_writeTail hlong, hlength]
  · intro i _ hi
    rw [hget (by omega), getElem?_writeEntry (.inl hi)]
  · apply ext_getElem?
    intro i
    rw [fread, getElem?_take, getElem?_drop]
    split
    · rw [hget (by omega), writeEntry, getElem?_overwrite, if_pos, Nat.add_sub_cancel_left]
      rw [length_overwrite _ _ (by omega)]
      omega
    · rw [getElem?_eq_none (by omega)]
  · intro i hlo hi
    rw [hget hi, getElem?_writeEntry (.inr hlo)]

theorem found_ret_ne_zero {offset : Nat} {err : Int}
    (h : Ends (mvTurn bigEndian file oldname) offset (.ret err)) : err ≠ 0 := by
  generalize hret : Search.ret err = ret at h
  induction h with
  | @stop offset ret hturn =>
    subst hret
    rw [mvTurn] at hturn
    split at hturn
    · obtain rfl := Search.ret.inj (Sum.inr.inj hturn)
      decide
    · obtain rfl := Search.ret.inj (Sum.inr.inj hturn)
      decide
    · cases hturn
    · split_ifs at hturn
      cases Sum.inr.inj hturn
  | next _ _ ih => exact ih hret

theorem gives_ls_iff {listing : Listing} :
    Gives (bcm4908imgBootfsLs bigEndian file info) listing ↔
      Ends (lsTurn bigEndian file) { offset := info.bootfsOffset, printed := [] } listing :=
  gives_run_iff

theorem gives_mv_iff (hnames : newname.bytes.length = oldname.bytes.length) {mv : Mv} :
    Gives (bcm4908imgBootfsMv bigEndian file info oldname newname behind) mv ↔
      ∃ search, Ends (mvTurn bigEndian file oldname) info.bootfsOffset search ∧
        mvFrom bigEndian file info newname behind search = mv := by
  have hdef : bcm4908imgBootfsMv bigEndian file info oldname newname behind = fun n =>
      (run (mvTurn bigEndian file oldname) n info.bootfsOffset).map
        (mvFrom bigEndian file info newname behind) := by
    funext n
    rw [bcm4908imgBootfsMv, if_neg (not_not.mpr hnames)]
  rw [hdef, gives_map_iff]
  simp only [gives_run_iff]

/-- The file with the name and its checksum in an entry, and a tail. -/
def mvFile (bigEndian : Bool) (file : List UInt8) (info : Info) (newname : Name)
    (behind : List UInt8) (entry nsize : Nat) : List UInt8 :=
  writeTail (writeEntry bigEndian file entry (nameMem newname behind nsize)) info

theorem renamesOrNot_iff (hnames : newname.bytes.length = oldname.bytes.length) :
    RenamesOrNot bigEndian file info oldname newname behind ↔
      ∀ entry nsize, FirstNamed bigEndian file info oldname entry nsize →
        Renamed bigEndian file (mvFile bigEndian file info newname behind entry nsize) info
          oldname newname := by
  constructor
  · intro h entry nsize hfirst
    exact (h _ ((gives_mv_iff hnames).mpr ⟨_, hfirst, rfl⟩)).1 rfl
  · intro h mv hmv
    obtain ⟨search, hsearch, rfl⟩ := (gives_mv_iff hnames).mp hmv
    cases search with
    | ret err => exact ⟨fun hzero => absurd hzero (found_ret_ne_zero hsearch), fun _ => rfl⟩
    | found entry nsize =>
      exact ⟨fun _ => h entry nsize hsearch, fun hne => absurd rfl hne⟩

/-- The tail is at the end of the file; or what is written there is there before, and the checksum
of the renamed image is the one in its tail. -/
def TailKept (bigEndian : Bool) (file : List UInt8) (info : Info) (newname : Name)
    (behind : List UInt8) (entry nsize : Nat) : Prop :=
  vendorTail file = false ∨
    fread file (file.length - tailLen) tailLen = info.tail ∧
      rangeCrc (writeEntry bigEndian file entry (nameMem newname behind nsize))
        info.cferomOffset info.tailOffset = info.crc32

/-- What is known of the first entry with a name, in a sound bootfs. -/
structure Found (bigEndian : Bool) (file : List UInt8) (info : Info) (oldname : Name)
    (entry nsize : Nat) where
  front : List (Nat × List UInt8)
  buf : List UInt8
  rest : List (Nat × List UInt8)
  nodes : Nodes bigEndian file info info.bootfsOffset (front ++ (entry, buf) :: rest)
  first : file[entry]? ≠ some 0xff
  size : buf.length = nsize
  name : nameOf buf = oldname
  others : ∀ e ∈ front, entryName e ≠ oldname
  low : info.bootfsOffset ≤ entry
  high : entry + 40 + nsize ≤ bootfsEnd info
  block : InBlock info entry (40 + nsize)

theorem Sound.found (hsound : Sound bigEndian file info)
    (hfirst : FirstNamed bigEndian file info oldname entry nsize) :
    Nonempty (Found bigEndian file info oldname entry nsize) := by
  obtain ⟨entries, hnodes⟩ := hsound.nodes
  obtain ⟨front, buf, rest, step, rfl, hlook, hsize, hname, hothers⟩ := hnodes.found hfirst
  obtain ⟨hlow, hhigh, hblock⟩ :=
    hnodes.entry_mem (mem_append_right front mem_cons_self)
  dsimp only at hlow hhigh hblock
  rw [hsize] at hhigh hblock
  exact ⟨⟨front, buf, rest, hnodes, lookNode_entry_ne hlook, hsize, hname, hothers, hlow, hhigh,
    hblock⟩⟩

section

variable (found : Found bigEndian file info oldname entry nsize)

include found

theorem Found.room (h : Accepts file info) (newname : Name) (behind : List UInt8) :
    entry + 40 + (nameMem newname behind nsize).length ≤ file.length - tailLen := by
  have hhigh := found.high
  have hbehind := h.bootfsEnd_le.2
  rw [length_nameMem, tailLen]
  omega

theorem Found.rewritten (h : Accepts file info) (newname : Name) (behind : List UInt8) :
    Rewritten file (mvFile bigEndian file info newname behind entry nsize) entry
      (nameMem newname behind nsize) :=
  rewritten_mv h (found.room h newname behind)

theorem Found.listed (h : Accepts file info) (hsound : Sound bigEndian file info)
    (hnames : newname.bytes.length = oldname.bytes.length) {info' : Info}
    (hsame : info'.bootfsOffset = info.bootfsOffset) (listing' : Listing) :
    Gives (bcm4908imgBootfsLs bigEndian
        (mvFile bigEndian file info newname behind entry nsize) info') listing' ↔
      ∃ listing, Gives (bcm4908imgBootfsLs bigEndian file info) listing ∧
        listing' = { listing with printed := listing.printed.replace oldname newname } := by
  have hfile := found.rewritten h newname behind
  have htail := (findTail_le h.length_ge).1
  have hend := h.bootfsEnd_le.1
  have hroot := hsound.rootfs
  rw [← h.tailOffset_eq] at htail
  have hsize : (nameMem newname behind nsize).length = found.buf.length := by
    rw [length_nameMem, found.size]
  have hnew : nameOf (nameMem newname behind nsize) = newname := by
    apply nameOf_nameMem
    rw [hnames, ← found.name]
    exact (List.takeWhile_prefix _).length_le.trans_eq found.size
  have hls := found.nodes.ends_ls []
  have hls' := (found.nodes.rewritten hfile hsize (by omega)).ends_ls []
  have hreplace : (found.front ++ (entry, nameMem newname behind nsize) :: found.rest).map
        entryName =
      ((found.front ++ (entry, found.buf) :: found.rest).map entryName).replace oldname
        newname := by
    have hnone : oldname ∉ found.front.map entryName := by
      intro hmem
      obtain ⟨e, he, hname⟩ := mem_map.mp hmem
      exact found.others e he hname
    rw [map_append, map_append, map_cons, map_cons,
      replace_append_right hnone, entryName, entryName, hnew, found.name,
      replace_cons_self]
  simp only [gives_ls_iff, hsame]
  rw [nil_append] at hls hls'
  constructor
  · intro hends
    refine ⟨_, hls, ?_⟩
    rw [hends.unique hls', hreplace]
  · rintro ⟨listing, hlisting, rfl⟩
    rw [hlisting.unique hls]
    dsimp only
    rw [← hreplace]
    exact hls'

end

theorem getElem?_of_fread {pos n i : Nat} {bytes : List UInt8} (h : fread file pos n = bytes)
    (hlo : pos ≤ i) (hhi : i < pos + n) : file[i]? = bytes[i - pos]? := by
  rw [← h, fread, getElem?_take, if_pos (by omega), getElem?_drop]
  congr 1
  omega

theorem newTail_of_eq (h : Accepts file info) {file' : List UInt8}
    (hcrc : rangeCrc file' info.cferomOffset info.tailOffset = info.crc32) :
    newTail file' info = info.tail := by
  rw [newTail, hcrc, h.tail_eq_append]

section Found

variable (found : Found bigEndian file info oldname entry nsize) (h : Accepts file info)
  (hsound : Sound bigEndian file info)
include found h

theorem Found.fread_tail (newname : Name) (behind : List UInt8) :
    fread (mvFile bigEndian file info newname behind entry nsize) (file.length - tailLen) tailLen =
      newTail (writeEntry bigEndian file entry (nameMem newname behind nsize)) info := by
  have hroom := found.room h newname behind
  have hlong := h.length_ge
  have hlength : (writeEntry bigEndian file entry (nameMem newname behind nsize)).length =
      file.length := length_writeEntry (by omega)
  rw [← hlength]
  exact fread_writeTail (h.length_newTail _) (by rw [hlength, tailLen]; omega)

/-- The checksum is computed in front of the tail. -/
theorem Found.rangeCrc_eq (newname : Name) (behind : List UInt8) :
    rangeCrc (mvFile bigEndian file info newname behind entry nsize) info.cferomOffset
        info.tailOffset =
      rangeCrc (writeEntry bigEndian file entry (nameMem newname behind nsize))
        info.cferomOffset info.tailOffset := by
  have hroom := found.room h newname behind
  have hlong := h.length_ge
  have htail := (findTail_le h.length_ge).1
  rw [← h.tailOffset_eq] at htail
  have hlength : (writeEntry bigEndian file entry (nameMem newname behind nsize)).length =
      file.length := length_writeEntry (by omega)
  have hsame : SameOn (writeEntry bigEndian file entry (nameMem newname behind nsize))
      (mvFile bigEndian file info newname behind entry nsize) info.cferomOffset
      (info.cferomOffset + (info.tailOffset - info.cferomOffset)) := by
    obtain ⟨k, hk, hlt, -⟩ := h.bootfs
    intro i _ hi
    rw [mvFile, getElem?_writeTail (h.length_newTail _) (by rw [hlength, tailLen]; omega),
      if_pos (by omega)]
  rw [rangeCrc, hsame.fread, rangeCrc]

include hsound

theorem Found.accepted_iff (newname : Name) (behind : List UInt8) :
    (∃ info', Gives (bcm4908imgParse
        (mvFile bigEndian file info newname behind entry nsize)) (.ok info')) ↔
      rangeCrc (writeEntry bigEndian file entry (nameMem newname behind nsize))
          info.cferomOffset info.tailOffset =
        ofWord32 false (mvFile bigEndian file info newname behind entry nsize)
          info.tailOffset := by
  have hhigh := found.high
  have hblock := found.block
  rw [← length_nameMem newname behind nsize] at hhigh hblock
  simp only [gives_parse_ok_iff]
  rw [(found.rewritten h newname behind).accepts_iff h found.first found.low hhigh hblock
    hsound.rootfs, found.rangeCrc_eq h]

theorem Found.listed_of_accepted (hnames : newname.bytes.length = oldname.bytes.length)
    {info' : Info}
    (hinfo : Gives (bcm4908imgParse
      (mvFile bigEndian file info newname behind entry nsize)) (.ok info'))
    (listing' : Listing) :
    Gives (bcm4908imgBootfsLs bigEndian
        (mvFile bigEndian file info newname behind entry nsize) info') listing' ↔
      ∃ listing, Gives (bcm4908imgBootfsLs bigEndian file info) listing ∧
        listing' = { listing with printed := listing.printed.replace oldname newname } := by
  have hhigh := found.high
  have hblock := found.block
  rw [← length_nameMem newname behind nsize] at hhigh hblock
  obtain ⟨hheader, htail, hboot, -⟩ := (found.rewritten h newname behind).parts h found.first
    found.low hhigh hblock hsound.rootfs
  have haccepts := gives_parse_ok_iff.mp hinfo
  have hboot' := haccepts.bootfs
  rw [haccepts.cferomOffset_eq, haccepts.tailOffset_eq, hheader, htail] at hboot'
  exact found.listed h hsound hnames (hboot'.unique hboot) listing'

/-- A file is renamed if and only if its new tail is where it should be. -/
theorem Found.renamed_iff (hnames : newname.bytes.length = oldname.bytes.length)
    (hfirst : FirstNamed bigEndian file info oldname entry nsize) :
    Renamed bigEndian file (mvFile bigEndian file info newname behind entry nsize) info
        oldname newname ↔
      TailKept bigEndian file info newname behind entry nsize := by
  have hfile := found.rewritten h newname behind
  have hend := found.fread_tail h newname behind
  have hlong := h.length_ge
  have hhigh := found.high
  have hbehind := h.bootfsEnd_le
  have hroot := hsound.rootfs
  have htail : info.tailOffset = findTail file := h.tailOffset_eq
  have hsize := length_nameMem newname behind nsize
  -- What is written in front of the last bytes.
  have hbefore (i : Nat) (hi : i < entry + 36 ∨ entry + 40 + nsize ≤ i)
      (hlt : i < file.length - tailLen) :
      (mvFile bigEndian file info newname behind entry nsize)[i]? = file[i]? := by
    rcases hi with hi | hi
    · exact hfile.front i (Nat.zero_le _) hi
    · exact hfile.back i (by rw [hsize]; exact hi) hlt
  have hout (i : Nat) (hi : file.length ≤ i) :
      (mvFile bigEndian file info newname behind entry nsize)[i]? = file[i]? := by
    rw [getElem?_eq_none (by rw [hfile.length_eq]; exact hi), getElem?_eq_none hi]
  rw [findTail] at htail
  cases hvendor : vendorTail file with
  | false =>
    rw [hvendor, if_neg Bool.false_ne_true] at htail
    refine iff_of_true ⟨?_, ?_, hfile.length_eq, entry, nsize, hfirst, ?_⟩ (.inl hvendor)
    · rw [found.accepted_iff h hsound, htail, ← ofWord32_fread false _ _ (by decide : 4 ≤ tailLen),
        hend, newTail, ofWord32, drop_zero, htail]
      exact ((ofLe32_take (le_refl 4) _).trans (ofLe32_le32 _ _)).symm
    · exact fun info' hinfo => found.listed_of_accepted h hsound hnames hinfo
    · intro i hi hcrc
      rcases hcrc with hlt | hge
      · exact hbefore i hi (by omega)
      by_cases hin : i < file.length
      · have htail' := h.tail_eq.symm
        have hpos : 4 + (i - (file.length - tailLen) - 4) = i - (file.length - tailLen) := by
          omega
        rw [getElem?_of_fread hend (by omega) (by rw [tailLen] at *; omega),
          getElem?_of_fread htail' (by omega) (by rw [tailLen] at *; omega), newTail,
          getElem?_append_right (by rw [length_le32]; omega), length_le32,
          getElem?_drop, htail, hpos]
      · exact hout i (by omega)
  | true =>
    rw [hvendor, if_pos rfl] at htail
    have hword : ofWord32 false (mvFile bigEndian file info newname behind entry nsize)
        info.tailOffset = info.crc32 := by
      have hsame : SameOn file (mvFile bigEndian file info newname behind entry nsize)
          info.tailOffset (info.tailOffset + 4) :=
        fun i hlo hhi => hbefore i (by omega) (by rw [tailLen, linksysTailLen] at *; omega)
      rw [hsame.ofWord32, h.valid, h.tail_eq, ofWord32_fread false _ _ (by decide)]
    have hcond : TailKept bigEndian file info newname behind entry nsize ↔
        fread file (file.length - tailLen) tailLen = info.tail ∧
          rangeCrc (writeEntry bigEndian file entry (nameMem newname behind nsize))
            info.cferomOffset info.tailOffset = info.crc32 := by
      rw [TailKept, hvendor]
      simp only [Bool.true_eq_false, false_or]
    rw [hcond]
    constructor
    · intro hrenamed
      have hcrc := (found.accepted_iff h hsound newname behind).mp hrenamed.accepted
      rw [hword] at hcrc
      obtain ⟨-, entry', nsize', hfirst', hsame⟩ := hrenamed.unchanged
      obtain ⟨rfl, rfl⟩ := Search.found.inj (hfirst'.unique hfirst)
      refine ⟨?_, hcrc⟩
      rw [newTail_of_eq h hcrc] at hend
      have hkept : SameOn file (mvFile bigEndian file info newname behind entry' nsize')
          (file.length - tailLen) (file.length - tailLen + tailLen) :=
        fun i hlo _ => hsame i (.inr (by rw [tailLen] at *; omega))
          (.inr (by rw [tailLen, linksysTailLen] at *; omega))
      rw [← hkept.fread]
      exact hend
    · rintro ⟨hlast, hcrc⟩
      rw [newTail_of_eq h hcrc] at hend
      refine ⟨?_, ?_, hfile.length_eq, entry, nsize, hfirst, ?_⟩
      · rw [found.accepted_iff h hsound, hcrc, hword]
      · exact fun info' hinfo => found.listed_of_accepted h hsound hnames hinfo
      · intro i hi _
        by_cases hlt : i < file.length - tailLen
        · exact hbefore i hi hlt
        by_cases hin : i < file.length
        · rw [getElem?_of_fread hend (by omega) (by rw [tailLen] at *; omega),
            getElem?_of_fread hlast (by omega) (by rw [tailLen] at *; omega)]
        · exact hout i (by omega)

end Found

/-- When the first entry with the old name is in a sound bootfs, and its new tail is where it
should be, a file is renamed, or nothing is changed; in a sound bootfs only then. -/
theorem mv_iff (hinfo : Gives (bcm4908imgParse file) (.ok info))
    (hnames : newname.bytes.length = oldname.bytes.length) :
    ((∀ entry nsize, FirstNamed bigEndian file info oldname entry nsize →
        Sound bigEndian file info ∧ TailKept bigEndian file info newname behind entry nsize) →
      RenamesOrNot bigEndian file info oldname newname behind) ∧
    (Sound bigEndian file info → (RenamesOrNot bigEndian file info oldname newname behind ↔
      ∀ entry nsize, FirstNamed bigEndian file info oldname entry nsize →
        TailKept bigEndian file info newname behind entry nsize)) := by
  have h := gives_parse_ok_iff.mp hinfo
  rw [renamesOrNot_iff hnames]
  constructor
  · intro hkept entry nsize hfirst
    obtain ⟨hsound, htail⟩ := hkept entry nsize hfirst
    obtain ⟨found⟩ := hsound.found hfirst
    exact (found.renamed_iff h hsound hnames hfirst).mpr htail
  · intro hsound
    constructor
    · intro hrenamed entry nsize hfirst
      obtain ⟨found⟩ := hsound.found hfirst
      exact (found.renamed_iff h hsound hnames hfirst).mp (hrenamed entry nsize hfirst)
    · intro hkept entry nsize hfirst
      obtain ⟨found⟩ := hsound.found hfirst
      exact (found.renamed_iff h hsound hnames hfirst).mpr (hkept entry nsize hfirst)

end Mv

/-! ## An image with a vendor tail, and one without -/

def headSample : List UInt8 :=
  [0x85, 0x19, 0xcf, 0xbe, 12, 0, 0, 0, 0, 0, 0, 0] ++
    [0x85, 0x19, 0x01, 0xe0, 44, 0, 0, 0, 0, 0, 0, 0] ++ replicate 16 0 ++
    [4, 0, 0, 0, 0, 0, 0, 0, 0, 0, 0, 0] ++ [0x61, 0x62, 0x63, 0x64] ++ replicate 12 0xff

def contentSample : List UInt8 := headSample ++ replicate 131004 0xff ++ rootfsSample

def vendorSample : List UInt8 := LINKSYS_MAGIC ++ replicate 247 0

def infoOf (content : List UInt8) : Info where
  cferomOffset := 0
  bootfsOffset := 0
  paddingOffset := 0
  rootfsOffset := blockLen
  tailOffset := content.length
  crc32 := crc32Le 0xffffffff content
  tail := tailBytes (crc32Le 0xffffffff content)

theorem ne_zero_abcd : ∀ b ∈ ([0x61, 0x62, 0x63, 0x64] : List UInt8), b ≠ 0 := by simp

theorem ne_zero_wxyz : ∀ b ∈ ([0x77, 0x78, 0x79, 0x7a] : List UInt8), b ≠ 0 := by simp

def abcd : Name where
  bytes := [0x61, 0x62, 0x63, 0x64]
  nonzero := ne_zero_abcd

def wxyz : Name where
  bytes := [0x77, 0x78, 0x79, 0x7a]
  nonzero := ne_zero_wxyz

section Sample

theorem length_headSample : headSample.length = 68 := by decide

theorem length_frontSample :
    (headSample ++ replicate 131004 0xff).length = blockLen := by
  rw [length_append, length_replicate, length_headSample]
  rfl

theorem length_contentSample : contentSample.length = blockLen + 256 := by
  rw [contentSample, length_append, length_frontSample, length_rootfsSample]

theorem contentSample_parts :
    BootfsAt contentSample 0 contentSample.length 0 ∧
      RootfsAt contentSample 0 contentSample.length blockLen 0 ∧ ¬Vendor contentSample := by
  refine sample_parts length_frontSample ?_
  rw [take_append_of_le_length (by rw [length_headSample]; decide)]
  decide

variable {back : List UInt8}

theorem fread_contentSample {pos n : Nat} (h : pos + n ≤ 68) :
    fread (contentSample ++ back) pos n = fread headSample pos n := by
  rw [contentSample, append_assoc, append_assoc]
  exact drop_append_of_le (by rw [length_headSample]; exact h)

theorem accepts_infoOf {content tail : List UInt8}
    (hboot : BootfsAt content 0 content.length 0)
    (hroot : RootfsAt content 0 content.length blockLen 0) (hvendor : ¬Vendor content)
    (hlength : blockLen + 256 ≤ content.length)
    (htail : tail = tailBytes (crc32Le 0xffffffff content))
    (hfind : findTail (content ++ (tail ++ back)) = content.length) :
    Accepts (content ++ (tail ++ back)) (infoOf content) := by
  have hbig : 1024 ≤ blockLen := by decide
  have hread : blockLen + 4 ≤ content.length :=
    (Nat.add_le_add_left (by decide) blockLen).trans hlength
  have htailLength : tail.length = tailLen := by
    rw [htail, length_tailBytes]
  constructor
  · rw [length_append]
    omega
  · rw [Vendor, not_or] at hvendor
    have hword : ofWord32 true (content ++ (tail ++ back)) 0 = ofWord32 true content 0 :=
      ofWord32_append true (by omega)
    rw [vendorHeader, hword, if_neg hvendor.1]
    rfl
  · exact hfind.symm
  · dsimp only [infoOf]
    exact hboot.append (by omega)
  · dsimp only [infoOf]
    exact hroot.append hread
  · have hroom : blockLen + 256 ≤ (content ++ (tail ++ back)).length := by
      rw [length_append]
      exact hlength.trans (Nat.le_add_right _ _)
    exact .inr hroom
  · dsimp only [infoOf]
    rw [rangeCrc, Nat.sub_zero, drop_append_of_le (by omega), fread, drop_zero,
      take_length]
  · dsimp only [infoOf]
    rw [fread, drop_left, ← htailLength, take_left, htail]
  · dsimp only [infoOf]
    rw [ofWord32_tailBytes]

def tailSample : List UInt8 := tailBytes (crc32Le 0xffffffff contentSample)

theorem length_tailSample : tailSample.length = tailLen := length_tailBytes _

theorem accepts_sample
    (hfind : findTail (contentSample ++ (tailSample ++ back)) = contentSample.length) :
    Accepts (contentSample ++ (tailSample ++ back)) (infoOf contentSample) := by
  obtain ⟨hboot, hroot, hvendor⟩ := contentSample_parts
  exact accepts_infoOf hboot hroot hvendor length_contentSample.ge rfl hfind

theorem lookNode_first : lookNode false (contentSample ++ back) 0 = .other 12 := by
  rw [lookNode_other_iff, fread_contentSample (by decide)]
  decide

theorem lookNode_second :
    lookNode false (contentSample ++ back) 12 = .entry 44 [0x61, 0x62, 0x63, 0x64] := by
  have hsize : nsizeAt (contentSample ++ back) 12 = 4 := by
    rw [← nsize_fread, fread_contentSample (by decide)]
    decide
  rw [lookNode_entry_iff, hsize, fread_contentSample (by decide), fread_contentSample (by decide),
    fread_contentSample (by decide)]
  decide

theorem lookNode_third : lookNode false (contentSample ++ back) 56 = .stop := by
  rw [lookNode_stop_iff, fread_contentSample (by decide)]
  decide

theorem firstNamed_abcd : FirstNamed false (contentSample ++ back) (infoOf contentSample) abcd 12 4 := by
  refine @Ends.next _ _ _ _ 12 _ ?_ (.stop ?_)
  · rw [mvTurn, infoOf, lookNode_first]
  · rw [mvTurn, lookNode_second]
    dsimp only
    rw [if_pos (by decide)]
    rfl

theorem sound_sample : Sound false (contentSample ++ back) (infoOf contentSample) := by
  have hend : bootfsEnd (infoOf contentSample) = blockLen := rfl
  constructor
  · refine ⟨[(12, [0x61, 0x62, 0x63, 0x64])], .other lookNode_first (le_refl 12) ?_
      (.entry lookNode_second (le_refl 44) ?_ ?_ (.stop ?_ lookNode_third))⟩
    · rw [hend]
      decide
    · rw [hend]
      decide
    · exact ⟨0, by decide, by decide⟩
    · rw [hend]
      decide
  · change blockLen + 4 ≤ contentSample.length
    rw [length_contentSample]
    omega

theorem findTail_tailSample :
    findTail (contentSample ++ (tailSample ++ [])) = contentSample.length := by
  rw [append_nil]
  have hlength := length_contentSample
  exact (vendor_append (by omega) contentSample_parts.2.2 _).2

theorem fread_vendorSample : fread (contentSample ++ (tailSample ++ vendorSample))
    ((contentSample ++ (tailSample ++ vendorSample)).length - linksysTailLen) 256 =
      vendorSample := by
  have hlength : vendorSample.length = linksysTailLen := by decide +kernel
  have htail := length_tailSample
  have hpos : (contentSample ++ (tailSample ++ vendorSample)).length - linksysTailLen =
      (contentSample ++ tailSample).length := by
    rw [← append_assoc, length_append, hlength]
    omega
  rw [hpos, ← append_assoc, fread, drop_left]
  exact take_of_length_le (by rw [hlength, linksysTailLen])

theorem vendorTail_vendorSample :
    vendorTail (contentSample ++ (tailSample ++ vendorSample)) = true := by
  have hmagic := congrArg (take LINKSYS_MAGIC.length) fread_vendorSample
  rw [fread, take_take] at hmagic
  rw [vendorTail, decide_eq_true_eq, fread]
  exact hmagic

theorem findTail_vendorSample :
    findTail (contentSample ++ (tailSample ++ vendorSample)) = contentSample.length := by
  have hlength : vendorSample.length = linksysTailLen := by decide +kernel
  have htail := length_tailSample
  rw [findTail, vendorTail_vendorSample, if_pos rfl, length_append, length_append,
    hlength, htail]
  omega

theorem length_wxyz : wxyz.bytes.length = abcd.bytes.length := by decide

theorem getElem?_tailBytes (crc : BitVec 32) : (tailBytes crc)[4]? = some 0x32 := rfl

/-- With a vendor tail, the new tail is not where it should be. -/
theorem mv_fails : ∃ file info oldname newname,
    Gives (bcm4908imgParse file) (.ok info) ∧
      newname.bytes.length = oldname.bytes.length ∧
      ¬RenamesOrNot false file info oldname newname [] := by
  have h := accepts_sample findTail_vendorSample
  refine ⟨contentSample ++ (tailSample ++ vendorSample), (infoOf contentSample), abcd, wxyz,
    gives_parse_ok_iff.mpr h, length_wxyz, ?_⟩
  intro hrename
  obtain ⟨found⟩ := Sound.found sound_sample firstNamed_abcd
  have hrenamed := (renamesOrNot_iff length_wxyz).mp hrename 12 4 firstNamed_abcd
  rcases (found.renamed_iff h sound_sample length_wxyz firstNamed_abcd).mp hrenamed with hnone | hkept
  · rw [vendorTail_vendorSample] at hnone
    cases hnone
  · have hlast := congrArg (fun bytes => bytes[4]?) hkept.1
    have hvendor := congrArg (fun bytes => bytes[240]?) fread_vendorSample
    have hlong := h.length_ge
    have hpos : (contentSample ++ (tailSample ++ vendorSample)).length - tailLen + 4 =
        (contentSample ++ (tailSample ++ vendorSample)).length - linksysTailLen + 240 := by
      rw [tailLen, linksysTailLen]
      omega
    simp only [fread, getElem?_take, getElem?_drop] at hlast hvendor
    rw [if_pos (by decide), hpos] at hlast
    rw [if_pos (by decide), hlast] at hvendor
    have hmagic : (infoOf contentSample).tail[4]? = some 0x32 := getElem?_tailBytes _
    rw [hmagic] at hvendor
    exact absurd hvendor (by decide +kernel)

/-- Without one, it is. -/
theorem mv_iff_sample :
    RenamesOrNot false (contentSample ++ (tailSample ++ [])) (infoOf contentSample) abcd wxyz [] := by
  have hvendor : vendorTail (contentSample ++ (tailSample ++ [])) = false := by
    have htail := findTail_tailSample
    have hlength := length_tailSample
    cases hcase : vendorTail (contentSample ++ (tailSample ++ [])) with
    | false => rfl
    | true =>
      rw [findTail, hcase, if_pos rfl, append_nil, length_append, hlength] at htail
      have hlong := length_contentSample
      rw [tailLen, linksysTailLen] at htail
      omega
  exact (mv_iff (gives_parse_ok_iff.mpr (accepts_sample findTail_tailSample)) length_wxyz).1
    fun entry nsize _ => ⟨sound_sample, .inl hvendor⟩

end Sample

end LibWrt.Bcm4908img
