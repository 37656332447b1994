/-
LibWrt.Bcm4908img.Contained — where the loops over a bootfs go.

Both loops go from node to node by the lengths that the nodes have, and look at
nothing but the magic to see whether there is another one. A length of zero, or
one that the rounding takes to zero, leads back to the same node; a length that
is too large leads out of the bootfs, to what looks like a node there.
-/
import LibWrt.Bcm4908img.Rename
import LibWrt.Lib.Walk

namespace LibWrt.Bcm4908img

open List
open LibWrt.Bytes
open LibWrt.Loop LibWrt.Walk

section Contained

variable (bigEndian : Bool) (file : List UInt8)

def IsNode (offset : Nat) : Prop :=
  (fread file offset 12).length = 12 ∧ ofHalf bigEndian (fread file offset 12) = 0x1985

def totlenAt (offset : Nat) : BitVec 32 := ofWord32 bigEndian (fread file offset 12) 4

def nextOffset (offset : Nat) : Nat := offset + nodeStep (totlenAt bigEndian file offset)

/-- There is a node at an offset, and all that is read of it is there. -/
def GoesOn (offset : Nat) : Prop :=
  lookNode bigEndian file offset ≠ .short ∧ lookNode bigEndian file offset ≠ .stop

structure Contained (info : Info) : Prop where
  ls_ends : ∃ listing, Gives (bcm4908imgBootfsLs bigEndian file info) listing
  ls_inside : ∀ c, Leads (lsTurn bigEndian file) ⟨info.bootfsOffset, []⟩ c →
    IsNode bigEndian file c.offset → info.bootfsOffset ≤ c.offset ∧ c.offset < bootfsEnd info
  mv_ends : ∀ oldname newname behind,
    ∃ mv, Gives (bcm4908imgBootfsMv bigEndian file info oldname newname behind) mv
  mv_inside : ∀ oldname offset, Leads (mvTurn bigEndian file oldname) info.bootfsOffset offset →
    IsNode bigEndian file offset → info.bootfsOffset ≤ offset ∧ offset < bootfsEnd info

/-- No length in the bootfs is rounded to zero, and none leads to a node outside. -/
def LengthsOk (info : Info) : Prop :=
  ∀ i, Visits (nextOffset bigEndian file) (GoesOn bigEndian file) info.bootfsOffset (i + 1) →
    place (nextOffset bigEndian file) info.bootfsOffset i < bootfsEnd info →
    let offset := place (nextOffset bigEndian file) info.bootfsOffset i
    (totlenAt bigEndian file offset ≠ 0 ∧ (totlenAt bigEndian file offset).toNat < 2 ^ 32 - 3) ∧
      (IsNode bigEndian file (nextOffset bigEndian file offset) →
        nextOffset bigEndian file offset < bootfsEnd info)

end Contained

variable {bigEndian : Bool} {file : List UInt8} {info : Info} {offset : Nat}

/-! ## One turn -/

theorem nodeStep_eq_zero_iff (totlen : BitVec 32) :
    nodeStep totlen = 0 ↔ ¬(totlen ≠ 0 ∧ totlen.toNat < 2 ^ 32 - 3) := by
  have hlt := totlen.isLt
  have hzero : totlen = 0 ↔ totlen.toNat = 0 := by
    rw [BitVec.toNat_eq]
    rfl
  rw [nodeStep, Ne, hzero]
  omega

theorem GoesOn.isNode (h : GoesOn bigEndian file offset) : IsNode bigEndian file offset := by
  obtain ⟨hshort, hstop⟩ := h
  rw [lookNode_eq] at hshort hstop
  by_cases hlength : (fread file offset 12).length ≠ 12
  · exact absurd (if_pos hlength) hshort
  · rw [if_neg hlength] at hstop
    refine ⟨not_not.mp hlength, ?_⟩
    by_contra hmagic
    exact hstop (if_pos hmagic)

/-- What a node leads to, in either loop. -/
theorem goesOn_cases (h : GoesOn bigEndian file offset) :
    lookNode bigEndian file offset = .other (nodeStep (totlenAt bigEndian file offset)) ∨
      ∃ name, lookNode bigEndian file offset =
        .entry (nodeStep (totlenAt bigEndian file offset)) name := by
  cases hlook : lookNode bigEndian file offset with
  | short => exact absurd hlook h.1
  | stop => exact absurd hlook h.2
  | other step =>
    obtain ⟨-, -, hstep, -⟩ := lookNode_other_iff.mp hlook
    rw [totlenAt, hstep]
    exact .inl rfl
  | entry step name =>
    obtain ⟨-, -, hstep, -⟩ := lookNode_entry_iff.mp hlook
    rw [totlenAt, hstep]
    exact .inr ⟨name, rfl⟩

theorem follows_ls : Follows (lsTurn bigEndian file) LsCursor.offset (nextOffset bigEndian file)
    (GoesOn bigEndian file) := by
  intro c c' hturn
  have hgo : GoesOn bigEndian file c.offset := by
    constructor
    · intro hlook
      rw [lsTurn, hlook] at hturn
      cases hturn
    · intro hlook
      rw [lsTurn, hlook] at hturn
      cases hturn
  refine ⟨hgo, ?_⟩
  rcases goesOn_cases hgo with hlook | ⟨name, hlook⟩
  · rw [lsTurn, hlook] at hturn
    obtain rfl := Sum.inl.inj hturn
    rfl
  · rw [lsTurn, hlook] at hturn
    obtain rfl := Sum.inl.inj hturn
    rfl

/-- The list goes on from every node. -/
theorem ls_goes (c : LsCursor) (h : GoesOn bigEndian file c.offset) :
    ∃ c', lsTurn bigEndian file c = .inl c' := by
  rcases goesOn_cases h with hlook | ⟨name, hlook⟩
  · exact ⟨_, by rw [lsTurn, hlook]⟩
  · exact ⟨_, by rw [lsTurn, hlook]⟩

theorem follows_mv (oldname : Name) : Follows (mvTurn bigEndian file oldname) id
    (nextOffset bigEndian file) (GoesOn bigEndian file) := by
  intro offset offset' hturn
  have hgo : GoesOn bigEndian file offset := by
    constructor
    · intro hlook
      rw [mvTurn, hlook] at hturn
      cases hturn
    · intro hlook
      rw [mvTurn, hlook] at hturn
      cases hturn
  refine ⟨hgo, ?_⟩
  rcases goesOn_cases hgo with hlook | ⟨name, hlook⟩
  · rw [mvTurn, hlook] at hturn
    exact (Sum.inl.inj hturn).symm
  · rw [mvTurn, hlook] at hturn
    dsimp only at hturn
    split_ifs at hturn
    exact (Sum.inl.inj hturn).symm

/-- There are only so many offsets to go on from. -/
instance : Finite {offset // GoesOn bigEndian file offset} := by
  refine Finite.of_injective (fun offset => (⟨offset.1, ?_⟩ : Fin file.length)) ?_
  · have hlength := offset.2.isNode.1
    rw [length_fread] at hlength
    omega
  · intro a b hab
    exact Subtype.ext (Fin.mk.inj hab)

/-! ## All turns -/

theorem bootfsOffset_lt (h : Accepts file info) : info.bootfsOffset < bootfsEnd info := by
  obtain ⟨k, -, -, hjffs2, -⟩ := h.bootfs
  obtain ⟨hlt, -, hpadding⟩ := order_of_rootfsAt hjffs2 h.rootfs
  have hpos : 0 < blockLen := by decide
  rw [bootfsEnd]
  split_ifs with hzero
  · exact (hpadding hzero).1
  · omega

section Turns

variable (hinfo : Accepts file info) (h : LengthsOk bigEndian file info)

include hinfo h

theorem LengthsOk.inside {n : Nat}
    (hvisits : Visits (nextOffset bigEndian file) (GoesOn bigEndian file) info.bootfsOffset n)
    (hnode : IsNode bigEndian file (place (nextOffset bigEndian file) info.bootfsOffset n)) :
    place (nextOffset bigEndian file) info.bootfsOffset n < bootfsEnd info := by
  induction n with
  | zero => exact bootfsOffset_lt hinfo
  | succ n ih =>
    have hthis := ih (hvisits.mono n.le_succ) (hvisits n n.lt_succ_self).isNode
    exact (h n hvisits hthis).2 hnode

/-- The offsets become larger. -/
theorem LengthsOk.lt {i j : Nat} (hij : i < j)
    (hvisits : Visits (nextOffset bigEndian file) (GoesOn bigEndian file) info.bootfsOffset j) :
    place (nextOffset bigEndian file) info.bootfsOffset i <
      place (nextOffset bigEndian file) info.bootfsOffset j := by
  induction j with
  | zero => exact absurd hij i.not_lt_zero
  | succ j ih =>
    have hin := h.inside hinfo (hvisits.mono j.le_succ) (hvisits j j.lt_succ_self).isNode
    have hstep := (nodeStep_eq_zero_iff _).not.mpr (not_not.mpr (h j hvisits hin).1)
    have hlt : place (nextOffset bigEndian file) info.bootfsOffset j <
        place (nextOffset bigEndian file) info.bootfsOffset (j + 1) :=
      Nat.lt_add_of_pos_right (Nat.pos_of_ne_zero hstep)
    rcases Nat.lt_succ_iff_lt_or_eq.mp hij with hij | rfl
    · exact (ih hij (hvisits.mono j.le_succ)).trans hlt
    · exact hlt

theorem LengthsOk.exists_stopsAt : ∃ n,
    StopsAt (nextOffset bigEndian file) (GoesOn bigEndian file) info.bootfsOffset n :=
  exists_stopsAt_iff.mpr fun j hvisits _ hij heq =>
    absurd heq (h.lt hinfo hij (hvisits.mono j.le_succ)).ne

/-- A loop along the nodes sees nodes only in the bootfs. -/
theorem LengthsOk.leads {σ ρ : Type} {turn : σ → σ ⊕ ρ} {pos : σ → Nat} {s s' : σ}
    (hturn : Follows turn pos (nextOffset bigEndian file) (GoesOn bigEndian file))
    (hs : pos s = info.bootfsOffset) (hleads : Leads turn s s')
    (hnode : IsNode bigEndian file (pos s')) :
    info.bootfsOffset ≤ pos s' ∧ pos s' < bootfsEnd info := by
  obtain ⟨i, hvisits, hpos⟩ := hturn.leads hleads
  rw [hs] at hvisits hpos
  rw [hpos] at hnode ⊢
  refine ⟨?_, h.inside hinfo hvisits hnode⟩
  rcases Nat.eq_zero_or_pos i with rfl | hi
  · exact le_refl _
  · exact (h.lt hinfo hi hvisits).le

theorem LengthsOk.contained : Contained bigEndian file info := by
  obtain ⟨n, hstop⟩ := h.exists_stopsAt hinfo
  constructor
  · obtain ⟨listing, hends⟩ := follows_ls.exists_ends (s := ⟨info.bootfsOffset, []⟩) hstop
    exact ⟨listing, gives_ls_iff.mpr hends⟩
  · exact fun c hleads => h.leads hinfo follows_ls rfl hleads
  · intro oldname newname behind
    by_cases hnames : newname.bytes.length = oldname.bytes.length
    · obtain ⟨search, hends⟩ := (follows_mv oldname).exists_ends (s := info.bootfsOffset) hstop
      exact ⟨_, (gives_mv_iff hnames).mpr ⟨search, hends, rfl⟩⟩
    · exact ⟨{ ret := -EINVAL, file := file }, 0, if_pos hnames⟩
  · exact fun oldname offset hleads => h.leads hinfo (follows_mv oldname) rfl hleads

end Turns

theorem Contained.lengthsOk (h : Contained bigEndian file info) :
    LengthsOk bigEndian file info := by
  intro i hvisits hlt
  constructor
  · by_contra hbad
    have hstep := (nodeStep_eq_zero_iff _).mpr hbad
    obtain ⟨listing, hends⟩ := h.ls_ends
    obtain ⟨n, hstop⟩ := follows_ls.exists_stopsAt ls_goes (gives_ls_iff.mp hends)
    have hsame : place (nextOffset bigEndian file) info.bootfsOffset i =
        place (nextOffset bigEndian file) info.bootfsOffset (i + 1) := by
      rw [place, nextOffset, hstep, Nat.add_zero]
    have hgo := hvisits i i.lt_succ_self
    rw [hsame] at hgo
    exact exists_stopsAt_iff.mp ⟨n, hstop⟩ (i + 1) (hvisits.succ hgo) i i.lt_succ_self hsame
  · intro hnode
    obtain ⟨c, hleads, hpos⟩ :=
      follows_ls.exists_leads (s := ⟨info.bootfsOffset, []⟩) ls_goes hvisits
    have hnext : c.offset = nextOffset bigEndian file
      (place (nextOffset bigEndian file) info.bootfsOffset i) := hpos
    rw [← hnext] at hnode ⊢
    exact (h.ls_inside c hleads hnode).2

/-- The loops over the nodes of an image that the parser accepts come to an end, and see nodes
only in the bootfs, if and only if no length there is rounded to zero or leads to a node
outside. -/
theorem contained_iff (hinfo : Gives (bcm4908imgParse file) (.ok info)) :
    Contained bigEndian file info ↔ LengthsOk bigEndian file info :=
  ⟨Contained.lengthsOk, fun h => h.contained (gives_parse_ok_iff.mp hinfo)⟩

theorem contained_iff_sample :
    Contained false (contentSample ++ (tailSample ++ [])) (infoOf contentSample) ↔
      LengthsOk false (contentSample ++ (tailSample ++ [])) (infoOf contentSample) :=
  contained_iff (gives_parse_ok_iff.mpr (accepts_sample findTail_tailSample))

/-! ## A node of no length -/

def endlessFront : List UInt8 := [0x85, 0x19, 0xcf, 0xbe] ++ replicate 131068 0

theorem length_endlessFront : endlessFront.length = blockLen := by
  rw [endlessFront, length_append, length_replicate]
  rfl

theorem fread_endless (rest : List UInt8) :
    fread (endlessFront ++ rest) 0 12 = [0x85, 0x19, 0xcf, 0xbe, 0, 0, 0, 0, 0, 0, 0, 0] := rfl

theorem lookNode_endless (rest : List UInt8) :
    lookNode false (endlessFront ++ rest) 0 = .other 0 := by
  rw [lookNode_other_iff, fread_endless]
  decide

/-- The first node leads to itself. -/
theorem not_contained_endless : ∃ file info,
    Gives (bcm4908imgParse file) (.ok info) ∧ ¬Contained false file info := by
  obtain ⟨hboot, hroot, hvendor⟩ := sample_parts length_endlessFront rfl
  have hlength : (endlessFront ++ rootfsSample).length = blockLen + 256 := by
    rw [length_append, length_endlessFront, length_rootfsSample]
  have hfind := (vendor_append (by omega) hvendor
    (Crc32.crc32Le 0xffffffff (endlessFront ++ rootfsSample))).2
  rw [← append_nil (tailBytes _)] at hfind
  have haccepts := accepts_infoOf hboot hroot hvendor hlength.ge rfl hfind
  refine ⟨_, _, gives_parse_ok_iff.mpr haccepts, fun h => ?_⟩
  rw [append_assoc] at h
  refine (h.lengthsOk 0 (fun i hi => ?_) (by decide)).1.1 ?_
  · obtain rfl := Nat.lt_one_iff.mp hi
    rw [place, infoOf, GoesOn, lookNode_endless]
    decide
  · rw [place, infoOf, totlenAt, fread_endless]
    decide

end LibWrt.Bcm4908img
