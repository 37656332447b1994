/-
LibWrt.Mtd.Jffs2Scan — reading the nodes of a block of a jffs2.

`mtd_parse_jffs2data` goes from node to node by their lengths, as far as the
magic is right, and takes note of the directory entries it meets. Nothing is
checked: the length may lead back, a node may stand across the end of the
block, and a name is compared no further than it goes. When the block is read
as it should be is `parse_iff`.
-/
import LibWrt.Lib.Bytes
import LibWrt.Lib.Walk

namespace LibWrt.Mtd.Jffs2

open List Option
open LibWrt.Bytes LibWrt.Loop LibWrt.Walk

/-! ## The code -/

/-- `target_ino`, `last_ino` and `last_version` -/
structure Scan where
  targetIno : BitVec 32
  lastIno : BitVec 32
  lastVersion : BitVec 32
  deriving DecidableEq

/-- `PAD` -/
def pad (x : BitVec 32) : BitVec 32 := (x + 3) &&& ~~~3

def readHalf (bigEndian : Bool) (block : List UInt8) (pos : Nat) : Option Nat :=
  if pos + 2 ≤ block.length then some (ofHalf bigEndian (block.drop pos)) else none

def readWord (bigEndian : Bool) (block : List UInt8) (pos : Nat) : Option (BitVec 32) :=
  if pos + 4 ≤ block.length then some (ofWord32 bigEndian block pos) else none

/-- `!strncmp(name, dir, n)`, where the string `dir` ends with a zero -/
def sameName (block : List UInt8) : Nat → List UInt8 → Nat → Option Bool
  | _, _, 0 => some true
  | pos, dir, n + 1 =>
    match block[pos]?, dir with
    | none, _ => none
    | some c, [] => some (c == 0)
    | some c, d :: dir => if c = d then sameName block (pos + 1) dir n else some false

def nodetypeDirent : Nat := 0xe001

section Code

variable (bigEndian : Bool) (block dir : List UInt8)

def isTarget (node : Nat) : Option Bool :=
  if dir.isEmpty then some false
  else
    (readWord bigEndian block (node + 12)).bind fun pino =>
      if pino = 1 then
        block[node + 28]?.bind fun nsize => sameName block (node + 40) dir nsize.toNat
      else some false

def seeDirent (node : Nat) (s : Scan) : Option Scan :=
  (isTarget bigEndian block dir node).bind fun target =>
    (readWord bigEndian block (node + 20)).bind fun ino =>
      (readWord bigEndian block (node + 16)).map fun version =>
        { targetIno := if target then ino else s.targetIno
          lastIno := if s.lastIno < ino then ino else s.lastIno
          lastVersion := if s.lastVersion < version then version else s.lastVersion }

/-- A turn of `mtd_parse_jffs2data`; the result is none where something is read outside the block. -/
def turn : BitVec 32 × Scan → (BitVec 32 × Scan) ⊕ Option Scan
  | (ofs, s) =>
    if ofs.toNat < block.length then
      match readHalf bigEndian block ofs.toNat with
      | none => .inr none
      | some magic =>
        if magic ≠ 0x1985 then .inr (some s)
        else
          match readWord bigEndian block (ofs.toNat + 4),
            readHalf bigEndian block (ofs.toNat + 2) with
          | some totlen, some nodetype =>
            if nodetype = nodetypeDirent then
              match seeDirent bigEndian block dir ofs.toNat s with
              | none => .inr none
              | some s => .inl (ofs + pad totlen, s)
            else .inl (ofs + pad totlen, s)
          | _, _ => .inr none
    else .inr (some s)

end Code

/-! ## The nodes of a block -/

structure Dirent where
  pino : BitVec 32
  ino : BitVec 32
  version : BitVec 32
  name : List UInt8

section Nodes

variable (bigEndian : Bool) (block dir : List UInt8)

def next (ofs : BitVec 32) : BitVec 32 := ofs + pad (ofWord32 bigEndian block (ofs.toNat + 4))

def IsNode (ofs : BitVec 32) : Prop :=
  ofs.toNat < block.length ∧ ofHalf bigEndian (block.drop ofs.toNat) = 0x1985

def direntAt (ofs : BitVec 32) : Option Dirent :=
  if ofHalf bigEndian (block.drop (ofs.toNat + 2)) = nodetypeDirent then
    some
      { pino := ofWord32 bigEndian block (ofs.toNat + 12)
        ino := ofWord32 bigEndian block (ofs.toNat + 20)
        version := ofWord32 bigEndian block (ofs.toNat + 16)
        name := (block.drop (ofs.toNat + 40)).take (block.getD (ofs.toNat + 28) 0).toNat }
  else none

def dirents (n : Nat) : List Dirent :=
  (List.range n).filterMap fun i => direntAt bigEndian block (place (next bigEndian block) 0 i)

/-- The nodes of the block are the first `n` ones. -/
def Nodes (n : Nat) : Prop := StopsAt (next bigEndian block) (IsNode bigEndian block) 0 n

end Nodes

/-- The name under the root is exactly the one that is looked for. -/
def Exact (dir : List UInt8) (d : Dirent) : Prop := d.pino = 1 ∧ d.name = dir

/-- The name is the start of the one that is looked for, or goes on behind a zero. -/
def Agrees (dir : List UInt8) (d : Dirent) : Prop :=
  dir ≠ [] ∧ d.pino = 1 ∧ (d.name <+: dir ∨ dir ++ [0] <+: d.name)

instance (dir : List UInt8) : DecidablePred (Exact dir) :=
  fun d => inferInstanceAs (Decidable (d.pino = 1 ∧ d.name = dir))

instance (dir : List UInt8) : DecidablePred (Agrees dir) :=
  fun d => inferInstanceAs
    (Decidable (dir ≠ [] ∧ d.pino = 1 ∧ (d.name <+: dir ∨ dir ++ [0] <+: d.name)))

/-- The inode of the last of the entries with a property, or the one before. -/
def lastIno (p : Dirent → Prop) [DecidablePred p] (entries : List Dirent) (ino : BitVec 32) :
    BitVec 32 :=
  ((entries.filter p).getLast?.map Dirent.ino).getD ino

def Greatest (number : Dirent → BitVec 32) (entries : List Dirent) (before after : BitVec 32) :
    Prop :=
  before ≤ after ∧ (∀ d ∈ entries, number d ≤ after) ∧
    (after = before ∨ ∃ d ∈ entries, after = number d)

/-- The block is read to the end of its nodes, only inside, and its entries are noted. -/
def Parses (bigEndian : Bool) (block dir : List UInt8) (s : Scan) : Prop :=
  ∃ n s', Nodes bigEndian block n ∧ Ends (turn bigEndian block dir) (0, s) (some s') ∧
    s'.targetIno = lastIno (Exact dir) (dirents bigEndian block n) s.targetIno ∧
    Greatest Dirent.ino (dirents bigEndian block n) s.lastIno s'.lastIno ∧
    Greatest Dirent.version (dirents bigEndian block n) s.lastVersion s'.lastVersion

/-! ## Where it goes wrong -/

section Conditions

variable (bigEndian : Bool) (block dir : List UInt8)

structure ReadsInside (ofs : BitVec 32) : Prop where
  magic : ofs.toNat < block.length → ofs.toNat + 2 ≤ block.length
  header : IsNode bigEndian block ofs → ofs.toNat + 8 ≤ block.length
  dirent : IsNode bigEndian block ofs → ∀ d, direntAt bigEndian block ofs = some d →
    ofs.toNat + 24 ≤ block.length ∧
      (dir ≠ [] → d.pino = 1 → ofs.toNat + 29 ≤ block.length ∧
        (sameName block (ofs.toNat + 40) dir (block.getD (ofs.toNat + 28) 0).toNat).isSome)

def AllInside : Prop :=
  ∀ i, Visits (next bigEndian block) (IsNode bigEndian block) 0 i →
    ReadsInside bigEndian block dir (place (next bigEndian block) 0 i)

end Conditions

variable {bigEndian : Bool} {block dir : List UInt8}

/-! ## Names -/

theorem sameName_eq {pos n : Nat} {dir : List UInt8} {same : Bool}
    (h : sameName block pos dir n = some same) :
    same = true ↔ ((block.drop pos).take n <+: dir ∨ dir ++ [0] <+: (block.drop pos).take n) := by
  induction n generalizing pos dir with
  | zero =>
    rw [sameName] at h
    obtain rfl := some.inj h
    simp
  | succ n ih =>
    cases hc : block[pos]? with
    | none =>
      unfold sameName at h
      rw [hc] at h
      cases h
    | some c =>
      obtain ⟨hlt, hget⟩ := List.getElem?_eq_some_iff.mp hc
      have hdrop : (block.drop pos).take (n + 1) = c :: (block.drop (pos + 1)).take n := by
        rw [drop_eq_getElem_cons hlt, take_succ_cons, hget]
      rw [hdrop]
      cases dir with
      | nil =>
        unfold sameName at h
        rw [hc] at h
        obtain rfl := some.inj h
        simp only [beq_iff_eq, prefix_nil, reduceCtorEq, false_or, nil_append,
          cons_prefix_cons, nil_prefix, and_true]
        exact eq_comm
      | cons d dir =>
        unfold sameName at h
        rw [hc] at h
        dsimp only at h
        split_ifs at h with heq
        · subst heq
          rw [ih h]
          simp
        · obtain rfl := some.inj h
          simp [heq, Ne.symm heq]

/-! ## One node -/

def Scan.see (dir : List UInt8) (s : Scan) (d : Dirent) : Scan where
  targetIno := if Agrees dir d then d.ino else s.targetIno
  lastIno := if s.lastIno < d.ino then d.ino else s.lastIno
  lastVersion := if s.lastVersion < d.version then d.version else s.lastVersion

variable {ofs : BitVec 32} {s : Scan}

theorem isTarget_eq {d : Dirent} (hd : direntAt bigEndian block ofs = some d)
    (hin : ofs.toNat + 24 ≤ block.length)
    (hname : dir ≠ [] → d.pino = 1 → ofs.toNat + 29 ≤ block.length ∧
      (sameName block (ofs.toNat + 40) dir (block.getD (ofs.toNat + 28) 0).toNat).isSome) :
    isTarget bigEndian block dir ofs.toNat = some (decide (Agrees dir d)) := by
  unfold direntAt at hd
  split_ifs at hd
  obtain rfl := some.inj hd
  unfold isTarget
  cases hdir : dir with
  | nil => simp [Agrees]
  | cons c rest =>
    rw [← hdir]
    have hne : dir ≠ [] := by simp [hdir]
    have hempty : dir.isEmpty = false := by simp [hdir]
    rw [hempty, if_neg Bool.false_ne_true, readWord, if_pos (by omega), bind_some]
    split_ifs with hpino
    · obtain ⟨hlen, hsome⟩ := hname hne hpino
      obtain ⟨same, hsame⟩ := isSome_iff_exists.mp hsome
      have hget : block[ofs.toNat + 28]? = some (block.getD (ofs.toNat + 28) 0) := by
        rw [getD_eq_getElem?_getD, getElem?_eq_getElem (by omega), getD_some]
      rw [hget, bind_some, hsame]
      have hiff := sameName_eq hsame
      congr 1
      rw [Bool.eq_iff_iff, hiff, decide_eq_true_iff]
      exact ⟨fun h => ⟨hne, hpino, h⟩, fun h => h.2.2⟩
    · rw [eq_comm, some_inj, decide_eq_false_iff_not]
      exact fun h => hpino h.2.1

theorem isTarget_inside {d : Dirent} {target : Bool} (hd : direntAt bigEndian block ofs = some d)
    (h : isTarget bigEndian block dir ofs.toNat = some target) (hne : dir ≠ []) (hpino : d.pino = 1) :
    ofs.toNat + 29 ≤ block.length ∧
      (sameName block (ofs.toNat + 40) dir (block.getD (ofs.toNat + 28) 0).toNat).isSome := by
  unfold direntAt at hd
  split_ifs at hd
  obtain rfl := some.inj hd
  have hempty : dir.isEmpty = false := by simpa using hne
  unfold isTarget readWord at h
  rw [hempty, if_neg Bool.false_ne_true] at h
  obtain ⟨pino, hread, h⟩ := bind_eq_some_iff.mp h
  split_ifs at hread
  obtain rfl := some.inj hread
  dsimp only at hpino
  rw [if_pos hpino] at h
  obtain ⟨nsize, hget, h⟩ := bind_eq_some_iff.mp h
  obtain ⟨hlt, -⟩ := List.getElem?_eq_some_iff.mp hget
  refine ⟨by omega, ?_⟩
  rw [getD_eq_getElem?_getD, hget, getD_some, h]
  rfl

/-- The next node, and what is noted of this one. -/
theorem turn_node (hnode : IsNode bigEndian block ofs) (hin : ReadsInside bigEndian block dir ofs) :
    turn bigEndian block dir (ofs, s) =
      .inl (next bigEndian block ofs, (direntAt bigEndian block ofs).elim s (s.see dir)) := by
  have hheader := hin.header hnode
  unfold turn
  dsimp only
  rw [if_pos hnode.1, readHalf, if_pos (by omega)]
  dsimp only
  rw [hnode.2, if_neg (by decide), readWord, if_pos (by omega), readHalf, if_pos (by omega)]
  dsimp only
  cases hd : direntAt bigEndian block ofs with
  | none =>
    unfold direntAt at hd
    split_ifs at hd with htype
    rw [if_neg htype]
    rfl
  | some d =>
    obtain ⟨hlen, hname⟩ := hin.dirent hnode d hd
    have htarget := isTarget_eq hd hlen hname
    unfold direntAt at hd
    split_ifs at hd with htype
    obtain rfl := some.inj hd
    have hino : readWord bigEndian block (ofs.toNat + 20) =
        some (ofWord32 bigEndian block (ofs.toNat + 20)) := if_pos hlen
    have hversion : readWord bigEndian block (ofs.toNat + 16) =
        some (ofWord32 bigEndian block (ofs.toNat + 16)) := if_pos (by omega)
    rw [if_pos htype, seeDirent, htarget, bind_some, hino, bind_some, hversion]
    simp only [map_some, decide_eq_true_eq, elim_some, Scan.see, next]

theorem turn_end (hnode : ¬ IsNode bigEndian block ofs) (hin : ReadsInside bigEndian block dir ofs) :
    turn bigEndian block dir (ofs, s) = .inr (some s) := by
  unfold turn
  dsimp only
  split_ifs with hlt
  · have hmagic := hin.magic hlt
    rw [readHalf, if_pos hmagic]
    exact if_pos fun h => hnode ⟨hlt, h⟩
  · rfl

theorem turn_inside (h : turn bigEndian block dir (ofs, s) ≠ .inr none) :
    ReadsInside bigEndian block dir ofs := by
  unfold turn at h
  dsimp only at h
  constructor
  · intro hlt
    by_contra hout
    rw [if_pos hlt, readHalf, if_neg hout] at h
    exact h rfl
  · intro hnode
    have hmagic : ofs.toNat + 2 ≤ block.length := by
      by_contra hout
      rw [if_pos hnode.1, readHalf, if_neg hout] at h
      exact h rfl
    rw [if_pos hnode.1, readHalf, if_pos hmagic] at h
    dsimp only at h
    rw [hnode.2, if_neg (by decide)] at h
    by_contra hout
    rw [readWord, if_neg (by omega)] at h
    exact h rfl
  · intro hnode d hd
    have hmagic : ofs.toNat + 2 ≤ block.length := by
      by_contra hout
      rw [if_pos hnode.1, readHalf, if_neg hout] at h
      exact h rfl
    rw [if_pos hnode.1, readHalf, if_pos hmagic] at h
    dsimp only at h
    rw [hnode.2, if_neg (by decide)] at h
    have hheader : ofs.toNat + 8 ≤ block.length := by
      by_contra hout
      rw [readWord, if_neg (by omega)] at h
      exact h rfl
    rw [readWord, if_pos (by omega), readHalf, if_pos (by omega)] at h
    dsimp only at h
    have htype : ofHalf bigEndian (block.drop (ofs.toNat + 2)) = nodetypeDirent := by
      unfold direntAt at hd
      split_ifs at hd with htype
      exact htype
    rw [if_pos htype] at h
    obtain ⟨s', hs'⟩ : ∃ s', seeDirent bigEndian block dir ofs.toNat s = some s' := by
      cases hsee : seeDirent bigEndian block dir ofs.toNat s with
      | none =>
        rw [hsee] at h
        exact absurd rfl h
      | some s' => exact ⟨s', rfl⟩
    obtain ⟨target, htarget, hrest⟩ := bind_eq_some_iff.mp hs'
    obtain ⟨ino, hino, -⟩ := bind_eq_some_iff.mp hrest
    unfold readWord at hino
    split_ifs at hino with hlen
    exact ⟨hlen, isTarget_inside hd htarget⟩

/-! ## The whole block -/

theorem walks : Walks (turn bigEndian block dir) (next bigEndian block) (IsNode bigEndian block)
    (ReadsInside bigEndian block dir)
    (fun ofs s => (direntAt bigEndian block ofs).elim s (s.see dir)) (fun _ s => some s) none where
  go _ _ hin hnode := turn_node hnode hin
  stop _ _ hin hnode := turn_end hnode hin
  leave ofs s hin := by
    by_contra hturn
    exact hin (turn_inside hturn)
  ne _ _ := by simp

/-- What has been noted after some nodes is what their entries give. -/
theorem gathered_eq (s : Scan) (n : Nat) :
    gathered (next bigEndian block) 0
        (fun ofs s => (direntAt bigEndian block ofs).elim s (s.see dir)) s n =
      (dirents bigEndian block n).foldl (Scan.see dir) s := by
  induction n with
  | zero => rfl
  | succ n ih =>
    rw [gathered, ih]
    unfold dirents
    rw [range_succ, filterMap_append, foldl_append]
    cases h : direntAt bigEndian block (place (next bigEndian block) 0 n) with
    | none => simp only [filterMap_cons, h, filterMap_nil, foldl_nil, elim_none]
    | some d =>
      simp only [filterMap_cons, h, filterMap_nil, foldl_cons, foldl_nil,
        elim_some]

/-- There are only so many places for a node. -/
instance : Finite {ofs // IsNode bigEndian block ofs} := by
  refine Finite.of_injective (fun node => (⟨node.1.toNat, node.2.1⟩ : Fin block.length)) ?_
  intro a b hab
  exact Subtype.ext (BitVec.eq_of_toNat_eq (Fin.mk.inj hab))

/-! ## What is noted -/

theorem foldl_see_target (entries : List Dirent) (s : Scan) :
    (entries.foldl (Scan.see dir) s).targetIno = lastIno (Agrees dir) entries s.targetIno := by
  induction entries using List.reverseRecOn with
  | nil => rfl
  | append_singleton entries d ih =>
    rw [foldl_append, foldl_cons, foldl_nil, Scan.see, ih]
    unfold lastIno
    by_cases h : Agrees dir d
    · simp [h]
    · simp [h]

theorem Greatest.snoc {number : Dirent → BitVec 32} {entries : List Dirent}
    {before after : BitVec 32} (h : Greatest number entries before after) (d : Dirent) :
    Greatest number (entries ++ [d]) before (if after < number d then number d else after) := by
  obtain ⟨hle, hall, hone⟩ := h
  split_ifs with hlt
  · refine ⟨BitVec.le_trans hle (BitVec.le_of_lt hlt), fun e he => ?_, .inr ⟨d, by simp, rfl⟩⟩
    rcases mem_append.mp he with he | he
    · exact BitVec.le_trans (hall e he) (BitVec.le_of_lt hlt)
    · rw [mem_singleton.mp he]
      exact BitVec.le_refl _
  · refine ⟨hle, fun e he => ?_, ?_⟩
    · rcases mem_append.mp he with he | he
      · exact hall e he
      · rw [mem_singleton.mp he]
        exact BitVec.not_lt.mp hlt
    · rcases hone with h | ⟨e, he, h⟩
      · exact .inl h
      · exact .inr ⟨e, mem_append_left _ he, h⟩

theorem foldl_see_greatest (dir : List UInt8) (entries : List Dirent) (s : Scan) :
    Greatest Dirent.ino entries s.lastIno (entries.foldl (Scan.see dir) s).lastIno ∧
      Greatest Dirent.version entries s.lastVersion
        (entries.foldl (Scan.see dir) s).lastVersion := by
  induction entries using List.reverseRecOn with
  | nil =>
    exact ⟨⟨BitVec.le_refl _, by simp, .inl rfl⟩, ⟨BitVec.le_refl _, by simp, .inl rfl⟩⟩
  | append_singleton entries d ih =>
    rw [foldl_append, foldl_cons, foldl_nil]
    exact ⟨ih.1.snoc d, ih.2.snoc d⟩

/-- The block is parsed as it should be if and only if the lengths do not lead back, everything is
read inside the block, and the last entry that agrees with the name has the inode of the last that
is exactly it. -/
theorem parse_iff (s : Scan) : Parses bigEndian block dir s ↔
    NoReturn (next bigEndian block) (IsNode bigEndian block) 0 ∧ AllInside bigEndian block dir ∧
      ∀ n, Nodes bigEndian block n →
        lastIno (Agrees dir) (dirents bigEndian block n) s.targetIno =
          lastIno (Exact dir) (dirents bigEndian block n) s.targetIno := by
  constructor
  · rintro ⟨n, s', hnodes, hends, htarget, -⟩
    obtain ⟨m, hstop, hin, heq⟩ := (walks.ends_iff (by simp)).mp hends
    obtain rfl := hnodes.unique hstop
    refine ⟨exists_stopsAt_iff.mp ⟨n, hnodes⟩, fun i hi => hin i (hnodes.le hi), fun m hm => ?_⟩
    obtain rfl := hnodes.unique hm
    rw [← htarget, some.inj heq, gathered_eq, foldl_see_target]
  · rintro ⟨hret, hall, hlast⟩
    obtain ⟨n, hnodes⟩ := exists_stopsAt_iff.mpr hret
    obtain ⟨hino, hversion⟩ := foldl_see_greatest dir (dirents bigEndian block n) s
    refine ⟨n, _, hnodes, (walks.ends_iff (by simp)).mpr
      ⟨n, hnodes, fun i hi => hall i (hnodes.1.mono hi), rfl⟩, ?_⟩
    rw [gathered_eq]
    exact ⟨by rw [foldl_see_target, hlast n hnodes], hino, hversion⟩

/-- The block of a node without a length is read for ever. -/
theorem parse_no_length :
    ¬ Parses false ([0x85, 0x19, 0x01, 0xe0, 0, 0, 0, 0] ++ List.replicate 65528 0xff) [0x65]
      ⟨0, 0, 0⟩ := by
  rintro ⟨n, s', ⟨-, hend⟩, -⟩
  have hplace : ∀ i, place (next false
      ([0x85, 0x19, 0x01, 0xe0, 0, 0, 0, 0] ++ List.replicate 65528 0xff)) 0 i = 0 := by
    intro i
    induction i with
    | zero => rfl
    | succ i ih =>
      rw [place, ih]
      rfl
  rw [hplace] at hend
  refine hend ⟨?_, rfl⟩
  rw [length_append]
  exact Nat.lt_add_right _ (by decide)

end LibWrt.Mtd.Jffs2
