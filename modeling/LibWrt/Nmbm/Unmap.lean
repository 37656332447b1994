/-
LibWrt.Nmbm.Unmap — `unmap_block_nmbm` and the mapping of the creation.

`nmbm_build_mapping_table` maps the logical blocks to the good blocks of the
data area in order. Unmapping does not keep this mapping: it goes down from the
block to one that is not remapped, and counts up from the physical block of
that one. The two agree where no block was bad in between; a block that was
never in the data area, at the end of it, has nothing to go back to.
-/
import LibWrt.Nmbm.Areas
import LibWrt.Nmbm.Signature

namespace LibWrt.Nmbm

open List Option Instance
open LibWrt.Flash LibWrt.Bytes

variable (g : Geometry) (env : Env)

/-! ## Unmapping -/

def Instance.mapped (ni : Instance) (lb : Nat) : BitVec 32 := ni.blockMapping.getD lb 0

/-- The loop of `unmap_block_nmbm` that goes down to a block that is not remapped. -/
def Instance.startOf (ni : Instance) : Nat → Option Nat
  | 0 => if (ni.mapped 0).toNat ≥ ni.mappingBlocksBa then none else some 0
  | start + 1 =>
    if (ni.mapped (start + 1)).toNat ≥ ni.mappingBlocksBa then ni.startOf start
    else some (start + 1)

/-- The block below the mapped ones, as the last loop of `unmap_block_nmbm` finds it. -/
def Instance.topOf (ni : Instance) : BitVec 32 :=
  (range ni.dataBlockCount).foldl
    (fun newBlock block =>
      let cur := ni.mapped block
      if cur.toNat < ni.mappingBlocksBa then newBlock
      else if cur.sle newBlock then cur - 1
      else newBlock)
    (BitVec.ofNat 32 (sub32 ni.signatureBa 1))

/-- `block` gets the physical block that lies as far behind the one of `start`. -/
def Instance.unmap (block start : Nat) (ni : Instance) : Instance :=
  let newBlock := ni.mapped start + BitVec.ofNat 32 (block - start)
  let ni := ni.setBlockState newBlock.toNat blockStGood
  let ni :=
    { ni with
      blockMapping := ni.blockMapping.set block newBlock
      blockMappingChanged := ni.blockMappingChanged + 1 }
  { ni with mappingBlocksTopBa := ni.topOf.toNat }

/-- `unmap_block_nmbm` -/
def unmapBlockNmbm (block : Nat) (s : State) : State :=
  if block ≥ s.ni.dataBlockCount then s
  else
    match s.ni.startOf block with
    | none => s
    | some start =>
      if block - start = 0 then s
      else (updateInfoTable g env { s with ni := s.ni.unmap block start }).2

/-! ## Runs -/

/-- The blocks that `nmbm_build_mapping_table` maps the logical blocks to. -/
def creationBlocks (ni : Instance) (nand : Device Page) : List Nat := (ni.fresh g nand).ni.usable

/-- `block` is unmapped to its block of the creation: below it, behind remapped blocks only,
    is one that is where it was at the creation, and no block in between was bad then. -/
def Instance.Restorable (blocks : List Nat) (ni : Instance) (block : Nat) : Prop :=
  ∃ start first pb, start ≤ block ∧ blocks[start]? = some first ∧ blocks[block]? = some pb ∧
    ni.mapped start = BitVec.ofNat 32 first ∧
    (∀ lb, start < lb → lb ≤ block → ni.mappingBlocksBa ≤ (ni.mapped lb).toNat) ∧
    ∀ b, first ≤ b → b ≤ pb → b ∈ blocks

/-- The mapping of `block` alone changes, to its block of the creation; no other logical block
    has that one. -/
def Restored (blocks : List Nat) (block : Nat) (s s' : State) : Prop :=
  ∃ pb, blocks[block]? = some pb ∧
    s'.ni.blockMapping = s.ni.blockMapping.set block (BitVec.ofNat 32 pb) ∧
    ∀ lb < s.ni.dataBlockCount, lb ≠ block → s'.ni.mapped lb ≠ BitVec.ofNat 32 pb

/-- The states after the creation and remaps, and after unmaps of blocks that are restorable. -/
inductive Reached (ni : Instance) (nand : Device Page) : State → Prop where
  | created {s : State} :
    createNew g env { ni := initStructure g ni, nand := nand } = (true, s) → Reached ni nand s
  | remap {s : State} (block mappedBlock copyLen : Nat) :
    Reached ni nand s → Reached ni nand (remapBlockNmbm g env block mappedBlock copyLen s).2
  | unmap {s : State} (block : Nat) :
    Reached ni nand s →
    s.ni.dataBlockCount ≤ block ∨ s.ni.Restorable (creationBlocks g ni nand) block →
    Reached ni nand (unmapBlockNmbm g env block s)

variable {g env}

/-! ## What a run keeps -/

/-- Every logical block is at its block of the creation, or remapped into the area of the
    mapped blocks. -/
structure Held (g : Geometry) (blocks : List Nat) (lo : Nat) (s : State) : Prop where
  placed : s.Placed lo (s.ni.signatureBa - 1)
  count : s.ni.dataBlockCount ≤ lo
  length : s.ni.blockMapping.length = g.totalBlks
  signature : lo < s.ni.signatureBa ∧ s.ni.signatureBa < g.totalBlks
  mapped : ∀ lb < s.ni.dataBlockCount,
    (∃ pb, blocks[lb]? = some pb ∧ s.ni.mapped lb = BitVec.ofNat 32 pb) ∨
      (lo < (s.ni.mapped lb).toNat ∧ (s.ni.mapped lb).toNat < s.ni.signatureBa)

section Held

variable {blocks : List Nat} {lo : Nat} {s s' : State}

theorem Held.of_core (h : Held g blocks lo s) (hcore : s'.ni.core = s.ni.core)
    (hplaced : s'.Placed lo (s.ni.signatureBa - 1)) : Held g blocks lo s' := by
  have hmapping : s'.ni.blockMapping = s.ni.blockMapping := congrArg Core.blockMapping hcore
  have hcount : s'.ni.dataBlockCount = s.ni.dataBlockCount := congrArg Core.dataBlockCount hcore
  have hsig : s'.ni.signatureBa = s.ni.signatureBa := congrArg Core.signatureBa hcore
  constructor
  · rwa [hsig]
  · rw [hcount]
    exact h.count
  · rw [hmapping]
    exact h.length
  · rw [hsig]
    exact h.signature
  · unfold Instance.mapped
    rw [hcount, hmapping, hsig]
    exact h.mapped

theorem Held.updateInfoTable (h : Held g blocks lo s) :
    Held g blocks lo (updateInfoTable g env s).2 :=
  h.of_core (updateInfoTable_core s) (updateInfoTable_placed h.placed)

theorem Held.setBad (h : Held g blocks lo s) (ba : Nat) : Held g blocks lo (s.setBad ba) :=
  h.of_core rfl ⟨h.placed.start, h.placed.main, h.placed.backup, h.placed.mapping, h.placed.top,
    h.placed.cache⟩

/-- The chip does not count. -/
theorem Held.of_nand (h : Held g blocks lo s) (nand : Device Page) :
    Held g blocks lo { s with nand := nand } :=
  h.of_core rfl ⟨h.placed.start, h.placed.main, h.placed.backup, h.placed.mapping, h.placed.top,
    h.placed.cache⟩

theorem mapped_set {ni : Instance} {block lb : Nat} {v : BitVec 32}
    (hlb : lb < ni.blockMapping.length) :
    (ni.blockMapping.set block v).getD lb 0 = if block = lb then v else ni.mapped lb := by
  unfold Instance.mapped
  rw [getD_eq_getElem?_getD, getElem?_set, getD_eq_getElem?_getD]
  split
  · rename_i heq
    rw [heq, if_pos hlb, getD_some]
  · rfl

theorem walkDescFrom_bounds {ni : Instance} : ∀ {n ba count nba : Nat},
    ni.walkDescFrom n ba count = some nba →
      nba ≤ ba ∧ ba < nba + n ∧ (0 < count → 0 < ba → nba < ba)
  | 0, _, _, _, h => by simp [walkDescFrom] at h
  | n + 1, ba, count, nba, h => by
    unfold walkDescFrom at h
    split at h
    · split at h
      · cases h
        exact ⟨le_rfl, by omega, fun hpos => absurd hpos (lt_irrefl 0)⟩
      · have := walkDescFrom_bounds h
        omega
    · have := walkDescFrom_bounds h
      omega

theorem blockWalkDesc_bounds {ni : Instance} {ba count limit pb lo : Nat} (hlo : lo < g.totalBlks)
    (hlimit : lo ≤ limit) (h : blockWalkDesc g ni ba count limit = some pb) :
    lo < pb ∧ pb ≤ ba ∧ (0 < count → 0 < ba → pb < ba) := by
  unfold blockWalkDesc at h
  have := walkDescFrom_bounds h
  split at this <;> omega

/-- A block that is mapped gets a block of the area of the mapped blocks. -/
theorem Held.mapBlock_eq {lb : Nat} (h : Held g blocks lo s)
    (hmap : mapBlock g env lb s = (true, s')) :
    ∃ pb, lo < pb ∧ pb < s.ni.signatureBa ∧ s'.Placed lo (s.ni.signatureBa - 1) ∧
      s' = { s with
        ni :=
          { s.ni with
            blockMapping := s.ni.blockMapping.set lb (BitVec.ofNat 32 pb)
            mappingBlocksTopBa := s.ni.mappingBlocksTopBa - 1
            blockMappingChanged := s.ni.blockMappingChanged + 1 } } := by
  obtain ⟨pb, hwalk, rfl⟩ := Nmbm.mapBlock_eq hmap
  have hsig := h.signature
  have htop := h.placed.top
  obtain ⟨hlt, hle, -⟩ := blockWalkDesc_bounds (by omega) h.placed.mapping.1 hwalk
  have htop' : lo ≤ s.ni.mappingBlocksTopBa - 1 ∧
      s.ni.mappingBlocksTopBa - 1 ≤ s.ni.signatureBa - 1 := by
    omega
  exact ⟨pb, hlt, by omega, ⟨h.placed.start, h.placed.main, h.placed.backup, h.placed.mapping,
    htop', h.placed.cache⟩, rfl⟩

theorem Held.mapBlock_fails {lb : Nat} (h : Held g blocks lo s)
    (hmap : mapBlock g env lb s = (false, s')) : Held g blocks lo s' := by
  unfold mapBlock at hmap
  split at hmap
  · obtain ⟨-, rfl⟩ := Prod.mk.inj hmap
    exact h
  · split at hmap
    · obtain ⟨-, rfl⟩ := Prod.mk.inj hmap
      have hupdate : Held g blocks lo (Nmbm.updateInfoTable g env s).2 := h.updateInfoTable
      have hplaced := hupdate.placed
      exact ⟨⟨hplaced.start, hplaced.main, hplaced.backup, hplaced.mapping, hplaced.mapping,
        hplaced.cache⟩, hupdate.count, hupdate.length, hupdate.signature, hupdate.mapped⟩
    · simp at hmap

theorem toNat_ofNat_of_le {pb : Nat} (h : pb ≤ g.totalBlks) : (BitVec.ofNat 32 pb).toNat = pb := by
  have hlt := g.totalBlks_lt
  rw [BitVec.toNat_ofNat, Nat.mod_eq_of_lt (by omega)]

/-- A logical block of the data area is mapped. -/
theorem Held.mapBlock {lb : Nat} (h : Held g blocks lo s)
    (hmap : mapBlock g env lb s = (true, s')) : Held g blocks lo s' := by
  obtain ⟨pb, hlt, hle, hplaced, rfl⟩ := h.mapBlock_eq hmap
  have hlen := h.length
  have hcount := h.count
  have hsig := h.signature
  refine ⟨hplaced, hcount, by simpa using hlen, hsig, fun lb' hlb' => ?_⟩
  have hset := @mapped_set s.ni lb lb' (BitVec.ofNat 32 pb) (by
    dsimp only at hlb'
    omega)
  unfold Instance.mapped
  dsimp only
  rw [hset]
  split
  · rw [toNat_ofNat_of_le (g := g) (by omega)]
    exact .inr ⟨hlt, hle⟩
  · exact h.mapped lb' hlb'

theorem Held.remap (h : Held g blocks lo s) (block mappedBlock copyLen : Nat) :
    Held g blocks lo (remapBlockNmbm g env block mappedBlock copyLen s).2 := by
  unfold remapBlockNmbm
  split
  · exact h
  · split
    · rename_i hmap
      exact (h.setBad mappedBlock).mapBlock_fails hmap
    · rename_i hmap
      have hmapped := (h.setBad mappedBlock).mapBlock hmap
      exact (hmapped.of_nand _).updateInfoTable

/-! ### One unmap -/

/-- The way down goes over remapped blocks. -/
theorem startOf_eq_some {ni : Instance} {block start : Nat} :
    ni.startOf block = some start ↔ start ≤ block ∧
      (ni.mapped start).toNat < ni.mappingBlocksBa ∧
      ∀ lb, start < lb → lb ≤ block → ni.mappingBlocksBa ≤ (ni.mapped lb).toNat := by
  induction block with
  | zero =>
    unfold startOf
    split
    · rename_i hge
      constructor
      · intro h
        cases h
      · rintro ⟨hle, hlt, -⟩
        obtain rfl : start = 0 := by omega
        omega
    · rename_i hlt
      constructor
      · rintro ⟨rfl⟩
        exact ⟨le_rfl, by omega, fun lb h h' => by omega⟩
      · rintro ⟨hle, -, -⟩
        rw [Nat.le_zero.mp hle]
  | succ block ih =>
    unfold startOf
    split
    · rename_i hge
      rw [ih]
      constructor
      · rintro ⟨hle, hlt, hover⟩
        refine ⟨by omega, hlt, fun lb h h' => ?_⟩
        rcases Nat.eq_or_lt_of_le h' with rfl | h''
        · exact hge
        · exact hover lb h (by omega)
      · rintro ⟨hle, hlt, hover⟩
        have hne : start ≠ block + 1 := by
          rintro rfl
          omega
        exact ⟨by omega, hlt, fun lb h h' => hover lb h (by omega)⟩
    · rename_i hlt
      constructor
      · rintro ⟨rfl⟩
        exact ⟨le_rfl, by omega, fun lb h h' => by omega⟩
      · rintro ⟨hle, -, hover⟩
        rcases Nat.eq_or_lt_of_le hle with rfl | h'
        · rfl
        · exact absurd (hover (block + 1) h' le_rfl) (by omega)

theorem startOf_eq_none {ni : Instance} {block : Nat} (h : ni.startOf block = none) :
    ni.mappingBlocksBa ≤ (ni.mapped block).toNat := by
  by_contra hlt
  have hthis := startOf_eq_some.mpr ⟨le_rfl, Nat.lt_of_not_le hlt, fun lb h h' => by omega⟩
  rw [h] at hthis
  cases hthis

/-- The blocks of the creation: the good ones of the data area in order. -/
structure InOrder (blocks : List Nat) (lo : Nat) : Prop where
  sorted : blocks.Pairwise (· < ·)
  below : ∀ pb ∈ blocks, pb < lo

theorem InOrder.lt {pb first block start : Nat} (h : InOrder blocks lo) (hlt : start < block)
    (hstart : blocks[start]? = some first) (hblock : blocks[block]? = some pb) : first < pb := by
  obtain ⟨hs, rfl⟩ := List.getElem?_eq_some_iff.mp hstart
  obtain ⟨hb, rfl⟩ := List.getElem?_eq_some_iff.mp hblock
  exact pairwise_iff_getElem.mp h.sorted start block hs hb hlt

theorem exists_of_le {block start pb : Nat} (hle : start ≤ block)
    (hblock : blocks[block]? = some pb) : ∃ first, blocks[start]? = some first := by
  obtain ⟨hlt, -⟩ := List.getElem?_eq_some_iff.mp hblock
  exact ⟨_, getElem?_eq_getElem (Nat.lt_of_le_of_lt hle hlt)⟩

/-- Blocks are at least as far apart as their places. -/
theorem InOrder.apart {pb first start d : Nat} (h : InOrder blocks lo)
    (hstart : blocks[start]? = some first) (hblock : blocks[start + d]? = some pb) :
    first + d ≤ pb := by
  induction d generalizing pb with
  | zero =>
    rw [Nat.add_zero, hstart] at hblock
    exact le_of_eq (some.inj hblock)
  | succ d ih =>
    obtain ⟨prev, hprev⟩ := exists_of_le (Nat.le_succ (start + d)) hblock
    have hle := ih hprev
    have hlt := h.lt (Nat.lt_succ_self _) hprev hblock
    omega

/-- As far apart as their places, if and only if no block in between is missing. -/
theorem InOrder.apart_iff {pb first start d : Nat} (h : InOrder blocks lo)
    (hstart : blocks[start]? = some first) (hblock : blocks[start + d]? = some pb) :
    first + d = pb ↔ ∀ b, first ≤ b → b ≤ pb → b ∈ blocks := by
  constructor
  · intro heq b hfirst hpb
    obtain ⟨i, rfl⟩ := Nat.exists_eq_add_of_le hfirst
    obtain ⟨x, hx⟩ := exists_of_le (show start + i ≤ start + d by omega) hblock
    have hlow := h.apart hstart hx
    have hhigh := @InOrder.apart blocks lo pb x (start + i) (d - i) h hx (by
      rw [← hblock]
      congr 1
      omega)
    obtain rfl : x = first + i := by omega
    exact mem_of_getElem? hx
  · intro hall
    suffices hi : ∀ i ≤ d, blocks[start + i]? = some (first + i) by
      rw [hi d le_rfl] at hblock
      exact some.inj hblock
    intro i
    induction i with
    | zero => exact fun _ => hstart
    | succ i ih =>
      intro hi
      have hprev := ih (by omega)
      obtain ⟨x, hx⟩ := exists_of_le (show start + (i + 1) ≤ start + d by omega) hblock
      have hlow := h.lt (Nat.lt_succ_self _) hprev hx
      have hhigh := @InOrder.apart blocks lo pb x (start + (i + 1)) (d - (i + 1)) h hx (by
        rw [← hblock]
        congr 1
        omega)
      -- the next number is a block, and no block lies between two neighbours
      obtain ⟨j, hj⟩ := mem_iff_getElem?.mp (hall (first + i + 1) (by omega) (by omega))
      have hplace : start + i < j := by
        by_contra hge
        rcases Nat.eq_or_lt_of_le (Nat.le_of_not_lt hge) with rfl | hlt
        · rw [hprev] at hj
          have := some.inj hj
          omega
        · have := h.lt hlt hj hprev
          omega
      rcases Nat.eq_or_lt_of_le hplace with rfl | hlt
      · exact hj
      · have := h.lt hlt hx hj
        omega

theorem InOrder.unique {lb block pb : Nat} (h : InOrder blocks lo) (hlb : blocks[lb]? = some pb)
    (hblock : blocks[block]? = some pb) : lb = block := by
  rcases Nat.lt_trichotomy lb block with hlt | heq | hgt
  · exact absurd (h.lt hlt hlb hblock) (Nat.lt_irrefl pb)
  · exact heq
  · exact absurd (h.lt hgt hblock hlb) (Nat.lt_irrefl pb)

theorem Held.topOf (h : Held g blocks lo s) (horder : InOrder blocks lo) :
    lo ≤ s.ni.topOf.toNat ∧ s.ni.topOf.toNat ≤ s.ni.signatureBa - 1 := by
  have hsig := h.signature
  have hmapping := h.placed.mapping
  have hlt := g.totalBlks_lt
  unfold Instance.topOf
  have hinit : lo ≤ (BitVec.ofNat 32 (sub32 s.ni.signatureBa 1)).toNat ∧
      (BitVec.ofNat 32 (sub32 s.ni.signatureBa 1)).toNat ≤ s.ni.signatureBa - 1 := by
    rw [toNat_ofNat_of_le (g := g) (by unfold sub32; omega)]
    unfold sub32
    omega
  have hmem : ∀ lb ∈ range s.ni.dataBlockCount, lb < s.ni.dataBlockCount :=
    fun lb hlb => mem_range.mp hlb
  generalize BitVec.ofNat 32 (sub32 s.ni.signatureBa 1) = newBlock at hinit
  generalize range s.ni.dataBlockCount = lbs at hmem
  induction lbs generalizing newBlock with
  | nil => exact hinit
  | cons lb lbs ih =>
    rw [foldl_cons]
    refine ih _ ?_ fun lb' hlb' => hmem lb' (mem_cons_of_mem _ hlb')
    dsimp only
    split
    · exact hinit
    · rename_i hge
      split
      · rcases h.mapped lb (hmem lb mem_cons_self) with ⟨pb, hpb, heq⟩ | ⟨hlow, hhigh⟩
        · have hbelow := horder.below pb (mem_of_getElem? hpb)
          rw [heq, toNat_ofNat_of_le (g := g) (by omega)] at hge
          omega
        · have hone : (1 : BitVec 32).toNat = 1 := rfl
          rw [BitVec.toNat_sub, hone]
          omega
      · exact hinit

theorem ofNat_inj_of_le {a b : Nat} (ha : a ≤ g.totalBlks) (hb : b ≤ g.totalBlks)
    (h : BitVec.ofNat 32 a = BitVec.ofNat 32 b) : a = b := by
  have hnat := congrArg BitVec.toNat h
  rwa [toNat_ofNat_of_le ha, toNat_ofNat_of_le hb] at hnat

theorem unmapBlockNmbm_eq {block start : Nat} (hblock : block < s.ni.dataBlockCount)
    (hstart : s.ni.startOf block = some start) (hne : start ≠ block) :
    unmapBlockNmbm g env block s =
      (Nmbm.updateInfoTable g env { s with ni := s.ni.unmap block start }).2 := by
  have hle := (startOf_eq_some.mp hstart).1
  have hpos : ¬ block - start = 0 := by omega
  rw [unmapBlockNmbm, if_neg (by omega), hstart]
  dsimp only
  rw [if_neg hpos]

theorem unmapBlockNmbm_self {block : Nat} (hstart : s.ni.startOf block = some block) :
    unmapBlockNmbm g env block s = s := by
  unfold unmapBlockNmbm
  rw [hstart]
  simp

theorem unmap_blockMapping (ni : Instance) (block start : Nat) :
    (ni.unmap block start).blockMapping =
      ni.blockMapping.set block (ni.mapped start + BitVec.ofNat 32 (block - start)) := rfl

theorem unmap_mappingBlocksTopBa (ni : Instance) (block start : Nat) :
    (ni.unmap block start).mappingBlocksTopBa =
      (Instance.topOf
        { ni with blockMapping := (ni.unmap block start).blockMapping }).toNat := rfl

/-- The mapping is that of the creation again. -/
theorem Held.unmapped {block pb : Nat} (h : Held g blocks lo s) (horder : InOrder blocks lo)
    (hpb : blocks[block]? = some pb)
    (hmapping : s'.ni.blockMapping = s.ni.blockMapping.set block (BitVec.ofNat 32 pb)) :
    Restored blocks block s s' := by
  refine ⟨pb, hpb, hmapping, fun lb hlb hne heq => ?_⟩
  have hlen := h.length
  have hcount := h.count
  have hsig := h.signature
  have hbelow := horder.below pb (mem_of_getElem? hpb)
  unfold Instance.mapped at heq
  rw [hmapping, mapped_set (by omega), if_neg (Ne.symm hne)] at heq
  rcases h.mapped lb hlb with ⟨pb', hpb', heq'⟩ | ⟨hlow, -⟩
  · have hbelow' := horder.below pb' (mem_of_getElem? hpb')
    have hsame := ofNat_inj_of_le (g := g) (by omega) (by omega) (heq'.symm.trans heq)
    rw [hsame] at hpb'
    exact hne (horder.unique hpb' hpb)
  · rw [heq, toNat_ofNat_of_le (g := g) (by omega)] at hlow
    omega

/-- A block that is restorable is restored. -/
theorem Held.unmap {block : Nat} (h : Held g blocks lo s) (horder : InOrder blocks lo)
    (hblock : block < s.ni.dataBlockCount) (hr : s.ni.Restorable blocks block) :
    Restored blocks block s (unmapBlockNmbm g env block s) ∧
      Held g blocks lo (unmapBlockNmbm g env block s) := by
  obtain ⟨start, first, pb, hle, hfirst, hpb, hmapped, hover, hall⟩ := hr
  have hlen := h.length
  have hcount := h.count
  have hsig := h.signature
  have hmba := h.placed.mapping
  have hbelow := horder.below first (mem_of_getElem? hfirst)
  have hbelow' := horder.below pb (mem_of_getElem? hpb)
  have hstart : s.ni.startOf block = some start := by
    refine startOf_eq_some.mpr ⟨hle, ?_, hover⟩
    rw [hmapped, toNat_ofNat_of_le (g := g) (by omega)]
    omega
  by_cases hne : start = block
  · -- the block is not remapped
    subst hne
    rw [unmapBlockNmbm_self hstart]
    refine ⟨h.unmapped horder hpb ?_, h⟩
    rw [hfirst] at hpb
    obtain rfl := some.inj hpb
    rw [← hmapped]
    unfold Instance.mapped
    rw [getD_eq_getElem?_getD, getElem?_eq_getElem (by omega), getD_some,
      set_getElem_self]
  · obtain ⟨d, rfl⟩ := Nat.exists_eq_add_of_le hle
    have hsum : first + d = pb := (horder.apart_iff hfirst hpb).mpr hall
    have hmapping : (s.ni.unmap (start + d) start).blockMapping =
        s.ni.blockMapping.set (start + d) (BitVec.ofNat 32 pb) := by
      rw [unmap_blockMapping, hmapped, Nat.add_sub_cancel_left, ← BitVec.ofNat_add, hsum]
    have hset (lb : Nat) (hlb : lb < s.ni.dataBlockCount) :
        (s.ni.unmap (start + d) start).mapped lb =
          if start + d = lb then BitVec.ofNat 32 pb else s.ni.mapped lb := by
      unfold Instance.mapped
      rw [hmapping, mapped_set (by omega)]
      rfl
    have hheld : Held g blocks lo
        { s with ni := { s.ni with
          blockMapping := (s.ni.unmap (start + d) start).blockMapping } } := by
      refine ⟨⟨h.placed.start, h.placed.main, h.placed.backup, h.placed.mapping, h.placed.top,
        h.placed.cache⟩, h.count, ?_, h.signature, fun lb hlb => ?_⟩
      · dsimp only
        rw [hmapping, length_set]
        exact hlen
      · have hlb' := hset lb hlb
        by_cases heq : start + d = lb
        · rw [if_pos heq] at hlb'
          exact .inl ⟨pb, by rw [← heq]; exact hpb, hlb'⟩
        · rw [if_neg heq] at hlb'
          have hold := h.mapped lb hlb
          rw [← hlb'] at hold
          exact hold
    have htop := hheld.topOf horder
    rw [← unmap_mappingBlocksTopBa] at htop
    have hheld' : Held g blocks lo { s with ni := s.ni.unmap (start + d) start } :=
      ⟨⟨h.placed.start, h.placed.main, h.placed.backup, h.placed.mapping, htop, h.placed.cache⟩,
        hheld.count, hheld.length, hheld.signature, hheld.mapped⟩
    rw [unmapBlockNmbm_eq hblock hstart hne]
    refine ⟨h.unmapped horder hpb ?_, hheld'.updateInfoTable⟩
    rw [← hmapping]
    exact congrArg Core.blockMapping (updateInfoTable_core _)

/-- Only a block that is restorable is restored. -/
theorem Held.restorable {block : Nat} (h : Held g blocks lo s) (horder : InOrder blocks lo)
    (hblock : block < s.ni.dataBlockCount)
    (hr : Restored blocks block s (unmapBlockNmbm g env block s)) :
    s.ni.Restorable blocks block := by
  obtain ⟨pb, hpb, hmapping, -⟩ := hr
  have hlen := h.length
  have hcount := h.count
  have hsig := h.signature
  have hmba := h.placed.mapping
  have hlt := g.totalBlks_lt
  have hbelow := horder.below pb (mem_of_getElem? hpb)
  have hback : (unmapBlockNmbm g env block s).ni.mapped block = BitVec.ofNat 32 pb := by
    unfold Instance.mapped
    rw [hmapping, mapped_set (by omega), if_pos rfl]
  -- a block that stays where it is was not remapped
  have hstays (hsame : unmapBlockNmbm g env block s = s) :
      s.ni.mapped block = BitVec.ofNat 32 pb := by rwa [hsame] at hback
  cases hstart : s.ni.startOf block with
  | none =>
    have hsame : unmapBlockNmbm g env block s = s := by
      rw [unmapBlockNmbm, if_neg (by omega), hstart]
    have hge := startOf_eq_none hstart
    rw [hstays hsame, toNat_ofNat_of_le (g := g) (by omega)] at hge
    omega
  | some start =>
    obtain ⟨hle, -, hover⟩ := startOf_eq_some.mp hstart
    by_cases hne : start = block
    · subst hne
      refine ⟨start, pb, pb, le_rfl, hpb, hpb, hstays (unmapBlockNmbm_self hstart), hover,
        fun b hb hb' => ?_⟩
      obtain rfl : b = pb := by omega
      exact mem_of_getElem? hpb
    · obtain ⟨d, rfl⟩ := Nat.exists_eq_add_of_le hle
      have hnew : s.ni.mapped start + BitVec.ofNat 32 d = BitVec.ofNat 32 pb := by
        have hcore : (unmapBlockNmbm g env (start + d) s).ni.blockMapping =
            (s.ni.unmap (start + d) start).blockMapping := by
          rw [unmapBlockNmbm_eq hblock hstart hne]
          exact congrArg Core.blockMapping (updateInfoTable_core _)
        unfold Instance.mapped at hback
        rw [hcore, unmap_blockMapping, mapped_set (by omega), if_pos rfl,
          Nat.add_sub_cancel_left] at hback
        exact hback
      have hnat := congrArg BitVec.toNat hnew
      rw [BitVec.toNat_add, toNat_ofNat_of_le (g := g) (by omega),
        toNat_ofNat_of_le (g := g) (by omega)] at hnat
      rcases h.mapped start (by omega) with ⟨first, hfirst, heq⟩ | ⟨hlow, hhigh⟩
      · have hbelow' := horder.below first (mem_of_getElem? hfirst)
        rw [heq, toNat_ofNat_of_le (g := g) (by omega), Nat.mod_eq_of_lt (by omega)] at hnat
        exact ⟨start, first, pb, hle, hfirst, hpb, heq, hover,
          (horder.apart_iff hfirst hpb).mp hnat⟩
      · rw [Nat.mod_eq_of_lt (by omega)] at hnat
        omega

end Held

/-! ## Creation -/

section Creation

variable {ni : Instance} {nand : Device Page}

theorem inOrder_creationBlocks : InOrder (creationBlocks g ni nand) (ni.boundary g) := by
  have hstart := @fresh_mgmtStartBa g ni nand
  unfold creationBlocks usable
  rw [hstart]
  constructor
  · exact pairwise_lt_range.filter _
  · intro pb hpb
    exact mem_range.mp (mem_filter.mp hpb).1

theorem length_creationBlocks_le : (creationBlocks g ni nand).length ≤ ni.boundary g := by
  have hstart := @fresh_mgmtStartBa g ni nand
  unfold creationBlocks usable
  rw [hstart]
  exact (length_filter_le _ _).trans (le_of_eq length_range)

theorem fresh_tables : (ni.fresh g nand).ni.dataBlockCount = (creationBlocks g ni nand).length ∧
    (ni.fresh g nand).ni.blockMapping = (creationBlocks g ni nand).map (BitVec.ofNat 32) ++
      replicate (g.totalBlks - (creationBlocks g ni nand).length) (BitVec.allOnes 32) :=
  ⟨rfl, rfl⟩

theorem writeSignatureFrom_core (signature : Bytes) (n ba : Nat) (s : State) :
    (writeSignatureFrom g env signature n ba s).2.ni.core = s.ni.core := by
  induction n generalizing ba s with
  | zero => rfl
  | succ n ih =>
    rw [writeSignatureFrom_succ]
    split
    · exact ih _ _
    · split
      · exact ih _ _
      · split
        · rfl
        · exact ih _ _

/-- The next logical block is mapped, and counted then. -/
theorem Held.grow {blocks : List Nat} {lo : Nat} {s s' : State} (h : Held g blocks lo s)
    (hn : s.ni.dataBlockCount < lo)
    (hmap : Nmbm.mapBlock g env s.ni.dataBlockCount s = (true, s')) :
    Held g blocks lo
        { s' with ni := { s'.ni with dataBlockCount := s'.ni.dataBlockCount + 1 } } ∧
      s'.ni.dataBlockCount = s.ni.dataBlockCount := by
  obtain ⟨pb, hlt, hle, hplaced, rfl⟩ := h.mapBlock_eq hmap
  have hlen := h.length
  have hsig := h.signature
  refine ⟨⟨⟨hplaced.start, hplaced.main, hplaced.backup, hplaced.mapping, hplaced.top,
    hplaced.cache⟩, hn, by simpa using hlen, hsig, fun lb hlb => ?_⟩, rfl⟩
  dsimp only at hlb
  have hset := @mapped_set s.ni s.ni.dataBlockCount lb (BitVec.ofNat 32 pb) (by omega)
  unfold Instance.mapped
  dsimp only
  rw [hset]
  split
  · rw [toNat_ofNat_of_le (g := g) (by omega)]
    exact .inr ⟨hlt, hle⟩
  · exact h.mapped lb (by omega)

theorem Held.remapDataArea {blocks : List Nat} {lo n lb : Nat} {s : State} (h : Held g blocks lo s)
    (hlb : lb = s.ni.dataBlockCount) (hn : n + lb ≤ lo) :
    Held g blocks lo (remapDataAreaFrom g env n lb s) := by
  induction n generalizing lb s with
  | zero => exact h
  | succ n ih =>
    unfold remapDataAreaFrom
    split
    · rename_i hmap
      exact h.mapBlock_fails hmap
    · rename_i s' hmap
      rw [hlb] at hmap
      obtain ⟨hnext, hcount⟩ := h.grow (by omega) hmap
      refine ih hnext ?_ (by omega)
      rw [hlb, ← hcount]

/-- Before anything is remapped. -/
theorem held_of_core {s : State} (hplaced : s.Placed (ni.boundary g) (s.ni.signatureBa - 1))
    (hsig : ni.boundary g < s.ni.signatureBa ∧ s.ni.signatureBa < g.totalBlks)
    (hcount : s.ni.dataBlockCount = (ni.fresh g nand).ni.dataBlockCount)
    (hmapping : s.ni.blockMapping = (ni.fresh g nand).ni.blockMapping) :
    Held g (creationBlocks g ni nand) (ni.boundary g) s := by
  obtain ⟨hcount', hmapping'⟩ := @fresh_tables g ni nand
  have hlen := @length_creationBlocks_le g ni nand
  rw [hcount'] at hcount
  rw [hmapping'] at hmapping
  refine ⟨hplaced, by rw [hcount]; exact hlen, ?_, hsig, fun lb hlb => .inl ?_⟩
  · rw [hmapping, length_append, length_map, length_replicate]
    omega
  · rw [hcount] at hlb
    refine ⟨(creationBlocks g ni nand)[lb], getElem?_eq_getElem hlb, ?_⟩
    unfold Instance.mapped
    rw [hmapping, getD_eq_getElem?_getD, getElem?_append_left (by simpa using hlb),
      getElem?_map, getElem?_eq_getElem hlb]
    rfl

theorem createInfoTable_held {s s' : State} (hcore : s.ni.core = { (ni.fresh g nand).ni.core with
      signatureBa := s.ni.signatureBa })
    (hsig : ni.boundary g < s.ni.signatureBa ∧ s.ni.signatureBa < g.totalBlks)
    (h : createInfoTable g env s = (true, s')) :
    Held g (creationBlocks g ni nand) (ni.boundary g) s' := by
  have hcount := congrArg Core.dataBlockCount hcore
  have hmapping := congrArg Core.blockMapping hcore
  have hstart := congrArg Core.mgmtStartBa hcore
  dsimp only [Instance.core] at hcount hmapping hstart
  rw [fresh_mgmtStartBa] at hstart
  unfold createInfoTable at h
  split at h
  · simp at h
  · rename_i top hwalk
    rw [hstart] at hwalk
    obtain ⟨hlow, -, hhigh⟩ := blockWalkDesc_bounds (by omega) le_rfl hwalk
    dsimp only at h
    split at h
    · simp at h
    · rename_i s₁ hrebuild
      have hcore₁ := @rebuildInfoTable_core g env
        { s with ni := (generateInfoTableCache g { s.ni with mappingBlocksTopBa := top }).2 }
      have hplaced : s₁.Placed (ni.boundary g) (s.ni.signatureBa - 1) := by
        have hend : top ≤ s.ni.signatureBa - 1 := by
          have := hhigh one_pos (by omega)
          omega
        have hrebuilt := @rebuildInfoTable_placed g env (ni.boundary g) (s.ni.signatureBa - 1)
          { s with ni := (generateInfoTableCache g { s.ni with mappingBlocksTopBa := top }).2 }
          hstart ⟨hlow.le, hend⟩ (infoTableCache_generated _)
        rwa [hrebuild] at hrebuilt
      rw [hrebuild] at hcore₁
      have hcount₁ : s₁.ni.dataBlockCount = s.ni.dataBlockCount :=
        congrArg Core.dataBlockCount hcore₁
      have hmapping₁ : s₁.ni.blockMapping = s.ni.blockMapping :=
        congrArg Core.blockMapping hcore₁
      have hsig₁ : s₁.ni.signatureBa = s.ni.signatureBa := congrArg Core.signatureBa hcore₁
      have hheld : Held g (creationBlocks g ni nand) (ni.boundary g) s₁ := by
        refine held_of_core (by rwa [hsig₁]) ?_ (hcount₁.trans hcount) (hmapping₁.trans hmapping)
        rw [hsig₁]
        exact hsig
      have hle := hheld.count
      have hstart₁ := hheld.placed.start
      have hremapped := @Held.updateInfoTable g env _ _ _ (@Held.remapDataArea g env _ _
        (s₁.ni.mgmtStartBa - s₁.ni.dataBlockCount) _ _ hheld rfl (by omega))
      rw [h] at hremapped
      exact hremapped

theorem createNew_held {s : State}
    (h : createNew g env { ni := initStructure g ni, nand := nand } = (true, s)) :
    Held g (creationBlocks g ni nand) (ni.boundary g) s := by
  have hstart := @fresh_mgmtStartBa g ni nand
  have hcore := @writeSignatureFrom_core g env (g.signatureBytes (ni.fresh g nand).ni.mgmtStartBa)
    (g.totalBlks - 1 - (ni.fresh g nand).ni.mgmtStartBa) (g.totalBlks - 1) (ni.fresh g nand)
  have hspec := @writeSignatureFrom_spec g env
    (g.signatureBytes (ni.fresh g nand).ni.mgmtStartBa)
    (g.totalBlks - 1 - (ni.fresh g nand).ni.mgmtStartBa) (g.totalBlks - 1)
  rw [createNew_eq] at h
  have hfresh : State.toWrite g { ni := initStructure g ni, nand := nand } = ni.fresh g nand := rfl
  rw [hfresh] at h
  unfold writeSignature at h
  split at h
  · simp at h
  · rename_i ba s₁ hwrite
    rw [hwrite] at hcore
    obtain ⟨hle, hlt, -⟩ := hspec (by omega) hwrite
    rw [hstart] at hlt
    refine createInfoTable_held ?_ ?_ h
    · dsimp only at hcore ⊢
      rw [← hcore]
      rfl
    · show ni.boundary g < ba ∧ ba < g.totalBlks
      omega

end Creation

/-! ## Unmapping in a run -/

section Runs

variable {ni : Instance} {nand : Device Page} {s : State}

theorem Reached.of_created (h : (createNew g env { ni := initStructure g ni, nand := nand }).1) :
    Reached g env ni nand (createNew g env { ni := initStructure g ni, nand := nand }).2 :=
  .created (Prod.ext h rfl)

/-- Every request keeps the mapping between the creation and the area of the mapped blocks. -/
theorem Reached.held (h : Reached g env ni nand s) :
    Held g (creationBlocks g ni nand) (ni.boundary g) s := by
  induction h with
  | created h => exact createNew_held h
  | remap block mappedBlock copyLen _ ih => exact ih.remap block mappedBlock copyLen
  | @unmap s block _ hblock ih =>
    by_cases hge : s.ni.dataBlockCount ≤ block
    · rw [unmapBlockNmbm, if_pos hge]
      exact ih
    · exact (ih.unmap inOrder_creationBlocks (by omega) (hblock.resolve_left hge)).2

/-- A logical block is unmapped to its physical block of the creation, one that was good then
    and is no other's, with every other mapping unchanged, if and only if it is restorable. -/
theorem unmap_restores (h : Reached g env ni nand s) :
    ∀ block < s.ni.dataBlockCount,
      Restored (creationBlocks g ni nand) block s (unmapBlockNmbm g env block s) ↔
        s.ni.Restorable (creationBlocks g ni nand) block := by
  intro block hblock
  constructor
  · exact h.held.restorable inOrder_creationBlocks hblock
  · exact fun hr => (h.held.unmap inOrder_creationBlocks hblock hr).1

/-- **No data block is shared**: whatever fails on the chip, a logical block is in the area of the
    management blocks, below the signature, or at its block of the creation and no other logical
    block with it. -/
theorem mapped_apart (h : Reached g env ni nand s) :
    ∀ block < s.ni.dataBlockCount,
      (ni.boundary g < (s.ni.mapped block).toNat ∧
        (s.ni.mapped block).toNat < s.ni.signatureBa ∧ s.ni.signatureBa < g.totalBlks) ∨
      ∃ pb, (creationBlocks g ni nand)[block]? = some pb ∧
        s.ni.mapped block = BitVec.ofNat 32 pb ∧
        ∀ lb < s.ni.dataBlockCount, s.ni.mapped lb = s.ni.mapped block → lb = block := by
  intro block hblock
  obtain ⟨hlo, hsig⟩ := h.held.signature
  have hlt {lb pb : Nat} (hpb : (creationBlocks g ni nand)[lb]? = some pb) : pb < ni.boundary g :=
    inOrder_creationBlocks.below pb (List.mem_of_getElem? hpb)
  rcases h.held.mapped block hblock with ⟨pb, hpb, hmapped⟩ | ⟨harea, hend⟩
  · have hbelow := hlt hpb
    refine .inr ⟨pb, hpb, hmapped, fun lb hlb hsame => ?_⟩
    rw [hmapped] at hsame
    rcases h.held.mapped lb hlb with ⟨pb', hpb', hmapped'⟩ | ⟨harea, -⟩
    · have hbelow' := hlt hpb'
      rw [hmapped'] at hsame
      obtain rfl := ofNat_inj_of_le (g := g) (by omega) (by omega) hsame
      exact inOrder_creationBlocks.unique hpb' hpb
    · rw [hsame, toNat_ofNat_of_le (g := g) (by omega)] at harea
      omega
  · exact .inl ⟨harea, hend, hsig⟩

end Runs

/-! ### A chip without bad blocks, and one with a bad block -/

def threeBlocks : Instance := { maxRatio := 13 }

def createdOn (nand : Device Page) : State :=
  (createNew smallGeometry soundEnv { ni := initStructure smallGeometry threeBlocks, nand := nand }).2

def allGood : Device Page := blankChip fun _ => false

/-- Logical block 1 is remapped. -/
def remappedGood : State := (remapBlockNmbm smallGeometry soundEnv 1 1 0 (createdOn allGood)).2

set_option maxRecDepth 100000 in
theorem remappedGood_reached : Reached smallGeometry soundEnv threeBlocks allGood remappedGood :=
  .remap 1 1 0 (.of_created (by decide +kernel))

set_option maxRecDepth 100000 in
theorem remappedGood_tables :
    creationBlocks smallGeometry threeBlocks allGood = [0, 1, 2] ∧
      1 < remappedGood.ni.dataBlockCount ∧ remappedGood.ni.mapped 0 = 0 ∧
      remappedGood.ni.mappingBlocksBa ≤ (remappedGood.ni.mapped 1).toNat := by
  decide +kernel

theorem unmap_restores_remapped :
    remappedGood.ni.mappingBlocksBa ≤ (remappedGood.ni.mapped 1).toNat ∧
      Restored (creationBlocks smallGeometry threeBlocks allGood) 1 remappedGood
        (unmapBlockNmbm smallGeometry soundEnv 1 remappedGood) := by
  obtain ⟨hblocks, hcount, hfirst, hover⟩ := remappedGood_tables
  refine ⟨hover, (unmap_restores remappedGood_reached 1 hcount).mpr
    ⟨0, 0, 1, by omega, ?_, ?_, hfirst, fun lb h h' => ?_, fun b _ hb => ?_⟩⟩
  · rw [hblocks]
    rfl
  · rw [hblocks]
    rfl
  · obtain rfl : lb = 1 := by omega
    exact hover
  · rw [hblocks]
    simp
    omega

theorem mapped_apart_remapped :
    (threeBlocks.boundary smallGeometry < (remappedGood.ni.mapped 1).toNat ∧
        (remappedGood.ni.mapped 1).toNat < remappedGood.ni.signatureBa ∧
        remappedGood.ni.signatureBa < smallGeometry.totalBlks) ∨
      ∃ pb, (creationBlocks smallGeometry threeBlocks allGood)[1]? = some pb ∧
        remappedGood.ni.mapped 1 = BitVec.ofNat 32 pb ∧
        ∀ lb < remappedGood.ni.dataBlockCount,
          remappedGood.ni.mapped lb = remappedGood.ni.mapped 1 → lb = 1 :=
  mapped_apart remappedGood_reached 1 remappedGood_tables.2.1

def secondBad : Device Page := blankChip (· == 1)

set_option maxRecDepth 100000 in
theorem createdSmall_reached :
    Reached smallGeometry soundEnv threeBlocks secondBad (createdOn secondBad) :=
  .of_created (by decide +kernel)

def remappedSmall : State := (remapBlockNmbm smallGeometry soundEnv 1 2 0 (createdOn secondBad)).2

set_option maxRecDepth 100000 in
/-- It is unmapped to block 1, which was bad at the creation. -/
theorem unmap_to_bad_block :
    Reached smallGeometry soundEnv threeBlocks secondBad remappedSmall ∧
      1 < remappedSmall.ni.dataBlockCount ∧
      (unmapBlockNmbm smallGeometry soundEnv 1 remappedSmall).ni.mapped 1 = 1 ∧
      ¬ Restored (creationBlocks smallGeometry threeBlocks secondBad) 1 remappedSmall
        (unmapBlockNmbm smallGeometry soundEnv 1 remappedSmall) := by
  have hback : (unmapBlockNmbm smallGeometry soundEnv 1 remappedSmall).ni.mapped 1 = 1 := by
    decide +kernel
  have hblocks : (creationBlocks smallGeometry threeBlocks secondBad)[1]? = some 2 := by
    decide +kernel
  have hreached : Reached smallGeometry soundEnv threeBlocks secondBad remappedSmall :=
    .remap 1 2 0 createdSmall_reached
  have hlen : 1 < remappedSmall.ni.blockMapping.length := by
    rw [hreached.held.length]
    decide
  refine ⟨hreached, by decide +kernel, hback, ?_⟩
  intro h
  obtain ⟨pb, hpb, hmapping, -⟩ := h
  rw [hblocks] at hpb
  obtain rfl := some.inj hpb
  unfold Instance.mapped at hback
  rw [hmapping, mapped_set hlen, if_pos rfl] at hback
  exact absurd hback (by decide)

end LibWrt.Nmbm
