/-
LibWrt.Nmbm.Update — updating the tables keeps the mapping.

`Instance.core` is the part of the instance that no function of
`LibWrt.Nmbm.Table` changes. Each of them is a chain of table writes, which
keep more than that (`Worn.core`), and of changes to the places of the tables,
which keep it by definition.
-/
import LibWrt.Nmbm.Effects

namespace LibWrt.Nmbm

open LibWrt.Flash LibWrt.Bytes

variable {g : Geometry} {env : Env}

/-- The fields that table updates leave alone. -/
structure Core where
  blockMapping : List (BitVec 32)
  dataBlockCount : Nat
  mgmtStartBa : Nat
  mappingBlocksTopBa : Nat
  signatureBa : Nat

def Instance.core (ni : Instance) : Core where
  blockMapping := ni.blockMapping
  dataBlockCount := ni.dataBlockCount
  mgmtStartBa := ni.mgmtStartBa
  mappingBlocksTopBa := ni.mappingBlocksTopBa
  signatureBa := ni.signatureBa

variable {s s' : State} {r : Option (Nat × Nat)}

theorem Worn.core {lo hi : Nat} (h : Worn lo hi s s') : s'.ni.core = s.ni.core := by
  rw [h.frame]
  rfl

theorem eraseRange_core (ba limit : Nat) (s : State) :
    (eraseRange g env ba limit s).ni.core = s.ni.core :=
  (eraseRange_worn ba limit s).core

theorem writeInfoTable_core {ba limit : Nat} (h : writeInfoTable g env ba limit s = (r, s')) :
    s'.ni.core = s.ni.core := by
  have hworn : Worn ba limit s (writeInfoTable g env ba limit s).2 := writeInfoTable_worn ba limit s
  rw [h] at hworn
  exact hworn.core

theorem writeDownTo_core {start n : Nat} (h : writeDownTo g env start n s = (r, s')) :
    s'.ni.core = s.ni.core := by
  induction n generalizing s with
  | zero => exact writeInfoTable_core h
  | succ n ih =>
    unfold writeDownTo at h
    split at h
    · rename_i hw
      obtain ⟨-, rfl⟩ := Prod.mk.inj h
      exact writeInfoTable_core hw
    · rename_i hw
      exact (ih h).trans (writeInfoTable_core hw)

theorem rebuildInfoTable_core (s : State) : (rebuildInfoTable g env s).2.ni.core = s.ni.core := by
  unfold rebuildInfoTable
  dsimp only
  split
  · rename_i hw
    have hmain := writeInfoTable_core hw
    exact hmain
  · rename_i hw
    have hmain := writeInfoTable_core hw
    split
    · exact hmain
    · split
      · rename_i hw'
        have hbackup := writeInfoTable_core hw'
        exact hbackup.trans hmain
      · rename_i hw'
        have hbackup := writeInfoTable_core hw'
        exact (eraseRange_core _ _ _).trans (hbackup.trans hmain)

theorem rescueMainInfoTable_core (s : State) :
    (rescueMainInfoTable g env s).2.ni.core = s.ni.core := by
  unfold rescueMainInfoTable
  dsimp only
  split
  · rfl
  · split
    · rename_i hw
      have htmp := writeDownTo_core hw
      exact htmp
    · rename_i hw
      have htmp := writeDownTo_core hw
      split
      · rename_i hw'
        have hmain := writeInfoTable_core hw'
        exact hmain.trans htmp
      · rename_i hw'
        have hmain := writeInfoTable_core hw'
        split
        · exact hmain.trans htmp
        · split
          · exact hmain.trans htmp
          · split
            · rename_i hw''
              have hbackup := writeDownTo_core hw''
              exact hbackup.trans (hmain.trans htmp)
            · rename_i hw''
              have hbackup := writeDownTo_core hw''
              exact (eraseRange_core _ _ _).trans (hbackup.trans (hmain.trans htmp))

theorem updateMainTable_core (limit : Nat) (s : State) :
    (updateMainTable g env limit s).2.ni.core = s.ni.core := by
  unfold updateMainTable
  split
  · exact rebuildInfoTable_core s
  · split
    · rename_i hw
      have hmain := writeInfoTable_core hw
      split
      · exact (rebuildInfoTable_core _).trans hmain
      · exact (rescueMainInfoTable_core _).trans hmain
    · rename_i hw
      have hmain := writeInfoTable_core hw
      exact hmain

theorem updateInfoTableOnce_core (force : Bool) (s : State) :
    (updateInfoTableOnce g env force s).2.ni.core = s.ni.core := by
  unfold updateInfoTableOnce
  dsimp only
  split
  · rfl
  · split
    · exact updateMainTable_core _ _
    · split
      · rename_i hw
        have hbackup := writeInfoTable_core hw
        exact (updateMainTable_core _ _).trans hbackup
      · rename_i hw
        have hbackup := writeInfoTable_core hw
        exact (updateMainTable_core _ _).trans hbackup

theorem updateInfoTableFrom_core (fuel : Nat) (s : State) :
    (updateInfoTableFrom g env fuel s).2.ni.core = s.ni.core := by
  induction fuel generalizing s with
  | zero => rfl
  | succ fuel ih =>
    unfold updateInfoTableFrom
    split
    · rfl
    · have honce : (updateInfoTableOnce g env false s).2.ni.core = s.ni.core :=
        updateInfoTableOnce_core false s
      split
      · rename_i hw
        rwa [hw] at honce
      · rename_i hw
        rw [hw] at honce
        exact (ih _).trans honce

/-- Updating the tables leaves the mapping and the areas of the chip as they are. -/
theorem updateInfoTable_core (s : State) : (updateInfoTable g env s).2.ni.core = s.ni.core := by
  unfold updateInfoTable
  split
  · rfl
  · exact updateInfoTableFrom_core _ s

/-! ## Mapping a block -/

theorem mapBlock_eq {lb : Nat} (h : mapBlock g env lb s = (true, s')) :
    ∃ pb, blockWalkDesc g s.ni s.ni.mappingBlocksTopBa 0 s.ni.mappingBlocksBa = some pb ∧
      s' = { s with
        ni :=
          { s.ni with
            blockMapping := s.ni.blockMapping.set lb (BitVec.ofNat 32 pb)
            mappingBlocksTopBa := s.ni.mappingBlocksTopBa - 1
            blockMappingChanged := s.ni.blockMappingChanged + 1 } } := by
  unfold mapBlock at h
  split at h
  · simp at h
  · split at h
    · simp at h
    · rename_i pb hpb
      exact ⟨pb, hpb, (Prod.mk.inj h).2.symm⟩

end LibWrt.Nmbm
