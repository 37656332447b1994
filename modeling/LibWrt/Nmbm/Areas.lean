/-
LibWrt.Nmbm.Areas — the areas of the chip stay where the manager put them.

The tables, and the blocks that take the place of others, lie between the
start of the management blocks and the signature. Only the limits of the areas
are followed here, not their order: a table may be written over blocks that
are mapped (`mapBlock` lowers the top of the free blocks by one, also when it
goes by bad blocks).
-/
import LibWrt.Nmbm.Passes

namespace LibWrt.Nmbm

open LibWrt.Flash LibWrt.Bytes

variable {g : Geometry} {env : Env}

/-- The areas start at `lo` and end at `hi`. -/
structure State.Placed (lo hi : Nat) (s : State) : Prop where
  start : s.ni.mgmtStartBa = lo
  main : s.ni.mainTableBa = 0 ∨ lo ≤ s.ni.mainTableBa
  backup : s.ni.backupTableBa = 0 ∨ (lo ≤ s.ni.backupTableBa ∧ s.ni.backupTableBa ≤ hi)
  mapping : lo ≤ s.ni.mappingBlocksBa ∧ s.ni.mappingBlocksBa ≤ hi
  top : lo ≤ s.ni.mappingBlocksTopBa ∧ s.ni.mappingBlocksTopBa ≤ hi
  cache : s.ni.infoTableCache ≠ []

section Placed

variable {lo hi : Nat} {s s' : State}

section

variable (h : s.Placed lo hi)

include h

theorem State.Placed.worn {a b : Nat} (hw : Worn a b s s') :
    s'.Placed lo hi := by
  constructor <;> rw [hw.frame]
  · exact h.start
  · exact h.main
  · exact h.backup
  · exact h.mapping
  · exact h.top
  · exact h.cache

theorem writeInfoTable_placed {ba limit : Nat} {r : Option (Nat × Nat)}
    (hw : writeInfoTable g env ba limit s = (r, s')) : s'.Placed lo hi := by
  have hworn : Worn ba limit s (writeInfoTable g env ba limit s).2 := writeInfoTable_worn ba limit s
  rw [hw] at hworn
  exact h.worn hworn

/-- Where a table that is written lies. -/
theorem writeInfoTable_range {ba limit st en : Nat}
    (hw : writeInfoTable g env ba limit s = (some (st, en), s')) :
    ba ≤ st ∧ st < en ∧ en ≤ limit :=
  ⟨(writeInfoTable_at h.cache hw).1, writeInfoTable_end h.cache hw⟩

theorem writeDownTo_placed {start k : Nat} {r : Option (Nat × Nat)}
    (hw : writeDownTo g env start k s = (r, s')) : s'.Placed lo hi := by
  induction k generalizing s with
  | zero => exact writeInfoTable_placed h hw
  | succ k ih =>
    unfold writeDownTo at hw
    split at hw
    · rename_i hfirst
      obtain ⟨-, rfl⟩ := Prod.mk.inj hw
      exact writeInfoTable_placed h hfirst
    · rename_i hfirst
      exact ih (writeInfoTable_placed h hfirst) hw

theorem writeDownTo_range {start k st en : Nat}
    (hw : writeDownTo g env start k s = (some (st, en), s')) :
    start ≤ st ∧ st < en ∧ en ≤ s.ni.mappingBlocksTopBa := by
  induction k generalizing s with
  | zero => exact writeInfoTable_range h hw
  | succ k ih =>
    unfold writeDownTo at hw
    split at hw
    · rename_i hfirst
      obtain ⟨hrange, rfl⟩ := Prod.mk.inj hw
      rw [hrange] at hfirst
      obtain ⟨hle, hlt, hend⟩ := writeInfoTable_range h hfirst
      exact ⟨by omega, hlt, hend⟩
    · rename_i hfirst
      have hrest := ih (writeInfoTable_placed h hfirst) hw
      have htop := congrArg Core.mappingBlocksTopBa (writeInfoTable_core hfirst)
      dsimp only [Instance.core] at htop
      rwa [htop] at hrest

end

theorem rebuildInfoTable_placed (hstart : s.ni.mgmtStartBa = lo)
    (htop : lo ≤ s.ni.mappingBlocksTopBa ∧ s.ni.mappingBlocksTopBa ≤ hi)
    (hcache : s.ni.infoTableCache ≠ []) : (rebuildInfoTable g env s).2.Placed lo hi := by
  obtain ⟨s₀, hs₀⟩ : ∃ s₀ : State, s₀ = { s with ni := { s.ni with
    mainTableBa := 0, backupTableBa := 0, mappingBlocksBa := s.ni.mappingBlocksTopBa } } := ⟨_, rfl⟩
  have h₀ : s₀.Placed lo hi := by
    rw [hs₀]
    exact ⟨hstart, .inl rfl, .inl rfl, htop, htop, hcache⟩
  unfold rebuildInfoTable
  rw [← hs₀]
  dsimp only
  split
  · rename_i hw
    have h₁ := writeInfoTable_placed h₀ hw
    exact ⟨h₁.start, h₁.main, h₁.backup, h₁.mapping, h₁.top, h₁.cache⟩
  · rename_i st en s₁ hw
    have h₁ := writeInfoTable_placed h₀ hw
    obtain ⟨hle, hlt, hend⟩ := writeInfoTable_range h₀ hw
    have hlo := h₀.start
    have htop := h₀.top
    have hst : lo ≤ st := by omega
    have hen : lo ≤ en ∧ en ≤ hi := by omega
    set s₂ : State :=
      { s₁ with
        ni := ({ s₁.ni with mainTableBa := st, mappingBlocksBa := en } : Instance).markTablesClean }
      with hs₂
    have h₂ : s₂.Placed lo hi :=
      ⟨h₁.start, .inr hst, h₁.backup, hen, h₁.top, h₁.cache⟩
    split
    · exact h₂
    · rename_i nextStartBa hres
      obtain ⟨hnext, -⟩ := tryReserveBlocks_bounds hres
      split
      · rename_i hw'
        exact writeInfoTable_placed h₂ hw'
      · rename_i st' en' s₃ hw'
        have h₃ := writeInfoTable_placed h₂ hw'
        obtain ⟨hle', hlt', hend'⟩ := writeInfoTable_range h₂ hw'
        have htop' : en' ≤ hi := hend'.trans h₂.top.2
        have hst' : lo ≤ st' ∧ st' ≤ hi := by omega
        have hen' : lo ≤ en' ∧ en' ≤ hi := by omega
        refine State.Placed.worn ?_ (eraseRange_worn _ _ _)
        exact ⟨h₃.start, h₃.main, .inr hst', hen', h₃.top, h₃.cache⟩

section

variable (h : s.Placed lo hi)

include h

theorem State.backupToMain_placed : s.backupToMain.Placed lo hi :=
  ⟨h.start, h.backup.imp id And.left, .inl rfl, h.mapping, h.top, h.cache⟩

theorem rescueMainInfoTable_placed :
    (rescueMainInfoTable g env s).2.Placed lo hi := by
  unfold rescueMainInfoTable
  dsimp only
  split
  · exact State.backupToMain_placed h
  · split
    · rename_i hw
      exact State.backupToMain_placed (writeDownTo_placed h hw)
    · rename_i st en s₁ hw
      have h₁ := writeDownTo_placed h hw
      obtain ⟨hle, hlt, hend⟩ := writeDownTo_range h hw
      have hlow := h.mapping
      have htop := h.top
      have hst : lo ≤ st ∧ st ≤ hi := by omega
      have hen : lo ≤ en ∧ en ≤ hi := by omega
      have hmoved : State.Placed lo hi { s₁ with ni := { s₁.ni with mappingBlocksBa := en } } :=
        ⟨h₁.start, h₁.main, h₁.backup, hen, h₁.top, h₁.cache⟩
      split
      · rename_i hw'
        have h₂ := writeInfoTable_placed hmoved hw'
        exact ⟨h₂.start, .inr hst.1, .inl rfl, h₂.mapping, h₂.top, h₂.cache⟩
      · rename_i st' en' s₂ hw'
        have h₂ := writeInfoTable_placed hmoved hw'
        obtain ⟨hle', hlt', hend'⟩ := writeInfoTable_range hmoved hw'
        have hlo := h₁.start
        have hst' : lo ≤ st' := by
          rw [← hlo]
          exact hle'
        by_cases hfits : en' ≤ st
        · rw [if_pos hfits]
          exact ⟨h₂.start, .inr hst', .inr hst, h₂.mapping, h₂.top, h₂.cache⟩
        · have hen' : lo ≤ en' ∧ en' ≤ hi := by omega
          rw [if_neg hfits]
          split
          · exact ⟨h₂.start, .inr hst', .inl rfl, hen', h₂.top, h₂.cache⟩
          · set s₃ : State :=
              { s₂ with
                ni := { ({ s₂.ni with mainTableBa := st' } : Instance).markTablesClean with
                  mappingBlocksBa := en' } } with hs₃
            have h₃ : s₃.Placed lo hi :=
              ⟨h₂.start, .inr hst', h₂.backup, hen', h₂.top, h₂.cache⟩
            split
            · rename_i hw''
              have h₄ := writeDownTo_placed h₃ hw''
              exact ⟨h₄.start, h₄.main, .inl rfl, h₄.mapping, h₄.top, h₄.cache⟩
            · rename_i st'' en'' s₄ hw''
              have h₄ := writeDownTo_placed h₃ hw''
              obtain ⟨hle'', hlt'', hend''⟩ := writeDownTo_range h₃ hw''
              have htop'' := h₃.top
              have hst'' : lo ≤ st'' ∧ st'' ≤ hi := by omega
              have hen'' : lo ≤ en'' ∧ en'' ≤ hi := by omega
              refine State.Placed.worn ?_ (eraseRange_worn _ _ _)
              exact ⟨h₄.start, h₄.main, .inr hst'', hen'', h₄.top, h₄.cache⟩

theorem updateMainTable_placed {limit : Nat} (hlimit : limit ≤ hi) :
    (updateMainTable g env limit s).2.Placed lo hi := by
  unfold updateMainTable
  split
  · exact rebuildInfoTable_placed h.start h.top h.cache
  · rename_i hmain
    split
    · rename_i hw
      have h₁ := writeInfoTable_placed h hw
      split
      · exact rebuildInfoTable_placed h₁.start h₁.top h₁.cache
      · exact rescueMainInfoTable_placed h₁
    · rename_i st en s₁ hw
      have h₁ := writeInfoTable_placed h hw
      obtain ⟨hle, hlt, hend⟩ := writeInfoTable_range h hw
      have hlow := h.main.resolve_left hmain
      refine ⟨h₁.start, .inr (hlow.trans hle), h₁.backup, ?_, h₁.top, h₁.cache⟩
      dsimp only [Instance.markTablesClean]
      split
      · exact ⟨by omega, by omega⟩
      · exact h₁.mapping

theorem updateInfoTableOnce_placed {force : Bool} :
    (updateInfoTableOnce g env force s).2.Placed lo hi := by
  have h₀ : State.Placed lo hi { s with ni := (generateInfoTableCache g s.ni).2 } :=
    ⟨h.start, h.main, h.backup, h.mapping, h.top, infoTableCache_generated s.ni⟩
  unfold updateInfoTableOnce
  dsimp only
  split
  · exact h₀
  · split
    · exact updateMainTable_placed h₀ h₀.top.2
    · rename_i hbackup
      have hlow := h₀.backup.resolve_left hbackup
      split
      · rename_i s₁ hw
        have h₁ := writeInfoTable_placed h₀ hw
        have hkept : s₁.ni.backupTableBa = 0 ∨ (lo ≤ s₁.ni.backupTableBa ∧
          s₁.ni.backupTableBa ≤ hi) := h₁.backup
        have hworn := @writeInfoTable_worn g env
          (generateInfoTableCache g s.ni).2.backupTableBa
          (generateInfoTableCache g s.ni).2.mappingBlocksTopBa
          { ni := (generateInfoTableCache g s.ni).2, nand := s.nand }
        rw [hw] at hworn
        have hsame : s₁.ni.backupTableBa = (generateInfoTableCache g s.ni).2.backupTableBa := by
          rw [hworn.frame]
        refine updateMainTable_placed ?_ h₁.top.2
        refine ⟨h₁.start, h₁.main, .inl rfl, ?_, h₁.top, h₁.cache⟩
        show lo ≤ s₁.ni.backupTableBa ∧ s₁.ni.backupTableBa ≤ hi
        rw [hsame]
        exact hlow
      · rename_i st en s₁ hw
        have h₁ := writeInfoTable_placed h₀ hw
        obtain ⟨hle, hlt, hend⟩ := writeInfoTable_range h₀ hw
        have htop : en ≤ hi := hend.trans h₀.top.2
        have hlo : lo ≤ st := hlow.1.trans hle
        have hst : lo ≤ st ∧ st ≤ hi := by omega
        have hen : lo ≤ en ∧ en ≤ hi := by omega
        refine updateMainTable_placed ?_ hst.2
        exact ⟨h₁.start, h₁.main, .inr hst, hen, h₁.top, h₁.cache⟩

theorem updateInfoTableFrom_placed {fuel : Nat} :
    (updateInfoTableFrom g env fuel s).2.Placed lo hi := by
  induction fuel generalizing s with
  | zero => exact h
  | succ fuel ih =>
    unfold updateInfoTableFrom
    split
    · exact h
    · have honce : (updateInfoTableOnce g env false s).2.Placed lo hi :=
        updateInfoTableOnce_placed h
      split
      · rename_i hw
        rwa [hw] at honce
      · rename_i hw
        rw [hw] at honce
        exact ih honce

/-- Updating the tables leaves the areas between their limits. -/
theorem updateInfoTable_placed :
    (updateInfoTable g env s).2.Placed lo hi := by
  unfold updateInfoTable
  split
  · exact h
  · exact updateInfoTableFrom_placed h

end

end Placed

end LibWrt.Nmbm
