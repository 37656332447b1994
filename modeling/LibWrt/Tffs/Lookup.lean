/-
LibWrt.Tffs.Lookup — a lookup on an image.

A lookup comes to the sectors that are good, up to the first in a block that
ends it. The ids that are kept skip sectors that are of no use, with one
exception: the end of a block that the out of band bytes do not agree to ends
it only once its id is kept. `findEntry_spec` takes the sectors that count and
what their segments have to be, in any order of them.
-/
import LibWrt.Tffs.Segments

namespace LibWrt.Tffs

open List hiding mem_map
open Option hiding map map_map mem_map
open Function Nat

/-! ## The sectors that count -/

inductive Kind where
  | skip
  | stop
  | entry
  deriving DecidableEq

/-- What a sector is that is read; `torn` is for an end that is not consistent. -/
def sectorKind (cfg : Config) (torn : Kind) (id : Nat) (s : Sector) : Kind :=
  if cfg.readOobSectorHealth && !consistent cfg s then
    if readId cfg s = idEnd then torn else .skip
  else if readId cfg s = idEnd then .stop
  else if cfg.word 4 s.data 0x04 > maximumSegmentSize then .skip
  else if readId cfg s = id then .entry
  else .skip

def kind (cfg : Config) (good : Nat → Bool) (img : Image) (torn : Kind) (id sector : Nat) : Kind :=
  if good sector then sectorKind cfg torn id (img sector) else .skip

def entries (blockSectors : Nat) (kind : Nat → Kind) : Nat → Nat → Bool → List Nat
  | 0, _, _ => []
  | n + 1, sector, true => entries blockSectors kind n (sector + 1) (sector % blockSectors ≠ 0)
  | n + 1, sector, false =>
    match kind sector with
    | .skip => entries blockSectors kind n (sector + 1) false
    | .stop => entries blockSectors kind n (sector + 1) true
    | .entry => sector :: entries blockSectors kind n (sector + 1) false

def segmentSectors (cfg : Config) (good : Nat → Bool) (img : Image) (id : Nat) : List Sector :=
  (entries cfg.blockSectors (kind cfg good img .skip id) cfg.numSectors 0 false).map img

def segmentsOf (cfg : Config) (good : Nat → Bool) (img : Image) (id : Nat) : List Segment :=
  (segmentSectors cfg good img id).map (readSegment cfg)

section Entries

variable {blockSectors : Nat} {k k' : Nat → Kind}

variable {n sector : Nat} {b : Bool}

theorem entries_congr (h : ∀ i, sector ≤ i → i < sector + n → k i = k' i) :
    entries blockSectors k n sector b = entries blockSectors k' n sector b := by
  induction n generalizing sector b with
  | zero => rfl
  | succ n ih =>
    have hrest : ∀ b, entries blockSectors k n (sector + 1) b =
        entries blockSectors k' n (sector + 1) b := fun b =>
      ih fun i hi hlt => h i (by omega) (by omega)
    cases b with
    | true => exact hrest _
    | false =>
      rw [entries, entries, h sector le_rfl (by omega)]
      split <;> simp only [hrest]

theorem mem_entries {i : Nat} (h : i ∈ entries blockSectors k n sector b) :
    sector ≤ i ∧ i < sector + n ∧ k i = .entry := by
  induction n generalizing sector b with
  | zero => simp [entries] at h
  | succ n ih =>
    have hrest : ∀ b, i ∈ entries blockSectors k n (sector + 1) b →
        sector ≤ i ∧ i < sector + (n + 1) ∧ k i = .entry := by
      intro b hb
      obtain ⟨hle, hlt, hk⟩ := ih hb
      exact ⟨by omega, by omega, hk⟩
    cases b with
    | true => exact hrest _ h
    | false =>
      rw [entries] at h
      split at h
      · exact hrest _ h
      · exact hrest _ h
      · rename_i hk
        rcases mem_cons.mp h with rfl | h
        · exact ⟨le_rfl, by omega, hk⟩
        · exact hrest _ h

theorem nodup_entries (n sector : Nat) (b : Bool) :
    (entries blockSectors k n sector b).Nodup := by
  induction n generalizing sector b with
  | zero => simp [entries]
  | succ n ih =>
    cases b with
    | true => exact ih _ _
    | false =>
      rw [entries]
      split
      · exact ih _ _
      · exact ih _ _
      · refine nodup_cons.mpr ⟨fun hmem => ?_, ih _ _⟩
        have := (mem_entries hmem).1
        omega

theorem length_entries_le (n sector : Nat) (b : Bool) :
    (entries blockSectors k n sector b).length ≤ n := by
  induction n generalizing sector b with
  | zero => simp [entries]
  | succ n ih =>
    cases b with
    | true => exact le_trans (ih _ _) (le_succ n)
    | false =>
      rw [entries]
      split
      · exact le_trans (ih _ _) (le_succ n)
      · exact le_trans (ih _ _) (le_succ n)
      · exact succ_le_succ (ih _ _)

/-- With more ends, there are fewer sectors. -/
theorem entries_sublist {b' : Bool}
    (hk : ∀ i, sector ≤ i → i < sector + n → k' i = k i ∨ (k i = .skip ∧ k' i = .stop))
    (hhead : ∀ i, sector ≤ i → i < sector + n → i % blockSectors = 0 → k i = .skip)
    (hb : b = true → b' = true) :
    (entries blockSectors k' n sector b').Sublist (entries blockSectors k n sector b) := by
  induction n generalizing sector b b' with
  | zero => exact List.Sublist.refl _
  | succ n ih =>
    have hrest : ∀ b b' : Bool, (b = true → b' = true) →
        (entries blockSectors k' n (sector + 1) b').Sublist
          (entries blockSectors k n (sector + 1) b) := fun b b' hb =>
      ih (fun i hi hlt => hk i (by omega) (by omega))
        (fun i hi hlt => hhead i (by omega) (by omega)) hb
    cases b with
    | true =>
      rw [hb rfl]
      exact hrest _ _ id
    | false =>
      cases b' with
      | true =>
        -- the block has ended for one of them
        have hzero := hhead sector le_rfl (by omega)
        rw [entries, entries]
        split
        · exact hrest _ _ (by simp)
        · rename_i hstop
          refine hrest _ _ fun _ => ?_
          simpa using fun hz => absurd (hzero hz) (by simp [hstop])
        · rename_i hentry
          exact (hrest _ _ (by simp)).cons _
      | false =>
        rw [entries, entries]
        rcases hk sector le_rfl (by omega) with heq | ⟨hskip, hstop⟩
        · rw [heq]
          split
          · exact hrest _ _ id
          · exact hrest _ _ id
          · exact (hrest _ _ id).cons_cons _
        · rw [hskip, hstop]
          exact hrest _ _ (by simp)

end Entries

/-! ## A lookup that takes the ids that are kept -/

section Kept

variable {cfg : Config} {good : Nat → Bool} {img : Image} {id : Nat}

/-- The ids are those of the sectors, as far as they are known. -/
def IdsOk (cfg : Config) (img : Image) (sectorIds : Nat → Nat) : Prop :=
  ∀ i, sectorIds i = 0 ∨ sectorIds i = readId cfg (img i)

/-- What a sector is to a lookup with the ids that are kept. -/
def keptKind (cfg : Config) (good : Nat → Bool) (img : Image) (id : Nat) (sectorIds : Nat → Nat)
    (sector : Nat) : Kind :=
  if good sector ∧ sectorIds sector ≠ 0 ∧ sectorIds sector = idEnd then .stop
  else if good sector ∧ sectorIds sector ≠ 0 ∧ sectorIds sector ≠ id then .skip
  else kind cfg good img .skip id sector

variable {sectorIds : Nat → Nat}

/-- The ids that are kept make a difference only for ends that are not consistent. -/
theorem keptKind_cases (good : Nat → Bool) (id : Nat) (hids : IdsOk cfg img sectorIds) (i : Nat) :
    keptKind cfg good img id sectorIds i = kind cfg good img .skip id i ∨
      (kind cfg good img .skip id i = .skip ∧ keptKind cfg good img id sectorIds i = .stop ∧
        kind cfg good img .stop id i = .stop) := by
  unfold keptKind
  split
  · rename_i hstop
    obtain ⟨hgood, hne, hend⟩ := hstop
    have hid : readId cfg (img i) = idEnd := by
      rcases hids i with hzero | hid
      · exact absurd hzero hne
      · rw [← hid, hend]
    unfold kind sectorKind
    simp only [hgood, hid, if_true]
    split
    · exact .inr ⟨rfl, trivial, rfl⟩
    · exact .inl rfl
  · split
    · rename_i hnstop hother
      obtain ⟨hgood, hne, hnid⟩ := hother
      left
      have hid : readId cfg (img i) = sectorIds i := by
        rcases hids i with hzero | hid
        · exact absurd hzero hne
        · exact hid.symm
      have hnend : sectorIds i ≠ idEnd := fun hend => hnstop ⟨hgood, hne, hend⟩
      unfold kind sectorKind
      simp only [hgood, hid, hnend, hnid, if_true, if_false]
      split
      · rfl
      · split <;> rfl
    · exact .inl rfl

theorem kind_torn (i : Nat) : kind cfg good img .stop id i = kind cfg good img .skip id i ∨
    (kind cfg good img .skip id i = .skip ∧ kind cfg good img .stop id i = .stop) := by
  unfold kind sectorKind
  split
  · split
    · split
      · exact .inr ⟨rfl, rfl⟩
      · exact .inl rfl
    · exact .inl rfl
  · exact .inl rfl

def turned (cfg : Config) (img : Image) (sector : Nat) (l : Lookup) (sectorIds : Nat → Nat) :
    Kind → Option Lookup
  | .skip => some { l with sectorIds }
  | .stop => some { l with sectorIds, blockEnd := true }
  | .entry =>
    (collect cfg.maxSegments l.collected (readSegment cfg (img sector))).map fun collected =>
      { l with sectorIds, collected }

theorem readSector_eq (sector : Nat) (l : Lookup) :
    readSector cfg (img sector) id sector l = turned cfg img sector l
      (update l.sectorIds sector (readId cfg (img sector)))
      (sectorKind cfg .skip id (img sector)) := by
  unfold readSector sectorKind
  dsimp only
  split
  · split <;> rfl
  · split
    · rfl
    · split
      · rfl
      · split <;> rfl

/-- A turn keeps the ids right, and those of the sectors to come as they are. -/
theorem findTurn_eq (good : Nat → Bool) (id sector : Nat) {l : Lookup} (hids : IdsOk cfg img l.sectorIds)
    (hopen : l.blockEnd = false) : ∃ ids', IdsOk cfg img ids' ∧
      (∀ i, i ≠ sector → ids' i = l.sectorIds i) ∧ findTurn cfg good img id sector l =
        turned cfg img sector l ids' (keptKind cfg good img id l.sectorIds sector) := by
  have hread : IdsOk cfg img (update l.sectorIds sector (readId cfg (img sector))) := by
    intro i
    rcases eq_or_ne i sector with rfl | hne
    · exact .inr (update_self _ _ _)
    · rw [update_of_ne hne]
      exact hids i
  unfold findTurn keptKind kind
  simp only [hopen, Bool.false_eq_true, if_false]
  by_cases hgood : good sector = true
  · simp only [hgood, if_true, true_and]
    split
    · exact ⟨l.sectorIds, hids, fun _ _ => rfl, rfl⟩
    · split
      · exact ⟨l.sectorIds, hids, fun _ _ => rfl, rfl⟩
      · exact ⟨_, hread, fun i hne => update_of_ne hne _ _, readSector_eq sector l⟩
  · simp only [hgood, Bool.false_eq_true, if_false, false_and]
    exact ⟨l.sectorIds, hids, fun _ _ => rfl, rfl⟩

/-- The loop collects the segments of the sectors that count. -/
theorem findLoop_spec (good : Nat → Bool) (id n sector : Nat) {l : Lookup}
    (hids : IdsOk cfg img l.sectorIds) (hsame : ∀ i, sector ≤ i → l.sectorIds i = sectorIds i) :
    (findLoop cfg good img id n sector l).map (·.collected) =
        collectAll cfg.maxSegments ((entries cfg.blockSectors
          (keptKind cfg good img id sectorIds) n sector l.blockEnd).map
            fun i => readSegment cfg (img i)) l.collected ∧
      ∀ l', findLoop cfg good img id n sector l = some l' → IdsOk cfg img l'.sectorIds := by
  induction n generalizing sector l with
  | zero =>
    refine ⟨rfl, fun l' hl' => ?_⟩
    obtain rfl := some.inj hl'
    exact hids
  | succ n ih =>
    rw [findLoop]
    obtain ⟨blockEnd, collected, ids⟩ := l
    cases blockEnd with
    | true =>
      have hturn : findTurn cfg good img id sector ⟨true, collected, ids⟩ =
          some ⟨decide (sector % cfg.blockSectors ≠ 0), collected, ids⟩ := by
        by_cases hz : sector % cfg.blockSectors = 0 <;> simp [findTurn, hz]
      have hnext : ∀ i, sector + 1 ≤ i → ids i = sectorIds i := fun i hi => hsame i (by omega)
      rw [hturn, bind_some, entries]
      exact ih _ (l := ⟨decide (sector % cfg.blockSectors ≠ 0), collected, ids⟩) hids hnext
    | false =>
      obtain ⟨ids', hids', hothers, hturn⟩ := findTurn_eq good id sector hids rfl
      have hnext : ∀ i, sector + 1 ≤ i → ids' i = sectorIds i := fun i hi => by
        rw [hothers i (by omega), hsame i (by omega)]
      have hkept : keptKind cfg good img id ids sector =
          keptKind cfg good img id sectorIds sector := by
        unfold keptKind
        rw [show ids sector = sectorIds sector from hsame sector le_rfl]
      rw [hturn, hkept, entries]
      cases keptKind cfg good img id sectorIds sector with
      | skip => exact ih _ (l := ⟨false, collected, ids'⟩) hids' hnext
      | stop => exact ih _ (l := ⟨true, collected, ids'⟩) hids' hnext
      | entry =>
        simp only [turned, map_cons, collectAll]
        cases collect cfg.maxSegments collected (readSegment cfg (img sector)) with
        | none => exact ⟨rfl, fun l' hl' => by cases hl'⟩
        | some collected => exact ih _ (l := ⟨false, collected, ids'⟩) hids' hnext

/-- No sector of the entry is behind an end that is not consistent. -/
def Steady (cfg : Config) (good : Nat → Bool) (img : Image) (id : Nat) : Prop :=
  entries cfg.blockSectors (kind cfg good img .stop id) cfg.numSectors 0 false =
    entries cfg.blockSectors (kind cfg good img .skip id) cfg.numSectors 0 false

/-- Then it does not matter which ids are kept. -/
theorem entries_keptKind (hhead : ∀ i < cfg.numSectors, i % cfg.blockSectors = 0 → good i = false)
    (hsteady : Steady cfg good img id) (hids : IdsOk cfg img sectorIds) :
    entries cfg.blockSectors (keptKind cfg good img id sectorIds) cfg.numSectors 0 false =
      entries cfg.blockSectors (kind cfg good img .skip id) cfg.numSectors 0 false := by
  have hskip : ∀ i, 0 ≤ i → i < 0 + cfg.numSectors → i % cfg.blockSectors = 0 →
      kind cfg good img .skip id i = .skip := by
    intro i _ hi hz
    rw [kind, hhead i (by omega) hz]
    rfl
  have hskip' : ∀ i, 0 ≤ i → i < 0 + cfg.numSectors → i % cfg.blockSectors = 0 →
      keptKind cfg good img id sectorIds i = .skip := by
    intro i h0 hi hz
    rcases keptKind_cases good id hids i with heq | ⟨-, -, hstop⟩
    · rw [heq, hskip i h0 hi hz]
    · rw [kind, hhead i (by omega) hz] at hstop
      cases hstop
  have hfewer : ∀ i, 0 ≤ i → i < 0 + cfg.numSectors →
      keptKind cfg good img id sectorIds i = kind cfg good img .skip id i ∨
        (kind cfg good img .skip id i = .skip ∧ keptKind cfg good img id sectorIds i = .stop) := by
    intro i _ _
    exact (keptKind_cases good id hids i).imp_right fun h => ⟨h.1, h.2.1⟩
  have hmore : ∀ i, 0 ≤ i → i < 0 + cfg.numSectors →
      kind cfg good img .stop id i = keptKind cfg good img id sectorIds i ∨
        (keptKind cfg good img id sectorIds i = .skip ∧ kind cfg good img .stop id i = .stop) := by
    intro i _ _
    rcases keptKind_cases good id hids i with heq | ⟨-, hkept, hstop⟩
    · rw [heq]
      exact kind_torn i
    · exact .inl (hstop.trans hkept.symm)
  have hclosed : false = true → false = true := fun h => h
  have hupper := entries_sublist hfewer hskip hclosed
  have hlower := entries_sublist hmore hskip' hclosed
  rw [hsteady] at hlower
  exact hupper.antisymm hlower

/-- A lookup of the segments that count. -/
theorem findEntry_eq (hids : IdsOk cfg img sectorIds)
    (hentries : entries cfg.blockSectors (keptKind cfg good img id sectorIds) cfg.numSectors 0
      false = entries cfg.blockSectors (kind cfg good img .skip id) cfg.numSectors 0 false) :
    (findEntry cfg good img id sectorIds).map (·.1) =
        lookup cfg.maxSegments (segmentsOf cfg good img id) ∧
      ∀ r, findEntry cfg good img id sectorIds = some r → IdsOk cfg img r.2 := by
  obtain ⟨hcollected, hafter⟩ := findLoop_spec good id cfg.numSectors 0
    (l := ⟨false, ⟨0, []⟩, sectorIds⟩) hids fun _ _ => rfl
  rw [hentries] at hcollected
  unfold findEntry lookup segmentsOf segmentSectors
  rw [List.map_map]
  change _ = collectAll _ (List.map (readSegment cfg ∘ img) _) _ at hcollected
  rw [← hcollected]
  cases hloop : findLoop cfg good img id cfg.numSectors 0 ⟨false, ⟨0, []⟩, sectorIds⟩ with
  | none => exact ⟨rfl, fun r hr => by cases hr⟩
  | some l =>
    simp only [bind_some, map_some]
    cases hvalue : assemble l.collected.segments with
    | none => exact ⟨rfl, fun r hr => by cases hr⟩
    | some value =>
      refine ⟨rfl, fun r hr => ?_⟩
      obtain rfl := some.inj hr
      exact hafter l hloop

/-- The ids stay right, whatever is looked up. -/
theorem findEntries_idsOk {history : List Nat} {ids' : Nat → Nat} (hids : IdsOk cfg img sectorIds)
    (h : findEntries cfg good img history sectorIds = some ids') : IdsOk cfg img ids' := by
  induction history generalizing sectorIds with
  | nil =>
    obtain rfl := some.inj h
    exact hids
  | cons id history ih =>
    obtain ⟨r, hr, hrest⟩ := bind_eq_some_iff.mp h
    obtain ⟨l, hloop, hvalue⟩ := bind_eq_some_iff.mp hr
    obtain ⟨value, -, rfl⟩ := map_eq_some_iff.mp hvalue
    exact ih ((findLoop_spec good id _ 0 hids fun _ _ => rfl).2 l hloop) hrest

end Kept

/-! ## What the scan leaves -/

section Scanned

variable {cfg : Config} {img : Image}

variable {s : Scan} {sector n : Nat} {ok : Bool}

theorem markHeaderBad_le {s : Sector} {i : Nat} {good good' : Nat → Bool}
    (h : markHeaderBad cfg s sector n i good = some good') (j : Nat) (hj : good' j = true) :
    good j = true := by
  induction n generalizing i good with
  | zero =>
    obtain rfl := some.inj h
    exact hj
  | succ n ih =>
    obtain ⟨marked, hmark, hrest⟩ := bind_eq_some_iff.mp h
    have hmarked := ih hrest
    unfold sectorMarkBad at hmark
    split at hmark
    · obtain rfl := some.inj hmark
      by_contra hbad
      by_cases hk : j = (sector + cfg.word 8 s.data (0x1c + 8 * i)) % 2 ^ 32
      · rw [hk, update_self] at hmarked
        cases hmarked
      · rw [update_of_ne hk] at hmarked
        exact hbad hmarked
    · cases hmark

/-- A block header marks sectors, and its id is kept. -/
theorem checkBlock_spec {s' : Scan} (h : checkBlock cfg img sector s = some (ok, s')) :
    (∀ j, s'.good j = true → s.good j = true) ∧
      (∀ j, j ≠ sector → s'.sectorIds j = s.sectorIds j) ∧
      (IdsOk cfg img s.sectorIds → IdsOk cfg img s'.sectorIds) := by
  have hothers : ∀ j, j ≠ sector → update s.sectorIds sector
      (cfg.word 4 (img sector).data 0) j = s.sectorIds j := fun j hne =>
    update_of_ne hne _ _
  have hkept : IdsOk cfg img s.sectorIds → IdsOk cfg img (update s.sectorIds sector
      (cfg.word 4 (img sector).data 0)) := by
    intro hids j
    rcases eq_or_ne j sector with rfl | hne
    · exact .inr (update_self _ _ _)
    · rw [hothers j hne]
      exact hids j
  unfold checkBlock at h
  dsimp only at h
  split at h
  · obtain ⟨rfl, rfl⟩ := Prod.mk.inj (some.inj h)
    exact ⟨fun _ hj => hj, fun _ _ => rfl, fun hids => hids⟩
  · split at h
    · obtain ⟨rfl, rfl⟩ := Prod.mk.inj (some.inj h)
      exact ⟨fun _ hj => hj, hothers, hkept⟩
    · split at h
      · obtain ⟨rfl, rfl⟩ := Prod.mk.inj (some.inj h)
        exact ⟨fun _ hj => hj, hothers, hkept⟩
      · obtain ⟨good, hgood, heq⟩ := map_eq_some_iff.mp h
        obtain ⟨rfl, rfl⟩ := Prod.mk.inj heq
        exact ⟨markHeaderBad_le hgood, hothers, hkept⟩

theorem scanLoop_spec {valid valid' : Nat} {s' : Scan}
    (h : scanLoop cfg img n sector ok valid s = some (valid', s')) :
    (∀ j, s'.good j = true → s.good j = true) ∧
      (∀ i, sector ≤ i → i < sector + n → s'.good i = true →
        i % cfg.blockSectors ≠ 0 ∧ checkSector cfg (img i) = true) ∧
      (∀ i, i % cfg.blockSectors ≠ 0 → s'.sectorIds i = s.sectorIds i) ∧
      (IdsOk cfg img s.sectorIds → IdsOk cfg img s'.sectorIds) := by
  induction n generalizing sector ok valid s with
  | zero =>
    obtain ⟨-, rfl⟩ := Prod.mk.inj (some.inj h)
    exact ⟨fun _ hj => hj, fun i hi hlt => by omega, fun _ _ => rfl, fun hids => hids⟩
  | succ n ih =>
    have hmarked : ∀ (good : Nat → Bool) (j : Nat),
        update good sector false j = true → j ≠ sector ∧ good j = true := by
      intro good j hj
      rcases eq_or_ne j sector with rfl | hne
      · rw [update_self] at hj
        cases hj
      · rw [update_of_ne hne] at hj
        exact ⟨hne, hj⟩
    rw [scanLoop] at h
    split at h
    · rename_i hhead
      obtain ⟨⟨ok', s₁⟩, hcheck, hrest⟩ := bind_eq_some_iff.mp h
      obtain ⟨hgood, hids, hok⟩ := checkBlock_spec hcheck
      obtain ⟨hgood', hafter, hids', hok'⟩ := ih hrest
      refine ⟨fun j hj => hgood j (hmarked _ j (hgood' j hj)).2, fun i hi hlt hi' => ?_,
        fun i hi => ?_, fun h => hok' (hok h)⟩
      · have hne := (hmarked _ i (hgood' i hi')).1
        exact hafter i (by omega) (by omega) hi'
      · rw [hids' i hi]
        exact hids i fun heq => hi (heq ▸ hhead)
    · rename_i hhead
      split at h
      · obtain ⟨hgood', hafter, hids', hok'⟩ := ih h
        refine ⟨fun j hj => (hmarked _ j (hgood' j hj)).2, fun i hi hlt hi' => ?_, hids', hok'⟩
        have hne := (hmarked _ i (hgood' i hi')).1
        exact hafter i (by omega) (by omega) hi'
      · rename_i hgoodsector
        obtain ⟨hgood', hafter, hids', hok'⟩ := ih h
        refine ⟨hgood', fun i hi hlt hi' => ?_, hids', hok'⟩
        rcases eq_or_ne i sector with rfl | hne
        · simp only [Bool.or_eq_true, Bool.not_eq_true', not_or, Bool.not_eq_false] at hgoodsector
          exact ⟨hhead, hgoodsector.2⟩
        · exact hafter i (by omega) (by omega) hi'

/-- An image that is accepted: its good sectors were checked, and their ids are not known yet. -/
theorem scanMtd_spec (h : scanMtd cfg img = some s) :
    (∀ i < cfg.numSectors, s.good i = true →
        i % cfg.blockSectors ≠ 0 ∧ checkSector cfg (img i) = true) ∧
      (∀ i, i % cfg.blockSectors ≠ 0 → s.sectorIds i = 0) ∧ IdsOk cfg img s.sectorIds := by
  unfold scanMtd at h
  split at h
  · rename_i valid s₁ hloop
    split at h
    · obtain rfl := some.inj h
      obtain ⟨-, hgood, hids, hok⟩ := scanLoop_spec hloop
      exact ⟨fun i hi => hgood i (Nat.zero_le i) (by omega), hids, hok fun _ => .inl rfl⟩
    · cases h
  · cases h

/-- The scan only looks at the block headers, and whether the sectors are good. -/
theorem scanLoop_congr {img' : Image} {valid : Nat}
    (hhead : ∀ i, i % cfg.blockSectors = 0 → img' i = img i)
    (hcheck : ∀ i, checkSector cfg (img' i) = checkSector cfg (img i)) :
    scanLoop cfg img' n sector ok valid s = scanLoop cfg img n sector ok valid s := by
  induction n generalizing sector ok valid s with
  | zero => rfl
  | succ n ih =>
    rw [scanLoop, scanLoop]
    split
    · rename_i hz
      have hblock : checkBlock cfg img' sector s = checkBlock cfg img sector s := by
        unfold checkBlock
        rw [hhead sector hz]
      rw [hblock]
      simp only [ih]
    · rw [hcheck]
      simp only [ih]

theorem scanMtd_congr {img' : Image} (hhead : ∀ i, i % cfg.blockSectors = 0 → img' i = img i)
    (hcheck : ∀ i, checkSector cfg (img' i) = checkSector cfg (img i)) :
    scanMtd cfg img' = scanMtd cfg img := by
  unfold scanMtd
  rw [scanLoop_congr hhead hcheck]

/-- The sectors of an entry in another order are those of an image that is scanned alike. -/
theorem exists_image (h : scanMtd cfg img = some s) {id : Nat} {sectors : List Sector}
    (hperm : sectors.Perm (segmentSectors cfg s.good img id)) :
    ∃ img', scanMtd cfg img' = some s ∧ segmentSectors cfg s.good img' id = sectors := by
  obtain ⟨hgood, -, -⟩ := scanMtd_spec h
  unfold segmentSectors at hperm ⊢
  set places := entries cfg.blockSectors (kind cfg s.good img .skip id) cfg.numSectors 0 false
    with hplaces
  have hplace : ∀ i ∈ places, i < cfg.numSectors ∧ s.good i = true ∧
      sectorKind cfg .skip id (img i) = .entry := by
    intro i hi
    obtain ⟨-, hlt, hkind⟩ := mem_entries hi
    unfold kind at hkind
    split at hkind
    · rename_i hg
      exact ⟨by omega, hg, hkind⟩
    · cases hkind
  have hlen : sectors.length = places.length := by simpa using hperm.length_eq
  have hfrom : ∀ x ∈ sectors, ∃ i ∈ places, img i = x := by
    intro x hx
    simpa using hperm.mem_iff.mp hx
  set img' : Image := fun i => if i ∈ places then sectors.getD (places.idxOf i) (img i) else img i
    with himg'
  have hout : ∀ i, i ∉ places → img' i = img i := fun i hi => if_neg hi
  have hin : ∀ i ∈ places, img' i ∈ sectors := by
    intro i hi
    have hlt : places.idxOf i < sectors.length := by
      rw [hlen]
      exact idxOf_lt_length_of_mem hi
    simp only [himg', if_pos hi, getD_eq_getElem?_getD, getElem?_eq_getElem hlt]
    exact getElem_mem hlt
  have hsame : ∀ i ∈ places, ∃ j ∈ places, img' i = img j := by
    intro i hi
    obtain ⟨j, hj, heq⟩ := hfrom _ (hin i hi)
    exact ⟨j, hj, heq.symm⟩
  refine ⟨img', ?_, ?_⟩
  · rw [← h]
    refine scanMtd_congr ?_ ?_
    · intro i hz
      refine hout i fun hi => ?_
      obtain ⟨hlt, hg, -⟩ := hplace i hi
      exact (hgood i hlt hg).1 hz
    · intro i
      by_cases hi : i ∈ places
      · obtain ⟨j, hj, heq⟩ := hsame i hi
        obtain ⟨hlt, hg, -⟩ := hplace i hi
        obtain ⟨hltj, hgj, -⟩ := hplace j hj
        rw [heq, (hgood i hlt hg).2, (hgood j hltj hgj).2]
      · rw [hout i hi]
  · have hkinds : entries cfg.blockSectors (kind cfg s.good img' .skip id) cfg.numSectors 0 false =
        places := by
      refine entries_congr fun i _ _ => ?_
      by_cases hi : i ∈ places
      · obtain ⟨j, hj, heq⟩ := hsame i hi
        unfold kind
        rw [heq, (hplace i hi).2.2, (hplace j hj).2.2]
      · unfold kind
        rw [hout i hi]
    rw [hkinds]
    apply ext_getElem (by simp [hlen])
    intro k hk hk'
    have hkp : k < places.length := by simpa using hk
    have hidx : places.idxOf places[k] = k := (nodup_entries _ _ _).idxOf_getElem k hkp
    simp [himg', hidx, hk']

end Scanned

/-! ## What a lookup is to find -/

/-- The value of the highest revision is found, or it is not there: whatever was looked up
    before, and wherever the sectors of the entry are. -/
def Right (cfg : Config) (img : Image) (s : Scan) (id : Nat) : Prop :=
  ∃ r, Meets (segmentsOf cfg s.good img id) r ∧
    (∀ history ids', findEntries cfg s.good img history s.sectorIds = some ids' →
      ∃ ids'', findEntry cfg s.good img id ids' = some (r, ids'')) ∧
    ∀ img' s', scanMtd cfg img' = some s' →
      (segmentSectors cfg s'.good img' id).Perm (segmentSectors cfg s.good img id) →
      ∃ ids'', findEntry cfg s'.good img' id s'.sectorIds = some (r, ids'')

/-- The segments stay in the array, and if all are there, no two of one number differ. -/
def Fits (maxSegments : Nat) (segs : List Segment) : Prop :=
  (∀ e ∈ segs, InArray maxSegments e) ∧ (Missing segs ∨ Unambiguous segs)

section Found

variable {cfg : Config} {img : Image} {s : Scan} {id : Nat}

/-- A segment that is longer than possible is no entry. -/
theorem length_le_of_entry {good : Nat → Bool} {i : Nat}
    (h : kind cfg good img .skip id i = .entry) :
    cfg.word 4 (img i).data 0x04 ≤ maximumSegmentSize := by
  by_contra hlong
  unfold kind sectorKind at h
  simp only [Nat.not_le.mp hlong, if_true] at h
  split at h
  · split at h
    · split at h <;> cases h
    · split at h <;> cases h
  · cases h

theorem segments_fit (cfg : Config) (good : Nat → Bool) (img : Image) (id : Nat) :
    (∀ e ∈ segmentsOf cfg good img id, e.val.length ≤ maximumSegmentSize) ∧
      maximumSegmentSize * (segmentsOf cfg good img id).length < 2 ^ 32 := by
  constructor
  · intro e he
    simp only [segmentsOf, segmentSectors, List.map_map, List.mem_map, comp_apply] at he
    obtain ⟨i, hi, rfl⟩ := he
    have hlen := length_le_of_entry (mem_entries hi).2.2
    exact le_trans (length_take_le _ _) hlen
  · have hle : (segmentsOf cfg good img id).length ≤ cfg.numSectors := by
      simpa [segmentsOf, segmentSectors] using length_entries_le _ _ _
    have hsize := cfg.size_lt
    have hmax : maximumSegmentSize * (segmentsOf cfg good img id).length ≤
        0x800 * cfg.numSectors := Nat.mul_le_mul (by decide) hle
    omega

/-- The first lookup after the scan. -/
theorem findEntry_first (h : scanMtd cfg img = some s) (id : Nat) :
    (findEntry cfg s.good img id s.sectorIds).map (·.1) =
      lookup cfg.maxSegments (segmentsOf cfg s.good img id) := by
  obtain ⟨hgood, hfresh, hids⟩ := scanMtd_spec h
  refine (findEntry_eq hids (entries_congr fun i _ hi => ?_)).1
  unfold keptKind
  by_cases hg : s.good i = true
  · have hzero := hfresh i (hgood i (by omega) hg).1
    simp [hzero]
  · simp [hg]

theorem exists_of_map_eq {r : Option (List UInt8)}
    {found : Option (Option (List UInt8) × (Nat → Nat))} (h : found.map (·.1) = some r) : ∃ ids'', found = some (r, ids'') := by
  obtain ⟨⟨value, ids''⟩, rfl, rfl⟩ := map_eq_some_iff.mp h
  exact ⟨ids'', rfl⟩

theorem exists_perm_of_map {α β : Type} {f : α → β} {l : List α} {l' : List β}
    (h : l'.Perm (l.map f)) : ∃ m : List α, m.Perm l ∧ m.map f = l' := by
  generalize hmap : l.map f = l'' at h
  induction h generalizing l with
  | nil => exact ⟨l, .refl _, hmap⟩
  | cons b _ ih =>
    obtain ⟨a, rest, rfl, rfl, rfl⟩ := map_eq_cons_iff.mp hmap
    obtain ⟨m, hm, hmapm⟩ := ih rfl
    exact ⟨a :: m, hm.cons a, by rw [map_cons, hmapm]⟩
  | swap b b' _ =>
    obtain ⟨a, rest, rfl, rfl, hrest⟩ := map_eq_cons_iff.mp hmap
    obtain ⟨a', rest', rfl, rfl, rfl⟩ := map_eq_cons_iff.mp hrest
    exact ⟨a' :: a :: rest', .swap _ _ _, rfl⟩
  | trans _ _ ih₁ ih₂ =>
    obtain ⟨m, hm, rfl⟩ := ih₂ hmap
    obtain ⟨m', hm', hmap'⟩ := ih₁ rfl
    exact ⟨m', hm'.trans hm, hmap'⟩

/-- If the segments of an entry fit and none is behind an end that is not consistent, a lookup
    is right; and if it is, they fit. -/
theorem findEntry_spec (h : scanMtd cfg img = some s) :
    (Fits cfg.maxSegments (segmentsOf cfg s.good img id) ∧ Steady cfg s.good img id →
        Right cfg img s id) ∧
      (Right cfg img s id → Fits cfg.maxSegments (segmentsOf cfg s.good img id)) := by
  obtain ⟨hval, hsize⟩ := segments_fit cfg s.good img id
  obtain ⟨hgood, -, hids⟩ := scanMtd_spec h
  constructor
  · rintro ⟨⟨harray, hone⟩, hsteady⟩
    obtain ⟨r, hmeets, hlookup⟩ := lookup_spec harray hone hval hsize
    refine ⟨r, hmeets, fun history ids' hhistory => exists_of_map_eq ?_,
      fun img' s' hscan hperm => exists_of_map_eq ?_⟩
    · have hhead : ∀ i < cfg.numSectors, i % cfg.blockSectors = 0 → s.good i = false := by
        intro i hi hz
        by_contra hg
        exact (hgood i hi (by simpa using hg)).1 hz
      have hids' := findEntries_idsOk hids hhistory
      rw [(findEntry_eq hids' (entries_keptKind hhead hsteady hids')).1]
      exact hlookup _ (.refl _)
    · rw [findEntry_first hscan id]
      exact hlookup _ (hperm.map _)
  · rintro ⟨r, hmeets, -, horder⟩
    -- the segments in any order are those of an image
    have hlookup : ∀ segs', segs'.Perm (segmentsOf cfg s.good img id) →
        lookup cfg.maxSegments segs' = some r := by
      intro segs' hperm
      obtain ⟨sectors, hsectors, rfl⟩ := exists_perm_of_map hperm
      obtain ⟨img', hscan, himg'⟩ := exists_image h hsectors
      obtain ⟨ids'', hfound⟩ := horder img' s hscan (by rw [himg']; exact hsectors)
      have hfirst := findEntry_first hscan id
      rw [hfound, segmentsOf, himg'] at hfirst
      exact hfirst.symm
    have harray : ∀ e ∈ segmentsOf cfg s.good img id, InArray cfg.maxSegments e := by
      intro e he
      obtain ⟨a, b, hab⟩ := append_of_mem he
      have hfront := hlookup (e :: (a ++ b)) (hab ▸ perm_middle.symm)
      exact inArray_of_lookup (by rw [hfront]; simp)
    refine ⟨harray, ?_⟩
    by_cases hmissing : Missing (segmentsOf cfg s.good img id)
    · exact .inl hmissing
    · refine .inr (unambiguous_of_lookup harray hval hsize hmissing fun segs' segs'' h' h'' => ?_)
      rw [hlookup _ h', hlookup _ h'']

/-- Without the out of band bytes, every end is consistent. -/
theorem steady_of_no_oob (hoob : cfg.readOobSectorHealth = false) : Steady cfg s.good img id := by
  refine entries_congr fun i _ _ => ?_
  simp [kind, sectorKind, hoob]

end Found

/-! ## Two images -/

def twoSectors : Config where
  big := true
  readOobSectorHealth := false
  maxSegments := 2 ^ 29 - 1
  blockSectors := 2
  numSectors := 2
  size_lt := by decide

def sectorOf (bytes : List UInt8) (h : bytes.length ≤ 0x800) : Sector where
  data := bytes ++ List.replicate (0x800 - bytes.length) 0
  oob := []
  data_length := by
    rw [length_append, length_replicate]
    omega

/-- A block header, and a segment of entry 512 in revision 1 with these numbers. -/
def oneSegment (seg nextSeg : UInt8) : Image
  | 0 => sectorOf [65, 86, 77, 95, 84, 70, 70, 83, 0, 0, 0, 0, 0, 0, 0, 2] (by decide)
  | _ => sectorOf [0, 0, 2, 0, 0, 0, 0, 2, 0, 0, 0, 0, 0, 0, 0, 1, 0, 0, 0, seg,
      0, 0, 0, nextSeg, 104, 105] (le_of_ble_eq_true rfl)

def fourSectors : Config :=
  { twoSectors with blockSectors := 4, numSectors := 4, size_lt := by decide }

/-- The two segments of revision 1 in the wrong order, and an old one between them. -/
def twoSegments : Image
  | 0 => oneSegment 0 0 0
  | 1 => oneSegment 1 0 1
  | 2 => sectorOf [0, 0, 2, 0, 0, 0, 0, 1, 0, 0, 0, 0, 0, 0, 0, 0, 0, 0, 0, 0,
      0, 0, 0, 0, 97] (le_of_ble_eq_true rfl)
  | _ => sectorOf [0, 0, 2, 0, 0, 0, 0, 1, 0, 0, 0, 0, 0, 0, 0, 1, 0, 0, 0, 0,
      0, 0, 0, 1, 97] (le_of_ble_eq_true rfl)

theorem findEntry_twoSegments : ∃ s, scanMtd fourSectors twoSegments = some s ∧
    Right fourSectors twoSegments s 512 := by
  have hscan : (scanMtd fourSectors twoSegments).map (fun s =>
      segmentsOf fourSectors s.good twoSegments 512) =
      some [⟨1, 1, 0, [104, 105]⟩, ⟨0, 0, 0, [97]⟩, ⟨1, 0, 1, [97]⟩] := by
    decide +kernel
  obtain ⟨s, hs, hsegs⟩ := map_eq_some_iff.mp hscan
  refine ⟨s, hs, (findEntry_spec hs).1 ⟨?_, steady_of_no_oob rfl⟩⟩
  rw [hsegs]
  refine ⟨?_, .inr ?_⟩
  · unfold InArray
    decide
  · unfold Unambiguous
    decide

/-- A segment whose number is behind that of the next is written outside of the array. -/
theorem findEntry_fails : ∃ s, scanMtd twoSectors (oneSegment 5 1) = some s ∧
    ¬ Right twoSectors (oneSegment 5 1) s 512 := by
  have hnone : (scanMtd twoSectors (oneSegment 5 1)).map (fun s =>
      (findEntry twoSectors s.good (oneSegment 5 1) 512 s.sectorIds).isNone) = some true := by
    decide +kernel
  obtain ⟨s, hs, hfails⟩ := map_eq_some_iff.mp hnone
  refine ⟨s, hs, ?_⟩
  rintro ⟨r, -, hfound, -⟩
  obtain ⟨ids'', h⟩ := hfound [] s.sectorIds rfl
  rw [h] at hfails
  cases hfails

end LibWrt.Tffs
