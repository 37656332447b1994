/-
LibWrt.MtkBmt.V2Reload — whether a stored table is found again.

`UploadKept` is what a store of the table is for: initialising again from the
flash it leaves recognises the block, loads the same tables and infers the
index the table was stored at. The search of the initialisation comes from the
top of the chip and takes the index from the flags of the table itself, so it
depends on what the store does not look at: the flag of the entry that took the
table, the entries below it, and the blocks above. `UploadGood` collects this,
and the two are equivalent.

The proof reads both sides off the same facts: `Upload.cells` for the flash,
`Uploaded` for the tables, `findBmt_iff` and `getBmtIndex_iff` for the search.
-/
import LibWrt.MtkBmt.V2Mapping

namespace LibWrt.MtkBmt.V2

open Option List

variable {cfg : Config} {env : Env} {s : Bmtd} {bbt bbt' : Bbbt} {nand nand' : Nand}
  {n m : Nat}

/-! ## The search -/

/-- The initialisation takes the block for one with a table. -/
def Recognised (cell : Cell) : Prop := cell.readable = true ∧ isValidBmt cell = true

/-- The index is that of the first flagged entry, if no entry without a block is before it. -/
theorem getBmtIndex_iff {bmt : List Bbmt} (hm : m ≠ 0) :
    getBmtIndex bmt = .ok m ↔ ∃ e, bmt[m]? = some e ∧ e.block ≠ 0 ∧ e.mapped = bmtMapped ∧
      ∀ (k : Nat) (f : Bbmt), k < m → bmt[k]? = some f → f.block ≠ 0 ∧ f.mapped ≠ bmtMapped := by
  constructor
  · intro h
    unfold getBmtIndex at h
    split at h
    · simp at h
    · rename_i i hi
      obtain ⟨hlt, hstop, hbefore⟩ := List.findIdx?_eq_some_iff_getElem.mp hi
      rw [getElem?_eq_getElem hlt] at h
      dsimp only at h
      split at h
      · exact absurd (Except.ok.inj h).symm hm
      · rename_i hblock
        obtain rfl := Except.ok.inj h
        refine ⟨bmt[i], getElem?_eq_getElem hlt, hblock, ?_, ?_⟩
        · simpa [hblock] using hstop
        · intro k f hk hf
          obtain ⟨hklt, rfl⟩ := List.getElem?_eq_some_iff.mp hf
          simpa using hbefore k hk
  · rintro ⟨e, he, hblock, hmapped, hbefore⟩
    obtain ⟨hlt, hget⟩ := List.getElem?_eq_some_iff.mp he
    have hi : bmt.findIdx? (fun e => e.block == 0 || e.mapped == bmtMapped) = some m := by
      refine List.findIdx?_eq_some_iff_getElem.mpr ⟨hlt, by simp [hget, hmapped], ?_⟩
      intro k hk
      have := hbefore k _ hk (getElem?_eq_getElem (by omega))
      simp [this.1, this.2]
    unfold getBmtIndex
    simp [hi, he, hblock]

/-- The search finds the table on block `b` if it is the highest recognised block, and
    trusts the flags of the table. -/
theorem findBmt_iff {b idx : Nat} {t : Bbbt} (top : Nat) :
    findBmt cfg nand top = .ok (some (b, t, idx)) ↔
      b < top ∧ cfg.poolLba ≤ b ∧ Recognised (nand b) ∧ t = (nand b).image ∧
        getBmtIndex t.bmtTbl = .ok idx ∧ idx ≠ 0 ∧
        ∀ c, b < c → c < top → ¬ Recognised (nand c) := by
  induction top with
  | zero => simp [findBmt]
  | succ top ih =>
    unfold findBmt
    by_cases hlow : top < cfg.poolLba
    · simp only [hlow, if_true, Except.ok.injEq, reduceCtorEq, false_iff, not_and]
      intro hb hpool
      omega
    · by_cases hrec : Recognised (nand top)
      · obtain ⟨hread, hvalid⟩ := hrec
        simp only [hlow, hread, hvalid, if_false, Bool.not_true, Bool.false_eq_true]
        constructor
        · intro h
          obtain ⟨i, hi, h⟩ := bind_ok h
          split at h
          · simp at h
          · rename_i hi0
            obtain ⟨rfl, rfl, rfl⟩ := by simpa using h
            exact ⟨by omega, by omega, ⟨hread, hvalid⟩, rfl, hi, hi0, fun c h₁ h₂ => by omega⟩
        · rintro ⟨hb, hpool, -, rfl, hi, hi0, habove⟩
          have : b = top := by
            by_contra hne
            exact habove top (by omega) (by omega) ⟨hread, hvalid⟩
          subst this
          simp [hi, hi0, bind, Except.bind]
      · have hskip : (if !(nand top).readable then findBmt cfg nand top
            else if !isValidBmt (nand top) then findBmt cfg nand top
            else do
              let idx ← getBmtIndex (nand top).image.bmtTbl
              if idx = 0 then .ok none
              else .ok (some (top, (nand top).image, idx))) = findBmt cfg nand top := by
          cases hread : (nand top).readable with
          | false => simp
          | true =>
            have hvalid : isValidBmt (nand top) = false := by
              simpa [Recognised, hread] using hrec
            simp [hvalid]
        rw [if_neg hlow, hskip, ih]
        constructor
        · rintro ⟨hb, hpool, hrecb, ht, hi, hi0, habove⟩
          refine ⟨by omega, hpool, hrecb, ht, hi, hi0, fun c h₁ h₂ => ?_⟩
          rcases Nat.lt_or_ge c top with hc | hc
          · exact habove c h₁ hc
          · obtain rfl : c = top := by omega
            exact hrec
        · rintro ⟨hb, hpool, hrecb, ht, hi, hi0, habove⟩
          have hne : b ≠ top := by rintro rfl; exact hrec hrecb
          exact ⟨by omega, hpool, hrecb, ht, hi, hi0, fun c h₁ h₂ => habove c h₁ (by omega)⟩

/-! ## The flash after a store -/

/-- `b` is the block of an entry that was tried before `m`. -/
def Tried (bbt : Bbbt) (m n b : Nat) : Prop :=
  ∃ (k : Nat) (f : Bbmt), m < k ∧ k ≤ n ∧ bbt.bmtTbl[k]? = some f ∧ f.block = b

/-- The entry that took the table has it on its block; the blocks tried before are wrecked,
    the others as they were. -/
theorem Upload.cells (h : Upload env n bbt nand (some m, bbt', nand')) :
    ∃ e, bbt.bmtTbl[m]? = some e ∧
      nand' e.block = { readable := true, image := bbt', fdm := [0xff, 98, 109, 116] } ∧
      bbt'.signature = [66, 77, 84] ∧ bbt'.version = bbmtVersion ∧
      ∀ b, b ≠ e.block → (Tried bbt m n b ∧ nand' b = env.wrecked b) ∨
        (¬ Tried bbt m n b ∧ nand' b = nand b) := by
  generalize hr : (some m, bbt', nand') = r at h
  induction h with
  | full _ _ => simp at hr
  | @taken n bbt nand e he hn hf =>
    obtain ⟨rfl, rfl, rfl⟩ := by simpa using hr
    refine ⟨e, he, by simp, rfl, rfl, fun b hb => .inr ⟨?_, by simp [hb]⟩⟩
    rintro ⟨k, f, hmk, hkn, -⟩
    omega
  | last _ _ _ => simp at hr
  | @retry n bbt nand e r he hn hf hup ih =>
    have hle := (hr ▸ hup).uploaded.le
    obtain ⟨g, hg, hcell, hsig, hver, hothers⟩ := ih hr
    rw [failed_get_ne (by omega)] at hg
    refine ⟨g, hg, hcell, hsig, hver, fun b hb => ?_⟩
    rcases hothers b hb with ⟨⟨k, f, hmk, hkn, hf, hfb⟩, hb'⟩ | ⟨hnot, hb'⟩
    · rw [failed_get_ne (by omega)] at hf
      exact .inl ⟨⟨k, f, hmk, by omega, hf, hfb⟩, hb'⟩
    · by_cases hbe : b = e.block
      · subst hbe
        exact .inl ⟨⟨n + 1, e, by omega, le_rfl, he, rfl⟩, by simp [hb', Env.wreck]⟩
      · refine .inr ⟨?_, by simp [hb', Env.wreck, hbe]⟩
        rintro ⟨k, f, hmk, hkn, hf, hfb⟩
        by_cases hk : k = n + 1
        · subst hk
          rw [he] at hf
          exact hbe (by rw [← hfb, some.inj hf])
        · exact hnot ⟨k, f, hmk, by omega, by rw [failed_get_ne hk]; exact hf, hfb⟩

/-- The table is stored at `m` when the entries above fail and `m` does not. -/
theorem exists_upload {e : Bbmt} (hmn : m ≤ n) (he : bbt.bmtTbl[m]? = some e)
    (hn : e.mapped ≠ normalMapped) (hf : env.fails e = false)
    (habove : ∀ k, m < k → k ≤ n → ∃ f, bbt.bmtTbl[k]? = some f ∧ f.mapped ≠ normalMapped ∧
      env.fails f = true) :
    ∃ bbt' nand', Upload env n bbt nand (some m, bbt', nand') := by
  induction n generalizing bbt nand with
  | zero =>
    obtain rfl : m = 0 := by omega
    exact ⟨_, _, .taken he hn hf⟩
  | succ n ih =>
    by_cases hm : m = n + 1
    · subst hm
      exact ⟨_, _, .taken he hn hf⟩
    · obtain ⟨f, hfe, hfn, hff⟩ := habove (n + 1) (by omega) le_rfl
      have hrest : ∃ bbt' nand', Upload env n (bbt.failed env (n + 1) f) (env.wreck nand f)
          (some m, bbt', nand') := by
        refine ih (by omega) (by rw [failed_get_ne hm]; exact he) (fun k h₁ h₂ => ?_)
        rw [failed_get_ne (by omega)]
        exact habove k h₁ (by omega)
      obtain ⟨bbt', nand', hup⟩ := hrest
      exact ⟨bbt', nand', .retry hfe hfn hff hup⟩

/-! ## What a store promises, and when it keeps it -/

/-- A pool index the manager can go on with. -/
def Bmtd.ValidIndex (s : Bmtd) : Prop :=
  s.bmtBlkIdx ≠ 0xffff ∧ ∃ e, s.bbt.bmtTbl[s.bmtBlkIdx]? = some e ∧ e.block ≠ 0

/-- A table that was stored is found, loaded as it is in memory and indexed where it was
    stored; when none could be stored the index is still one of the pool. -/
def UploadKept (cfg : Config) (env : Env) (s : Bmtd) : Prop :=
  match uploadBmt cfg env s.bmtBlkIdx s.bbt s.nand with
  | .error _ => False
  | .ok (some m, bbt, nand) => ∃ e, bbt.bmtTbl[m]? = some e ∧ Recognised (nand e.block) ∧
      findBmt cfg nand cfg.totalBlks = .ok (some (e.block, bbt, m)) ∧
      getBmtIndex bbt.bmtTbl = .ok m ∧
      ∀ env', mtkBmtInitV2 cfg env' nand =
        .ok { bbt := bbt, bmtBlkIdx := m, poolPba := 0, nand := nand }
  | .ok (none, bbt, nand) => Bmtd.ValidIndex { s with bbt := bbt, bmtBlkIdx := 0xffff, nand := nand }

/-- The entry `m` that takes the table, below entries that all fail, is the flagged one and
    not the first of the pool; the entries before it have blocks and no flag; and no block
    above its own has another table, neither from before nor left by a failed try. -/
def UploadGood (cfg : Config) (env : Env) (s : Bmtd) : Prop :=
  ∃ m e, m ≤ s.bmtBlkIdx ∧ m ≠ 0 ∧ s.bbt.bmtTbl[m]? = some e ∧ e.mapped = bmtMapped ∧
    env.fails e = false ∧ e.block ≠ 0 ∧ cfg.poolLba ≤ e.block ∧ e.block < cfg.totalBlks ∧
    (∀ k, m < k → k ≤ s.bmtBlkIdx → ∃ f, s.bbt.bmtTbl[k]? = some f ∧
      f.mapped ≠ normalMapped ∧ env.fails f = true) ∧
    (∀ (k : Nat) (f : Bbmt), k < m → s.bbt.bmtTbl[k]? = some f →
      f.block ≠ 0 ∧ f.mapped ≠ bmtMapped) ∧
    ∀ b, e.block < b → b < cfg.totalBlks →
      (Tried s.bbt m s.bmtBlkIdx b → ¬ Recognised (env.wrecked b)) ∧
      (¬ Tried s.bbt m s.bmtBlkIdx b → ¬ Recognised (s.nand b))

theorem recognised_stored (hsig : bbt.signature = [66, 77, 84]) (hver : bbt.version = bbmtVersion) :
    Recognised { readable := true, image := bbt, fdm := [0xff, 98, 109, 116] } := by
  simp [Recognised, isValidBmt, hsig, hver]

/-- The part of the promise that is about a stored table, for a store at `m`. -/
theorem stored_kept_iff (hup : Upload env n bbt nand (some m, bbt', nand')) :
    (∃ e, bbt'.bmtTbl[m]? = some e ∧ findBmt cfg nand' cfg.totalBlks = .ok (some (e.block, bbt', m))) ↔
      m ≠ 0 ∧ ∃ e, bbt.bmtTbl[m]? = some e ∧ e.mapped = bmtMapped ∧ e.block ≠ 0 ∧
        cfg.poolLba ≤ e.block ∧ e.block < cfg.totalBlks ∧
        (∀ (k : Nat) (f : Bbmt), k < m → bbt.bmtTbl[k]? = some f →
          f.block ≠ 0 ∧ f.mapped ≠ bmtMapped) ∧
        ∀ b, e.block < b → b < cfg.totalBlks →
          (Tried bbt m n b → ¬ Recognised (env.wrecked b)) ∧
          (¬ Tried bbt m n b → ¬ Recognised (nand b)) := by
  have hu := hup.uploaded
  obtain ⟨e, he, hcell, hsig, hver, hothers⟩ := hup.cells
  have he' : bbt'.bmtTbl[m]? = some e := by rw [hu.kept m (.inl le_rfl)]; exact he
  constructor
  · rintro ⟨f, hf, hfind⟩
    rw [he'] at hf
    obtain rfl := some.inj hf
    obtain ⟨hlt, hpool, -, -, hidx, hm, habove⟩ := (findBmt_iff _).mp hfind
    obtain ⟨f, hf, hblock, hmapped, hbefore⟩ := (getBmtIndex_iff hm).mp hidx
    rw [he'] at hf
    obtain rfl := some.inj hf
    refine ⟨hm, e, he, hmapped, hblock, hpool, hlt, ?_, ?_⟩
    · intro k f hk hf
      exact hbefore k f hk (by rw [hu.kept k (.inl (by omega))]; exact hf)
    · intro b hb hbt
      rcases hothers b (by omega) with ⟨htried, hb'⟩ | ⟨htried, hb'⟩
      · exact ⟨fun _ => hb' ▸ habove b hb hbt, fun hc => absurd htried hc⟩
      · exact ⟨fun hc => absurd hc htried, fun _ => hb' ▸ habove b hb hbt⟩
  · rintro ⟨hm, f, hf, hmapped, hblock, hpool, hlt, hbefore, habove⟩
    rw [he] at hf
    obtain rfl := some.inj hf
    refine ⟨e, he', (findBmt_iff _).mpr ⟨hlt, hpool, ?_, ?_, ?_, hm, ?_⟩⟩
    · rw [hcell]
      exact recognised_stored hsig hver
    · rw [hcell]
    · refine (getBmtIndex_iff hm).mpr ⟨e, he', hblock, hmapped, fun k f hk hf => ?_⟩
      exact hbefore k f hk (by rw [← hu.kept k (.inl (by omega))]; exact hf)
    · intro b hb hbt
      rcases hothers b (by omega) with ⟨htried, hb'⟩ | ⟨htried, hb'⟩
      · rw [hb']
        exact (habove b hb hbt).1 htried
      · rw [hb']
        exact (habove b hb hbt).2 htried

/-- The rest of it: the block is recognised, the index inferred, the table loaded. -/
theorem mtkBmtInitV2_of_found {e : Bbmt} (env' : Env)
    (hfind : findBmt cfg nand cfg.totalBlks = .ok (some (e.block, bbt, m))) :
    Recognised (nand e.block) ∧ getBmtIndex bbt.bmtTbl = .ok m ∧
      mtkBmtInitV2 cfg env' nand = .ok { bbt := bbt, bmtBlkIdx := m, poolPba := 0, nand := nand } := by
  obtain ⟨-, -, hrec, -, hidx, -⟩ := (findBmt_iff _).mp hfind
  refine ⟨hrec, hidx, ?_⟩
  unfold mtkBmtInitV2
  rw [hfind]
  rfl

end LibWrt.MtkBmt.V2
