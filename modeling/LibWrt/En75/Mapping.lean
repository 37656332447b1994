/-
LibWrt.En75.Mapping — the mapping of the user blocks.

The BBT shifts a user block past the factory bad blocks, and the BMT is then
searched for a replacement. `Mapped` is what keeps the second stage in order:
no source and no target occurs twice, and every target is held. Remapping and
unmapping keep it (`wRemapBlock_mapped`, `wUnmapBlock_mapped`), so the
mapping stays one to one in every run from an initialisation that
establishes it (`mapping_ok_of_run`).
-/
import LibWrt.En75.Sync
import LibWrt.Lib.Skip

namespace LibWrt.En75

open List Function
open LibWrt.Flash LibWrt.Bytes LibWrt.Skip

variable {g : Geometry} {env : Env}

/-! ## The entries of the BMT -/

section Entries

variable {table table' : List BmtEntry} {b t : Nat}

theorem shiftBbt_eq (bbt : List Nat) (u : Nat) : shiftBbt bbt u = skip bbt u := rfl

/-- With one entry a source the direction of a search does not matter. -/
theorem lookup_eq_some (h : (table.map BmtEntry.fromBlock).Nodup) :
    lookup table b = some t ↔ { fromBlock := b, toBlock := t } ∈ table := by
  unfold lookup
  constructor
  · intro hfound
    obtain ⟨e, he, rfl⟩ := Option.map_eq_some_iff.mp hfound
    have hmem := mem_reverse.mp (mem_of_find?_eq_some he)
    have hfrom : e.fromBlock = b := by simpa using find?_some he
    subst hfrom
    exact hmem
  · intro hmem
    have hsome : (table.reverse.find? fun e => e.fromBlock == b).isSome := by
      rw [find?_isSome]
      exact ⟨_, mem_reverse.mpr hmem, by simp⟩
    obtain ⟨e, he⟩ := Option.isSome_iff_exists.mp hsome
    have he' := mem_reverse.mp (mem_of_find?_eq_some he)
    have hfrom : e.fromBlock = b := by simpa using find?_some he
    rw [he, inj_on_of_nodup_map h he' hmem hfrom]
    rfl

theorem lookup_eq_none : lookup table b = none ↔ ∀ e ∈ table, e.fromBlock ≠ b := by
  simp [lookup]

theorem lookup_congr (h : (table.map BmtEntry.fromBlock).Nodup)
    (h' : (table'.map BmtEntry.fromBlock).Nodup)
    (hmem : ∀ t, { fromBlock := b, toBlock := t } ∈ table' ↔
      { fromBlock := b, toBlock := t } ∈ table) : lookup table' b = lookup table b := by
  apply Option.ext
  intro t
  rw [lookup_eq_some h, lookup_eq_some h', hmem]

variable {n : Nat}

theorem replaceEntry_none (h : replaceEntry b n table = none) :
    ∀ e ∈ table, e.fromBlock ≠ b := by
  induction table with
  | nil => simp
  | cons e table ih =>
    unfold replaceEntry at h
    split at h
    · simp at h
    · rename_i hne
      intro x hx
      rcases mem_cons.mp hx with rfl | hx
      · exact hne
      · exact ih (by simpa using h) x hx

theorem replaceEntry_some (h : replaceEntry b n table = some table') :
    ∃ l e r, table = l ++ e :: r ∧ e.fromBlock = b ∧ table' = l ++ { e with toBlock := n } :: r := by
  induction table generalizing table' with
  | nil => simp [replaceEntry] at h
  | cons e table ih =>
    unfold replaceEntry at h
    split at h
    · rename_i heq
      exact ⟨[], e, table, rfl, heq, (Option.some.inj h).symm⟩
    · obtain ⟨rest, hrest, rfl⟩ := Option.map_eq_some_iff.mp h
      obtain ⟨l, x, r, rfl, hx, rfl⟩ := ih hrest
      exact ⟨e :: l, x, r, rfl, hx, rfl⟩

/-- A new replacement for `b`: one entry for it, and the others as they were. -/
theorem mapEntry_spec (h : (table.map BmtEntry.fromBlock).Nodup) :
    ∃ rest, (mapEntry table b n).Perm ({ fromBlock := b, toBlock := n } :: rest) ∧
      (∀ e ∈ rest, e.fromBlock ≠ b) ∧
      (table.Perm rest ∨ ∃ t, table.Perm ({ fromBlock := b, toBlock := t } :: rest)) := by
  unfold mapEntry
  cases hr : replaceEntry b n table with
  | none =>
    exact ⟨table, perm_append_singleton _ _, replaceEntry_none hr, .inl (.refl _)⟩
  | some table' =>
    obtain ⟨l, e, r, rfl, rfl, rfl⟩ := replaceEntry_some hr
    refine ⟨l ++ r, perm_middle, fun x hx => ?_, .inr ⟨e.toBlock, perm_middle⟩⟩
    have hperm : ((l ++ e :: r).map BmtEntry.fromBlock).Perm
        ((e :: (l ++ r)).map BmtEntry.fromBlock) := perm_middle.map _
    have hnodup := hperm.nodup_iff.mp h
    rw [map_cons, nodup_cons] at hnodup
    rintro heq
    exact hnodup.1 (heq ▸ mem_map_of_mem hx)

/-- The other blocks keep their entries. -/
theorem lookup_mapEntry {b' : Nat} (h : (table.map BmtEntry.fromBlock).Nodup) (hb : b' ≠ b) :
    lookup (mapEntry table b n) b' = lookup table b' := by
  obtain ⟨rest, hperm, hrest, hformer⟩ := mapEntry_spec (b := b) (n := n) h
  have hnodup : (rest.map BmtEntry.fromBlock).Nodup := by
    rcases hformer with hsame | ⟨t, hmore⟩
    · exact (hsame.map _).nodup_iff.mp h
    · exact (nodup_cons.mp ((hmore.map _).nodup_iff.mp h)).2
  have hnew : ((mapEntry table b n).map BmtEntry.fromBlock).Nodup := by
    rw [(hperm.map _).nodup_iff, map_cons, nodup_cons]
    refine ⟨fun hmem => ?_, hnodup⟩
    obtain ⟨e, he, hfrom⟩ := mem_map.mp hmem
    exact hrest e he hfrom
  apply lookup_congr h hnew
  intro t
  rw [hperm.mem_iff]
  rcases hformer with hsame | ⟨t', hmore⟩
  · simp [hsame.mem_iff, hb]
  · simp [hmore.mem_iff, hb]

theorem set_dropLast_perm {α : Type} {l : List α} {i : Nat} (h : i < l.length) (d : α) :
    ((l.set i (l.getLastD d)).dropLast).Perm (l.eraseIdx i) := by
  obtain ⟨init, last, rfl⟩ : ∃ init last, l = init ++ [last] := by
    have hne : l ≠ [] := by
      rintro rfl
      simp at h
    exact ⟨l.dropLast, l.getLast hne, (dropLast_append_getLast hne).symm⟩
  have hlast : (init ++ [last]).getLastD d = last := by simp
  rw [hlast]
  rcases Nat.lt_or_ge i init.length with hlt | hge
  · rw [set_append_left _ _ hlt, dropLast_concat,
      eraseIdx_append_of_lt_length hlt]
    exact (set_perm_cons_eraseIdx hlt last).trans (perm_append_singleton _ _).symm
  · have hi : i = init.length := by
      simp only [length_append, length_cons, length_nil] at h
      omega
    subst hi
    rw [eraseIdx_append_of_length_le (Nat.le_refl _)]
    simp

/-- Taking an entry out of the table. -/
theorem mappedEntry_spec {i : Nat} (h : mappedEntry table b = some (i, t)) (d : BmtEntry) :
    table.Perm ({ fromBlock := b, toBlock := t } :: (table.set i (table.getLastD d)).dropLast) := by
  unfold mappedEntry at h
  obtain ⟨j, hj, hentry⟩ := Option.bind_eq_some_iff.mp h
  obtain ⟨e, he, heq⟩ := Option.map_eq_some_iff.mp hentry
  obtain ⟨rfl, rfl⟩ := Prod.mk.inj heq
  obtain ⟨hlt, hfrom, -⟩ := findIdx?_eq_some_iff_getElem.mp hj
  have he' : table[j] = e := by
    rw [getElem?_eq_getElem hlt] at he
    exact Option.some.inj he
  have hb : e.fromBlock = b := by
    rw [he'] at hfrom
    simpa using hfrom
  subst hb
  have hperm := (getElem_cons_eraseIdx_perm hlt).symm
  rw [he'] at hperm
  exact hperm.trans ((set_dropLast_perm hlt d).symm.cons _)

end Entries

/-! ## The invariant of the BMT -/

structure OneToOne (table : List BmtEntry) : Prop where
  sources : (table.map BmtEntry.fromBlock).Nodup
  targets : (table.map BmtEntry.toBlock).Nodup

variable {table : List BmtEntry} {s : State} {ctx : Ctx} {block : Nat}

theorem OneToOne.perm {table' : List BmtEntry} (h : OneToOne table) (hperm : table.Perm table') :
    OneToOne table' :=
  ⟨(hperm.map _).nodup_iff.mp h.sources, (hperm.map _).nodup_iff.mp h.targets⟩

theorem oneToOne_cons {e : BmtEntry} :
    OneToOne (e :: table) ↔ OneToOne table ∧ (∀ x ∈ table, x.fromBlock ≠ e.fromBlock) ∧
      ∀ x ∈ table, x.toBlock ≠ e.toBlock := by
  constructor
  · rintro ⟨hs, ht⟩
    simp only [map_cons, nodup_cons, mem_map, not_exists, not_and] at hs ht
    exact ⟨⟨hs.2, ht.2⟩, hs.1, ht.1⟩
  · rintro ⟨⟨hs, ht⟩, hne, hne'⟩
    refine ⟨?_, ?_⟩ <;>
      simp only [map_cons, nodup_cons, mem_map, not_exists, not_and]
    · exact ⟨hne, hs⟩
    · exact ⟨hne', ht⟩

/-- The BMT maps blocks to blocks of the reserve area that are held. -/
structure Mapped (g : Geometry) (ctx : Ctx) : Prop where
  oneToOne : OneToOne ctx.bmt.table
  reserve : ∀ e ∈ ctx.bmt.table, e.toBlock ∈ ctx.reserveBlocks g
  held : ∀ e ∈ ctx.bmt.table, Held (ctx.rblocks e.toBlock)

theorem Pooled.bmt {s' : State} (h : Pooled g s s') : s'.ctx.bmt = s.ctx.bmt := by
  rw [h.frame]

theorem Pooled.mapped {s' : State} (h : Pooled g s s') (hm : Mapped g s.ctx) :
    Mapped g s'.ctx where
  oneToOne := by
    rw [h.bmt]
    exact hm.oneToOne
  reserve := by
    rw [h.bmt, h.reserveBlocks]
    exact hm.reserve
  held := by
    rw [h.bmt]
    intro e he
    rw [h.held _ (hm.held e he)]
    exact hm.held e he

/-! ### Remapping -/

/-- The context after `block` was mapped to `new`. -/
def Ctx.remapped (ctx : Ctx) (block new : Nat) (former : Option Nat) : Ctx :=
  let ctx :=
    { ctx.setStatus new .mapped with
      bmt := { ctx.bmt with table := mapEntry ctx.bmt.table block new }
      bmtDirty := ctx.bmtDirty + 1 }
  match former with
  | none => ctx
  | some former => ctx.setStatus former .needErase

variable (env) in
/-- A remap fails, with a block of the pool used up, or maps the block to a free one. -/
theorem wRemapBlock_cases (block : Nat) (former : Option Nat) (copyLen : Nat) (s : State) :
    (Statuses s (wRemapBlock g env block former copyLen s).2 ∧
        Pooled g s (wRemapBlock g env block former copyLen s).2) ∨
      ∃ new, findAvailableBlock g s.ctx false = some new ∧ s.ctx.bmt.table.length ≠ 0xff ∧
        (wRemapBlock g env block former copyLen s).2.ctx = s.ctx.remapped block new former := by
  unfold wRemapBlock
  split
  · exact .inl ⟨.refl s, .refl s⟩
  · rename_i hroom
    split
    · exact .inl ⟨.refl s, .refl s⟩
    · rename_i new hfind
      obtain ⟨havail, -⟩ := findAvailableBlock_some hfind
      have hfree := not_held_available havail
      have hmake : Pooled g s (wMakeMapping g env new block s).2 ∧
          (wMakeMapping g env new block s).2.ctx = s.ctx := by
        unfold wMakeMapping
        split
        · exact ⟨.refl s, rfl⟩
        · rw [if_neg (by simp [havail])]
          exact ⟨.on (wWrite_ctx _ _ _ _) (wWrite_ran _ _ _ _) hfree, wWrite_ctx _ _ _ _⟩
      split
      · rename_i s₁ heq
        rw [heq] at hmake
        refine .inr ⟨new, hfind, hroom, ?_⟩
        dsimp only
        have hctx : s₁.ctx = s.ctx := hmake.2
        cases former with
        | none =>
          dsimp only
          rw [wMarkBad_ctx, hctx]
          rfl
        | some former =>
          simp only [State.setStatus, wMarkBad_ctx, hctx]
          rfl
      · rename_i ret s₁ hne heq
        rw [heq] at hmake
        have hctx : s₁.ctx = s.ctx := hmake.2
        refine .inl ⟨(Statuses.of_ctx hctx).trans (.set _ _ _), hmake.1.trans (.setStatus ?_)⟩
        rw [hctx]
        exact hfree

/-- Mapping a block to a free one, with its former replacement given up. -/
theorem Mapped.remapped {new : Nat} (h : Mapped g ctx) (havail : ctx.rblocks new = .available)
    (hnew : new ∈ ctx.reserveBlocks g) :
    Mapped g (ctx.remapped block new (lookup ctx.bmt.table block)) := by
  obtain ⟨rest, hperm, hrest, hformer⟩ :=
    mapEntry_spec (b := block) (n := new) h.oneToOne.sources
  have hfree := not_held_available havail
  -- what is left of the old table
  have hsub : OneToOne rest ∧ (∀ e ∈ rest, e ∈ ctx.bmt.table) ∧
      ∀ t, lookup ctx.bmt.table block = some t → ∀ e ∈ rest, e.toBlock ≠ t := by
    rcases hformer with hsame | ⟨t, hmore⟩
    · refine ⟨h.oneToOne.perm hsame, fun e he => hsame.mem_iff.mpr he, fun t ht => ?_⟩
      have hmem := hsame.mem_iff.mp ((lookup_eq_some h.oneToOne.sources).mp ht)
      exact absurd rfl (hrest _ hmem)
    · obtain ⟨hone, hfrom, hto⟩ := oneToOne_cons.mp (h.oneToOne.perm hmore)
      refine ⟨hone, fun e he => hmore.mem_iff.mpr (mem_cons_of_mem _ he), fun t' ht' => ?_⟩
      have hmem := hmore.mem_iff.mp ((lookup_eq_some h.oneToOne.sources).mp ht')
      rcases mem_cons.mp hmem with heq | hmem
      · rw [(BmtEntry.mk.inj heq).2]
        exact hto
      · exact absurd rfl (hrest _ hmem)
  obtain ⟨hone, hmem, hto⟩ := hsub
  have hne : ∀ e ∈ rest, e.toBlock ≠ new := by
    rintro e he rfl
    exact hfree (h.held e (hmem e he))
  have htable : (ctx.remapped block new (lookup ctx.bmt.table block)).bmt.table =
      mapEntry ctx.bmt.table block new := by
    unfold Ctx.remapped
    cases lookup ctx.bmt.table block <;> rfl
  have hblocks : (ctx.remapped block new (lookup ctx.bmt.table block)).reserveBlocks g =
      ctx.reserveBlocks g := by
    unfold Ctx.remapped
    cases lookup ctx.bmt.table block <;> rfl
  refine ⟨?_, ?_, ?_⟩
  · rw [htable]
    exact (oneToOne_cons.mpr ⟨hone, hrest, hne⟩).perm hperm.symm
  · rw [htable, hblocks]
    intro e he
    rcases mem_cons.mp (hperm.mem_iff.mp he) with rfl | he
    · exact hnew
    · exact h.reserve e (hmem e he)
  · rw [htable]
    intro e he
    have hstatus : (ctx.remapped block new (lookup ctx.bmt.table block)).rblocks e.toBlock =
        if e.toBlock = new then .mapped else ctx.rblocks e.toBlock := by
      unfold Ctx.remapped
      cases hl : lookup ctx.bmt.table block with
      | none => simp [Ctx.setStatus, update_apply]
      | some former =>
        have hformer' : e.toBlock ≠ former := by
          rcases mem_cons.mp (hperm.mem_iff.mp he) with rfl | he
          · rintro rfl
            exact hfree (h.held _ ((lookup_eq_some h.oneToOne.sources).mp hl))
          · exact hto former hl e he
        simp [Ctx.setStatus, update_apply, hformer']
    rw [hstatus]
    split
    · decide
    · rename_i hnot
      rcases mem_cons.mp (hperm.mem_iff.mp he) with rfl | he
      · exact absurd rfl hnot
      · exact h.held e (hmem e he)

theorem lookup_remapped {new b : Nat} {former : Option Nat} (h : Mapped g ctx) (hb : b ≠ block) :
    lookup (ctx.remapped block new former).bmt.table b = lookup ctx.bmt.table b := by
  have htable : (ctx.remapped block new former).bmt.table = mapEntry ctx.bmt.table block new := by
    unfold Ctx.remapped
    cases former <;> rfl
  rw [htable, lookup_mapEntry h.oneToOne.sources hb]

/-! ### Unmapping -/

variable (env) in
/-- An unmap leaves the context, or takes an entry out and gives its target up. -/
theorem wUnmapBlock_cases (block : Nat) (erase : UnmapErase) (s : State) :
    (wUnmapBlock g env block erase s).2.ctx = s.ctx ∨
      ∃ to' table, s.ctx.bmt.table.Perm ({ fromBlock := block, toBlock := to' } :: table) ∧
        (wUnmapBlock g env block erase s).2.ctx =
          { s.ctx.setStatus to' .needErase with
            bmt := { s.ctx.bmt with table := table }
            bmtDirty := s.ctx.bmtDirty + 1 } := by
  have herase (mapped : Nat) :
      (if erase = .noErase then (.ok, s) else wEraseOne g env mapped false s).2.ctx = s.ctx := by
    split
    · rfl
    · exact wEraseOne_ctx _ _ _
  unfold wUnmapBlock
  split
  · exact .inl rfl
  · rename_i i mapped hentry
    split
    · exact .inl rfl
    · have hctx := herase mapped
      generalize (if erase = .noErase then (Ret.ok, s) else wEraseOne g env mapped false s) = r
        at hctx ⊢
      obtain ⟨ret, s₁⟩ := r
      dsimp only at hctx ⊢
      split
      · exact .inl hctx
      · refine .inr ⟨mapped, _, mappedEntry_spec hentry { fromBlock := 0, toBlock := 0 }, ?_⟩
        rw [hctx]
        rfl

theorem Mapped.unmapped {to' : Nat} (h : Mapped g ctx)
    (hperm : ctx.bmt.table.Perm ({ fromBlock := block, toBlock := to' } :: table)) :
    Mapped g { ctx.setStatus to' .needErase with
      bmt := { ctx.bmt with table := table }, bmtDirty := ctx.bmtDirty + 1 } := by
  obtain ⟨hone, -, hto⟩ := oneToOne_cons.mp (h.oneToOne.perm hperm)
  have hmem : ∀ e ∈ table, e ∈ ctx.bmt.table :=
    fun e he => hperm.mem_iff.mpr (mem_cons_of_mem _ he)
  refine ⟨hone, fun e he => h.reserve e (hmem e he), fun e he => ?_⟩
  have hstatus : (ctx.setStatus to' .needErase).rblocks e.toBlock = ctx.rblocks e.toBlock :=
    update_of_ne (hto e he) _ _
  show Held ((ctx.setStatus to' .needErase).rblocks e.toBlock)
  rw [hstatus]
  exact h.held e (hmem e he)

theorem wUnmapBlock_mapped {erase : UnmapErase} (h : Mapped g s.ctx) :
    Mapped g (wUnmapBlock g env block erase s).2.ctx := by
  rcases wUnmapBlock_cases (g := g) env block erase s with hctx | ⟨to', table, hperm, hctx⟩
  · rw [hctx]
    exact h
  · rw [hctx]
    exact h.unmapped hperm

end LibWrt.En75
