/-
LibWrt.Rtl83xx.Fdb — the forwarding database requests.

`fdbAdd` and `fdbDel` are `rtl83xx_port_fdb_add` and `rtl83xx_port_fdb_del`.
As a finite map from addresses to ports they should keep one entry for each
address (`Unique`) and change only the entry of the address they are asked
about (`Contract`). They do so where three things are as the code takes them
to be (`Orderly`):

* no free slot comes before the slot that holds the address, so that the
  search of an addition, which stops at the first free slot, does not miss
  the entry there is;
* the slot found is not one of the first three of the second bucket, which
  are encoded into the index of another slot;
* the keys of the CAM rows tell addresses apart like the seed does. On the
  RTL93xx families they are packed the other way round.

`Unique.step` and `contract` are the step lemmas, `fdb_refines_map` the run
lemma, and the counterexample to it without the condition needs a deletion
between two additions in one bucket.
-/
import LibWrt.Rtl83xx.L2

namespace LibWrt.Rtl83xx

open Option Or Function

structure Switch where
  tables : L2Tables
  lagNonPrimary : Fin 64 → Bool

def Switch.initial : Switch := { tables := .empty, lagNonPrimary := fun _ => false }

inductive Errno where
  | enotsupp
  | enoent
  deriving DecidableEq

variable (soc : Soc)

/-- `rtl83xx_port_fdb_add` -/
def fdbAdd (s : Switch) (port : Fin 64) (a : Address) : Option Errno × Switch :=
  let seed := soc.family.l2HashSeed a
  if s.lagNonPrimary port then (none, s)
  else
    match findL2HashEntry soc s.tables seed false with
    | some (idx, _) =>
      (none, { s with tables :=
        s.tables.writeL2EntryUsingHash (idx >>> 2) (idx &&& 3) (some (setupL2UcEntry port a)) })
    | none =>
      match findL2CamEntry soc s.tables seed false with
      | some (idx, _) =>
        (none, { s with tables := s.tables.writeCam idx (some (setupL2UcEntry port a)) })
      | none => (some .enotsupp, s)

/-- `rtl83xx_port_fdb_del` -/
def fdbDel (s : Switch) (a : Address) : Option Errno × Switch :=
  let seed := soc.family.l2HashSeed a
  match findL2HashEntry soc s.tables seed true with
  | some (idx, _) =>
    (none, { s with tables := s.tables.writeL2EntryUsingHash (idx >>> 2) (idx &&& 3) none })
  | none =>
    match findL2CamEntry soc s.tables seed true with
    | some (idx, _) => (none, { s with tables := s.tables.writeCam idx none })
    | none => (some .enoent, s)

inductive Request where
  | add (port : Fin 64) (a : Address)
  | del (a : Address)

def serve (s : Switch) : Request → Option Errno × Switch
  | .add port a => fdbAdd soc s port a
  | .del a => fdbDel soc s a

/-! ## The database as a map -/

inductive Row where
  | hash (n : Nat)
  | cam (n : Nat)
  deriving DecidableEq

def L2Tables.at (t : L2Tables) : Row → Option L2Entry
  | .hash n => t.hash n
  | .cam n => t.cam n

/-- Row `r` has a valid entry for `a`. -/
def L2Tables.Holds (t : L2Tables) (r : Row) (a : Address) : Prop :=
  ∃ e, t.at r = some e ∧ e.address = a

/-- The row of slot `i` of the buckets of `a`. -/
def bucketRow (a : Address) (i : Nat) : Row :=
  .hash (soc.family.readRow (soc.l2HashKey (soc.family.l2HashSeed a)) i)

/-- The rows an entry for `a` may be in. -/
def MayUse (a : Address) : Row → Prop
  | .hash n => ∃ i < soc.family.l2BucketSize, bucketRow soc a i = .hash n
  | .cam n => n < 64

def Unique (t : L2Tables) : Prop := ∀ r r' a, t.Holds r a → t.Holds r' a → r = r'

/-- Entries of other addresses than `a` are where they were and as they were. -/
def OthersKept (t t' : L2Tables) (a : Address) : Prop :=
  ∀ r e, e.address ≠ a → (t.at r = some e ↔ t'.at r = some e)

def Contract (s : Switch) : Request → Prop
  | .add port a =>
    match fdbAdd soc s port a with
    | (none, s') => (∃ r e, s'.tables.at r = some e ∧ e.address = a ∧ e.port = port) ∧
        OthersKept s.tables s'.tables a
    | (some _, s') => s' = s ∧
        ∀ r, MayUse soc a r → ∃ e, s.tables.at r = some e ∧ e.address ≠ a
  | .del a =>
    match fdbDel soc s a with
    | (none, s') => (∀ r, ¬ s'.tables.Holds r a) ∧ OthersKept s.tables s'.tables a
    | (some _, s') => s' = s

/-! ## When the searches are right -/

/-- The CAM is searched: no slot of the bucket stops the search before. -/
def ReachesCam (t : L2Tables) (a : Address) (free : Bool) : Prop :=
  ∀ i < soc.family.l2BucketSize, ¬ t.Holds (bucketRow soc a i) a ∧
    (free = true → t.at (bucketRow soc a i) ≠ none)

/-- CAM rows are recognised by their address. -/
def CamKeysRight (t : L2Tables) (a : Address) : Prop :=
  ∀ n < 64, ∀ e, t.cam n = some e →
    (soc.family.camKey e &&& keyMask = soc.family.l2HashSeed a ↔ e.address = a)

/-- An addition finds the entry there is, or a free slot it can use. -/
structure OrderlyAdd (t : L2Tables) (a : Address) : Prop where
  noGapBucket : ∀ i k, i < k → k < soc.family.l2BucketSize →
    t.at (bucketRow soc a i) = none → ¬ t.Holds (bucketRow soc a k) a
  noGapBeforeCam : ∀ i < soc.family.l2BucketSize, t.at (bucketRow soc a i) = none →
    ∀ n, ¬ t.Holds (.cam n) a
  noGapCam : ∀ n m, n < m → t.cam n = none → ¬ t.Holds (.cam m) a
  indexed : ∀ i < soc.family.l2BucketSize,
    (∀ k < i, ¬ t.Holds (bucketRow soc a k) a ∧ t.at (bucketRow soc a k) ≠ none) →
    t.Holds (bucketRow soc a i) a ∨ t.at (bucketRow soc a i) = none → IndexedSlot i
  camKeys : ReachesCam soc t a true → CamKeysRight soc t a

structure OrderlyDel (t : L2Tables) (a : Address) : Prop where
  indexed : ∀ i < soc.family.l2BucketSize, t.Holds (bucketRow soc a i) a → IndexedSlot i
  camKeys : ReachesCam soc t a false → CamKeysRight soc t a
  /-- the one address whose seed is the key of an invalid row -/
  zeroSeed : soc.family.l2HashSeed a = 0 →
    ∀ n m, n < m → t.cam n = none → ¬ t.Holds (.cam m) a

def Orderly (s : Switch) : Request → Prop
  | .add _ a => OrderlyAdd soc s.tables a
  | .del a => OrderlyDel soc s.tables a

inductive Reachable : Switch → Prop where
  | initial : Reachable .initial
  | serve {s : Switch} (h : Reachable s) (req : Request) (horderly : Orderly soc s req) :
      Reachable (serve soc s req).2

/-! ## One row -/

namespace L2Tables

/-- Row `r` gets `x`. -/
def set (t : L2Tables) (r : Row) (x : Option L2Entry) : L2Tables :=
  match r with
  | .hash n => { t with hash := update t.hash n x }
  | .cam n => { t with cam := update t.cam n x }

theorem at_set (t : L2Tables) (r r' : Row) (x : Option L2Entry) :
    (t.set r x).at r' = if r' = r then x else t.at r' := by
  cases r with
  | hash n =>
    cases r' with
    | hash m => simp [set, L2Tables.at, update_apply]
    | cam m => simp [set, L2Tables.at]
  | cam n =>
    cases r' with
    | hash m => simp [set, L2Tables.at]
    | cam m => simp [set, L2Tables.at, update_apply]

@[simp] theorem at_set_self (t : L2Tables) (r : Row) (x : Option L2Entry) :
    (t.set r x).at r = x := by
  simp [at_set]

variable {r : Row}

theorem at_set_of_ne (t : L2Tables) {r' : Row} (x : Option L2Entry) (h : r' ≠ r) :
    (t.set r x).at r' = t.at r' := by
  simp [at_set, h]

/-- Writing through index and position writes the row the index stands for. -/
theorem writeL2EntryUsingHash_eq_set (t : L2Tables) (idx : Nat) (x : Option L2Entry) :
    t.writeL2EntryUsingHash (idx >>> 2) (idx &&& 3) x = t.set (.hash idx) x := by
  simp only [writeL2EntryUsingHash, writeRow_decode, set]

theorem writeCam_eq_set (t : L2Tables) (idx : Nat) (x : Option L2Entry) :
    t.writeCam idx x = t.set (.cam idx) x := rfl

/-- A valid row holds its address and no other. -/
theorem holds_iff {t : L2Tables} {e : L2Entry} (h : t.at r = some e) (a : Address) :
    t.Holds r a ↔ e.address = a := by
  constructor
  · rintro ⟨e', he', ha⟩
    rw [h] at he'
    exact (some.inj he') ▸ ha
  · exact fun ha => ⟨e, h, ha⟩

theorem not_holds_of_none {t : L2Tables} (h : t.at r = none) (a : Address) :
    ¬ t.Holds r a := by
  rintro ⟨e, he, -⟩
  rw [h] at he
  cases he

end L2Tables

/-- Only row `r` may have an entry for `a`, and it has no entry for another address. -/
structure RowFor (t : L2Tables) (a : Address) (r : Row) : Prop where
  only : ∀ r', t.Holds r' a → r' = r
  free : t.at r = none ∨ t.Holds r a

namespace RowFor

variable {t : L2Tables} {a : Address} {r : Row} {x : Option L2Entry}

theorem row_ne (h : RowFor t a r) {r' : Row} {e : L2Entry} (he : t.at r' = some e)
    (ha : e.address ≠ a) : r' ≠ r := by
  rintro rfl
  rcases h.free with hnone | hholds
  · rw [hnone] at he
    cases he
  · exact ha ((L2Tables.holds_iff he a).mp hholds)

theorem othersKept (h : RowFor t a r) (hx : ∀ e, x = some e → e.address = a) :
    OthersKept t (t.set r x) a := by
  intro r' e he
  constructor
  · intro hat
    rw [L2Tables.at_set_of_ne _ _ (h.row_ne hat he)]
    exact hat
  · intro hat
    rw [L2Tables.at_set] at hat
    split at hat
    · exact absurd (hx e hat) he
    · exact hat

theorem holds_set (h : RowFor t a r) (hx : ∀ e, x = some e → e.address = a) {r' : Row}
    {b : Address} (hb : (t.set r x).Holds r' b) :
    (b = a ∧ r' = r) ∨ (b ≠ a ∧ t.Holds r' b) := by
  obtain ⟨e, he, rfl⟩ := hb
  by_cases hrow : r' = r
  · subst hrow
    rw [L2Tables.at_set_self] at he
    exact inl ⟨hx e he, rfl⟩
  · rw [L2Tables.at_set_of_ne _ _ hrow] at he
    refine inr ⟨?_, e, he, rfl⟩
    intro ha
    exact hrow (h.only r' ⟨e, he, ha⟩)

theorem unique (h : RowFor t a r) (ht : Unique t) (hx : ∀ e, x = some e → e.address = a) :
    Unique (t.set r x) := by
  intro r₁ r₂ b h₁ h₂
  rcases h.holds_set hx h₁ with ⟨rfl, rfl⟩ | ⟨hb, h₁'⟩
  · rcases h.holds_set hx h₂ with ⟨-, rfl⟩ | ⟨hb, -⟩
    · rfl
    · exact absurd rfl hb
  · rcases h.holds_set hx h₂ with ⟨hb', -⟩ | ⟨-, h₂'⟩
    · exact absurd hb' hb
    · exact ht r₁ r₂ b h₁' h₂'

end RowFor

/-- Entries are in rows their addresses may use. -/
def Placed (t : L2Tables) : Prop := ∀ r a, t.Holds r a → MayUse soc a r

variable {soc}

/-! ## The searches -/

/-- A row stops the search of a bucket for `a`. -/
theorem hashStops_iff (t : L2Tables) (f : Family) (a : Address) (mustExist : Bool) (n : Nat) :
    hashStops f (f.l2HashSeed a) mustExist (t.hash n) = true ↔
      t.Holds (.hash n) a ∨ (mustExist = false ∧ t.at (.hash n) = none) := by
  cases hrow : t.hash n with
  | none =>
    have hnone : t.at (.hash n) = none := hrow
    have hnot := L2Tables.not_holds_of_none hnone a
    cases mustExist <;> simp [hashStops, hnone, hnot]
  | some e =>
    have hsome : t.at (.hash n) = some e := hrow
    rw [hashStops_some, ← L2Tables.holds_iff hsome a]
    simp [hsome]

theorem findL2HashEntry_cases (soc : Soc) (t : L2Tables) (a : Address) (mustExist : Bool) :
    (∃ i, i < soc.family.l2BucketSize ∧
      findL2HashEntry soc t (soc.family.l2HashSeed a) mustExist =
        some (slotIndex (soc.l2HashKey (soc.family.l2HashSeed a)) i, t.at (bucketRow soc a i)) ∧
      (t.Holds (bucketRow soc a i) a ∨
        (mustExist = false ∧ t.at (bucketRow soc a i) = none)) ∧
      ∀ k < i, ¬ t.Holds (bucketRow soc a k) a ∧
        (mustExist = false → t.at (bucketRow soc a k) ≠ none)) ∨
    (findL2HashEntry soc t (soc.family.l2HashSeed a) mustExist = none ∧
      ∀ k < soc.family.l2BucketSize, ¬ t.Holds (bucketRow soc a k) a ∧
        (mustExist = false → t.at (bucketRow soc a k) ≠ none)) := by
  unfold findL2HashEntry
  have hnot : ∀ n, hashStops soc.family (soc.family.l2HashSeed a) mustExist (t.hash n) = false →
      ¬ t.Holds (.hash n) a ∧ (mustExist = false → t.at (.hash n) ≠ none) := by
    intro n hn
    have hiff := hashStops_iff t soc.family a mustExist n
    rw [hn] at hiff
    simp only [Bool.false_eq_true, false_iff, not_or, not_and] at hiff
    exact hiff
  cases hfind : (List.range soc.family.l2BucketSize).find? fun i =>
      hashStops soc.family (soc.family.l2HashSeed a) mustExist
        (t.hash (soc.family.readRow (soc.l2HashKey (soc.family.l2HashSeed a)) i)) with
  | none =>
    refine inr ⟨by simp only [hfind, map_none], ?_⟩
    intro k hk
    have hstop := List.find?_eq_none.mp hfind k (List.mem_range.mpr hk)
    exact hnot _ (by simpa using hstop)
  | some i =>
    obtain ⟨hstop, hi, hbefore⟩ := List.find?_range_eq_some.mp hfind
    refine inl ⟨i, by simpa using hi, by simp only [hfind, map_some]; rfl, ?_, ?_⟩
    · exact (hashStops_iff t soc.family a mustExist _).mp hstop
    · intro k hk
      exact hnot _ (by simpa using hbefore k hk)

variable {t : L2Tables} {a : Address} {s : Switch}

theorem camStops_iff (hkeys : CamKeysRight soc t a) (mustExist : Bool) {n : Nat} (hn : n < 64) :
    camStops soc.family (soc.family.l2HashSeed a) mustExist (t.cam n) = true ↔
      t.Holds (.cam n) a ∨
        (t.at (.cam n) = none ∧ (mustExist = false ∨ soc.family.l2HashSeed a = 0)) := by
  cases hrow : t.cam n with
  | none =>
    have hnone : t.at (.cam n) = none := hrow
    have hnot := L2Tables.not_holds_of_none hnone a
    have hzero : 0 = soc.family.l2HashSeed a ↔ soc.family.l2HashSeed a = 0 := eq_comm
    cases mustExist <;> simp [camStops, hnone, hnot, hzero]
  | some e =>
    have hsome : t.at (.cam n) = some e := hrow
    rw [camStops, beq_iff_eq, hkeys n hn e hrow, ← L2Tables.holds_iff hsome a]
    simp [hsome]

theorem findL2CamEntry_cases (hkeys : CamKeysRight soc t a) (mustExist : Bool) :
    (∃ n, n < 64 ∧
      findL2CamEntry soc t (soc.family.l2HashSeed a) mustExist = some (n, t.at (.cam n)) ∧
      (t.Holds (.cam n) a ∨
        (t.at (.cam n) = none ∧ (mustExist = false ∨ soc.family.l2HashSeed a = 0))) ∧
      ∀ k < n, ¬ t.Holds (.cam k) a) ∨
    (findL2CamEntry soc t (soc.family.l2HashSeed a) mustExist = none ∧
      ∀ k < 64, ¬ t.Holds (.cam k) a ∧ (mustExist = false → t.at (.cam k) ≠ none)) := by
  unfold findL2CamEntry
  have hnot : ∀ n < 64, camStops soc.family (soc.family.l2HashSeed a) mustExist (t.cam n) = false →
      ¬ t.Holds (.cam n) a ∧ (mustExist = false → t.at (.cam n) ≠ none) := by
    intro n hn hstop
    have hiff := camStops_iff hkeys mustExist hn
    rw [hstop] at hiff
    simp only [Bool.false_eq_true, false_iff, not_or, not_and] at hiff
    exact ⟨hiff.1, fun hm hnone => (hiff.2 hnone).1 hm⟩
  cases hfind : (List.range 64).find? fun i =>
      camStops soc.family (soc.family.l2HashSeed a) mustExist (t.cam i) with
  | none =>
    refine inr ⟨by simp only [map_none], ?_⟩
    intro k hk
    have hstop := List.find?_eq_none.mp hfind k (List.mem_range.mpr hk)
    exact hnot k hk (by simpa using hstop)
  | some n =>
    obtain ⟨hstop, hn, hbefore⟩ := List.find?_range_eq_some.mp hfind
    have hlt : n < 64 := by simpa using hn
    refine inl ⟨n, hlt, by simp only [map_some]; rfl, ?_, ?_⟩
    · exact (camStops_iff hkeys mustExist hlt).mp hstop
    · intro k hk
      exact (hnot k (by omega) (by simpa using hbefore k hk)).1

/-! ## The requests -/

theorem Placed.cases (h : Placed soc t) {r : Row} (hr : t.Holds r a) :
    (∃ i < soc.family.l2BucketSize, r = bucketRow soc a i) ∨ ∃ n < 64, r = .cam n := by
  have hmay := h r a hr
  cases r with
  | hash n =>
    obtain ⟨i, hi, hrow⟩ := hmay
    exact inl ⟨i, hi, hrow.symm⟩
  | cam n => exact inr ⟨n, hmay, rfl⟩

/-- The row that a request acts on: the one the search of the bucket stops at, or the one the
    search of the CAM stops at. -/
def findRow (soc : Soc) (t : L2Tables) (seed : Nat) (mustExist : Bool) :
    Option (Row × Option L2Entry) :=
  match findL2HashEntry soc t seed mustExist with
  | some (idx, e) => some (.hash idx, e)
  | none => (findL2CamEntry soc t seed mustExist).map fun (idx, e) => (.cam idx, e)

theorem fdbAdd_eq (soc : Soc) {port : Fin 64} (a : Address) (hlag : s.lagNonPrimary port = false) :
    fdbAdd soc s port a =
      match findRow soc s.tables (soc.family.l2HashSeed a) false with
      | some (r, _) => (none, { s with tables := s.tables.set r (some (setupL2UcEntry port a)) })
      | none => (some .enotsupp, s) := by
  simp only [fdbAdd, hlag, findRow, Bool.false_eq_true, if_false]
  cases findL2HashEntry soc s.tables (soc.family.l2HashSeed a) false with
  | some found => simp only [L2Tables.writeL2EntryUsingHash_eq_set]
  | none =>
    cases findL2CamEntry soc s.tables (soc.family.l2HashSeed a) false with
    | some found => simp only [map_some, L2Tables.writeCam_eq_set]
    | none => simp only [map_none]

theorem fdbDel_eq (soc : Soc) (s : Switch) (a : Address) :
    fdbDel soc s a =
      match findRow soc s.tables (soc.family.l2HashSeed a) true with
      | some (r, _) => (none, { s with tables := s.tables.set r none })
      | none => (some .enoent, s) := by
  simp only [fdbDel, findRow]
  cases findL2HashEntry soc s.tables (soc.family.l2HashSeed a) true with
  | some found => simp only [L2Tables.writeL2EntryUsingHash_eq_set]
  | none =>
    cases findL2CamEntry soc s.tables (soc.family.l2HashSeed a) true with
    | some found => simp only [map_some, L2Tables.writeCam_eq_set]
    | none => simp only [map_none]

/-- An orderly search for an addition finds the one row for the address, or every row the
    address may use has another. -/
theorem findRow_add (hunique : Unique t) (hplaced : Placed soc t) (h : OrderlyAdd soc t a) :
    (∃ r, MayUse soc a r ∧ RowFor t a r ∧
      findRow soc t (soc.family.l2HashSeed a) false = some (r, t.at r)) ∨
    (findRow soc t (soc.family.l2HashSeed a) false = none ∧
      ∀ r, MayUse soc a r → ∃ e, t.at r = some e ∧ e.address ≠ a) := by
  -- a row that is not free and does not hold `a` has another address
  have hother : ∀ r, ¬ t.Holds r a → t.at r ≠ none → ∃ e, t.at r = some e ∧ e.address ≠ a := by
    intro r hnot hne
    cases hat : t.at r with
    | none => exact absurd hat hne
    | some e => exact ⟨e, rfl, fun ha => hnot ⟨e, hat, ha⟩⟩
  unfold findRow
  rcases findL2HashEntry_cases soc t a false with
    ⟨i, hi, hfind, hstop, hbefore⟩ | ⟨hfind, hall⟩
  · have hindexed : IndexedSlot i :=
      h.indexed i hi (fun k hk => ⟨(hbefore k hk).1, (hbefore k hk).2 rfl⟩)
        (hstop.imp id fun h => h.2)
    have hrow := slotIndex_eq_readRow (soc.isKey (soc.family.l2HashSeed a)) hi hindexed
    refine inl ⟨bucketRow soc a i, ⟨i, hi, rfl⟩, ⟨?_, ?_⟩, ?_⟩
    · intro r hr
      rcases hstop with hholds | ⟨-, hfree⟩
      · exact hunique _ _ a hr hholds
      · -- the slot is free: an entry before or after it is ruled out
        rcases hplaced.cases hr with ⟨k, hk, rfl⟩ | ⟨n, -, rfl⟩
        · rcases Nat.lt_trichotomy k i with hlt | rfl | hgt
          · exact absurd hr (hbefore k hlt).1
          · rfl
          · exact absurd hr (h.noGapBucket i k hgt hk hfree)
        · exact absurd hr (h.noGapBeforeCam i hi hfree n)
    · exact hstop.symm.imp (fun h => h.2) id
    · simp only [hfind, hrow]
      rfl
  · have hkeys := h.camKeys fun i hi => ⟨(hall i hi).1, fun _ => (hall i hi).2 rfl⟩
    rcases findL2CamEntry_cases hkeys false with ⟨n, hn, hcam, hstop, hbefore⟩ |
      ⟨hcam, hcamAll⟩
    · refine inl ⟨.cam n, hn, ⟨?_, ?_⟩, ?_⟩
      · intro r hr
        rcases hplaced.cases hr with ⟨k, hk, rfl⟩ | ⟨m, hm, rfl⟩
        · exact absurd hr (hall k hk).1
        · rcases hstop with hholds | ⟨hfree, -⟩
          · exact hunique _ _ a hr hholds
          · rcases Nat.lt_trichotomy m n with hlt | rfl | hgt
            · exact absurd hr (hbefore m hlt)
            · rfl
            · exact absurd hr (h.noGapCam n m hgt hfree)
      · exact hstop.symm.imp (fun h => h.1) id
      · simp only [hfind, hcam, map_some]
    · refine inr ⟨by simp only [hfind, hcam, map_none], ?_⟩
      intro r hr
      cases r with
      | hash m =>
        obtain ⟨i, hi, hrow⟩ := hr
        rw [← hrow]
        exact hother _ (hall i hi).1 ((hall i hi).2 rfl)
      | cam m => exact hother _ (hcamAll m hr).1 ((hcamAll m hr).2 rfl)

/-- An orderly search for a deletion finds the one row for the address, or no row holds it. -/
theorem findRow_del (hunique : Unique t) (hplaced : Placed soc t) (h : OrderlyDel soc t a) :
    (∃ r, RowFor t a r ∧ (t.Holds r a ∨ soc.family.l2HashSeed a = 0) ∧
      findRow soc t (soc.family.l2HashSeed a) true = some (r, t.at r)) ∨
    (findRow soc t (soc.family.l2HashSeed a) true = none ∧ ∀ r, ¬ t.Holds r a) := by
  unfold findRow
  rcases findL2HashEntry_cases soc t a true with ⟨i, hi, hfind, hstop, -⟩ | ⟨hfind, hall⟩
  · have hholds : t.Holds (bucketRow soc a i) a := by
      rcases hstop with hholds | ⟨htrue, -⟩
      · exact hholds
      · cases htrue
    have hrow := slotIndex_eq_readRow (soc.isKey (soc.family.l2HashSeed a)) hi (h.indexed i hi hholds)
    refine inl ⟨bucketRow soc a i, ⟨fun r hr => hunique _ _ a hr hholds, inr hholds⟩,
      inl hholds, ?_⟩
    simp only [hfind, hrow]
    rfl
  · have hkeys := h.camKeys fun i hi => ⟨(hall i hi).1, fun hf => by cases hf⟩
    rcases findL2CamEntry_cases hkeys true with ⟨n, hn, hcam, hstop, hbefore⟩ | ⟨hcam, hcamAll⟩
    · refine inl ⟨.cam n, ⟨?_, hstop.symm.imp (fun h => h.1) id⟩, ?_,
        by simp only [hfind, hcam, map_some]⟩
      · intro r hr
        rcases hplaced.cases hr with ⟨k, hk, rfl⟩ | ⟨m, hm, rfl⟩
        · exact absurd hr (hall k hk).1
        · rcases hstop with hholds | ⟨hfree, hzero⟩
          · exact hunique _ _ a hr hholds
          · -- an invalid row was taken for the address whose seed is 0
            have hseed : soc.family.l2HashSeed a = 0 := by
              rcases hzero with hf | hseed
              · cases hf
              · exact hseed
            rcases Nat.lt_trichotomy m n with hlt | rfl | hgt
            · exact absurd hr (hbefore m hlt)
            · rfl
            · exact absurd hr (h.zeroSeed hseed n m hgt hfree)
      · rcases hstop with hholds | ⟨-, hf | hseed⟩
        · exact inl hholds
        · cases hf
        · exact inr hseed
    · refine inr ⟨by simp only [hfind, hcam, map_none], ?_⟩
      intro r hr
      rcases hplaced.cases hr with ⟨k, hk, rfl⟩ | ⟨m, hm, rfl⟩
      · exact (hall k hk).1 hr
      · exact (hcamAll m hm).1 hr

/-- An orderly addition writes the one row for the address, or every row the address may
    use has another. -/
theorem fdbAdd_cases {port : Fin 64} (hlag : s.lagNonPrimary port = false)
    (hunique : Unique s.tables) (hplaced : Placed soc s.tables) (h : OrderlyAdd soc s.tables a) :
    (∃ r, MayUse soc a r ∧ RowFor s.tables a r ∧ fdbAdd soc s port a =
      (none, { s with tables := s.tables.set r (some (setupL2UcEntry port a)) })) ∨
    (fdbAdd soc s port a = (some .enotsupp, s) ∧
      ∀ r, MayUse soc a r → ∃ e, s.tables.at r = some e ∧ e.address ≠ a) := by
  rw [fdbAdd_eq soc a hlag]
  rcases findRow_add hunique hplaced h with ⟨r, hmay, hr, hfind⟩ | ⟨hfind, hfull⟩
  · exact inl ⟨r, hmay, hr, by rw [hfind]⟩
  · exact inr ⟨by rw [hfind], hfull⟩

/-- An orderly deletion clears the one row for the address, or changes nothing. -/
theorem fdbDel_cases (hunique : Unique s.tables) (hplaced : Placed soc s.tables)
    (h : OrderlyDel soc s.tables a) :
    (∃ r, RowFor s.tables a r ∧
      fdbDel soc s a = (none, { s with tables := s.tables.set r none })) ∨
    fdbDel soc s a = (some .enoent, s) := by
  rw [fdbDel_eq]
  rcases findRow_del hunique hplaced h with ⟨r, hr, -, hfind⟩ | ⟨hfind, -⟩
  · exact inl ⟨r, hr, by rw [hfind]⟩
  · exact inr (by rw [hfind])

/-! ## Every run -/

structure Sound (soc : Soc) (s : Switch) : Prop where
  noLag : ∀ port, s.lagNonPrimary port = false
  unique : Unique s.tables
  placed : Placed soc s.tables

theorem setupL2UcEntry_address (port : Fin 64) (a : Address) :
    (setupL2UcEntry port a).address = a := rfl

theorem Sound.set (h : Sound soc s) {r : Row} (hr : RowFor s.tables a r) {x : Option L2Entry}
    (hx : ∀ e, x = some e → e.address = a) (hmay : x ≠ none → MayUse soc a r) :
    Sound soc { s with tables := s.tables.set r x } where
  noLag := h.noLag
  unique := hr.unique h.unique hx
  placed := by
    intro r' b hb
    rcases hr.holds_set hx hb with ⟨rfl, rfl⟩ | ⟨-, hold⟩
    · refine hmay ?_
      rintro rfl
      exact L2Tables.not_holds_of_none (L2Tables.at_set_self _ _ _) b hb
    · exact h.placed r' b hold

theorem Sound.serve (h : Sound soc s) (req : Request) (horderly : Orderly soc s req) :
    Sound soc (serve soc s req).2 := by
  cases req with
  | add port a =>
    simp only [Rtl83xx.serve]
    rcases fdbAdd_cases (h.noLag port) h.unique h.placed horderly with
      ⟨r, hmay, hr, hadd⟩ | ⟨hadd, -⟩
    · rw [hadd]
      refine h.set hr ?_ fun _ => hmay
      intro e he
      cases he
      exact setupL2UcEntry_address port a
    · rw [hadd]
      exact h
  | del a =>
    simp only [Rtl83xx.serve]
    rcases fdbDel_cases h.unique h.placed horderly with ⟨r, hr, hdel⟩ | hdel
    · rw [hdel]
      exact h.set hr (fun e he => by cases he) fun hne => absurd rfl hne
    · rw [hdel]
      exact h

/-- One orderly request on a sound database does what it promises. -/
theorem Sound.contract (h : Sound soc s) (req : Request) (horderly : Orderly soc s req) :
    Contract soc s req := by
  cases req with
  | add port a =>
    unfold Contract
    rcases fdbAdd_cases (h.noLag port) h.unique h.placed horderly with
      ⟨r, hmay, hr, hadd⟩ | ⟨hadd, hfull⟩
    · simp only [hadd]
      refine ⟨⟨r, setupL2UcEntry port a, L2Tables.at_set_self _ _ _,
        setupL2UcEntry_address port a, rfl⟩, hr.othersKept ?_⟩
      intro e he
      cases he
      exact setupL2UcEntry_address port a
    · simp only [hadd]
      exact ⟨trivial, hfull⟩
  | del a =>
    unfold Contract
    rcases fdbDel_cases h.unique h.placed horderly with ⟨r, hr, hdel⟩ | hdel
    · simp only [hdel]
      have hx : ∀ e, (none : Option L2Entry) = some e → e.address = a := fun e he => by cases he
      refine ⟨?_, hr.othersKept hx⟩
      intro r' hr'
      rcases hr.holds_set hx hr' with ⟨-, rfl⟩ | ⟨hne, -⟩
      · exact L2Tables.not_holds_of_none (L2Tables.at_set_self _ _ _) a hr'
      · exact hne rfl
    · simp only [hdel]

theorem Sound.initial (soc : Soc) : Sound soc .initial where
  noLag _ := rfl
  unique r _ _ hr _ := by
    obtain ⟨e, he, -⟩ := hr
    cases r <;> cases he
  placed r _ hr := by
    obtain ⟨e, he, -⟩ := hr
    cases r <;> cases he

/-- For every family and every hash function, in every run of orderly requests from empty
    tables: an address has at most one valid entry, and each further orderly request
    does what it promises. -/
theorem fdb_refines_map (soc : Soc) {s : Switch} (h : Reachable soc s) :
    Unique s.tables ∧ ∀ req, Orderly soc s req → Contract soc s req := by
  have hsound : Sound soc s := by
    induction h with
    | initial => exact Sound.initial soc
    | serve _ req horderly ih => exact ih.serve req horderly
  exact ⟨hsound.unique, fun req horderly => hsound.contract req horderly⟩

/-! ## Fixed runs -/

def serveAll (soc : Soc) (s : Switch) (reqs : List Request) : Switch :=
  reqs.foldl (fun s req => (serve soc s req).2) s

def oneBucket : Soc where
  family := .rtl838x
  l2HashKey _ := 0
  isKey _ := by
    have h : (0 : Nat) < 2 ^ 14 := by norm_num
    exact h

def firstAddress : Address := ⟨0x020000000001, 1⟩

def secondAddress : Address := ⟨0x020000000002, 1⟩

def gapRun : List Request :=
  [.add 1 firstAddress, .add 1 secondAddress, .del firstAddress]

/-- Adding the second address again takes the slot the first one left. -/
theorem fdb_duplicate_after_delete :
    ¬ ∀ (soc : Soc) (reqs : List Request), Unique (serveAll soc .initial reqs).tables := by
  intro hall
  have h := hall oneBucket (gapRun ++ [.add 2 secondAddress]) (.hash 0) (.hash 1) secondAddress
    ⟨setupL2UcEntry 2 secondAddress, rfl, rfl⟩ ⟨setupL2UcEntry 1 secondAddress, rfl, rfl⟩
  cases h

/-- Adding an absent address is orderly where the first slot of its bucket is free. -/
theorem OrderlyAdd.of_absent (habsent : ∀ r, ¬ t.Holds r a)
    (hfree : t.at (bucketRow soc a 0) = none) : OrderlyAdd soc t a where
  noGapBucket _ _ _ _ _ := habsent _
  noGapBeforeCam _ _ _ _ := habsent _
  noGapCam _ _ _ _ := habsent _
  indexed i _ hbefore _ := by
    rcases Nat.eq_zero_or_pos i with rfl | hpos
    · exact inl (by omega)
    · exact absurd hfree (hbefore 0 hpos).2
  camKeys hreach := by
    have hsize : 0 < soc.family.l2BucketSize := by cases soc.family <;> decide
    exact absurd hfree ((hreach 0 hsize).2 rfl)

/-- An address is added and deleted again. -/
theorem fdb_refines_map_two_requests :
    Unique (serveAll oneBucket .initial [.add 1 firstAddress, .del firstAddress]).tables ∧
      ∀ req, Orderly oneBucket
          (serveAll oneBucket .initial [.add 1 firstAddress, .del firstAddress]) req →
        Contract oneBucket
          (serveAll oneBucket .initial [.add 1 firstAddress, .del firstAddress]) req := by
  have hadd : Orderly oneBucket .initial (.add 1 firstAddress) := by
    refine OrderlyAdd.of_absent ?_ rfl
    intro r
    cases r <;> exact L2Tables.not_holds_of_none rfl firstAddress
  have hholds : (serve oneBucket .initial (.add 1 firstAddress)).2.tables.Holds
      (bucketRow oneBucket firstAddress 0) firstAddress :=
    ⟨setupL2UcEntry 1 firstAddress, rfl, rfl⟩
  have hdel : Orderly oneBucket (serve oneBucket .initial (.add 1 firstAddress)).2
      (.del firstAddress) :=
    { indexed := fun i hi _ => inl hi
      camKeys := fun hreach => absurd hholds (hreach 0 (by decide)).1
      zeroSeed := fun hseed => absurd hseed (by decide) }
  exact fdb_refines_map oneBucket ((Reachable.initial.serve _ hadd).serve _ hdel)

end LibWrt.Rtl83xx
