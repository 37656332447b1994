/-
LibWrt.Rtl83xx.L2 — the L2 forwarding tables of the Realtek switches.

The switch keeps unicast and multicast entries in hash buckets and, when a
bucket is full, in a content addressable memory of 64 rows. The four SoC
families differ in the size of a bucket, in how an address is packed into
the seed of the hash function, in the key a CAM row is recognised by, and in
how bucket and position select a row; `Soc` also has the hash function,
which is any function onto the buckets.

A row holds an entry or is invalid: what `fill_l2_row` packs is what
`fill_l2_entry` unpacks again. `findL2HashEntry` and `findL2CamEntry` are
the two searches, with the index the first one encodes its slot into.
-/
import Mathlib.Data.Nat.Bitwise
import Mathlib.Tactic

namespace LibWrt.Rtl83xx

open Nat

inductive Family where
  | rtl838x
  | rtl839x
  | rtl930x
  | rtl931x
  deriving DecidableEq

instance neZeroPorts : NeZero 64 := ⟨by decide⟩

instance neZeroMacs : NeZero (2 ^ 48) := ⟨by decide⟩

instance neZeroVids : NeZero (2 ^ 12) := ⟨by decide⟩

structure Address where
  mac : Fin (2 ^ 48)
  vid : Fin (2 ^ 12)
  deriving DecidableEq

/-- `enum l2_entry_type`, what the forwarding database uses of it. -/
inductive L2EntryType where
  | unicast
  | multicast
  deriving DecidableEq

/-- `struct rtl838x_l2_entry` of a valid row. -/
structure L2Entry where
  type : L2EntryType
  age : Nat := 0
  isStatic : Bool := false
  port : Fin 64 := 0
  mcPortmaskIndex : Nat := 0
  vid : Fin (2 ^ 12)
  rvid : Fin (2 ^ 12)
  mac : Fin (2 ^ 48)
  deriving DecidableEq

def L2Entry.address (e : L2Entry) : Address := ⟨e.mac, e.rvid⟩

namespace Family

/-- `l2_bucket_size` -/
def l2BucketSize : Family → Nat
  | rtl838x | rtl839x => 4
  | rtl930x | rtl931x => 8

/-- `l2_hash_seed` -/
def l2HashSeed (f : Family) (a : Address) : Nat :=
  match f with
  | rtl838x => a.mac.val <<< 12 ||| a.vid.val
  | rtl839x | rtl930x | rtl931x => a.vid.val <<< 48 ||| a.mac.val

/-- What `read_l2_entry_using_hash` returns for a valid row. -/
def entryKey (f : Family) (e : L2Entry) : Nat :=
  match f with
  | rtl838x => e.mac.val <<< 12 ||| e.rvid.val
  | rtl839x | rtl930x | rtl931x => f.l2HashSeed e.address

/-- What `read_cam` returns for a valid row. -/
def camKey (f : Family) (e : L2Entry) : Nat :=
  match f with
  | rtl838x => e.mac.val <<< 12 ||| e.rvid.val
  | rtl839x => f.l2HashSeed e.address
  | rtl930x | rtl931x => e.mac.val <<< 12 ||| e.vid.val

/-- The row `read_l2_entry_using_hash` reads. -/
def readRow (f : Family) (hash pos : Nat) : Nat :=
  match f with
  | rtl838x | rtl839x => hash <<< 2 ||| pos
  | rtl930x | rtl931x =>
    if pos ≥ 4 then (hash >>> 16) <<< 2 ||| (pos - 4) else (hash &&& 0xffff) <<< 2 ||| pos

/-- The keys a hash function of the family gives: a bucket, or two buckets in the two
    halves of the word. -/
def IsKey (f : Family) (key : Nat) : Prop :=
  match f with
  | rtl838x | rtl839x => key < 2 ^ 14
  | rtl930x | rtl931x => key &&& 0xffff < 2 ^ 14 ∧ key >>> 16 < 2 ^ 14

end Family

/-- The row `write_l2_entry_using_hash` writes. -/
def writeRow (hash pos : Nat) : Nat := hash <<< 2 ||| pos

structure Soc where
  family : Family
  l2HashKey : Nat → Nat
  isKey : ∀ seed, family.IsKey (l2HashKey seed)

/-- The seed's and the keys' common 60 bits. -/
def keyMask : Nat := 0x0fffffffffffffff

structure L2Tables where
  hash : Nat → Option L2Entry
  cam : Nat → Option L2Entry

namespace L2Tables

def empty : L2Tables := { hash := fun _ => none, cam := fun _ => none }

def writeL2EntryUsingHash (t : L2Tables) (hash pos : Nat) (e : Option L2Entry) : L2Tables :=
  { t with hash := Function.update t.hash (writeRow hash pos) e }

def writeCam (t : L2Tables) (idx : Nat) (e : Option L2Entry) : L2Tables :=
  { t with cam := Function.update t.cam idx e }

end L2Tables

/-- The index slot `i` of a bucket is encoded into. -/
def slotIndex (key i : Nat) : Nat :=
  if i > 3 then ((key >>> 14) &&& 0xffff) ||| i >>> 1 else (key <<< 2 ||| i) &&& 0xffff

/-- The search of a bucket stops at this row. -/
def hashStops (f : Family) (seed : Nat) (mustExist : Bool) : Option L2Entry → Bool
  | none => !mustExist
  | some e => f.entryKey e &&& keyMask == seed

/-- `rtl83xx_find_l2_hash_entry`: the index of the slot the search stops at, and the
    entry read there. -/
def findL2HashEntry (soc : Soc) (t : L2Tables) (seed : Nat) (mustExist : Bool) :
    Option (Nat × Option L2Entry) :=
  let key := soc.l2HashKey seed
  let row := fun i => t.hash (soc.family.readRow key i)
  ((List.range soc.family.l2BucketSize).find? fun i => hashStops soc.family seed mustExist (row i))
    |>.map fun i => (slotIndex key i, row i)

/-- The search of the CAM stops at this row; an invalid row reads as key 0. -/
def camStops (f : Family) (seed : Nat) (mustExist : Bool) : Option L2Entry → Bool
  | none => !mustExist || 0 &&& keyMask == seed
  | some e => f.camKey e &&& keyMask == seed

/-- `rtl83xx_find_l2_cam_entry` -/
def findL2CamEntry (soc : Soc) (t : L2Tables) (seed : Nat) (mustExist : Bool) :
    Option (Nat × Option L2Entry) :=
  ((List.range 64).find? fun i => camStops soc.family seed mustExist (t.cam i))
    |>.map fun i => (i, t.cam i)

/-- `rtl83xx_setup_l2_uc_entry` -/
def setupL2UcEntry (port : Fin 64) (a : Address) : L2Entry :=
  { type := .unicast, age := 3, isStatic := true, port := port, rvid := a.vid, vid := a.vid
    mac := a.mac }

/-! ## Seeds and keys name addresses -/

namespace Family

theorem shiftLeft_or_inj {i x y x' y' : Nat} (hy : y < 2 ^ i) (hy' : y' < 2 ^ i)
    (h : x <<< i ||| y = x' <<< i ||| y') : x = x' ∧ y = y' := by
  rw [← shiftLeft_add_eq_or_of_lt hy, ← shiftLeft_add_eq_or_of_lt hy',
    shiftLeft_eq, shiftLeft_eq] at h
  have hpos : 0 < 2 ^ i := by positivity
  have hmod : y = y' := by
    have := congrArg (· % 2 ^ i) h
    simpa [mod_eq_of_lt hy, mod_eq_of_lt hy', mul_add_mod_of_lt] using this
  subst hmod
  exact ⟨eq_of_mul_eq_mul_right hpos (by omega), rfl⟩

theorem shiftLeft_or_lt {i k x y : Nat} (hx : x < 2 ^ k) (hy : y < 2 ^ i) :
    x <<< i ||| y < 2 ^ (k + i) := by
  apply or_lt_two_pow
  · rw [shiftLeft_eq, pow_add]
    exact Nat.mul_lt_mul_of_pos_right hx (by positivity)
  · exact lt_of_lt_of_le hy (Nat.pow_le_pow_right two_pos (by omega))

/-- Different addresses have different seeds. -/
theorem l2HashSeed_inj (f : Family) {a b : Address} (h : f.l2HashSeed a = f.l2HashSeed b) :
    a = b := by
  obtain ⟨mac, vid⟩ := a
  obtain ⟨mac', vid'⟩ := b
  cases f
  case rtl838x =>
    obtain ⟨hmac, hvid⟩ := shiftLeft_or_inj vid.isLt vid'.isLt h
    exact congrArg₂ Address.mk (Fin.ext hmac) (Fin.ext hvid)
  all_goals
    obtain ⟨hvid, hmac⟩ := shiftLeft_or_inj mac.isLt mac'.isLt h
    exact congrArg₂ Address.mk (Fin.ext hmac) (Fin.ext hvid)

theorem l2HashSeed_lt (f : Family) (a : Address) : f.l2HashSeed a < 2 ^ 60 := by
  cases f
  case rtl838x => exact shiftLeft_or_lt a.mac.isLt a.vid.isLt
  all_goals exact shiftLeft_or_lt a.vid.isLt a.mac.isLt

theorem entryKey_eq (f : Family) (e : L2Entry) : f.entryKey e = f.l2HashSeed e.address := by
  cases f <;> rfl

end Family

theorem and_keyMask {x : Nat} (hx : x < 2 ^ 60) : x &&& keyMask = x := by
  have hmask : keyMask = 2 ^ 60 - 1 := rfl
  rw [hmask, and_two_pow_sub_one_eq_mod, mod_eq_of_lt hx]

theorem hashStops_some (f : Family) (a : Address) (mustExist : Bool) (e : L2Entry) :
    hashStops f (f.l2HashSeed a) mustExist (some e) = true ↔ e.address = a := by
  rw [hashStops, f.entryKey_eq, and_keyMask (f.l2HashSeed_lt _), beq_iff_eq]
  exact ⟨f.l2HashSeed_inj, fun h => by rw [h]⟩

/-! ## Slots and rows -/

theorem writeRow_decode (idx : Nat) : writeRow (idx >>> 2) (idx &&& 3) = idx := by
  have h3 : idx &&& 3 = idx % 2 ^ 2 := and_two_pow_sub_one_eq_mod idx 2
  rw [writeRow, h3, ← shiftLeft_add_eq_or_of_lt (mod_lt _ (by positivity)),
    shiftLeft_eq, shiftRight_eq_div_pow]
  exact div_add_mod' idx (2 ^ 2)

/-- The slots whose index stands for the row they are read from: all slots of a single
    bucket; the first bucket and the last slot of the second where there are two. -/
def IndexedSlot (i : Nat) : Prop := i < 4 ∨ i = 7

theorem and_ffff (x : Nat) : x &&& 0xffff = x % 65536 := and_two_pow_sub_one_eq_mod x 16

/-- A slot of the first, or only, bucket. -/
theorem slotIndex_low {key i : Nat} (hi : i < 4) (hkey : key % 65536 < 16384) :
    slotIndex key i = (key &&& 0xffff) <<< 2 ||| i := by
  have hi' : i < 2 ^ 2 := hi
  rw [slotIndex, if_neg (by omega), and_ffff, and_ffff, ← shiftLeft_add_eq_or_of_lt hi',
    ← shiftLeft_add_eq_or_of_lt hi', shiftLeft_eq, shiftLeft_eq]
  omega

/-- A slot of the second bucket is encoded as one of its last two: slots 4 and 5 as
    slot 6, slots 6 and 7 as slot 7. -/
theorem slotIndex_high {key i : Nat} (hi : 4 ≤ i) (hlow : key % 65536 < 16384)
    (hhigh : key >>> 16 < 16384) : slotIndex key i = (key >>> 16) <<< 2 ||| i / 2 := by
  rw [shiftRight_eq_div_pow] at hhigh
  have hidx : (key >>> 14) &&& 0xffff = (key >>> 16) <<< 2 := by
    rw [and_ffff, shiftRight_eq_div_pow, shiftRight_eq_div_pow, shiftLeft_eq]
    omega
  have hpos : i >>> 1 = i / 2 := shiftRight_eq_div_pow i 1
  rw [slotIndex, if_pos (by omega), hidx, hpos]

/-- Where the index stands for the row read, the slot is found and written as one. -/
theorem slotIndex_eq_readRow {f : Family} {key i : Nat} (hkey : f.IsKey key)
    (hi : i < f.l2BucketSize) (hslot : IndexedSlot i) : slotIndex key i = f.readRow key i := by
  -- a single bucket
  have hsingle : key < 2 ^ 14 → i < 4 → slotIndex key i = key <<< 2 ||| i := by
    intro hkey hi
    have hword : key &&& 0xffff = key := by
      rw [and_ffff]
      omega
    rw [slotIndex_low hi (by omega), hword]
  -- two buckets in the halves of the key
  have hdouble : key &&& 0xffff < 2 ^ 14 ∧ key >>> 16 < 2 ^ 14 → slotIndex key i =
      if i ≥ 4 then (key >>> 16) <<< 2 ||| (i - 4) else (key &&& 0xffff) <<< 2 ||| i := by
    rintro ⟨hlow, hhigh⟩
    rw [and_ffff] at hlow
    rcases hslot with hlt | rfl
    · rw [slotIndex_low hlt hlow, if_neg (by omega)]
    · rw [slotIndex_high (by omega) hlow hhigh, if_pos (by omega)]
  cases f with
  | rtl838x | rtl839x => exact hsingle hkey hi
  | rtl930x | rtl931x => exact hdouble hkey

end LibWrt.Rtl83xx
