/-
LibWrt.En75.Tables — the two tables, in memory and on a page.

Of a table in memory only the entries in use are kept; the rest of the array
is zero where a table is written and not looked at otherwise. The header
bytes that nothing reads are left out as well.
-/
import LibWrt.En75.Chip

namespace LibWrt.En75

open List
open LibWrt.Bytes

/-- `struct bmt_entry`: the bad block that is mapped (`from`), and the block in the reserve
    area that is used. -/
structure BmtEntry where
  fromBlock : Nat
  toBlock : Nat
  deriving DecidableEq

/-- `struct bmt_table`, of `header.size` entries -/
structure BmtTable where
  version : UInt8 := 0
  table : List BmtEntry := []
  deriving DecidableEq

/-- `struct bbt_table`, of `header.size` entries -/
structure BbtTable where
  version : UInt8 := 0
  table : List Nat := []
  deriving DecidableEq

/-- `table[header.size++]` of a size of eight bits. -/
def push {α : Type} (table : List α) (entry : α) : List α :=
  if table.length = 0xff then [] else table ++ [entry]

/-- `sort_bbt` -/
def sortBbt (bbt : BbtTable) : BbtTable := { bbt with table := bbt.table.insertionSort (· ≤ ·) }

/-! ## On a page -/

section Page

variable (g : Geometry)

def BmtEntry.bytes (e : BmtEntry) : Bytes := half g.bigEndian e.fromBlock ++ half g.bigEndian e.toBlock

def entries : List Nat → List BmtEntry
  | a :: b :: rest => { fromBlock := a, toBlock := b } :: entries rest
  | _ => []

/-- `bmt_checksum`, of the bytes of the entries -/
def bmtChecksum (version : UInt8) (size : Nat) (data : Bytes) : UInt8 :=
  UInt8.ofNat (version.toNat + size + byteSum data)

def bmtSignature : Bytes := [0x42, 0x4d, 0x54]

def bmtBytes (bmt : BmtTable) : Bytes :=
  let data := bmt.table.flatMap (BmtEntry.bytes g)
  let size := bmt.table.length
  bmtSignature ++ [bmt.version, 0xff, UInt8.ofNat size, bmtChecksum bmt.version size data] ++
    replicate 13 0xff ++ data ++ replicate (1024 - data.length) 0

/-- `try_parse_bmt` -/
def tryParseBmt (buf : Bytes) : Option BmtTable :=
  let version := buf.getD 3 0
  let size := (buf.getD 5 0).toNat
  let data := buf.drop 20
  if buf.take 3 ≠ bmtSignature then none
  else if buf.getD 6 0 ≠ bmtChecksum version size (data.take (4 * size)) then none
  else some { version := version, table := entries (halves g.bigEndian (2 * size) data) }

/-- `bbt_checksum` -/
def bbtChecksum (version : UInt8) (size : Nat) (data : Bytes) : Nat :=
  (version.toNat + size + byteSum data) % 2 ^ 16

def bbtSignature : Bytes := [0x52, 0x41, 0x57, 0x42]

/-- `MAX_BBT_SIZE` -/
def maxBbtSize : Nat := 1000

def hostWord (w : Nat) : Bytes :=
  if g.bigEndian then half true (w / 2 ^ 16) ++ half true w
  else half false w ++ half false (w / 2 ^ 16)

def ofHostWord (buf : Bytes) : Nat :=
  if g.bigEndian then ofHalf true (buf.drop 2) + 2 ^ 16 * ofHalf true buf
  else ofHalf false buf + 2 ^ 16 * ofHalf false (buf.drop 2)

def bbtBytes (bbt : BbtTable) : Bytes :=
  let size := bbt.table.length
  let data := (bbt.table ++ replicate (maxBbtSize - size) 0).flatMap (half g.bigEndian)
  bbtSignature ++ hostWord g (bbtChecksum bbt.version size data) ++
    [bbt.version, UInt8.ofNat size, 0xff, 0xff] ++ data

/-- `try_parse_bbt` -/
def tryParseBbt (buf : Bytes) : Option BbtTable :=
  let version := buf.getD 8 0
  let size := (buf.getD 9 0).toNat
  let data := (buf.drop 12).take (2 * maxBbtSize)
  if buf.take 4 ≠ bbtSignature then none
  else if ofHostWord g (buf.drop 4) ≠ bbtChecksum version size data then none
  else some (sortBbt { version := version, table := halves g.bigEndian size data })

end Page

/-! ## Parsed tables fit their fields -/

section Fits

variable {g : Geometry}

structure BmtTable.Fits (bmt : BmtTable) : Prop where
  size : bmt.table.length ≤ 0xff
  entry : ∀ e ∈ bmt.table, e.fromBlock < 2 ^ 16 ∧ e.toBlock < 2 ^ 16

structure BbtTable.Fits (bbt : BbtTable) : Prop where
  size : bbt.table.length ≤ 0xff
  entry : ∀ b ∈ bbt.table, b < 2 ^ 16
  sorted : bbt.table.Pairwise (· ≤ ·)

theorem entries_fit {ws : List Nat} (h : ∀ w ∈ ws, w < 2 ^ 16) :
    ∀ e ∈ entries ws, e.fromBlock < 2 ^ 16 ∧ e.toBlock < 2 ^ 16 := by
  induction ws using entries.induct with
  | case1 a b rest ih =>
    intro e he
    simp only [entries, mem_cons] at he
    rcases he with rfl | he
    · exact ⟨h a (by simp), h b (by simp)⟩
    · exact ih (fun w hw => h w (by simp [hw])) e he
  | case2 ws hws =>
    intro e he
    rw [entries.eq_2 ws hws] at he
    simp at he

theorem length_entries (n : Nat) {ws : List Nat} (h : ws.length = 2 * n) :
    (entries ws).length = n := by
  induction n generalizing ws with
  | zero => simp [List.length_eq_zero_iff.mp h, entries]
  | succ n ih =>
    match ws, h with
    | a :: b :: rest, h =>
      have hrest : rest.length = 2 * n := by
        simp only [length_cons] at h
        omega
      simp [entries, ih hrest]

theorem tryParseBmt_fits {buf : Bytes} {bmt : BmtTable} (h : tryParseBmt g buf = some bmt) :
    bmt.Fits := by
  unfold tryParseBmt at h
  dsimp only at h
  split at h
  · simp at h
  · split at h
    · simp at h
    · obtain rfl := Option.some.inj h
      refine ⟨?_, entries_fit fun w hw => halves_lt hw⟩
      have hlt := (buf.getD 5 0).toNat_lt
      rw [length_entries (buf.getD 5 0).toNat (length_halves _ _ _)]
      omega

theorem tryParseBbt_fits {buf : Bytes} {bbt : BbtTable} (h : tryParseBbt g buf = some bbt) :
    bbt.Fits := by
  unfold tryParseBbt at h
  dsimp only at h
  split at h
  · simp at h
  · split at h
    · simp at h
    · obtain rfl := Option.some.inj h
      refine ⟨?_, fun b hb => halves_lt ((mem_insertionSort _).mp hb),
        pairwise_insertionSort _ _⟩
      have hlt := (buf.getD 9 0).toNat_lt
      simp only [sortBbt, length_insertionSort, length_halves]
      omega

end Fits

end LibWrt.En75
