/-
LibWrt.Lib.Bytes — memory images.

`pieces` cuts a buffer into pieces of a size, the last one as long as what is
left. `le32` is a 32-bit word as its four bytes, the least significant one
first, and `words` reads an array of them back out of a buffer.
-/
import Mathlib.Tactic

namespace LibWrt.Bytes

open List Nat UInt8

variable {α : Type}

/-! ## Bits of a byte -/

theorem and_ff (x : UInt8) : x &&& 0xff = x := by
  apply UInt8.toBitVec_inj.mp
  rw [UInt8.toBitVec_and]
  exact BitVec.and_allOnes

theorem ff_and (x : UInt8) : 0xff &&& x = x := by
  rw [UInt8.and_comm, and_ff]

/-! ## Pieces -/

/-- `l` in at most `fuel` pieces of `n` elements. -/
def piecesFrom (n : Nat) : Nat → List α → List (List α)
  | 0, _ => []
  | fuel + 1, l => if l.isEmpty then [] else l.take n :: piecesFrom n fuel (l.drop n)

/-- `l` in pieces of `n` elements. -/
def pieces (n : Nat) (l : List α) : List (List α) := piecesFrom n l.length l

variable {n pos : Nat} {mem : List UInt8}

theorem length_piecesFrom (hn : 0 < n) {fuel : Nat} {l : List α} (h : l.length ≤ fuel) :
    (piecesFrom n fuel l).length = (l.length + n - 1) / n := by
  induction fuel generalizing l with
  | zero =>
    have hlen : l.length = 0 := by omega
    simp [piecesFrom, hlen, div_eq_of_lt (show n - 1 < n by omega)]
  | succ fuel ih =>
    cases l with
    | nil => simp [piecesFrom, div_eq_of_lt (show n - 1 < n by omega)]
    | cons a l =>
      have hdrop : ((a :: l).drop n).length ≤ fuel := by
        simp only [length_drop, length_cons] at h ⊢
        omega
      simp only [piecesFrom, isEmpty_cons, Bool.false_eq_true, if_false, length_cons,
        ih hdrop, length_drop]
      rcases Nat.le_total n (l.length + 1) with hle | hge
      · have hsum : l.length + 1 + n - 1 = l.length + 1 - n + n - 1 + n := by omega
        rw [hsum, add_div_right _ hn]
      · have hz : l.length + 1 - n + n - 1 < n := by omega
        rw [div_eq_of_lt hz]
        have hd : (l.length + 1 + n - 1) = l.length + n := by omega
        rw [hd, add_div_right _ hn, div_eq_of_lt (by omega)]

theorem length_pieces (hn : 0 < n) (l : List α) :
    (pieces n l).length = (l.length + n - 1) / n := length_piecesFrom hn le_rfl

/-! ## Words -/

def le32 (w : BitVec 32) : List UInt8 :=
  [ofNat w.toNat, ofNat (w.toNat / 2 ^ 8), ofNat (w.toNat / 2 ^ 16),
    ofNat (w.toNat / 2 ^ 24)]

def ofLe32 : List UInt8 → BitVec 32
  | a :: b :: c :: d :: _ =>
    BitVec.ofNat 32 (a.toNat + 2 ^ 8 * b.toNat + 2 ^ 16 * c.toNat + 2 ^ 24 * d.toNat)
  | _ => 0

@[simp] theorem length_le32 (w : BitVec 32) : (le32 w).length = 4 := rfl

@[simp] theorem ofLe32_le32 (w : BitVec 32) (rest : List UInt8) :
    ofLe32 (le32 w ++ rest) = w := by
  have hw := w.isLt
  apply BitVec.eq_of_toNat_eq
  simp only [le32, cons_append, ofLe32, BitVec.toNat_ofNat, toNat_ofNat']
  omega

/-- The buffer behind its first word. -/
theorem drop_le32 (w : BitVec 32) (n : Nat) (rest : List UInt8) :
    (le32 w ++ rest).drop (n + 4) = rest.drop n := rfl

/-- A word needs its four bytes only. -/
theorem ofLe32_take (h : 4 ≤ n) (bytes : List UInt8) :
    ofLe32 (bytes.take n) = ofLe32 bytes := by
  obtain ⟨k, rfl⟩ := Nat.exists_eq_add_of_le' h
  match bytes with
  | [] => simp
  | [a] => simp [ofLe32]
  | [a, b] => simp [ofLe32]
  | [a, b, c] => simp [ofLe32]
  | a :: b :: c :: d :: rest => simp [ofLe32]

/-- The first `n` words of a buffer. -/
def words : Nat → List UInt8 → List (BitVec 32)
  | 0, _ => []
  | n + 1, bytes => ofLe32 bytes :: words n (bytes.drop 4)

@[simp] theorem length_flatMap_le32 (ws : List (BitVec 32)) :
    (ws.flatMap le32).length = 4 * ws.length := by
  induction ws with
  | nil => rfl
  | cons w ws ih => simp [ih]; omega

/-- An array of words is read back. -/
theorem words_flatMap_le32 (ws : List (BitVec 32)) (rest : List UInt8) :
    words ws.length (ws.flatMap le32 ++ rest) = ws := by
  induction ws with
  | nil => rfl
  | cons w ws ih =>
    have hdrop : (le32 w ++ (ws.flatMap le32 ++ rest)).drop 4 = ws.flatMap le32 ++ rest := by
      rw [drop_append_of_le_length (by simp)]
      rfl
    simp only [length_cons, flatMap_cons, append_assoc, words, ofLe32_le32, hdrop,
      ih]

/-! ## Half words -/

def half (bigEndian : Bool) (w : Nat) : List UInt8 :=
  if bigEndian then [ofNat (w / 2 ^ 8), ofNat w]
  else [ofNat w, ofNat (w / 2 ^ 8)]

def ofHalf (bigEndian : Bool) : List UInt8 → Nat
  | a :: b :: _ => if bigEndian then b.toNat + 2 ^ 8 * a.toNat else a.toNat + 2 ^ 8 * b.toNat
  | _ => 0

theorem ofHalf_lt (bigEndian : Bool) (bytes : List UInt8) : ofHalf bigEndian bytes < 2 ^ 16 := by
  match bytes with
  | [] => simp [ofHalf]
  | [a] => simp [ofHalf]
  | a :: b :: rest =>
    have ha := a.toNat_lt
    have hb := b.toNat_lt
    simp only [ofHalf]
    split <;> omega

/-- The first `n` half words of a buffer. -/
def halves (bigEndian : Bool) : Nat → List UInt8 → List Nat
  | 0, _ => []
  | n + 1, bytes => ofHalf bigEndian bytes :: halves bigEndian n (bytes.drop 2)

@[simp] theorem length_halves (bigEndian : Bool) (n : Nat) (bytes : List UInt8) :
    (halves bigEndian n bytes).length = n := by
  induction n generalizing bytes with
  | zero => rfl
  | succ n ih => simp [halves, ih]

theorem halves_lt {bigEndian : Bool} {w : Nat} {bytes : List UInt8}
    (h : w ∈ halves bigEndian n bytes) : w < 2 ^ 16 := by
  induction n generalizing bytes with
  | zero => simp [halves] at h
  | succ n ih =>
    simp only [halves, mem_cons] at h
    rcases h with rfl | h
    · exact ofHalf_lt bigEndian bytes
    · exact ih h

/-! ## Sums -/

/-- The sum of the bytes of a buffer, as the checksums that add them take it. -/
def byteSum (bytes : List UInt8) : Nat := (bytes.map UInt8.toNat).sum

/-! ## Overwriting -/

/-- A buffer with other bytes at a position; what would lie behind its end is left out. -/
def overwrite (mem : List UInt8) (pos : Nat) (bytes : List UInt8) : List UInt8 :=
  (mem.take pos ++ bytes ++ mem.drop (pos + bytes.length)).take mem.length

@[simp] theorem length_overwrite (mem : List UInt8) (bytes : List UInt8) (hpos : pos ≤ mem.length) :
    (overwrite mem pos bytes).length = mem.length := by
  simp only [overwrite, length_take, length_append, length_drop]
  omega

theorem take_overwrite (mem : List UInt8) (bytes : List UInt8) (hn : n ≤ pos)
    (hpos : pos ≤ mem.length) : (overwrite mem pos bytes).take n = mem.take n := by
  have hlen : n ≤ (mem.take pos).length := by
    rw [length_take]
    omega
  rw [overwrite, take_take, append_assoc, min_eq_left (by omega),
    take_append_of_le_length hlen, take_take, min_eq_left hn]

theorem drop_overwrite_take (mem : List UInt8) (bytes : List UInt8) (hpos : pos ≤ mem.length) :
    (overwrite mem pos bytes).drop pos =
      (bytes ++ mem.drop (pos + bytes.length)).take (mem.length - pos) := by
  have htake : (mem.take pos).length = pos := by
    rw [length_take]
    omega
  rw [overwrite, drop_take, append_assoc, drop_append_of_le_length
    (Nat.le_of_eq htake.symm), drop_of_length_le (Nat.le_of_eq htake), nil_append]

theorem drop_overwrite (mem : List UInt8) (bytes : List UInt8)
    (hroom : pos + bytes.length ≤ mem.length) :
    (overwrite mem pos bytes).drop pos = bytes ++ mem.drop (pos + bytes.length) := by
  rw [drop_overwrite_take mem bytes (by omega), take_of_length_le]
  simp only [length_append, length_drop]
  omega

theorem getElem?_overwrite (mem : List UInt8) (pos : Nat) (bytes : List UInt8) (i : Nat) :
    (overwrite mem pos bytes)[i]? =
      if pos ≤ i ∧ i < pos + bytes.length ∧ i < mem.length then bytes[i - pos]? else mem[i]? := by
  rw [overwrite, getElem?_take]
  by_cases hi : i < mem.length
  · rw [if_pos hi]
    by_cases hpos : i < pos
    · have htake : i < (mem.take pos).length := by
        rw [length_take]
        omega
      rw [if_neg (by omega), append_assoc, getElem?_append_left htake,
        getElem?_take, if_pos hpos]
    · have htake : (mem.take pos).length = pos := by
        rw [length_take]
        omega
      rw [append_assoc, getElem?_append_right (by omega), htake]
      by_cases hbytes : i - pos < bytes.length
      · rw [if_pos ⟨by omega, by omega, hi⟩, getElem?_append_left hbytes]
      · rw [if_neg (by omega), getElem?_append_right (by omega), getElem?_drop]
        congr 1
        omega
  · rw [if_neg hi, if_neg (by omega), getElem?_eq_none (by omega)]

/-- A whole image over another. -/
theorem overwrite_whole {bytes : List UInt8} (h : bytes.length = mem.length) :
    overwrite mem 0 bytes = bytes := by
  simp [overwrite, h]

/-! ## Words in either byte order -/

def word32 (bigEndian : Bool) (w : BitVec 32) : List UInt8 :=
  if bigEndian then (le32 w).reverse else le32 w

def ofWord32 (bigEndian : Bool) (mem : List UInt8) (pos : Nat) : BitVec 32 :=
  let bytes := (mem.drop pos).take 4
  ofLe32 (if bigEndian then bytes.reverse else bytes)

@[simp] theorem length_word32 (bigEndian : Bool) (w : BitVec 32) :
    (word32 bigEndian w).length = 4 := by
  cases bigEndian <;> rfl

/-- A word is read back where it was written. -/
theorem ofWord32_overwrite (bigEndian : Bool) (w : BitVec 32) (h : pos + 4 ≤ mem.length) :
    ofWord32 bigEndian (overwrite mem pos (word32 bigEndian w)) pos = w := by
  have hdrop := drop_overwrite mem (word32 bigEndian w) (by simpa using h)
  have hbytes : ((overwrite mem pos (word32 bigEndian w)).drop pos).take 4 =
      word32 bigEndian w := by
    rw [hdrop, take_append_of_le_length (by simp), take_of_length_le (by simp)]
  rw [ofWord32, hbytes]
  have hback := ofLe32_le32 w []
  rw [append_nil] at hback
  cases bigEndian <;> simp [word32, hback]

/-- The last of two words written at a position stays. -/
theorem overwrite_overwrite {a b : List UInt8} (h : a.length = b.length) (hpos : pos ≤ mem.length) :
    overwrite (overwrite mem pos a) pos b = overwrite mem pos b := by
  apply ext_getElem?
  intro i
  rw [getElem?_overwrite, getElem?_overwrite, getElem?_overwrite, length_overwrite mem a hpos]
  split
  · rfl
  · rw [if_neg (by omega)]

theorem le32_ofLe32 (a b c d : UInt8) : le32 (ofLe32 [a, b, c, d]) = [a, b, c, d] := by
  have ha := a.toNat_lt
  have hb := b.toNat_lt
  have hc := c.toNat_lt
  have hd := d.toNat_lt
  have hsum : (ofLe32 [a, b, c, d]).toNat =
      a.toNat + 2 ^ 8 * b.toNat + 2 ^ 16 * c.toNat + 2 ^ 24 * d.toNat := by
    simp only [ofLe32, BitVec.toNat_ofNat]
    omega
  simp only [le32, hsum, List.cons.injEq, and_true, ← UInt8.toNat_inj, toNat_ofNat']
  omega

/-- The bytes of the word at a position. -/
theorem word32_ofWord32 (bigEndian : Bool) (h : pos + 4 ≤ mem.length) :
    word32 bigEndian (ofWord32 bigEndian mem pos) = (mem.drop pos).take 4 := by
  have hlen : ((mem.drop pos).take 4).length = 4 := by
    simp only [length_take, length_drop]
    omega
  obtain ⟨a, b, c, d, hbytes⟩ : ∃ a b c d, (mem.drop pos).take 4 = [a, b, c, d] := by
    match hb : (mem.drop pos).take 4, hlen with
    | [a, b, c, d], _ => exact ⟨a, b, c, d, rfl⟩
  rw [ofWord32, hbytes]
  cases bigEndian <;> simp [word32, le32_ofLe32]

theorem overwrite_ofWord32 (bigEndian : Bool) (h : pos + 4 ≤ mem.length) :
    overwrite mem pos (word32 bigEndian (ofWord32 bigEndian mem pos)) = mem := by
  apply ext_getElem?
  intro i
  rw [getElem?_overwrite, length_word32]
  split
  · rename_i hi
    rw [word32_ofWord32 bigEndian h, getElem?_take, if_pos (by omega), getElem?_drop]
    congr 1
    omega
  · rfl

end LibWrt.Bytes
