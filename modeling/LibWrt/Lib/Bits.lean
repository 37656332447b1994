/-
LibWrt.Lib.Bits — the bits of a string of bytes.

Bit `i` of a string is counted from the highest bit of its first byte, as
network prefixes count. `beNat` and `beBytes` are a word in network order, and
`bitAt_beBytes`, `testBit_beNat` say where the bits of a word are in its
bytes. Two parts of strings are compared bit by bit (`part_eq_iff`).
-/
import Mathlib.Tactic

namespace LibWrt.Bits

open List UInt8

/-! ## Bits -/

/-- Bit `i`; there is none behind the string. -/
def bitAt (l : List UInt8) (i : Nat) : Bool := (l.getD (i / 8) 0).toNat.testBit (7 - i % 8)

variable {l : List UInt8} {i n : Nat}

theorem bitAt_of_le (h : 8 * l.length ≤ i) : bitAt l i = false := by
  have hout : l.length ≤ i / 8 := by omega
  simp [bitAt, getElem?_eq_none hout]

theorem bitAt_append_left {r : List UInt8} (h : i < 8 * l.length) :
    bitAt (l ++ r) i = bitAt l i := by
  have hin : i / 8 < l.length := by omega
  simp [bitAt, getElem?_append_left hin]

theorem bitAt_append_right (l r : List UInt8) (i : Nat) :
    bitAt (l ++ r) (8 * l.length + i) = bitAt r i := by
  have hdiv : (8 * l.length + i) / 8 = l.length + i / 8 := by omega
  have hmod : (8 * l.length + i) % 8 = i % 8 := by omega
  simp [bitAt, hdiv, hmod, getElem?_append_right (Nat.le_add_right l.length (i / 8))]

theorem bitAt_drop (l : List UInt8) (n i : Nat) : bitAt (l.drop n) i = bitAt l (8 * n + i) := by
  have hdiv : (8 * n + i) / 8 = n + i / 8 := by omega
  have hmod : (8 * n + i) % 8 = i % 8 := by omega
  simp [bitAt, hdiv, hmod]

theorem bitAt_take (h : i < 8 * n) :
    bitAt (l.take n) i = bitAt l i := by
  have hin : i / 8 < n := by omega
  simp [bitAt, getElem?_take_of_lt hin]

@[simp] theorem bitAt_replicate_zero (n i : Nat) : bitAt (replicate n 0) i = false := by
  simp only [bitAt, getD_eq_getElem?_getD, getElem?_replicate]
  split <;> simp

theorem bitAt_set {c : UInt8} (hn : n < l.length) (i : Nat) :
    bitAt (l.set n c) i = if i / 8 = n then c.toNat.testBit (7 - i % 8) else bitAt l i := by
  unfold bitAt
  split
  · rename_i heq
    simp [heq, hn]
  · rename_i hne
    simp [getElem?_set_ne (Ne.symm hne)]

/-! ## Words in network order -/

def beNat (l : List UInt8) : Nat := l.foldl (fun n b => n * 256 + b.toNat) 0

def beBytes : Nat → Nat → List UInt8
  | 0, _ => []
  | n + 1, x => ofNat (x >>> (8 * n)) :: beBytes n x

@[simp] theorem length_beBytes (n x : Nat) : (beBytes n x).length = n := by
  induction n with
  | zero => rfl
  | succ n ih => simp [beBytes, ih]

theorem beNat_append (l : List UInt8) (b : UInt8) : beNat (l ++ [b]) = beNat l * 256 + b.toNat := by
  simp [beNat]

theorem beNat_lt (l : List UInt8) : beNat l < 2 ^ (8 * l.length) := by
  induction l using reverseRecOn with
  | nil => simp [beNat]
  | append_singleton l b ih =>
    have hb : b.toNat < 256 := b.toNat_lt
    rw [beNat_append, length_append, length_singleton, Nat.mul_add, pow_add]
    omega

theorem testBit_beNat (h : i < 8 * l.length) :
    (beNat l).testBit (8 * l.length - 1 - i) = bitAt l i := by
  induction l using reverseRecOn with
  | nil => simp at h
  | append_singleton l b ih =>
    have hb : b.toNat < 2 ^ 8 := b.toNat_lt
    have hmul : beNat l * 256 + b.toNat = 2 ^ 8 * beNat l + b.toNat := by omega
    rw [length_append, length_singleton] at h ⊢
    rw [beNat_append, hmul, Nat.testBit_two_pow_mul_add _ hb]
    split
    · -- in the last byte
      rename_i hlast
      have hi : i = 8 * l.length + (i - 8 * l.length) := by omega
      rw [hi, bitAt_append_right]
      have hdiv : (i - 8 * l.length) / 8 = 0 := by omega
      have hmod : 7 - (i - 8 * l.length) % 8 = 8 * (l.length + 1) - 1 - i := by omega
      rw [← hi, bitAt, hdiv, hmod]
      rfl
    · rename_i hfirst
      have hlt : i < 8 * l.length := by omega
      have hindex : 8 * (l.length + 1) - 1 - i - 8 = 8 * l.length - 1 - i := by omega
      rw [hindex, ih hlt, bitAt_append_left hlt]

theorem bitAt_beBytes {x : Nat} (h : i < 8 * n) :
    bitAt (beBytes n x) i = x.testBit (8 * n - 1 - i) := by
  induction n generalizing i with
  | zero => omega
  | succ n ih =>
    have hbyte : (ofNat (x >>> (8 * n))).toNat = (x >>> (8 * n)) % 2 ^ 8 :=
      toNat_ofNat'
    by_cases hfirst : i < 8
    · have hdiv : i / 8 = 0 := by omega
      have hin : 7 - i % 8 < 8 := by omega
      have hindex : 8 * n + (7 - i % 8) = 8 * (n + 1) - 1 - i := by omega
      rw [bitAt, beBytes, hdiv, getD_cons_zero, hbyte, Nat.testBit_mod_two_pow,
        Nat.testBit_shiftRight, hindex]
      simp [hin]
    · obtain ⟨j, rfl⟩ := Nat.exists_eq_add_of_le (Nat.not_lt.mp hfirst)
      have hindex : 8 * n - 1 - j = 8 * (n + 1) - 1 - (8 + j) := by omega
      have hright := bitAt_append_right [ofNat (x >>> (8 * n))] (beBytes n x) j
      rw [length_singleton, Nat.mul_one, singleton_append] at hright
      rw [beBytes, hright, ih (by omega), hindex]

/-! ## Parts of a string -/

def bits (l : List UInt8) : List Bool := (range (8 * l.length)).map (bitAt l)

@[simp] theorem length_bits (l : List UInt8) : (bits l).length = 8 * l.length := by simp [bits]

@[simp] theorem getElem_bits (l : List UInt8) (h : i < (bits l).length) :
    (bits l)[i] = bitAt l i := by simp [bits]

/-- Two parts are the same if their bits are. -/
theorem part_eq_iff {l' : List UInt8} {a a' : Nat} (h : a + n ≤ 8 * l.length)
    (h' : a' + n ≤ 8 * l'.length) :
    ((bits l).drop a).take n = ((bits l').drop a').take n ↔
      ∀ i < n, bitAt l (a + i) = bitAt l' (a' + i) := by
  constructor
  · intro heq i hi
    have hget := congrArg (fun part : List Bool => part[i]?) heq
    have hl : a + i < 8 * l.length := by omega
    have hl' : a' + i < 8 * l'.length := by omega
    simpa [hi, hl, hl'] using hget
  · intro hbits
    apply ext_getElem (by simp; omega)
    intro i hi hi'
    simp only [length_take, length_drop, length_bits] at hi
    simpa using hbits i (by omega)

end LibWrt.Bits
