/-
LibWrt.Lib.Crc32 — the little-endian CRC-32 `crc32_le`.

The checksum of a buffer is the fold of one byte's update over it, so the
checksum of two buffers one after the other continues from that of the first
(`crc32Le_append`). A byte's update loses nothing, so checksums that differ
stay different over the same bytes (`crc32Le_injective`).
-/
import Mathlib.Data.List.Basic
import Mathlib.Logic.Function.Iterate

namespace LibWrt.Crc32

open BitVec

def bit (crc : BitVec 32) : BitVec 32 :=
  if crc.getLsbD 0 then (crc >>> 1) ^^^ 0xedb88320#32 else crc >>> 1

def byte (crc : BitVec 32) (b : UInt8) : BitVec 32 :=
  bit^[8] (crc ^^^ BitVec.ofNat 32 b.toNat)

def crc32Le (crc : BitVec 32) (bytes : List UInt8) : BitVec 32 := bytes.foldl byte crc

@[simp] theorem crc32Le_append (crc : BitVec 32) (a b : List UInt8) :
    crc32Le crc (a ++ b) = crc32Le (crc32Le crc a) b := by
  simp [crc32Le]

theorem getLsbD_bit (crc : BitVec 32) : (bit crc).getLsbD 31 = crc.getLsbD 0 := by
  rw [bit]
  split
  · rename_i h
    rw [getLsbD_xor, getLsbD_ushiftRight, h]
    simp
  · rename_i h
    rw [getLsbD_ushiftRight, Bool.eq_false_iff.mpr h]
    simp

theorem bit_injective : Function.Injective bit := by
  intro x y h
  have hlow : x.getLsbD 0 = y.getLsbD 0 := by
    rw [← getLsbD_bit, ← getLsbD_bit, h]
  have hshift : x >>> 1 = y >>> 1 := by
    rw [bit, bit, hlow] at h
    split at h
    · exact (xor_left_inj _).mp h
    · exact h
  apply eq_of_getLsbD_eq
  intro i hi
  cases i with
  | zero => exact hlow
  | succ i =>
    have hi' := congrArg (fun z => z.getLsbD i) hshift
    simp only [getLsbD_ushiftRight] at hi'
    rwa [Nat.add_comm 1 i] at hi'

theorem byte_injective (b : UInt8) : Function.Injective fun crc => byte crc b := by
  intro x y h
  exact (xor_left_inj _).mp (bit_injective.iterate 8 h)

/-- Two checksums that differ stay different. -/
theorem crc32Le_injective (bytes : List UInt8) : Function.Injective fun crc => crc32Le crc bytes := by
  intro x y h
  induction bytes generalizing x y with
  | nil => exact h
  | cons b bytes ih => exact byte_injective b (ih h)

end LibWrt.Crc32
