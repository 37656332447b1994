/-
LibWrt.MtkBmt.Desc — what the three bad block managers share.

`Desc` has the fields of `struct bmt_desc` that are fixed after attaching.
`mappingBlockInRange` is the lookup all of them make in the ranges of the
device tree property `mediatek,bmt-remap-range`.
-/
import Mathlib.Data.List.Basic
import Mathlib.Algebra.Group.Nat.Defs
import Mathlib.Data.Nat.Basic

namespace LibWrt.MtkBmt

structure Desc where
  blkShift : Nat
  totalBlks : Nat
  /-- pairs of byte addresses -/
  remapRange : List (Nat × Nat) := []

/-- `mapping_block_in_range`: the first range with the block's address. Without ranges the
    whole chip is one range, given in blocks and not in bytes. -/
def mappingBlockInRange (d : Desc) (block : Nat) : Option (Nat × Nat) :=
  if d.remapRange = [] then some (0, d.totalBlks)
  else
    let addr := (block <<< d.blkShift) % 2 ^ 32
    d.remapRange.find? fun (lo, hi) => decide (¬ (addr < lo ∨ addr ≥ hi))

end LibWrt.MtkBmt
