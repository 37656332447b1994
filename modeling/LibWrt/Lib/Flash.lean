/-
LibWrt.Lib.Flash — a flash chip as the operations done to it.

A chip has blocks of pages and a bad mark for each block. What an operation
leaves behind is part of the operation, so a chip after a run is the chip
before it with the run replayed, and a power cut is a prefix of the run. The
rules here say what a run leaves alone: a block no operation names keeps its
pages (`replay_page`), and so does every block outside of a range the run
stays in (`Ran.page`).
-/
import Mathlib.Data.List.Basic

namespace LibWrt.Flash

open Function List

variable {Page : Type}

structure Chip (Page : Type) where
  /-- by block and page of the block -/
  page : Nat → Nat → Page
  marked : Nat → Bool

inductive Op (Page : Type) where
  | erase (block : Nat) (left : Nat → Page)
  | program (block page : Nat) (left : Page)
  | mark (block : Nat) (took : Bool)

@[simp] def Op.block : Op Page → Nat
  | .erase block _ => block
  | .program block _ _ => block
  | .mark block _ => block

def Op.apply (chip : Chip Page) : Op Page → Chip Page
  | .erase block left => { chip with page := update chip.page block left }
  | .program block page left =>
    let pages := update (chip.page block) page left
    { chip with page := update chip.page block pages }
  | .mark block took =>
    { chip with marked := update chip.marked block (chip.marked block || took) }

def replay (chip : Chip Page) (ops : List (Op Page)) : Chip Page := ops.foldl Op.apply chip

@[simp] theorem replay_nil (chip : Chip Page) : replay chip [] = chip := rfl

@[simp] theorem replay_cons (chip : Chip Page) (op : Op Page) (ops : List (Op Page)) :
    replay chip (op :: ops) = replay (op.apply chip) ops := rfl

@[simp] theorem replay_append (chip : Chip Page) (ops ops' : List (Op Page)) :
    replay chip (ops ++ ops') = replay (replay chip ops) ops' := by
  simp [replay]

variable {chip : Chip Page} {op : Op Page} {b : Nat}

theorem apply_page (h : op.block ≠ b) :
    (op.apply chip).page b = chip.page b := by
  cases op with
  | erase block left => exact update_of_ne (Ne.symm h) _ _
  | program block page left => exact update_of_ne (Ne.symm h) _ _
  | mark block took => rfl

/-- A block no operation names keeps its pages. -/
theorem replay_page {ops : List (Op Page)} (h : ∀ op ∈ ops, op.block ≠ b) :
    (replay chip ops).page b = chip.page b := by
  induction ops generalizing chip with
  | nil => rfl
  | cons op ops ih =>
    rw [replay_cons, ih fun o ho => h o (mem_cons_of_mem _ ho)]
    exact apply_page (h op mem_cons_self)

theorem apply_marked (h : op.block ≠ b) :
    (op.apply chip).marked b = chip.marked b := by
  cases op with
  | erase block left => rfl
  | program block page left => rfl
  | mark block took => exact update_of_ne (Ne.symm h) _ _

theorem replay_marked {ops : List (Op Page)} (h : ∀ op ∈ ops, op.block ≠ b) :
    (replay chip ops).marked b = chip.marked b := by
  induction ops generalizing chip with
  | nil => rfl
  | cons op ops ih =>
    rw [replay_cons, ih fun o ho => h o (mem_cons_of_mem _ ho)]
    exact apply_marked (h op mem_cons_self)

/-! ## A chip with the record of what was done to it -/

structure Device (Page : Type) where
  chip : Chip Page
  log : List (Op Page) := []

def Device.run (d : Device Page) (op : Op Page) : Device Page where
  chip := op.apply d.chip
  log := d.log ++ [op]

/-- `d'` is `d` after operations that all have `P`. -/
def Ran (P : Op Page → Prop) (d d' : Device Page) : Prop :=
  ∃ ops, d'.log = d.log ++ ops ∧ d'.chip = replay d.chip ops ∧ ∀ op ∈ ops, P op

variable {P Q : Op Page → Prop} {d d' d'' : Device Page}

theorem Ran.refl (P : Op Page → Prop) (d : Device Page) : Ran P d d := ⟨[], by simp⟩

theorem Ran.run (h : P op) : Ran P d (d.run op) :=
  ⟨[op], rfl, rfl, by simpa using h⟩

theorem Ran.trans (h : Ran P d d') (h' : Ran P d' d'') : Ran P d d'' := by
  obtain ⟨ops, hlog, hchip, hP⟩ := h
  obtain ⟨ops', hlog', hchip', hP'⟩ := h'
  refine ⟨ops ++ ops', by simp [hlog', hlog], by simp [hchip', hchip], fun op hop => ?_⟩
  rcases List.mem_append.mp hop with hop | hop
  · exact hP op hop
  · exact hP' op hop

theorem Ran.mono (h : Ran P d d') (hPQ : ∀ op, P op → Q op) : Ran Q d d' := by
  obtain ⟨ops, hlog, hchip, hP⟩ := h
  exact ⟨ops, hlog, hchip, fun op hop => hPQ op (hP op hop)⟩

theorem Ran.page (h : Ran P d d') (hb : ∀ op, P op → op.block ≠ b) :
    d'.chip.page b = d.chip.page b := by
  obtain ⟨ops, -, hchip, hP⟩ := h
  rw [hchip]
  exact replay_page fun op hop => hb op (hP op hop)

theorem Ran.marked (h : Ran P d d') (hb : ∀ op, P op → op.block ≠ b) :
    d'.chip.marked b = d.chip.marked b := by
  obtain ⟨ops, -, hchip, hP⟩ := h
  rw [hchip]
  exact replay_marked fun op hop => hb op (hP op hop)

/-- Operations that mark no block keep the marks. -/
theorem Ran.marks (h : Ran P d d') (hP : ∀ op, P op → ∀ b took, op ≠ .mark b took) :
    d'.chip.marked = d.chip.marked := by
  obtain ⟨ops, -, hchip, hops⟩ := h
  rw [hchip]
  clear hchip
  generalize d.chip = chip
  induction ops generalizing chip with
  | nil => rfl
  | cons op ops ih =>
    rw [replay_cons, ih fun o ho => hops o (mem_cons_of_mem _ ho)]
    cases op with
    | erase b left => rfl
    | program b page left => rfl
    | mark b took => exact absurd rfl (hP _ (hops _ mem_cons_self) b took)

end LibWrt.Flash
