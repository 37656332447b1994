/-
LibWrt.MtkBmt.V2Upload — storing the table, `upload_bmt`.

The retry loop goes down the pool from the entry asked for. `Upload` lists
what one try does: the loop stops at a mapped entry, stores the table, or
drops the entry and goes on below it. Facts about the whole loop are proved
by induction on this relation. `Uploaded` is what the loop leaves of the
tables when it stores them.
-/
import LibWrt.MtkBmt.V2
import Mathlib.Tactic

namespace LibWrt.MtkBmt.V2

open Function List

variable {cfg : Config} {env : Env} {bbt bbt' : Bbbt} {nand nand' : Nand} {n m : Nat} {e : Bbmt}

/-! ## Failures -/

theorem bind_ok {α β : Type} {x : Except Failure α} {f : α → Except Failure β} {b : β}
    (h : x >>= f = .ok b) : ∃ a, x = .ok a ∧ f a = .ok b := by
  cases x with
  | error e => simp [bind, Except.bind] at h
  | ok a => exact ⟨a, rfl, h⟩

theorem ok_of_toOption {α : Type} {x : Except Failure α} {a : α} (h : x.toOption = some a) :
    x = .ok a := by
  cases x with
  | error e => simp [Except.toOption] at h
  | ok b => exact congrArg Except.ok (by simpa [Except.toOption] using h)

/-! ## One try -/

/-- The block of entry `e` does not take the table. -/
def Env.fails (env : Env) (e : Bbmt) : Bool := env.eraseFails e.block || env.writeFails e.block

def Bbbt.signed (bbt : Bbbt) : Bbbt :=
  { bbt with signature := [66, 77, 84], version := bbmtVersion }

/-- The table after entry `n` failed: it has lost its block, and it is signed if the erase
    went well. -/
def Bbbt.failed (bbt : Bbbt) (env : Env) (n : Nat) (e : Bbmt) : Bbbt :=
  let bbt := if env.eraseFails e.block then bbt else bbt.signed
  { bbt with bmtTbl := bbt.bmtTbl.set n { e with block := 0 } }

@[simp] theorem signed_bbTbl (bbt : Bbbt) : bbt.signed.bbTbl = bbt.bbTbl := rfl
@[simp] theorem signed_bmtTbl (bbt : Bbbt) : bbt.signed.bmtTbl = bbt.bmtTbl := rfl

@[simp] theorem failed_bbTbl (bbt : Bbbt) (n : Nat) (e : Bbmt) :
    (bbt.failed env n e).bbTbl = bbt.bbTbl := by
  unfold Bbbt.failed; split <;> rfl

@[simp] theorem failed_bmtTbl (bbt : Bbbt) (n : Nat) (e : Bbmt) :
    (bbt.failed env n e).bmtTbl = bbt.bmtTbl.set n { e with block := 0 } := by
  unfold Bbbt.failed; split <;> rfl

theorem uploadBmt_none (he : bbt.bmtTbl[n]? = none) :
    uploadBmt cfg env n bbt nand = .error .undefined := by
  unfold uploadBmt; simp [he]

theorem uploadBmt_normal (he : bbt.bmtTbl[n]? = some e)
    (hn : e.mapped = normalMapped) : uploadBmt cfg env n bbt nand = .ok (none, bbt, nand) := by
  unfold uploadBmt; simp [he, hn]

theorem uploadBmt_taken (he : bbt.bmtTbl[n]? = some e)
    (hn : e.mapped ≠ normalMapped) (hf : env.fails e = false) :
    uploadBmt cfg env n bbt nand = .ok (some n, bbt.signed,
      update nand e.block
        { readable := true, image := bbt.signed, fdm := [0xff, 98, 109, 116] }) := by
  simp only [Env.fails, Bool.or_eq_false_iff] at hf
  unfold uploadBmt
  simp [he, hn, bbtNandErase, writeBmt, hf.1, hf.2, Bbbt.signed, erasedCell]

theorem uploadBmt_failed (he : bbt.bmtTbl[n]? = some e)
    (hn : e.mapped ≠ normalMapped) (hf : env.fails e = true) :
    uploadBmt cfg env n bbt nand =
      match n with
      | 0 => .ok (none, bbt.failed env n e,
          update nand e.block (env.wrecked e.block))
      | m + 1 => uploadBmt cfg env m (bbt.failed env n e)
          (update nand e.block (env.wrecked e.block)) := by
  conv_lhs => unfold uploadBmt
  cases hErase : env.eraseFails e.block with
  | true => cases n <;> simp [he, hn, bbtNandErase, hErase, Bbbt.failed]
  | false =>
    have hWrite : env.writeFails e.block = true := by simpa [Env.fails, hErase] using hf
    cases n <;> simp [he, hn, bbtNandErase, writeBmt, hErase, hWrite, Bbbt.failed, Bbbt.signed]

/-! ## The loop -/

/-- The block of entry `e` after a failed try. -/
def Env.wreck (env : Env) (nand : Nand) (e : Bbmt) : Nand :=
  update nand e.block (env.wrecked e.block)

/-- A run of the retry loop from entry `n`. -/
inductive Upload (env : Env) : Nat → Bbbt → Nand → Option Nat × Bbbt × Nand → Prop where
  | full {n : Nat} {bbt : Bbbt} {nand : Nand} {e : Bbmt} :
      bbt.bmtTbl[n]? = some e → e.mapped = normalMapped →
      Upload env n bbt nand (none, bbt, nand)
  | taken {n : Nat} {bbt : Bbbt} {nand : Nand} {e : Bbmt} :
      bbt.bmtTbl[n]? = some e → e.mapped ≠ normalMapped →
      env.fails e = false →
      Upload env n bbt nand (some n, bbt.signed, update nand e.block
        { readable := true, image := bbt.signed, fdm := [0xff, 98, 109, 116] })
  | last {bbt : Bbbt} {nand : Nand} {e : Bbmt} :
      bbt.bmtTbl[0]? = some e → e.mapped ≠ normalMapped →
      env.fails e = true → Upload env 0 bbt nand (none, bbt.failed env 0 e, env.wreck nand e)
  | retry {n : Nat} {bbt : Bbbt} {nand : Nand} {e : Bbmt} {r : Option Nat × Bbbt × Nand} :
      bbt.bmtTbl[n + 1]? = some e → e.mapped ≠ normalMapped →
      env.fails e = true → Upload env n (bbt.failed env (n + 1) e) (env.wreck nand e) r →
      Upload env (n + 1) bbt nand r

/-- `upload_bmt` is this loop. -/
theorem uploadBmt_iff {r : Option Nat × Bbbt × Nand} :
    uploadBmt cfg env n bbt nand = .ok r ↔ Upload env n bbt nand r := by
  constructor
  · intro h
    induction n generalizing bbt nand with
    | zero =>
      cases he : bbt.bmtTbl[0]? with
      | none => simp [uploadBmt_none he] at h
      | some e =>
        by_cases hn : e.mapped = normalMapped
        · rw [uploadBmt_normal he hn] at h
          cases h; exact .full he hn
        · cases hf : env.fails e with
          | false =>
            rw [uploadBmt_taken he hn hf] at h
            cases h; exact .taken he hn hf
          | true =>
            rw [uploadBmt_failed he hn hf] at h
            cases h; exact .last he hn hf
    | succ n ih =>
      cases he : bbt.bmtTbl[n + 1]? with
      | none => simp [uploadBmt_none he] at h
      | some e =>
        by_cases hn : e.mapped = normalMapped
        · rw [uploadBmt_normal he hn] at h
          cases h; exact .full he hn
        · cases hf : env.fails e with
          | false =>
            rw [uploadBmt_taken he hn hf] at h
            cases h; exact .taken he hn hf
          | true =>
            rw [uploadBmt_failed he hn hf] at h
            exact .retry he hn hf (ih h)
  · intro h
    induction h with
    | full he hn => exact uploadBmt_normal he hn
    | taken he hn hf => exact uploadBmt_taken he hn hf
    | last he hn hf => rw [uploadBmt_failed he hn hf]; rfl
    | retry he hn hf _ ih => rw [uploadBmt_failed he hn hf]; exact ih

/-! ## Remapping -/

theorem findValidBlockInPool_spec {pb : Nat}
    (h : findValidBlockInPool bbt n = .ok (some (pb, bbt'))) :
    ∃ k e, k < n ∧ bbt.bmtTbl[k]? = some e ∧ e.block = pb ∧ pb ≠ 0 ∧ e.mapped = noMapped ∧
      bbt' = { bbt with bmtTbl := bbt.bmtTbl.set k { e with mapped := normalMapped } } := by
  unfold findValidBlockInPool at h
  split at h
  · rename_i k hk
    obtain ⟨hlt, hfree, -⟩ := List.findIdx?_eq_some_iff_getElem.mp hk
    rw [length_take] at hlt
    rw [getElem_take] at hfree
    have he : bbt.bmtTbl[k]? = some bbt.bmtTbl[k] := getElem?_eq_getElem (by omega)
    simp only [he] at h
    obtain ⟨rfl, rfl⟩ := by simpa using h
    simp only [Bbmt.free, Bool.and_eq_true, bne_iff_ne, beq_iff_eq] at hfree
    exact ⟨k, bbt.bmtTbl[k], by omega, he, rfl, hfree.1, hfree.2, rfl⟩
  · split at h <;> simp at h

theorem setMapping_spec {block pb : Nat} (h : bbt.setMapping block pb = .ok bbt') :
    bbt' = { bbt with bbTbl := bbt.bbTbl.set block pb } := by
  unfold Bbbt.setMapping at h
  split at h
  · exact (Except.ok.inj h).symm
  · simp at h

/-! ## What storing leaves of the tables -/

theorem failed_get_ne {k : Nat} (h : k ≠ n) :
    (bbt.failed env n e).bmtTbl[k]? = bbt.bmtTbl[k]? := by
  rw [failed_bmtTbl, getElem?_set_ne h.symm]

theorem failed_get_self {f : Bbmt} (h : bbt.bmtTbl[n]? = some f) :
    (bbt.failed env n e).bmtTbl[n]? = some { e with block := 0 } := by
  rw [failed_bmtTbl, getElem?_set_self (List.getElem?_eq_some_iff.mp h).1]

/-- `upload_bmt` does not touch `bb_tbl`. -/
theorem Upload.bbTbl {r : Option Nat × Bbbt × Nand} (h : Upload env n bbt nand r) :
    r.2.1.bbTbl = bbt.bbTbl := by
  induction h with
  | full _ _ => rfl
  | taken _ _ _ => rfl
  | last _ _ _ => simp
  | retry _ _ _ _ ih => simpa using ih

/-- From entry `n` down to `m` the pool was tried: the entries above `m` failed and have
    lost their block, and none of them, nor `m`, is flagged as mapped. -/
structure Uploaded (env : Env) (n m : Nat) (bbt bbt' : Bbbt) : Prop where
  le : m ≤ n
  bbTbl : bbt'.bbTbl = bbt.bbTbl
  kept : ∀ k, k ≤ m ∨ n < k → bbt'.bmtTbl[k]? = bbt.bmtTbl[k]?
  dropped : ∀ k, m < k → k ≤ n → ∃ e, bbt.bmtTbl[k]? = some e ∧ e.mapped ≠ normalMapped ∧
    env.fails e = true ∧ bbt'.bmtTbl[k]? = some { e with block := 0 }
  taken : ∃ e, bbt.bmtTbl[m]? = some e ∧ e.mapped ≠ normalMapped ∧ env.fails e = false

theorem Uploaded.retry (he : bbt.bmtTbl[n + 1]? = some e) (hn : e.mapped ≠ normalMapped)
    (hf : env.fails e = true) (h : Uploaded env n m (bbt.failed env (n + 1) e) bbt') :
    Uploaded env (n + 1) m bbt bbt' := by
  have hle := h.le
  refine ⟨by omega, by simpa using h.bbTbl, ?_, ?_, ?_⟩
  · intro k hk
    rw [h.kept k (by omega), failed_get_ne (by omega)]
  · intro k hmk hk
    by_cases hkn : k = n + 1
    · subst hkn
      exact ⟨e, he, hn, hf, by rw [h.kept _ (by omega), failed_get_self he]⟩
    · obtain ⟨f, hfe, hfn, hff, hf'⟩ := h.dropped k hmk (by omega)
      rw [failed_get_ne hkn] at hfe
      exact ⟨f, hfe, hfn, hff, hf'⟩
  · obtain ⟨f, hfe, hfn, hff⟩ := h.taken
    rw [failed_get_ne (by omega)] at hfe
    exact ⟨f, hfe, hfn, hff⟩

/-- A table that is stored was stored at an entry at or below the one asked for. -/
theorem Upload.uploaded (h : Upload env n bbt nand (some m, bbt', nand')) :
    Uploaded env n m bbt bbt' := by
  generalize hr : (some m, bbt', nand') = r at h
  induction h with
  | full _ _ => simp at hr
  | taken he hn hf =>
    obtain ⟨rfl, rfl, -⟩ := by simpa using hr
    exact ⟨le_rfl, rfl, fun _ _ => rfl, fun k h₁ h₂ => by omega, _, he, hn, hf⟩
  | last _ _ _ => simp at hr
  | retry he hn hf _ ih => exact (ih hr).retry he hn hf

end LibWrt.MtkBmt.V2
