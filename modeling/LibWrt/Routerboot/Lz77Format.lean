/-
LibWrt.Routerboot.Lz77Format — the bit format, and what the decoder makes of it.

A token starts with a header: the instruction and its counts. A count has as
many set bits as it takes to reach its size, a clear bit, and then the rest
as a number. `decodeInstructionOperators_iff` says that the decoder reads a
header exactly where the input has its bits.
-/
import LibWrt.Routerboot.Lz77

namespace LibWrt.Routerboot.Lz77

open List Option Nat

variable {inp : Input}

/-! ## Bits -/

/-- The lowest `n` bits of a number, the highest of them first. -/
def msbBits : Nat → Nat → List Bool
  | 0, _ => []
  | n + 1, v => v.testBit n :: msbBits n v

@[simp] theorem length_msbBits (n v : Nat) : (msbBits n v).length = n := by
  induction n with
  | zero => rfl
  | succ n ih => simp [msbBits, ih]

theorem ofBits_foldl (bits : List Bool) (n : Nat) :
    bits.foldl (fun n b => 2 * n + b.toNat) n = n * 2 ^ bits.length + ofBits bits := by
  induction bits generalizing n with
  | nil => simp [ofBits]
  | cons b bits ih =>
    have hb := ih (2 * 0 + b.toNat)
    rw [ofBits, foldl_cons, foldl_cons, ih, hb, length_cons]
    ring

theorem ofBits_cons (b : Bool) (bits : List Bool) :
    ofBits (b :: bits) = b.toNat * 2 ^ bits.length + ofBits bits := by
  rw [ofBits, foldl_cons, ofBits_foldl]
  simp

theorem ofBits_lt (bits : List Bool) : ofBits bits < 2 ^ bits.length := by
  induction bits with
  | nil => simp [ofBits]
  | cons b bits ih =>
    have hb := b.toNat_le
    rw [ofBits_cons, length_cons, pow_succ]
    nlinarith

theorem ofBits_msbBits (n v : Nat) : ofBits (msbBits n v) = v % 2 ^ n := by
  induction n with
  | zero => simp [msbBits, ofBits, mod_one]
  | succ n ih =>
    rw [msbBits, ofBits_cons, length_msbBits, ih, mod_pow_succ, testBit_eq_decide_div_mod_eq]
    have hbit : v / 2 ^ n % 2 < 2 := mod_lt _ (by decide)
    rcases Nat.lt_or_ge (v / 2 ^ n % 2) 1 with h | h
    · have hz : v / 2 ^ n % 2 = 0 := by omega
      simp [hz]
    · have ho : v / 2 ^ n % 2 = 1 := by omega
      simp [ho]
      ring

theorem ofBits_inj {bits bits' : List Bool} (hlen : bits.length = bits'.length)
    (h : ofBits bits = ofBits bits') : bits = bits' := by
  induction bits generalizing bits' with
  | nil => exact (length_eq_zero_iff.mp hlen.symm).symm
  | cons b bits ih =>
    match bits', hlen with
    | b' :: bits', hlen =>
      have hlen' : bits.length = bits'.length := by simpa using hlen
      have hlt := ofBits_lt bits
      have hlt' := ofBits_lt bits'
      rw [ofBits_cons, ofBits_cons, hlen'] at h
      rw [hlen'] at hlt
      obtain ⟨rfl, hrest⟩ : b = b' ∧ ofBits bits = ofBits bits' := by
        cases b <;> cases b' <;> simp at h ⊢ <;> omega
      rw [ih hlen' hrest]

theorem msbBits_ofBits (bits : List Bool) : msbBits bits.length (ofBits bits) = bits := by
  apply ofBits_inj (length_msbBits _ _)
  rw [ofBits_msbBits, mod_eq_of_lt (ofBits_lt bits)]

/-- The input has these bits at `pos`. -/
def At (inp : Input) (pos : Nat) (bits : List Bool) : Prop := inp.bits pos bits.length = bits

@[simp] theorem at_nil (pos : Nat) : At inp pos [] := rfl

variable {pos shift n offset : Nat} {out : List UInt8}

@[simp] theorem at_cons {b : Bool} {bits : List Bool} :
    At inp pos (b :: bits) ↔ inp.getBit pos = b ∧ At inp (pos + 1) bits := by
  simp [At, Input.bits, range'_succ]

theorem at_append {bits bits' : List Bool} :
    At inp pos (bits ++ bits') ↔ At inp pos bits ∧ At inp (pos + bits.length) bits' := by
  induction bits generalizing pos with
  | nil => simp
  | cons b bits ih =>
    rw [cons_append, at_cons, at_cons, ih, length_cons, and_assoc]
    simp only [show pos + 1 + bits.length = pos + (bits.length + 1) by omega]

@[simp] theorem length_bits (pos n : Nat) : (inp.bits pos n).length = n := by simp [Input.bits]

theorem at_bits (pos n : Nat) : At inp pos (inp.bits pos n) := by simp [At]

/-! ## Counts -/

/-- A number as a count that starts at a bit shift, with so many bits set at most. -/
def countBitsFrom : Nat → Nat → Nat → List Bool
  | 0, _, _ => []
  | fuel + 1, shift, n =>
    if n < 2 ^ shift then false :: msbBits shift n
    else true :: countBitsFrom fuel (shift + 1) (n - 2 ^ shift)

def countBits (shift n : Nat) : List Bool := countBitsFrom (n + 1) shift n

theorem countBitsFrom_eq {fuel fuel' : Nat} (h : n < fuel) (h' : n < fuel') :
    countBitsFrom fuel shift n = countBitsFrom fuel' shift n := by
  induction fuel generalizing fuel' shift n with
  | zero => omega
  | succ fuel ih =>
    cases fuel' with
    | zero => omega
    | succ fuel' =>
      have hpos : 0 < 2 ^ shift := by positivity
      unfold countBitsFrom
      split
      · rfl
      · have hlt : n - 2 ^ shift < fuel := by omega
        have hlt' : n - 2 ^ shift < fuel' := by omega
        rw [ih hlt hlt']

theorem countBits_of_lt (h : n < 2 ^ shift) :
    countBits shift n = false :: msbBits shift n := by
  rw [countBits, countBitsFrom, if_pos h]

theorem countBits_add (shift n : Nat) :
    countBits shift (2 ^ shift + n) = true :: countBits (shift + 1) n := by
  have hpos : 0 < 2 ^ shift := by positivity
  rw [countBits, countBitsFrom, if_neg (by omega), Nat.add_sub_cancel_left, countBits,
    countBitsFrom_eq (by omega) (lt_succ_self n)]

theorem length_countBits_pos (shift n : Nat) : 0 < (countBits shift n).length := by
  rcases Nat.lt_or_ge n (2 ^ shift) with h | h
  · simp [countBits_of_lt h]
  · obtain ⟨m, rfl⟩ := Nat.exists_eq_add_of_le h
    simp [countBits_add]

/-- The rest of a count, as a number. -/
theorem decodeCountFrom_down (left pos shift count : Nat) :
    (decodeCountFrom inp left pos shift count false).2 =
      if shift + 1 ≤ left then some (count + ofBits (inp.bits pos (shift + 1)), shift + 1)
      else none := by
  induction left generalizing pos shift count with
  | zero => simp [decodeCountFrom]
  | succ left ih =>
    have hbits : ofBits (inp.bits pos (shift + 1)) =
        (inp.getBit pos).toNat * 2 ^ shift + ofBits (inp.bits (pos + 1) shift) := by
      rw [Input.bits, range'_succ, map_cons, ofBits_cons]
      simp [Input.bits]
    have hcount : (if inp.getBit pos then count + 2 ^ shift else count) =
        count + (inp.getBit pos).toNat * 2 ^ shift := by
      cases inp.getBit pos <;> simp
    simp only [decodeCountFrom, Bool.false_and, Bool.false_eq_true, if_false]
    rw [hcount, hbits]
    split
    · rename_i hz
      subst hz
      simp [Input.bits, ofBits]
    · rename_i hz
      obtain ⟨shift, rfl⟩ := exists_eq_succ_of_ne_zero hz
      simp only [succ_eq_add_one, Nat.add_sub_cancel]
      rw [ih]
      split
      · rename_i hle
        rw [if_pos (by omega)]
        simp only [map_some, Nat.add_assoc]
      · rename_i hle
        rw [if_neg (by omega)]
        rfl

/-- A count is decoded exactly where the input has its bits. -/
theorem decodeCountFrom_up (left pos shift count : Nat) (c k : Nat) :
    (decodeCountFrom inp left pos shift count true).2 = some (c, k) ↔
      ∃ n, c = count + n ∧ k = (countBits shift n).length ∧ At inp pos (countBits shift n) ∧
        k ≤ left := by
  induction left generalizing pos shift count c k with
  | zero =>
    simp only [decodeCountFrom, reduceCtorEq, false_iff, not_exists, not_and]
    rintro n - rfl -
    have := length_countBits_pos shift n
    omega
  | succ left ih =>
    cases hbit : inp.getBit pos with
    | true =>
      simp only [decodeCountFrom, hbit, Bool.and_self, if_true, map_eq_some_iff,
        Prod.exists, Prod.mk.injEq, ih]
      constructor
      · rintro ⟨c', k', ⟨n, rfl, rfl, hat, hle⟩, rfl, rfl⟩
        refine ⟨2 ^ shift + n, by omega, by simp [countBits_add], ?_, by omega⟩
        rw [countBits_add]
        exact at_cons.mpr ⟨hbit, hat⟩
      · rintro ⟨n, rfl, rfl, hat, hle⟩
        rcases Nat.lt_or_ge n (2 ^ shift) with h | h
        · rw [countBits_of_lt h, at_cons, hbit] at hat
          simp at hat
        · obtain ⟨m, rfl⟩ := Nat.exists_eq_add_of_le h
          rw [countBits_add] at hat hle ⊢
          simp only [length_cons, Nat.add_le_add_iff_right] at hle
          exact ⟨_, _, ⟨m, rfl, rfl, (at_cons.mp hat).2, hle⟩, by omega, rfl⟩
    | false =>
      have hbits : (decodeCountFrom inp (left + 1) pos shift count true).2 =
          if shift ≤ left then some (count + ofBits (inp.bits (pos + 1) shift), shift + 1)
          else none := by
        simp only [decodeCountFrom, hbit, Bool.and_false, Bool.false_eq_true, if_false]
        split
        · rename_i hz
          simp [hz, Input.bits, ofBits]
        · rename_i hz
          obtain ⟨shift, rfl⟩ := exists_eq_succ_of_ne_zero hz
          simp only [succ_eq_add_one, Nat.add_sub_cancel, decodeCountFrom_down]
          split <;> rfl
      rw [hbits]
      constructor
      · intro h
        split at h
        · rename_i hle
          simp only [some_inj, Prod.mk.injEq] at h
          obtain ⟨rfl, rfl⟩ := h
          have hlt := ofBits_lt (inp.bits (pos + 1) shift)
          rw [length_bits] at hlt
          have hmsb := msbBits_ofBits (inp.bits (pos + 1) shift)
          rw [length_bits] at hmsb
          refine ⟨_, rfl, by simp [countBits_of_lt hlt], ?_, by omega⟩
          rw [countBits_of_lt hlt, hmsb]
          exact at_cons.mpr ⟨hbit, at_bits _ _⟩
        · simp at h
      · rintro ⟨n, rfl, rfl, hat, hle⟩
        rcases Nat.lt_or_ge n (2 ^ shift) with h | h
        · rw [countBits_of_lt h] at hat hle ⊢
          simp only [length_cons, length_msbBits, Nat.add_le_add_iff_right] at hle ⊢
          have hrest : inp.bits (pos + 1) shift = msbBits shift n := by
            have := (at_cons.mp hat).2
            rwa [At, length_msbBits] at this
          rw [if_pos hle, hrest, ofBits_msbBits, mod_eq_of_lt h]
        · obtain ⟨m, rfl⟩ := Nat.exists_eq_add_of_le h
          rw [countBits_add, at_cons, hbit] at hat
          simp at hat

theorem decodeCount_iff (pos shift count c k : Nat) :
    (decodeCount inp pos shift count).2 = some (c, k) ↔
      ∃ n, c = count + n ∧ k = (countBits shift n).length ∧ At inp pos (countBits shift n) ∧
        k ≤ maxCountBitLen ∧ pos + k ≤ inp.bitLen := by
  rw [decodeCount, decodeCountFrom_up]
  refine exists_congr fun n => and_congr_right fun _ => and_congr_right fun hk =>
    and_congr_right fun _ => ?_
  have := length_countBits_pos shift n
  omega

theorem decodeCountFrom_log {left count : Nat} {up : Bool} {a : Access}
    (h : a ∈ (decodeCountFrom inp left pos shift count up).1) :
    ∃ p, a = .bit p ∧ p < pos + left := by
  induction left generalizing pos shift count up with
  | zero => simp [decodeCountFrom] at h
  | succ left ih =>
    have hrest : ∀ shift count up, a ∈ Access.bit pos ::
        (decodeCountFrom inp left (pos + 1) shift count up).1 →
          ∃ p, a = .bit p ∧ p < pos + (left + 1) := by
      intro shift count up h
      rcases mem_cons.mp h with rfl | h
      · exact ⟨pos, rfl, by omega⟩
      · obtain ⟨p, rfl, hp⟩ := ih h
        exact ⟨p, rfl, by omega⟩
    simp only [decodeCountFrom] at h
    split at h
    · exact hrest _ _ _ h
    · split at h
      · rw [mem_singleton] at h
        exact ⟨pos, h, by omega⟩
      · exact hrest _ _ _ h

/-- A count is read inside of the input. -/
theorem decodeCount_log {pos shift count : Nat} {a : Access}
    (h : a ∈ (decodeCount inp pos shift count).1) : ∃ p, a = .bit p ∧ p < inp.bitLen := by
  rw [decodeCount] at h
  rcases Nat.lt_or_ge pos (min (pos + maxCountBitLen) inp.bitLen) with hlt | hge
  · obtain ⟨p, rfl, hp⟩ := decodeCountFrom_log h
    exact ⟨p, rfl, by omega⟩
  · rw [Nat.sub_eq_zero_of_le hge] at h
    simp [decodeCountFrom] at h

/-! ## Headers -/

/-- The instruction of a token with what its counts add to the least values. -/
inductive Header where
  | literal
  | previous (length : Nat)
  | group (length : Nat)
  | matching (offset length : Nat)
  deriving DecidableEq

namespace Header

def bits : Header → List Bool
  | literal => [false]
  | previous length => [true, false] ++ countBits 0 length
  | group length => [true, true] ++ countBits 4 0 ++ countBits 4 length
  | matching offset length => [true, true] ++ countBits 4 offset ++ countBits 0 length

def Encodable : Header → Prop
  | literal => True
  | previous length => (countBits 0 length).length ≤ maxCountBitLen
  | group length => (countBits 4 length).length ≤ maxCountBitLen
  | matching offset length => offset ≠ 0 ∧ (countBits 4 offset).length ≤ maxCountBitLen ∧
      (countBits 0 length).length ≤ maxCountBitLen

def opcodes (h : Header) (previousOffset : Nat) : Opcodes :=
  match h with
  | literal => ⟨.literalByte, 0, 1, h.bits.length⟩
  | previous length => ⟨.previousOffset, previousOffset, 1 + length, h.bits.length⟩
  | group length => ⟨.long, 0, 12 + length, h.bits.length⟩
  | matching offset length => ⟨.long, offset, 2 + length, h.bits.length⟩

end Header

theorem countBits_zero : (countBits 4 0).length ≤ maxCountBitLen := by
  rw [countBits_of_lt (by decide)]
  decide

/-- The decoder reads a header exactly where the input has one. -/
theorem decodeInstructionOperators_iff (pos previousOffset : Nat) (op : Opcodes) :
    (decodeInstructionOperators inp pos previousOffset).2 = some op ↔
      ∃ h : Header, h.Encodable ∧ op = h.opcodes previousOffset ∧ At inp pos h.bits ∧
        (h ≠ .literal → pos + h.bits.length ≤ inp.bitLen) := by
  cases hfirst : inp.getBit pos with
  | false =>
    simp only [decodeInstructionOperators, decodeInstruction, hfirst, Bool.false_eq_true, if_false,
      some_inj]
    constructor
    · rintro rfl
      exact ⟨.literal, trivial, rfl, by simp [Header.bits, hfirst], fun h => absurd rfl h⟩
    · rintro ⟨h, -, rfl, hat, -⟩
      cases h with
      | literal => rfl
      | previous length => simp [Header.bits, hfirst] at hat
      | group length => simp [Header.bits, hfirst] at hat
      | matching offset length => simp [Header.bits, hfirst] at hat
  | true =>
    cases hsecond : inp.getBit (pos + 1) with
    | false =>
      simp only [decodeInstructionOperators, decodeInstruction, hfirst, hsecond, if_true,
        Bool.false_eq_true, if_false, map_eq_some_iff, Prod.exists, decodeCount_iff]
      constructor
      · rintro ⟨c, k, ⟨n, rfl, rfl, hat, hmax, hlen⟩, rfl⟩
        refine ⟨.previous n, hmax, by simp [Header.opcodes, Header.bits]; omega, ?_, fun _ => ?_⟩
        · simp [Header.bits, hfirst, hsecond, hat]
        · simp [Header.bits]
          omega
      · rintro ⟨h, henc, rfl, hat, hlen⟩
        cases h with
        | literal => simp [Header.bits, hfirst] at hat
        | previous n =>
          have hlen := hlen (by simp)
          simp only [Header.bits, cons_append, nil_append, length_cons] at hlen
          simp only [Header.bits, cons_append, nil_append, at_cons] at hat
          refine ⟨_, _, ⟨n, rfl, rfl, hat.2.2, henc, by omega⟩, ?_⟩
          simp [Header.opcodes, Header.bits]
          omega
        | group length => simp [Header.bits, hfirst, hsecond] at hat
        | matching offset length => simp [Header.bits, hfirst, hsecond] at hat
    | true =>
      have hoffset := @decodeCount_iff inp (pos + 2) 4 0
      simp only [decodeInstructionOperators, decodeInstruction, hfirst, hsecond, if_true]
      -- the first count of a header of this kind is the offset that is decoded
      have hheader : ∀ h : Header, h.Encodable → At inp pos h.bits →
          (h ≠ .literal → pos + h.bits.length ≤ inp.bitLen) →
          (decodeCount inp (pos + 2) 4 0).2 = some ((h.opcodes previousOffset).offset,
            (countBits 4 (h.opcodes previousOffset).offset).length) := by
        intro h henc hat hlen
        have hoff := (hoffset _ _).mpr ⟨(h.opcodes previousOffset).offset, rfl, rfl, ?_, ?_, ?_⟩
        · rw [hoff, Nat.zero_add]
        all_goals
          cases h with
          | literal => simp [Header.bits, hfirst] at hat
          | previous n => simp [Header.bits, hfirst, hsecond] at hat
          | group n =>
            have := hlen (by simp)
            simp only [Header.bits, cons_append, nil_append, at_cons, at_append,
              length_cons, length_append] at hat this
            first
              | exact hat.2.2.1
              | exact countBits_zero
              | (simp only [Header.opcodes]; omega)
          | matching o n =>
            have := hlen (by simp)
            simp only [Header.bits, cons_append, nil_append, at_cons, at_append,
              length_cons, length_append] at hat this
            first
              | exact hat.2.2.1
              | exact henc.2.1
              | (simp only [Header.opcodes]; omega)
      rcases hd : decodeCount inp (pos + 2) 4 0 with ⟨log, _ | ⟨offset, k⟩⟩
      · simp only [reduceCtorEq, false_iff, not_exists, not_and]
        rintro h henc rfl hat hlen
        have hsome := hheader h henc hat hlen
        rw [hd] at hsome
        simp at hsome
      · obtain ⟨n, hn, rfl, hat, hmax, hlen⟩ := (hoffset offset k).mp (by rw [hd])
        obtain rfl : offset = n := by omega
        have hpos : pos + 1 + 1 + (countBits 4 offset).length =
            pos + (2 + (countBits 4 offset).length) := by omega
        dsimp only
        rw [map_eq_some_iff]
        constructor
        · rintro ⟨⟨c, k⟩, hcount, rfl⟩
          split at hcount
          · rename_i hz
            subst hz
            obtain ⟨n, rfl, rfl, hat', hmax', hlen'⟩ := (decodeCount_iff _ _ _ _ _).mp hcount
            refine ⟨.group n, hmax', by simp [Header.opcodes, Header.bits]; omega, ?_, fun _ => ?_⟩
            · simp only [Header.bits, cons_append, nil_append, at_cons, at_append, hpos]
              exact ⟨hfirst, hsecond, hat, hat'⟩
            · simp only [Header.bits, cons_append, nil_append, length_cons,
                length_append]
              omega
          · rename_i hz
            obtain ⟨n, rfl, rfl, hat', hmax', hlen'⟩ := (decodeCount_iff _ _ _ _ _).mp hcount
            refine ⟨.matching offset n, ⟨hz, hmax, hmax'⟩, by
              simp [Header.opcodes, Header.bits]; omega, ?_, fun _ => ?_⟩
            · simp only [Header.bits, cons_append, nil_append, at_cons, at_append, hpos]
              exact ⟨hfirst, hsecond, hat, hat'⟩
            · simp only [Header.bits, cons_append, nil_append, length_cons,
                length_append]
              omega
        · rintro ⟨h, henc, rfl, hath, hlenh⟩
          have hsome := hheader h henc hath hlenh
          rw [hd] at hsome
          obtain ⟨hoff, -⟩ := Prod.mk.inj (some.inj hsome)
          cases h with
          | literal => simp [Header.bits, hfirst] at hath
          | previous n => simp [Header.bits, hfirst, hsecond] at hath
          | group n =>
            obtain rfl : offset = 0 := hoff
            have hlenh := hlenh (by simp)
            simp only [Header.bits, cons_append, nil_append, at_cons, at_append, hpos,
              length_cons, length_append] at hath hlenh
            rw [if_pos rfl]
            refine ⟨_, (decodeCount_iff _ _ _ _ _).mpr
              ⟨n, rfl, rfl, hath.2.2.2, henc, by omega⟩, ?_⟩
            simp [Header.opcodes, Header.bits]
            omega
          | matching o n =>
            obtain rfl : offset = o := hoff
            have hlenh := hlenh (by simp)
            simp only [Header.bits, cons_append, nil_append, at_cons, at_append, hpos,
              length_cons, length_append] at hath hlenh
            rw [if_neg henc.1]
            refine ⟨_, (decodeCount_iff _ _ _ _ _).mpr
              ⟨n, rfl, rfl, hath.2.2.2, henc.2.2, by omega⟩, ?_⟩
            simp [Header.opcodes, Header.bits]
            omega

/-! ## Tokens -/

inductive Token where
  | literal (b : UInt8)
  | group (bytes : List UInt8)
  | matching (offset length : Nat)
  | previous (length : Nat)
  deriving DecidableEq

namespace Token

def header : Token → Header
  | literal _ => .literal
  | group bytes => .group (bytes.length - 12)
  | matching offset length => .matching offset (length - 2)
  | previous length => .previous (length - 1)

def data : Token → List UInt8
  | literal b => [b]
  | group bytes => bytes
  | matching _ _ => []
  | previous _ => []

def bits (t : Token) : List Bool :=
  t.header.bits ++ t.data.flatMap fun b => msbBits 8 b.toNat

/-- A token that the format has a code for, with counts that are not too long. -/
def Encodable (t : Token) : Prop :=
  t.header.Encodable ∧
    match t with
    | literal _ => True
    | group bytes => 12 ≤ bytes.length
    | matching _ length => 2 ≤ length
    | previous length => 1 ≤ length

end Token

/-- `n` more bytes, each the one `offset` before it. -/
def repeated (offset : Nat) : Nat → List UInt8 → List UInt8
  | 0, out => out
  | n + 1, out =>
    let out := repeated offset n out
    out ++ [out.getD (out.length - offset) 0]

def Token.expand (t : Token) (out : List UInt8) (previous : Nat) : Option (List UInt8 × Nat) :=
  match t with
  | .literal b => some (out ++ [b], previous)
  | .group bytes => some (out ++ bytes, previous)
  | .matching offset length =>
    if offset ≤ out.length then some (repeated offset length out, offset) else none
  | .previous length =>
    if previous ≠ 0 ∧ previous ≤ out.length then some (repeated previous length out, previous)
    else none

def expandFrom : List Token → List UInt8 → Nat → Option (List UInt8)
  | [], out, _ => some out
  | t :: ts, out, previous => (t.expand out previous).bind fun r => expandFrom ts r.1 r.2

def expansion (ts : List Token) : Option (List UInt8) := expandFrom ts [] 0

def endMarker : List Bool := (Header.group 0).bits

def streamBits (ts : List Token) : List Bool := ts.flatMap Token.bits ++ endMarker

/-- Bits as bytes, the first bit of each the lowest, padded with clear ones. -/
def pack (bits : List Bool) : List UInt8 :=
  (range ((bits.length + 7) / 8)).map fun i =>
    UInt8.ofNat (ofBits ((range 8).reverse.map fun j => bits.getD (8 * i + j) false))

def encode (ts : List Token) : List UInt8 := pack (streamBits ts)

def Input.ofList (bytes : List UInt8) : Input where
  mem i := bytes.getD i 0
  len := bytes.length

/-! ### Copies -/

@[simp] theorem length_repeated (offset n : Nat) (out : List UInt8) :
    (repeated offset n out).length = out.length + n := by
  induction n with
  | zero => rfl
  | succ n ih =>
    simp only [repeated, length_append, ih, length_singleton]
    omega

theorem repeated_add (offset m n : Nat) (out : List UInt8) :
    repeated offset (m + n) out = repeated offset n (repeated offset m out) := by
  induction n with
  | zero => rfl
  | succ n ih => rw [← Nat.add_assoc, repeated, repeated, ih]

theorem copied_eq (hn : n ≤ offset) (hoffset : offset ≤ out.length) :
    copied out offset n = repeated offset n out := by
  induction n with
  | zero => simp [copied, repeated]
  | succ n ih =>
    have hlt : out.length - offset + n < out.length := by omega
    rw [repeated, ← ih (by omega)]
    simp only [copied, take_add_one, getElem?_drop, append_assoc]
    congr 2
    have hlen : (out ++ take n (drop (out.length - offset) out)).length - offset =
        out.length - offset + n := by
      simp only [length_append, length_take, length_drop]
      omega
    rw [hlen, getD_eq_getElem?_getD, getElem?_append_left hlt,
      getElem?_eq_getElem hlt]
    rfl

/-- The pieces of a match make up the whole. -/
theorem copyMatch_out {turns length : Nat} (hpos : 0 < offset) (hoffset : offset ≤ out.length)
    (hturns : length ≤ turns) :
    (copyMatch offset turns length out).2 = repeated offset length out := by
  induction turns generalizing length out with
  | zero =>
    obtain rfl : length = 0 := by omega
    rfl
  | succ turns ih =>
    unfold copyMatch
    split
    · rename_i hlt
      have hpiece := copied_eq (Nat.le_refl offset) hoffset
      have hlen : (copied out offset offset).length = out.length + offset := by
        rw [hpiece, length_repeated]
      dsimp only
      rw [ih (by omega) (by omega), hpiece, ← repeated_add]
      congr 1
      omega
    · exact copied_eq (by omega) hoffset

/-- A match is copied from what is there to where there is room. -/
theorem copyMatch_log {turns length : Nat} {a : Access} (hpos : 0 < offset)
    (hoffset : offset ≤ out.length) (h : a ∈ (copyMatch offset turns length out).1) :
    ∃ cursor n, a = .copy cursor offset n ∧ offset ≤ cursor ∧ cursor + n ≤ out.length + length := by
  induction turns generalizing length out with
  | zero => simp [copyMatch] at h
  | succ turns ih =>
    unfold copyMatch at h
    split at h
    · rename_i hlt
      have hlen : (copied out offset offset).length = out.length + offset := by
        rw [copied_eq (Nat.le_refl offset) hoffset, length_repeated]
      rcases mem_cons.mp h with rfl | h
      · exact ⟨_, _, rfl, hoffset, by omega⟩
      · obtain ⟨cursor, n, rfl, hle, hroom⟩ := ih (by omega) h
        exact ⟨cursor, n, rfl, hle, by omega⟩
    · rw [mem_singleton] at h
      exact ⟨_, _, h, hoffset, by omega⟩

end LibWrt.Routerboot.Lz77
