/-
LibWrt.Routerboot.Count — the counts of the calibration data as a code.

`decodeCountFrom` counts in natural numbers. Here the loop has the types of the
source: the shift is a byte, what a bit adds is an `int`, the count is a
`size_t` and comes back as an `int`. As long as neither runs over, the loop
takes the codes of `countBits` and nothing else, and these are a prefix code
(`decodeCount_prefixCode`).
-/
import LibWrt.Routerboot.Lz77Correct

namespace LibWrt.Routerboot.Count

open List Option
open Lz77 (Input At countBits pack)

/-! ## The loop -/

/-- `1 << shift` as a `size_t`. The language leaves open what a shift by 32 or more gives. -/
def shl (wild : Nat → Nat) (shift : Nat) : Nat :=
  if shift < 31 then 2 ^ shift else if shift = 31 then 2 ^ 64 - 2 ^ 31 else wild shift

/-- A `size_t` as an `int`. -/
def int32 (n : Nat) : Int := ((n : Int) + 2 ^ 31) % 2 ^ 32 - 2 ^ 31

/-- What the function returns, and the `bits_used` it leaves. -/
structure Result where
  ret : Int
  bitsUsed : Nat
  deriving DecidableEq

/-- `-EFBIG` -/
def efbig : Int := -27

/-- The loop, with so many bits up to `max_pos`: the count, and where it ends. -/
def decodeFrom (wild : Nat → Nat) (inp : Input) : Nat → Nat → Nat → Nat → Bool →
    Option (Nat × Nat)
  | 0, _, _, _, _ => none
  | left + 1, pos, shift, count, up =>
    let bit := inp.getBit pos
    let count := if bit then (count + shl wild shift) % 2 ^ 64 else count
    let up := up && bit
    if up then decodeFrom wild inp left (pos + 1) ((shift + 1) % 2 ^ 8) count up
    else if shift = 0 then some (count, pos + 1)
    else decodeFrom wild inp left (pos + 1) (shift - 1) count up

/-- `rb_lz77_decode_count` -/
def decodeCount (wild : Nat → Nat) (inp : Input) (pos : Nat) (shift : UInt8) (count : UInt64)
    (maxBits : UInt8) : Result :=
  let left := min (pos + maxBits.toNat) inp.bitLen - pos
  match decodeFrom wild inp left pos shift.toNat count.toNat true with
  | none => { ret := efbig, bitsUsed := 0 }
  | some (count, ends) => { ret := int32 count, bitsUsed := (ends - pos) % 2 ^ 8 }

/-! ## The loop in natural numbers -/

section Loop

variable {wild : Nat → Nat} {inp : Input}

theorem decodeFrom_down_none {left pos shift count : Nat} (h : left ≤ shift) :
    decodeFrom wild inp left pos shift count false = none := by
  induction left generalizing pos shift count with
  | zero => rfl
  | succ left ih =>
    simp only [decodeFrom, Bool.false_and, Bool.false_eq_true, if_false]
    rw [if_neg (by omega), ih (by omega)]

theorem decodeFrom_up_none {left pos shift count : Nat} (h : left ≤ shift)
    (hwrap : shift + left ≤ 2 ^ 8) : decodeFrom wild inp left pos shift count true = none := by
  induction left generalizing pos shift count with
  | zero => rfl
  | succ left ih =>
    cases hbit : inp.getBit pos with
    | true =>
      simp only [decodeFrom, hbit, Bool.and_self, if_true]
      rcases Nat.lt_or_ge (shift + 1) (2 ^ 8) with hlt | hge
      · rw [Nat.mod_eq_of_lt hlt, ih (by omega) (by omega)]
      · obtain rfl : left = 0 := by omega
        rfl
    | false =>
      simp only [decodeFrom, hbit, Bool.and_false, Bool.false_eq_true, if_false]
      rw [if_neg (by omega), decodeFrom_down_none (by omega)]

theorem shl_eq {shift : Nat} (h : shift ≤ 30) : shl wild shift = 2 ^ shift := by
  rw [shl, if_pos (by omega)]

theorem step_count {count n : Nat} (b : Bool) {shift : Nat} (h : shift ≤ 30)
    (hn : n % 2 ^ 64 = count) :
    (if b then n + 2 ^ shift else n) % 2 ^ 64 =
      if b then (count + shl wild shift) % 2 ^ 64 else count := by
  cases b with
  | true => rw [if_pos rfl, if_pos rfl, shl_eq h, ← hn, Nat.mod_add_mod]
  | false => exact hn

/-- What the machine makes of the result of the loop in natural numbers. -/
def wrapped (pos : Nat) (r : Nat × Nat) : Nat × Nat := (r.1 % 2 ^ 64, pos + r.2)

theorem map_wrapped_succ (pos : Nat) (r : Option (Nat × Nat)) :
    (r.map fun r => (r.1, r.2 + 1)).map (wrapped pos) = r.map (wrapped (pos + 1)) := by
  cases r with
  | none => rfl
  | some r =>
    simp only [map_some, wrapped, Option.some.injEq, Prod.mk.injEq, true_and]
    omega

theorem decodeFrom_down {left pos shift count n : Nat} (hleft : left ≤ 31)
    (hn : n % 2 ^ 64 = count) : decodeFrom wild inp left pos shift count false =
      (Lz77.decodeCountFrom inp left pos shift n false).2.map (wrapped pos) := by
  induction left generalizing pos shift count n with
  | zero => rfl
  | succ left ih =>
    rcases Nat.lt_or_ge shift (left + 1) with hlt | hge
    · simp only [decodeFrom, Lz77.decodeCountFrom, Bool.false_and, Bool.false_eq_true, if_false]
      have hcount := @step_count wild count n (inp.getBit pos) shift (by omega) hn
      by_cases hz : shift = 0
      · rw [if_pos hz, if_pos hz, ← hcount]
        rfl
      · rw [if_neg hz, if_neg hz]
        simp only
        rw [map_wrapped_succ, ih (by omega) hcount]
    · rw [decodeFrom_down_none hge, Lz77.decodeCountFrom_down, if_neg (by omega)]
      rfl

theorem lt_length_countBits (shift n : Nat) : shift < (countBits shift n).length := by
  induction n using Nat.strong_induction_on generalizing shift with
  | _ n ih =>
    rcases Nat.lt_or_ge n (2 ^ shift) with h | h
    · simp [Lz77.countBits_of_lt h]
    · have hpos : 0 < 2 ^ shift := by positivity
      obtain ⟨m, rfl⟩ := Nat.exists_eq_add_of_le h
      have := ih m (by omega) (shift + 1)
      rw [Lz77.countBits_add, length_cons]
      omega

theorem decodeCountFrom_up_none {left pos shift n : Nat} (h : left ≤ shift) :
    (Lz77.decodeCountFrom inp left pos shift n true).2 = none := by
  rw [eq_none_iff_forall_ne_some]
  intro r hr
  obtain ⟨m, -, hk, -, hle⟩ := (Lz77.decodeCountFrom_up left pos shift n r.1 r.2).mp hr
  have := lt_length_countBits shift m
  omega

/-- With no more than 32 bits to go, what a bit adds fits an `int`. -/
theorem decodeFrom_up {left pos shift count n : Nat} (hleft : left ≤ 32)
    (hwrap : shift + left ≤ 2 ^ 8) (hn : n % 2 ^ 64 = count) :
    decodeFrom wild inp left pos shift count true =
      (Lz77.decodeCountFrom inp left pos shift n true).2.map (wrapped pos) := by
  induction left generalizing pos shift count n with
  | zero => rfl
  | succ left ih =>
    rcases Nat.lt_or_ge shift (left + 1) with hlt | hge
    · cases hbit : inp.getBit pos with
      | true =>
        simp only [decodeFrom, Lz77.decodeCountFrom, hbit, Bool.and_self, if_true]
        rw [map_wrapped_succ, Nat.mod_eq_of_lt (show shift + 1 < 2 ^ 8 by omega)]
        rcases Nat.lt_or_ge (shift + 1) left with hlong | hshort
        · have hcount := @step_count wild count n true shift (by omega) hn
          exact ih (by omega) (by omega) hcount
        · rw [decodeFrom_up_none hshort (by omega), decodeCountFrom_up_none hshort]
          rfl
      | false =>
        simp only [decodeFrom, Lz77.decodeCountFrom, hbit, Bool.and_false, Bool.false_eq_true,
          if_false]
        by_cases hz : shift = 0
        · rw [if_pos hz, if_pos hz, ← hn]
          rfl
        · rw [if_neg hz, if_neg hz]
          simp only
          rw [map_wrapped_succ, decodeFrom_down (by omega) hn]
    · rw [decodeFrom_up_none hge hwrap, decodeCountFrom_up_none hge]
      rfl

end Loop

/-! ## The code -/

section Code

variable {wild : Nat → Nat} {inp : Input} {shift : UInt8} {count : UInt64} {maxBits : UInt8}

/-- How many bits the function looks at: up to `max_bits`, or the end of the input. -/
def left (inp : Input) (pos : Nat) (maxBits : UInt8) : Nat :=
  min (pos + maxBits.toNat) inp.bitLen - pos

def decoded (shift : UInt8) (count : UInt64) (n : Nat) : Result :=
  { ret := int32 ((count.toNat + n) % 2 ^ 64), bitsUsed := (countBits shift.toNat n).length }

/-- What is decoded has been a code. -/
theorem decodeCount_cases (hmax : maxBits.toNat ≤ 32)
    (hwrap : shift.toNat + maxBits.toNat ≤ 2 ^ 8) (pos : Nat) :
    (∃ n, decodeCount wild inp pos shift count maxBits = decoded shift count n ∧
        At inp pos (countBits shift.toNat n) ∧
          (countBits shift.toNat n).length ≤ left inp pos maxBits) ∨
      decodeCount wild inp pos shift count maxBits = { ret := efbig, bitsUsed := 0 } ∧
        ∀ n, At inp pos (countBits shift.toNat n) →
          left inp pos maxBits < (countBits shift.toNat n).length := by
  have hle : left inp pos maxBits ≤ maxBits.toNat := by
    unfold left
    omega
  have heq := @decodeFrom_up wild inp (left inp pos maxBits) pos shift.toNat count.toNat
    count.toNat (by omega) (by omega) (Nat.mod_eq_of_lt count.toNat_lt)
  have hiff := @Lz77.decodeCountFrom_up inp (left inp pos maxBits) pos shift.toNat count.toNat
  unfold decodeCount
  simp only
  rw [← left, heq]
  cases hres : (Lz77.decodeCountFrom inp (left inp pos maxBits) pos shift.toNat count.toNat
    true).2 with
  | none =>
    refine .inr ⟨rfl, fun n hat => ?_⟩
    by_contra hlen
    have := (hiff _ _).mpr ⟨n, rfl, rfl, hat, Nat.le_of_not_lt hlen⟩
    rw [hres] at this
    cases this
  | some r =>
    obtain ⟨n, hc, hk, hat, hlen⟩ := (hiff r.1 r.2).mp hres
    refine .inl ⟨n, ?_, hat, hk ▸ hlen⟩
    simp only [map_some, wrapped, decoded, hc, Nat.add_sub_cancel_left]
    rw [Nat.mod_eq_of_lt (show r.2 < 2 ^ 8 by omega), hk]

/-- There is one code at a place. -/
theorem at_countBits_inj {pos shift n n' : Nat} (h : At inp pos (countBits shift n))
    (h' : At inp pos (countBits shift n')) : n = n' := by
  have hn := (Lz77.decodeCountFrom_up ((countBits shift n).length + (countBits shift n').length)
    pos shift 0 n (countBits shift n).length).mpr ⟨n, by omega, rfl, h, by omega⟩
  have hn' := (Lz77.decodeCountFrom_up ((countBits shift n).length + (countBits shift n').length)
    pos shift 0 n' (countBits shift n').length).mpr ⟨n', by omega, rfl, h', by omega⟩
  rw [hn, Option.some.injEq, Prod.mk.injEq] at hn'
  exact hn'.1

/-- No code starts another one. -/
theorem countBits_eq_of_start {shift n n' : Nat} (h : countBits shift n <+: countBits shift n') :
    n = n' := by
  obtain ⟨rest, hrest⟩ := h
  have hat := Lz77.at_pack (countBits shift n')
  rw [← hrest, Lz77.at_append, hrest] at hat
  exact at_countBits_inj hat.1 (Lz77.at_pack _)

/-- A code is decoded to its number. -/
theorem decodeCount_code (hmax : maxBits.toNat ≤ 32)
    (hwrap : shift.toNat + maxBits.toNat ≤ 2 ^ 8) {pos n : Nat}
    (hat : At inp pos (countBits shift.toNat n))
    (hlen : (countBits shift.toNat n).length ≤ left inp pos maxBits) :
    decodeCount wild inp pos shift count maxBits = decoded shift count n := by
  rcases @decodeCount_cases wild inp shift count maxBits hmax hwrap pos with
    ⟨n', hres, hat', -⟩ | ⟨-, hnone⟩
  · rw [hres, at_countBits_inj hat hat']
  · have := hnone n hat
    omega

theorem isStart_of_at {pos : Nat} {bits bits' : List Bool} (h : At inp pos bits)
    (h' : At inp pos bits') (hlen : bits.length ≤ bits'.length) : bits <+: bits' := by
  rw [← take_append_drop bits.length bits', Lz77.at_append] at h'
  have htake := h'.1
  rw [At, length_take, Nat.min_eq_left hlen] at htake
  rw [At, htake] at h
  rw [← h]
  exact take_prefix _ _

/-- The bits are decoded to a value, and all of them are used, whatever comes behind. -/
structure Codes (wild : Nat → Nat) (shift : UInt8) (count : UInt64) (maxBits : UInt8)
    (bits : List Bool) (value : Int) : Prop where
  some : bits ≠ []
  decoded : ∀ (inp : Input) (pos : Nat), At inp pos bits → pos + bits.length ≤ inp.bitLen →
    decodeCount wild inp pos shift count maxBits = { ret := value, bitsUsed := bits.length }

theorem codes_iff (hmax : maxBits.toNat ≤ 32) (hwrap : shift.toNat + maxBits.toNat ≤ 2 ^ 8)
    {bits : List Bool} {value : Int} : Codes wild shift count maxBits bits value ↔
      ∃ n, bits = countBits shift.toNat n ∧ bits.length ≤ maxBits.toNat ∧
        value = int32 ((count.toNat + n) % 2 ^ 64) := by
  constructor
  · rintro ⟨hne, hdec⟩
    have hat := Lz77.at_pack bits
    have hres := hdec _ 0 hat (by simp [Input.bitLen, Input.ofList]; omega)
    rcases @decodeCount_cases wild (.ofList (pack bits)) shift count maxBits hmax hwrap 0 with
      ⟨n, hn, hat', hlen⟩ | ⟨hnone, -⟩
    · rw [hres, decoded, Result.mk.injEq] at hn
      have hpre := isStart_of_at hat hat' hn.2.le
      refine ⟨n, hpre.eq_of_length hn.2, ?_, hn.1⟩
      rw [← hn.2] at hlen
      unfold left at hlen
      omega
    · rw [hres, Result.mk.injEq] at hnone
      exact absurd (length_eq_zero_iff.mp hnone.2) hne
  · rintro ⟨n, rfl, hlen, hvalue⟩
    rw [hvalue]
    refine ⟨ne_nil_of_length_pos (Lz77.length_countBits_pos _ _), fun inp pos hat hend => ?_⟩
    refine decodeCount_code hmax hwrap hat ?_
    unfold left
    omega

/-- A number takes as many bits at least as it is long. -/
theorem add_le_countBits (shift n : Nat) : n + 2 ^ shift ≤ 2 ^ (countBits shift n).length := by
  induction n using Nat.strong_induction_on generalizing shift with
  | _ n ih =>
    rcases Nat.lt_or_ge n (2 ^ shift) with h | h
    · simp only [Lz77.countBits_of_lt h, length_cons, Lz77.length_msbBits, pow_succ]
      omega
    · have hpos : 0 < 2 ^ shift := by positivity
      obtain ⟨m, rfl⟩ := Nat.exists_eq_add_of_le h
      have := ih m (by omega) (shift + 1)
      rw [Lz77.countBits_add, length_cons, pow_succ]
      rw [pow_succ] at this
      omega

/-- A prefix code: each value below `top` whose code is not too long has one string of bits,
which says where it ends; and what is cut off is not decoded. -/
structure PrefixCode (wild : Nat → Nat) (shift : UInt8) (count : UInt64) (maxBits : UInt8)
    (top : Nat) : Prop where
  value : ∀ v : Nat, count.toNat ≤ v → v < top →
    (countBits shift.toNat (v - count.toNat)).length ≤ maxBits.toNat →
      ∃! bits, Codes wild shift count maxBits bits v
  used : ∀ (inp : Input) (pos : Nat), (decodeCount wild inp pos shift count maxBits).bitsUsed ≠ 0 →
    ∃ bits, At inp pos bits ∧ bits.length ≤ left inp pos maxBits ∧
      bits.length = (decodeCount wild inp pos shift count maxBits).bitsUsed ∧
      Codes wild shift count maxBits bits (decodeCount wild inp pos shift count maxBits).ret
  inj : ∀ bits bits' value, Codes wild shift count maxBits bits value →
    Codes wild shift count maxBits bits' value → bits = bits'
  noPrefix : ∀ bits bits' value value', Codes wild shift count maxBits bits value →
    Codes wild shift count maxBits bits' value' → bits <+: bits' → bits = bits'
  cut : ∀ (inp : Input) (pos n : Nat), left inp pos maxBits < (countBits shift.toNat n).length →
    At inp pos ((countBits shift.toNat n).take (left inp pos maxBits)) →
      decodeCount wild inp pos shift count maxBits = { ret := efbig, bitsUsed := 0 }

theorem decodeCount_prefixCode (hmax : maxBits.toNat ≤ 32)
    (hwrap : shift.toNat + maxBits.toNat ≤ 2 ^ 8) :
    PrefixCode wild shift count maxBits (2 ^ 31) := by
  have hinj : ∀ bits bits' value, Codes wild shift count maxBits bits value →
      Codes wild shift count maxBits bits' value → bits = bits' := by
    intro bits bits' value h h'
    obtain ⟨n, rfl, hlen, heq⟩ := (codes_iff hmax hwrap).mp h
    obtain ⟨n', rfl, hlen', heq'⟩ := (codes_iff hmax hwrap).mp h'
    have hn := add_le_countBits shift.toNat n
    have hn' := add_le_countBits shift.toNat n'
    have hpow := Nat.pow_le_pow_right (show 0 < 2 by decide) (hlen.trans hmax)
    have hpow' := Nat.pow_le_pow_right (show 0 < 2 by decide) (hlen'.trans hmax)
    have hpos : 0 < 2 ^ shift.toNat := by positivity
    unfold int32 at heq heq'
    have : n = n' := by omega
    rw [this]
  refine ⟨fun v hle htop hlen => ?_, fun inp pos hused => ?_, hinj,
    fun bits bits' value value' h h' hpre => ?_, fun inp pos n hlen hat => ?_⟩
  · have hcode : Codes wild shift count maxBits (countBits shift.toNat (v - count.toNat)) v := by
      refine (codes_iff hmax hwrap).mpr ⟨_, rfl, hlen, ?_⟩
      unfold int32
      omega
    exact ⟨_, hcode, fun bits h => hinj _ _ _ h hcode⟩
  · rcases @decodeCount_cases wild inp shift count maxBits hmax hwrap pos with
      ⟨n, hres, hat, hlen⟩ | ⟨hres, -⟩
    · rw [hres]
      refine ⟨_, hat, hlen, rfl, (codes_iff hmax hwrap).mpr ⟨n, rfl, ?_, rfl⟩⟩
      unfold left at hlen
      omega
    · rw [hres] at hused
      exact absurd rfl hused
  · obtain ⟨n, rfl, -, -⟩ := (codes_iff hmax hwrap).mp h
    obtain ⟨n', rfl, -, -⟩ := (codes_iff hmax hwrap).mp h'
    rw [countBits_eq_of_start hpre]
  · rcases @decodeCount_cases wild inp shift count maxBits hmax hwrap pos with
      ⟨n', -, hat', hlen'⟩ | ⟨hres, -⟩
    · have hpre := isStart_of_at hat' hat (by rw [length_take]; omega)
      obtain rfl := countBits_eq_of_start (hpre.trans (List.take_prefix _ _))
      omega
    · exact hres

/-- The decoder's own counts: a least value of 12 and a first bit of 16. -/
theorem decodeCount_prefixCode_twelve :
    ∃! bits, Codes (fun _ => 0) 4 12 27 bits ((100 : Nat) : Int) :=
  (@decodeCount_prefixCode (fun _ => 0) 4 12 27 (by decide) (by decide)).value 100 (by decide) (by decide)
    (by decide)

theorem decodeFrom_clear {left pos shift n : Nat} {up : Bool} (hbit : inp.getBit pos = false)
    (hshift : shift ≠ 0) : decodeFrom wild inp (left + 1) pos shift n up =
      decodeFrom wild inp left (pos + 1) (shift - 1) n false := by
  simp only [decodeFrom, hbit, Bool.and_false, Bool.false_eq_true, if_false, if_neg hshift]

theorem decodeFrom_down_succ {left pos shift n : Nat} (hshift : shift ≠ 0) :
    decodeFrom wild inp (left + 1) pos shift n false = decodeFrom wild inp left (pos + 1)
      (shift - 1) (if inp.getBit pos then (n + shl wild shift) % 2 ^ 64 else n) false := by
  simp only [decodeFrom, Bool.false_and, Bool.false_eq_true, if_false, if_neg hshift]

theorem decodeFrom_zeros {shift left pos n : Nat} (hleft : shift < left)
    (hat : At inp pos (replicate (shift + 1) false)) :
    decodeFrom wild inp left pos shift n false = some (n, pos + shift + 1) := by
  induction left generalizing shift pos with
  | zero => omega
  | succ left ih =>
    rw [replicate_succ, Lz77.at_cons] at hat
    simp only [decodeFrom, hat.1, Bool.false_and, Bool.false_eq_true, if_false]
    cases shift with
    | zero => rfl
    | succ shift =>
      rw [if_neg (Nat.succ_ne_zero _), Nat.add_sub_cancel, ih (by omega) hat.2,
        Nat.add_right_comm pos 1 shift, Nat.add_assoc pos shift 1]

theorem msbBits_zero (n : Nat) : Lz77.msbBits n 0 = replicate n false := by
  induction n with
  | zero => rfl
  | succ n ih => rw [Lz77.msbBits, ih, Nat.zero_testBit, replicate_succ]

/-- With 34 bits, where a shift by 32 gives nothing, two codes stand for zero. -/
theorem codes_run_over (b : Bool) : Codes (fun _ => 0) 33 0 34
    (false :: b :: replicate 32 false) 0 := by
  refine ⟨by simp, fun inp pos hat hend => ?_⟩
  simp only [length_cons, length_replicate] at hend
  have hmax : (34 : UInt8).toNat = 34 := rfl
  have hleft : min (pos + (34 : UInt8).toNat) inp.bitLen - pos = 34 := by
    rw [hmax]
    omega
  obtain ⟨hfirst, hsecond, hrest⟩ : inp.getBit pos = false ∧ inp.getBit (pos + 1) = b ∧
      At inp (pos + 1 + 1) (replicate 32 false) := by simpa using hat
  have hzeros := @decodeFrom_zeros (fun _ => 0) inp 31 32 (pos + 1 + 1) 0 (by decide) hrest
  have hcount : (if b then (0 + shl (fun _ => 0) 32) % 2 ^ 64 else 0) = 0 := by
    cases b <;> rfl
  have hdec : decodeFrom (fun _ => 0) inp 34 pos 33 0 true = some (0, pos + 34) := by
    rw [@decodeFrom_clear _ inp 33 pos 33 0 true hfirst (by decide),
      @decodeFrom_down_succ _ inp 32 (pos + 1) 32 0 (by decide), hsecond, hcount]
    exact hzeros
  have hshift : (33 : UInt8).toNat = 33 := rfl
  have hzero : (0 : UInt64).toNat = 0 := rfl
  unfold decodeCount
  simp only [hleft, hshift, hzero, hdec]
  simp [int32]

/-- An initial count that is no `int` does not come back, a shift of 256 is one of 0, and with
more bits, numbers run over. -/
theorem decodeCount_not_prefixCode :
    ¬ PrefixCode (fun _ => 0) 0 0x80000000 27 (2 ^ 31 + 1) ∧
      ¬ PrefixCode (fun _ => 0) 255 0 27 (2 ^ 31) ∧
        ¬ PrefixCode (fun _ => 0) 33 0 34 (2 ^ 31) := by
  refine ⟨fun h => ?_, fun h => ?_, fun h => ?_⟩
  · obtain ⟨bits, hcode, -⟩ := h.value (2 ^ 31) (by decide) (by decide) (by decide)
    obtain ⟨n, rfl, hlen, heq⟩ := (codes_iff (by decide) (by decide)).mp hcode
    have hn := add_le_countBits (0 : UInt8).toNat n
    have hpow := Nat.pow_le_pow_right (show 0 < 2 by decide) hlen
    have hmax : (27 : UInt8).toNat = 27 := rfl
    have hcount : (0x80000000 : UInt64).toNat = 2 ^ 31 := by decide
    rw [hmax] at hpow
    rw [hcount] at heq
    unfold int32 at heq
    omega
  · have hbits : countBits 255 (2 ^ 255) = true :: false :: Lz77.msbBits 256 0 := by
      have := Lz77.countBits_add 255 0
      rw [Nat.add_zero] at this
      rw [this, Lz77.countBits_of_lt (by positivity)]
    have hcut := h.cut ⟨fun _ => 1, 1⟩ 0 (2 ^ 255)
    have hshift : (255 : UInt8).toNat = 255 := rfl
    rw [hshift, hbits] at hcut
    have hat : At ⟨fun _ => 1, 1⟩ 0 (true :: replicate 7 false) := rfl
    have hlong : left ⟨fun _ => 1, 1⟩ 0 27 < (true :: false :: replicate 256 false).length :=
      Nat.lt_of_lt_of_le (show left ⟨fun _ => 1, 1⟩ 0 27 < 9 by decide)
        (by rw [length_cons, length_cons, length_replicate]; decide)
    rw [msbBits_zero] at hcut
    exact absurd (hcut hlong hat) (by decide)
  · have := h.inj _ _ _ (codes_run_over false) (codes_run_over true)
    simp at this

end Code

end LibWrt.Routerboot.Count
