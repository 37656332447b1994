/-
LibWrt.Routerboot.Rle — the RLE decoder of the calibration data.

A run byte below 0x80 repeats the byte behind it so many times; any other one,
as a negative number, says how many bytes behind it are copied. The decoder
counts its output in an `int`, which is compared with the capacity, a `size_t`.
It keeps a log of what it touches, next to the result.

The inputs that it accepts are the rows of runs, with or without one more byte
behind them, whose expansion fits the room, and an `int` (`decode_exact`).
-/
import LibWrt.Routerboot.Lz77

namespace LibWrt.Routerboot.Rle

open List Nat UInt8
open Lz77 (Input)

/-! ## The decoder -/

inductive Access where
  | read (pos : Nat)
  | write (pos : Nat)
  deriving DecidableEq

inductive Errno where
  | einval
  | enospc
  deriving DecidableEq

/-- An `int`. -/
def int32 (n : Int) : Int := (n + 2 ^ 31) % 2 ^ 32 - 2 ^ 31

/-- An `int` as a `size_t`. -/
def sizeT (n : Int) : Int := n % 2 ^ 64

structure State where
  /-- `in`, from the start of the input on -/
  pos : Nat
  inlen : Nat
  nbytes : Int
  out : List UInt8
  deriving DecidableEq

inductive Turn where
  | go (s : State)
  | fail (nbytes : Int) (out : List UInt8)
  deriving DecidableEq

/-- `n` bytes of the input. -/
def bytes (inp : Input) (pos n : Nat) : List UInt8 := (range' pos n).map inp.mem

/-- A turn of the loop, with `outlen` bytes of room. -/
def turn (inp : Input) (outlen : Nat) (s : State) : List Access × Turn :=
  let run := (inp.mem s.pos).toNat
  let written (n : Nat) := (range' s.out.length n).map Access.write
  if run.testBit 7 then
    let run := 255 - run + 1
    if s.inlen - 1 < run then ([.read s.pos], .fail s.nbytes s.out)
    else
      let nbytes := int32 (s.nbytes + run)
      if (outlen : Int) < sizeT nbytes then ([.read s.pos], .fail nbytes s.out)
      else
        (.read s.pos :: (range' (s.pos + 1) run).map Access.read ++ written run,
          .go { pos := s.pos + 1 + run, inlen := s.inlen - 1 - run, nbytes := nbytes
                out := s.out ++ bytes inp (s.pos + 1) run })
  else
    let nbytes := int32 (s.nbytes + run)
    let log := [Access.read s.pos, Access.read (s.pos + 1)]
    if (outlen : Int) < sizeT nbytes then (log, .fail nbytes s.out)
    else
      (log ++ written run,
        .go { pos := s.pos + 2, inlen := s.inlen - 2, nbytes := nbytes
              out := s.out ++ replicate run (inp.mem (s.pos + 1)) })

structure Result where
  ret : Option Errno
  outlen : Int
  out : List UInt8
  deriving DecidableEq

def loop (inp : Input) (outlen : Nat) : Nat → State → List Access × Option Result
  | 0, _ => ([], none)
  | turns + 1, s =>
    if s.inlen < 2 then ([], some { ret := none, outlen := sizeT s.nbytes, out := s.out })
    else
      let (log, next) := turn inp outlen s
      match next with
      | .fail nbytes out =>
        (log, some { ret := some .enospc, outlen := sizeT nbytes, out := out })
      | .go s' =>
        let (rest, result) := loop inp outlen turns s'
        (log ++ rest, result)

/-- `routerboot_rle_decode` -/
def decode (inp : Input) (outlen : Nat) : List Access × Option Result :=
  if inp.len < 2 then ([], some { ret := some .einval, outlen := outlen, out := [] })
  else loop inp outlen (inp.len + 1) { pos := 0, inlen := inp.len, nbytes := 0, out := [] }

/-! ## The format -/

inductive Run where
  | repeated (n : Nat) (byte : UInt8) (h : n < 128)
  | literal (data : List UInt8) (h : 0 < data.length ∧ data.length ≤ 128)

namespace Run

def encode : Run → List UInt8
  | repeated n byte _ => [ofNat n, byte]
  | literal data _ => ofNat (256 - data.length) :: data

def expand : Run → List UInt8
  | repeated n byte _ => replicate n byte
  | literal data _ => data

end Run

def encode (runs : List Run) : List UInt8 := runs.flatMap Run.encode

def expand (runs : List Run) : List UInt8 := runs.flatMap Run.expand

@[simp] theorem encode_nil : encode [] = [] := rfl

@[simp] theorem encode_cons (r : Run) (runs : List Run) :
    encode (r :: runs) = r.encode ++ encode runs := rfl

@[simp] theorem expand_nil : expand [] = [] := rfl

@[simp] theorem expand_cons (r : Run) (runs : List Run) :
    expand (r :: runs) = r.expand ++ expand runs := rfl

/-- A run takes two bytes at least. -/
theorem Run.two_le_length (r : Run) : 2 ≤ r.encode.length := by
  cases r with
  | repeated n byte h => simp [encode]
  | literal data h => simp [encode]; omega

theorem toNat_ofNat {n : Nat} (h : n < 256) : (ofNat n).toNat = n := by
  simpa using mod_eq_of_lt h

theorem testBit_seven {n : Nat} (h : n < 256) : n.testBit 7 = true ↔ 128 ≤ n := by
  rw [testBit_eq_decide_div_mod_eq, decide_eq_true_iff]
  omega

/-- The first byte of a run tells what the run is. -/
theorem Run.encode_append_inj {r r' : Run} {tail tail' : List UInt8}
    (h : r.encode ++ tail = r'.encode ++ tail') : r = r' ∧ tail = tail' := by
  have hhead : (r.encode ++ tail).head? = (r'.encode ++ tail').head? := by rw [h]
  cases r with
  | repeated n byte hn =>
    cases r' with
    | repeated n' byte' hn' =>
      have hnn : ofNat n = ofNat n' := by simpa [encode] using hhead
      have hn'' : n = n' := by
        have := congrArg UInt8.toNat hnn
        rwa [toNat_ofNat (by omega), toNat_ofNat (by omega)] at this
      subst hn''
      simp only [encode, cons_append, nil_append, List.cons.injEq] at h
      obtain ⟨-, rfl, rfl⟩ := h
      exact ⟨rfl, rfl⟩
    | literal data' hd =>
      have hnn : ofNat n = ofNat (256 - data'.length) := by
        simpa [encode] using hhead
      have := congrArg UInt8.toNat hnn
      rw [toNat_ofNat (by omega), toNat_ofNat (by omega)] at this
      omega
  | literal data hd =>
    cases r' with
    | repeated n' byte' hn' =>
      have hnn : ofNat (256 - data.length) = ofNat n' := by
        simpa [encode] using hhead
      have := congrArg UInt8.toNat hnn
      rw [toNat_ofNat (by omega), toNat_ofNat (by omega)] at this
      omega
    | literal data' hd' =>
      have hnn : ofNat (256 - data.length) = ofNat (256 - data'.length) := by
        simpa [encode] using hhead
      have hlen : data.length = data'.length := by
        have := congrArg UInt8.toNat hnn
        rw [toNat_ofNat (by omega), toNat_ofNat (by omega)] at this
        omega
      have htail : data ++ tail = data' ++ tail' := by simpa [encode, hnn] using h
      obtain ⟨rfl, rfl⟩ := append_inj htail hlen
      exact ⟨rfl, rfl⟩

/-! ## A turn -/

section Steps

variable {inp : Input} {outlen : Nat}

@[simp] theorem length_bytes (pos n : Nat) : (bytes inp pos n).length = n := by simp [bytes]

theorem bytes_add (pos m n : Nat) :
    bytes inp pos (m + n) = bytes inp pos m ++ bytes inp (pos + m) n := by
  rw [bytes, bytes, bytes, ← map_append, range'_append_1]

theorem bytes_succ (pos n : Nat) :
    bytes inp pos (n + 1) = inp.mem pos :: bytes inp (pos + 1) n := by
  rw [bytes, range'_succ, map_cons, bytes]

def State.rest (inp : Input) (s : State) : List UInt8 := bytes inp s.pos s.inlen

/-- What the decoder can use of its room: no more than an `int` counts. -/
def room (outlen : Nat) : Nat := min outlen (2 ^ 31 - 1)

/-- A state with room, and the count of its output; the input ends at `len`. -/
structure Good (outlen len : Nat) (s : State) : Prop where
  count : s.nbytes = s.out.length
  fits : s.out.length ≤ room outlen
  ends : s.pos + s.inlen = len

/-- A count that has overflowed is negative, hence larger than any capacity. -/
theorem lt_sizeT_iff {n : Nat} (hout : outlen < 2 ^ 63) (hn : n ≤ room outlen + 128) :
    (outlen : Int) < sizeT (int32 n) ↔ room outlen < n := by
  unfold room at *
  unfold sizeT int32
  omega

theorem int32_of_le {n : Nat} (h : n ≤ room outlen) : int32 n = n := by
  unfold room at h
  unfold int32
  omega

theorem sizeT_of_le {n : Nat} (h : n ≤ room outlen) : sizeT n = n := by
  unfold room at h
  unfold sizeT
  omega

/-- What a turn does: it takes a run off the input, or no run at its start has room. -/
theorem turn_cases {len : Nat} {s : State} (hout : outlen < 2 ^ 63) (hs : Good outlen len s)
    (hin : 2 ≤ s.inlen) :
    (∃ (r : Run) (s' : State), (turn inp outlen s).2 = .go s' ∧ s.rest inp = r.encode ++ s'.rest inp ∧
        s'.out = s.out ++ r.expand ∧ Good outlen len s') ∨
      (∃ nbytes out, (turn inp outlen s).2 = .fail nbytes out) ∧
        ∀ (r : Run) (tail : List UInt8), s.rest inp = r.encode ++ tail →
          room outlen < (s.out ++ r.expand).length := by
  obtain ⟨hcount, hroom, hends⟩ := hs
  have hlt := (inp.mem s.pos).toNat_lt
  have hrest : s.rest inp = inp.mem s.pos :: bytes inp (s.pos + 1) (s.inlen - 1) := by
    have hsucc : s.inlen = s.inlen - 1 + 1 := by omega
    rw [State.rest, hsucc, bytes_succ, Nat.add_sub_cancel]
  simp only [turn]
  by_cases hbit : (inp.mem s.pos).toNat.testBit 7 = true
  · rw [if_pos hbit]
    have hge := (testBit_seven hlt).mp hbit
    -- a run at the start is a literal one of this length
    have hlit : ∀ (r : Run) (tail : List UInt8), s.rest inp = r.encode ++ tail →
        ∃ data h, r = .literal data h ∧ data.length = 255 - (inp.mem s.pos).toNat + 1 ∧
          bytes inp (s.pos + 1) (s.inlen - 1) = data ++ tail := by
      intro r tail heq
      rw [hrest] at heq
      cases r with
      | repeated n byte hn =>
        have hmem : inp.mem s.pos = ofNat n := by
          simpa [Run.encode] using congrArg head? heq
        rw [hmem, toNat_ofNat (by omega)] at hge
        omega
      | literal data hd =>
        have hmem : inp.mem s.pos = ofNat (256 - data.length) := by
          simpa [Run.encode] using congrArg head? heq
        refine ⟨data, hd, rfl, ?_, ?_⟩
        · rw [hmem, toNat_ofNat (by omega)]
          omega
        · simpa [Run.encode, hmem] using heq
    by_cases hshort : s.inlen - 1 < 255 - (inp.mem s.pos).toNat + 1
    · rw [if_pos hshort]
      refine .inr ⟨⟨_, _, rfl⟩, fun r tail heq => ?_⟩
      obtain ⟨data, h, rfl, hlen, hdata⟩ := hlit r tail heq
      have := congrArg length hdata
      simp only [length_bytes, length_append] at this
      omega
    · rw [if_neg hshort]
      have hcast : s.nbytes + ((255 - (inp.mem s.pos).toNat + 1 : Nat) : Int) =
          ((s.out.length + (255 - (inp.mem s.pos).toNat + 1) : Nat) : Int) := by
        rw [hcount]
        push_cast
        ring
      rw [hcast, if_congr (lt_sizeT_iff hout (by omega)) rfl rfl]
      by_cases hfull : room outlen < s.out.length + (255 - (inp.mem s.pos).toNat + 1)
      · rw [if_pos hfull]
        refine .inr ⟨⟨_, _, rfl⟩, fun r tail heq => ?_⟩
        obtain ⟨data, h, rfl, hlen, -⟩ := hlit r tail heq
        rw [length_append, Run.expand, hlen]
        exact hfull
      · rw [if_neg hfull]
        have hdata : (bytes inp (s.pos + 1) (255 - (inp.mem s.pos).toNat + 1)).length =
            255 - (inp.mem s.pos).toNat + 1 := length_bytes _ _
        refine .inl ⟨.literal (bytes inp (s.pos + 1) (255 - (inp.mem s.pos).toNat + 1))
          (by rw [hdata]; omega), _, rfl, ?_, rfl, ?_, ?_, ?_⟩
        · have hsplit : s.inlen - 1 = 255 - (inp.mem s.pos).toNat + 1 +
              (s.inlen - 1 - (255 - (inp.mem s.pos).toNat + 1)) := by omega
          have hbyte : ofNat (256 - (255 - (inp.mem s.pos).toNat + 1)) = inp.mem s.pos := by
            have : 256 - (255 - (inp.mem s.pos).toNat + 1) = (inp.mem s.pos).toNat := by omega
            rw [this, UInt8.ofNat_toNat]
          rw [hrest, hsplit, bytes_add, Run.encode, hdata, hbyte, State.rest]
          simp
        · rw [int32_of_le (Nat.le_of_not_lt hfull)]
          simp
        · simpa using Nat.le_of_not_lt hfull
        · simp only
          omega
  · rw [if_neg hbit]
    have hsmall : (inp.mem s.pos).toNat < 128 := by
      by_contra hge
      exact hbit ((testBit_seven hlt).mpr (by omega))
    have hrest' : s.rest inp =
        inp.mem s.pos :: inp.mem (s.pos + 1) :: bytes inp (s.pos + 2) (s.inlen - 2) := by
      have hsucc : s.inlen - 1 = s.inlen - 2 + 1 := by omega
      rw [hrest, hsucc, bytes_succ]
    have hcast : s.nbytes + (((inp.mem s.pos).toNat : Nat) : Int) =
        ((s.out.length + (inp.mem s.pos).toNat : Nat) : Int) := by
      rw [hcount]
      push_cast
      ring
    rw [hcast, if_congr (lt_sizeT_iff hout (by omega)) rfl rfl]
    by_cases hfull : room outlen < s.out.length + (inp.mem s.pos).toNat
    · rw [if_pos hfull]
      refine .inr ⟨⟨_, _, rfl⟩, fun r tail heq => ?_⟩
      rw [hrest'] at heq
      cases r with
      | repeated n byte hn =>
        have hmem : inp.mem s.pos = ofNat n := by
          simpa [Run.encode] using congrArg head? heq
        rw [hmem, toNat_ofNat (by omega)] at hfull
        simpa [Run.expand] using hfull
      | literal data hd =>
        have hmem : inp.mem s.pos = ofNat (256 - data.length) := by
          simpa [Run.encode] using congrArg head? heq
        rw [hmem, toNat_ofNat (by omega)] at hsmall
        omega
    · rw [if_neg hfull]
      refine .inl ⟨.repeated (inp.mem s.pos).toNat (inp.mem (s.pos + 1)) hsmall, _, rfl, ?_, rfl,
        ?_, ?_, ?_⟩
      · rw [hrest', Run.encode, UInt8.ofNat_toNat, State.rest]
        rfl
      · rw [int32_of_le (Nat.le_of_not_lt hfull)]
        simp
      · simpa using Nat.le_of_not_lt hfull
      · simp only
        omega

/-- What a turn touches lies in the input and in the room. -/
theorem turn_inBounds {len : Nat} {s : State} (hout : outlen < 2 ^ 63) (hs : Good outlen len s)
    (hin : 2 ≤ s.inlen) {a : Access} (ha : a ∈ (turn inp outlen s).1) :
    (∃ p, a = .read p ∧ p < len) ∨ ∃ p, a = .write p ∧ p < outlen := by
  obtain ⟨hcount, hroom, hends⟩ := hs
  have hlt := (inp.mem s.pos).toNat_lt
  have hfirst : ∃ p, Access.read s.pos = .read p ∧ p < len := ⟨s.pos, rfl, by omega⟩
  have hwrite {n : Nat} (hn : s.out.length + n ≤ room outlen)
      (ha : a ∈ (range' s.out.length n).map Access.write) :
      ∃ p, a = .write p ∧ p < outlen := by
    obtain ⟨p, hp, rfl⟩ := mem_map.mp ha
    have := mem_range'_1.mp hp
    have : room outlen ≤ outlen := Nat.min_le_left _ _
    exact ⟨p, rfl, by omega⟩
  simp only [turn] at ha
  by_cases hbit : (inp.mem s.pos).toNat.testBit 7 = true
  · rw [if_pos hbit] at ha
    by_cases hshort : s.inlen - 1 < 255 - (inp.mem s.pos).toNat + 1
    · rw [if_pos hshort] at ha
      obtain rfl := mem_singleton.mp ha
      exact .inl hfirst
    · rw [if_neg hshort] at ha
      have hcast : s.nbytes + ((255 - (inp.mem s.pos).toNat + 1 : Nat) : Int) =
          ((s.out.length + (255 - (inp.mem s.pos).toNat + 1) : Nat) : Int) := by
        rw [hcount]
        push_cast
        ring
      have hge := (testBit_seven hlt).mp hbit
      rw [hcast, if_congr (lt_sizeT_iff hout (by omega)) rfl rfl] at ha
      by_cases hfull : room outlen < s.out.length + (255 - (inp.mem s.pos).toNat + 1)
      · rw [if_pos hfull] at ha
        obtain rfl := mem_singleton.mp ha
        exact .inl hfirst
      · rw [if_neg hfull] at ha
        rcases mem_append.mp ha with ha | ha
        · rcases mem_cons.mp ha with rfl | ha
          · exact .inl hfirst
          · obtain ⟨p, hp, rfl⟩ := mem_map.mp ha
            have := mem_range'_1.mp hp
            exact .inl ⟨p, rfl, by omega⟩
        · exact .inr (hwrite (by omega) ha)
  · rw [if_neg hbit] at ha
    have hcast : s.nbytes + (((inp.mem s.pos).toNat : Nat) : Int) =
        ((s.out.length + (inp.mem s.pos).toNat : Nat) : Int) := by
      rw [hcount]
      push_cast
      ring
    have hsmall : (inp.mem s.pos).toNat < 128 := by
      by_contra hge
      exact hbit ((testBit_seven hlt).mpr (by omega))
    have hboth (ha : a ∈ [Access.read s.pos, Access.read (s.pos + 1)]) :
        ∃ p, a = .read p ∧ p < len := by
      rcases mem_cons.mp ha with rfl | ha
      · exact hfirst
      · obtain rfl := mem_singleton.mp ha
        exact ⟨s.pos + 1, rfl, by omega⟩
    rw [hcast, if_congr (lt_sizeT_iff hout (by omega)) rfl rfl] at ha
    by_cases hfull : room outlen < s.out.length + (inp.mem s.pos).toNat
    · rw [if_pos hfull] at ha
      exact .inl (hboth ha)
    · rw [if_neg hfull] at ha
      rcases mem_append.mp ha with ha | ha
      · exact .inl (hboth ha)
      · exact .inr (hwrite (by omega) ha)

/-! ## The whole input -/

def Access.InBounds (inp : Input) (outlen : Nat) : Access → Prop
  | .read pos => pos < inp.len
  | .write pos => pos < outlen

theorem State.length_rest (inp : Input) (s : State) : (s.rest inp).length = s.inlen := length_bytes _ _

/-- What the loop gives from a state on. -/
structure Decoded (inp : Input) (outlen : Nat) (s : State) (result : Result) : Prop where
  ok : result.ret = none → ∃ (runs : List Run) (tail : List UInt8), tail.length ≤ 1 ∧
    s.rest inp = encode runs ++ tail ∧ result.out = s.out ++ expand runs ∧
      result.outlen = result.out.length ∧ result.out.length ≤ room outlen
  full : result.ret ≠ none → ∀ (runs : List Run) (tail : List UInt8), tail.length ≤ 1 →
    s.rest inp = encode runs ++ tail → room outlen < (s.out ++ expand runs).length

theorem loop_go {turns : Nat} {s s' : State} (h : ¬ s.inlen < 2)
    (hgo : (turn inp outlen s).2 = .go s') : loop inp outlen (turns + 1) s =
      ((turn inp outlen s).1 ++ (loop inp outlen turns s').1, (loop inp outlen turns s').2) := by
  rw [loop, if_neg h]
  rcases hturn : turn inp outlen s with ⟨log, next⟩
  rw [hturn] at hgo
  subst hgo
  rfl

theorem loop_fail {turns : Nat} {s : State} {nbytes : Int} {out : List UInt8}
    (h : ¬ s.inlen < 2) (hfail : (turn inp outlen s).2 = .fail nbytes out) :
    loop inp outlen (turns + 1) s = ((turn inp outlen s).1,
      some { ret := some .enospc, outlen := sizeT nbytes, out := out }) := by
  rw [loop, if_neg h]
  rcases hturn : turn inp outlen s with ⟨log, next⟩
  rw [hturn] at hfail
  subst hfail
  rfl

/-- The loop ends: each turn takes two bytes at least. -/
theorem loop_spec (hout : outlen < 2 ^ 63) (turns : Nat) (s : State)
    (hs : Good outlen inp.len s) (hturns : s.inlen < turns) :
    ∃ result, (loop inp outlen turns s).2 = some result ∧ Decoded inp outlen s result ∧
      ∀ a ∈ (loop inp outlen turns s).1, a.InBounds inp outlen := by
  induction turns generalizing s with
  | zero => omega
  | succ turns ih =>
    by_cases hshort : s.inlen < 2
    · rw [loop, if_pos hshort]
      refine ⟨_, rfl, ⟨fun _ => ⟨[], s.rest inp, ?_, by simp, by simp, ?_, hs.fits⟩, ?_⟩, ?_⟩
      · rw [s.length_rest inp]
        omega
      · rw [hs.count, sizeT_of_le hs.fits]
      · simp
      · simp
    · have hin : 2 ≤ s.inlen := by omega
      have hlog : ∀ a ∈ (turn inp outlen s).1, a.InBounds inp outlen := by
        intro a ha
        rcases turn_inBounds hout hs hin ha with ⟨p, rfl, hp⟩ | ⟨p, rfl, hp⟩
        · exact hp
        · exact hp
      rcases turn_cases hout hs hin with ⟨r, s', hgo, hrest, hexp, hgood⟩ | ⟨hfail, hnone⟩
      · have hlen : s'.inlen + 2 ≤ s.inlen := by
          have := congrArg length hrest
          rw [s.length_rest inp, length_append, s'.length_rest inp] at this
          have := r.two_le_length
          omega
        obtain ⟨result, hres, hdec, hbounds⟩ := ih s' hgood (by omega)
        rw [loop_go hshort hgo]
        refine ⟨result, hres, ⟨fun hret => ?_, fun hret runs tail htail heq => ?_⟩, fun a ha => ?_⟩
        · obtain ⟨runs, tail, htail, heq, hout', hlen', hfits⟩ := hdec.ok hret
          refine ⟨r :: runs, tail, htail, ?_, ?_, hlen', hfits⟩
          · rw [hrest, heq, encode_cons, append_assoc]
          · rw [hout', hexp, expand_cons, append_assoc]
        · cases runs with
          | nil =>
            have := congrArg length heq
            rw [s.length_rest inp, encode_nil, nil_append] at this
            omega
          | cons r' runs =>
            rw [hrest, encode_cons, append_assoc] at heq
            obtain ⟨rfl, heq'⟩ := Run.encode_append_inj heq
            have := hdec.full hret runs tail htail heq'
            rwa [hexp, append_assoc] at this
        · rcases mem_append.mp ha with ha | ha
          · exact hlog a ha
          · exact hbounds a ha
      · obtain ⟨nbytes, out, hgo⟩ := hfail
        rw [loop_fail hshort hgo]
        refine ⟨_, rfl, ⟨by simp, fun _ runs tail htail heq => ?_⟩, hlog⟩
        cases runs with
        | nil =>
          have := congrArg length heq
          rw [s.length_rest inp, encode_nil, nil_append] at this
          omega
        | cons r runs =>
          rw [encode_cons, append_assoc] at heq
          have := hnone r _ heq
          rw [expand_cons, ← append_assoc, length_append]
          omega

/-- A row of runs, with less than a run behind it, is read in one way. -/
theorem encode_append_inj {runs runs' : List Run} {tail tail' : List UInt8}
    (htail : tail.length ≤ 1) (htail' : tail'.length ≤ 1)
    (h : encode runs ++ tail = encode runs' ++ tail') : runs = runs' := by
  induction runs generalizing runs' with
  | nil =>
    cases runs' with
    | nil => rfl
    | cons r' runs' =>
      have := r'.two_le_length
      have hlen := congrArg length h
      simp only [encode_nil, encode_cons, length_append, length_nil] at hlen
      omega
  | cons r runs ih =>
    cases runs' with
    | nil =>
      have := r.two_le_length
      have hlen := congrArg length h
      simp only [encode_nil, encode_cons, length_append, length_nil] at hlen
      omega
    | cons r' runs' =>
      simp only [encode_cons, append_assoc] at h
      obtain ⟨rfl, hrest⟩ := Run.encode_append_inj h
      rw [ih hrest]

def start (inp : Input) : State := { pos := 0, inlen := inp.len, nbytes := 0, out := [] }

theorem decode_loop (hout : outlen < 2 ^ 63) (hlen : 2 ≤ inp.len) :
    ∃ result, (decode inp outlen).2 = some result ∧ Decoded inp outlen (start inp) result ∧
      ∀ a ∈ (decode inp outlen).1, a.InBounds inp outlen := by
  have hgood : Good outlen inp.len (start inp) := ⟨rfl, Nat.zero_le _, Nat.zero_add _⟩
  rw [decode, if_neg (Nat.not_lt.mpr hlen)]
  exact loop_spec hout (inp.len + 1) (start inp) hgood (lt_succ_self _)

/-- The input is these runs, with room for what they expand to; a byte may stand behind them. -/
structure Fits (inp : Input) (outlen : Nat) (runs : List Run) : Prop where
  input : ∃ tail, tail.length ≤ 1 ∧ bytes inp 0 inp.len = encode runs ++ tail
  notEmpty : runs ≠ []
  room : (expand runs).length ≤ room outlen

theorem Fits.two_le_len {runs : List Run} (h : Fits inp outlen runs) : 2 ≤ inp.len := by
  obtain ⟨⟨tail, -, heq⟩, hne, -⟩ := h
  obtain ⟨r, runs, rfl⟩ := exists_cons_of_ne_nil hne
  have := r.two_le_length
  have hlen := congrArg length heq
  simp only [length_bytes, encode_cons, length_append] at hlen
  omega

/-- On a buffer of any size: a row of runs that fits is expanded, and anything else is an
error. -/
theorem decode_exact (hout : outlen < 2 ^ 63) :
    ∃ result, (decode inp outlen).2 = some result ∧
      (∀ a ∈ (decode inp outlen).1, a.InBounds inp outlen) ∧
      (∀ runs, Fits inp outlen runs → result =
        { ret := none, outlen := (expand runs).length, out := expand runs }) ∧
      ((∀ runs, ¬ Fits inp outlen runs) → result.ret ≠ none) := by
  by_cases hshort : inp.len < 2
  · rw [decode, if_pos hshort]
    refine ⟨_, rfl, by simp, fun runs hfits => ?_, by simp⟩
    have := hfits.two_le_len
    omega
  · obtain ⟨result, hres, hdec, hbounds⟩ := decode_loop hout (Nat.le_of_not_lt hshort)
    refine ⟨result, hres, hbounds, fun runs hfits => ?_, fun hnone hret => ?_⟩
    · obtain ⟨⟨tail, htail, heq⟩, hne, hroom⟩ := hfits
      have hret : result.ret = none := by
        by_contra hret
        have := hdec.full hret runs tail htail heq
        simp only [start, nil_append] at this
        omega
      obtain ⟨runs', tail', htail', heq', hout', hlen, -⟩ := hdec.ok hret
      obtain rfl : runs = runs' := encode_append_inj htail htail' (heq.symm.trans heq')
      have hexp : result.out = expand runs := hout'
      rw [hexp] at hlen
      rcases result with ⟨ret, len, out⟩
      simp only at hret hexp hlen
      rw [hret, hexp, hlen]
    · obtain ⟨runs, tail, htail, heq, hout', -, hroom⟩ := hdec.ok hret
      have hexp : result.out = expand runs := hout'
      refine hnone runs ⟨⟨tail, htail, heq⟩, ?_, hexp ▸ hroom⟩
      rintro rfl
      have := congrArg length heq
      simp only [State.length_rest, start, encode_nil, nil_append] at this
      omega

/-- A byte three times, then two bytes as they are, and one byte more behind the runs. -/
def mixedInput : Input := ⟨fun i => [3, 3, 254, 1, 2, 0].getD i 0, 6⟩

theorem decode_exact_mixed :
    Fits mixedInput 16 [.repeated 3 3 (by decide), .literal [1, 2] (by decide)] ∧
      (decode mixedInput 16).2 = some { ret := none, outlen := 5, out := [3, 3, 3, 1, 2] } := by
  have hfits : Fits mixedInput 16 [.repeated 3 3 (by decide), .literal [1, 2] (by decide)] :=
    ⟨⟨[0], by simp, by decide⟩, by simp, by decide⟩
  obtain ⟨result, hres, -, hok, -⟩ := @decode_exact mixedInput 16 (by decide)
  refine ⟨hfits, ?_⟩
  rw [hres, hok _ hfits]
  rfl

/-- Every row of runs that fits, and nothing else, is decoded. -/
structure TakesRows (inp : Input) (outlen : Nat) : Prop where
  row : ∀ runs, bytes inp 0 inp.len = encode runs → (expand runs).length ≤ outlen →
    (decode inp outlen).2 =
      some { ret := none, outlen := (expand runs).length, out := expand runs }
  other : (∀ runs, bytes inp 0 inp.len = encode runs → outlen < (expand runs).length) →
    ∀ result, (decode inp outlen).2 = some result → result.ret ≠ none

theorem encode_replicate (n : Nat) (byte : UInt8) (h : byte.toNat < 128) :
    encode (replicate n (.repeated byte.toNat byte h)) = replicate (2 * n) byte := by
  induction n with
  | zero => rfl
  | succ n ih =>
    rw [replicate_succ, encode_cons, ih, Run.encode, UInt8.ofNat_toNat, mul_succ,
      Nat.add_comm, replicate_add]
    rfl

theorem length_expand_replicate (n m : Nat) (byte : UInt8) (h : m < 128) :
    (expand (replicate n (.repeated m byte h))).length = n * m := by
  induction n with
  | zero => simp
  | succ n ih =>
    rw [replicate_succ, expand_cons, length_append, ih, Run.expand,
      length_replicate, succ_mul, Nat.add_comm]

/-- The row of no runs is refused, a byte behind the last run is passed over, and an `int`
counts no more than two gigabytes. -/
theorem decode_beyond_rows : ¬ TakesRows ⟨fun _ => 0, 0⟩ 0 ∧ ¬ TakesRows ⟨fun _ => 0, 3⟩ 0 ∧
    ¬ TakesRows ⟨fun _ => 127, 2 * 2 ^ 25⟩ (2 ^ 32) := by
  refine ⟨fun h => ?_, fun h => ?_, fun h => ?_⟩
  · have := h.row [] rfl (Nat.zero_le _)
    exact absurd this (by decide)
  · refine h.other (fun runs hrow => ?_) { ret := none, outlen := 0, out := [] } (by decide) rfl
    have hone : encode [.repeated 0 0 (by decide)] ++ [0] = encode runs ++ [] := by
      rw [append_nil, ← hrow]
      rfl
    rw [← encode_append_inj (by simp) (by simp) hone] at hrow
    exact absurd hrow (by decide)
  · have hrow : bytes ⟨fun _ => 127, 2 * 2 ^ 25⟩ 0 (2 * 2 ^ 25) =
        encode (replicate (2 ^ 25) (.repeated (127 : UInt8).toNat 127 (by decide))) := by
      rw [encode_replicate, bytes, map_const', length_range']
    have hdec := h.row _ hrow (by rw [length_expand_replicate]; decide)
    obtain ⟨result, hres, hdecoded, -⟩ :=
      @decode_loop ⟨fun _ => 127, 2 * 2 ^ 25⟩ (2 ^ 32) (by decide) (by decide)
    obtain rfl := Option.some.inj (hres.symm.trans hdec)
    obtain ⟨-, -, -, -, -, -, hroom⟩ := hdecoded.ok rfl
    rw [length_expand_replicate] at hroom
    exact absurd hroom (by decide)

end Steps

end LibWrt.Routerboot.Rle
