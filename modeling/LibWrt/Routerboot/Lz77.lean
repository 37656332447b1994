/-
LibWrt.Routerboot.Lz77 — the LZ77 decoder of the calibration data.

The input is read bit by bit, and nothing but the count codes looks at where
it ends before a bit is read. So the decoder keeps a log of what it touches
(`Access`), next to the result. The output grows as a list: what lies behind
its end is written as well, and the decoder stops before it looks at it.
-/
import Mathlib.Tactic

namespace LibWrt.Routerboot.Lz77

structure Input where
  mem : Nat → UInt8
  len : Nat

/-- `rb_lz77_get_bit` -/
def Input.getBit (inp : Input) (pos : Nat) : Bool := (inp.mem (pos / 8)).toNat.testBit (pos % 8)

def ofBits (bits : List Bool) : Nat := bits.foldl (fun n b => 2 * n + b.toNat) 0

def Input.bits (inp : Input) (pos n : Nat) : List Bool := (List.range' pos n).map inp.getBit

/-- `rb_lz77_get_byte` -/
def Input.getByte (inp : Input) (pos : Nat) : UInt8 := UInt8.ofNat (ofBits (inp.bits pos 8))

/-- `in_len * BITS_PER_BYTE` -/
def Input.bitLen (inp : Input) : Nat := 8 * inp.len

inductive Errno where
  | efbig
  | eoverflow
  | enodata
  | ebadmsg
  | enobufs
  | espipe
  deriving DecidableEq

/-- What the decoder touches: a bit of the input, a byte of the output, or `n` bytes that are
    copied to `cursor` from `offset` bytes before. -/
inductive Access where
  | bit (pos : Nat)
  | write (cursor : Nat)
  | copy (cursor offset n : Nat)
  deriving DecidableEq

/-! ## Counts -/

/-- The loop of `rb_lz77_decode_count` with so many bits up to `max_pos`: the count and the
    number of bits it took. -/
def decodeCountFrom (inp : Input) : Nat → Nat → Nat → Nat → Bool → List Access × Option (Nat × Nat)
  | 0, _, _, _, _ => ([], none)
  | left + 1, pos, shift, count, up =>
    let bit := inp.getBit pos
    let count := if bit then count + 2 ^ shift else count
    if up && bit then
      let (log, result) := decodeCountFrom inp left (pos + 1) (shift + 1) count true
      (.bit pos :: log, result.map fun r => (r.1, r.2 + 1))
    else if shift = 0 then ([.bit pos], some (count, 1))
    else
      let (log, result) := decodeCountFrom inp left (pos + 1) (shift - 1) count false
      (.bit pos :: log, result.map fun r => (r.1, r.2 + 1))

/-- `MIKRO_LZ77_MAX_COUNT_BIT_LEN` -/
def maxCountBitLen : Nat := 27

/-- `rb_lz77_decode_count` -/
def decodeCount (inp : Input) (pos shift count : Nat) : List Access × Option (Nat × Nat) :=
  decodeCountFrom inp (min (pos + maxCountBitLen) inp.bitLen - pos) pos shift count true

/-! ## Instructions -/

/-- `enum rb_lz77_instruction` -/
inductive Instruction where
  | literalByte
  | previousOffset
  | long
  deriving DecidableEq

/-- `rb_lz77_decode_instruction`, with the bits it takes -/
def decodeInstruction (inp : Input) (pos : Nat) : List Access × Instruction × Nat :=
  if inp.getBit pos then
    ([.bit pos, .bit (pos + 1)],
      if inp.getBit (pos + 1) then .long else .previousOffset, 2)
  else ([.bit pos], .literalByte, 1)

/-- `struct rb_lz77_instr_opcodes` -/
structure Opcodes where
  instruction : Instruction
  offset : Nat
  length : Nat
  bitsUsed : Nat

/-- `rb_lz77_decode_instruction_operators`; it fails where a count does. -/
def decodeInstructionOperators (inp : Input) (pos previousOffset : Nat) :
    List Access × Option Opcodes :=
  let (log, instruction, used) := decodeInstruction inp pos
  match instruction with
  | .literalByte => (log, some ⟨instruction, 0, 1, used⟩)
  | .previousOffset =>
    let (log', length) := decodeCount inp (pos + used) 0 1
    (log ++ log', length.map fun r => ⟨instruction, previousOffset, r.1, used + r.2⟩)
  | .long =>
    match decodeCount inp (pos + used) 4 0 with
    | (log', none) => (log ++ log', none)
    | (log', some (offset, offsetBits)) =>
      let used := used + offsetBits
      let (log'', length) :=
        if offset = 0 then decodeCount inp (pos + used) 4 12 else decodeCount inp (pos + used) 0 2
      (log ++ log' ++ log'', length.map fun r => ⟨instruction, offset, r.1, used + r.2⟩)

/-! ## The loop -/

/-- The output with `n` bytes from `offset` before its end appended. -/
def copied (out : List UInt8) (offset n : Nat) : List UInt8 :=
  out ++ (out.drop (out.length - offset)).take n

def copyMatch (offset : Nat) : Nat → Nat → List UInt8 → List Access × List UInt8
  | 0, _, out => ([], out)
  | turns + 1, length, out =>
    if offset < length then
      let (log, out') := copyMatch offset turns (length - offset) (copied out offset offset)
      (.copy out.length offset offset :: log, out')
    else ([.copy out.length offset length], copied out offset length)

structure State where
  inputBit : Nat := 0
  out : List UInt8 := []
  matchOffset : Nat := 0

def literalLog (pos cursor : Nat) : Nat → List Access
  | 0 => []
  | n + 1 =>
    (List.range' pos 8).map .bit ++ .write cursor :: literalLog (pos + 8) (cursor + 1) n

def literals (inp : Input) (pos : Nat) : Nat → List UInt8
  | 0 => []
  | n + 1 => inp.getByte pos :: literals inp (pos + 8) n

inductive Turn where
  | stop (e : Errno)
  | done
  | go (s : State)

/-- The test for the end marker; it compares bits to bytes. -/
def isEndMarker (inp : Input) (inputBit length : Nat) : Prop :=
  length = 12 ∧ inp.len < inputBit + length * 8

instance (inp : Input) (inputBit length : Nat) : Decidable (isEndMarker inp inputBit length) := by
  unfold isEndMarker
  infer_instance

/-- A match at the end of the output, `opcode` being decoded. -/
def matchTurn (outLen offset length : Nat) (s : State) : List Access × Turn :=
  if offset = 0 then ([], .stop .ebadmsg)
  else if s.out.length + length > outLen then ([], .stop .enobufs)
  else if s.out.length < offset then ([], .stop .espipe)
  else
    let (log, out) := copyMatch offset length length s.out
    (log, .go { s with out := out })

def execute (inp : Input) (outLen : Nat) (op : Opcodes) (s : State) : List Access × Turn :=
  let s := { s with inputBit := s.inputBit + op.bitsUsed }
  if op.instruction = .previousOffset then matchTurn outLen op.offset op.length s
  else if op.offset = 0 then
    if isEndMarker inp s.inputBit op.length then ([], .done)
    else
      (literalLog s.inputBit s.out.length op.length,
        .go { s with
          inputBit := s.inputBit + 8 * op.length
          out := s.out ++ literals inp s.inputBit op.length })
  else matchTurn outLen op.offset op.length { s with matchOffset := op.offset }

def turn (inp : Input) (outLen : Nat) (s : State) : List Access × Turn :=
  if s.out.length > outLen then ([], .stop .eoverflow)
  else if s.inputBit > inp.bitLen then ([], .stop .enodata)
  else
    match decodeInstructionOperators inp s.inputBit s.matchOffset with
    | (log, none) => (log, .stop .efbig)
    | (log, some op) =>
      let (log', turn) := execute inp outLen op s
      (log ++ log', turn)

def loop (inp : Input) (outLen : Nat) : Nat → State →
    List Access × Option (Except Errno (List UInt8))
  | 0, _ => ([], none)
  | turns + 1, s =>
    match turn inp outLen s with
    | (log, .stop e) => (log, some (.error e))
    | (log, .done) => (log, some (.ok s.out))
    | (log, .go s) =>
      let (log', result) := loop inp outLen turns s
      (log ++ log', result)

/-- `rb_lz77_decompress` with room for `outLen` bytes -/
def decompress (inp : Input) (outLen : Nat) : List Access × Option (Except Errno (List UInt8)) :=
  loop inp outLen (inp.bitLen + 2) {}

end LibWrt.Routerboot.Lz77
