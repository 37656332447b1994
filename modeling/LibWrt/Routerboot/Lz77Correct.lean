/-
LibWrt.Routerboot.Lz77Correct — bounds and correctness of the decoder.

A turn of the loop takes one token (`turn_of_token`), and a turn that goes on
took one (`token_of_turn`). So a result is always the expansion of tokens that
the input starts with. Not so the bounds: the decoder looks at an instruction,
and takes and puts a group of literals, before it looks at where the input and
the output end (`decompress_iff`); and it takes a group of twelve literals for
the end marker where fewer bytes than the group has bits are left
(`decompress_encode_iff`).
-/
import LibWrt.Routerboot.Lz77Format

namespace LibWrt.Routerboot.Lz77

open List Option Header Token Nat Relation UInt8

variable {inp : Input} {outLen : Nat}

/-! ## Bytes of a group -/

theorem getByte_eq_iff (pos : Nat) (b : UInt8) :
    inp.getByte pos = b ↔ At inp pos (msbBits 8 b.toNat) := by
  have hlt : ofBits (inp.bits pos 8) < 256 := by
    have := ofBits_lt (inp.bits pos 8)
    rwa [length_bits] at this
  have hbits : ofBits (msbBits 8 b.toNat) = b.toNat := by
    rw [ofBits_msbBits]
    exact mod_eq_of_lt b.toNat_lt
  rw [At, length_msbBits]
  constructor
  · rintro rfl
    apply ofBits_inj (by simp)
    rw [hbits, Input.getByte, toNat_ofNat', mod_eq_of_lt hlt]
  · intro h
    rw [Input.getByte, h, hbits, UInt8.ofNat_toNat]

@[simp] theorem length_literals (pos n : Nat) : (literals inp pos n).length = n := by
  induction n generalizing pos with
  | zero => rfl
  | succ n ih => simp [literals, ih]

theorem literals_eq_iff (pos : Nat) (bytes : List UInt8) :
    literals inp pos bytes.length = bytes ↔
      At inp pos (bytes.flatMap fun b => msbBits 8 b.toNat) := by
  induction bytes generalizing pos with
  | nil => simp [literals]
  | cons b bytes ih =>
    rw [length_cons, literals, List.cons.injEq, flatMap_cons, at_append,
      getByte_eq_iff, ih, length_msbBits]

theorem length_data_bits (bytes : List UInt8) :
    (bytes.flatMap fun b => msbBits 8 b.toNat).length = 8 * bytes.length := by
  induction bytes with
  | nil => rfl
  | cons b bytes ih =>
    simp only [flatMap_cons, length_append, length_msbBits, ih, length_cons]
    omega

theorem length_token_bits (t : Token) :
    t.bits.length = t.header.bits.length + 8 * t.data.length := by
  rw [Token.bits, length_append, length_data_bits]

/-! ## A turn -/

/-- The headers of the tokens, and the end marker's. -/
theorem turn_of_header {s : State} {h : Header} (hout : s.out.length ≤ outLen)
    (hin : s.inputBit ≤ inp.bitLen) (henc : h.Encodable) (hat : At inp s.inputBit h.bits)
    (hlen : h ≠ .literal → s.inputBit + h.bits.length ≤ inp.bitLen) :
    (turn inp outLen s).2 = (execute inp outLen (h.opcodes s.matchOffset) s).2 := by
  have hop := (decodeInstructionOperators_iff s.inputBit s.matchOffset
    (h.opcodes s.matchOffset)).mpr ⟨h, henc, rfl, hat, hlen⟩
  rw [turn, if_neg (by omega), if_neg (by omega)]
  rcases hd : decodeInstructionOperators inp s.inputBit s.matchOffset with ⟨log, _ | op⟩
  · rw [hd] at hop
    simp at hop
  · rw [hd] at hop
    obtain rfl := some.inj hop
    rfl

/-- The header of a turn that does not fail. -/
theorem header_of_turn {s : State} {r : Turn} (h : (turn inp outLen s).2 = r)
    (hr : ∀ e, r ≠ .stop e) : s.out.length ≤ outLen ∧ s.inputBit ≤ inp.bitLen ∧
      ∃ hd : Header, hd.Encodable ∧ At inp s.inputBit hd.bits ∧
        (hd ≠ .literal → s.inputBit + hd.bits.length ≤ inp.bitLen) ∧
        (execute inp outLen (hd.opcodes s.matchOffset) s).2 = r := by
  rw [turn] at h
  split at h
  · exact absurd h.symm (hr _)
  · rename_i hout
    split at h
    · exact absurd h.symm (hr _)
    · rename_i hin
      refine ⟨by omega, by omega, ?_⟩
      rcases hd : decodeInstructionOperators inp s.inputBit s.matchOffset with ⟨log, _ | op⟩
      · rw [hd] at h
        exact absurd h.symm (hr _)
      · obtain ⟨hdr, henc, rfl, hat, hlen⟩ :=
          (decodeInstructionOperators_iff s.inputBit s.matchOffset op).mp (by rw [hd])
        rw [hd] at h
        exact ⟨hdr, henc, hat, hlen, h⟩

/-- What the decoder does with a match. -/
theorem matchTurn_go (offset length : Nat) (s s' : State) :
    (matchTurn outLen offset length s).2 = .go s' ↔ offset ≠ 0 ∧ offset ≤ s.out.length ∧
      s.out.length + length ≤ outLen ∧ s' = { s with out := repeated offset length s.out } := by
  rw [matchTurn]
  by_cases hz : offset = 0
  · rw [if_pos hz]
    constructor
    · intro h
      cases h
    · exact fun h => absurd hz h.1
  rw [if_neg hz]
  by_cases hroom : s.out.length + length > outLen
  · rw [if_pos hroom]
    constructor
    · intro h
      cases h
    · intro h
      omega
  rw [if_neg hroom]
  by_cases hback : s.out.length < offset
  · rw [if_pos hback]
    constructor
    · intro h
      cases h
    · intro h
      omega
  rw [if_neg hback]
  have hcopy := copyMatch_out (Nat.pos_of_ne_zero hz) (Nat.le_of_not_lt hback) (Nat.le_refl length)
  dsimp only
  rw [hcopy, Turn.go.injEq]
  exact ⟨fun h => ⟨hz, by omega, by omega, h.symm⟩, fun h => h.2.2.2.symm⟩

theorem matchTurn_done (offset length : Nat) (s : State) :
    (matchTurn outLen offset length s).2 ≠ .done := by
  rw [matchTurn]
  split
  · simp
  · split
    · simp
    · split <;> simp

/-- A group of literals that is not taken for the end marker. -/
theorem execute_literal {op : Opcodes} {s : State} (hop : op.instruction ≠ .previousOffset)
    (hoffset : op.offset = 0) : execute inp outLen op s =
      if isEndMarker inp (s.inputBit + op.bitsUsed) op.length then ([], .done)
      else
        (literalLog (s.inputBit + op.bitsUsed) s.out.length op.length,
          .go { s with
            inputBit := s.inputBit + op.bitsUsed + 8 * op.length
            out := s.out ++ literals inp (s.inputBit + op.bitsUsed) op.length }) := by
  rw [execute, if_neg hop, if_pos hoffset]

/-- A token is taken, unless it is a group that looks like the end marker. -/
theorem turn_of_token {s : State} {t : Token} {out : List UInt8} {previous : Nat}
    (hout : s.out.length ≤ outLen) (henc : t.Encodable) (hat : At inp s.inputBit t.bits)
    (hlen : s.inputBit + t.bits.length ≤ inp.bitLen)
    (hexp : t.expand s.out s.matchOffset = some (out, previous)) (hroom : out.length ≤ outLen)
    (hmark : ∀ bytes, t = .group bytes →
      ¬ isEndMarker inp (s.inputBit + t.header.bits.length) bytes.length) :
    (turn inp outLen s).2 = .go ⟨s.inputBit + t.bits.length, out, previous⟩ := by
  rw [Token.bits, at_append] at hat
  obtain ⟨hheader, hdata⟩ := hat
  have hbits := length_token_bits t
  rw [turn_of_header hout (by omega) henc.1 hheader fun _ => by omega]
  rw [hbits, ← Nat.add_assoc]
  rw [← literals_eq_iff] at hdata
  cases t with
  | literal b =>
    obtain ⟨rfl, rfl⟩ := Prod.mk.inj (some.inj hexp)
    rw [execute_literal (by simp [header, opcodes]) rfl, if_neg]
    · simp only [header, opcodes, Token.data, length_singleton] at hdata ⊢
      rw [hdata]
    · rintro ⟨hlen, -⟩
      simp [header, opcodes] at hlen
  | group bytes =>
    obtain ⟨rfl, rfl⟩ := Prod.mk.inj (some.inj hexp)
    have hcount : (opcodes (.group (bytes.length - 12)) s.matchOffset).length =
        bytes.length := by
      have : 12 ≤ bytes.length := henc.2
      simp only [opcodes]
      omega
    have hused : (opcodes (.group (bytes.length - 12)) s.matchOffset).bitsUsed =
        (Header.group (bytes.length - 12)).bits.length := rfl
    simp only [header, Token.data] at hdata hmark ⊢
    rw [execute_literal (by simp [opcodes]) rfl, hcount, hused, if_neg (hmark bytes rfl),
      hdata]
  | matching offset length =>
    have hback : offset ≤ s.out.length := by
      by_contra hno
      rw [expand, if_neg hno] at hexp
      simp at hexp
    rw [expand, if_pos hback] at hexp
    obtain ⟨rfl, rfl⟩ := Prod.mk.inj (some.inj hexp)
    have hne : offset ≠ 0 := henc.1.1
    have hcount : 2 + (length - 2) = length := by
      have : 2 ≤ length := henc.2
      omega
    rw [length_repeated] at hroom
    simp only [header, opcodes, Token.data, execute, reduceCtorEq, if_false, hne,
      hcount]
    rw [matchTurn_go]
    exact ⟨hne, hback, hroom, rfl⟩
  | previous length =>
    have hback : s.matchOffset ≠ 0 ∧ s.matchOffset ≤ s.out.length := by
      by_contra hno
      rw [expand, if_neg hno] at hexp
      simp at hexp
    rw [expand, if_pos hback] at hexp
    obtain ⟨rfl, rfl⟩ := Prod.mk.inj (some.inj hexp)
    have hcount : 1 + (length - 1) = length := by
      have : 1 ≤ length := henc.2
      omega
    rw [length_repeated] at hroom
    simp only [header, opcodes, Token.data, execute, if_true, hcount]
    rw [matchTurn_go]
    exact ⟨hback.1, hback.2, hroom, rfl⟩

/-- A group of twelve with too few bytes behind it is taken for the end. -/
theorem turn_of_endMarker {s : State} (hout : s.out.length ≤ outLen)
    (hat : At inp s.inputBit endMarker) (hlen : s.inputBit + endMarker.length ≤ inp.bitLen)
    (hmark : isEndMarker inp (s.inputBit + endMarker.length) 12) :
    (turn inp outLen s).2 = .done := by
  have henc : (Header.group 0).Encodable := countBits_zero
  rw [turn_of_header hout (by omega) henc hat fun _ => hlen,
    execute_literal (by simp [opcodes]) rfl]
  exact congrArg Prod.snd (if_pos hmark)

/-- What a turn took that did not stop. -/
theorem token_of_turn {s s' : State} (h : (turn inp outLen s).2 = .go s') :
    ∃ t : Token, t.Encodable ∧ At inp s.inputBit t.bits ∧
      s'.inputBit = s.inputBit + t.bits.length ∧
      t.expand s.out s.matchOffset = some (s'.out, s'.matchOffset) ∧
      ∀ bytes, t = .group bytes →
        ¬ isEndMarker inp (s.inputBit + t.header.bits.length) bytes.length := by
  obtain ⟨hout, hbit, hd, henc, hat, hlen, hexec⟩ := header_of_turn h (by simp)
  -- a group of literals has the bytes that are read behind the header
  have hgroup : ∀ op : Opcodes, op.instruction ≠ .previousOffset → op.offset = 0 →
      op.bitsUsed = hd.bits.length → (execute inp outLen op s).2 = .go s' →
      ∃ bytes : List UInt8, bytes.length = op.length ∧
        ¬ isEndMarker inp (s.inputBit + hd.bits.length) op.length ∧
        At inp (s.inputBit + hd.bits.length) (bytes.flatMap fun b => msbBits 8 b.toNat) ∧
        s' = { s with
          inputBit := s.inputBit + hd.bits.length + 8 * op.length, out := s.out ++ bytes } := by
    intro op hop hoffset hused hgo
    rw [execute_literal hop hoffset, hused] at hgo
    split at hgo
    · cases hgo
    · rename_i hmark
      refine ⟨literals inp (s.inputBit + hd.bits.length) op.length, length_literals _ _, hmark, ?_,
        (Turn.go.inj hgo).symm⟩
      rw [← literals_eq_iff, length_literals]
  cases hd with
  | literal =>
    obtain ⟨bytes, hbytes, -, hdata, rfl⟩ := hgroup _ (by simp [opcodes]) rfl rfl hexec
    obtain ⟨b, rfl⟩ := length_eq_one_iff.mp hbytes
    exact ⟨.literal b, ⟨henc, trivial⟩, at_append.mpr ⟨hat, hdata⟩, rfl, rfl, by simp⟩
  | previous length =>
    simp only [execute, opcodes, if_true] at hexec
    obtain ⟨hne, hback, hroom, rfl⟩ := (matchTurn_go _ _ _ _).mp hexec
    refine ⟨.previous (length + 1), ⟨henc, by simp⟩, ?_, ?_, ?_, by simp⟩
    · simpa [Token.bits, header, Token.data] using hat
    · simp [Token.bits, header, Token.data]
    · rw [expand, if_pos ⟨hne, hback⟩, Nat.add_comm]
  | group length =>
    obtain ⟨bytes, hbytes, hmark, hdata, rfl⟩ := hgroup _ (by simp [opcodes]) rfl rfl hexec
    have hcount : bytes.length = 12 + length := hbytes
    have hheader : (Token.group bytes).header = .group length := by
      rw [header, hcount, Nat.add_sub_cancel_left]
    refine ⟨.group bytes, ⟨by rw [hheader]; exact henc, ?_⟩, ?_, ?_, rfl, ?_⟩
    · show 12 ≤ bytes.length
      omega
    · rw [Token.bits, hheader]
      exact at_append.mpr ⟨hat, hdata⟩
    · rw [Token.bits, hheader, length_append, Token.data, length_data_bits, hcount]
      exact Nat.add_assoc _ _ _
    · rintro _ ⟨⟩
      rw [hheader, hbytes]
      exact hmark
  | matching offset length =>
    have hne : offset ≠ 0 := henc.1
    simp only [execute, opcodes, reduceCtorEq, if_false, hne] at hexec
    obtain ⟨-, hback, hroom, rfl⟩ := (matchTurn_go _ _ _ _).mp hexec
    refine ⟨.matching offset (length + 2), ⟨henc, by simp⟩, ?_, ?_, ?_, by simp⟩
    · simpa [Token.bits, header, Token.data] using hat
    · simp [Token.bits, header, Token.data]
    · rw [expand, if_pos hback, Nat.add_comm]

/-- A turn that ends took the header of a group of twelve. -/
theorem endMarker_of_turn {s : State} (h : (turn inp outLen s).2 = .done) :
    s.out.length ≤ outLen ∧ At inp s.inputBit endMarker ∧
      s.inputBit + endMarker.length ≤ inp.bitLen := by
  obtain ⟨hout, -, hd, henc, hat, hlen, hexec⟩ := header_of_turn h (by simp)
  cases hd with
  | literal =>
    rw [execute_literal (by simp [opcodes]) rfl, if_neg] at hexec
    · cases hexec
    · rintro ⟨hone, -⟩
      simp [opcodes] at hone
  | previous length =>
    simp only [execute, opcodes, if_true] at hexec
    exact absurd hexec (matchTurn_done _ _ _)
  | group length =>
    rw [execute_literal (by simp [opcodes]) rfl] at hexec
    split at hexec
    · rename_i hmark
      obtain rfl : length = 0 := by
        have : 12 + length = 12 := hmark.1
        omega
      exact ⟨hout, hat, hlen (by simp)⟩
    · cases hexec
  | matching offset length =>
    have hne : offset ≠ 0 := henc.1
    simp only [execute, opcodes, reduceCtorEq, if_false, hne] at hexec
    exact absurd hexec (matchTurn_done _ _ _)

/-! ## The log of a turn -/

/-- A touch that stays inside of the input and the output. -/
def Access.InBounds (inp : Input) (outLen : Nat) : Access → Prop
  | .bit pos => pos < inp.bitLen
  | .write cursor => cursor < outLen
  | .copy cursor offset n => offset ≤ cursor ∧ cursor + n ≤ outLen

theorem decodeInstructionOperators_log (pos previousOffset : Nat) :
    (∀ a ∈ (decodeInstructionOperators inp pos previousOffset).1, a.InBounds inp outLen) ↔
      pos < inp.bitLen ∧ (inp.getBit pos = true → pos + 1 < inp.bitLen) := by
  have hcount : ∀ pos shift count, ∀ a ∈ (decodeCount inp pos shift count).1,
      a.InBounds inp outLen := by
    intro pos shift count a ha
    obtain ⟨p, rfl, hp⟩ := decodeCount_log ha
    exact hp
  -- the bits of the instruction, and then those of the counts
  have hlog : ∃ log, (decodeInstructionOperators inp pos previousOffset).1 =
      (decodeInstruction inp pos).1 ++ log ∧ ∀ a ∈ log, a.InBounds inp outLen := by
    rw [decodeInstructionOperators]
    rcases decodeInstruction inp pos with ⟨log, instruction, used⟩
    cases instruction with
    | literalByte => exact ⟨[], by simp, by simp⟩
    | previousOffset => exact ⟨_, rfl, hcount _ _ _⟩
    | long =>
      dsimp only
      have hfirst := hcount (pos + used) 4 0
      rcases hd : decodeCount inp (pos + used) 4 0 with ⟨log', _ | ⟨offset, k⟩⟩
      all_goals rw [hd] at hfirst
      · exact ⟨log', rfl, hfirst⟩
      · dsimp only
        rw [append_assoc]
        refine ⟨_, rfl, fun a ha => ?_⟩
        rcases mem_append.mp ha with ha | ha
        · exact hfirst a ha
        · split at ha <;> exact hcount _ _ _ a ha
  obtain ⟨log, hlog, hin⟩ := hlog
  rw [hlog]
  simp only [mem_append]
  rw [decodeInstruction]
  cases hbit : inp.getBit pos with
  | false =>
    simp only [Bool.false_eq_true, if_false, mem_singleton]
    constructor
    · intro h
      exact ⟨h _ (.inl rfl), fun h => absurd h (by simp)⟩
    · rintro ⟨h, -⟩ a (rfl | ha)
      · exact h
      · exact hin a ha
  | true =>
    simp only [if_true, mem_cons, not_mem_nil, or_false]
    constructor
    · intro h
      exact ⟨h _ (.inl (.inl rfl)), fun _ => h _ (.inl (.inr rfl))⟩
    · rintro ⟨h, h'⟩ a ((rfl | rfl) | ha)
      · exact h
      · exact h' trivial
      · exact hin a ha

theorem literalLog_inBounds {n : Nat} (hn : 0 < n) (pos cursor : Nat) :
    (∀ a ∈ literalLog pos cursor n, a.InBounds inp outLen) ↔
      pos + 8 * n ≤ inp.bitLen ∧ cursor + n ≤ outLen := by
  induction n generalizing pos cursor with
  | zero => exact absurd hn (Nat.lt_irrefl 0)
  | succ n ih =>
    have hbyte : (∀ a ∈ (range' pos 8).map Access.bit, a.InBounds inp outLen) ↔
        pos + 8 ≤ inp.bitLen := by
      constructor
      · intro h
        have hlast : pos + 7 < inp.bitLen :=
          h (.bit (pos + 7)) (mem_map.mpr ⟨pos + 7, by simp, rfl⟩)
        omega
      · intro h a ha
        obtain ⟨p, hp, rfl⟩ := mem_map.mp ha
        rw [mem_range'_1] at hp
        show p < inp.bitLen
        omega
    have hrest : (∀ a ∈ literalLog (pos + 8) (cursor + 1) n, a.InBounds inp outLen) ↔
        n = 0 ∨ pos + 8 + 8 * n ≤ inp.bitLen ∧ cursor + 1 + n ≤ outLen := by
      rcases Nat.eq_zero_or_pos n with rfl | hpos
      · simp [literalLog]
      · rw [ih hpos, or_iff_right (by omega)]
    have hsplit : (∀ a ∈ literalLog pos cursor (n + 1), a.InBounds inp outLen) ↔
        (∀ a ∈ (range' pos 8).map Access.bit, a.InBounds inp outLen) ∧ cursor < outLen ∧
          ∀ a ∈ literalLog (pos + 8) (cursor + 1) n, a.InBounds inp outLen := by
      simp only [literalLog, mem_append, mem_cons, or_imp, forall_and, forall_eq]
      rfl
    rw [hsplit, hbyte, hrest]
    omega

theorem matchTurn_inBounds (offset length : Nat) (s : State) :
    ∀ a ∈ (matchTurn outLen offset length s).1, a.InBounds inp outLen := by
  intro a ha
  rw [matchTurn] at ha
  split at ha
  · simp at ha
  · split at ha
    · simp at ha
    · split at ha
      · simp at ha
      · obtain ⟨cursor, n, rfl, hback, hroom⟩ := copyMatch_log (by omega) (by omega) ha
        exact ⟨hback, by omega⟩

/-- How many bytes follow a header. -/
def Header.literals : Header → Nat
  | literal => 1
  | previous _ => 0
  | group length => 12 + length
  | matching _ _ => 0

/-- There is room for the bytes behind a header, unless it is taken for the end marker. -/
def LiteralsFit (inp : Input) (outLen : Nat) (s : State) (h : Header) : Prop :=
  0 < h.literals → ¬ isEndMarker inp (s.inputBit + h.bits.length) h.literals →
    s.inputBit + h.bits.length + 8 * h.literals ≤ inp.bitLen ∧ s.out.length + h.literals ≤ outLen

/-- The input and the output have room for what starts here: the one or two bits of the
    instruction, and the literals whose header is inside of the input. -/
structure Room (inp : Input) (outLen : Nat) (s : State) : Prop where
  instruction : s.inputBit < inp.bitLen
  instruction' : inp.getBit s.inputBit = true → s.inputBit + 1 < inp.bitLen
  literals : ∀ h : Header, h.Encodable → At inp s.inputBit h.bits →
    s.inputBit + h.bits.length ≤ inp.bitLen → LiteralsFit inp outLen s h

theorem execute_inBounds (h : Header) (henc : h.Encodable) (s : State) (previous : Nat) :
    (∀ a ∈ (execute inp outLen (h.opcodes previous) s).1, a.InBounds inp outLen) ↔
      LiteralsFit inp outLen s h := by
  have hliteral : ∀ op : Opcodes, op.instruction ≠ .previousOffset → op.offset = 0 →
      op.length = h.literals → op.bitsUsed = h.bits.length → 0 < h.literals →
      ((∀ a ∈ (execute inp outLen op s).1, a.InBounds inp outLen) ↔
        LiteralsFit inp outLen s h) := by
    intro op hop hoffset hlength hused hpos
    rw [execute_literal hop hoffset, hlength, hused, LiteralsFit]
    by_cases hmark : isEndMarker inp (s.inputBit + h.bits.length) h.literals
    · simp [hmark]
    · rw [if_neg hmark, literalLog_inBounds hpos]
      simp [hmark, hpos]
  cases h with
  | literal => exact hliteral _ (by simp [opcodes]) rfl rfl rfl (by simp [Header.literals])
  | previous length =>
    simp only [execute, opcodes, if_true, LiteralsFit, Header.literals, Nat.lt_irrefl,
      false_imp_iff, iff_true]
    exact matchTurn_inBounds _ _ _
  | group length =>
    exact hliteral _ (by simp [opcodes]) rfl rfl rfl (by simp [Header.literals])
  | matching offset length =>
    have hne : offset ≠ 0 := henc.1
    simp only [execute, opcodes, reduceCtorEq, if_false, hne, LiteralsFit, Header.literals,
      Nat.lt_irrefl, false_imp_iff, iff_true]
    exact matchTurn_inBounds _ _ _

theorem Header.opcodes_inj {h h' : Header} {previous : Nat} (henc : h.Encodable)
    (henc' : h'.Encodable) (heq : h.opcodes previous = h'.opcodes previous) : h = h' := by
  cases h <;> cases h' <;> simp [opcodes] at heq <;> simp [heq]
  case group.matching => exact henc'.1 heq.1.symm
  case matching.group => exact henc.1 heq.1

/-- A turn stays inside exactly if there is room for what it takes. -/
theorem turn_inBounds {s : State} (hout : s.out.length ≤ outLen) (hin : s.inputBit ≤ inp.bitLen) :
    (∀ a ∈ (turn inp outLen s).1, a.InBounds inp outLen) ↔ Room inp outLen s := by
  have hops := @decodeInstructionOperators_log inp outLen s.inputBit
    s.matchOffset
  have hiff := @decodeInstructionOperators_iff inp s.inputBit s.matchOffset
  rw [turn, if_neg (by omega), if_neg (by omega)]
  rcases hd : decodeInstructionOperators inp s.inputBit s.matchOffset with ⟨log, _ | op⟩
  · rw [hd] at hops hiff
    dsimp only
    rw [hops]
    constructor
    · rintro ⟨hfirst, hsecond⟩
      refine ⟨hfirst, hsecond, fun h henc hat hlen => ?_⟩
      have := (hiff _).mpr ⟨h, henc, rfl, hat, fun _ => hlen⟩
      simp at this
    · exact fun h => ⟨h.instruction, h.instruction'⟩
  · rw [hd] at hops hiff
    obtain ⟨h, henc, rfl, hat, hlen⟩ := (hiff op).mp rfl
    have hexec := @execute_inBounds inp outLen h henc s s.matchOffset
    simp only [mem_append, or_imp, forall_and]
    rw [hops, hexec]
    constructor
    · rintro ⟨⟨hfirst, hsecond⟩, hfit⟩
      refine ⟨hfirst, hsecond, fun h' henc' hat' hlen' => ?_⟩
      have hsame := (hiff _).mpr ⟨h', henc', rfl, hat', fun _ => hlen'⟩
      rw [← opcodes_inj henc henc' (some.inj hsame)]
      exact hfit
    · intro hroom
      refine ⟨⟨hroom.instruction, hroom.instruction'⟩, hroom.literals h henc hat ?_⟩
      by_cases hliteral : h = .literal
      · subst hliteral
        exact hroom.instruction
      · exact hlen hliteral

/-! ## The loop -/

/-- The decoder takes a token that lies inside of the input and the output. -/
def Takes (inp : Input) (outLen : Nat) (s s' : State) : Prop :=
  ∃ t : Token, t.Encodable ∧ At inp s.inputBit t.bits ∧
    s'.inputBit = s.inputBit + t.bits.length ∧
    t.expand s.out s.matchOffset = some (s'.out, s'.matchOffset) ∧
    (∀ bytes, t = .group bytes →
      ¬ isEndMarker inp (s.inputBit + t.header.bits.length) bytes.length) ∧
    s'.inputBit ≤ inp.bitLen ∧ s'.out.length ≤ outLen

theorem takes_iff {s s' : State} (hout : s.out.length ≤ outLen) : Takes inp outLen s s' ↔
    (turn inp outLen s).2 = .go s' ∧ s'.inputBit ≤ inp.bitLen ∧ s'.out.length ≤ outLen := by
  constructor
  · rintro ⟨t, henc, hat, hbit, hexp, hmark, hin, hroom⟩
    rw [turn_of_token hout henc hat (by omega) hexp hroom hmark, ← hbit]
    exact ⟨rfl, hin, hroom⟩
  · rintro ⟨hgo, hin, hroom⟩
    obtain ⟨t, henc, hat, hbit, hexp, hmark⟩ := token_of_turn hgo
    exact ⟨t, henc, hat, hbit, hexp, hmark, hin, hroom⟩

theorem Header.length_bits_pos (h : Header) : 0 < h.bits.length := by
  cases h <;> simp [Header.bits]

theorem turn_advances {s s' : State} (h : (turn inp outLen s).2 = .go s') :
    s.inputBit ≤ inp.bitLen ∧ s.inputBit < s'.inputBit := by
  obtain ⟨-, hin, -⟩ := header_of_turn h (by simp)
  obtain ⟨t, -, -, hbit, -⟩ := token_of_turn h
  have := t.header.length_bits_pos
  rw [length_token_bits] at hbit
  exact ⟨hin, by omega⟩

/-- A turn behind the end of the input or the output touches nothing. -/
theorem turn_outside {s : State} (h : ¬ (s.inputBit ≤ inp.bitLen ∧ s.out.length ≤ outLen)) :
    ∃ e, turn inp outLen s = ([], .stop e) := by
  rw [turn]
  split
  · exact ⟨_, rfl⟩
  · rw [if_pos (by omega)]
    exact ⟨_, rfl⟩

/-- The loop with as many turns as there are bits ends. -/
theorem loop_isSome {turns : Nat} {s : State} (hpos : 0 < turns)
    (hturns : inp.bitLen + 2 ≤ turns + s.inputBit) : ∃ r, (loop inp outLen turns s).2 = some r := by
  induction turns generalizing s with
  | zero => omega
  | succ turns ih =>
    rw [loop]
    rcases ht : turn inp outLen s with ⟨log, e | _ | s'⟩
    · exact ⟨_, rfl⟩
    · exact ⟨_, rfl⟩
    · obtain ⟨hin, hlt⟩ := turn_advances (show (turn inp outLen s).2 = .go s' by rw [ht])
      exact ih (by omega) (by omega)

/-- The loop stays inside exactly if there is room wherever tokens take it. -/
theorem loop_inBounds {turns : Nat} {s : State} (hout : s.out.length ≤ outLen)
    (hin : s.inputBit ≤ inp.bitLen) (hturns : inp.bitLen + 2 ≤ turns + s.inputBit) :
    (∀ a ∈ (loop inp outLen turns s).1, a.InBounds inp outLen) ↔
      ∀ s', ReflTransGen (Takes inp outLen) s s' → Room inp outLen s' := by
  induction turns generalizing s with
  | zero => omega
  | succ turns ih =>
    have hturn := turn_inBounds hout hin
    -- without another token the turn is all there is
    have hlast : (∀ s', ¬ Takes inp outLen s s') →
        ((∀ s', ReflTransGen (Takes inp outLen) s s' → Room inp outLen s') ↔
          Room inp outLen s) := by
      intro hno
      constructor
      · exact fun h => h s .refl
      · intro h s' hreach
        rcases Relation.ReflTransGen.cases_head hreach with rfl | ⟨s'', htake, -⟩
        · exact h
        · exact absurd htake (hno s'')
    rw [loop]
    rcases ht : turn inp outLen s with ⟨log, e | _ | s'⟩
    all_goals rw [ht] at hturn
    · rw [hturn, hlast]
      intro s' htake
      have hgo := ((takes_iff hout).mp htake).1
      rw [ht] at hgo
      cases hgo
    · rw [hturn, hlast]
      intro s' htake
      have hgo := ((takes_iff hout).mp htake).1
      rw [ht] at hgo
      cases hgo
    · have hgo : (turn inp outLen s).2 = .go s' := by rw [ht]
      obtain ⟨-, hlt⟩ := turn_advances hgo
      have hnext : ∀ s'', Takes inp outLen s s'' ↔
          s'' = s' ∧ s'.inputBit ≤ inp.bitLen ∧ s'.out.length ≤ outLen := by
        intro s''
        rw [takes_iff hout, hgo, Turn.go.injEq]
        constructor
        · rintro ⟨rfl, h⟩
          exact ⟨rfl, h⟩
        · rintro ⟨rfl, h⟩
          exact ⟨rfl, h⟩
      simp only [mem_append, or_imp, forall_and]
      rw [hturn]
      by_cases hinside : s'.inputBit ≤ inp.bitLen ∧ s'.out.length ≤ outLen
      · rw [ih hinside.2 hinside.1 (by omega)]
        constructor
        · rintro ⟨hroom, hrest⟩ s'' hreach
          rcases Relation.ReflTransGen.cases_head hreach with rfl | ⟨mid, htake, hreach⟩
          · exact hroom
          · obtain ⟨rfl, -⟩ := (hnext mid).mp htake
            exact hrest s'' hreach
        · intro h
          exact ⟨h s .refl, fun s'' hreach =>
            h s'' (.head ((hnext s').mpr ⟨rfl, hinside⟩) hreach)⟩
      · have hnone : ∀ a ∈ (loop inp outLen turns s').1, a.InBounds inp outLen := by
          obtain ⟨e, hstop⟩ := turn_outside hinside
          cases turns with
          | zero => simp [loop]
          | succ turns => simp [loop, hstop]
        rw [hlast fun s'' htake => hinside ((hnext s'').mp htake).2]
        exact ⟨fun h => h.1, fun h => ⟨h, hnone⟩⟩

/-- The input has tokens from a bit on, and then the end marker, and they expand to `out`. -/
def StreamAt (inp : Input) (outLen : Nat) (s : State) (out : List UInt8) : Prop :=
  ∃ ts : List Token, (∀ t ∈ ts, t.Encodable) ∧ At inp s.inputBit (streamBits ts) ∧
    s.inputBit + (streamBits ts).length ≤ inp.bitLen ∧
    expandFrom ts s.out s.matchOffset = some out ∧ out.length ≤ outLen

theorem loop_ok {turns : Nat} {s : State} {out : List UInt8}
    (h : (loop inp outLen turns s).2 = some (.ok out)) : StreamAt inp outLen s out := by
  induction turns generalizing s with
  | zero => simp [loop] at h
  | succ turns ih =>
    rw [loop] at h
    rcases ht : turn inp outLen s with ⟨log, e | _ | s'⟩
    all_goals rw [ht] at h
    · simp at h
    · obtain ⟨hout, hat, hlen⟩ := endMarker_of_turn (show (turn inp outLen s).2 = .done by rw [ht])
      simp only [some_inj, Except.ok.injEq] at h
      subst h
      exact ⟨[], by simp, hat, hlen, rfl, hout⟩
    · obtain ⟨t, henc, hat, hbit, hexp, -⟩ :=
        token_of_turn (show (turn inp outLen s).2 = .go s' by rw [ht])
      obtain ⟨ts, hencs, hats, hlen, hexps, hout⟩ := ih h
      have hstream : streamBits (t :: ts) = t.bits ++ streamBits ts := by
        simp only [streamBits, flatMap_cons, append_assoc]
      rw [hbit] at hats hlen
      refine ⟨t :: ts, ?_, ?_, ?_, ?_, hout⟩
      · simpa using ⟨henc, hencs⟩
      · rw [hstream, at_append]
        exact ⟨hat, hats⟩
      · rw [hstream, length_append]
        omega
      · rw [expandFrom, hexp]
        exact hexps

/-! ## Bounds -/

/-- A run of the decoder that ends, stays inside of the input and the output, and fails unless
    the input is tokens and an end marker whose expansion fits. -/
structure DecompressOk (inp : Input) (outLen : Nat) : Prop where
  terminates : ∃ r, (decompress inp outLen).2 = some r
  input : ∀ pos, .bit pos ∈ (decompress inp outLen).1 → pos < 8 * inp.len
  output : ∀ cursor, .write cursor ∈ (decompress inp outLen).1 → cursor < outLen
  copies : ∀ cursor offset n, .copy cursor offset n ∈ (decompress inp outLen).1 →
    offset ≤ cursor ∧ cursor + n ≤ outLen
  malformed : (∀ out, ¬ StreamAt inp outLen {} out) → ∃ e, (decompress inp outLen).2 =
    some (.error e)

/-- The decoder does so exactly on inputs that have room wherever their tokens lead: for the
    instruction there, and for the literals behind a header there. -/
theorem decompress_iff (inp : Input) (outLen : Nat) : DecompressOk inp outLen ↔
    ∀ s, ReflTransGen (Takes inp outLen) {} s → Room inp outLen s := by
  have hends : ∃ r, (decompress inp outLen).2 = some r :=
    loop_isSome (by omega) (by simp)
  have hbounds : (∀ a ∈ (decompress inp outLen).1, a.InBounds inp outLen) ↔
      ∀ s, ReflTransGen (Takes inp outLen) {} s → Room inp outLen s :=
    loop_inBounds (Nat.zero_le _) (Nat.zero_le _) (Nat.le_refl _)
  rw [← hbounds]
  constructor
  · intro hok a ha
    cases a with
    | bit pos => exact hok.input pos ha
    | write cursor => exact hok.output cursor ha
    | copy cursor offset n => exact hok.copies cursor offset n ha
  · intro hin
    refine ⟨hends, fun pos => hin _, fun cursor => hin _, fun cursor offset n => hin _, ?_⟩
    intro hno
    obtain ⟨r, hr⟩ := hends
    cases r with
    | error e => exact ⟨e, hr⟩
    | ok out => exact absurd (loop_ok hr) (hno out)

/-- A literal byte is written without a look at the room, here for none at all. -/
theorem decompress_writes_outside : ¬ DecompressOk (.ofList (encode [.literal 65])) 0 := by
  intro hok
  have hwrite : Access.write 0 ∈ (decompress (.ofList (encode [.literal 65])) 0).1 := by
    decide +kernel
  exact Nat.not_lt_zero 0 (hok.output 0 hwrite)

/-! ## What is encoded is decoded -/

theorem testBit_ofBits (bits : List Bool) {j : Nat} (hj : j < bits.length) :
    (ofBits bits).testBit j = bits.getD (bits.length - 1 - j) false := by
  induction bits with
  | nil => simp at hj
  | cons b bits ih =>
    rw [ofBits_cons, Nat.mul_comm, testBit_two_pow_mul_add _ (ofBits_lt bits),
      length_cons]
    rw [length_cons] at hj
    split
    · rename_i hlt
      have hindex : bits.length + 1 - 1 - j = (bits.length - 1 - j) + 1 := by omega
      rw [ih hlt, hindex, getD_cons_succ]
    · rename_i hge
      obtain rfl : j = bits.length := by omega
      cases b <;> simp

theorem at_iff_getBit {pos : Nat} {bits : List Bool} :
    At inp pos bits ↔ ∀ i < bits.length, inp.getBit (pos + i) = bits.getD i false := by
  induction bits generalizing pos with
  | nil => simp
  | cons b bits ih =>
    rw [at_cons, ih]
    constructor
    · rintro ⟨hfirst, hrest⟩ i hi
      cases i with
      | zero => exact hfirst
      | succ i =>
        have := hrest i (by simpa using hi)
        rwa [getD_cons_succ, ← Nat.add_assoc, Nat.add_right_comm]
    · intro h
      refine ⟨h 0 (by simp), fun i hi => ?_⟩
      have := h (i + 1) (by simpa using hi)
      rwa [getD_cons_succ, ← Nat.add_assoc, Nat.add_right_comm] at this

@[simp] theorem length_pack (bits : List Bool) : (pack bits).length = (bits.length + 7) / 8 := by
  simp [pack]

theorem at_pack (bits : List Bool) : At (.ofList (pack bits)) 0 bits := by
  rw [at_iff_getBit]
  intro i hi
  have hindex : i / 8 < (bits.length + 7) / 8 := by omega
  have hbyte : (Input.ofList (pack bits)).mem (i / 8) =
      ofNat (ofBits ((range 8).reverse.map fun j =>
        bits.getD (8 * (i / 8) + j) false)) := by
    simp [Input.ofList, pack, getD_eq_getElem?_getD, hindex]
  have hlt := ofBits_lt ((range 8).reverse.map fun j => bits.getD (8 * (i / 8) + j) false)
  rw [Nat.zero_add, Input.getBit, hbyte, toNat_ofNat', mod_eq_of_lt (by simpa using hlt),
    testBit_ofBits _ (by simp; omega)]
  have hmod : i % 8 < 8 := mod_lt _ (by decide)
  have hplace : 8 * (i / 8) + i % 8 = i := div_add_mod i 8
  rw [getD_eq_getElem?_getD, getElem?_map, getElem?_reverse (by simp; omega)]
  simp [show 8 - 1 - (8 - 1 - i % 8) = i % 8 by omega, getElem?_range hmod, hplace]

theorem Token.length_expand_le {t : Token} {out out' : List UInt8} {previous previous' : Nat}
    (h : t.expand out previous = some (out', previous')) :
    out.length + t.data.length ≤ out'.length := by
  cases t with
  | literal b =>
    obtain ⟨rfl, rfl⟩ := Prod.mk.inj (some.inj h)
    simp [Token.data]
  | group bytes =>
    obtain ⟨rfl, rfl⟩ := Prod.mk.inj (some.inj h)
    simp [Token.data]
  | matching offset length =>
    rw [expand] at h
    split at h
    · obtain ⟨rfl, rfl⟩ := Prod.mk.inj (some.inj h)
      simp [Token.data]
    · cases h
  | previous length =>
    rw [expand] at h
    split at h
    · obtain ⟨rfl, rfl⟩ := Prod.mk.inj (some.inj h)
      simp [Token.data]
    · cases h

theorem length_expandFrom_le {ts : List Token} {out out' : List UInt8} {previous : Nat}
    (h : expandFrom ts out previous = some out') : out.length ≤ out'.length := by
  induction ts generalizing out previous with
  | nil =>
    obtain rfl := some.inj h
    exact Nat.le_refl _
  | cons t ts ih =>
    obtain ⟨⟨mid, previous'⟩, hexp, hrest⟩ := bind_eq_some_iff.mp h
    dsimp only at hrest
    have := length_expand_le hexp
    have := ih hrest
    omega

/-- No group of literals is taken for the end marker, if the tokens start at `pos`. -/
def Unmistaken (inp : Input) (pos : Nat) (ts : List Token) : Prop :=
  ∀ before bytes after, ts = before ++ .group bytes :: after →
    ¬ isEndMarker inp (pos + (before.flatMap Token.bits).length +
      (Token.group bytes).header.bits.length) bytes.length

theorem unmistaken_cons {pos : Nat} {t : Token} {ts : List Token} : Unmistaken inp pos (t :: ts) ↔
    (∀ bytes, t = .group bytes → ¬ isEndMarker inp (pos + t.header.bits.length) bytes.length) ∧
      Unmistaken inp (pos + t.bits.length) ts := by
  constructor
  · intro h
    refine ⟨?_, ?_⟩
    · rintro bytes rfl
      exact h [] bytes ts rfl
    · rintro before bytes after rfl
      have := h (t :: before) bytes after rfl
      rwa [flatMap_cons, length_append, ← Nat.add_assoc pos] at this
  · rintro ⟨hfirst, hrest⟩ before bytes after heq
    cases before with
    | nil =>
      obtain ⟨rfl, rfl⟩ := List.cons.inj heq
      exact hfirst bytes rfl
    | cons t' before =>
      obtain ⟨rfl, rfl⟩ := List.cons.inj heq
      rw [flatMap_cons, length_append, ← Nat.add_assoc pos]
      exact hrest before bytes after rfl

/-- Tokens and the end marker are decoded exactly if no group is mistaken: the decoder stops at
    the first that is, with less than the expansion. -/
theorem loop_stream {ts : List Token} {turns : Nat} {s : State} {out : List UInt8}
    (henc : ∀ t ∈ ts, t.Encodable) (hat : At inp s.inputBit (streamBits ts))
    (hlen : s.inputBit + (streamBits ts).length ≤ inp.bitLen)
    (hend : inp.len < s.inputBit + (streamBits ts).length + 96)
    (hexp : expandFrom ts s.out s.matchOffset = some out) (hout : out.length ≤ outLen)
    (hturns : ts.length < turns) :
    (loop inp outLen turns s).2 = some (.ok out) ↔ Unmistaken inp s.inputBit ts := by
  induction ts generalizing turns s with
  | nil =>
    obtain ⟨turns, rfl⟩ := exists_eq_succ_of_ne_zero (by omega : turns ≠ 0)
    obtain rfl := some.inj hexp
    have hdone : (turn inp outLen s).2 = .done :=
      turn_of_endMarker hout hat hlen ⟨rfl, hend⟩
    rw [loop]
    rcases ht : turn inp outLen s with ⟨log, e | _ | s'⟩
    all_goals rw [ht] at hdone
    · cases hdone
    · simp [Unmistaken]
    · cases hdone
  | cons t ts ih =>
    obtain ⟨turns, rfl⟩ := exists_eq_succ_of_ne_zero (by omega : turns ≠ 0)
    rw [length_cons] at hturns
    obtain ⟨⟨mid, previous⟩, hfirst, hrest⟩ := bind_eq_some_iff.mp hexp
    dsimp only at hrest
    have hgrows := length_expand_le hfirst
    have hmid := length_expandFrom_le hrest
    have hstream : streamBits (t :: ts) = t.bits ++ streamBits ts := by
      simp only [streamBits, flatMap_cons, append_assoc]
    rw [hstream, length_append] at hlen hend
    rw [hstream, at_append] at hat
    rw [unmistaken_cons, loop]
    by_cases hmark : ∀ bytes, t = .group bytes →
      ¬ isEndMarker inp (s.inputBit + t.header.bits.length) bytes.length
    · have hgo : (turn inp outLen s).2 = .go ⟨s.inputBit + t.bits.length, mid, previous⟩ :=
        turn_of_token (by omega) (henc t mem_cons_self) hat.1 (by omega) hfirst (by omega)
          hmark
      rcases ht : turn inp outLen s with ⟨log, e | _ | s'⟩
      all_goals rw [ht] at hgo
      · cases hgo
      · cases hgo
      · obtain rfl := Turn.go.inj hgo
        rw [and_iff_right hmark]
        exact ih (fun t ht => henc t (mem_cons_of_mem _ ht)) hat.2 (by dsimp only; omega)
          (by dsimp only; omega) hrest (by omega)
    · rw [iff_false_intro (not_and_of_not_left _ hmark), iff_false]
      push Not at hmark
      obtain ⟨bytes, rfl, hmark⟩ := hmark
      have hheader : (Token.group bytes).header.bits = endMarker := by
        rw [header, hmark.1]
        rfl
      rw [hheader, hmark.1] at hmark
      rw [Token.bits, hheader, at_append] at hat
      rw [length_token_bits, hheader] at hlen
      have hdone : (turn inp outLen s).2 = .done :=
        turn_of_endMarker (by omega) hat.1.1 (by omega) hmark
      rcases ht : turn inp outLen s with ⟨log, e | _ | s'⟩
      all_goals rw [ht] at hdone
      · cases hdone
      · intro h
        obtain rfl := Except.ok.inj (some.inj h)
        have : 12 ≤ bytes.length := (henc _ mem_cons_self).2
        rw [Token.data] at hgrows
        omega
      · cases hdone

/-- What tokens were encoded to is decoded to their expansion exactly if every group of twelve
    literals has, in bytes behind the bits before it, at least as many as it has bits. -/
theorem decompress_encode_iff (ts : List Token) (out : List UInt8) (outLen : Nat)
    (henc : ∀ t ∈ ts, t.Encodable) (hexp : expansion ts = some out)
    (hout : out.length ≤ outLen) :
    (decompress (.ofList (encode ts)) outLen).2 = some (.ok out) ↔
      ∀ before bytes after, ts = before ++ .group bytes :: after → bytes.length = 12 →
        (before.flatMap Token.bits).length + endMarker.length + 8 * 12 ≤ (encode ts).length := by
  have hlen : (Input.ofList (encode ts)).len = (encode ts).length := rfl
  have hbits : (encode ts).length = ((streamBits ts).length + 7) / 8 := length_pack _
  have hturns : ts.length ≤ (streamBits ts).length := by
    have hall : ∀ ts : List Token, ts.length ≤ (ts.flatMap Token.bits).length := by
      intro ts
      induction ts with
      | nil => simp
      | cons t ts ih =>
        have := t.header.length_bits_pos
        rw [flatMap_cons, length_append, length_cons, length_token_bits]
        omega
    rw [streamBits, length_append]
    exact le_add_right_of_le (hall ts)
  have hbitLen : (Input.ofList (encode ts)).bitLen = 8 * (encode ts).length := rfl
  have hat : At (.ofList (encode ts)) 0 (streamBits ts) := at_pack _
  have hstart := loop_stream (s := {}) henc hat (by dsimp only; omega) (by dsimp only; omega) hexp
    hout (show ts.length < (Input.ofList (encode ts)).bitLen + 2 by omega)
  rw [decompress, hstart]
  refine forall_congr' fun before => forall_congr' fun bytes => forall_congr' fun after =>
    imp_congr_right fun _ => ?_
  rw [isEndMarker, hlen, not_and]
  refine imp_congr_right fun hcount => ?_
  have hheader : (Token.group bytes).header.bits = endMarker := by
    rw [header, hcount]
    rfl
  rw [hheader, hcount]
  dsimp only
  omega

theorem decompress_encode_overlap :
    (decompress (.ofList (encode [.literal 65, .matching 1 3, .literal 66, .previous 2])) 7).2 =
      some (.ok [65, 65, 65, 65, 66, 66, 66]) := by
  refine (decompress_encode_iff [.literal 65, .matching 1 3, .literal 66, .previous 2] _ 7 ?_
    (by decide) (by decide)).mpr ?_
  · simp only [mem_cons, not_mem_nil, or_false, forall_eq_or_imp, forall_eq]
    exact ⟨⟨trivial, trivial⟩, ⟨⟨by decide, by decide, by decide⟩, by decide⟩, ⟨trivial, trivial⟩,
      ⟨show (countBits 0 1).length ≤ maxCountBitLen by decide, by decide⟩⟩
  · intro before bytes after heq
    have hmem : Token.group bytes ∈
        [Token.literal 65, .matching 1 3, .literal 66, .previous 2] := by
      rw [heq]
      simp
    simp at hmem

/-- A single group of twelve literals, in an encoding of fifteen bytes. -/
theorem decompress_group_lost :
    (∀ t ∈ [Token.group (replicate 12 65)], t.Encodable) ∧
      expansion [.group (replicate 12 65)] = some (replicate 12 65) ∧
      (decompress (.ofList (encode [.group (replicate 12 65)])) 12).2 = some (.ok []) := by
  refine ⟨?_, by decide, by decide +kernel⟩
  simp only [mem_singleton, forall_eq]
  exact ⟨countBits_zero, by decide⟩

end LibWrt.Routerboot.Lz77
