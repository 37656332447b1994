/-
LibWrt.Uline.ArgEscape — quoting an argument so that it is parsed back.

The escape function leaves a string bare, or puts it in single or in double
quotes. In single quotes every string is parsed back. In double quotes only
the double quotes are escaped, so that a backslash is not; and a bare string
may be empty, start with a blank that the function does not know, or have a
backslash or a separator in it. `escape_parse_iff` says that nothing else
goes wrong, and that these always do.
-/
import LibWrt.Uline.ArgParser

namespace LibWrt.Uline

open List

/-! ## The escape function -/

/-- The quote that `uc_uline_argp_escape` takes, or what it was asked for. -/
def escapeQuote (str : List UInt8) (ref : UInt8) : UInt8 :=
  if ref ≠ 34 ∧ ref ≠ 39 ∧
      str.any fun c => c = 10 || c = 9 || c = 32 || c = 39 || c = 34 then 34
  else ref

def escapeBody (ref : UInt8) (str : List UInt8) : List UInt8 :=
  str.flatMap fun c =>
    if c = ref then if ref = 39 then [39, 92, 39, 39] else [92, 34] else [c]

/-- `uc_uline_argp_escape`, with the first byte of the second argument or 0; the string ends at
    its terminator. -/
def argpEscape (str : List UInt8) (ref : UInt8) : List UInt8 :=
  let str := str.takeWhile (· ≠ 0)
  let ref := escapeQuote str ref
  if ref ≠ 34 ∧ ref ≠ 39 then str else ref :: escapeBody ref str ++ [ref]

/-- One statement with one argument, the string. -/
def RoundTrips (sep ref : UInt8) (str : List UInt8) : Prop :=
  let parsed := ulineParseArgs sep (argpEscape str ref)
  parsed.args = (if sep = 0 then .plain [str] else .statements [[str]]) ∧ parsed.missing = none

instance (sep ref : UInt8) (str : List UInt8) : Decidable (RoundTrips sep ref str) :=
  inferInstanceAs (Decidable (_ ∧ _))

theorem escapeBody_append (ref : UInt8) (a b : List UInt8) :
    escapeBody ref (a ++ b) = escapeBody ref a ++ escapeBody ref b := flatMap_append

variable {ref sep : UInt8} {str line : List UInt8}

theorem escapeBody_of_notMem (h : ref ∉ str) :
    escapeBody ref str = str := by
  induction str with
  | nil => rfl
  | cons c str ih =>
    rw [mem_cons, not_or] at h
    have hc : ¬ c = ref := Ne.symm h.1
    show (if c = ref then _ else [c]) ++ escapeBody ref str = c :: str
    rw [if_neg hc, ih h.2]
    rfl

/-! ## What the parser makes of quotes -/

section Quotes

variable {sep : UInt8} {total : Nat}

/-- The parser is in the first argument of the first statement. -/
structure Within (p : ArgState) (st : Quoting) (str buf : List UInt8) : Prop where
  state : p.state = st
  str : p.str = str
  buf : p.buf = some buf
  list : p.list = []
  args : p.args = []

inductive Leads (sep : UInt8) (total : Nat) : ArgState → ArgState → Prop where
  | refl (p : ArgState) : Leads sep total p p
  | turn {p p' : ArgState} (hstr : p.str ≠ []) (h : Leads sep total (turn sep total p) p') :
      Leads sep total p p'

variable {p : ArgState} {st : Quoting} {str buf chunk rest : List UInt8} {c : UInt8}

theorem parseLoop_of_leads {p' : ArgState} (h : Leads sep total p p') (hend : p'.str = []) {n : Nat}
    (hn : p.str.length ≤ n) : parseLoop sep total n p = p' := by
  induction h generalizing n with
  | refl p => cases n <;> simp [parseLoop, hend]
  | @turn p p' hstr _ ih =>
    obtain ⟨eaten, added, hne, hsplit, -, -⟩ := takes_turn sep total hstr
    have hpos := length_pos_iff.mpr hne
    have hlen := congrArg length hsplit
    rw [length_append] at hlen
    cases n with
    | zero =>
      exact absurd (length_eq_zero_iff.mp (Nat.le_zero.mp hn)) hstr
    | succ n =>
      rw [parseLoop, if_neg hstr]
      exact ih hend (by omega)

theorem mark_same (total : Nat) (p : ArgState) : (p.mark total).buf = p.buf ∧ (p.mark total).list = p.list ∧
    (p.mark total).args = p.args := by
  unfold ArgState.mark
  split <;> exact ⟨rfl, rfl, rfl⟩

theorem Within.mark (total : Nat) (h : Within p st str buf) : Within (p.mark total) st str buf := by
  obtain ⟨hbuf, hlist, hargs⟩ := mark_same total p
  exact ⟨(mark_state total p).trans h.state, (mark_str total p).trans h.str,
    hbuf.trans h.buf, hlist.trans h.list, hargs.trans h.args⟩

/-- A run up to the byte that stops it. -/
theorem take_append (stop : UInt8 → Bool) (hchunk : ∀ c ∈ chunk, stop c = false)
    (hc : stop c = true) (hstr : p.str = chunk ++ c :: rest) (hbuf : p.buf = some buf) :
    (p.take stop).str = c :: rest ∧ (p.take stop).buf = some (buf ++ chunk) := by
  have htake : (p.str.takeWhile fun c => !stop c) = chunk := by
    rw [hstr, takeWhile_append_of_pos (by simpa using hchunk),
      takeWhile_cons_of_neg (by simp [hc]), append_nil]
  have hdrop : (p.str.dropWhile fun c => !stop c) = c :: rest := by
    rw [hstr, dropWhile_append_of_pos (by simpa using hchunk),
      dropWhile_cons_of_neg (by simp [hc])]
  refine ⟨hdrop, ?_⟩
  simp only [ArgState.take, htake, hbuf]
  unfold addStr
  split
  · rename_i hnil
    rw [hnil, append_nil]
  · rfl

theorem turn_singleQuote (sep : UInt8) (total : Nat)
    (h : Within p .singleQuote (chunk ++ 39 :: rest) buf) (hchunk : 39 ∉ chunk) :
    Within (turn sep total p) .unquoted rest (buf ++ chunk) := by
  have hmark := h.mark total
  have hstop : ∀ c ∈ chunk, (decide (c = 39)) = false := by
    intro c hc
    simpa using fun heq : c = 39 => hchunk (heq ▸ hc)
  obtain ⟨hstr, hbuf⟩ := take_append (· = 39) hstop
    (by simp) hmark.str hmark.buf
  have hhead : ((p.mark total).take (· = 39)).str.head? = some 39 := by rw [hstr]; rfl
  simp only [turn, h.state, hhead, if_true]
  exact ⟨rfl, by simp [ArgState.enter, hstr], hbuf, hmark.list, hmark.args⟩

theorem turn_doubleQuote (sep : UInt8) (total : Nat)
    (h : Within p .doubleQuote (chunk ++ c :: rest) buf) (h34 : 34 ∉ chunk) (h92 : 92 ∉ chunk)
    (hc : c = 34 ∧ st = .unquoted ∨ c = 92 ∧ st = .doubleQuoteBackslash) :
    Within (turn sep total p) st rest (buf ++ chunk) := by
  have hmark := h.mark total
  have hstop : ∀ c ∈ chunk, (decide (c = 34) || decide (c = 92)) = false := by
    intro c hc
    have hne34 : c ≠ 34 := fun heq => h34 (heq ▸ hc)
    have hne92 : c ≠ 92 := fun heq => h92 (heq ▸ hc)
    simp [hne34, hne92]
  have hcstop : (decide (c = 34) || decide (c = 92)) = true := by
    rcases hc with ⟨rfl, -⟩ | ⟨rfl, -⟩ <;> decide
  obtain ⟨hstr, hbuf⟩ := take_append (fun c => c = 34 || c = 92) hstop hcstop hmark.str hmark.buf
  have hhead : ((p.mark total).take fun c => c = 34 || c = 92).str.head? = some c := by
    rw [hstr]; rfl
  simp only [turn, h.state, hhead]
  rcases hc with ⟨rfl, rfl⟩ | ⟨rfl, rfl⟩
  · simp only [if_true]
    exact ⟨rfl, by simp [ArgState.enter, hstr], hbuf, hmark.list, hmark.args⟩
  · have hno : (some (92 : UInt8) = some 34) = False := by simp
    simp only [hno, if_false, if_true]
    exact ⟨rfl, by simp [ArgState.enter, hstr], hbuf, hmark.list, hmark.args⟩

/-- A quote in a backslash. -/
theorem turn_backslash (sep : UInt8) (total : Nat) {st' : Quoting} (h : Within p st (c :: rest) buf)
    (hc : c ≠ 10)
    (hst : st = .backslash ∧ st' = .unquoted ∨ st = .doubleQuoteBackslash ∧ st' = .doubleQuote) :
    Within (turn sep total p) st' rest (buf ++ [c]) := by
  have hmark := h.mark total
  have hstate := h.state
  have hadd : addStr (p.mark total).buf [c] = some (buf ++ [c]) := by simp [addStr, hmark.buf]
  rcases hst with ⟨rfl, rfl⟩ | ⟨rfl, rfl⟩
  all_goals
    refine ⟨?_, ?_, ?_, ?_, ?_⟩
    · simp [turn, hstate, ArgState.enter]
    · simp [turn, hstate, ArgState.enter, h.str]
    · simp [turn, hstate, ArgState.enter, h.str, hc, hadd]
    · simp [turn, hstate, ArgState.enter, hmark.list]
    · simp [turn, hstate, ArgState.enter, hmark.args]

/-- A quote or a backslash that an unquoted run starts with. -/
theorem turn_open (sep : UInt8) (total : Nat) (hstate : p.state = .unquoted)
    (hstr : p.str = c :: rest) (hbuf : p.buf.getD [] = buf) (hlist : p.list = [])
    (hargs : p.args = [])
    (hc : c = 39 ∧ st = .singleQuote ∨ c = 34 ∧ st = .doubleQuote ∨ c = 92 ∧ st = .backslash) :
    Within (turn sep total p) st rest buf := by
  obtain ⟨hbuf', hlist', hargs'⟩ := mark_same total p
  have hspace : isSpace c = false := by
    rcases hc with ⟨rfl, -⟩ | ⟨rfl, -⟩ | ⟨rfl, -⟩ <;> decide
  have htoken : isToken sep c = true := by
    rcases hc with ⟨rfl, -⟩ | ⟨rfl, -⟩ | ⟨rfl, -⟩ <;> simp [isToken]
  have hstay : ((p.mark total).take (isToken sep)).str = c :: rest := by
    simp [ArgState.take, hstr, htoken]
  have hnone : ((p.mark total).take (isToken sep)).buf.getD [] = buf := by
    simp [ArgState.take, hstr, htoken, hbuf', hbuf]
  simp only [turn, hstate, hstr, headD_cons, hspace, Bool.false_eq_true, if_false,
    unquotedEnd, hstay, hnone]
  rcases hc with ⟨rfl, rfl⟩ | ⟨rfl, rfl⟩ | ⟨rfl, rfl⟩
  · exact ⟨rfl, rfl, rfl, hlist'.trans hlist, hargs'.trans hargs⟩
  · exact ⟨rfl, rfl, rfl, hlist'.trans hlist, hargs'.trans hargs⟩
  · exact ⟨rfl, rfl, rfl, hlist'.trans hlist, hargs'.trans hargs⟩

theorem Within.opens (sep : UInt8) (total : Nat) (h : Within p .unquoted (c :: rest) buf)
    (hc : c = 39 ∧ st = .singleQuote ∨ c = 34 ∧ st = .doubleQuote ∨ c = 92 ∧ st = .backslash) :
    Within (turn sep total p) st rest buf :=
  turn_open sep total h.state h.str (by rw [h.buf]; rfl) h.list h.args hc

theorem Within.leads {st' : Quoting} {buf' : List UInt8} (h : Within p st str buf) (hstr : str ≠ [])
    (h' : Within (turn sep total p) st' rest buf') :
    ∃ p', Leads sep total p p' ∧ Within p' st' rest buf' :=
  ⟨_, .turn (h.str ▸ hstr) (.refl _), h'⟩

/-- A string in single quotes. -/
theorem leads_singleQuote (str : List UInt8)
    (h : Within p .singleQuote (escapeBody 39 str ++ 39 :: rest) buf) :
    ∃ p', Leads sep total p p' ∧ Within p' .unquoted rest (buf ++ str) := by
  induction hn : str.length using Nat.strong_induction_on generalizing str p buf with
  | _ n ih =>
  by_cases hmem : 39 ∈ str
  · -- up to the first quote, and the quote in a backslash
    obtain ⟨a, b, rfl, ha⟩ := eq_append_cons_of_mem hmem
    have hbody : escapeBody 39 (a ++ 39 :: b) ++ 39 :: rest =
        a ++ 39 :: 92 :: 39 :: 39 :: (escapeBody 39 b ++ 39 :: rest) := by
      rw [escapeBody_append, escapeBody_of_notMem ha]
      simp [escapeBody]
    rw [hbody] at h
    have hclosed := turn_singleQuote sep total h ha
    have hslash := hclosed.opens sep total (.inr (.inr ⟨rfl, rfl⟩))
    have hquote := turn_backslash sep total hslash (by decide)
      (.inl ⟨rfl, rfl⟩)
    have hopened := hquote.opens sep total (.inl ⟨rfl, rfl⟩)
    obtain ⟨p', hleads, hp'⟩ := ih b.length (by simp [← hn]; omega) b hopened rfl
    refine ⟨p', ?_, by simpa using hp'⟩
    exact .turn (by simp [h.str]) <| .turn (by simp [hclosed.str]) <|
      .turn (by simp [hslash.str]) <| .turn (by simp [hquote.str]) hleads
  · rw [escapeBody_of_notMem hmem] at h
    exact h.leads (by simp) (turn_singleQuote sep total h hmem)

/-- A string in double quotes. -/
theorem leads_doubleQuote (str : List UInt8) (hstr : 92 ∉ str)
    (h : Within p .doubleQuote (escapeBody 34 str ++ 34 :: rest) buf) :
    ∃ p', Leads sep total p p' ∧ Within p' .unquoted rest (buf ++ str) := by
  induction hn : str.length using Nat.strong_induction_on generalizing str p buf with
  | _ n ih =>
  by_cases hmem : 34 ∈ str
  · obtain ⟨a, b, rfl, ha⟩ := eq_append_cons_of_mem hmem
    rw [mem_append, mem_cons, not_or, not_or] at hstr
    have hbody : escapeBody 34 (a ++ 34 :: b) ++ 34 :: rest =
        a ++ 92 :: 34 :: (escapeBody 34 b ++ 34 :: rest) := by
      rw [escapeBody_append, escapeBody_of_notMem ha]
      simp [escapeBody]
    rw [hbody] at h
    have hslash := turn_doubleQuote sep total h ha hstr.1 (.inr ⟨rfl, rfl⟩)
    have hquote := turn_backslash sep total hslash (by decide)
      (.inr ⟨rfl, rfl⟩)
    obtain ⟨p', hleads, hp'⟩ := ih b.length (by simp [← hn]; omega) b hstr.2.2 hquote rfl
    refine ⟨p', ?_, by simpa using hp'⟩
    exact .turn (by simp [h.str]) <| .turn (by simp [hslash.str]) hleads
  · rw [escapeBody_of_notMem hmem] at h
    exact h.leads (by simp) (turn_doubleQuote sep total h hmem hstr (.inl ⟨rfl, rfl⟩))

/-- A string that has nothing for the parser to stop at. -/
theorem leads_plain (hstate : p.state = .unquoted) (hstr : p.str = str) (hbuf : p.buf = none)
    (hlist : p.list = []) (hargs : p.args = []) (hne : str ≠ [])
    (htoken : ∀ c ∈ str, isToken sep c = false) (hspace : isSpace (str.headD 0) = false) :
    ∃ p', Leads sep total p p' ∧ Within p' .unquoted [] str := by
  obtain ⟨hbuf', hlist', hargs'⟩ := mark_same total p
  have htake : str.takeWhile (fun c => !isToken sep c) = str := by
    rw [takeWhile_eq_self_iff]
    intro c hc
    simp [htoken c hc]
  have hdrop : str.dropWhile (fun c => !isToken sep c) = [] := by
    rw [dropWhile_eq_nil_iff]
    intro c hc
    simp [htoken c hc]
  have hall : ((p.mark total).take (isToken sep)).str = [] := by
    simp only [ArgState.take, mark_str, hstr, hdrop]
  have hadded : ((p.mark total).take (isToken sep)).buf = some str := by
    simp [ArgState.take, hstr, htake, hbuf', hbuf, addStr, hne]
  refine ⟨_, .turn (hstr ▸ hne) (.refl _), ?_⟩
  simp only [turn, hstate, hstr, hspace, Bool.false_eq_true, if_false, unquotedEnd, hall]
  exact ⟨(mark_state total p).trans hstate, rfl, hadded, hlist'.trans hlist,
    hargs'.trans hargs⟩

end Quotes

/-! ## The round trip -/

/-- Neither the quotes nor what is bare goes wrong. -/
def Survives (sep ref : UInt8) (str : List UInt8) : Prop :=
  ref = 39 ∨ 92 ∉ str ∧
    (ref = 34 ∨ (∃ c ∈ str, c = 10 ∨ c = 9 ∨ c = 32 ∨ c = 39 ∨ c = 34) ∨
      str ≠ [] ∧ 13 ∉ str ∧ sep ∉ str ∧ ∀ c ∈ str.head?, c ≠ 11 ∧ c ≠ 12)

theorem takeWhile_of_zero (h : 0 ∉ str) : str.takeWhile (· ≠ 0) = str := by
  rw [takeWhile_eq_self_iff]
  intro c hc
  simpa using fun heq : c = 0 => h (heq ▸ hc)

theorem zero_escapeBody (h : 0 ∉ str) :
    0 ∉ escapeBody ref str := by
  intro hmem
  obtain ⟨c, hc, hin⟩ := mem_flatMap.mp hmem
  have hne : 0 ≠ c := fun heq => h (heq ▸ hc)
  split at hin
  · split at hin <;> simp at hin
  · simp [hne] at hin

theorem zero_argpEscape (ref : UInt8) (h : 0 ∉ str) :
    0 ∉ argpEscape str ref := by
  unfold argpEscape
  rw [takeWhile_of_zero h]
  dsimp only
  split
  · exact h
  · rename_i hquote
    have hne : 0 ≠ escapeQuote str ref := by
      intro heq
      rw [← heq] at hquote
      exact hquote ⟨by decide, by decide⟩
    simp [hne, zero_escapeBody h]

/-- The quote that is taken is the one that is asked for, or a double one, or none. -/
theorem escapeQuote_cases (ref : UInt8) (str : List UInt8) :
    escapeQuote str ref = 39 ∧ ref = 39 ∨
      escapeQuote str ref = 34 ∧ ref ≠ 39 ∧
        (ref = 34 ∨ ∃ c ∈ str, c = 10 ∨ c = 9 ∨ c = 32 ∨ c = 39 ∨ c = 34) ∨
      (escapeQuote str ref ≠ 34 ∧ escapeQuote str ref ≠ 39) ∧ ref ≠ 34 ∧ ref ≠ 39 ∧
        ∀ c ∈ str, c ≠ 10 ∧ c ≠ 9 ∧ c ≠ 32 ∧ c ≠ 39 ∧ c ≠ 34 := by
  have hany : (str.any fun c => c = 10 || c = 9 || c = 32 || c = 39 || c = 34) = true ↔
      ∃ c ∈ str, c = 10 ∨ c = 9 ∨ c = 32 ∨ c = 39 ∨ c = 34 := by
    simp [or_assoc]
  unfold escapeQuote
  by_cases h39 : ref = 39
  · exact .inl (by simp [h39])
  by_cases h34 : ref = 34
  · exact .inr (.inl (by simp [h34]))
  by_cases hex : ∃ c ∈ str, c = 10 ∨ c = 9 ∨ c = 32 ∨ c = 39 ∨ c = 34
  · exact .inr (.inl ⟨if_pos ⟨h34, h39, hany.mpr hex⟩, h39, .inr hex⟩)
  · refine .inr (.inr ⟨?_, h34, h39, fun c hc => ?_⟩)
    · rw [if_neg fun h => hex (hany.mp h.2.2)]
      exact ⟨h34, h39⟩
    · simpa [not_or] using fun h => hex ⟨c, hc, h⟩

/-- What is escaped, by the quote that is taken. -/
theorem argpEscape_quoted {q : UInt8} (h : 0 ∉ str) (hq : escapeQuote str ref = q)
    (hquote : q = 39 ∨ q = 34) :
    argpEscape str ref = q :: escapeBody q str ++ [q] := by
  unfold argpEscape
  rw [takeWhile_of_zero h]
  dsimp only
  rw [hq]
  have hno : ¬ (q ≠ 34 ∧ q ≠ 39) := by
    rintro ⟨h34, h39⟩
    exact hquote.elim h39 h34
  exact if_neg hno

theorem argpEscape_bare (h : 0 ∉ str) (hq : escapeQuote str ref ≠ 34 ∧ escapeQuote str ref ≠ 39) :
    argpEscape str ref = str := by
  unfold argpEscape
  rw [takeWhile_of_zero h]
  exact if_pos hq

/-- The parser that has come to the end of the string, with the argument still to be ended. -/
theorem roundTrips_of_leads (hzero : 0 ∉ str) (hline : argpEscape str ref = line) {p' : ArgState}
    (hleads : Leads sep line.length (parseStart line) p') (hp' : Within p' .unquoted [] str) :
    RoundTrips sep ref str := by
  have hlen : (parseStart line).str.length ≤ line.length := length_dropWhile_le _ _
  have hrun : parseRun sep line = p' := parseLoop_of_leads hleads hp'.str hlen
  have hwhole : line.takeWhile (· ≠ 0) = line := by
    rw [← hline]
    exact takeWhile_of_zero (zero_argpEscape ref hzero)
  have hpush : p'.push.args = [] ∧ p'.push.list = [str] := by
    unfold ArgState.push
    rw [hp'.buf]
    exact ⟨hp'.args, by rw [hp'.list]; rfl⟩
  unfold RoundTrips ulineParseArgs
  rw [hline, hwhole, hrun]
  dsimp only
  rw [hpush.1, hpush.2, push_state, hp'.state]
  exact ⟨rfl, rfl⟩

/-- Without a separator, there is one statement. -/
theorem turn_args {total : Nat} (p : ArgState) : (turn 0 total p).args = p.args := by
  have hmark := (mark_same total p).2.2
  have hpush : ∀ q : ArgState, q.push.args = q.args := by
    intro q
    unfold ArgState.push
    split <;> rfl
  have hend : ∀ q : ArgState, (unquotedEnd 0 q).args = q.args := by
    intro q
    unfold unquotedEnd
    split
    · rfl
    · simp only [ne_eq, not_true_eq_false, false_and, if_false]
      split_ifs <;> rfl
  unfold turn
  split
  · split_ifs
    · exact hpush _
    · exact (hend _).trans hmark
  · exact hmark
  · exact hmark
  · dsimp only
    split_ifs <;> exact hmark
  · dsimp only
    split_ifs <;> exact hmark

theorem parseLoop_args {total n : Nat} (p : ArgState) :
    (parseLoop 0 total n p).args = p.args := by
  induction n generalizing p with
  | zero => rfl
  | succ n ih =>
    rw [parseLoop]
    split
    · rfl
    · rw [ih, turn_args]

/-- What is parsed back comes from a run over the escaped string. -/
theorem runs_of_roundTrips (hzero : 0 ∉ str) (hline : argpEscape str ref = line)
    (h : RoundTrips sep ref str) :
    Runs sep .unquoted (line.dropWhile isSpace) str .unquoted := by
  obtain ⟨hargs, hmissing⟩ := h
  have hwhole : line.takeWhile (· ≠ 0) = line := by
    rw [← hline]
    exact takeWhile_of_zero (zero_argpEscape ref hzero)
  simp only [ulineParseArgs, hline, hwhole, push_state] at hargs hmissing
  have hlen : (parseStart line).str.length ≤ line.length := length_dropWhile_le _ _
  obtain ⟨-, out, hout, hruns⟩ := parseLoop_runs sep line.length hlen
  have hstate : (parseRun sep line).state = .unquoted := by
    cases hst : (parseRun sep line).state <;> simp [hst, stateStr] at hmissing ⊢
  have hnone : (parseRun sep line).push.buf = none := by
    unfold ArgState.push
    split <;> simp [*]
  have hend : (parseRun sep line).push.out = str := by
    unfold ArgState.out
    rw [hnone]
    by_cases hsep : sep = 0
    · subst hsep
      have hone : (parseRun 0 line).push.args = [] := by
        have hpush : (parseRun 0 line).push.args = (parseRun 0 line).args := by
          unfold ArgState.push
          split <;> rfl
        exact hpush.trans (parseLoop_args (parseStart line))
      simp only [if_true, Args.plain.injEq] at hargs
      simp [hone, hargs]
    · simp only [hsep, if_false, Args.statements.injEq] at hargs
      have hflat := congrArg flatten hargs
      rw [flatten_append] at hflat
      simp only [flatten_cons, flatten_nil, append_nil] at hflat
      simp [hflat]
  have hstr : out = str := by
    rw [← hend, out_push]
    exact hout.symm
  have hfinal : (parseLoop sep line.length line.length (parseStart line)).state = .unquoted :=
    hstate
  rw [hfinal, hstr] at hruns
  exact hruns

theorem count_escapeBody (str : List UInt8) :
    (escapeBody 34 str).count 39 = str.count 39 ∧
      (escapeBody 34 str).count 92 = str.count 92 + str.count 34 := by
  induction str with
  | nil => exact ⟨rfl, rfl⟩
  | cons c str ih =>
    have hbody : escapeBody 34 (c :: str) = escapeBody 34 [c] ++ escapeBody 34 str :=
      escapeBody_append 34 [c] str
    rw [hbody, count_append, count_append, ih.1, ih.2]
    by_cases h34 : c = 34
    · subst h34
      simp [escapeBody]
      omega
    · by_cases h92 : c = 92
      · subst h92
        simp [escapeBody]
        omega
      · simp [escapeBody, h34, h92, count_cons]
        omega

/-- The quote that a line starts with. -/
theorem start_opens (sep : UInt8) {c : UInt8} {rest : List UInt8} {st : Quoting}
    (hline : line = c :: rest) (hc : c = 39 ∧ st = .singleQuote ∨ c = 34 ∧ st = .doubleQuote) :
    (parseStart line).str = line ∧
      Within (turn sep line.length (parseStart line)) st rest [] := by
  have hspace : ¬ isSpace c = true := by
    rcases hc with ⟨rfl, -⟩ | ⟨rfl, -⟩ <;> decide
  have hstart : (parseStart line).str = line := by
    rw [hline]
    exact dropWhile_cons_of_neg hspace
  refine ⟨hstart, turn_open sep _ rfl (hstart.trans hline) rfl rfl rfl ?_⟩
  rcases hc with hc | hc
  · exact .inl hc
  · exact .inr (.inl hc)

/-- Single quotes: always. -/
theorem roundTrips_singleQuote (sep : UInt8) (h : 0 ∉ str) (hq : escapeQuote str ref = 39) :
    RoundTrips sep ref str := by
  have hline := argpEscape_quoted h hq (.inl rfl)
  obtain ⟨hstart, hopened⟩ := start_opens sep hline (.inl ⟨rfl, rfl⟩)
  obtain ⟨p', hleads, hp'⟩ := leads_singleQuote str hopened
  refine roundTrips_of_leads h rfl (.turn ?_ hleads) hp'
  rw [hstart, hline]
  exact cons_ne_nil _ _

/-- Double quotes: as long as there is no backslash. -/
theorem roundTrips_doubleQuote (sep : UInt8) (h : 0 ∉ str) (hq : escapeQuote str ref = 34) :
    RoundTrips sep ref str ↔ 92 ∉ str := by
  have hline := argpEscape_quoted h hq (.inr rfl)
  obtain ⟨hstart, hopened⟩ := start_opens sep hline (.inr ⟨rfl, rfl⟩)
  constructor
  · intro hround
    have hruns := runs_of_roundTrips h rfl hround
    obtain ⟨h39, h92⟩ := count_escapeBody str
    have hdrop : (argpEscape str ref).dropWhile isSpace = 34 :: escapeBody 34 str ++ [34] :=
      hstart.trans hline
    rw [hdrop] at hruns
    have hweight := hruns.weight (by decide)
    simp [pending, h39, h92] at hweight
    exact count_eq_zero.mp (by omega)
  · intro hstr
    obtain ⟨p', hleads, hp'⟩ := leads_doubleQuote str hstr hopened
    refine roundTrips_of_leads h rfl (.turn ?_ hleads) hp'
    rw [hstart, hline]
    exact cons_ne_nil _ _

/-- A bare string is parsed as it is. -/
theorem roundTrips_bare (sep : UInt8) (h : 0 ∉ str)
    (hq : escapeQuote str ref ≠ 34 ∧ escapeQuote str ref ≠ 39)
    (hplain : ∀ c ∈ str, c ≠ 10 ∧ c ≠ 9 ∧ c ≠ 32 ∧ c ≠ 39 ∧ c ≠ 34) :
    RoundTrips sep ref str ↔
      str ≠ [] ∧ (∀ c ∈ str, isToken sep c = false) ∧ isSpace (str.headD 0) = false := by
  have hline := argpEscape_bare h hq
  constructor
  · intro hround
    have hne : str ≠ [] := by
      rintro rfl
      have hargs := hround.1
      simp only [ulineParseArgs, hline] at hargs
      split at hargs <;> simp [parseRun, parseLoop, parseStart, ArgState.push] at hargs
    have hruns := runs_of_roundTrips h hline hround
    -- no byte is lost, so none is dropped at the start
    have hdrop : str.dropWhile isSpace = str :=
      (dropWhile_sublist _).eq_of_length_le hruns.sublist.length_le
    rw [hdrop] at hruns
    have h39 : 39 ∉ str := fun hmem => (hplain 39 hmem).2.2.2.1 rfl
    have h92 : 92 ∉ str := by
      have hweight := hruns.weight (by decide)
      simp only [pending] at hweight
      exact count_eq_zero.mp (by omega)
    refine ⟨hne, hruns.no_token rfl fun c hc => ⟨?_, ?_, ?_⟩, ?_⟩
    · exact (hplain c hc).2.2.2.1
    · exact (hplain c hc).2.2.2.2
    · exact fun heq => h92 (heq ▸ hc)
    · obtain ⟨c, rest, rfl⟩ := exists_cons_of_ne_nil hne
      simpa using hdrop
  · rintro ⟨hne, htoken, hspace⟩
    have hdrop : str.dropWhile isSpace = str := by
      obtain ⟨c, rest, rfl⟩ := exists_cons_of_ne_nil hne
      exact dropWhile_cons_of_neg (by simpa using hspace)
    obtain ⟨p', hleads, hp'⟩ :=
      leads_plain (p := parseStart str) rfl hdrop rfl rfl rfl hne htoken hspace
    exact roundTrips_of_leads h hline hleads hp'

theorem isToken_bare {c : UInt8} (hzero : c ≠ 0)
    (hplain : c ≠ 10 ∧ c ≠ 9 ∧ c ≠ 32 ∧ c ≠ 39 ∧ c ≠ 34) :
    isToken sep c = false ↔ c ≠ 92 ∧ c ≠ 13 ∧ c ≠ sep := by
  obtain ⟨h10, h9, h32, h39, h34⟩ := hplain
  have hsep : sep = 0 → c ≠ sep := fun heq => heq ▸ hzero
  simp only [isToken, h10, h9, h32, h39, h34, decide_false, Bool.false_or, Bool.or_false,
    Bool.or_eq_false_iff, Bool.and_eq_false_iff, decide_eq_false_iff_not, ne_eq, not_not]
  tauto

theorem isSpace_bare {c : UInt8} (h13 : c ≠ 13)
    (hplain : c ≠ 10 ∧ c ≠ 9 ∧ c ≠ 32 ∧ c ≠ 39 ∧ c ≠ 34) :
    isSpace c = false ↔ c ≠ 11 ∧ c ≠ 12 := by
  obtain ⟨h10, h9, h32, -, -⟩ := hplain
  simp only [isSpace, h32, decide_false, Bool.false_or, Bool.and_eq_false_iff,
    decide_eq_false_iff_not, UInt8.le_iff_toNat_le, ne_eq, ← UInt8.toNat_inj] at *
  simp only [UInt8.reduceToNat] at *
  omega

/-- The parser gives the string back exactly if it is put in single quotes, or has no backslash
    and is put in double quotes or has nothing to quote. -/
theorem escape_parse_iff (sep ref : UInt8) {str : List UInt8} (h : 0 ∉ str) :
    RoundTrips sep ref str ↔ Survives sep ref str := by
  unfold Survives
  rcases escapeQuote_cases ref str with ⟨hq, href⟩ | ⟨hq, href, hquote⟩ | ⟨hq, h34, h39, hplain⟩
  · exact ⟨fun _ => .inl href, fun _ => roundTrips_singleQuote sep h hq⟩
  · rw [roundTrips_doubleQuote sep h hq]
    constructor
    · intro h92
      exact .inr ⟨h92, hquote.imp_right .inl⟩
    · rintro (heq | hsurvives)
      · exact absurd heq href
      · exact hsurvives.1
  · rw [roundTrips_bare sep h hq hplain]
    have hnone : ¬ ∃ c ∈ str, c = 10 ∨ c = 9 ∨ c = 32 ∨ c = 39 ∨ c = 34 := by
      rintro ⟨c, hc, heq⟩
      obtain ⟨h10, h9, h32, h39', h34'⟩ := hplain c hc
      exact heq.elim h10 fun heq => heq.elim h9 fun heq => heq.elim h32 fun heq =>
        heq.elim h39' h34'
    simp only [h39, h34, hnone, false_or]
    constructor
    · rintro ⟨hne, htoken, hspace⟩
      have hfree : ∀ c ∈ str, c ≠ 92 ∧ c ≠ 13 ∧ c ≠ sep := fun c hc =>
        (isToken_bare (fun heq => h (heq ▸ hc)) (hplain c hc)).mp (htoken c hc)
      refine ⟨fun hc => (hfree _ hc).1 rfl, hne, fun hc => (hfree _ hc).2.1 rfl,
        fun hc => (hfree _ hc).2.2 rfl, fun c hhead => ?_⟩
      have hc : c ∈ str := mem_of_mem_head? hhead
      refine (isSpace_bare (hfree c hc).2.1 (hplain c hc)).mp ?_
      simpa [headD_eq_head?_getD, Option.mem_def.mp hhead] using hspace
    · rintro ⟨h92, hne, h13, hsep, hhead⟩
      refine ⟨hne, fun c hc => ?_, ?_⟩
      · refine (isToken_bare (fun heq => h (heq ▸ hc)) (hplain c hc)).mpr ⟨?_, ?_, ?_⟩
        · exact fun heq => h92 (heq ▸ hc)
        · exact fun heq => h13 (heq ▸ hc)
        · exact fun heq => hsep (heq ▸ hc)
      · obtain ⟨c, rest, rfl⟩ := exists_cons_of_ne_nil hne
        have hc : c ∈ c :: rest := mem_cons_self
        exact (isSpace_bare (fun heq => h13 (heq ▸ hc)) (hplain c hc)).mpr (hhead c rfl)

/-- `it's` is put in double quotes. -/
theorem escape_parse_quotes :
    (0 : UInt8) ∉ [105, 116, 39, 115] ∧ RoundTrips 59 0 [105, 116, 39, 115] := by
  have hquote : Survives 59 0 [105, 116, 39, 115] :=
    .inr ⟨by decide, .inr (.inl ⟨39, by decide, by decide⟩)⟩
  exact ⟨by decide, (escape_parse_iff 59 0 (by decide)).mpr hquote⟩

/-- A backslash is not escaped. -/
theorem escape_parse_fails : ¬ RoundTrips 0 0 [97, 92, 98] := by decide

end LibWrt.Uline
