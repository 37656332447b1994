/-
LibWrt.Uline.ArgParser — splitting a command line into arguments.

The parser goes over the line in turns: blanks, a run of plain bytes with the
byte that ends it, one byte behind a backslash, or a quoted run. Each turn
takes at least one byte, so the loop ends (`parseLoop_runs`).

What the line's bytes become is counted. An argument has no byte that the
line has not (`Runs.sublist`), and outside of single quotes a backslash or a
double quote of an argument has cost a backslash of the line
(`Runs.weight`).
-/
import LibWrt.Uline.Linebuf
import Mathlib.Data.List.TakeWhile

namespace LibWrt.Uline

open List

/-! ## The parser -/

inductive Quoting where
  | unquoted
  | backslash
  | singleQuote
  | doubleQuote
  | doubleQuoteBackslash
  deriving DecidableEq

/-- The locals of `uc_uline_parse_args`. -/
structure ArgState where
  state : Quoting
  str : List UInt8
  buf : Option (List UInt8)
  list : List (List UInt8)
  posList : List (Int × Int)
  /-- The statements before this one, with their positions. -/
  args : List (List (List UInt8))
  posArgs : List (List (Int × Int))
  startIdx : Int
  endIdx : Int
  deriving DecidableEq

/-- `add_str` -/
def addStr (buf : Option (List UInt8)) (chunk : List UInt8) : Option (List UInt8) :=
  if chunk = [] then buf else some (buf.getD [] ++ chunk)

/-- `unquote_tok` -/
def isToken (sep c : UInt8) : Bool :=
  c = 32 || c = 9 || c = 13 || c = 10 || c = 39 || c = 34 || c = 92 || (sep ≠ 0 && c = sep)

/-- `str - start` in a line of so many bytes. -/
def ArgState.idx (total : Nat) (p : ArgState) : Int := total - p.str.length

def ArgState.push (p : ArgState) : ArgState :=
  match p.buf with
  | none => p
  | some buf =>
    { p with list := p.list ++ [buf], posList := p.posList ++ [(p.startIdx, p.endIdx)]
             startIdx := -1, buf := none }

def ArgState.nextStatement (p : ArgState) : ArgState :=
  { p with args := p.args ++ [p.list], list := []
           posArgs := p.posArgs ++ [p.posList], posList := [] }

/-- The argument starts here, if it has not. -/
def ArgState.mark (total : Nat) (p : ArgState) : ArgState :=
  if p.startIdx < 0 then { p with startIdx := p.idx total } else p

def ArgState.take (stop : UInt8 → Bool) (p : ArgState) : ArgState :=
  { p with buf := addStr p.buf (p.str.takeWhile fun c => !stop c)
           str := p.str.dropWhile fun c => !stop c }

def ArgState.enter (state : Quoting) (p : ArgState) : ArgState :=
  { p with state, str := p.str.tail }

/-- What an unquoted run ends with. -/
def unquotedEnd (sep : UInt8) (p : ArgState) : ArgState :=
  match p.str with
  | [] => p
  | c :: rest =>
    if c = 39 then { p with state := .singleQuote, buf := some (p.buf.getD []), str := rest }
    else if c = 34 then { p with state := .doubleQuote, buf := some (p.buf.getD []), str := rest }
    else if c = 92 then { p with state := .backslash, buf := some (p.buf.getD []), str := rest }
    else if sep ≠ 0 ∧ c = sep then ({ p with str := rest }.push).nextStatement
    else p

def turn (sep : UInt8) (total : Nat) (p : ArgState) : ArgState :=
  match p.state with
  | .unquoted =>
    if isSpace (p.str.headD 0) then { p with str := p.str.dropWhile isSpace }.push
    else
      let p := (p.mark total).take (isToken sep)
      unquotedEnd sep { p with endIdx := p.idx total }
  | .backslash | .doubleQuoteBackslash =>
    let p := p.mark total
    let c := p.str.headD 0
    let back := if p.state = .backslash then Quoting.unquoted else .doubleQuote
    let p := { p with buf := if c = 10 then p.buf else addStr p.buf [c] }.enter back
    { p with endIdx := p.idx total }
  | .singleQuote =>
    let p := (p.mark total).take (· = 39)
    let p := if p.str.head? = some 39 then p.enter .unquoted else p
    { p with endIdx := p.idx total }
  | .doubleQuote =>
    let p := (p.mark total).take fun c => c = 34 || c = 92
    let p :=
      if p.str.head? = some 34 then p.enter .unquoted
      else if p.str.head? = some 92 then p.enter .doubleQuoteBackslash
      else p
    { p with endIdx := p.idx total }

def parseLoop (sep : UInt8) (total : Nat) : Nat → ArgState → ArgState
  | 0, p => p
  | n + 1, p => if p.str = [] then p else parseLoop sep total n (turn sep total p)

/-- `args`: the list itself where there is no separator for statements. -/
inductive Args where
  | plain (list : List (List UInt8))
  | statements (lists : List (List (List UInt8)))
  deriving DecidableEq

/-- The result; `missing` is what the line would have to go on with. -/
structure Parsed where
  args : Args
  pos : List (List (Int × Int))
  missing : Option (List UInt8)
  deriving DecidableEq

/-- `state_str` -/
def stateStr : Quoting → Option (List UInt8)
  | .unquoted => none
  | .backslash => some [92]
  | .singleQuote => some [39]
  | .doubleQuote => some [34]
  | .doubleQuoteBackslash => some [92, 34]

def parseStart (line : List UInt8) : ArgState where
  state := .unquoted
  str := line.dropWhile isSpace
  buf := none
  list := []
  posList := []
  args := []
  posArgs := []
  startIdx := -1
  endIdx := 0

def parseRun (sep : UInt8) (line : List UInt8) : ArgState :=
  parseLoop sep line.length line.length (parseStart line)

/-- `uc_uline_parse_args` that does not only check, with the line separator or 0; the string
    ends at its terminator. -/
def ulineParseArgs (sep : UInt8) (str : List UInt8) : Parsed :=
  let p := (parseRun sep (str.takeWhile (· ≠ 0))).push
  { args := if sep = 0 then .plain p.list else .statements (p.args ++ [p.list])
    pos := p.posArgs ++ [p.posList]
    missing := stateStr p.state }

/-! ## What a turn does -/

/-- What the arguments hold so far. -/
def ArgState.out (p : ArgState) : List UInt8 :=
  (p.args.flatten ++ p.list).flatten ++ p.buf.getD []

@[simp] theorem out_push (p : ArgState) : p.push.out = p.out := by
  unfold ArgState.push
  split
  · rfl
  · rename_i buf hbuf
    simp [ArgState.out, hbuf]

@[simp] theorem push_str (p : ArgState) : p.push.str = p.str := by
  unfold ArgState.push
  split <;> rfl

@[simp] theorem push_state (p : ArgState) : p.push.state = p.state := by
  unfold ArgState.push
  split <;> rfl

@[simp] theorem out_nextStatement (p : ArgState) : p.nextStatement.out = p.out := by
  simp [ArgState.out, ArgState.nextStatement]

@[simp] theorem getD_addStr (buf : Option (List UInt8)) (chunk : List UInt8) :
    (addStr buf chunk).getD [] = buf.getD [] ++ chunk := by
  unfold addStr
  split <;> simp [*]

/-- Between two states, the bytes of the line that are taken and those that an argument gets. -/
inductive Turns (sep : UInt8) : Quoting → List UInt8 → List UInt8 → Quoting → Prop where
  | blanks {eaten : List UInt8} (h : ∀ c ∈ eaten, isSpace c) :
      Turns sep .unquoted eaten [] .unquoted
  | plain {chunk : List UInt8} (h : ∀ c ∈ chunk, isToken sep c = false) :
      Turns sep .unquoted chunk chunk .unquoted
  | single {chunk : List UInt8} (h : ∀ c ∈ chunk, isToken sep c = false) :
      Turns sep .unquoted (chunk ++ [39]) chunk .singleQuote
  | double {chunk : List UInt8} (h : ∀ c ∈ chunk, isToken sep c = false) :
      Turns sep .unquoted (chunk ++ [34]) chunk .doubleQuote
  | escape {chunk : List UInt8} (h : ∀ c ∈ chunk, isToken sep c = false) :
      Turns sep .unquoted (chunk ++ [92]) chunk .backslash
  | separate {chunk : List UInt8} (h : ∀ c ∈ chunk, isToken sep c = false) :
      Turns sep .unquoted (chunk ++ [sep]) chunk .unquoted
  | escaped (c : UInt8) : Turns sep .backslash [c] (if c = 10 then [] else [c]) .unquoted
  | escapedDouble (c : UInt8) :
      Turns sep .doubleQuoteBackslash [c] (if c = 10 then [] else [c]) .doubleQuote
  | inSingle (chunk : List UInt8) : Turns sep .singleQuote chunk chunk .singleQuote
  | endSingle (chunk : List UInt8) : Turns sep .singleQuote (chunk ++ [39]) chunk .unquoted
  | inDouble {chunk : List UInt8} (h : ∀ c ∈ chunk, c ≠ 34 ∧ c ≠ 92) :
      Turns sep .doubleQuote chunk chunk .doubleQuote
  | endDouble {chunk : List UInt8} (h : ∀ c ∈ chunk, c ≠ 34 ∧ c ≠ 92) :
      Turns sep .doubleQuote (chunk ++ [34]) chunk .unquoted
  | escapeDouble {chunk : List UInt8} (h : ∀ c ∈ chunk, c ≠ 34 ∧ c ≠ 92) :
      Turns sep .doubleQuote (chunk ++ [92]) chunk .doubleQuoteBackslash

/-- A turn takes something, and does one of these. -/
def Takes (sep : UInt8) (p p' : ArgState) : Prop :=
  ∃ eaten added, eaten ≠ [] ∧ p.str = eaten ++ p'.str ∧ p'.out = p.out ++ added ∧
    Turns sep p.state eaten added p'.state

/-- A run of bytes that do not stop, and what is behind it. -/
theorem take_spec (stop : UInt8 → Bool) (p : ArgState) : ∃ chunk,
    (∀ c ∈ chunk, stop c = false) ∧ p.str = chunk ++ (p.take stop).str ∧
      (p.take stop).out = p.out ++ chunk ∧ (p.take stop).state = p.state ∧
      (∀ c ∈ (p.take stop).str.head?, stop c = true) := by
  refine ⟨p.str.takeWhile fun c => !stop c, ?_, ?_, ?_, rfl, ?_⟩
  · intro c hc
    simpa using mem_takeWhile_imp hc
  · exact takeWhile_append_dropWhile.symm
  · simp [ArgState.take, ArgState.out]
  · intro c hc
    have hhead := head?_dropWhile_not (fun c => !stop c) p.str
    change c ∈ (p.str.dropWhile fun c => !stop c).head? at hc
    rw [Option.mem_def.mp hc] at hhead
    simpa using hhead

@[simp] theorem out_mark (total : Nat) (p : ArgState) : (p.mark total).out = p.out := by
  unfold ArgState.mark
  split <;> rfl

@[simp] theorem mark_str (total : Nat) (p : ArgState) : (p.mark total).str = p.str := by
  unfold ArgState.mark
  split <;> rfl

@[simp] theorem mark_state (total : Nat) (p : ArgState) : (p.mark total).state = p.state := by
  unfold ArgState.mark
  split <;> rfl

variable {sep : UInt8} {p : ArgState} {total : Nat}

/-- A token that is no quote, backslash or separator is a blank. -/
theorem isSpace_of_isToken {c : UInt8} (h : isToken sep c = true) (h39 : c ≠ 39) (h34 : c ≠ 34)
    (h92 : c ≠ 92) (hsep : ¬ (sep ≠ 0 ∧ c = sep)) : isSpace c = true := by
  have hblank : c = 32 ∨ c = 9 ∨ c = 13 ∨ c = 10 := by
    simp only [isToken, Bool.or_eq_true, decide_eq_true_eq, Bool.and_eq_true] at h
    tauto
  rcases hblank with rfl | rfl | rfl | rfl <;> decide

theorem takes_unquotedEnd {q : ArgState} {chunk : List UInt8} (hstate : p.state = .unquoted)
    (hstr : p.str ≠ []) (hspace : ¬ isSpace (p.str.headD 0) = true)
    (hchunk : ∀ c ∈ chunk, isToken sep c = false) (hsplit : p.str = chunk ++ q.str)
    (hout : q.out = p.out ++ chunk) (hsame : q.state = p.state)
    (hhead : ∀ c ∈ q.str.head?, isToken sep c = true) : Takes sep p (unquotedEnd sep q) := by
  unfold unquotedEnd Takes
  rw [hstate]
  cases hq : q.str with
  | nil =>
    have hall : p.str = chunk := by simpa [hq] using hsplit
    exact ⟨chunk, chunk, hall ▸ hstr, by rw [hq, append_nil]; exact hall, hout,
      by rw [hsame, hstate]; exact .plain hchunk⟩
  | cons c rest =>
    have htoken : isToken sep c = true := hhead c (by simp [hq])
    have hpast : p.str = (chunk ++ [c]) ++ rest := by simp [hsplit, hq]
    have hne : chunk ++ [c] ≠ [] := by simp
    have hbuf : ∀ (st : Quoting) (q' : ArgState),
        q' = { q with state := st, buf := some (q.buf.getD []), str := rest } →
        q'.out = p.out ++ chunk := by
      rintro st q' rfl
      rw [← hout]
      rfl
    dsimp only
    split
    · rename_i h39
      exact ⟨_, chunk, hne, hpast, hbuf _ _ rfl, h39 ▸ .single hchunk⟩
    · rename_i h39
      split
      · rename_i h34
        exact ⟨_, chunk, hne, hpast, hbuf _ _ rfl, h34 ▸ .double hchunk⟩
      · rename_i h34
        split
        · rename_i h92
          exact ⟨_, chunk, hne, hpast, hbuf _ _ rfl, h92 ▸ .escape hchunk⟩
        · rename_i h92
          split
          · rename_i hsep
            refine ⟨_, chunk, hne, ?_, ?_, ?_⟩
            · rw [hpast]
              exact congrArg _ (push_str { q with str := rest }).symm
            · rw [out_nextStatement, out_push, ← hout]
              rfl
            · have hst : ({ q with str := rest }.push.nextStatement).state = .unquoted :=
                (push_state _).trans (hsame.trans hstate)
              rw [hst, hsep.2]
              exact .separate hchunk
          · rename_i hsep
            -- the run is not empty, as a blank would have been taken before
            have hchunkne : chunk ≠ [] := by
              rintro rfl
              apply hspace
              rw [hsplit, hq]
              exact isSpace_of_isToken htoken h39 h34 h92 hsep
            exact ⟨chunk, chunk, hchunkne, hsplit, hout, by rw [hsame, hstate]; exact .plain hchunk⟩

/-- The byte behind a backslash. -/
theorem takes_escaped (hstate : p.state = .backslash ∨ p.state = .doubleQuoteBackslash)
    (hstr : p.str ≠ []) :
    Takes sep p (turn sep total p) := by
  obtain ⟨c, rest, hcons⟩ := exists_cons_of_ne_nil hstr
  have hhead : p.str.headD 0 = c := by rw [hcons]; rfl
  have htail : p.str.tail = rest := by rw [hcons]; rfl
  have hout : ∀ q : ArgState, q.args = p.args → q.list = p.list →
      q.buf = (if c = 10 then p.buf else addStr p.buf [c]) →
      q.out = p.out ++ if c = 10 then [] else [c] := by
    intro q hargs hlist hbuf
    simp only [ArgState.out, hargs, hlist, hbuf]
    split <;> simp
  have hmark : (p.mark total).args = p.args ∧ (p.mark total).list = p.list ∧
      (p.mark total).buf = p.buf := by
    unfold ArgState.mark
    split <;> exact ⟨rfl, rfl, rfl⟩
  refine ⟨[c], if c = 10 then [] else [c], cons_ne_nil _ _, ?_, ?_, ?_⟩
  · rcases hstate with hstate | hstate <;>
      simp [turn, hstate, ArgState.enter, hcons]
  · rcases hstate with hstate | hstate <;>
      exact hout _ (by simp [turn, hstate, ArgState.enter, hmark])
        (by simp [turn, hstate, ArgState.enter, hmark])
        (by simp [turn, hstate, ArgState.enter, hmark, hcons])
  · rcases hstate with hstate | hstate
    · rw [hstate]
      simp only [turn, hstate, ArgState.enter, mark_state, if_true]
      exact .escaped c
    · rw [hstate]
      simp only [turn, hstate, ArgState.enter, mark_state, reduceCtorEq, if_false]
      exact .escapedDouble c

/-- A turn between single quotes. -/
theorem takes_singleQuote (hstate : p.state = .singleQuote) (hstr : p.str ≠ []) :
    Takes sep p (turn sep total p) := by
  obtain ⟨chunk, hchunk, hsplit, hout, hsame, hhead⟩ := take_spec (· = 39) (p.mark total)
  rw [mark_str] at hsplit
  rw [out_mark] at hout
  rw [mark_state, hstate] at hsame
  unfold Takes
  rw [hstate]
  simp only [turn, hstate]
  cases hq : ((p.mark total).take (· = 39)).str with
  | nil =>
    have hall : p.str = chunk := by simpa [hq] using hsplit
    simp only [head?_nil, reduceCtorEq, if_false]
    exact ⟨chunk, chunk, hall ▸ hstr, by rw [hq, append_nil]; exact hall, hout,
      hsame.symm.rec (.inSingle chunk)⟩
  | cons c rest =>
    have hc : c = 39 := by simpa using hhead c (by rw [hq]; rfl)
    subst hc
    simp only [head?_cons, if_true]
    refine ⟨chunk ++ [39], chunk, by simp, ?_, hout, .endSingle chunk⟩
    simp [ArgState.enter, hsplit, hq]

/-- A turn between double quotes. -/
theorem takes_doubleQuote (hstate : p.state = .doubleQuote) (hstr : p.str ≠ []) :
    Takes sep p (turn sep total p) := by
  obtain ⟨chunk, hchunk, hsplit, hout, hsame, hhead⟩ :=
    take_spec (fun c => c = 34 || c = 92) (p.mark total)
  have hplain : ∀ c ∈ chunk, c ≠ 34 ∧ c ≠ 92 := fun c hc => by simpa using hchunk c hc
  rw [mark_str] at hsplit
  rw [out_mark] at hout
  rw [mark_state, hstate] at hsame
  unfold Takes
  rw [hstate]
  simp only [turn, hstate]
  cases hq : ((p.mark total).take fun c => c = 34 || c = 92).str with
  | nil =>
    have hall : p.str = chunk := by simpa [hq] using hsplit
    simp only [head?_nil, reduceCtorEq, if_false]
    exact ⟨chunk, chunk, hall ▸ hstr, by rw [hq, append_nil]; exact hall, hout,
      hsame.symm.rec (.inDouble hplain)⟩
  | cons c rest =>
    have hc : c = 34 ∨ c = 92 := by simpa using hhead c (by rw [hq]; rfl)
    rcases hc with rfl | rfl
    · simp only [head?_cons, if_true]
      refine ⟨chunk ++ [34], chunk, by simp, ?_, hout, .endDouble hplain⟩
      simp [ArgState.enter, hsplit, hq]
    · have hno : (some (92 : UInt8) = some 34) = False := by simp
      simp only [head?_cons, hno, if_false, if_true]
      refine ⟨chunk ++ [92], chunk, by simp, ?_, hout, .escapeDouble hplain⟩
      simp [ArgState.enter, hsplit, hq]

/-- Every turn takes something. -/
theorem takes_turn (sep : UInt8) (total : Nat) (hstr : p.str ≠ []) :
    Takes sep p (turn sep total p) := by
  obtain ⟨c, rest, hcons⟩ := exists_cons_of_ne_nil hstr
  cases hstate : p.state with
  | unquoted =>
    by_cases hspace : isSpace (p.str.headD 0) = true
    · have hturn : turn sep total p = { p with str := p.str.dropWhile isSpace }.push := by
        simp only [turn, hstate, hspace, if_true]
      rw [hturn]
      refine ⟨p.str.takeWhile isSpace, [], ?_, ?_, ?_, ?_⟩
      · rw [hcons, headD_cons] at hspace
        simp [hcons, hspace]
      · rw [push_str]
        exact takeWhile_append_dropWhile.symm
      · rw [out_push, append_nil]
        rfl
      · rw [push_state, hstate]
        exact .blanks fun c hc => mem_takeWhile_imp hc
    · have hturn : turn sep total p =
          unquotedEnd sep { (p.mark total).take (isToken sep) with
            endIdx := ((p.mark total).take (isToken sep)).idx total } := by
        simp only [turn, hstate, hspace, Bool.false_eq_true, if_false]
      obtain ⟨chunk, hchunk, hsplit, hout, hsame, hhead⟩ := take_spec (isToken sep) (p.mark total)
      rw [hturn]
      rw [mark_str] at hsplit
      rw [out_mark] at hout
      rw [mark_state] at hsame
      exact takes_unquotedEnd hstate hstr hspace hchunk hsplit hout hsame hhead
  | backslash => exact takes_escaped (.inl hstate) hstr
  | doubleQuoteBackslash => exact takes_escaped (.inr hstate) hstr
  | singleQuote => exact takes_singleQuote hstate hstr
  | doubleQuote => exact takes_doubleQuote hstate hstr

/-! ## What the loop does -/

inductive Runs (sep : UInt8) : Quoting → List UInt8 → List UInt8 → Quoting → Prop where
  | nil (st : Quoting) : Runs sep st [] [] st
  | cons {st st' st'' : Quoting} {eaten added line out : List UInt8}
      (hturn : Turns sep st eaten added st') (hrest : Runs sep st' line out st'') :
      Runs sep st (eaten ++ line) (added ++ out) st''

/-- The loop ends, with what the turns over the line add. -/
theorem parseLoop_runs (sep : UInt8) (total : Nat) {n : Nat} (h : p.str.length ≤ n) :
    (parseLoop sep total n p).str = [] ∧ ∃ out, (parseLoop sep total n p).out = p.out ++ out ∧
      Runs sep p.state p.str out (parseLoop sep total n p).state := by
  induction n generalizing p with
  | zero =>
    have hnil : p.str = [] := length_eq_zero_iff.mp (Nat.le_zero.mp h)
    refine ⟨hnil, [], by simp [parseLoop], ?_⟩
    rw [hnil]
    exact .nil _
  | succ n ih =>
    rw [parseLoop]
    split
    · rename_i hnil
      refine ⟨hnil, [], by simp, ?_⟩
      rw [hnil]
      exact .nil _
    · rename_i hstr
      obtain ⟨eaten, added, hne, hsplit, hout, hturn⟩ := takes_turn sep total hstr
      have hpos := length_pos_iff.mpr hne
      have hlen : (turn sep total p).str.length ≤ n := by
        rw [hsplit, length_append] at h
        omega
      obtain ⟨hend, out, hrest, hruns⟩ := ih hlen
      refine ⟨hend, added ++ out, ?_, ?_⟩
      · rw [hrest, hout, append_assoc]
      · rw [hsplit]
        exact .cons hturn hruns

section Count

variable {sep : UInt8} {st st' : Quoting} {line out : List UInt8}

/-- What is added was eaten. -/
theorem Turns.sublist (h : Turns sep st line out st') : out.Sublist line := by
  cases h with
  | blanks => exact nil_sublist _
  | plain | inSingle | inDouble => exact List.Sublist.refl _
  | single | double | escape | separate | endSingle | endDouble | escapeDouble =>
    exact sublist_append_left _ _
  | escaped c | escapedDouble c =>
    split
    · exact nil_sublist _
    · exact List.Sublist.refl _

theorem Runs.sublist (h : Runs sep st line out st') : out.Sublist line := by
  induction h with
  | nil => exact List.Sublist.refl _
  | cons hturn _ ih => exact hturn.sublist.append ih

/-- A backslash whose byte is still to come. -/
def pending : Quoting → Nat
  | .backslash | .doubleQuoteBackslash => 1
  | _ => 0

/-- A turn that does not come to single quotes pays a backslash for a backslash or a double
    quote, and one more for a backslash. -/
theorem Turns.weight (h : Turns sep st line out st') (hst : st ≠ .singleQuote) :
    (st' = .singleQuote ∧ out.count 39 < line.count 39) ∨
      (st' ≠ .singleQuote ∧
        2 * out.count 92 + out.count 34 + pending st' ≤ line.count 92 + pending st) := by
  have hplain : ∀ chunk : List UInt8, (∀ c ∈ chunk, isToken sep c = false) →
      chunk.count 92 = 0 ∧ chunk.count 34 = 0 := by
    intro chunk hchunk
    refine ⟨count_eq_zero.mpr fun hmem => ?_, count_eq_zero.mpr fun hmem => ?_⟩
    · exact absurd (hchunk _ hmem) (by simp [isToken])
    · exact absurd (hchunk _ hmem) (by simp [isToken])
  have hquoted : ∀ chunk : List UInt8, (∀ c ∈ chunk, c ≠ 34 ∧ c ≠ 92) →
      chunk.count 92 = 0 ∧ chunk.count 34 = 0 := by
    intro chunk hchunk
    exact ⟨count_eq_zero.mpr fun hmem => (hchunk _ hmem).2 rfl,
      count_eq_zero.mpr fun hmem => (hchunk _ hmem).1 rfl⟩
  cases h with
  | blanks => exact .inr ⟨by decide, by simp [pending]⟩
  | plain hchunk =>
    obtain ⟨h92, h34⟩ := hplain _ hchunk
    exact .inr ⟨by decide, by simp [pending, h92, h34]⟩
  | single hchunk => exact .inl ⟨rfl, by simp⟩
  | double hchunk | escape hchunk | separate hchunk =>
    obtain ⟨h92, h34⟩ := hplain _ hchunk
    exact .inr ⟨by decide, by simp [pending, h92, h34]⟩
  | escaped c | escapedDouble c =>
    refine .inr ⟨by decide, ?_⟩
    by_cases h92 : c = 92
    · simp [h92, pending]
    · by_cases h34 : c = 34
      · simp [h34, pending]
      · split <;> simp [h92, h34, pending]
  | inSingle | endSingle => exact absurd rfl hst
  | inDouble hchunk | endDouble hchunk | escapeDouble hchunk =>
    obtain ⟨h92, h34⟩ := hquoted _ hchunk
    exact .inr ⟨by decide, by simp [pending, h92, h34]⟩

/-- A run that never comes to single quotes pays for its backslashes and double quotes; one that
    does loses a single quote. -/
theorem Runs.weight (h : Runs sep st line out st') (hst : st ≠ .singleQuote) :
    out.count 39 < line.count 39 ∨
      2 * out.count 92 + out.count 34 ≤ line.count 92 + pending st := by
  induction h with
  | nil => exact .inr (by simp)
  | @cons st st' st'' eaten added line out hturn hrest ih =>
    simp only [count_append]
    have hsingle := hturn.sublist.count_le 39
    rcases hturn.weight hst with ⟨-, hlost⟩ | ⟨hne, hpaid⟩
    · have := hrest.sublist.count_le 39
      exact .inl (by omega)
    · rcases ih hne with hlost | hpaid'
      · exact .inl (by omega)
      · exact .inr (by omega)

theorem Runs.no_token (h : Runs sep st line out st') (hst : st = .unquoted)
    (hline : ∀ c ∈ line, c ≠ 39 ∧ c ≠ 34 ∧ c ≠ 92) : ∀ c ∈ out, isToken sep c = false := by
  induction h with
  | nil => simp
  | @cons st st' st'' eaten added line out hturn hrest ih =>
    subst hst
    have hin : ∀ c ∈ eaten, c ≠ 39 ∧ c ≠ 34 ∧ c ≠ 92 := fun c hc =>
      hline c (mem_append_left _ hc)
    have hout : ∀ c ∈ line, c ≠ 39 ∧ c ≠ 34 ∧ c ≠ 92 := fun c hc =>
      hline c (mem_append_right _ hc)
    have hboth : st' = .unquoted ∧ ∀ c ∈ added, isToken sep c = false := by
      cases hturn with
      | blanks => exact ⟨rfl, by simp⟩
      | plain hchunk => exact ⟨rfl, hchunk⟩
      | separate hchunk => exact ⟨rfl, hchunk⟩
      | single => exact absurd rfl (hin 39 (by simp)).1
      | double => exact absurd rfl (hin 34 (by simp)).2.1
      | escape => exact absurd rfl (hin 92 (by simp)).2.2
    intro c hc
    rcases mem_append.mp hc with hc | hc
    · exact hboth.2 c hc
    · exact ih hboth.1 hout c hc

end Count

end LibWrt.Uline
