/-
LibWrt.Uline.Linebuf — the buffer of a line that is edited.

A line has an allocation, or none yet, of which it uses the first bytes, and
a cursor. An operation that would go through a pointer that was never set has
no result; reading behind an allocation finds what is there.

`Linebuf.Ok` is what the operations keep, and each of them has its lemma.
The two that do not keep it as they stand are the last ones:
`ulineSetLine` writes no terminator and makes no room for one, and
`linebufReset` goes through the pointer in any case.
-/
import LibWrt.Lib.Bytes

namespace LibWrt.Uline

open Option List
open Bytes

/-- `LINEBUF_CHUNK` -/
def linebufChunk : Nat := 64

/-- `struct linebuf`; `bufsize` is the length of the allocation. -/
structure Linebuf where
  buf : Option (List UInt8)
  len : Nat
  pos : Nat
  updatePos : Nat
  deriving DecidableEq

/-- The buffer as it is allocated with the editor. -/
def Linebuf.zero : Linebuf := { buf := none, len := 0, pos := 0, updatePos := 0 }

def Linebuf.bytes (l : Linebuf) : List UInt8 := l.buf.getD []

def Linebuf.bufsize (l : Linebuf) : Nat := l.bytes.length

/-- What `realloc` comes to: nothing, or new bytes with what they hold. -/
abbrev Alloc := Option (Nat → UInt8)

/-! ## The operations -/

/-- `linebuf_extend`, unless there is no memory. -/
def linebufExtend (l : Linebuf) (size : Nat) (alloc : Alloc) : Option Linebuf :=
  let tailroom := l.bufsize - l.len
  if l.buf.isSome ∧ tailroom > size then some l
  else
    let size := size - tailroom + (linebufChunk - 1)
    let size := size - size % linebufChunk
    alloc.map fun junk => { l with buf := some (l.bytes ++ (range size).map junk) }

/-- `linebuf_insert`, and whether it had memory. -/
def linebufInsert (l : Linebuf) (c : List UInt8) (alloc : Alloc) : Linebuf × Bool :=
  match linebufExtend l (c.length + 1) alloc with
  | none => (l, false)
  | some l =>
    let moved :=
      if l.len > l.pos then
        overwrite l.bytes (l.pos + c.length) ((l.bytes.drop l.pos).take (l.len - l.pos))
      else overwrite l.bytes (l.pos + c.length) [0]
    let bytes := overwrite moved l.pos c
    ({ buf := some (overwrite bytes (l.len + c.length) [0])
       len := l.len + c.length
       pos := l.pos + c.length
       updatePos := min l.updatePos l.pos }, true)

/-- `linebuf_delete`; it moves as many bytes as there are behind the cursor, and so reads what
    lies behind the allocation. -/
def linebufDelete (l : Linebuf) (len : Nat) (beyond : List UInt8) : Option Linebuf :=
  l.buf.map fun bytes =>
    let tail := l.len - l.pos
    let len := min len tail
    let source := (bytes ++ beyond).drop (l.pos + len)
    { buf := some (overwrite bytes l.pos (source.take (tail + 1)))
      len := l.len - len
      pos := l.pos
      updatePos := min l.updatePos l.pos }

/-- `linebuf_reset` -/
def linebufReset (l : Linebuf) : Option Linebuf :=
  l.buf.map fun bytes => { buf := some (overwrite bytes 0 [0]), len := 0, pos := 0, updatePos := 0 }

/-- `is_utf8_cont` -/
def isUtf8Cont (c : UInt8) : Bool := c &&& 0xc0 = 0x80

/-- `isspace` -/
def isSpace (c : UInt8) : Bool := c = 32 || (9 ≤ c && c ≤ 13)

def skipLeft (kind : UInt8 → Bool) (line : List UInt8) : Nat → Nat
  | 0 => 0
  | pos + 1 => if kind (line.getD (pos + 1) 0) then skipLeft kind line pos else pos + 1

def skipRight (kind : UInt8 → Bool) (line : List UInt8) : Nat → Nat → Nat
  | 0, pos => pos
  | n + 1, pos => if kind (line.getD pos 0) then skipRight kind line n (pos + 1) else pos

/-- `utf8_move_left` -/
def utf8MoveLeft (line : List UInt8) (pos : Nat) : Nat :=
  if pos = 0 then 0 else skipLeft isUtf8Cont line (pos - 1)

/-- `utf8_move_right` -/
def utf8MoveRight (line : List UInt8) (pos len : Nat) : Nat :=
  if pos = len then pos else skipRight isUtf8Cont line (len - (pos + 1)) (pos + 1)

/-- `delete_symbol` -/
def deleteSymbol (utf8 : Bool) (beyond : List UInt8) (l : Linebuf) : Option (Linebuf × Bool) :=
  if l.pos = l.len then some (l, false)
  else
    l.buf.bind fun bytes =>
      let len := if utf8 then utf8MoveRight bytes l.pos l.len - l.pos else 1
      (linebufDelete l len beyond).map fun l => (l, true)

/-- `move_left` -/
def moveLeft (utf8 : Bool) (l : Linebuf) : Option (Linebuf × Bool) :=
  if l.pos = 0 then some (l, false)
  else if utf8 then l.buf.map fun bytes => ({ l with pos := utf8MoveLeft bytes l.pos }, true)
  else some ({ l with pos := l.pos - 1 }, true)

/-- `move_word_left` -/
def moveWordLeft (utf8 : Bool) (l : Linebuf) : Option (Linebuf × Bool) :=
  (moveLeft utf8 l).bind fun (l, moved) =>
    if !moved then some (l, false)
    else
      l.buf.map fun bytes =>
        let pos := skipLeft isSpace bytes l.pos
        let pos := skipLeft (fun c => !isSpace c) bytes pos
        ({ l with pos := if isSpace (bytes.getD pos 0) then pos + 1 else pos }, true)

/-- `move_right` -/
def moveRight (utf8 : Bool) (l : Linebuf) : Option (Linebuf × Bool) :=
  if l.pos ≥ l.len then some (l, false)
  else if utf8 then
    l.buf.map fun bytes => ({ l with pos := utf8MoveRight bytes l.pos l.len }, true)
  else some ({ l with pos := l.pos + 1 }, true)

/-- `move_word_right` -/
def moveWordRight (l : Linebuf) : Option (Linebuf × Bool) :=
  if l.pos = l.len then some (l, false)
  else
    l.buf.map fun bytes =>
      let pos := skipRight (fun c => !isSpace c) bytes (l.len - l.pos) l.pos
      ({ l with pos := skipRight isSpace bytes (l.len - pos) pos }, true)

/-- `process_backword` -/
def processBackword (utf8 : Bool) (beyond : List UInt8) (l : Linebuf) :
    Option (Linebuf × Bool) :=
  (moveWordLeft utf8 l).bind fun (moved, ok) =>
    if !ok then some (moved, false)
    else (linebufDelete moved (l.pos - 1 + 1 - moved.pos) beyond).map fun l => (l, true)

/-- `uline_set_cursor` -/
def setCursor (pos : Nat) (l : Linebuf) : Linebuf := { l with pos := min pos l.len }

/-- `display_update_line`, which notes that the whole line is on the screen. -/
def displayUpdateLine (l : Linebuf) : Linebuf := { l with updatePos := l.len }

/-- The first byte in which the strings differ, of so many. -/
def firstChange (line str : List UInt8) : Nat → Nat → Nat
  | 0, i => i
  | n + 1, i => if line.getD i 0 ≠ str.getD i 0 then i else firstChange line str n (i + 1)

/-- `__uline_set_line`; without memory it goes on with the old allocation. -/
def ulineSetLine (utf8 : Bool) (l : Linebuf) (str : List UInt8) (alloc : Alloc) :
    Option Linebuf :=
  let prevLen := l.len
  let l := { l with len := 0 }
  let l := (linebufExtend l str.length alloc).getD l
  l.buf.map fun bytes =>
    let i := firstChange bytes str (min prevLen str.length) 0
    let i := if i > prevLen then i - 1 else i
    { buf := some (overwrite bytes 0 str)
      len := str.length
      pos := min l.pos str.length
      updatePos := if utf8 then skipLeft isUtf8Cont str i else i }

/-! ## The invariant -/

/-- The cursor is in the line, the line has its terminator in the allocation, and without an
    allocation it is empty. -/
structure Linebuf.Ok (l : Linebuf) : Prop where
  pos_le : l.pos ≤ l.len
  updatePos_le : l.updatePos ≤ l.len
  room : ∀ bytes, l.buf = some bytes → l.len < bytes.length ∧ bytes[l.len]? = some 0
  empty : l.buf = none → l.len = 0

theorem Linebuf.Ok.zero : Linebuf.zero.Ok where
  pos_le := Nat.le_refl 0
  updatePos_le := Nat.le_refl 0
  room := by simp [Linebuf.zero]
  empty _ := rfl

variable {l : Linebuf}

/-- A line that is not empty has an allocation. -/
theorem Linebuf.Ok.allocated (h : l.Ok) (hpos : 0 < l.len) : ∃ bytes, l.buf = some bytes := by
  cases hbuf : l.buf with
  | none =>
    have := h.empty hbuf
    omega
  | some bytes => exact ⟨bytes, rfl⟩

/-- The cursor somewhere else in the line. -/
theorem Linebuf.Ok.move (h : l.Ok) {pos : Nat} (hpos : pos ≤ l.len) :
    Linebuf.Ok { l with pos := pos } :=
  ⟨hpos, h.updatePos_le, h.room, h.empty⟩

theorem Linebuf.Ok.setCursor (h : l.Ok) (pos : Nat) : (setCursor pos l).Ok :=
  h.move (Nat.min_le_right _ _)

theorem Linebuf.Ok.displayUpdateLine (h : l.Ok) : (displayUpdateLine l).Ok :=
  ⟨h.pos_le, Nat.le_refl _, h.room, h.empty⟩

/-! ### The loops -/

theorem skipLeft_le (kind : UInt8 → Bool) (line : List UInt8) (pos : Nat) :
    skipLeft kind line pos ≤ pos := by
  induction pos with
  | zero => exact Nat.le_refl 0
  | succ pos ih =>
    rw [skipLeft]
    split <;> omega

theorem skipRight_le (kind : UInt8 → Bool) (line : List UInt8) (n pos : Nat) :
    skipRight kind line n pos ≤ pos + n := by
  induction n generalizing pos with
  | zero => exact Nat.le_refl pos
  | succ n ih =>
    rw [skipRight]
    split
    · have := ih (pos + 1)
      omega
    · omega

theorem utf8MoveLeft_le (line : List UInt8) (pos : Nat) : utf8MoveLeft line pos ≤ pos - 1 := by
  unfold utf8MoveLeft
  split
  · omega
  · exact skipLeft_le _ _ _

theorem utf8MoveRight_le (line : List UInt8) {pos len : Nat} (h : pos ≤ len) :
    utf8MoveRight line pos len ≤ len := by
  unfold utf8MoveRight
  split
  · exact h
  · have := skipRight_le isUtf8Cont line (len - (pos + 1)) (pos + 1)
    omega

theorem firstChange_le (line str : List UInt8) (n i : Nat) :
    firstChange line str n i ≤ i + n := by
  induction n generalizing i with
  | zero => exact Nat.le_refl i
  | succ n ih =>
    rw [firstChange]
    split
    · omega
    · have := ih (i + 1)
      omega

/-! ### Insert and delete -/

/-- An extended line is the same, with room behind it. -/
theorem linebufExtend_room {l' : Linebuf} {size : Nat} {alloc : Alloc} (h : l.Ok)
    (hext : linebufExtend l size alloc = some l') :
    l'.len = l.len ∧ l'.pos = l.pos ∧ l'.updatePos = l.updatePos ∧
      ∃ bytes, l'.buf = some bytes ∧ l.len + size ≤ bytes.length := by
  have hlen : l.len ≤ l.bufsize := by
    unfold Linebuf.bufsize Linebuf.bytes
    cases hbuf : l.buf with
    | none => simp [h.empty hbuf]
    | some bytes => exact (h.room bytes hbuf).1.le
  simp only [linebufExtend] at hext
  split at hext
  · rename_i hroom
    obtain rfl := some.inj hext
    obtain ⟨bytes, hbytes⟩ := isSome_iff_exists.mp hroom.1
    have hsize : l.bufsize = bytes.length := by simp [Linebuf.bufsize, Linebuf.bytes, hbytes]
    exact ⟨rfl, rfl, rfl, bytes, hbytes, by omega⟩
  · obtain ⟨junk, -, rfl⟩ := map_eq_some_iff.mp hext
    refine ⟨rfl, rfl, rfl, _, rfl, ?_⟩
    have hsize : l.bytes.length = l.bufsize := rfl
    rw [length_append, length_map, length_range, hsize]
    unfold linebufChunk
    omega

theorem Linebuf.Ok.insert (h : l.Ok) (c : List UInt8) (alloc : Alloc) :
    (linebufInsert l c alloc).1.Ok := by
  unfold linebufInsert
  cases hext : linebufExtend l (c.length + 1) alloc with
  | none => exact h
  | some l' =>
    obtain ⟨hlen, hpos, hupdate, bytes, hbuf, hroom⟩ := linebufExtend_room h hext
    have hbytes : l'.bytes = bytes := by simp [Linebuf.bytes, hbuf]
    have hpl := h.pos_le
    have hul := h.updatePos_le
    simp only [hlen, hpos, hupdate, hbytes]
    -- the bytes with the tail moved, the new ones, and the terminator
    have hmoved : ∀ tail : List UInt8,
        (overwrite bytes (l.pos + c.length) tail).length = bytes.length :=
      fun tail => length_overwrite bytes tail (by omega)
    have hall : ∀ tail : List UInt8,
        (overwrite (overwrite (overwrite bytes (l.pos + c.length) tail) l.pos c)
          (l.len + c.length) [0]).length = bytes.length ∧
        (overwrite (overwrite (overwrite bytes (l.pos + c.length) tail) l.pos c)
          (l.len + c.length) [0])[l.len + c.length]? = some 0 := by
      intro tail
      have hinner : (overwrite (overwrite bytes (l.pos + c.length) tail) l.pos c).length =
          bytes.length := (length_overwrite _ _ (by rw [hmoved]; omega)).trans (hmoved tail)
      refine ⟨(length_overwrite _ _ (by omega)).trans hinner, ?_⟩
      rw [getElem?_overwrite, if_pos ⟨Nat.le_refl _, by simp, by omega⟩, Nat.sub_self]
      rfl
    have hroom' : ∀ tail : List UInt8, ∀ b, some (overwrite (overwrite (overwrite bytes
        (l.pos + c.length) tail) l.pos c) (l.len + c.length) [0]) = some b →
        l.len + c.length < b.length ∧ b[l.len + c.length]? = some 0 := by
      intro tail b hb
      obtain rfl := some.inj hb
      obtain ⟨hlength, hnul⟩ := hall tail
      exact ⟨by omega, hnul⟩
    split
    · exact ⟨by simp only; omega, by simp only; omega, hroom' _, fun hnone => by cases hnone⟩
    · exact ⟨by simp only; omega, by simp only; omega, hroom' _, fun hnone => by cases hnone⟩

theorem Linebuf.Ok.delete (h : l.Ok) (len : Nat) (beyond : List UInt8) {bytes : List UInt8}
    (hbuf : l.buf = some bytes) : ∃ l', linebufDelete l len beyond = some l' ∧ l'.Ok := by
  obtain ⟨hroom, hnul⟩ := h.room bytes hbuf
  have hpos := h.pos_le
  have hupdate := h.updatePos_le
  simp only [linebufDelete, hbuf, map_some]
  refine ⟨_, rfl, by simp only; omega, by simp only; omega, ?_, fun hnone => by cases hnone⟩
  intro b hb
  obtain rfl := some.inj hb
  have hlength := length_overwrite bytes
    (((bytes ++ beyond).drop (l.pos + min len (l.len - l.pos))).take (l.len - l.pos + 1))
    (show l.pos ≤ bytes.length by omega)
  show l.len - min len (l.len - l.pos) < _ ∧ _[l.len - min len (l.len - l.pos)]? = some 0
  refine ⟨by omega, ?_⟩
  -- the terminator is moved along with the tail
  rw [getElem?_overwrite, if_pos]
  · have hindex : l.pos + min len (l.len - l.pos) + (l.len - min len (l.len - l.pos) - l.pos) =
        l.len := by omega
    rw [getElem?_take, if_pos (by omega), getElem?_drop, hindex,
      getElem?_append_left hroom, hnul]
  · simp only [length_take, length_drop, length_append]
    omega

theorem Linebuf.Ok.reset (h : l.Ok) {bytes : List UInt8} (hbuf : l.buf = some bytes) :
    ∃ l', linebufReset l = some l' ∧ l'.Ok := by
  have hroom := (h.room bytes hbuf).1
  simp only [linebufReset, hbuf, map_some]
  refine ⟨_, rfl, Nat.le_refl 0, Nat.le_refl 0, ?_, fun hnone => by cases hnone⟩
  intro b hb
  obtain rfl := some.inj hb
  have hlength := length_overwrite bytes [0] (Nat.zero_le _)
  show 0 < _ ∧ _[0]? = some 0
  refine ⟨by omega, ?_⟩
  rw [getElem?_overwrite, if_pos ⟨Nat.le_refl 0, by simp, by omega⟩]
  rfl

/-! ### Motions -/

/-- An operation finds what it needs, and keeps the invariant. -/
def Keeps (f : Linebuf → Option (Linebuf × Bool)) : Prop :=
  ∀ l : Linebuf, l.Ok → ∃ r, f l = some r ∧ r.1.Ok

theorem keeps_deleteSymbol (utf8 : Bool) (beyond : List UInt8) :
    Keeps (deleteSymbol utf8 beyond) := by
  intro l h
  unfold deleteSymbol
  split
  · exact ⟨_, rfl, h⟩
  · have hpos := h.pos_le
    obtain ⟨bytes, hbuf⟩ := h.allocated (by omega)
    obtain ⟨l', hdelete, hok⟩ :=
      h.delete (if utf8 then utf8MoveRight bytes l.pos l.len - l.pos else 1) beyond hbuf
    exact ⟨(l', true), by simp [hbuf, hdelete], hok⟩

/-- A motion to the left goes to the left, if it goes. -/
theorem moveLeft_spec (h : l.Ok) (utf8 : Bool) : ∃ pos, pos ≤ l.pos ∧
    (l.pos ≠ 0 → pos < l.pos) ∧
    moveLeft utf8 l = some ({ l with pos := pos }, decide (l.pos ≠ 0)) := by
  have hpos := h.pos_le
  unfold moveLeft
  split
  · rename_i hzero
    refine ⟨l.pos, Nat.le_refl _, fun hne => absurd hzero hne, ?_⟩
    rw [decide_eq_false (not_not.mpr hzero)]
  · rename_i hne
    rw [decide_eq_true hne]
    cases utf8 with
    | true =>
      obtain ⟨bytes, hbuf⟩ := h.allocated (by omega)
      have hle := utf8MoveLeft_le bytes l.pos
      exact ⟨utf8MoveLeft bytes l.pos, by omega, fun _ => by omega, by simp [hbuf]⟩
    | false => exact ⟨l.pos - 1, by omega, fun _ => by omega, rfl⟩

theorem keeps_moveLeft (utf8 : Bool) : Keeps (moveLeft utf8) := by
  intro l h
  obtain ⟨pos, hpos, -, hmove⟩ := moveLeft_spec h utf8
  exact ⟨_, hmove, h.move (hpos.trans h.pos_le)⟩

/-- A word to the left is not to the right. -/
theorem moveWordLeft_spec (h : l.Ok) (utf8 : Bool) : ∃ pos, pos ≤ l.pos ∧
    moveWordLeft utf8 l = some ({ l with pos := pos }, decide (l.pos ≠ 0)) := by
  have hlen := h.pos_le
  obtain ⟨pos, hpos, hlt, hmove⟩ := moveLeft_spec h utf8
  unfold moveWordLeft
  rw [hmove, bind_some]
  by_cases hzero : l.pos = 0
  · refine ⟨pos, hpos, ?_⟩
    rw [decide_eq_false (not_not.mpr hzero)]
    rfl
  · have hback := hlt hzero
    obtain ⟨bytes, hbuf⟩ := h.allocated (by omega)
    have hspaces := skipLeft_le isSpace bytes pos
    have hword := skipLeft_le (fun c => !isSpace c) bytes (skipLeft isSpace bytes pos)
    simp only [decide_eq_true hzero, Bool.not_true, Bool.false_eq_true, if_false, hbuf,
      map_some]
    refine ⟨_, ?_, rfl⟩
    split <;> omega

theorem keeps_moveWordLeft (utf8 : Bool) : Keeps (moveWordLeft utf8) := by
  intro l h
  obtain ⟨pos, hpos, hmove⟩ := moveWordLeft_spec h utf8
  exact ⟨_, hmove, h.move (hpos.trans h.pos_le)⟩

theorem keeps_moveRight (utf8 : Bool) : Keeps (moveRight utf8) := by
  intro l h
  unfold moveRight
  split
  · exact ⟨_, rfl, h⟩
  · cases utf8 with
    | true =>
      obtain ⟨bytes, hbuf⟩ := h.allocated (by omega)
      have hle := utf8MoveRight_le bytes h.pos_le
      exact ⟨({ l with pos := utf8MoveRight bytes l.pos l.len }, true), by simp [hbuf], h.move hle⟩
    | false => exact ⟨_, rfl, h.move (by omega)⟩

theorem keeps_moveWordRight : Keeps moveWordRight := by
  intro l h
  have hpos := h.pos_le
  unfold moveWordRight
  split
  · exact ⟨_, rfl, h⟩
  · obtain ⟨bytes, hbuf⟩ := h.allocated (by omega)
    let word := skipRight (fun c => !isSpace c) bytes (l.len - l.pos) l.pos
    have hword : word ≤ l.pos + (l.len - l.pos) := skipRight_le _ _ _ _
    have hspaces := skipRight_le isSpace bytes (l.len - word) word
    have hmoved := h.move (show skipRight isSpace bytes (l.len - word) word ≤ l.len by omega)
    exact ⟨_, congrArg (Option.map _) hbuf, hmoved⟩

theorem keeps_processBackword (utf8 : Bool) (beyond : List UInt8) :
    Keeps (processBackword utf8 beyond) := by
  intro l h
  obtain ⟨pos, hpos, hmove⟩ := moveWordLeft_spec h utf8
  have hmoved := h.move (hpos.trans h.pos_le)
  unfold processBackword
  rw [hmove, bind_some]
  by_cases hzero : l.pos = 0
  · rw [decide_eq_false (not_not.mpr hzero)]
    exact ⟨_, rfl, hmoved⟩
  · have hlen := h.pos_le
    obtain ⟨bytes, hbuf⟩ := h.allocated (by omega)
    obtain ⟨l', hdelete, hok⟩ := hmoved.delete (l.pos - 1 + 1 - pos) beyond hbuf
    rw [decide_eq_true hzero]
    exact ⟨(l', true), by simp [hdelete], hok⟩

/-! ### Setting a line -/

/-- A line that is set where there is room for it and its terminator is already there. -/
theorem Linebuf.setLine_ok (l : Linebuf) (utf8 : Bool) {str bytes : List UInt8} (alloc : Alloc)
    (hbuf : l.buf = some bytes) (hroom : str.length < bytes.length)
    (hnul : bytes[str.length]? = some 0) :
    ∃ l', ulineSetLine utf8 l str alloc = some l' ∧ l'.Ok := by
  have hext : linebufExtend { l with len := 0 } str.length alloc = some { l with len := 0 } := by
    unfold linebufExtend
    rw [if_pos]
    refine ⟨by simp [hbuf], ?_⟩
    show str.length < (l.buf.getD []).length - 0
    simpa [hbuf] using hroom
  have hchange := firstChange_le bytes str (min l.len str.length) 0
  have hskip := skipLeft_le isUtf8Cont str
    (firstChange bytes str (min l.len str.length) 0)
  have hlength := length_overwrite bytes str (Nat.zero_le _)
  have hprev : ¬ firstChange bytes str (min l.len str.length) 0 > l.len := by omega
  unfold ulineSetLine
  dsimp only
  rw [hext, getD_some, hbuf, map_some, if_neg hprev]
  refine ⟨_, rfl, Nat.min_le_right _ _, ?_, ?_, fun hnone => absurd hnone (by simp)⟩
  · show (if utf8 then _ else _) ≤ str.length
    split <;> omega
  · intro b hb
    obtain rfl := some.inj hb
    show str.length < _ ∧ _[str.length]? = some 0
    refine ⟨by omega, ?_⟩
    rw [getElem?_overwrite, if_neg (by omega), hnul]

end LibWrt.Uline
