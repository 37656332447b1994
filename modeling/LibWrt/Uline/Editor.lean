/-
LibWrt.Uline.Editor — the line editor, a byte of input at a time.

The editor has a line and at times a second one. A byte is part of an escape
sequence, goes to the callback for keys, is a control key, or is inserted.
Callbacks may change the lines through the same calls that are made between
the bytes; what a callback does and returns is part of the environment.

What the screen shows is left out, but for what an update notes in the lines.
A trace keeps the calls and keys that the invariants depend on: a line that
is set, a line that is killed, a second line that a callback claims a key
for, and a size that the terminal reports.
-/
import LibWrt.Lib.Traced
import LibWrt.Uline.Vt100

namespace LibWrt.Uline

inductive Api where
  | setLine (str : List UInt8) (alloc : Alloc)
  | setCursor (pos : Nat)
  /-- `uline_set_line2_prompt`: with a prompt there is a second line. -/
  | setLine2Prompt (prompt : Bool)
  | setLine2 (str : List UInt8) (alloc : Alloc)
  | setLine2Cursor (pos : Nat)
  | refreshPrompt
  /-- `poll_stop`, and what the callback for a line leaves. -/
  | setStop (stop : Bool)

structure Answer where
  calls : List Api
  ret : Bool

/-- What happens around a byte: the callbacks that there are, and the memory. -/
structure Env where
  keyInput : Option Answer
  event : Answer
  line : Answer
  line2Update : Option Answer
  line2Cursor : Option Answer
  line2Newline : Option Answer
  alloc : Alloc
  beyond : List UInt8

/-- What `update_window_size` finds: the size from the driver, if it has one, and the callback. -/
structure Winch where
  size : Option (Nat × Nat)
  event : Answer

/-- `struct uline_state` -/
structure Editor where
  line : Linebuf
  line2 : Option Linebuf
  rows : Nat
  cols : Nat
  ioctlWinsize : Bool
  stop : Bool
  utf8 : Bool
  /-- The bytes of `esc_seq`; none where `esc_idx` is negative. -/
  escSeq : Option (List UInt8)
  utf8Cont : Nat
  /-- The bits of an `unsigned long`. -/
  longBits : Nat

/-- What the trace keeps, with the line as it was. -/
inductive Mark where
  | set (line : Linebuf) (str : List UInt8)
  | kill (line : Linebuf)
  | claim (line2 : Option Linebuf)
  | reply (rows cols : Nat)

abbrev Edit := Traced Mark

/-- `display_update` -/
def displayUpdate (e : Editor) : Editor :=
  { e with line := displayUpdateLine e.line, line2 := e.line2.map displayUpdateLine }

/-! ## The interface -/

/-- `__uline_set_line` of one of the lines. -/
def setMarked (utf8 : Bool) (l : Linebuf) (str : List UInt8) (alloc : Alloc) : Edit Linebuf := do
  Traced.note (.set l str)
  Traced.ofOption (ulineSetLine utf8 l str alloc)

def Api.run (e : Editor) : Api → Edit Editor
  | setLine str alloc => do
    let line ← setMarked e.utf8 e.line str alloc
    return { e with line }
  | setCursor pos => return { e with line := Uline.setCursor pos e.line }
  | setLine2Prompt true => return { e with line2 := some (e.line2.getD Linebuf.zero) }
  | setLine2Prompt false => return { e with line2 := none }
  | setLine2 str alloc =>
    match e.line2 with
    | none => return e
    | some l => do
      let line ← setMarked e.utf8 l str alloc
      return { e with line2 := some line }
  | setLine2Cursor pos => return { e with line2 := e.line2.map (Uline.setCursor pos) }
  | refreshPrompt => return displayUpdate e
  | setStop stop => return { e with stop }

def runCalls (e : Editor) : List Api → Edit Editor
  | [] => return e
  | call :: calls => do
    let e ← call.run e
    runCalls e calls

def Answer.run (e : Editor) (a : Answer) : Edit (Editor × Bool) := do
  let e ← runCalls e a.calls
  return (e, a.ret)

def askIf (e : Editor) : Option Answer → Edit (Editor × Bool)
  | none => return (e, false)
  | some a => a.run e

/-- `event`; the key has done something. -/
def notifyEvent (e : Editor) (event : Answer) : Edit (Editor × Bool) := do
  let (e, _) ← event.run e
  return (e, true)

/-! ## Keys -/

def Editor.edit (e : Editor) (second : Bool) (f : Linebuf → Option (Linebuf × Bool)) :
    Edit (Editor × Bool) :=
  if second then do
    let l ← Traced.ofOption e.line2
    let (l, done) ← Traced.ofOption (f l)
    return ({ e with line2 := some l }, done)
  else do
    let (l, done) ← Traced.ofOption (f e.line)
    return ({ e with line := l }, done)

/-- Whether `process_esc` takes the second line. -/
def takesLine2 (e : Editor) (esc : Escape) (env : Env) : Edit (Editor × Bool) :=
  if e.line2.isNone then return (e, false)
  else if esc = .delete then return (e, true)
  else do
    let (e, claimed) ← askIf e env.line2Cursor
    if claimed then
      Traced.note (.claim e.line2)
    return (e, claimed)

/-- `process_esc` -/
def processEsc (e : Editor) (esc : Escape) (data : Nat) (env : Env) : Edit (Editor × Bool) := do
  let (e, second) ← takesLine2 e esc env
  match esc with
  | .cursorLeft => e.edit second (moveLeft e.utf8)
  | .cursorWordLeft => e.edit second (moveWordLeft e.utf8)
  | .cursorRight => e.edit second (moveRight e.utf8)
  | .cursorWordRight => e.edit second moveWordRight
  | .cursorPos =>
    let rows := data % 2 ^ 16
    let cols := data / 2 ^ 16
    if e.rows = rows ∧ e.cols = cols then return (e, false)
    else do
      Traced.note (.reply rows cols)
      notifyEvent { e with rows, cols } env.event
  | .home => e.edit second fun l => some ({ l with pos := 0 }, true)
  | .end => e.edit second fun l => some ({ l with pos := l.len }, true)
  | .cursorUp | .cursorDown => notifyEvent e env.event
  | .delete => e.edit second (deleteSymbol e.utf8 env.beyond)
  | _ => return (e, false)

/-- The end of `process_newline`. -/
def resetLine (e : Editor) : Edit (Editor × Bool) :=
  if e.line.len = 0 then return (e, true)
  else e.edit false fun l => (linebufReset l).map fun l => (l, true)

/-- Whether `line2_newline` keeps the second line. -/
def askNewline (e : Editor) (env : Env) : Edit (Editor × Bool) :=
  if e.line2.isSome then askIf e env.line2Newline else return (e, false)

/-- `process_newline` that is not dropped: the end of it, or not. -/
def acceptLine (e : Editor) (env : Env) : Edit (Editor × Bool) := do
  let (e, kept) ← askNewline e env
  if kept then return (e, true)
  else do
    let (e, accepted) ← env.line.run { e with line2 := none }
    if accepted then resetLine e
    else return ({ e with line := (linebufInsert e.line [10] env.alloc).1 }, true)

/-- `line2_update`, if there is a second line. -/
def notifyLine2 (e : Editor) (env : Env) : Edit Editor :=
  if e.line2.isSome then do
    let (e, _) ← askIf e env.line2Update
    return e
  else return e

/-- `KEY_BS` -/
def backspace (e : Editor) (env : Env) : Edit (Editor × Bool) := do
  let second := e.line2.isSome
  let (e, moved) ← e.edit second (moveLeft e.utf8)
  if !moved then return (e, false)
  else do
    let (e, _) ← e.edit second (deleteSymbol e.utf8 env.beyond)
    let e ← notifyLine2 e env
    return (e, true)

/-- `process_ctrl` -/
def processCtrl (e : Editor) (c : UInt8) (env : Env) : Edit (Editor × Bool) :=
  let second := e.line2.isSome
  match c with
  | 10 | 13 => acceptLine e env
  | 3 => do
    let (e, _) ← env.event.run e
    let (e, _) ← resetLine e
    return ({ e with stop := true }, true)
  | 4 =>
    if e.line.len ≠ 0 then return (e, false)
    else do
      let (e, _) ← env.event.run e
      return ({ e with stop := true }, true)
  | 8 | 127 => backspace e env
  | 12 => return (e, true)
  | 21 => do
    Traced.note (.kill (e.line2.getD e.line))
    e.edit second fun l => (linebufReset l).map fun l => (l, true)
  | 1 => processEsc e .home 0 env
  | 5 => processEsc e .end 0 env
  | 23 => e.edit second (processBackword e.utf8 env.beyond)
  | 27 => return ({ e with escSeq := some [] }, false)
  | _ => return (e, false)

/-- `check_utf8` -/
def checkUtf8 (e : Editor) (c : UInt8) : Bool :=
  e.utf8 && (e.utf8Cont ≠ 0 || c &&& 0xc0 = 0xc0)

/-- The loop of `handle_utf8` over the first bits of a byte. -/
def leadingBits : Nat → UInt8 → Nat
  | 0, _ => 0
  | n + 1, c => if c &&& 0x80 ≠ 0 then leadingBits n (c <<< 1) + 1 else 0

/-- `handle_utf8`: the bytes that are still to come, and whether to wait for them. -/
def handleUtf8 (e : Editor) (c : UInt8) : Nat × Bool :=
  if !e.utf8 then (e.utf8Cont, false)
  else if e.utf8Cont = 0 then
    if c &&& 0xc0 ≠ 0xc0 then (0, false)
    else (leadingBits 8 ((c &&& 0xf0) <<< 1), true)
  else if c &&& 0xc0 ≠ 0x80 then (0, false)
  else (e.utf8Cont - 1, e.utf8Cont - 1 ≠ 0)

def insertChar (e : Editor) (c : UInt8) (env : Env) : Edit (Editor × Bool) := do
  let (e, inserted) ← e.edit e.line2.isSome fun l => some (linebufInsert l [c] env.alloc)
  if !inserted then return (e, false)
  else
    let (utf8Cont, waits) := handleUtf8 e c
    let e := { e with utf8Cont }
    if waits then return (e, false)
    else do
      let e ← notifyLine2 e env
      return (e, true)

/-- Whether `key_input` takes a byte. -/
def askKey (e : Editor) (c : UInt8) (env : Env) : Edit (Editor × Bool) :=
  if checkUtf8 e c then return (e, false) else askIf e env.keyInput

/-- `process_char` up to the update of the screen, and whether it comes to that. -/
def processKey (e : Editor) (c : UInt8) (env : Env) : Edit (Editor × Bool) :=
  match e.escSeq with
  | some seq =>
    let seq := seq ++ [c]
    let (esc, data) := vt100EscDecode e.longBits (seq.takeWhile (· ≠ 0))
    if esc = .incomplete ∧ seq.length < 31 then return ({ e with escSeq := some seq }, false)
    else processEsc { e with escSeq := none } esc data env
  | none => do
    let (e, handled) ← askKey e c env
    if handled then return (e, true)
    else if c < 32 ∨ c = 127 then processCtrl e c env
    else insertChar e c env

/-- `process_char` -/
def processChar (e : Editor) (c : UInt8) (env : Env) : Edit Editor := do
  let (e, changed) ← processKey e c env
  return if changed && !e.stop then displayUpdate e else e

/-! ## The editor as it runs -/

/-- `update_window_size` -/
def updateWindowSize (e : Editor) (w : Winch) : Edit Editor :=
  let size := w.size.filter fun size => e.ioctlWinsize && size.1 ≠ 0 && size.2 ≠ 0
  let e := { e with ioctlWinsize := size.isSome }
  let (cols, rows) := size.getD (80, 25)
  if e.cols = cols ∧ e.rows = rows then return e
  else do
    let (e, _) ← w.event.run { e with cols, rows }
    return e

/-- `uline_init` -/
def ulineInit (utf8 : Bool) (longBits : Nat) (w : Winch) : Edit Editor :=
  updateWindowSize
    { line := Linebuf.zero, line2 := none, rows := 0, cols := 0, ioctlWinsize := true
      stop := false, utf8, escSeq := none, utf8Cont := 0, longBits } w

inductive Act where
  /-- `uline_poll` starts. -/
  | poll
  /-- It reads a byte, behind a change of the window's size if there was one. -/
  | input (winch : Option Winch) (c : UInt8) (env : Env)
  /-- It finds the end of the input. -/
  | eof (event : Answer)
  /-- A call of the interface. -/
  | api (call : Api)

def checkWindowSize (e : Editor) : Option Winch → Edit Editor
  | none => return e
  | some w => updateWindowSize e w

def step (e : Editor) : Act → Edit Editor
  | .poll => return { displayUpdate e with stop := false }
  | .input winch c env => do
    let e ← checkWindowSize e winch
    processChar e c env
  | .eof event => do
    let (e, _) ← event.run e
    return e
  | .api call => call.run e

end LibWrt.Uline
