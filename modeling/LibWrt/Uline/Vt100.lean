/-
LibWrt.Uline.Vt100 — escape sequences of a terminal.

A sequence is decoded from its start each time a byte has come. The only one
with data is the answer to a request for the cursor's position, two decimal
numbers that `strtoul` reads; it accepts an empty number as 0.
-/
import LibWrt.Uline.Linebuf

namespace LibWrt.Uline

/-- `enum vt100_escape`, as far as the decoder returns it. -/
inductive Escape where
  | incomplete
  | unknown
  | ignore
  | cursorUp
  | cursorDown
  | cursorLeft
  | cursorWordLeft
  | cursorRight
  | cursorWordRight
  | cursorPos
  | home
  | «end»
  | delete
  deriving DecidableEq

def isDigit (c : UInt8) : Bool := 48 ≤ c && c ≤ 57

/-- `strtoul` in base ten, of a string up to its terminator and with so many bits in a long: the
    number, and the string behind it. -/
def strtoul (bits : Nat) (str : List UInt8) : Nat × List UInt8 :=
  let line := str.dropWhile isSpace
  let sign := line.head? = some 43 ∨ line.head? = some 45
  let number := if sign then line.tail else line
  let digits := number.takeWhile isDigit
  let value := digits.foldl (fun n c => 10 * n + (c.toNat - 48)) 0
  if digits = [] then (0, str)
  else
    (if value ≥ 2 ^ bits then 2 ^ bits - 1
     else if line.head? = some 45 then (2 ^ bits - value) % 2 ^ bits
     else value,
     number.drop digits.length)

def decodeNumber (bits : Nat) (str : List UInt8) : Escape × Nat :=
  let (code, err) := strtoul bits str
  match err with
  | [] => (.incomplete, 0)
  | 126 :: _ =>
    if code = 1 then (.home, 0)
    else if code = 3 then (.delete, 0)
    else if code = 4 then (.end, 0)
    else if code = 200 ∨ code = 201 then (.ignore, 0)
    else (.unknown, 0)
  | 59 :: rest =>
    let (code2, err) := strtoul bits rest
    match err with
    | [] => (.incomplete, 0)
    | 82 :: _ => (.cursorPos, (code2 * 2 ^ 16 + code % 2 ^ 16) % 2 ^ 32)
    | _ => (.unknown, 0)
  | _ => (.unknown, 0)

/-- `vt100_esc_decode` of a string up to its terminator: the sequence and its data. -/
def vt100EscDecode (bits : Nat) : List UInt8 → Escape × Nat
  | [] => (.incomplete, 0)
  | c :: str =>
    if c ≠ 91 ∧ c ≠ 79 then (.unknown, 0)
    else
      match str with
      | [] => (.incomplete, 0)
      | 65 :: _ => (.cursorUp, 0)
      | 66 :: _ => (.cursorDown, 0)
      | 67 :: _ => (.cursorRight, 0)
      | 68 :: _ => (.cursorLeft, 0)
      | 70 :: _ => (.end, 0)
      | 72 :: _ => (.home, 0)
      | 53 :: 67 :: _ => (.cursorWordRight, 0)
      | 53 :: 68 :: _ => (.cursorWordLeft, 0)
      | d :: _ => if isDigit d then decodeNumber bits str else (.unknown, 0)

end LibWrt.Uline
