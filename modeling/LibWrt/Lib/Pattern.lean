/-
LibWrt.Lib.Pattern — greedy patterns, matched at the start of a text.

A pattern is a row of pieces, each a class of characters that is repeated. A
match gives every piece as many characters as it can have such that the pieces
behind it still match; it says nothing about the rest of the text. Pieces with
the number of a group make up the text of this group.
-/
import Mathlib.Data.List.Basic

namespace LibWrt.Pattern

variable {α : Type}

structure Piece (α : Type) where
  cls : α → Bool
  least : Nat := 1
  most : Option Nat := some 1
  /-- the number of its group, or 0 -/
  group : Nat := 0

/-- How many characters the piece can have. -/
def Piece.longest (p : Piece α) (text : List α) : Nat :=
  let run := (text.takeWhile p.cls).length
  (p.most.map fun most => min most run).getD run

def matchPieces : List (Piece α) → List α → Option (List (List α))
  | [], _ => some []
  | p :: ps, text =>
    (List.range' p.least (p.longest text + 1 - p.least)).reverse.findSome? fun n =>
      (matchPieces ps (text.drop n)).map fun texts => text.take n :: texts

structure Regex (α : Type) where
  pieces : List (Piece α)
  /-- the number of its groups -/
  groups : Nat

structure Match (α : Type) where
  groups : List (List α)

def Match.group? (m : Match α) (n : Nat) : Option (List α) := m.groups[n - 1]?

def Match.group (m : Match α) (n : Nat) : List α := (m.group? n).getD []

def Regex.match? (r : Regex α) (text : List α) : Option (Match α) :=
  (matchPieces r.pieces text).map fun texts =>
    { groups := (List.range r.groups).map fun n =>
        ((r.pieces.zip texts).filter fun p => p.1.group == n + 1).flatMap Prod.snd }

end LibWrt.Pattern
