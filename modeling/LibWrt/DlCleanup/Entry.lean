/-
LibWrt.DlCleanup.Entry — the entries of the download directory, as
`scripts/dl_cleanup.py` reads them.

A file name is a list of code points, and what Python takes for a decimal digit
or a character of a word is a parameter. The first of the version patterns that
matches a name gives the program and its version; a version is packed into one
number by shifts.
-/
import LibWrt.Lib.Pattern

namespace LibWrt.DlCleanup

open LibWrt.Pattern

abbrev Name := List Nat

def name (text : String) : Name := text.toList.map Char.toNat

/-- What `\d`, `int` and `\w` know about characters. -/
structure Unicode where
  decimal : Nat → Option Nat
  word : Nat → Bool

def ascii : Unicode where
  decimal c := if 48 ≤ c ∧ c ≤ 57 then some (c - 48) else none
  word c := (48 ≤ c && c ≤ 57) || (65 ≤ c && c ≤ 90) || (97 ≤ c && c ≤ 122) || c == 95

structure File where
  name : Name
  isDir : Bool
  mtime : Int
  deriving DecidableEq

variable (u : Unicode)

/-! ## Patterns -/

def lit (c : Char) : Piece Nat := { cls := (· == c.toNat) }

/-- `.+` -/
def dots : Piece Nat := { cls := (· != '\n'.toNat), most := none }

/-- `\d+` -/
def digits : Piece Nat := { cls := fun c => (u.decimal c).isSome, most := none }

/-- so many `\d` -/
def digitsOf (n : Nat) : Piece Nat :=
  { cls := fun c => (u.decimal c).isSome, least := n, most := some n }

/-- `[-_]` -/
def sep : Piece Nat := { cls := fun c => c == '-'.toNat || c == '_'.toNat }

/-- `\w?` -/
def wordOpt : Piece Nat := { cls := u.word, least := 0 }

/-- `[0-9a-fA-F]{40,40}` -/
def hex40 : Piece Nat where
  cls c := (48 ≤ c && c ≤ 57) || (97 ≤ c && c ≤ 102) || (65 ≤ c && c ≤ 70)
  least := 40
  most := some 40

def optional (p : Piece Nat) : Piece Nat := { p with least := 0 }

def inGroup (n : Nat) (p : Piece Nat) : Piece Nat := { p with group := n }

/-! ## Versions -/

/-- `int` of a group of digits -/
def int (text : Name) : Nat := text.foldl (fun n c => 10 * n + (u.decimal c).getD 0) 0

def intOf (m : Match Nat) (n : Nat) : Nat := int u (m.group n)

def patchOf (m : Match Nat) (n : Nat) : Nat := (((m.group? n).getD []).head?).getD 0

def parseVer1234 (m : Match Nat) : Name × Int :=
  (m.group 1, ((intOf u m 2 <<< 64) ||| (intOf u m 3 <<< 48) ||| (intOf u m 4 <<< 32) |||
    (intOf u m 5 <<< 16) : Nat))

def parseVer123 (m : Match Nat) : Name × Int :=
  let patchlevel := patchOf m 5
  (m.group 1, ((intOf u m 2 <<< 64) ||| (intOf u m 3 <<< 48) ||| (intOf u m 4 <<< 32) |||
    patchlevel : Nat))

def parseVer12 (m : Match Nat) : Name × Int :=
  let patchlevel := patchOf m 4
  (m.group 1, ((intOf u m 2 <<< 64) ||| (intOf u m 3 <<< 48) ||| patchlevel : Nat))

def parseVerR (m : Match Nat) : Name × Int := (m.group 1, (intOf u m 2 <<< 64 : Nat))

def parseVerYmdGitShasum (m : Match Nat) : Name × Int :=
  (m.group 1, ((intOf u m 2 <<< 64) ||| (intOf u m 3 <<< 48) ||| (intOf u m 4 <<< 32) : Nat))

def parseVerYmd (m : Match Nat) : Name × Int :=
  (m.group 1, ((intOf u m 2 <<< 64) ||| (intOf u m 3 <<< 48) ||| (intOf u m 4 <<< 32) : Nat))

def parseVerGit (mtime : Int) (m : Match Nat) : Name × Int := (m.group 1, mtime <<< (64 : Nat))

inductive Parser where
  | v1234
  | v123
  | v12
  | r
  | ymdGitShasum
  | ymd
  | git
  deriving DecidableEq

def Parser.run (mtime : Int) (m : Match Nat) : Parser → Name × Int
  | v1234 => parseVer1234 u m
  | v123 => parseVer123 u m
  | v12 => parseVer12 u m
  | r => parseVerR u m
  | ymdGitShasum => parseVerYmdGitShasum u m
  | ymd => parseVerYmd u m
  | git => parseVerGit mtime m

def extensions : List Name :=
  [".tar.gz", ".tar.bz2", ".tar.xz", ".tar.zst", ".orig.tar.gz", ".orig.tar.bz2", ".orig.tar.xz",
    ".zip", ".tgz", ".tbz", ".txz"].map name

def versionRegex : List (Regex Nat × Parser) :=
  let prog := inGroup 1 dots
  let num (n : Nat) := inGroup n (digits u)
  let dot := lit '.'
  let underscore := lit '_'
  [ -- gcc.1.2
    ({ pieces := ['g', 'c', 'c'].map (fun c => inGroup 1 (lit c)) ++
        [inGroup 1 sep, num 1, dot, num 2, dot, num 3], groups := 3 }, .v12),
    -- linux.1
    ({ pieces := ['l', 'i', 'n', 'u', 'x'].map (fun c => inGroup 1 (lit c)) ++
        [inGroup 1 sep, num 1, inGroup 1 dot, num 1, dot, num 2], groups := 2 }, .r),
    -- xxx-1.2.3.4
    ({ pieces := [prog, sep, num 2, dot, num 3, dot, num 4, dot, num 5], groups := 5 }, .v1234),
    -- xxx-YYYY-MM-DD-GIT_SHASUM
    ({ pieces := [prog, sep, inGroup 2 (digitsOf u 4), optional (lit '-'),
        inGroup 3 (digitsOf u 2), optional (lit '-'), inGroup 4 (digitsOf u 2), lit '-'],
       groups := 4 }, .ymdGitShasum),
    -- xxx-YYYY-MM-DD
    ({ pieces := [prog, sep, inGroup 2 (digitsOf u 4), optional (lit '-'),
        inGroup 3 (digitsOf u 2), optional (lit '-'), inGroup 4 (digitsOf u 2)],
       groups := 4 }, .ymd),
    -- xxx-GIT_SHASUM
    ({ pieces := [prog, sep, inGroup 2 hex40], groups := 2 }, .git),
    -- xxx-1.2.3a
    ({ pieces := [prog, sep, num 2, dot, num 3, dot, num 4, inGroup 5 (wordOpt u)],
       groups := 5 }, .v123),
    -- xxx-v1.2.3a
    ({ pieces := [prog, sep, lit 'v', num 2, dot, num 3, dot, num 4, inGroup 5 (wordOpt u)],
       groups := 5 }, .v123),
    -- xxx-1_2_3
    ({ pieces := [prog, sep, num 2, underscore, num 3, underscore, num 4], groups := 4 }, .v123),
    -- xxx-1.2a
    ({ pieces := [prog, sep, num 2, dot, num 3, inGroup 4 (wordOpt u)], groups := 4 }, .v12),
    -- xxx-v1.2a
    ({ pieces := [prog, sep, lit 'v', num 2, dot, num 3, inGroup 4 (wordOpt u)],
       groups := 4 }, .v12),
    -- xxx-r1111
    ({ pieces := [prog, sep, optional (lit 'r'), num 2], groups := 2 }, .r)]

/-- `blacklist`, without the names of its items -/
def blacklist : List (Regex Nat) :=
  let rest := { dots with least := 0 }
  let ending (ext : String) : Regex Nat :=
    { pieces := rest :: ext.toList.map lit, groups := 0 }
  [ { pieces := "wl_apsta".toList.map lit ++ [rest], groups := 0 },
    ending ".fw", ending ".arm", ending ".bin",
    { pieces := ['R', 'T'].map lit ++
        [{ cls := fun c => (u.decimal c).isSome || u.word c, most := none }] ++
        "_Firmware".toList.map lit ++ [rest],
      groups := 0 } ]

/-! ## Entries -/

/-- `Entry`, without the parts that only the build directory is cleaned by -/
structure Entry where
  file : File
  progname : Name
  version : Int
  deriving DecidableEq

/-- The name that is matched: without its extension if it is not a directory. -/
def File.stem (f : File) : Option Name :=
  if f.isDir then some f.name
  else
    (extensions.find? fun ext => ext.isSuffixOf f.name).map fun ext =>
      f.name.take (f.name.length - ext.length)

/-- The first pattern that matches a name: its place, its function and the match. -/
def firstMatch (filename : Name) : Option (Nat × Parser × Match Nat) :=
  (versionRegex u).zipIdx.findSome? fun p =>
    (p.1.1.match? filename).map fun m => (p.2, p.1.2, m)

/-- `Entry.__init__`: no entry where it raises `EntryParseError` -/
def Entry.ofFile (f : File) : Option Entry :=
  (f.stem.bind (firstMatch u)).map fun found =>
    let parsed := found.2.1.run u f.mtime found.2.2
    { file := f, progname := parsed.1, version := parsed.2 }

/-! ## Cleaning -/

def blacklisted (blacklist : List (Regex Nat)) (filename : Name) : Bool :=
  blacklist.any fun regex => (regex.match? filename).isSome

def entries (blacklist : List (Regex Nat)) (listing : List File) : List Entry :=
  listing.filterMap fun f => if blacklisted blacklist f.name then none else Entry.ofFile u f

/-- One more entry of `progmap`. -/
def addEntry (progmap : List (Name × List Entry)) (entry : Entry) : List (Name × List Entry) :=
  if progmap.any fun p => p.1 == entry.progname then
    progmap.map fun p => if p.1 == entry.progname then (p.1, p.2 ++ [entry]) else p
  else progmap ++ [(entry.progname, [entry])]

/-- `progmap` -/
def progmap (entries : List Entry) : List (Name × List Entry) := entries.foldl addEntry []

/-- A turn of the loop that looks for the last version. -/
def nextLast (lastVersion : Option Entry) (version : Entry) : Option Entry :=
  match lastVersion with
  | none => some version
  | some last =>
    if last.file.isDir && !version.file.isDir then some last
    else if version.version ≥ last.version then some version
    else some last

/-- `lastVersion` after the loop -/
def lastVersion (versions : List Entry) : Option Entry := versions.foldl nextLast none

/-- The versions of a program that are deleted. Names differ in a directory, so an entry that is
    not the last one is another one. -/
def deletedOf (versions : List Entry) : List Entry :=
  match lastVersion versions with
  | none => []
  | some last => versions.filter fun version => version != last

/-- The entries that `main` deletes. -/
def cleanup (blacklist : List (Regex Nat)) (listing : List File) : List Entry :=
  (progmap (entries u blacklist listing)).flatMap fun p => deletedOf p.2

end LibWrt.DlCleanup
