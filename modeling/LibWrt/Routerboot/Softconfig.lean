/-
LibWrt.Routerboot.Softconfig — the soft configuration and its commit.

The driver keeps the partition in a buffer. A store changes a word of the
buffer and nulls the CRC field, which so says that the buffer is dirty; a
commit reads the partition again, or puts the CRC into the buffer and writes
it out.

A call holds the lock for a section at a time, and `step` is one section of
one call. A commit has three: it looks at the CRC field, it does its work,
and where that failed it nulls the CRC field, which takes no lock.
-/
import LibWrt.Lib.Bytes
import LibWrt.Lib.Crc32
import LibWrt.Routerboot.Tag

namespace LibWrt.Routerboot.Softconfig

open Bytes

/-! ## What a store accepts -/

/-- The SoC, as `sc_tag_cpufreq_ath79_arraysize` tells it. -/
inductive Soc where
  | ar7161
  | ar71xx
  | ar724x
  | ar9344
  | qca953x
  | qca9556
  | qca9558
  | other
  deriving DecidableEq

/-- The known tags, `sc_attrs`. -/
inductive ScAttr where
  | uartSpeed
  | bootDelay
  | bootDevice
  | bootKey
  | cpuMode
  | biosVersion
  | bootProto
  | cpufreqIndex
  | booter
  | silentBoot
  deriving DecidableEq

/-- `tag_id` -/
def ScAttr.tagId : ScAttr → Nat
  | uartSpeed => 0x01
  | bootDelay => 0x02
  | bootDevice => 0x03
  | bootKey => 0x04
  | cpuMode => 0x05
  | biosVersion => 0x06
  | bootProto => 0x09
  | cpufreqIndex => 0x0c
  | booter => 0x0d
  | silentBoot => 0x0f

/-- A `sc_u32tvs` table. -/
abbrev Tvs := List (BitVec 32 × String)

def scUartspeeds : Tvs :=
  [(8, "off"), (7, "1200"), (6, "2400"), (5, "4800"), (4, "9600"), (3, "19200"), (2, "38400"),
    (1, "57600"), (0, "115200")]

def scBootdevices : Tvs :=
  [(0, "eth"), (1, "flasheth"), (3, "ethonce"), (5, "flash"), (7, "cfg"), (8, "cfgonce")]

def scCpufreqIndexesAth799x : Tvs :=
  [(0 <<< 3, "a"), (1 <<< 3, "b"), (2 <<< 3, "c"), (3 <<< 3, "d"), (4 <<< 3, "e"), (5 <<< 3, "f")]

def scCpufreqIndexesAth797x : Tvs :=
  [((0 * 9) <<< 4, "a"), ((1 * 9) <<< 4, "b"), ((2 * 9) <<< 4, "c"), ((3 * 9) <<< 4, "d"),
    ((4 * 9) <<< 4, "e"), ((5 * 9) <<< 4, "f"), ((6 * 9) <<< 4, "g"), ((7 * 9) <<< 4, "h")]

/-- `sc_tag_cpufreq_ath79_arraysize`, without a number where it is negative. -/
def scTagCpufreqAth79Arraysize : Soc → Option Nat
  | .ar7161 => some 8
  | .ar724x => some 4
  | .ar9344 => some 6
  | .qca953x => some 5
  | .qca9556 => some 3
  | .qca9558 => some 4
  | .ar71xx => none
  | .other => none

/-- The table of `sc_tag_store_cpufreq_indexes`. -/
def cpufreqTvs : Soc → Tvs
  | .ar7161 | .ar71xx | .ar724x => scCpufreqIndexesAth797x
  | _ => scCpufreqIndexesAth799x

/-- `sysfs_streq`: equal but for a newline at the end. -/
def sysfsStreq (s1 : List Char) (s2 : String) : Bool :=
  s1 = s2.toList || s1 = s2.toList ++ ['\n'] || s1 ++ ['\n'] = s2.toList

/-- `kstrtou32` in base ten. -/
def kstrtou32 (buf : List Char) : Option (BitVec 32) :=
  let line := if buf.head? = some '+' then buf.tail else buf
  let digits := if line.getLast? = some '\n' then line.dropLast else line
  let value := digits.foldl (fun n c => 10 * n + (c.toNat - '0'.toNat)) 0
  if digits ≠ [] ∧ digits.all Char.isDigit ∧ value < 2 ^ 32 then some (BitVec.ofNat 32 value)
  else none

/-- The value that `sc_tag_store_u32tvs` stores, from the first entries of a table. -/
def u32tvsValue (tvs : Tvs) (tvselmts : Nat) (buf : List Char) : Option (BitVec 32) :=
  ((tvs.take tvselmts).find? fun tv => sysfsStreq buf tv.2).map Prod.fst

/-- The value that `sc_tag_store_boolts` stores. -/
def booltsValue (strfalse strtrue : String) (buf : List Char) : Option (BitVec 32) :=
  if sysfsStreq buf strfalse then some 0
  else if sysfsStreq buf strtrue then some 1
  else none

/-- The value that `sc_tag_store_bootdelays` stores. -/
def bootdelaysValue (buf : List Char) : Option (BitVec 32) :=
  (kstrtou32 buf).filter fun data => 1 ≤ data && data ≤ 9

/-- What `tstore` of an attribute stores for an input; there is a SoC where the driver is built
    for ATH79. -/
def ScAttr.tstore (soc : Option Soc) : ScAttr → List Char → Option (BitVec 32)
  | uartSpeed, buf => u32tvsValue scUartspeeds scUartspeeds.length buf
  | bootDelay, buf => bootdelaysValue buf
  | bootDevice, buf => u32tvsValue scBootdevices scBootdevices.length buf
  | bootKey, buf => booltsValue "any" "del" buf
  | cpuMode, buf => booltsValue "powersave" "regular" buf
  | biosVersion, _ => none
  | bootProto, buf => booltsValue "bootp" "dhcp" buf
  | cpufreqIndex, buf => soc.bind fun soc =>
      (scTagCpufreqAth79Arraysize soc).bind fun n => u32tvsValue (cpufreqTvs soc) n buf
  | booter, buf => booltsValue "regular" "backup" buf
  | silentBoot, buf => booltsValue "off" "on" buf

/-! ## The state -/

/-- Where a call of `sc_commit_store` is. -/
inductive Phase where
  | idle
  /-- It has seen a null CRC, and is to write out or to read again. -/
  | checked (flush : Bool)
  /-- `mtdfail` -/
  | failed
  deriving DecidableEq

/-- What the driver has found out at its start: `pld_ofs` and `pld_len` of the attributes. -/
structure Driver where
  bigEndian : Bool
  soc : Option Soc
  pldOfs : ScAttr → Nat
  pldLen : ScAttr → Nat

structure State where
  /-- `sc_buf` -/
  buf : List UInt8
  flash : List UInt8
  commits : Nat → Phase

/-- `RB_SC_CRC32_OFFSET` -/
def crcOffset : Nat := 4

/-- `RB_SC_GETCRC` -/
def Driver.getCrc (d : Driver) (buf : List UInt8) : BitVec 32 := ofWord32 d.bigEndian buf crcOffset

/-- `RB_SC_SETCRC` -/
def Driver.setCrc (d : Driver) (buf : List UInt8) (crc : BitVec 32) : List UInt8 :=
  overwrite buf crcOffset (word32 d.bigEndian crc)

/-- `RB_SC_CLRCRC` -/
def Driver.clrCrc (d : Driver) (buf : List UInt8) : List UInt8 := d.setCrc buf 0

/-- `~crc32(~0, sc_buf, sc_buflen)` -/
def crc32 (buf : List UInt8) : BitVec 32 := ~~~ Crc32.crc32Le (BitVec.allOnes 32) buf

/-- `RB_MAGIC_SOFT` -/
def magicSoft : BitVec 32 := 0x74666f53

/-- The tags in the buffer, behind magic and CRC, with the memory behind it. -/
def tagBuffer (bigEndian : Bool) (behind : Nat → UInt8) (buf : List UInt8) : Buffer where
  mem ofs := (buf[ofs + 8]?).getD (behind ofs)
  len := buf.length - 8
  bigEndian

/-- `pld_ofs` and `pld_len` of an attribute in the image. -/
def locate (bigEndian : Bool) (behind : Nat → UInt8) (buf : List UInt8) (attr : ScAttr) :
    Nat × Nat :=
  match (tagFind (tagBuffer bigEndian behind buf) attr.tagId).2 with
  | some (.payload ofs len) => ((ofs + 8) % 2 ^ 16, len)
  | _ => (0, 0)

/-- `rb_softconfig_init` over a partition that can be read. -/
def init (bigEndian : Bool) (soc : Option Soc) (behind : Nat → UInt8) (flash : List UInt8) :
    Option (Driver × State) :=
  if ofWord32 bigEndian flash 0 ≠ magicSoft then none
  else
    let driver : Driver :=
      { bigEndian, soc
        pldOfs := fun attr => (locate bigEndian behind flash attr).1
        pldLen := fun attr => (locate bigEndian behind flash attr).2 }
    some (driver, { buf := flash, flash, commits := fun _ => .idle })

/-! ## The device -/

/-- What a request to the device comes to: an error, with what it left behind, or so many
    bytes done. -/
inductive Outcome where
  | error (left : List UInt8)
  | done (bytes : Nat)
  deriving DecidableEq

/-- `mtd_read` into the buffer, and whether all of it came. -/
def mtdRead (flash buf : List UInt8) : Outcome → List UInt8 × Bool
  | .error left => (overwrite buf 0 left, false)
  | .done bytes => (overwrite buf 0 (flash.take bytes), bytes = buf.length)

/-- `mtd_erase`, with what a failure leaves. -/
def mtdErase (flash : List UInt8) : Option (List UInt8) → List UInt8 × Bool
  | some left => (overwrite flash 0 left, false)
  | none => (List.replicate flash.length 0xff, true)

/-- `mtd_write` of the buffer over erased flash, and whether all of it went. -/
def mtdWrite (flash buf : List UInt8) : Outcome → List UInt8 × Bool
  | .error left => (overwrite flash 0 left, false)
  | .done bytes => (overwrite flash 0 (buf.take bytes), bytes = buf.length)

/-! ## The calls -/

inductive Act where
  /-- `sc_attr_store` -/
  | store (attr : ScAttr) (capable : Bool) (input : List Char)
  /-- `sc_commit_show` -/
  | show
  /-- `sc_commit_store` up to its second lock; `kstrtobool` has read the input. -/
  | check (call : Nat) (flush : Option Bool) (mtd : Bool)
  | reread (call : Nat) (read : Outcome)
  | flush (call : Nat) (erase : Option (List UInt8)) (write : Outcome)
  | fail (call : Nat)

inductive Event where
  | refused
  | stored
  | status (clean : Bool)
  /-- A commit that returns success and had nothing to do. -/
  | noop
  | waiting
  | reread
  | committed
  | failing
  | dirty
  deriving DecidableEq

/-- A call comes to another phase. -/
def State.phase (s : State) (call : Nat) (phase : Phase) : State :=
  { s with commits := Function.update s.commits call phase }

/-- `sc_attr_store` -/
def attrStore (d : Driver) (s : State) (attr : ScAttr) (capable : Bool) (input : List Char) :
    State × Event :=
  if !capable || d.pldLen attr ≠ 4 then (s, .refused)
  else
    match attr.tstore d.soc input with
    | none => (s, .refused)
    | some data =>
      let buf := overwrite s.buf (d.pldOfs attr) (word32 d.bigEndian data)
      ({ s with buf := d.clrCrc buf }, .stored)

def rereadSection (s : State) (call : Nat) (read : Outcome) : State × Event :=
  let got := mtdRead s.flash s.buf read
  let s := { s with buf := got.1 }
  if got.2 then (s.phase call .idle, .reread) else (s.phase call .failed, .failing)

def flushSection (d : Driver) (s : State) (call : Nat) (erase : Option (List UInt8))
    (write : Outcome) : State × Event :=
  let buf := d.setCrc s.buf (crc32 s.buf)
  let erased := mtdErase s.flash erase
  let written := if erased.2 then mtdWrite erased.1 buf write else (erased.1, false)
  let s := { s with buf, flash := written.1 }
  if written.2 then (s.phase call .idle, .committed) else (s.phase call .failed, .failing)

def step (d : Driver) (s : State) : Act → Option (State × Event)
  | .store attr capable input => some (attrStore d s attr capable input)
  | .show => some (s, .status (d.getCrc s.buf ≠ 0))
  | .check call flush mtd =>
    if s.commits call ≠ .idle then none
    else if d.getCrc s.buf ≠ 0 then some (s, .noop)
    else
      match flush with
      | none => some (s, .refused)
      | some flush =>
        if mtd then some (s.phase call (.checked flush), .waiting) else some (s, .refused)
  | .reread call read =>
    if s.commits call = .checked false then some (rereadSection s call read) else none
  | .flush call erase write =>
    if s.commits call = .checked true then some (flushSection d s call erase write) else none
  | .fail call =>
    if s.commits call = .failed then
      some ({ s with buf := d.clrCrc s.buf }.phase call .idle, .dirty)
    else none

end LibWrt.Routerboot.Softconfig
