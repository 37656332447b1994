/-
LibWrt.Map.Mapcalc — the rule calculation of MAP and lightweight 4over6.

A rule comes as a list of options, the delegated prefix as two of them or out
of the dump of the network interfaces. `settle` is what the rule comes to once
its defaults are in, `compute` the address, the PSID and the port sets.

Where C leaves open what a step does, the model does too: the bytes behind the
prefix and a shift by 32 are given from outside, and a copy out of bounds or a
shift by a negative number gives nothing at all.
-/
import LibWrt.Lib.Bits

namespace LibWrt.Map

open Nat List
open LibWrt.Bits

/-! ## Bit strings -/

/-- `bmemcmp`, whether it is 0. -/
def bmemcmp (a b : List UInt8) (bits : Nat) : Bool :=
  let bytes := bits / 8
  let rest := bits % 8
  a.take bytes == b.take bytes &&
    (rest == 0 || (a.getD bytes 0).toNat >>> (8 - rest) == (b.getD bytes 0).toNat >>> (8 - rest))

/-- `bmemcpy` to a place that has room. -/
def bmemcpy (a b : List UInt8) (bits : Nat) : List UInt8 :=
  let bytes := bits / 8
  let rest := bits % 8
  let a' := b.take bytes ++ a.drop bytes
  if rest > 0 then
    let mask := (1 <<< (8 - rest)) - 1
    a'.set bytes (UInt8.ofNat (((a'.getD bytes 0).toNat &&& mask) |||
      ((255 ^^^ mask) &&& (b.getD bytes 0).toNat)))
  else a'

/-- `bmemcpys64`, if what is copied fits the buffer and the place it goes to. -/
def bmemcpys64 (a b : List UInt8) (frombits nbits : Nat) : Option (List UInt8) :=
  let frombyte := frombits / 8
  let tobyte := (frombits + nbits) / 8
  let size := tobyte - frombyte + 1
  if 8 < size ∨ 8 * a.length < nbits then none
  else
    let read := (b.drop frombyte).take size
    let buf := read ++ replicate (8 - read.length) 0
    some (bmemcpy a (beBytes 8 (beNat buf <<< (frombits % 8))) nbits)

/-- A byte of which the lowest bits stay. -/
theorem testBit_merge {x y m j : Nat} (hj : j < 8) :
    (((x &&& ((1 <<< m) - 1)) ||| ((255 ^^^ ((1 <<< m) - 1)) &&& y)) % 2 ^ 8).testBit j =
      if j < m then x.testBit j else y.testBit j := by
  have h255 : (255 : Nat) = 2 ^ 8 - 1 := rfl
  rw [one_shiftLeft, h255, testBit_mod_two_pow, testBit_or, testBit_and,
    testBit_and, testBit_xor, testBit_two_pow_sub_one, testBit_two_pow_sub_one]
  split <;> simp [*]

variable {a b : List UInt8} {n : Nat}

theorem bitAt_memcpy (hb : n ≤ b.length) (i : Nat) :
    bitAt (b.take n ++ a.drop n) i = if i < 8 * n then bitAt b i else bitAt a i := by
  have hlen : (b.take n).length = n := by simpa using hb
  split
  · rename_i hi
    rw [bitAt_append_left (by omega), bitAt_take hi]
  · rename_i hi
    obtain ⟨j, rfl⟩ := Nat.exists_eq_add_of_le (Nat.not_lt.mp hi)
    have hright := bitAt_append_right (b.take n) (a.drop n) j
    rw [hlen] at hright
    rw [hright, bitAt_drop]

theorem length_bmemcpy (ha : n ≤ 8 * a.length) (hb : n ≤ 8 * b.length) :
    (bmemcpy a b n).length = a.length := by
  unfold bmemcpy
  dsimp only
  split <;> simp <;> omega

theorem bitAt_bmemcpy (ha : n ≤ 8 * a.length) (hb : n ≤ 8 * b.length) (i : Nat) :
    bitAt (bmemcpy a b n) i = if i < n then bitAt b i else bitAt a i := by
  have hcopy := bitAt_memcpy (a := a) (b := b) (n := n / 8) (by omega)
  unfold bmemcpy
  dsimp only
  split
  · rename_i hrest
    have hlen : n / 8 < (b.take (n / 8) ++ a.drop (n / 8)).length := by simp; omega
    rw [bitAt_set hlen]
    split
    · -- the byte that is merged
      rename_i hdiv
      have hold := hcopy i
      rw [if_neg (by omega)] at hold
      have hj : 7 - i % 8 < 8 := by omega
      have hm : 7 - i % 8 < 8 - n % 8 ↔ ¬ i < n := by omega
      rw [UInt8.toNat_ofNat', testBit_merge hj, ← hold, if_congr hm rfl rfl, ite_not]
      simp only [bitAt, hdiv]
    · rename_i hdiv
      rw [hcopy]
      exact if_congr (by omega) rfl rfl
  · rename_i hrest
    rw [hcopy]
    exact if_congr (by omega) rfl rfl

/-- What is copied from the middle of a string. -/
theorem bmemcpys64_spec {c : List UInt8} {frombits nbits : Nat}
    (h : bmemcpys64 a b frombits nbits = some c) : c.length = a.length ∧ nbits ≤ 8 * a.length ∧
      ∀ i, bitAt c i = if i < nbits then bitAt b (frombits + i) else bitAt a i := by
  unfold bmemcpys64 at h
  dsimp only at h
  split at h
  · cases h
  · rename_i hfits
    rw [not_or, Nat.not_lt, Nat.not_lt] at hfits
    obtain ⟨hsize, hroom⟩ := hfits
    obtain rfl := Option.some.inj h
    set size := (frombits + nbits) / 8 - frombits / 8 + 1 with hsizedef
    set buf := (b.drop (frombits / 8)).take size ++
      replicate (8 - ((b.drop (frombits / 8)).take size).length) 0 with hbufdef
    have hbuflen : buf.length = 8 := by
      simp [hbufdef]
      omega
    have hbuf : ∀ j < 8 * size, bitAt buf j = bitAt b (8 * (frombits / 8) + j) := by
      intro j hj
      rw [hbufdef]
      by_cases hread : j < 8 * ((b.drop (frombits / 8)).take size).length
      · rw [bitAt_append_left hread, bitAt_take hj, bitAt_drop]
      · -- the string has ended
        have hend : 8 * b.length ≤ 8 * (frombits / 8) + j := by
          simp at hread
          omega
        obtain ⟨k, rfl⟩ := Nat.exists_eq_add_of_le (Nat.not_lt.mp hread)
        rw [bitAt_append_right, bitAt_replicate_zero, bitAt_of_le hend]
    refine ⟨length_bmemcpy hroom (by simp; omega), hroom, fun i => ?_⟩
    rw [bitAt_bmemcpy hroom (by simp; omega)]
    split
    · rename_i hi
      have hshift : frombits % 8 ≤ 63 - i := by omega
      have hword := testBit_beNat (l := buf) (i := i + frombits % 8) (by omega)
      have hindex : 8 * buf.length - 1 - (i + frombits % 8) = 8 * 8 - 1 - i - frombits % 8 := by
        omega
      have hfrom : 8 * (frombits / 8) + (i + frombits % 8) = frombits + i := by omega
      rw [bitAt_beBytes (by omega), testBit_shiftLeft, ← hindex, hword,
        hbuf _ (by omega), hfrom]
      simp [hshift]
    · rfl

/-- A short copy is always made. -/
theorem bmemcpys64_some (b : List UInt8) (frombits : Nat) (hroom : n ≤ 8 * a.length)
    (ha : a.length ≤ 4) :
    ∃ c, bmemcpys64 a b frombits n = some c := by
  unfold bmemcpys64
  dsimp only
  rw [if_neg (by omega)]
  exact ⟨_, rfl⟩

/-! ## Rules -/

structure Rule where
  lw4o6 : Bool := false
  fmr : Bool := false
  ealen : Int := -1
  prefix4len : Int := 32
  prefix6len : Int := -1
  pdlen : Int := -1
  ipv4Prefix : List UInt8 := replicate 4 0
  ipv6Prefix : List UInt8 := replicate 16 0
  pd : List UInt8 := replicate 16 0
  offset : Int := -1
  psidlen : Int := -1
  psid : Int := -1
  prefix4len_le : prefix4len ≤ 32 := by decide
  prefix6len_le : prefix6len ≤ 128 := by decide
  pdlen_le : pdlen ≤ 128 := by decide
  ipv4Prefix_length : ipv4Prefix.length = 4 := by rfl
  ipv6Prefix_length : ipv6Prefix.length = 16 := by rfl
  pd_length : pd.length = 16 := by rfl
  offset_le : offset ≤ 16 := by decide
  psidlen_le : psidlen ≤ 16 := by decide
  psid_le : psid ≤ 65535 := by decide

/-- An option of a rule. A number is what `strtoul` leaves in an `int`, and an address what
    `inet_pton` gives. -/
inductive Suboption where
  | type (lw4o6 : Bool)
  | fmr
  | ealen (value : Int)
  | prefix4len (value : Int)
  | prefix6len (value : Int)
  | ipv4Prefix (value : List UInt8)
  | ipv6Prefix (value : List UInt8)
  | pd (value : List UInt8)
  | offset (value : Int)
  | psidlen (value : Int)
  | pdlen (value : Int)
  | psid (value : Int)

def Rule.take (r : Rule) : Suboption → Rule
  | .type lw4o6 => { r with lw4o6 }
  | .fmr => { r with fmr := true }
  | .ealen v => if v ≤ 48 then { r with ealen := v } else r
  | .prefix4len v => if h : v ≤ 32 then { r with prefix4len := v, prefix4len_le := h } else r
  | .prefix6len v => if h : v ≤ 128 then { r with prefix6len := v, prefix6len_le := h } else r
  | .ipv4Prefix v =>
    if h : v.length = 4 then { r with ipv4Prefix := v, ipv4Prefix_length := h } else r
  | .ipv6Prefix v =>
    if h : v.length = 16 then { r with ipv6Prefix := v, ipv6Prefix_length := h } else r
  | .pd v => if h : v.length = 16 then { r with pd := v, pd_length := h } else r
  | .offset v => if h : v ≤ 16 then { r with offset := v, offset_le := h } else r
  | .psidlen v => if h : v ≤ 16 then { r with psidlen := v, psidlen_le := h } else r
  | .pdlen v => if h : v ≤ 128 then { r with pdlen := v, pdlen_le := h } else r
  | .psid v => if h : v ≤ 65535 then { r with psid := v, psid_le := h } else r

def Rule.parse (options : List Suboption) : Rule := options.foldl Rule.take {}

/-! ## The delegated prefix -/

structure Entry where
  address : List UInt8
  mask : Nat
  address_length : address.length = 16
  mask_le : mask ≤ 128

structure Interface where
  name : String
  prefixes : List Entry
  addresses : List Entry

structure Found where
  pdlen : Int
  pd : List UInt8

/-- One turn of the loop of `match_prefix`. -/
def matchEntry (r : Rule) (f : Found) (e : Entry) : Found :=
  let mask : Nat := if r.lw4o6 ∧ e.mask = 128 then 64 else e.mask
  if f.pdlen < mask ∧ (mask : Int) ≥ r.prefix6len ∧
      bmemcmp e.address r.ipv6Prefix r.prefix6len.toNat then
    { pdlen := mask, pd := bmemcpy f.pd e.address mask }
  else if r.lw4o6 ∧ f.pdlen < r.prefix6len ∧ (mask : Int) < r.prefix6len ∧
      bmemcmp e.address r.ipv6Prefix mask then
    { pdlen := r.prefix6len, pd := bmemcpy f.pd r.ipv6Prefix r.prefix6len.toNat }
  else f

/-- `match_prefix` -/
def matchPrefix (r : Rule) (f : Found) (cur : List Entry) : Found := cur.foldl (matchEntry r) f

/-- The prefixes of an interface, and its addresses for lightweight 4over6. -/
def matchInterface (r : Rule) (f : Found) (c : Interface) : Found :=
  let f := matchPrefix r f c.prefixes
  if r.lw4o6 then matchPrefix r f c.addresses else f

/-- The interfaces one after the other, up to the first that has the prefix. -/
def findPd (r : Rule) (iface : String) (f : Found) : List Interface → Found
  | [] => f
  | c :: rest =>
    if iface ≠ "*" ∧ iface ≠ c.name then findPd r iface f rest
    else
      let f := matchInterface r f c
      if f.pdlen ≥ 0 then f else findPd r iface f rest

/-! ## The calculation -/

/-- What C leaves open. -/
structure Env where
  /-- The bytes behind the delegated prefix. -/
  beyond : List UInt8
  /-- A shift by all the 32 bits. -/
  shifted : Nat

structure Plan where
  ealen : Nat
  prefix4len : Nat
  prefix6len : Nat
  offset : Nat
  psidlen : Nat
  /-- The PSID of the rule, if it is not to be taken from the prefix. -/
  psid : Option Nat
  prefix4len_le : prefix4len ≤ 32
  prefix6len_le : prefix6len ≤ 128
  offset_le : offset ≤ 16
  psidlen_le : psidlen ≤ 16
  psidlen_le_ealen : psidlen ≤ ealen
  psid_le : ∀ v ∈ psid, v ≤ 65535

/-- `offset` with its default. -/
def Rule.offsetOr (r : Rule) (legacy : Bool) : Int :=
  if r.offset < 0 then if r.lw4o6 then 0 else if legacy then 4 else 6 else r.offset

/-- `psidlen` as long as it is not taken from the other lengths. -/
def Rule.psidlenGiven (r : Rule) : Int := if r.lw4o6 ∧ r.psidlen < 0 then 0 else r.psidlen

/-- `ealen` with its default. -/
def Rule.ealenOr (r : Rule) (pdlen : Int) : Int :=
  let ealen := if r.lw4o6 then r.psidlenGiven else r.ealen
  if ealen < 0 ∧ pdlen ≥ 0 then pdlen - r.prefix6len else ealen

/-- `psidlen` with its default. -/
def Rule.psidlenOr (r : Rule) (pdlen : Int) : Int :=
  if r.psidlenGiven ≤ 0 then max 0 (r.ealenOr pdlen - (32 - r.prefix4len)) else r.psidlenGiven

/-- `psid`, if it is given and not dropped. -/
def Rule.psidOr (r : Rule) : Option Nat :=
  if r.psidlenGiven ≤ 0 ∨ r.psid < 0 then none else some r.psid.toNat

theorem Rule.offsetOr_le (r : Rule) (legacy : Bool) : r.offsetOr legacy ≤ 16 := by
  have := r.offset_le
  unfold Rule.offsetOr
  split_ifs <;> omega

theorem Rule.psidOr_le (r : Rule) : ∀ v ∈ r.psidOr, v ≤ 65535 := by
  have := r.psid_le
  unfold Rule.psidOr
  split_ifs
  · simp
  · simp
    omega

def settle (legacy : Bool) (r : Rule) (pdlen : Int) : Option Plan :=
  if h : r.prefix4len < 0 ∨ r.prefix6len < 0 ∨ r.ealenOr pdlen < 0 ∨ r.psidlenOr pdlen > 16 ∨
      r.ealenOr pdlen < r.psidlenOr pdlen then none
  else some {
    ealen := (r.ealenOr pdlen).toNat
    prefix4len := r.prefix4len.toNat
    prefix6len := r.prefix6len.toNat
    offset := (r.offsetOr legacy).toNat
    psidlen := (r.psidlenOr pdlen).toNat
    psid := r.psidOr
    prefix4len_le := by have := r.prefix4len_le; omega
    prefix6len_le := by have := r.prefix6len_le; omega
    offset_le := by have := r.offsetOr_le legacy; omega
    psidlen_le := by omega
    psidlen_le_ealen := by omega
    psid_le := r.psidOr_le }

structure Outcome where
  ipv4addr : List UInt8
  addr4len : Nat
  psid16 : List UInt8
  ipv6addr : Option (List UInt8)
  /-- None where all the ports go to one. -/
  portsets : Option (List (Nat × Nat))

def portSet (p : Plan) (psid k : Nat) : Option (Nat × Nat) :=
  let start := (k <<< (16 - p.offset)) ||| (psid >>> p.offset)
  let stop := start + (1 <<< (16 - p.offset - p.psidlen)) - 1
  let start := if start = 0 then 1 else start
  if start ≤ stop then some (start, stop) else none

def portSets (p : Plan) (psid : Nat) : Option (List (Nat × Nat)) :=
  if 16 < p.offset + p.psidlen then none
  else
    let first := if p.offset = 0 then 0 else 1
    some ((range' first (2 ^ p.offset - first)).filterMap (portSet p psid))

/-- `psid`, in 16 bits of which the first count, if there is one. -/
def psidOf (env : Env) (p : Plan) (pdlen : Int) (pd : List UInt8) : Option (Option Nat) :=
  match p.psid with
  | some v => some (some v)
  | none =>
    if pdlen ≥ 0 then
      (bmemcpys64 [0, 0] (pd ++ env.beyond) (p.prefix6len + p.ealen - p.psidlen) p.psidlen).map
        fun psid16 => some (beNat psid16)
    else some none

/-- The address of the rule: its prefix, and the bits of the delegated one. -/
def ipv4addrOf (env : Env) (r : Rule) (p : Plan) (pdlen : Int) (pd : List UInt8) :
    Option (List UInt8) :=
  if pdlen ≥ 0 ∨ p.ealen = p.psidlen then
    (bmemcpys64 [0, 0, 0, 0] (pd ++ env.beyond) p.prefix6len (p.ealen - p.psidlen)).map
      fun ipv4addr =>
        let shifted := if p.prefix4len < 32 then beNat ipv4addr >>> p.prefix4len else env.shifted
        bmemcpy (beBytes 4 shifted) r.ipv4Prefix p.prefix4len
  else some [0, 0, 0, 0]

def addr4lenOf (p : Plan) (pdlen : Int) : Nat :=
  if (pdlen ≥ 0 ∨ p.ealen = p.psidlen) ∧ p.prefix4len + p.ealen < 32 then p.prefix4len + p.ealen
  else 32

/-- The address that the prefix makes, with the old format at another place. -/
def ipv6addrOf (legacy : Bool) (ipv4addr psid16 pd : List UInt8) (pdlen : Int) : List UInt8 :=
  let v4offset := if legacy then 9 else 10
  let made := replicate v4offset 0 ++ ipv4addr ++ psid16 ++ replicate (10 - v4offset) 0
  bmemcpy made pd pdlen.toNat

/-- `psid16`; without a PSID there is no prefix, and it is not used. -/
def psid16Of (p : Plan) (psid : Option Nat) : List UInt8 :=
  if p.psidlen > 0 then
    beBytes 2 (match psid with
      | some v => v >>> (16 - p.psidlen)
      | none => 65535)
  else [0, 0]

def portsetsOf (p : Plan) : Option Nat → Option (Option (List (Nat × Nat)))
  | some v =>
    if p.psidlen > 0 then
      (portSets p ((v >>> (16 - p.psidlen)) <<< (16 - p.psidlen))).map some
    else some none
  | none => some none

def compute (env : Env) (legacy : Bool) (r : Rule) (p : Plan) (pdlen : Int) (pd : List UInt8) :
    Option Outcome := do
  let psid ← psidOf env p pdlen pd
  let ipv4addr ← ipv4addrOf env r p pdlen pd
  let portsets ← portsetsOf p psid
  let psid16 := psid16Of p psid
  return {
    ipv4addr, psid16, portsets
    addr4len := addr4lenOf p pdlen
    ipv6addr := if pdlen ≥ 0 then some (ipv6addrOf legacy ipv4addr psid16 pd pdlen) else none }

inductive Verdict where
  | invalid
  | noPd
  | rule (plan : Plan) (f : Found) (o : Outcome)

def evaluate (env : Env) (legacy : Bool) (iface : String) (dump : List Interface) (r : Rule) :
    Option Verdict :=
  let f : Found := { pdlen := r.pdlen, pd := r.pd }
  let f := if r.pdlen < 0 then findPd r iface f dump else f
  match settle legacy r f.pdlen with
  | none => some .invalid
  | some p =>
    if f.pdlen < 0 ∧ !r.fmr then some .noPd
    else (compute env legacy r p f.pdlen f.pd).map (.rule p f)

end LibWrt.Map
