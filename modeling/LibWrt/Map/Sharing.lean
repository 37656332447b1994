/-
LibWrt.Map.Sharing — who shares an address shares no port.

The bits of a delegated prefix behind the prefix of the rule are the EA bits.
The rule makes the end of an IPv4 address of the first of them, and a PSID of
the rest; `Shares` says that it does, and that no two prefixes with other EA
bits get a port of an address both. `shares_iff` says of which rules that is
true. The rule is not checked for it.
-/
import LibWrt.Map.Mapcalc

namespace LibWrt.Map

open Nat
open List hiding pure_def
open Option hiding pure_def
open LibWrt.Bits

/-! ## What a rule is to do -/

structure Delegated where
  pd : List UInt8
  pdlen : Nat
  pd_length : pd.length = 16
  pdlen_le : pdlen ≤ 128

def Delegated.Matches (d : Delegated) (r : Rule) : Prop :=
  r.prefix6len ≤ d.pdlen ∧ ∀ i < r.prefix6len.toNat, bitAt d.pd i = bitAt r.ipv6Prefix i

def eaBits (p : Plan) (pd : List UInt8) : List Bool := ((bits pd).drop p.prefix6len).take p.ealen

/-- The address ends with the first EA bits, and the PSID is the rest. -/
structure Outcome.Split (o : Outcome) (r : Rule) (p : Plan) (pd : List UInt8) : Prop where
  head : (bits o.ipv4addr).take p.prefix4len = (bits r.ipv4Prefix).take p.prefix4len
  suffix : ((bits o.ipv4addr).drop p.prefix4len).take (p.ealen - p.psidlen) =
    (eaBits p pd).take (p.ealen - p.psidlen)
  psid : (bits o.psid16).drop (16 - p.psidlen) = (eaBits p pd).drop (p.ealen - p.psidlen)

def Outcome.Serves (o : Outcome) (addr : List UInt8) (port : Nat) : Prop :=
  (bits addr).take o.addr4len = (bits o.ipv4addr).take o.addr4len ∧ port < 65536 ∧
    ∀ sets ∈ o.portsets, ∃ s ∈ sets, s.1 ≤ port ∧ port ≤ s.2

structure Shares (legacy : Bool) (r : Rule) (p : Plan) : Prop where
  split : ∀ (env : Env) (d : Delegated), d.Matches r → settle legacy r d.pdlen = some p →
    ∃ o, compute env legacy r p d.pdlen d.pd = some o ∧ o.Split r p d.pd
  apart : ∀ (env env' : Env) (d d' : Delegated) (o o' : Outcome), d.Matches r → d'.Matches r →
    settle legacy r d.pdlen = some p → settle legacy r d'.pdlen = some p →
    compute env legacy r p d.pdlen d.pd = some o →
    compute env' legacy r p d'.pdlen d'.pd = some o' → eaBits p d.pd ≠ eaBits p d'.pd →
    ∀ addr port, o.Serves addr port → ¬ o'.Serves addr port

/-- The lengths go together, and the PSID is not given. -/
def Plan.Fits (p : Plan) : Prop :=
  p.prefix6len + p.ealen ≤ 128 ∧ p.prefix4len + (p.ealen - p.psidlen) ≤ 32 ∧
    (0 < p.psidlen → p.offset + p.psidlen ≤ 16) ∧ p.psid = none

/-! ## Addresses and port sets -/

variable {env : Env} {legacy : Bool} {r : Rule} {p : Plan} {o : Outcome} {psid port : Nat}
  {pd : List UInt8}

theorem portSet_start (p : Plan) (k : Nat) (hfit : p.offset + p.psidlen ≤ 16)
    (hpsid : psid < 2 ^ p.psidlen) :
    k <<< (16 - p.offset) ||| (psid <<< (16 - p.psidlen)) >>> p.offset =
      2 ^ (16 - p.offset - p.psidlen) * (k * 2 ^ p.psidlen + psid) := by
  have hpos : 0 < 2 ^ (16 - p.offset - p.psidlen) := Nat.two_pow_pos _
  have hwidth : 16 - p.psidlen = (16 - p.offset - p.psidlen) + p.offset := by omega
  have hcut : (psid <<< (16 - p.psidlen)) >>> p.offset =
      psid * 2 ^ (16 - p.offset - p.psidlen) := by
    rw [shiftLeft_eq, shiftRight_eq_div_pow, hwidth, pow_add, ← Nat.mul_assoc,
      Nat.mul_div_cancel _ (Nat.two_pow_pos _)]
  have hsplit : 2 ^ (16 - p.offset) = 2 ^ p.psidlen * 2 ^ (16 - p.offset - p.psidlen) := by
    rw [← pow_add]
    congr 1
    omega
  have hlow : psid * 2 ^ (16 - p.offset - p.psidlen) < 2 ^ (16 - p.offset) := by
    rw [hsplit]
    exact (Nat.mul_lt_mul_right hpos).mpr hpsid
  rw [hcut, ← shiftLeft_add_eq_or_of_lt hlow, shiftLeft_eq, hsplit]
  ring

/-- The ports of a set have the PSID in them. -/
theorem psid_of_portSet {k : Nat} {s : Nat × Nat} (hfit : p.offset + p.psidlen ≤ 16)
    (hpsid : psid < 2 ^ p.psidlen) (h : portSet p (psid <<< (16 - p.psidlen)) k = some s)
    (hport : s.1 ≤ port ∧ port ≤ s.2) :
    port / 2 ^ (16 - p.offset - p.psidlen) % 2 ^ p.psidlen = psid := by
  have hpos : 0 < 2 ^ (16 - p.offset - p.psidlen) := Nat.two_pow_pos _
  have hstart := portSet_start p k hfit hpsid
  unfold portSet at h
  rw [hstart, one_shiftLeft] at h
  dsimp only at h
  set block := k * 2 ^ p.psidlen + psid with hblock
  set width := 2 ^ (16 - p.offset - p.psidlen) with hwidthdef
  -- the first port is that of the block, or the one behind it
  have hfirst : width * block ≤ if width * block = 0 then 1 else width * block := by
    split <;> omega
  generalize (if width * block = 0 then 1 else width * block) = first at h hfirst
  have hrange : width * block ≤ port ∧ port < width * block + width := by
    split at h
    · obtain rfl := some.inj h
      obtain ⟨hlo, hhi⟩ := hport
      dsimp only at hlo hhi
      omega
    · cases h
  have hdiv : port / width = block := by
    apply Nat.div_eq_of_lt_le
    · rw [Nat.mul_comm]; exact hrange.1
    · rw [Nat.add_mul, Nat.one_mul, Nat.mul_comm]; exact hrange.2
  rw [hdiv, hblock, Nat.mul_comm, mul_add_mod, mod_eq_of_lt hpsid]

/-- A port of the port sets has the PSID in it. -/
theorem psid_of_portSets {sets : List (Nat × Nat)} (hpsid : psid < 2 ^ p.psidlen)
    (h : portSets p (psid <<< (16 - p.psidlen)) = some sets)
    (hport : ∃ s ∈ sets, s.1 ≤ port ∧ port ≤ s.2) :
    port / 2 ^ (16 - p.offset - p.psidlen) % 2 ^ p.psidlen = psid := by
  unfold portSets at h
  split at h
  · cases h
  · rename_i hfit
    obtain rfl := some.inj h
    obtain ⟨s, hs, hin⟩ := hport
    obtain ⟨k, -, hk⟩ := mem_filterMap.mp hs
    exact psid_of_portSet (Nat.not_lt.mp hfit) hpsid hk hin

/-- What is computed comes from these. -/
theorem compute_iff {pdlen : Int} :
    compute env legacy r p pdlen pd = some o ↔
      ∃ psid ipv4addr portsets, psidOf env p pdlen pd = some psid ∧
        ipv4addrOf env r p pdlen pd = some ipv4addr ∧ portsetsOf p psid = some portsets ∧
        o = { ipv4addr, portsets, psid16 := psid16Of p psid, addr4len := addr4lenOf p pdlen
              ipv6addr := if pdlen ≥ 0 then
                some (ipv6addrOf legacy ipv4addr (psid16Of p psid) pd pdlen) else none } := by
  simp only [compute, bind_eq_bind, bind_eq_some_iff, Option.pure_def,
    some.injEq]
  constructor
  · rintro ⟨psid, hpsid, a, ha, sets, hsets, rfl⟩
    exact ⟨psid, a, sets, hpsid, ha, hsets, rfl⟩
  · rintro ⟨psid, a, sets, hpsid, ha, hsets, rfl⟩
    exact ⟨psid, hpsid, a, ha, sets, hsets, rfl⟩

/-- The bits that are taken from the prefix for the PSID. -/
theorem psidOf_spec (env : Env) (pdlen : Nat) (hpd : pd.length = 16) (hpsid : p.psid = none)
    (hfit : p.prefix6len + p.ealen ≤ 128) :
    ∃ psid, psidOf env p pdlen pd = some (some psid) ∧ psid < 2 ^ 16 ∧
      ∀ j < p.psidlen, psid.testBit (15 - j) =
        bitAt pd (p.prefix6len + (p.ealen - p.psidlen) + j) := by
  have hq := p.psidlen_le
  have hle := p.psidlen_le_ealen
  obtain ⟨c, hc⟩ := bmemcpys64_some (a := [0, 0]) (pd ++ env.beyond)
    (p.prefix6len + p.ealen - p.psidlen) (n := p.psidlen) (by simpa using hq) (by simp)
  obtain ⟨hlen, -, hbits⟩ := bmemcpys64_spec hc
  refine ⟨beNat c, ?_, ?_, fun j hj => ?_⟩
  · simp [psidOf, hpsid, hc]
  · have hlt := beNat_lt c
    rw [hlen] at hlt
    exact hlt
  · have hin : j < 8 * c.length := by rw [hlen]; simp; omega
    have hword := testBit_beNat hin
    rw [hlen] at hword
    have hfrom : p.prefix6len + p.ealen - p.psidlen + j =
        p.prefix6len + (p.ealen - p.psidlen) + j := by omega
    rw [show 15 - j = 8 * [(0 : UInt8), 0].length - 1 - j from rfl, hword, hbits, if_pos hj, hfrom,
      bitAt_append_left (by omega)]

/-- The bits of the address. -/
theorem ipv4addrOf_spec (env : Env) (r : Rule) (pdlen : Nat) (hpd : pd.length = 16)
    (hfit : p.prefix6len + p.ealen ≤ 128) (hroom : p.prefix4len + (p.ealen - p.psidlen) ≤ 32) :
    ∃ a, ipv4addrOf env r p pdlen pd = some a ∧ a.length = 4 ∧
      (∀ i < p.prefix4len, bitAt a i = bitAt r.ipv4Prefix i) ∧
      ∀ i < p.ealen - p.psidlen, bitAt a (p.prefix4len + i) = bitAt pd (p.prefix6len + i) := by
  have hr := r.ipv4Prefix_length
  obtain ⟨c, hc⟩ := bmemcpys64_some (a := [0, 0, 0, 0]) (pd ++ env.beyond)
    p.prefix6len (n := p.ealen - p.psidlen) (by simp; omega) (by simp)
  obtain ⟨hlen, -, hbits⟩ := bmemcpys64_spec hc
  have h4 := p.prefix4len_le
  set shifted := if p.prefix4len < 32 then beNat c >>> p.prefix4len else env.shifted with hshifted
  have hcopy := bitAt_bmemcpy (a := beBytes 4 shifted) (b := r.ipv4Prefix) (n := p.prefix4len)
    (by simpa using h4) (by omega)
  refine ⟨bmemcpy (beBytes 4 shifted) r.ipv4Prefix p.prefix4len, ?_, ?_, fun i hi => ?_,
    fun i hi => ?_⟩
  · simp [ipv4addrOf, hc, hshifted]
  · rw [length_bmemcpy (by simpa using h4) (by omega), length_beBytes]
  · rw [hcopy, if_pos hi]
  · -- the bits have gone up by the prefix
    have hlt : p.prefix4len < 32 := by omega
    have hin : i < 8 * c.length := by rw [hlen]; simp; omega
    have hword := testBit_beNat hin
    rw [hlen] at hword
    have hindex : p.prefix4len + (8 * 4 - 1 - (p.prefix4len + i)) =
        8 * [(0 : UInt8), 0, 0, 0].length - 1 - i := by simp; omega
    rw [hcopy, if_neg (by omega), bitAt_beBytes (by omega), hshifted, if_pos hlt,
      testBit_shiftRight, hindex, hword, hbits, if_pos hi, bitAt_append_left (by omega)]

/-- The two ends of the EA bits as parts of the delegated prefix. -/
theorem take_eaBits (pd : List UInt8) : (eaBits p pd).take (p.ealen - p.psidlen) =
    ((bits pd).drop p.prefix6len).take (p.ealen - p.psidlen) := by
  rw [eaBits, take_take, Nat.min_eq_left (sub_le _ _)]

theorem drop_eaBits (pd : List UInt8) : (eaBits p pd).drop (p.ealen - p.psidlen) =
    ((bits pd).drop (p.prefix6len + (p.ealen - p.psidlen))).take p.psidlen := by
  have hle := p.psidlen_le_ealen
  have hrest : p.ealen - (p.ealen - p.psidlen) = p.psidlen := by omega
  rw [eaBits, drop_take, drop_drop, hrest]

/-- A rule that fits is computed as it is to be. -/
theorem compute_spec (env : Env) (legacy : Bool) (r : Rule) (hfits : p.Fits) (d : Delegated) :
    ∃ o psid, compute env legacy r p d.pdlen d.pd = some o ∧ o.Split r p d.pd ∧
      o.addr4len = addr4lenOf p d.pdlen ∧ (0 < p.psidlen → psid < 2 ^ p.psidlen ∧
        o.psid16 = beBytes 2 psid ∧ ∃ sets, o.portsets = some sets ∧
          portSets p (psid <<< (16 - p.psidlen)) = some sets) := by
  obtain ⟨hfit, hroom, hports, hnone⟩ := hfits
  have hq := p.psidlen_le
  have hpd := d.pd_length
  have hr := r.ipv4Prefix_length
  obtain ⟨v, hpsid, hv, hvbits⟩ := psidOf_spec env d.pdlen hpd hnone hfit
  obtain ⟨a, haddr, halen, hhead, hsuffix⟩ :=
    ipv4addrOf_spec env r d.pdlen hpd hfit hroom
  have hsets : ∃ portsets, portsetsOf p (some v) = some portsets ∧
      (0 < p.psidlen → ∃ sets, portsets = some sets ∧
        portSets p ((v >>> (16 - p.psidlen)) <<< (16 - p.psidlen)) = some sets) := by
    by_cases hpos : 0 < p.psidlen
    · have hfit' := hports hpos
      simp only [portsetsOf, hpos, if_true, portSets, Nat.not_lt.mpr hfit', if_false]
      exact ⟨_, rfl, fun _ => ⟨_, rfl, rfl⟩⟩
    · exact ⟨none, by simp [portsetsOf, hpos], fun h => absurd h hpos⟩
  obtain ⟨portsets, hportsets, hsets⟩ := hsets
  refine ⟨_, v >>> (16 - p.psidlen), compute_iff.mpr ⟨some v, a, portsets, hpsid, haddr,
    hportsets, rfl⟩, ⟨?_, ?_, ?_⟩, rfl, fun hpos => ⟨?_, ?_, hsets hpos⟩⟩
  · have hpart : ((bits a).drop 0).take p.prefix4len =
        ((bits r.ipv4Prefix).drop 0).take p.prefix4len := by
      have h4 := p.prefix4len_le
      exact (part_eq_iff (by omega) (by omega)).mpr (by simpa using hhead)
    exact hpart
  · rw [take_eaBits]
    exact (part_eq_iff (l := a) (by omega) (by omega)).mpr hsuffix
  · rw [drop_eaBits]
    have hlen : (psid16Of p (some v)).length = 2 := by
      unfold psid16Of
      split <;> simp
    have hwhole : (bits (psid16Of p (some v))).drop (16 - p.psidlen) =
        ((bits (psid16Of p (some v))).drop (16 - p.psidlen)).take p.psidlen := by
      rw [take_of_length_le]
      simp [hlen]
      omega
    rw [hwhole]
    have hle := p.psidlen_le_ealen
    refine (part_eq_iff (by omega) (by omega)).mpr fun j hj => ?_
    have hpos : p.psidlen > 0 := by omega
    have hindex : 16 - p.psidlen + (8 * 2 - 1 - (16 - p.psidlen + j)) = 15 - j := by omega
    simp only [psid16Of, hpos, if_true]
    rw [bitAt_beBytes (by omega), testBit_shiftRight, hindex]
    exact hvbits j hj
  · have hwidth : (2 : Nat) ^ 16 = 2 ^ p.psidlen * 2 ^ (16 - p.psidlen) := by
      rw [← pow_add]
      congr 1
      omega
    rw [shiftRight_eq_div_pow, Nat.div_lt_iff_lt_mul (Nat.two_pow_pos _), ← hwidth]
    exact hv
  · simp only [psid16Of, gt_iff_lt, hpos, if_true]

theorem addr4lenOf_nat (pdlen : Nat) : addr4lenOf p pdlen =
    if p.prefix4len + p.ealen < 32 then p.prefix4len + p.ealen else 32 := by
  simp [addr4lenOf]

/-- Two prefixes with other EA bits get no port of an address both. -/
theorem apart_of_fits (hfits : p.Fits) {env' : Env} {d d' : Delegated} {o' : Outcome}
    (h : compute env legacy r p d.pdlen d.pd = some o)
    (h' : compute env' legacy r p d'.pdlen d'.pd = some o') (hne : eaBits p d.pd ≠ eaBits p d'.pd)
    {addr : List UInt8} (hserves : o.Serves addr port) : ¬ o'.Serves addr port := by
  rintro ⟨haddr', -, hport'⟩
  obtain ⟨haddr, -, hport⟩ := hserves
  obtain ⟨_, psid, hcompute, hsplit, hlen, hpsid⟩ :=
    compute_spec env legacy r hfits d
  obtain rfl := some.inj (h.symm.trans hcompute)
  obtain ⟨_, psid', hcompute', hsplit', hlen', hpsid'⟩ :=
    compute_spec env' legacy r hfits d'
  obtain rfl := some.inj (h'.symm.trans hcompute')
  -- the addresses are the same as far as the EA bits go into them
  have hsuffix : (eaBits p d.pd).take (p.ealen - p.psidlen) =
      (eaBits p d'.pd).take (p.ealen - p.psidlen) := by
    have hlong : p.prefix4len + (p.ealen - p.psidlen) ≤ o.addr4len := by
      have := hfits.2.1
      rw [hlen, addr4lenOf_nat]
      split <;> omega
    have hsame : (bits o.ipv4addr).take o.addr4len = (bits o'.ipv4addr).take o.addr4len := by
      have hboth : o'.addr4len = o.addr4len := by
        rw [hlen, hlen', addr4lenOf_nat, addr4lenOf_nat]
      rw [← haddr, ← hboth, haddr']
    have hcut : ∀ l : List Bool, (l.drop p.prefix4len).take (p.ealen - p.psidlen) =
        ((l.take o.addr4len).take (p.prefix4len + (p.ealen - p.psidlen))).drop p.prefix4len := by
      intro l
      rw [take_take, Nat.min_eq_left hlong, drop_take, Nat.add_sub_cancel_left]
    rw [← hsplit.suffix, ← hsplit'.suffix, hcut, hcut, hsame]
  -- so that the rest of them are not, and the PSIDs
  have hrest : (eaBits p d.pd).drop (p.ealen - p.psidlen) ≠
      (eaBits p d'.pd).drop (p.ealen - p.psidlen) := by
    intro hdrop
    apply hne
    rw [← take_append_drop (p.ealen - p.psidlen) (eaBits p d.pd), hsuffix, hdrop,
      take_append_drop]
  have hpos : 0 < p.psidlen := by
    by_contra hzero
    have hall : p.psidlen = 0 := by omega
    apply hrest
    rw [drop_eaBits, drop_eaBits, hall, take_zero, take_zero]
  obtain ⟨hlt, hpsid16, sets, hsets, hloop⟩ := hpsid hpos
  obtain ⟨hlt', hpsid16', sets', hsets', hloop'⟩ := hpsid' hpos
  have heq : psid = psid' := by
    rw [← psid_of_portSets hlt hloop (hport sets hsets),
      psid_of_portSets hlt' hloop' (hport' sets' hsets')]
  apply hrest
  rw [← hsplit.psid, ← hsplit'.psid, hpsid16, hpsid16', heq]

/-! ## The rules that share -/

/-- The prefix of a rule, with all the bits behind it alike. -/
def Delegated.filled (d : Delegated) (r : Rule) (fill : UInt8) : Delegated where
  pd := bmemcpy (replicate 16 fill) d.pd r.prefix6len.toNat
  pdlen := d.pdlen
  pd_length := by
    have := r.prefix6len_le
    have := d.pd_length
    rw [length_bmemcpy (by simp; omega) (by omega), length_replicate]
  pdlen_le := d.pdlen_le

theorem Delegated.Matches.filled {d : Delegated} (h : d.Matches r) (fill : UInt8) :
    (d.filled r fill).Matches r := by
  have := r.prefix6len_le
  have := d.pd_length
  refine ⟨h.1, fun i hi => ?_⟩
  show bitAt (bmemcpy _ _ _) i = _
  rw [bitAt_bmemcpy (by simp; omega) (by omega), if_pos hi]
  exact h.2 i hi

theorem bitAt_filled (d : Delegated) {i : Nat} (hi : r.prefix6len.toNat ≤ i) (hlt : i < 128)
    (fill : UInt8) : bitAt (d.filled r fill).pd i = fill.toNat.testBit (7 - i % 8) := by
  have := r.prefix6len_le
  have := d.pd_length
  have hin : i / 8 < 16 := by omega
  show bitAt (bmemcpy _ _ _) i = _
  rw [bitAt_bmemcpy (by simp; omega) (by omega), if_neg (by omega)]
  rw [bitAt, getD_eq_getElem?_getD, getElem?_replicate, if_pos hin, getD_some]

/-- What is accepted has the prefixes of the rule, and a PSID only if the EA bits are too many for
    the address, or the rule has its length. -/
theorem settle_spec {pdlen : Int} (h : settle legacy r pdlen = some p) :
    p.prefix6len = r.prefix6len.toNat ∧ (p.psidlen = 0 → p.prefix4len + p.ealen ≤ 32) ∧
      (p.psid ≠ none → 0 < p.psidlen) := by
  unfold settle at h
  split at h
  · cases h
  · rename_i hok
    obtain rfl := some.inj h
    refine ⟨rfl, fun hzero => ?_, fun hsome => ?_⟩
    · dsimp only at hzero ⊢
      unfold Rule.psidlenOr at hok hzero
      split at hzero <;> omega
    · dsimp only at hsome ⊢
      unfold Rule.psidOr at hsome
      unfold Rule.psidlenOr at hok ⊢
      split at hsome
      · exact absurd rfl hsome
      · rw [if_neg (by omega)]
        omega

theorem sizes_of_compute {pdlen : Nat} (h : compute env legacy r p pdlen pd = some o) :
    o.psid16.length = 2 ∧
      o.ipv4addr.length = 4 ∧ (0 < p.psidlen → p.offset + p.psidlen ≤ 16) ∧
      ∀ v, p.psid = some v → o.psid16 = psid16Of p (some v) := by
  obtain ⟨psid, a, portsets, hpsid, haddr, hportsets, rfl⟩ := compute_iff.mp h
  have h4 := p.prefix4len_le
  have hr := r.ipv4Prefix_length
  refine ⟨?_, ?_, fun hpos => ?_, fun v hv => ?_⟩
  · show (psid16Of p psid).length = 2
    unfold psid16Of
    split <;> simp
  · simp only [ipv4addrOf, ge_iff_le, Int.natCast_nonneg, true_or, if_true,
      map_eq_some_iff] at haddr
    obtain ⟨c, -, rfl⟩ := haddr
    show (bmemcpy _ _ _).length = 4
    rw [length_bmemcpy (by simpa using h4) (by omega), length_beBytes]
  · have hsome : ∃ v, psid = some v := by
      unfold psidOf at hpsid
      split at hpsid
      · exact ⟨_, (some.inj hpsid).symm⟩
      · simp only [ge_iff_le, Int.natCast_nonneg, if_true, map_eq_some_iff] at hpsid
        obtain ⟨c, -, rfl⟩ := hpsid
        exact ⟨_, rfl⟩
    obtain ⟨v, rfl⟩ := hsome
    by_contra hover
    simp [portsetsOf, hpos, portSets, Nat.not_le.mp hover] at hportsets
  · simp only [psidOf, hv, some.injEq] at hpsid
    rw [← hpsid]

/-- The prefixes with other EA bits share no port of an address exactly if the lengths of the rule
    go together and it does not give the PSID. -/
theorem shares_iff {d : Delegated} (hmatch : d.Matches r)
    (haccept : settle legacy r d.pdlen = some p) : Shares legacy r p ↔ p.Fits := by
  constructor
  · intro hshares
    obtain ⟨h6, hauto, hgiven⟩ := settle_spec haccept
    have hle := p.psidlen_le_ealen
    have hq := p.psidlen_le
    have h4 := p.prefix4len_le
    have h6le := p.prefix6len_le
    have hpd := d.pd_length
    obtain ⟨o, hcompute, hsplit⟩ := hshares.split ⟨[], 0⟩ d hmatch haccept
    obtain ⟨hlen16, hlen4, hports, -⟩ := sizes_of_compute hcompute
    have hsuffix := congrArg length hsplit.suffix
    have hpsid := congrArg length hsplit.psid
    simp only [eaBits, length_take, length_drop, length_bits, hlen16, hlen4, hpd]
      at hsuffix hpsid
    have hfit : p.prefix6len + p.ealen ≤ 128 := by omega
    refine ⟨hfit, by omega, hports, ?_⟩
    -- a PSID that is given is the same for every prefix
    by_contra hsome
    obtain ⟨v, hv⟩ := ne_none_iff_exists'.mp hsome
    have hpos := hgiven hsome
    have hsame : ∀ fill, (eaBits p (d.filled r fill).pd).drop (p.ealen - p.psidlen) =
        (bits (psid16Of p (some v))).drop (16 - p.psidlen) := by
      intro fill
      obtain ⟨o', hcompute', hsplit'⟩ :=
        hshares.split ⟨[], 0⟩ (d.filled r fill) (hmatch.filled fill) haccept
      rw [← (sizes_of_compute hcompute').2.2.2 v hv, hsplit'.psid]
    have hfill := (hsame 0).trans (hsame 255).symm
    have hlen : ∀ fill, (d.filled r fill).pd.length = 16 := fun fill => (d.filled r fill).pd_length
    have hlen0 := hlen 0
    have hlen255 := hlen 255
    rw [drop_eaBits, drop_eaBits, part_eq_iff (by omega) (by omega)] at hfill
    have hbit := hfill 0 hpos
    rw [bitAt_filled d (by omega) (by omega), bitAt_filled d (by omega) (by omega)] at hbit
    have hmod : 7 - (p.prefix6len + (p.ealen - p.psidlen) + 0) % 8 < 8 := by omega
    generalize 7 - (p.prefix6len + (p.ealen - p.psidlen) + 0) % 8 = j at hbit hmod
    interval_cases j <;> exact absurd hbit (by decide)
  · intro hfits
    refine ⟨fun env d _ _ => ?_, fun env env' d d' o o' _ _ _ _ h h' hne addr port => ?_⟩
    · obtain ⟨o, -, hcompute, hsplit, -⟩ := compute_spec env legacy r hfits d
      exact ⟨o, hcompute, hsplit⟩
    · exact apart_of_fits hfits h h' hne

/-- `ealen=16,prefix4len=24,prefix6len=40` -/
def mapRule : Rule :=
  Rule.parse [.ealen 16, .prefix4len 24, .prefix6len 40, .ipv4Prefix [192, 0, 2, 0],
    .ipv6Prefix [32, 1, 13, 184, 0, 0, 0, 0, 0, 0, 0, 0, 0, 0, 0, 0]]

/-- A prefix behind `2001:db8::/32`, with three bytes of its own. -/
def delegated (a b c : UInt8) : Delegated where
  pd := [32, 1, 13, 184, a, b, c, 0, 0, 0, 0, 0, 0, 0, 0, 0]
  pdlen := 56
  pd_length := rfl
  pdlen_le := by decide

/-- Half of the EA bits for the address, and half for the PSID. -/
theorem shares_mapRule : ∃ p, (delegated 0 1 5).Matches mapRule ∧
    settle false mapRule (delegated 0 1 5).pdlen = some p ∧ Shares false mapRule p := by
  have hmatch : (delegated 0 1 5).Matches mapRule := ⟨by decide, by decide⟩
  have haccept : settle false mapRule (delegated 0 1 5).pdlen =
      some ((settle false mapRule 56).get rfl) := rfl
  have hfits : ((settle false mapRule 56).get rfl).Fits :=
    ⟨by decide, by decide, by decide, by decide⟩
  exact ⟨_, hmatch, haccept, (shares_iff hmatch haccept).mpr hfits⟩

/-- `ealen=24,prefix4len=24,prefix6len=32,psidlen=8` -/
def longRule : Rule :=
  Rule.parse [.ealen 24, .prefix4len 24, .prefix6len 32, .psidlen 8, .ipv4Prefix [192, 0, 2, 0],
    .ipv6Prefix [32, 1, 13, 184, 0, 0, 0, 0, 0, 0, 0, 0, 0, 0, 0, 0]]

instance (o : Outcome) (addr : List UInt8) (port : Nat) : Decidable (o.Serves addr port) :=
  inferInstanceAs (Decidable (_ ∧ _ ∧ _))

/-- Sixteen EA bits are left for the eight of the address, so that two prefixes get one port. -/
theorem shares_longRule_fails : ∃ p, (delegated 0 1 5).Matches longRule ∧
    settle false longRule (delegated 0 1 5).pdlen = some p ∧ ¬ Shares false longRule p := by
  have hmatch : ∀ b, (delegated 0 b 5).Matches longRule := by
    intro b
    refine ⟨show (32 : Int) ≤ 56 by decide, fun i hi => ?_⟩
    have hlt : i < 32 := hi
    interval_cases i <;> rfl
  have haccept : settle false longRule (delegated 0 1 5).pdlen =
      some ((settle false longRule 56).get rfl) := rfl
  refine ⟨_, hmatch 1, haccept, fun h => ?_⟩
  set p := (settle false longRule 56).get rfl with hp
  have hserves : ∀ b : UInt8, b = 1 ∨ b = 2 → ∃ o,
      compute ⟨[], 0⟩ false longRule p 56 (delegated 0 b 5).pd = some o ∧
        o.Serves [192, 0, 2, 0] 1044 := by
    intro b hb
    have hrun : ((compute ⟨[], 0⟩ false longRule p 56 (delegated 0 b 5).pd).map fun o =>
        decide (o.Serves [192, 0, 2, 0] 1044)) = some true := by
      rcases hb with rfl | rfl <;> decide +kernel
    obtain ⟨o, ho, hdec⟩ := map_eq_some_iff.mp hrun
    exact ⟨o, ho, of_decide_eq_true hdec⟩
  obtain ⟨o, ho, hport⟩ := hserves 1 (.inl rfl)
  obtain ⟨o', ho', hport'⟩ := hserves 2 (.inr rfl)
  have hne : eaBits p (delegated 0 1 5).pd ≠ eaBits p (delegated 0 2 5).pd := by decide +kernel
  exact h.apart _ _ _ _ o o' (hmatch 1) (hmatch 2) haccept haccept ho ho' hne _ _ hport hport'

end LibWrt.Map
