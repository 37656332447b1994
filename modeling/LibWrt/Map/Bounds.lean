/-
LibWrt.Map.Bounds — the shifts and copies that a rule leads to.

`ruleOps` is every shift and every access to an address that the calculation
of a rule comes to, with the amounts and bounds they have in C, up to where
the rule is skipped or printed. What the lengths have to be like for all of
them to be defined is `safe_iff`: the check of the rule does not ask for it.
-/
import LibWrt.Map.Sharing

namespace LibWrt.Map

open List Option
open LibWrt.Bits

/-! ## What is done -/

/-- A shift of an operand of so many bits, or an access to the first bytes of an object. -/
inductive Op where
  | shift (amount : Int) (width : Nat)
  | touch (size upTo : Nat)
  deriving DecidableEq

def Op.Ok : Op → Prop
  | .shift amount width => 0 ≤ amount ∧ amount < width
  | .touch size upTo => upTo ≤ size

/-- A length as a `size_t`. -/
def sizeT (n : Int) : Nat := (n % 2 ^ 64).toNat

/-- `bmemcmp` of two addresses -/
def bmemcmpOps (a b : List UInt8) (bits : Nat) : List Op :=
  let bytes := bits / 8
  let rest := bits % 8
  [.touch a.length bytes, .touch b.length bytes] ++
    if a.take bytes = b.take bytes ∧ rest > 0 then
      [.touch a.length (bytes + 1), .touch b.length (bytes + 1), .shift (8 - rest) 32,
        .shift (8 - rest) 32]
    else []

/-- `bmemcpy` between objects of these sizes -/
def bmemcpyOps (a b bits : Nat) : List Op :=
  let bytes := bits / 8
  let rest := bits % 8
  [.touch a bytes, .touch b bytes] ++
    if rest > 0 then
      [.shift (8 - rest) 32, .touch a (bytes + 1), .touch b (bytes + 1)]
    else []

/-- `bmemcpys64`, with the eight bytes of its buffer between the objects -/
def bmemcpys64Ops (a b frombits nbits : Nat) : List Op :=
  let frombyte := frombits / 8
  let tobyte := (frombits + nbits) / 8
  [.touch b (tobyte + 1), .touch 8 (tobyte - frombyte + 1),
    .shift ((frombits % 8 : Nat) : Int) 64] ++ bmemcpyOps a 8 nbits

/-- A turn of the loop of `match_prefix` -/
def matchEntryOps (r : Rule) (f : Found) (e : Entry) : List Op :=
  let mask : Nat := if r.lw4o6 ∧ e.mask = 128 then 64 else e.mask
  let first := if f.pdlen < mask ∧ (mask : Int) ≥ r.prefix6len then
      bmemcmpOps e.address r.ipv6Prefix (sizeT r.prefix6len)
    else []
  if f.pdlen < mask ∧ (mask : Int) ≥ r.prefix6len ∧
      bmemcmp e.address r.ipv6Prefix r.prefix6len.toNat then
    first ++ bmemcpyOps 16 16 mask
  else if r.lw4o6 ∧ f.pdlen < r.prefix6len ∧ (mask : Int) < r.prefix6len then
    first ++ bmemcmpOps e.address r.ipv6Prefix mask ++
      if bmemcmp e.address r.ipv6Prefix mask then bmemcpyOps 16 16 (sizeT r.prefix6len) else []
  else first

/-- `match_prefix` -/
def matchPrefixOps (r : Rule) : Found → List Entry → List Op
  | _, [] => []
  | f, e :: rest => matchEntryOps r f e ++ matchPrefixOps r (matchEntry r f e) rest

/-- The prefixes of an interface, and its addresses for lightweight 4over6. -/
def matchInterfaceOps (r : Rule) (f : Found) (c : Interface) : List Op :=
  matchPrefixOps r f c.prefixes ++
    if r.lw4o6 then matchPrefixOps r (matchPrefix r f c.prefixes) c.addresses else []

def findPdOps (r : Rule) (iface : String) (f : Found) : List Interface → List Op
  | [] => []
  | c :: rest =>
    if iface ≠ "*" ∧ iface ≠ c.name then findPdOps r iface f rest
    else
      matchInterfaceOps r f c ++
        if (matchInterface r f c).pdlen ≥ 0 then []
        else findPdOps r iface (matchInterface r f c) rest

def calcOps (p : Plan) (pdlen : Int) : List Op :=
  (if p.psid = none ∧ pdlen ≥ 0 then
      bmemcpys64Ops 2 16 (p.prefix6len + p.ealen - p.psidlen) p.psidlen
    else []) ++
  (if p.psidlen > 0 then [.shift (16 - p.psidlen) 32, .shift (16 - p.psidlen) 32] else []) ++
  if pdlen ≥ 0 ∨ p.ealen = p.psidlen then
    bmemcpys64Ops 4 16 p.prefix6len (p.ealen - p.psidlen) ++ [.shift p.prefix4len 32] ++
      bmemcpyOps 4 4 p.prefix4len
  else []

def portSetOps (p : Plan) : List Op :=
  [.shift (16 - p.offset) 32, .shift p.offset 32,
    .shift ((16 : Int) - p.offset - p.psidlen) 32]

def printOps (legacy : Bool) (p : Plan) (pdlen : Int) : List Op :=
  (if pdlen ≥ 0 then
      let v4offset := if legacy then 9 else 10
      [.touch 16 (v4offset + 4), .touch 16 (v4offset + 4 + 2)] ++ bmemcpyOps 16 16 (sizeT pdlen)
    else []) ++
  if p.psidlen > 0 ∧ (p.psid.isSome ∨ pdlen ≥ 0) then
    let first := if p.offset = 0 then 0 else 1
    .shift p.offset 32 :: (List.range' first (2 ^ p.offset - first)).flatMap fun _ => portSetOps p
  else []

def foundOf (iface : String) (dump : List Interface) (r : Rule) : Found :=
  if r.pdlen < 0 then findPd r iface { pdlen := r.pdlen, pd := r.pd } dump
  else { pdlen := r.pdlen, pd := r.pd }

def ruleOps (legacy : Bool) (iface : String) (dump : List Interface) (r : Rule) : List Op :=
  let pdlen := (foundOf iface dump r).pdlen
  (if r.pdlen < 0 then findPdOps r iface { pdlen := r.pdlen, pd := r.pd } dump else []) ++
  match settle legacy r pdlen with
  | none => []
  | some p =>
    calcOps p pdlen ++ if pdlen < 0 ∧ !r.fmr then [] else printOps legacy p pdlen

/-! ## What is to hold -/

/-- Every shift and access is defined, and the port ranges are ranges of ports. -/
structure Safe (legacy : Bool) (iface : String) (dump : List Interface) (r : Rule) : Prop where
  ops : ∀ op ∈ ruleOps legacy iface dump r, op.Ok
  ports : ∀ env p f o, evaluate env legacy iface dump r = some (.rule p f o) →
    ∀ sets, o.portsets = some sets → ∀ s ∈ sets, s.1 ≤ s.2 ∧ s.2 ≤ 65535

/-- An entry of the dump is looked at. -/
def LooksAt (iface : String) (dump : List Interface) (r : Rule) : Prop :=
  ∃ c ∈ dump, (iface = "*" ∨ iface = c.name) ∧ (c.prefixes ≠ [] ∨ r.lw4o6 = true ∧ c.addresses ≠ [])

/-- The lengths of an accepted rule go together. -/
structure Plan.Bounded (p : Plan) (r : Rule) (pdlen : Int) : Prop where
  /-- The PSID of the prefix ends before its last bit. -/
  psid : p.psid = none → pdlen ≥ 0 → p.prefix6len + p.ealen < 128
  /-- The bits of the address do too, there are no more than 32, and some are not of the rule. -/
  address : pdlen ≥ 0 ∨ p.ealen = p.psidlen → p.prefix6len + (p.ealen - p.psidlen) < 128 ∧
    p.ealen - p.psidlen ≤ 32 ∧ p.prefix4len < 32
  /-- Where port sets are printed, offset and PSID are in a port. -/
  ports : p.psidlen > 0 → p.psid.isSome ∨ pdlen ≥ 0 → ¬ (pdlen < 0 ∧ r.fmr = false) →
    p.offset + p.psidlen ≤ 16

/-! ## Copies -/

theorem bmemcpyOps_iff {a b n : Nat} :
    (∀ op ∈ bmemcpyOps a b n, op.Ok) ↔ n ≤ 8 * a ∧ n ≤ 8 * b := by
  unfold bmemcpyOps
  dsimp only
  split
  · simp only [cons_append, nil_append, forall_mem_cons, Op.Ok, not_mem_nil,
      false_imp_iff, implies_true, and_true]
    omega
  · simp only [cons_append, nil_append, forall_mem_cons, Op.Ok, not_mem_nil,
      false_imp_iff, implies_true, and_true]
    omega

theorem bmemcpys64Ops_iff {a b frombits nbits : Nat} :
    (∀ op ∈ bmemcpys64Ops a b frombits nbits, op.Ok) ↔ frombits + nbits < 8 * b ∧
      (frombits + nbits) / 8 - frombits / 8 < 8 ∧ nbits ≤ 8 * a ∧ nbits ≤ 64 := by
  unfold bmemcpys64Ops
  dsimp only
  rw [forall_mem_append, bmemcpyOps_iff]
  simp only [forall_mem_cons, Op.Ok, not_mem_nil, false_imp_iff, implies_true, and_true]
  omega

theorem bmemcmpOps_ok {a b : List UInt8} {n : Nat} (ha : n ≤ 8 * a.length)
    (hb : n ≤ 8 * b.length) : ∀ op ∈ bmemcmpOps a b n, op.Ok := by
  unfold bmemcmpOps
  dsimp only
  split
  · simp only [cons_append, nil_append, forall_mem_cons, Op.Ok, not_mem_nil,
      false_imp_iff, implies_true, and_true]
    omega
  · simp only [append_nil, forall_mem_cons, Op.Ok, not_mem_nil,
      false_imp_iff, implies_true, and_true]
    omega

/-! ## The delegated prefix -/

section Lookup

variable {r : Rule} {f : Found} {iface : String}

theorem matchEntryOps_ok (hsix : 0 ≤ r.prefix6len) (f : Found) (e : Entry) :
    ∀ op ∈ matchEntryOps r f e, op.Ok := by
  have hle := r.prefix6len_le
  have hsize : sizeT r.prefix6len ≤ 128 := by
    unfold sizeT
    omega
  have hfirst := bmemcmpOps_ok (a := e.address) (b := r.ipv6Prefix) (n := sizeT r.prefix6len)
    (by rw [e.address_length]; exact hsize) (by rw [r.ipv6Prefix_length]; exact hsize)
  have hmask : (if r.lw4o6 ∧ e.mask = 128 then 64 else e.mask) ≤ 128 := by
    have := e.mask_le
    split <;> omega
  unfold matchEntryOps
  generalize (if r.lw4o6 ∧ e.mask = 128 then 64 else e.mask) = mask at hmask ⊢
  have hsecond := bmemcmpOps_ok (a := e.address) (b := r.ipv6Prefix) (n := mask)
    (by rw [e.address_length]; exact hmask) (by rw [r.ipv6Prefix_length]; exact hmask)
  have hfirst' : ∀ op ∈ (if f.pdlen < mask ∧ (mask : Int) ≥ r.prefix6len then
      bmemcmpOps e.address r.ipv6Prefix (sizeT r.prefix6len) else []), op.Ok := by
    split
    · exact hfirst
    · exact forall_mem_nil _
  dsimp only
  split
  · exact forall_mem_append.mpr ⟨hfirst', bmemcpyOps_iff.mpr ⟨hmask, hmask⟩⟩
  · split
    · refine forall_mem_append.mpr ⟨forall_mem_append.mpr ⟨hfirst', hsecond⟩, ?_⟩
      split
      · exact bmemcpyOps_iff.mpr ⟨hsize, hsize⟩
      · exact forall_mem_nil _
    · exact hfirst'

theorem matchPrefixOps_ok (hsix : 0 ≤ r.prefix6len) (f : Found) (cur : List Entry) :
    ∀ op ∈ matchPrefixOps r f cur, op.Ok := by
  induction cur generalizing f with
  | nil => exact forall_mem_nil _
  | cons e rest ih => exact forall_mem_append.mpr ⟨matchEntryOps_ok hsix f e, ih _⟩

theorem matchInterfaceOps_ok (hsix : 0 ≤ r.prefix6len) (f : Found) (c : Interface) :
    ∀ op ∈ matchInterfaceOps r f c, op.Ok := by
  refine forall_mem_append.mpr ⟨matchPrefixOps_ok hsix f _, ?_⟩
  split
  · exact matchPrefixOps_ok hsix _ _
  · exact forall_mem_nil _

theorem findPdOps_ok (hsix : 0 ≤ r.prefix6len) (f : Found) (dump : List Interface) :
    ∀ op ∈ findPdOps r iface f dump, op.Ok := by
  induction dump generalizing f with
  | nil => exact forall_mem_nil _
  | cons c rest ih =>
    unfold findPdOps
    split
    · exact ih f
    · refine forall_mem_append.mpr ⟨matchInterfaceOps_ok hsix f c, ?_⟩
      split
      · exact forall_mem_nil _
      · exact ih _

/-- Without a prefix length, the first entry is compared far beyond its end. -/
theorem matchPrefixOps_bad (hint : -2 ^ 31 ≤ r.prefix6len) (hsix : r.prefix6len < 0)
    (hpd : f.pdlen < 0) {cur : List Entry} (hcur : cur ≠ []) :
    ∃ op ∈ matchPrefixOps r f cur, ¬ op.Ok := by
  obtain ⟨e, rest, rfl⟩ := exists_cons_of_ne_nil hcur
  refine ⟨.touch e.address.length (sizeT r.prefix6len / 8), ?_, ?_⟩
  · refine mem_append_left _ ?_
    unfold matchEntryOps
    generalize (if r.lw4o6 ∧ e.mask = 128 then 64 else e.mask) = mask
    have hcond : f.pdlen < mask ∧ (mask : Int) ≥ r.prefix6len := by omega
    dsimp only
    rw [if_pos hcond]
    split
    · exact mem_append_left _ (by simp [bmemcmpOps])
    · split
      · exact mem_append_left _ (mem_append_left _ (by simp [bmemcmpOps]))
      · simp [bmemcmpOps]
  · rw [Op.Ok, e.address_length]
    unfold sizeT
    omega

/-- An interface without an entry is passed. -/
theorem matchInterface_empty {c : Interface} (hprefixes : c.prefixes = [])
    (haddresses : r.lw4o6 = true → c.addresses = []) :
    matchInterfaceOps r f c = [] ∧ matchInterface r f c = f := by
  unfold matchInterfaceOps matchInterface
  rw [hprefixes]
  cases hlw : r.lw4o6 with
  | false => exact ⟨rfl, rfl⟩
  | true =>
    rw [haddresses hlw]
    exact ⟨rfl, rfl⟩

/-- The search is all right if and only if there is a prefix length, or no entry to look at. -/
theorem findPdOps_iff (hint : -2 ^ 31 ≤ r.prefix6len) (hpd : f.pdlen < 0)
    (dump : List Interface) :
    (∀ op ∈ findPdOps r iface f dump, op.Ok) ↔ (LooksAt iface dump r → 0 ≤ r.prefix6len) := by
  constructor
  · intro hok hlooks
    by_contra hsix
    induction dump generalizing f with
    | nil =>
      obtain ⟨c, hc, -⟩ := hlooks
      cases hc
    | cons c rest ih =>
      unfold findPdOps at hok
      by_cases hname : iface ≠ "*" ∧ iface ≠ c.name
      · rw [if_pos hname] at hok
        refine ih hpd hok ?_
        obtain ⟨d, hd, hdname, hentries⟩ := hlooks
        rcases mem_cons.mp hd with rfl | hd
        · exact absurd hdname (by simpa [not_or] using hname)
        · exact ⟨d, hd, hdname, hentries⟩
      · rw [if_neg hname] at hok
        obtain ⟨hthis, hrest⟩ := forall_mem_append.mp hok
        obtain ⟨hfirst, hsecond⟩ := forall_mem_append.mp hthis
        by_cases hprefixes : c.prefixes = []
        · by_cases haddresses : r.lw4o6 = true → c.addresses = []
          · have hempty := (matchInterface_empty (f := f) hprefixes haddresses).2
            rw [hempty, if_neg (by omega)] at hrest
            refine ih hpd hrest ?_
            obtain ⟨d, hd, hdname, hentries⟩ := hlooks
            rcases mem_cons.mp hd with rfl | hd
            · rcases hentries with h | ⟨hlw, h⟩
              · exact absurd hprefixes h
              · exact absurd (haddresses hlw) h
            · exact ⟨d, hd, hdname, hentries⟩
          · rw [Classical.not_imp] at haddresses
            rw [if_pos haddresses.1, hprefixes] at hsecond
            obtain ⟨op, hop, hbad⟩ :=
              matchPrefixOps_bad (f := f) hint (by omega) hpd haddresses.2
            exact hbad (hsecond op hop)
        · obtain ⟨op, hop, hbad⟩ := matchPrefixOps_bad (f := f) hint (by omega) hpd hprefixes
          exact hbad (hfirst op hop)
  · intro hlooks
    by_cases hsix : 0 ≤ r.prefix6len
    · exact findPdOps_ok hsix f dump
    · have hnone : ∀ c ∈ dump, iface = "*" ∨ iface = c.name →
          c.prefixes = [] ∧ (r.lw4o6 = true → c.addresses = []) := by
        intro c hc hname
        constructor
        · by_contra hne
          exact hsix (hlooks ⟨c, hc, hname, .inl hne⟩)
        · intro hlw
          by_contra hne
          exact hsix (hlooks ⟨c, hc, hname, .inr ⟨hlw, hne⟩⟩)
      clear hlooks
      induction dump with
      | nil => exact forall_mem_nil _
      | cons c rest ih =>
        have hrest := ih fun d hd => hnone d (mem_cons_of_mem c hd)
        unfold findPdOps
        split
        · exact hrest
        · rename_i hname
          obtain ⟨hprefixes, haddresses⟩ := hnone c mem_cons_self (by
            by_contra h
            rw [not_or] at h
            exact hname h)
          obtain ⟨hops, hsame⟩ := matchInterface_empty (f := f) hprefixes haddresses
          rw [hops, hsame, if_neg (by omega)]
          exact hrest

end Lookup

/-! ## An accepted rule -/

section Accepted

variable {legacy : Bool} {r : Rule} {p : Plan}

theorem calcOps_iff {pdlen : Int} : (∀ op ∈ calcOps p pdlen, op.Ok) ↔
    (p.psid = none → pdlen ≥ 0 → p.prefix6len + p.ealen < 128) ∧
      (pdlen ≥ 0 ∨ p.ealen = p.psidlen → p.prefix6len + (p.ealen - p.psidlen) < 128 ∧
        p.ealen - p.psidlen ≤ 32 ∧ p.prefix4len < 32) := by
  have hpsidlen := p.psidlen_le
  have hle := p.psidlen_le_ealen
  have hfour := p.prefix4len_le
  have hpsid : (∀ op ∈ (if p.psid = none ∧ pdlen ≥ 0 then
      bmemcpys64Ops 2 16 (p.prefix6len + p.ealen - p.psidlen) p.psidlen else []), op.Ok) ↔
        (p.psid = none → pdlen ≥ 0 → p.prefix6len + p.ealen < 128) := by
    split
    · rename_i hcond
      rw [bmemcpys64Ops_iff]
      constructor
      · intro h _ _
        omega
      · intro h
        have := h hcond.1 hcond.2
        omega
    · rename_i hcond
      exact ⟨fun _ h h' => absurd ⟨h, h'⟩ hcond, fun _ => forall_mem_nil _⟩
  have hshift : ∀ op ∈ (if p.psidlen > 0 then
      [Op.shift (16 - p.psidlen) 32, .shift (16 - p.psidlen) 32] else []), op.Ok := by
    split
    · simp only [forall_mem_cons, Op.Ok, not_mem_nil, false_imp_iff, implies_true,
        and_true]
      omega
    · exact forall_mem_nil _
  have haddress : (∀ op ∈ (if pdlen ≥ 0 ∨ p.ealen = p.psidlen then
      bmemcpys64Ops 4 16 p.prefix6len (p.ealen - p.psidlen) ++ [Op.shift p.prefix4len 32] ++
        bmemcpyOps 4 4 p.prefix4len else []), op.Ok) ↔
        (pdlen ≥ 0 ∨ p.ealen = p.psidlen → p.prefix6len + (p.ealen - p.psidlen) < 128 ∧
          p.ealen - p.psidlen ≤ 32 ∧ p.prefix4len < 32) := by
    split
    · rename_i hcond
      rw [forall_mem_append, forall_mem_append, bmemcpys64Ops_iff, bmemcpyOps_iff]
      simp only [forall_mem_cons, Op.Ok, not_mem_nil, false_imp_iff, implies_true,
        and_true]
      constructor
      · intro h _
        omega
      · intro h
        have := h hcond
        omega
    · rename_i hcond
      exact ⟨fun _ h => absurd h hcond, fun _ => forall_mem_nil _⟩
  unfold calcOps
  rw [forall_mem_append, forall_mem_append, hpsid, haddress]
  exact ⟨fun h => ⟨h.1.1, h.2⟩, fun h => ⟨⟨h.1, hshift⟩, h.2⟩⟩

theorem printOps_iff {pdlen : Int} (hpd : pdlen ≤ 128) :
    (∀ op ∈ printOps legacy p pdlen, op.Ok) ↔
      (p.psidlen > 0 → p.psid.isSome ∨ pdlen ≥ 0 → p.offset + p.psidlen ≤ 16) := by
  have hoffset := p.offset_le
  have haddress : ∀ op ∈ (if pdlen ≥ 0 then
      let v4offset := if legacy then 9 else 10
      [Op.touch 16 (v4offset + 4), .touch 16 (v4offset + 4 + 2)] ++
        bmemcpyOps 16 16 (sizeT pdlen) else []), op.Ok := by
    split
    · have hsize : sizeT pdlen ≤ 128 := by
        unfold sizeT
        omega
      refine forall_mem_append.mpr ⟨?_, bmemcpyOps_iff.mpr ⟨hsize, hsize⟩⟩
      cases legacy <;> simp [Op.Ok]
    · exact forall_mem_nil _
  unfold printOps
  rw [forall_mem_append]
  refine ⟨fun h => ?_, fun h => ⟨haddress, ?_⟩⟩
  · intro hpsidlen hpsid
    have hloop := h.2
    rw [if_pos ⟨hpsidlen, hpsid⟩] at hloop
    -- the loop has a turn
    have hturn : (1 : Nat) - (if p.offset = 0 then 1 else 0) ∈
        List.range' (if p.offset = 0 then 0 else 1)
          (2 ^ p.offset - if p.offset = 0 then 0 else 1) := by
      rw [mem_range'_1]
      split
      · rename_i hzero
        simp [hzero]
      · rename_i hzero
        have htwo : 2 ^ 1 ≤ 2 ^ p.offset := Nat.pow_le_pow_right (by decide) (by omega)
        omega
    have hop := (forall_mem_cons.mp hloop).2 (.shift ((16 : Int) - p.offset - p.psidlen) 32)
      (mem_flatMap.mpr ⟨_, hturn, by simp [portSetOps]⟩)
    rw [Op.Ok] at hop
    omega
  · split
    · rename_i hcond
      have hfit := h hcond.1 hcond.2
      refine forall_mem_cons.mpr ⟨by rw [Op.Ok]; omega, fun op hop => ?_⟩
      obtain ⟨k, -, hop⟩ := mem_flatMap.mp hop
      have hall : ∀ op ∈ portSetOps p, op.Ok := by
        simp only [portSetOps, forall_mem_cons, Op.Ok, not_mem_nil, false_imp_iff,
          implies_true, and_true]
        omega
      exact hall op hop
    · exact forall_mem_nil _

/-- A port set is a range of ports. -/
theorem portSet_range {psid k : Nat} {s : Nat × Nat} (hfit : p.offset + p.psidlen ≤ 16)
    (hpsid : psid < 2 ^ p.psidlen) (hk : k < 2 ^ p.offset)
    (h : portSet p (psid <<< (16 - p.psidlen)) k = some s) : s.1 ≤ s.2 ∧ s.2 ≤ 65535 := by
  unfold portSet at h
  rw [portSet_start p k hfit hpsid, Nat.one_shiftLeft] at h
  dsimp only at h
  set width := 2 ^ (16 - p.offset - p.psidlen) with hwidth
  have hpos : 0 < width := Nat.two_pow_pos _
  have hlast : width * (k * 2 ^ p.psidlen + psid) + width ≤ 65536 := by
    have hblock : k * 2 ^ p.psidlen + psid + 1 ≤ 2 ^ p.offset * 2 ^ p.psidlen :=
      calc k * 2 ^ p.psidlen + psid + 1 ≤ (k + 1) * 2 ^ p.psidlen := by
            rw [Nat.add_mul]
            omega
        _ ≤ 2 ^ p.offset * 2 ^ p.psidlen := Nat.mul_le_mul_right _ hk
    calc width * (k * 2 ^ p.psidlen + psid) + width
        = width * (k * 2 ^ p.psidlen + psid + 1) := by ring
      _ ≤ width * (2 ^ p.offset * 2 ^ p.psidlen) := Nat.mul_le_mul_left _ hblock
      _ = 2 ^ 16 := by
        rw [hwidth, ← pow_add, ← pow_add]
        congr 1
        omega
  generalize (if width * (k * 2 ^ p.psidlen + psid) = 0 then 1
    else width * (k * 2 ^ p.psidlen + psid)) = start at h
  split at h
  · rename_i hle
    obtain rfl := some.inj h
    exact ⟨hle, by dsimp only; omega⟩
  · cases h

theorem psidOf_lt {env : Env} {pdlen : Int} {pd : List UInt8} {psid : Nat}
    (h : psidOf env p pdlen pd = some (some psid)) : psid < 2 ^ 16 := by
  unfold psidOf at h
  cases hgiven : p.psid with
  | some v =>
    rw [hgiven] at h
    obtain rfl := some.inj (some.inj h)
    have := p.psid_le v hgiven
    omega
  | none =>
    rw [hgiven] at h
    dsimp only at h
    split at h
    · obtain ⟨psid16, hcopy, hpsid⟩ := map_eq_some_iff.mp h
      obtain rfl := some.inj hpsid
      have hlt := beNat_lt psid16
      rw [(bmemcpys64_spec hcopy).1] at hlt
      exact hlt
    · cases some.inj h

/-- Every range that is printed is one of ports. -/
theorem evaluate_ports {env : Env} {iface : String} {dump : List Interface} {f : Found}
    {o : Outcome} (h : evaluate env legacy iface dump r = some (.rule p f o))
    {sets : List (Nat × Nat)} (hsets : o.portsets = some sets) :
    ∀ s ∈ sets, s.1 ≤ s.2 ∧ s.2 ≤ 65535 := by
  have heval : evaluate env legacy iface dump r =
      match settle legacy r (foundOf iface dump r).pdlen with
      | none => some .invalid
      | some p =>
        if (foundOf iface dump r).pdlen < 0 ∧ !r.fmr then some .noPd
        else (compute env legacy r p (foundOf iface dump r).pdlen (foundOf iface dump r).pd).map
          (.rule p (foundOf iface dump r)) := rfl
  rw [heval] at h
  split at h
  · cases h
  · split at h
    · cases h
    · obtain ⟨o', hcompute, hverdict⟩ := map_eq_some_iff.mp h
      obtain ⟨hplan, -, rfl⟩ := Verdict.rule.inj hverdict
      rw [hplan] at hcompute
      obtain ⟨psid, addr, portsets, hpsid, -, hports, ho⟩ := compute_iff.mp hcompute
      rw [ho] at hsets
      obtain rfl : portsets = some sets := hsets
      cases psid with
      | none => cases hports
      | some v =>
        have hlt := psidOf_lt hpsid
        unfold portsetsOf at hports
        dsimp only at hports
        split at hports
        · obtain ⟨sets', hsets', heq⟩ := map_eq_some_iff.mp hports
          obtain rfl := some.inj heq
          unfold portSets at hsets'
          split at hsets'
          · cases hsets'
          · rename_i hfit
            obtain rfl := some.inj hsets'
            intro s hs
            obtain ⟨k, hk, hset⟩ := mem_filterMap.mp hs
            have hq : v >>> (16 - p.psidlen) < 2 ^ p.psidlen := by
              have := p.psidlen_le
              rw [Nat.shiftRight_eq_div_pow, Nat.div_lt_iff_lt_mul (Nat.two_pow_pos _), ← pow_add]
              have hsum : p.psidlen + (16 - p.psidlen) = 16 := by omega
              rw [hsum]
              exact hlt
            refine portSet_range (by omega) hq ?_ hset
            obtain ⟨-, hk⟩ := mem_range'_1.mp hk
            have htwo : 0 < 2 ^ p.offset := Nat.two_pow_pos _
            split at hk <;> omega
        · cases some.inj hports

end Accepted

/-! ## Any rule -/

theorem matchEntry_pdlen_le {r : Rule} {f : Found} (h : f.pdlen ≤ 128) (e : Entry) :
    (matchEntry r f e).pdlen ≤ 128 := by
  have hsix := r.prefix6len_le
  have hmask := e.mask_le
  have hmask' : (if r.lw4o6 ∧ e.mask = 128 then 64 else e.mask) ≤ 128 := by split <;> omega
  unfold matchEntry
  generalize (if r.lw4o6 ∧ e.mask = 128 then 64 else e.mask) = mask at hmask' ⊢
  dsimp only
  split
  · dsimp only
    omega
  · split
    · exact hsix
    · exact h

theorem matchPrefix_pdlen_le {r : Rule} {f : Found} (h : f.pdlen ≤ 128) (cur : List Entry) :
    (matchPrefix r f cur).pdlen ≤ 128 := by
  induction cur generalizing f with
  | nil => exact h
  | cons e rest ih => exact ih (matchEntry_pdlen_le h e)

theorem findPd_pdlen_le {r : Rule} {iface : String} {f : Found} (h : f.pdlen ≤ 128)
    (dump : List Interface) : (findPd r iface f dump).pdlen ≤ 128 := by
  induction dump generalizing f with
  | nil => exact h
  | cons c rest ih =>
    have hmatch : (matchInterface r f c).pdlen ≤ 128 := by
      unfold matchInterface
      dsimp only
      split
      · exact matchPrefix_pdlen_le (matchPrefix_pdlen_le h _) _
      · exact matchPrefix_pdlen_le h _
    unfold findPd
    split
    · exact ih h
    · dsimp only
      split
      · exact hmatch
      · exact ih hmatch

theorem foundOf_pdlen_le (iface : String) (dump : List Interface) (r : Rule) :
    (foundOf iface dump r).pdlen ≤ 128 := by
  unfold foundOf
  split
  · exact findPd_pdlen_le r.pdlen_le dump
  · exact r.pdlen_le

/-- What the shifts and accesses of a rule ask for. -/
theorem ruleOps_iff (legacy : Bool) (iface : String) (dump : List Interface) {r : Rule}
    (hint : -2 ^ 31 ≤ r.prefix6len) : (∀ op ∈ ruleOps legacy iface dump r, op.Ok) ↔
      (r.pdlen < 0 → LooksAt iface dump r → 0 ≤ r.prefix6len) ∧
        ∀ p, settle legacy r (foundOf iface dump r).pdlen = some p →
          p.Bounded r (foundOf iface dump r).pdlen := by
  have hfind : (∀ op ∈ (if r.pdlen < 0 then
      findPdOps r iface { pdlen := r.pdlen, pd := r.pd } dump else []), op.Ok) ↔
        (r.pdlen < 0 → LooksAt iface dump r → 0 ≤ r.prefix6len) := by
    split
    · rename_i hpd
      rw [findPdOps_iff hint hpd]
      exact ⟨fun h _ => h, fun h => h hpd⟩
    · rename_i hpd
      exact ⟨fun _ h => absurd h hpd, fun _ => forall_mem_nil _⟩
  have hle := foundOf_pdlen_le iface dump r
  unfold ruleOps
  dsimp only
  rw [forall_mem_append, hfind]
  refine and_congr_right fun _ => ?_
  cases hsettle : settle legacy r (foundOf iface dump r).pdlen with
  | none => simp
  | some p =>
    simp only [some.injEq, forall_eq']
    rw [forall_mem_append, calcOps_iff]
    by_cases hskip : (foundOf iface dump r).pdlen < 0 ∧ (!r.fmr) = true
    · rw [if_pos hskip]
      have hfmr : r.fmr = false := by simpa using hskip.2
      constructor
      · intro h
        exact ⟨h.1.1, h.1.2, fun _ _ hprint => absurd ⟨hskip.1, hfmr⟩ hprint⟩
      · exact fun h => ⟨⟨h.psid, h.address⟩, forall_mem_nil _⟩
    · rw [if_neg hskip, printOps_iff hle]
      constructor
      · intro h
        exact ⟨h.1.1, h.1.2, fun hpsidlen hpsid _ => h.2 hpsidlen hpsid⟩
      · refine fun h => ⟨⟨h.psid, h.address⟩, fun hpsidlen hpsid => h.ports hpsidlen hpsid ?_⟩
        intro hfmr
        exact hskip ⟨hfmr.1, by rw [hfmr.2]; rfl⟩

theorem Plan.Bounded.compute {p : Plan} {r : Rule} {pdlen : Int} (h : p.Bounded r pdlen)
    (hprint : ¬ (pdlen < 0 ∧ r.fmr = false)) (env : Env) (legacy : Bool) (pd : List UInt8) :
    ∃ o, compute env legacy r p pdlen pd = some o := by
  have hq := p.psidlen_le
  obtain ⟨psid, hpsid, hgiven⟩ : ∃ psid, psidOf env p pdlen pd = some psid ∧
      (psid.isSome → p.psid.isSome ∨ pdlen ≥ 0) := by
    unfold psidOf
    split
    · rename_i v hv
      exact ⟨some v, rfl, fun _ => .inl (by rw [hv]; rfl)⟩
    · split
      · rename_i hpd
        obtain ⟨c, hc⟩ := bmemcpys64_some (a := [0, 0]) (pd ++ env.beyond)
          (p.prefix6len + p.ealen - p.psidlen) (n := p.psidlen) (by simpa using hq) (by simp)
        exact ⟨_, by rw [hc]; rfl, fun _ => .inr hpd⟩
      · exact ⟨none, rfl, nofun⟩
  obtain ⟨addr, haddr⟩ : ∃ addr, ipv4addrOf env r p pdlen pd = some addr := by
    unfold ipv4addrOf
    split
    · rename_i hpart
      have hroom := (h.address hpart).2.1
      obtain ⟨c, hc⟩ := bmemcpys64_some (a := [0, 0, 0, 0]) (pd ++ env.beyond) p.prefix6len
        (n := p.ealen - p.psidlen) (by simpa using hroom) (by simp)
      exact ⟨_, by rw [hc]; rfl⟩
    · exact ⟨_, rfl⟩
  obtain ⟨sets, hsets⟩ : ∃ sets, portsetsOf p psid = some sets := by
    cases psid with
    | none => exact ⟨none, rfl⟩
    | some v =>
      by_cases hpos : p.psidlen > 0
      · have hfit := h.ports hpos (hgiven rfl) hprint
        simp only [portsetsOf, hpos, if_true, portSets, Nat.not_lt.mpr hfit, if_false]
        exact ⟨_, rfl⟩
      · exact ⟨none, by simp only [portsetsOf, hpos, if_false]⟩
  exact ⟨_, compute_iff.mpr ⟨psid, addr, sets, hpsid, haddr, hsets, rfl⟩⟩

/-- Where all of `ruleOps` is defined, so is the calculation. -/
theorem evaluate_defined (legacy : Bool) (iface : String) (dump : List Interface) {r : Rule}
    (hint : -2 ^ 31 ≤ r.prefix6len) (hops : ∀ op ∈ ruleOps legacy iface dump r, op.Ok) (env : Env) :
    ∃ v, evaluate env legacy iface dump r = some v := by
  obtain ⟨-, hbounded⟩ := (ruleOps_iff legacy iface dump hint).mp hops
  have hfound : (if r.pdlen < 0 then findPd r iface { pdlen := r.pdlen, pd := r.pd } dump
      else { pdlen := r.pdlen, pd := r.pd }) = foundOf iface dump r := rfl
  unfold evaluate
  dsimp only
  rw [hfound]
  split
  · exact ⟨_, rfl⟩
  · rename_i p hp
    split
    · exact ⟨_, rfl⟩
    · rename_i hskip
      obtain ⟨o, ho⟩ := (hbounded p hp).compute (by simpa using hskip) env legacy
        (foundOf iface dump r).pd
      exact ⟨_, by rw [ho]; rfl⟩

/-- A rule is calculated without an undefined shift or an access outside if and only if there is
a prefix length, or no entry to compare it with, and the lengths of an accepted rule go
together. -/
theorem safe_iff (legacy : Bool) (iface : String) (dump : List Interface) {r : Rule}
    (hint : -2 ^ 31 ≤ r.prefix6len) : Safe legacy iface dump r ↔
      (r.pdlen < 0 → LooksAt iface dump r → 0 ≤ r.prefix6len) ∧
        ∀ p, settle legacy r (foundOf iface dump r).pdlen = some p →
          p.Bounded r (foundOf iface dump r).pdlen := by
  have hops := ruleOps_iff legacy iface dump hint
  exact ⟨fun h => hops.mp h.ops, fun h => ⟨hops.mpr h, fun env p f o heval sets hsets =>
    evaluate_ports heval hsets⟩⟩

/-- `ealen=16,prefix4len=24,prefix6len=40,pdlen=56` with its prefix -/
def boundedRule : Rule :=
  Rule.parse [.ealen 16, .prefix4len 24, .prefix6len 40, .pdlen 56, .ipv4Prefix [192, 0, 2, 0],
    .ipv6Prefix [32, 1, 13, 184, 0, 0, 0, 0, 0, 0, 0, 0, 0, 0, 0, 0],
    .pd [32, 1, 13, 184, 0, 1, 5, 0, 0, 0, 0, 0, 0, 0, 0, 0]]

theorem safe_boundedRule : Safe false "wan" [] boundedRule := by
  refine (safe_iff false "wan" [] (by decide)).mpr ⟨fun _ _ => by decide, fun p hp => ?_⟩
  have haccept : settle false boundedRule (foundOf "wan" [] boundedRule).pdlen =
      some ((settle false boundedRule 56).get rfl) := rfl
  obtain rfl := some.inj (haccept.symm.trans hp)
  exact ⟨fun _ _ => by decide, fun _ => by decide, fun _ _ _ => by decide⟩

/-- `type=lw4o6,prefix6len=56,pdlen=56`, with a whole IPv4 address -/
def lwRule : Rule :=
  Rule.parse [.type true, .prefix6len 56, .pdlen 56, .ipv4Prefix [192, 0, 2, 1],
    .ipv6Prefix [32, 1, 13, 184, 0, 1, 5, 0, 0, 0, 0, 0, 0, 0, 0, 0],
    .pd [32, 1, 13, 184, 0, 1, 5, 0, 0, 0, 0, 0, 0, 0, 0, 0]]

/-- The address is shifted by all of its bits. -/
theorem safe_lwRule_fails : ¬ Safe false "wan" [] lwRule := by
  intro h
  have hshift : (Op.shift 32 32).Ok := h.ops _ (by decide)
  exact absurd hshift.2 (by decide)

end LibWrt.Map
