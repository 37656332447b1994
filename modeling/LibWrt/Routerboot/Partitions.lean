/-
LibWrt.Routerboot.Partitions — the partitions of a RouterBOOT device.

The parser first reads the device a block at a time for the well-known
partitions, and then goes through the nodes of the device tree in their
order. A node has its range in `reg`, or is appended to the one before it, or
is where the search has found it. A partition of size 0 is made to end where
the next one starts.

`parseNodes_partitioned` is what the parser makes of the nodes. An empty
partition stays where there is no next one or it starts at the same place.
The sum of an offset and a size is taken in a `size_t` and the search tries a
read that fails again, so `Fits` and reads that do not fail for ever are
asked for.
-/
import LibWrt.Lib.Bytes

namespace LibWrt.Routerboot.Partitions

open List Option Nat
open Bytes

/-! ## The device -/

/-- `RB_BLOCK_SIZE` -/
def blockSize : Nat := 0x1000

/-- The master device, on a machine with so many bits in a `size_t`. -/
structure Master where
  size : Nat
  size_lt : size < 2 ^ 64
  bigEndian : Bool
  sizeBits : Nat
  sizeBits_le : sizeBits ≤ 64

/-- What a `mtd_read` comes to: an error, or the bytes that were read, which may be short. -/
inductive Outcome where
  | error
  | done (bytes : List UInt8)
  deriving DecidableEq

/-- `struct routerboot_dynpart` -/
structure Dynpart where
  name : String
  magic : BitVec 32
  sizeFixup : Bool
  offset : Nat
  size : Nat
  found : Bool
  deriving DecidableEq

/-- `fdt32_to_cpu(OF_DT_HEADER)` -/
def fdtMagic (bigEndian : Bool) : BitVec 32 := if bigEndian then 0xd00dfeed else 0xedfe0dd0

/-- `rb_dynparts` before the first search. -/
def rbDynparts (bigEndian : Bool) : List Dynpart :=
  [{ name := "hard_config", magic := 0x64726148, sizeFixup := false, offset := 0,
     size := blockSize, found := false },
   { name := "soft_config", magic := 0x74666f53, sizeFixup := false, offset := 0,
     size := blockSize, found := false },
   { name := "dtb_config", magic := fdtMagic bigEndian, sizeFixup := true, offset := 0,
     size := 0, found := false }]

/-! ## The search -/

/-- `routerboot_dtbsfixup`: the size in a header, unless the read fails. -/
def routerbootDtbsfixup : Outcome → Option Nat
  | .error => none
  | .done bytes =>
    let psize := (ofWord32 true bytes 4).toNat
    if bytes.length ≠ 40 ∨ psize = 0 then none else some psize

/-- The inner loop over the well-known partitions, with the word that is at `offset`: the
    table, the number of reads so far, and what of the partition found is skipped. -/
def scanTable (reads : Nat → Outcome) (offset : Nat) (buf : BitVec 32) :
    Nat → List Dynpart → List Dynpart × Nat × Nat
  | k, [] => ([], k, 0)
  | k, p :: ps =>
    let rest (k : Nat) (p : Dynpart) :=
      let (ps, k, skip) := scanTable reads offset buf k ps
      (p :: ps, k, skip)
    let found (k size : Nat) :=
      let skip := if size > blockSize then (size - blockSize) / blockSize * blockSize else 0
      ({ p with offset, size, found := true } :: ps, k, skip)
    if p.found ∨ p.magic ≠ buf then rest k p
    else if p.sizeFixup then
      match routerbootDtbsfixup (reads k) with
      | none => rest (k + 1) { p with offset }
      | some size => found (k + 1) size
    else found k p.size

/-- The search: the number of reads so far, the offset, the word read last and the table. -/
structure Search where
  reads : Nat
  offset : Nat
  buf : List UInt8
  table : List Dynpart

def turn (m : Master) (reads : Nat → Outcome) (s : Search) : Search × Bool :=
  match reads s.reads with
  | .error => ({ s with reads := s.reads + 1 }, false)
  | .done bytes =>
    let buf := overwrite s.buf 0 bytes
    let allfound := s.table.all Dynpart.found
    let (table, k, skip) :=
      scanTable reads s.offset (ofWord32 m.bigEndian buf 0) (s.reads + 1) s.table
    ({ reads := k, offset := (s.offset + skip + blockSize) % 2 ^ m.sizeBits, buf, table }, allfound)

/-- The loop of `routerboot_find_dynparts`, or none after so many turns. -/
def findDynpartsFrom (m : Master) (reads : Nat → Outcome) : Nat → Search → Option (List Dynpart)
  | 0, _ => none
  | fuel + 1, s =>
    if s.offset < m.size then
      if (turn m reads s).2 then some (turn m reads s).1.table
      else findDynpartsFrom m reads fuel (turn m reads s).1
    else some s.table

/-- `routerboot_find_dynparts`; the table is what earlier searches left, the word is not
    initialised. -/
def routerbootFindDynparts (m : Master) (reads : Nat → Outcome) (buf : List UInt8)
    (table : List Dynpart) (fuel : Nat) : Option (List Dynpart) :=
  findDynpartsFrom m reads fuel { reads := 0, offset := 0, buf, table }

/-! ## The nodes -/

/-- A child of the device tree node, with its properties and the cells of an address and of a
    size. -/
structure Node where
  label : Option String
  name : Option String
  nodeName : String
  reg : Option (List UInt8)
  size : Option (List UInt8)
  addrCells : Nat
  sizeCells : Nat
  readOnly : Bool
  lock : Bool

/-- `struct mtd_partition` -/
structure Part where
  name : String
  offset : Nat
  size : Nat
  readOnly : Bool
  lock : Bool
  deriving DecidableEq

/-- `of_read_number` from the cell `start` on, into a `size_t`. -/
def ofReadNumber (m : Master) (bytes : List UInt8) (start cells : Nat) : Nat :=
  (range cells).foldl
    (fun r i => (r * 2 ^ 32 + (ofWord32 true bytes (4 * (start + i))).toNat) % 2 ^ 64) 0 %
    2 ^ m.sizeBits

def Node.partname (node : Node) : String := (node.label.or node.name).getD node.nodeName

/-- The offset and the size that a node describes, unless a property has the wrong length. -/
def Node.place (m : Master) (table : List Dynpart) (masterOfs : Nat) (node : Node) :
    Option (Nat × Nat) :=
  match node.reg with
  | some reg =>
    if reg.length / 4 ≠ node.addrCells + node.sizeCells then none
    else some (ofReadNumber m reg 0 node.addrCells,
      ofReadNumber m reg node.addrCells node.sizeCells)
  | none =>
    let known := (table.find? fun p => node.partname = p.name && p.found).map fun p =>
      (p.offset, p.size)
    let (offset, size) := known.getD (masterOfs, 0)
    match node.size with
    | none => some (offset, size)
    | some sz =>
      if sz.length / 4 ≠ node.sizeCells then none
      else some (offset, ofReadNumber m sz 0 node.sizeCells)

inductive Errno where
  | einval
  deriving DecidableEq

/-- The check against the partition before, and the fixup of its size. -/
def fixupPrevious (offset : Nat) : List Part → Option (List Part)
  | [] => some []
  | prev :: parts =>
    if offset < (prev.offset + prev.size) % 2 ^ 64 then none
    else if prev.size = 0 then
      some ({ prev with size := (offset + 2 ^ 64 - prev.offset) % 2 ^ 64 } :: parts)
    else some (prev :: parts)

/-- `ALIGN(x, RB_BLOCK_SIZE)` in a `size_t`. -/
def alignBlock (m : Master) (x : Nat) : Nat :=
  (x + (blockSize - 1)) % 2 ^ m.sizeBits / blockSize * blockSize

def parseNodes (m : Master) (table : List Dynpart) :
    List Node → List Part → Nat → Except Errno (List Part)
  | [], parts, _ => .ok parts.reverse
  | node :: nodes, parts, masterOfs =>
    match node.place m table masterOfs with
    | none => .error .einval
    | some (offset, size) =>
      match fixupPrevious offset parts with
      | none => .error .einval
      | some parts =>
        if (offset + size) % 2 ^ m.sizeBits > m.size then .error .einval
        else
          let part : Part :=
            { name := node.partname, offset, size, readOnly := node.readOnly, lock := node.lock }
          parseNodes m table nodes (part :: parts)
            (alignBlock m ((offset + size) % 2 ^ m.sizeBits))

/-- `routerboot_partitions_parse`: the table it leaves and the partitions; none where the search
    takes more turns. -/
def routerbootPartitionsParse (m : Master) (reads : Nat → Outcome) (buf : List UInt8)
    (table : List Dynpart) (nodes : List Node) (fuel : Nat) :
    Option (List Dynpart × Except Errno (List Part)) :=
  if nodes = [] then some (table, .ok [])
  else
    (routerbootFindDynparts m reads buf table fuel).map fun table =>
      (table, parseNodes m table nodes [] 0)

/-! ## What the nodes become -/

/-- The sum of the offset and the size of each node fits a `size_t`, where the first is appended
    at `masterOfs`. -/
def Fits (m : Master) (table : List Dynpart) : Nat → List Node → Prop
  | _, [] => True
  | masterOfs, node :: nodes => ∀ offset size,
    node.place m table masterOfs = some (offset, size) →
      offset + size < 2 ^ m.sizeBits ∧ Fits m table (alignBlock m (offset + size)) nodes

def Part.fixup (p : Part) : Option Part → Part
  | some next => if p.size = 0 then { p with size := next.offset - p.offset } else p
  | none => p

/-- The partitions of nodes, the first appended at `masterOfs` and each other one where the range
    before it ends: each with the range that its node describes, up to the next one where that has
    no size. -/
inductive Laid (m : Master) (table : List Dynpart) : Nat → List Node → List Part → Prop where
  | nil {masterOfs : Nat} : Laid m table masterOfs [] []
  | cons {node : Node} {nodes : List Node} {part : Part} {parts : List Part} {masterOfs : Nat}
      (hname : part.name = node.partname) (hreadOnly : part.readOnly = node.readOnly)
      (hlock : part.lock = node.lock)
      (hplace : node.place m table masterOfs = some (part.offset, part.size))
      (hrest : Laid m table (alignBlock m (part.offset + part.size)) nodes parts) :
      Laid m table masterOfs (node :: nodes) (part.fixup parts.head? :: parts)

structure Ordered (m : Master) (parts : List Part) : Prop where
  apart : parts.Pairwise fun a b => a.offset + a.size ≤ b.offset
  inside : ∀ p ∈ parts, p.offset + p.size ≤ m.size

variable {m : Master} {table : List Dynpart} {nodes : List Node}

@[simp] theorem Part.fixup_offset (p : Part) (next : Option Part) :
    (p.fixup next).offset = p.offset := by
  unfold Part.fixup
  split
  · split <;> rfl
  · rfl

variable {p : Part} {parts : List Part}

theorem Ordered.cons {q : Part} (h : Ordered m (q :: parts)) (hend : p.offset + p.size ≤ q.offset) :
    Ordered m (p :: q :: parts) := by
  have hq := pairwise_cons.mp h.apart
  have hqin := h.inside q mem_cons_self
  refine ⟨pairwise_cons.mpr ⟨?_, h.apart⟩, ?_⟩
  · intro b hb
    rcases mem_cons.mp hb with rfl | hb
    · exact hend
    · have := hq.1 b hb
      omega
  · intro b hb
    rcases mem_cons.mp hb with rfl | hb
    · omega
    · exact h.inside b hb

theorem fixupPrevious_cons {offset : Nat} {prev : Part} {acc : List Part}
    (hprev : prev.offset + prev.size ≤ m.size) (h : fixupPrevious offset (prev :: acc) = some parts)
    (next : Part) (hnext : next.offset = offset) (hoffset : offset ≤ m.size) :
    parts = prev.fixup (some next) :: acc ∧
      (prev.fixup (some next)).offset + (prev.fixup (some next)).size ≤ offset := by
  have hsize := m.size_lt
  have hmod : (prev.offset + prev.size) % 2 ^ 64 = prev.offset + prev.size :=
    mod_eq_of_lt (by omega)
  simp only [fixupPrevious, hmod] at h
  split at h
  · cases h
  · rename_i hbehind
    unfold Part.fixup
    split at h
    · rename_i hzero
      have hdiff : (offset + 2 ^ 64 - prev.offset) % 2 ^ 64 = next.offset - prev.offset := by
        omega
      obtain rfl := some.inj h
      simp only [hzero, if_true, hdiff, true_and]
      omega
    · rename_i hpos
      obtain rfl := some.inj h
      simp only [hpos, if_false, true_and]
      omega

/-- The nodes behind a partition that is inside of the device. -/
theorem parseNodes_behind {prev : Part} {acc out : List Part} {masterOfs : Nat}
    (hfits : Fits m table masterOfs nodes)
    (hprev : prev.offset + prev.size ≤ m.size)
    (h : parseNodes m table nodes (prev :: acc) masterOfs = .ok out) :
    ∃ rest, out = acc.reverse ++ prev.fixup rest.head? :: rest ∧
      Laid m table masterOfs nodes rest ∧ Ordered m (prev.fixup rest.head? :: rest) := by
  induction nodes generalizing prev acc masterOfs with
  | nil =>
    cases h
    exact ⟨[], by simp [Part.fixup], .nil, by simp [Part.fixup], by simpa [Part.fixup] using hprev⟩
  | cons node nodes ih =>
    simp only [parseNodes] at h
    split at h
    · cases h
    · rename_i offset size hplace
      obtain ⟨hsum, hfits⟩ := hfits _ _ hplace
      split at h
      · cases h
      · rename_i parts hfixup
        rw [mod_eq_of_lt hsum] at h
        split at h
        · cases h
        · rename_i hinside
          let part : Part :=
            { name := node.partname, offset, size, readOnly := node.readOnly, lock := node.lock }
          have hpart : part.offset + part.size ≤ m.size := Nat.le_of_not_gt hinside
          obtain ⟨rest, hout, hlaid, hordered⟩ := ih hfits hpart h
          have hnext : (part.fixup rest.head?).offset = offset := Part.fixup_offset _ _
          obtain ⟨rfl, hend⟩ := fixupPrevious_cons hprev hfixup _ hnext (by omega)
          have hlaid' : Laid m table masterOfs (node :: nodes) (part.fixup rest.head? :: rest) :=
            .cons rfl rfl rfl hplace hlaid
          refine ⟨part.fixup rest.head? :: rest, by simp [hout], hlaid', ?_⟩
          exact hordered.cons (hend.trans hnext.ge)

/-- What the parser makes of the nodes. -/
theorem parseNodes_partitioned (hfits : Fits m table 0 nodes)
    (h : parseNodes m table nodes [] 0 = .ok parts) :
    Laid m table 0 nodes parts ∧ Ordered m parts := by
  cases nodes with
  | nil =>
    cases h
    exact ⟨.nil, by simp, by simp⟩
  | cons node nodes =>
    simp only [parseNodes] at h
    split at h
    · cases h
    · rename_i offset size hplace
      obtain ⟨hsum, hfits⟩ := hfits _ _ hplace
      simp only [fixupPrevious, mod_eq_of_lt hsum] at h
      split at h
      · cases h
      · rename_i hinside
        let part : Part :=
          { name := node.partname, offset, size, readOnly := node.readOnly, lock := node.lock }
        have hpart : part.offset + part.size ≤ m.size := Nat.le_of_not_gt hinside
        obtain ⟨rest, hout, hlaid, hordered⟩ := parseNodes_behind hfits hpart h
        have hlaid' : Laid m table 0 (node :: nodes) (part.fixup rest.head? :: rest) :=
          .cons rfl rfl rfl hplace hlaid
        rw [hout]
        exact ⟨hlaid', hordered⟩

theorem Ordered.tail (h : Ordered m (p :: parts)) :
    Ordered m parts :=
  ⟨(pairwise_cons.mp h.apart).2, fun q hq => h.inside q (mem_cons_of_mem _ hq)⟩

/-- A partition is empty only where its node describes no size, and the next partition, if there
    is one, starts at the same place. -/
theorem Laid.empty {ofs : Nat} (h : Laid m table ofs nodes parts) (hordered : Ordered m parts) {i : Nat}
    (hp : parts[i]? = some p) (hempty : p.size = 0) :
    (∃ node masterOfs, nodes[i]? = some node ∧ node.place m table masterOfs = some (p.offset, 0)) ∧
      ∀ q, parts[i + 1]? = some q → q.offset = p.offset := by
  induction h generalizing i with
  | nil => simp at hp
  | @cons node nodes part parts masterOfs _ _ _ hplace _ ih =>
    cases i with
    | succ i => exact ih hordered.tail hp
    | zero =>
      obtain rfl := some.inj hp
      have hzero : part.size = 0 := by
        unfold Part.fixup at hempty
        split at hempty
        · split at hempty
          · assumption
          · exact hempty
        · exact hempty
      refine ⟨⟨node, masterOfs, rfl, by rw [hplace, hzero, Part.fixup_offset]⟩, fun q hq => ?_⟩
      have hhead : parts.head? = some q := by
        rw [head?_eq_getElem?]
        exact hq
      have hmem : q ∈ parts := mem_of_mem_head? hhead
      have hbehind := (pairwise_cons.mp hordered.apart).1 q hmem
      rw [hhead] at hempty hbehind ⊢
      simp only [Part.fixup, hzero, if_true] at hempty hbehind ⊢
      omega

/-! ## The search ends -/

def missing (table : List Dynpart) : Nat := table.countP fun p => !p.found

/-- The inner loop finds one, or skips nothing. -/
theorem scanTable_missing (reads : Nat → Outcome) (offset : Nat) (buf : BitVec 32) (k : Nat)
    (table : List Dynpart) :
    missing (scanTable reads offset buf k table).1 < missing table ∨
      missing (scanTable reads offset buf k table).1 = missing table ∧
        (scanTable reads offset buf k table).2.2 = 0 := by
  induction table generalizing k with
  | nil => exact .inr ⟨rfl, rfl⟩
  | cons p ps ih =>
    -- the other partitions, behind this one as it is or with another offset
    have hrest : ∀ (k : Nat) (q : Dynpart), q.found = p.found →
        missing (q :: (scanTable reads offset buf k ps).1) < missing (p :: ps) ∨
          missing (q :: (scanTable reads offset buf k ps).1) = missing (p :: ps) ∧
            (scanTable reads offset buf k ps).2.2 = 0 := by
      intro k q hq
      have hps := ih k
      simp only [missing, countP_cons, hq] at hps ⊢
      omega
    -- this one is found
    have hfound : ∀ size, p.found = false →
        missing ({ p with offset, size, found := true } :: ps) < missing (p :: ps) := by
      intro size hnot
      simp [missing, hnot]
    simp only [scanTable]
    split
    · exact hrest k p rfl
    · rename_i hnot
      have hnot : p.found = false := by simpa using (not_or.mp hnot).1
      split
      · split
        · exact hrest (k + 1) { p with offset } rfl
        · exact .inl (hfound _ hnot)
      · exact .inl (hfound _ hnot)

variable {reads : Nat → Outcome}

/-- Reads that fail are turns that change nothing else. -/
theorem findDynpartsFrom_retry {s : Search} {n : Nat} (hoffset : s.offset < m.size)
    (herror : ∀ k, s.reads ≤ k → k < s.reads + n → reads k = .error) {fuel : Nat}
    (h : (findDynpartsFrom m reads fuel { s with reads := s.reads + n }).isSome) :
    (findDynpartsFrom m reads (fuel + n) s).isSome := by
  induction n generalizing s with
  | zero => exact h
  | succ n ih =>
    have hfirst : turn m reads s = ({ s with reads := s.reads + 1 }, false) := by
      simp only [turn, herror s.reads (Nat.le_refl _) (by omega)]
    rw [← Nat.add_assoc, findDynpartsFrom, if_pos hoffset, hfirst]
    simp only [Bool.false_eq_true, if_false]
    refine ih (s := { s with reads := s.reads + 1 }) hoffset ?_ ?_
    · intro k hk hlt
      exact herror k (by simp only at hk; omega) (by simp only at hlt; omega)
    · have hsum : s.reads + 1 + n = s.reads + (n + 1) := by omega
      simpa only [hsum] using h

/-- A turn whose read does not fail finds a partition, or goes on by a block. -/
theorem turn_done {s : Search} {bytes : List UInt8} (hread : reads s.reads = .done bytes)
    (hoffset : s.offset < m.size) (hsize : m.size + blockSize ≤ 2 ^ m.sizeBits) :
    missing (turn m reads s).1.table < missing s.table ∨
      missing (turn m reads s).1.table = missing s.table ∧
        (turn m reads s).1.offset = s.offset + blockSize := by
  simp only [turn, hread]
  rcases scanTable_missing reads s.offset (ofWord32 m.bigEndian (overwrite s.buf 0 bytes) 0)
    (s.reads + 1) s.table with hlt | ⟨heq, hskip⟩
  · exact .inl hlt
  · refine .inr ⟨heq, ?_⟩
    rw [hskip, Nat.add_zero]
    exact mod_eq_of_lt (by omega)

/-- The search ends where no read fails for ever. -/
theorem findDynpartsFrom_ends (hreads : ∀ n, ∃ k, n ≤ k ∧ reads k ≠ .error)
    (hsize : m.size + blockSize ≤ 2 ^ m.sizeBits) (s : Search) :
    ∃ fuel, (findDynpartsFrom m reads fuel s).isSome := by
  induction hmissing : missing s.table using Nat.strong_induction_on generalizing s with
  | _ missed ihFound =>
  induction hleft : m.size - s.offset using Nat.strong_induction_on generalizing s with
  | _ left ihBlock =>
  subst hmissing hleft
  by_cases hoffset : s.offset < m.size
  · obtain ⟨n, hn, hfirst⟩ : ∃ n, reads (s.reads + n) ≠ .error ∧
        ∀ k, s.reads ≤ k → k < s.reads + n → reads k = .error := by
      have hex : ∃ n, reads (s.reads + n) ≠ .error := by
        obtain ⟨k, hk, hne⟩ := hreads s.reads
        exact ⟨k - s.reads, by rwa [Nat.add_sub_cancel' hk]⟩
      refine ⟨Nat.find hex, Nat.find_spec hex, fun k hk hlt => ?_⟩
      have hbefore := Nat.find_min hex (show k - s.reads < Nat.find hex by omega)
      rwa [Nat.add_sub_cancel' hk, not_not] at hbefore
    let s' : Search := { s with reads := s.reads + n }
    obtain ⟨bytes, hbytes⟩ : ∃ bytes, reads s'.reads = .done bytes := by
      cases hread : reads s'.reads with
      | error => exact absurd hread hn
      | done bytes => exact ⟨bytes, rfl⟩
    have hnext : ∃ fuel, (findDynpartsFrom m reads fuel (turn m reads s').1).isSome := by
      rcases turn_done (s := s') hbytes hoffset hsize with hlt | ⟨heq, hblock⟩
      · exact ihFound _ hlt _ rfl
      · refine ihBlock _ ?_ _ heq rfl
        rw [hblock]
        simp only [s', blockSize]
        omega
    obtain ⟨fuel, hfuel⟩ := hnext
    refine ⟨fuel + 1 + n, findDynpartsFrom_retry hoffset hfirst ?_⟩
    show (findDynpartsFrom m reads (fuel + 1) s').isSome
    rw [findDynpartsFrom, if_pos (show s'.offset < m.size from hoffset)]
    split
    · rfl
    · exact hfuel
  · exact ⟨1, by simp [findDynpartsFrom, hoffset]⟩

/-! ## The parser -/

/-- The parser returns where no read fails for ever; and if no sum passes a `size_t`, the
    partitions it returns are those of the nodes, in order, apart and inside of the device,
    empty only where a node without a size is the last one or has the next one at its place. -/
theorem routerbootPartitionsParse_spec (m : Master) (reads : Nat → Outcome) (buf : List UInt8)
    (table : List Dynpart) (nodes : List Node) :
    ((∀ n, ∃ k, n ≤ k ∧ reads k ≠ .error) → m.size + blockSize ≤ 2 ^ m.sizeBits →
      ∃ fuel, (routerbootPartitionsParse m reads buf table nodes fuel).isSome) ∧
    ∀ fuel table' parts,
      routerbootPartitionsParse m reads buf table nodes fuel = some (table', .ok parts) →
      Fits m table' 0 nodes →
      Laid m table' 0 nodes parts ∧ Ordered m parts ∧
        ∀ (i : Nat) (p : Part), parts[i]? = some p → p.size = 0 →
          (∃ node masterOfs, nodes[i]? = some node ∧
            node.place m table' masterOfs = some (p.offset, 0)) ∧
          ∀ q, parts[i + 1]? = some q → q.offset = p.offset := by
  have hboth : ∀ (table' : List Dynpart) (parts : List Part),
      Laid m table' 0 nodes parts → Ordered m parts → Laid m table' 0 nodes parts ∧ Ordered m parts ∧
        ∀ (i : Nat) (p : Part), parts[i]? = some p → p.size = 0 →
          (∃ node masterOfs, nodes[i]? = some node ∧
            node.place m table' masterOfs = some (p.offset, 0)) ∧
          ∀ q, parts[i + 1]? = some q → q.offset = p.offset :=
    fun _ _ hlaid hordered => ⟨hlaid, hordered, fun _ _ hp hempty => hlaid.empty hordered hp hempty⟩
  unfold routerbootPartitionsParse
  constructor
  · intro hreads hsize
    split
    · exact ⟨0, rfl⟩
    · obtain ⟨fuel, hfuel⟩ :=
        findDynpartsFrom_ends hreads hsize { reads := 0, offset := 0, buf, table }
      exact ⟨fuel, by rwa [isSome_map]⟩
  · intro fuel table' parts hparse hfits
    split at hparse
    · rename_i hnil
      obtain ⟨-, hok⟩ := Prod.mk.inj (some.inj hparse)
      obtain rfl := Except.ok.inj hok
      exact hboth table' [] (hnil ▸ .nil) ⟨by simp, by simp⟩
    · obtain ⟨found, -, hresult⟩ := map_eq_some_iff.mp hparse
      obtain ⟨rfl, hparts⟩ := Prod.mk.inj hresult
      obtain ⟨hlaid, hordered⟩ := parseNodes_partitioned hfits hparts
      exact hboth _ _ hlaid hordered

/-! ## Fixed devices -/

/-- Sixteen blocks, and a 32-bit `size_t`. -/
def smallMaster : Master where
  size := 0x10000
  size_lt := by decide
  bigEndian := false
  sizeBits := 32
  sizeBits_le := by decide

def fixedNode (label : String) (reg : List UInt8) : Node :=
  { label := some label, name := none, nodeName := label, reg := some reg, size := none,
    addrCells := 1, sizeCells := 1, readOnly := false, lock := false }

def dynamicNode (label : String) : Node :=
  { label := some label, name := none, nodeName := label, reg := none, size := none,
    addrCells := 1, sizeCells := 1, readOnly := true, lock := false }

/-- The second block is that of a device tree which says that it has so many bytes. -/
def dtbReads (totalsize : List UInt8) : Nat → Outcome
  | 1 => .done [0xd0, 0x0d, 0xfe, 0xed]
  | 2 => .done ([0xd0, 0x0d, 0xfe, 0xed] ++ totalsize ++ replicate 32 0)
  | _ => .done [0xff, 0xff, 0xff, 0xff]

def firstBlock : List UInt8 := [0, 0, 0, 0, 0, 0, 0x10, 0]

def returns (wrong : Part → Prop) [DecidablePred wrong] :
    Option (List Dynpart × Except Errno (List Part)) → Bool
  | some (_, .ok parts) => parts.any fun p => wrong p
  | _ => false

theorem exists_part_of_returns (wrong : Part → Prop) [DecidablePred wrong]
    {out : Option (List Dynpart × Except Errno (List Part))} (h : returns wrong out) :
    ∃ table parts, out = some (table, .ok parts) ∧ ∃ p ∈ parts, wrong p := by
  match out, h with
  | some (table, .ok parts), h =>
    obtain ⟨p, hp, hwrong⟩ := any_eq_true.mp h
    exact ⟨table, parts, rfl, p, hp, of_decide_eq_true hwrong⟩

/-- A node without a size becomes an empty partition, a size that passes the `size_t` one that
    reaches out of the device, and the search does not end where every read fails. -/
theorem routerbootPartitionsParse_fails :
    (∃ table parts, routerbootPartitionsParse smallMaster (dtbReads [0, 0, 0x10, 0]) [0, 0, 0, 0]
        (rbDynparts false) [fixedNode "boot" firstBlock, dynamicNode "data"] 20 =
          some (table, .ok parts) ∧ ∃ p ∈ parts, p.size = 0) ∧
      (∃ table parts, routerbootPartitionsParse smallMaster (dtbReads [0xff, 0xff, 0xf0, 0])
        [0, 0, 0, 0] (rbDynparts false) [fixedNode "boot" firstBlock, dynamicNode "dtb_config"] 20 =
          some (table, .ok parts) ∧ ∃ p ∈ parts, ¬ p.offset + p.size ≤ smallMaster.size) ∧
      ∀ fuel, routerbootPartitionsParse smallMaster (fun _ => .error) [0, 0, 0, 0]
        (rbDynparts false) [fixedNode "boot" firstBlock] fuel = none := by
  refine ⟨?_, ?_, ?_⟩
  · exact exists_part_of_returns (fun p => p.size = 0) (by decide +kernel)
  · exact exists_part_of_returns (fun p => ¬ p.offset + p.size ≤ smallMaster.size)
      (by decide +kernel)
  · intro fuel
    have hstuck : ∀ (fuel : Nat) (s : Search), s.offset < smallMaster.size →
        findDynpartsFrom smallMaster (fun _ => .error) fuel s = none := by
      intro fuel
      induction fuel with
      | zero => exact fun _ _ => rfl
      | succ fuel ih =>
        intro s hs
        rw [findDynpartsFrom, if_pos hs]
        exact ih _ hs
    have hnone : routerbootFindDynparts smallMaster (fun _ => .error) [0, 0, 0, 0]
        (rbDynparts false) fuel = none := hstuck fuel _ (by decide)
    simp only [routerbootPartitionsParse, cons_ne_nil, if_false, hnone, map_none]

/-- The table that finds the blob leaves. -/
def dtbTable : List Dynpart :=
  (rbDynparts false).take 2 ++
    [{ name := "dtb_config", magic := fdtMagic false, sizeFixup := true, offset := 0x1000,
       size := 0x2000, found := true }]

def dtbNodes : List Node := [fixedNode "boot" (replicate 8 0), dynamicNode "dtb_config"]

/-- Two partitions, of which the first ends where the device tree blob was found. -/
theorem routerbootPartitionsParse_dtb :
    (∃ fuel, (routerbootPartitionsParse smallMaster (dtbReads [0, 0, 0x20, 0]) [0, 0, 0, 0]
        (rbDynparts false) dtbNodes fuel).isSome) ∧
      ∃ parts, routerbootPartitionsParse smallMaster (dtbReads [0, 0, 0x20, 0]) [0, 0, 0, 0]
          (rbDynparts false) dtbNodes 20 = some (dtbTable, .ok parts) ∧
        parts.map (fun p => (p.offset, p.size)) = [(0, 0x1000), (0x1000, 0x2000)] ∧
        Laid smallMaster dtbTable 0 dtbNodes parts ∧ Ordered smallMaster parts := by
  obtain ⟨hends, hspec⟩ := routerbootPartitionsParse_spec smallMaster (dtbReads [0, 0, 0x20, 0])
    [0, 0, 0, 0] (rbDynparts false) dtbNodes
  refine ⟨hends (fun n => ⟨n + 3, by omega, fun h => Outcome.noConfusion h⟩) (by decide), ?_⟩
  have hrun : routerbootPartitionsParse smallMaster (dtbReads [0, 0, 0x20, 0]) [0, 0, 0, 0]
      (rbDynparts false) dtbNodes 20 = some (dtbTable, .ok
        [{ name := "boot", offset := 0, size := 0x1000, readOnly := false, lock := false },
         { name := "dtb_config", offset := 0x1000, size := 0x2000, readOnly := true,
           lock := false }]) := by
    rfl
  have hboot : ∀ ofs, (fixedNode "boot" (replicate 8 0)).place smallMaster dtbTable ofs =
      some (0, 0) := fun _ => rfl
  have hdtb : ∀ ofs, (dynamicNode "dtb_config").place smallMaster dtbTable ofs =
      some (0x1000, 0x2000) := fun _ => rfl
  have hfits : Fits smallMaster dtbTable 0 dtbNodes := by
    intro offset size hplace
    rw [hboot] at hplace
    cases hplace
    refine ⟨by decide, fun offset size hplace => ?_⟩
    rw [hdtb] at hplace
    cases hplace
    exact ⟨by decide, trivial⟩
  obtain ⟨hlaid, hordered, -⟩ := hspec 20 _ _ hrun hfits
  exact ⟨_, hrun, rfl, hlaid, hordered⟩

end LibWrt.Routerboot.Partitions
