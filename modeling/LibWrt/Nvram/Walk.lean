/-
LibWrt.Nvram.Walk — what opening a partition reads, and where its pairs lie.

The header is searched word by word, with a limit that is counted in a
`size_t` of 32 bits. The pairs behind it are walked up to an empty string, or
one without `=`; neither loop looks at the size of the mapping, and the walk
does not look at the length in the header. `open_safe_iff` says for which
partitions all reads are inside and all pairs lie in the data that the header
has.
-/
import LibWrt.Nvram.Commit

namespace LibWrt.Nvram

open List Handle Nat
open Bytes

/-- The bytes of a partition, which is mapped whole; its size is a `size_t`. -/
structure Partition where
  area : List UInt8
  small : area.length < 2 ^ 32

/-- A pair, and where it lies in the mapping. -/
structure Placed where
  pos : Nat
  tuple : CString × CString

namespace Placed

def stop (f : Placed) : Nat := f.pos + f.tuple.1.length + 1 + f.tuple.2.length

end Placed

/-- `name = value + strlen(value) + 1`: the places of pairs that lie one behind the other. -/
def place : Nat → List (CString × CString) → List Placed
  | _, [] => []
  | pos, t :: pairs => ⟨pos, t⟩ :: place (Placed.stop ⟨pos, t⟩ + 1) pairs

/-- The search for `NVRAM_MAGIC` in some words from the `i`th on; nothing comes back where a word
lies behind the mapping. -/
def search (area : List UInt8) : Nat → Nat → Option (Option Nat)
  | 0, _ => some none
  | n + 1, i =>
    if area.length < 4 * i + 4 then none
    else if ofLe32 (area.drop (4 * i)) = magic then some (some i)
    else search area n (i + 1)

/-- How many words are searched: `i <= (nvram_part_size - NVRAM_MIN_SPACE) / sizeof(uint32_t)`. -/
def searched (area : List UInt8) : Nat :=
  (BitVec.ofNat 32 area.length - BitVec.ofNat 32 minSpace).toNat / 4 + 1

inductive Opened where
  /-- A byte behind the mapping is read. -/
  | outside
  /-- `NULL` -/
  | closed
  /-- The handle, with the pairs that were walked. -/
  | opened (h : Handle) (fields : List Placed)

namespace Handle

/-- `_nvram_rehash`. The words of the header lie before the data, which is read first. -/
def rehashPart (h : Handle) : Opened :=
  match parse (h.data.length + 1) h.data with
  | none => .outside
  | some pairs =>
    .opened (pairs.foldl (fun h p => (h.set p.1 p.2).2) h.free).setSdram
      (place (h.offset + headerSize) pairs)

/-- `nvram_open`, with a size that is not 0 and a file that is there. -/
def openPart (signed : Bool) (p : Partition) (rdonly : Bool) : Opened :=
  match search p.area (searched p.area) 0 with
  | none => .outside
  | some none => .closed
  | some (some i) =>
    -- `offset` is an `int`
    if 2 ^ 31 ≤ 4 * i then .closed
    else
      let h : Handle :=
        { signed, mmap := p.area, length := p.area.length, offset := 4 * i, hash := .empty
          dead := [] }
      if rdonly then h.rehashPart
      else if p.area.length < 4 * i + 8 then .outside
      else if h.header.len.toNat < h.length - h.offset then h.rehashPart
      else .closed

end Handle

/-- The search ends before the mapping does, and all pairs lie in the data of the header. -/
def Opened.Safe : Opened → Prop
  | .outside => False
  | .closed => True
  | .opened h fields => ∀ f ∈ fields,
      h.offset + headerSize ≤ f.pos ∧ f.stop < h.offset + h.header.len.toNat

/-! ## What the partition has -/

def MagicAt (area : List UInt8) (i : Nat) : Prop :=
  4 * i + 4 ≤ area.length ∧ ofLe32 (area.drop (4 * i)) = magic

/-- Pairs and behind them an empty string or one without `=`; the pairs have `room` bytes. -/
def Terminated (data : List UInt8) (room : Nat) : Prop :=
  ∃ (pairs : List (CString × CString)) (last : CString) (rest : List UInt8),
    data = pairs.flatMap tupleBytes ++ (last.val ++ 0 :: rest) ∧
      (∀ t ∈ pairs, 61 ∉ t.1.val) ∧ 61 ∉ last.val ∧
      (pairs = [] ∨ headerSize + (pairs.flatMap tupleBytes).length ≤ room)

/-- A header is found, and what lies behind it ends. -/
structure WellEnded (area : List UInt8) (rdonly : Bool) : Prop where
  found : minSpace ≤ area.length ∨ ∃ i, MagicAt area i
  ended : ∀ i, MagicAt area i → (∀ j < i, ¬ MagicAt area j) →
    (area.length < minSpace ∨ 4 * i + minSpace ≤ area.length) → 4 * i < 2 ^ 31 →
    (rdonly = true ∨ area.length < 4 * i + 8 ∨
      (Header.ofBytes (area.drop (4 * i))).len.toNat < area.length - 4 * i) →
    Terminated (area.drop (4 * i + headerSize)) (Header.ofBytes (area.drop (4 * i))).len.toNat

/-! ## The walk -/

variable {fuel n i : Nat} {pairs : List (CString × CString)} {data : List UInt8}

/-- A string without `=` ends the walk. -/
theorem parse_last {last : CString} (hlast : 61 ∉ last.val) (rest : List UInt8) :
    parse (fuel + 1) (last.val ++ 0 :: rest) = some [] := by
  rcases hval : last.val with _ | ⟨c, cs⟩
  · rfl
  · have hc : c ≠ 0 := fun heq => last.property (by rw [hval, heq]; exact mem_cons_self)
    have htake : (c :: (cs ++ 0 :: rest)).takeWhile (fun b => b ≠ 0 && b ≠ 61) = c :: cs := by
      rw [← cons_append, takeWhile_append_of_pos, takeWhile_cons_of_neg (by simp),
        append_nil]
      intro b hb
      rw [← hval] at hb
      have hzero : b ≠ 0 := fun heq => last.property (heq ▸ hb)
      have heq : b ≠ 61 := fun heq => hlast (heq ▸ hb)
      simp [hzero, heq]
    rw [cons_append, parse]
    · have hdrop : (c :: (cs ++ 0 :: rest)).drop (c :: cs).length = 0 :: rest := by
        rw [← cons_append, drop_left]
      rw [htake, hdrop]
      rfl
    · exact hc

theorem parse_terminated {last : CString} (hnames : ∀ t ∈ pairs, 61 ∉ t.1.val)
    (hlast : 61 ∉ last.val) (hfuel : pairs.length < fuel) (rest : List UInt8) :
    parse fuel (pairs.flatMap tupleBytes ++ (last.val ++ 0 :: rest)) = some pairs := by
  induction pairs generalizing fuel with
  | nil =>
    obtain ⟨fuel, rfl⟩ := exists_eq_succ_of_ne_zero (by omega : fuel ≠ 0)
    exact parse_last hlast rest
  | cons t pairs ih =>
    obtain ⟨fuel, rfl⟩ := exists_eq_succ_of_ne_zero (by omega : fuel ≠ 0)
    have hrest := ih (fun t ht => hnames t (mem_cons_of_mem _ ht))
      (lt_of_succ_lt_succ hfuel)
    rw [flatMap_cons, append_assoc, parse_tuple (hnames t mem_cons_self), hrest]
    rfl

theorem drop_takeWhile {p : UInt8 → Bool} {b : UInt8} {rest : List UInt8}
    (hdrop : data.drop (data.takeWhile p).length = b :: rest) :
    data = data.takeWhile p ++ b :: rest ∧ p b = false := by
  have hleft := @List.drop_left _ (data.takeWhile p) (data.dropWhile p)
  rw [takeWhile_append_dropWhile, hdrop] at hleft
  refine ⟨by rw [hleft, takeWhile_append_dropWhile], ?_⟩
  have hhead := head_dropWhile_not p (l := data) (by rw [← hleft]; exact cons_ne_nil _ _)
  simpa [← hleft] using hhead

/-- A walk that ends has read the pairs and one more string. -/
theorem parse_sound (hparse : parse fuel data = some pairs) :
    ∃ (last : CString) (rest : List UInt8),
      data = pairs.flatMap tupleBytes ++ (last.val ++ 0 :: rest) ∧
        (∀ t ∈ pairs, 61 ∉ t.1.val) ∧ 61 ∉ last.val := by
  induction fuel generalizing data pairs with
  | zero => cases hparse
  | succ fuel ih =>
    rcases data with _ | ⟨c, data⟩
    · cases hparse
    by_cases hc : c = 0
    · subst hc
      cases hparse
      exact ⟨.ofBytes [], data, rfl, by simp, by simp [CString.ofBytes]⟩
    rw [parse] at hparse
    · set p : UInt8 → Bool := fun b => b ≠ 0 && b ≠ 61 with hp
      have hname : ∀ b ∈ (c :: data).takeWhile p, b ≠ 0 ∧ b ≠ 61 := by
        intro b hb
        simpa [hp] using mem_takeWhile_imp hb
      have hzero : 0 ∉ (c :: data).takeWhile p := fun hmem => (hname 0 hmem).1 rfl
      have heq : 61 ∉ (c :: data).takeWhile p := fun hmem => (hname 61 hmem).2 rfl
      have hofBytes : (CString.ofBytes ((c :: data).takeWhile p)).val = (c :: data).takeWhile p :=
        congrArg Subtype.val (CString.ofBytes_val ⟨_, hzero⟩)
      dsimp only at hparse
      rcases hdrop : (c :: data).drop ((c :: data).takeWhile p).length with _ | ⟨b, rest⟩
      · rw [hdrop] at hparse
        cases hparse
      obtain ⟨happ, hb⟩ := drop_takeWhile hdrop
      rw [hdrop] at hparse
      by_cases hb0 : b = 0
      · subst hb0
        cases hparse
        refine ⟨.ofBytes ((c :: data).takeWhile p), rest, ?_, by simp, ?_⟩
        · rw [hofBytes]
          exact happ
        · rw [hofBytes]
          exact heq
      have hb61 : b = 61 := by
        by_contra hne
        simp [hp, hb0, hne] at hb
      subst hb61
      split at hparse
      · cases hparse
      · rename_i hcons
        exact absurd (List.cons.inj hcons).1 (by decide)
      · rename_i hcons
        obtain ⟨-, rfl⟩ := List.cons.inj hcons
        rcases hvalue : rest.drop (CString.ofBytes rest).length with _ | ⟨b', rest'⟩
        · rw [hvalue] at hparse
          cases hparse
        obtain ⟨happ', hb'⟩ := drop_takeWhile (p := fun b => decide (b ≠ 0)) hvalue
        have hb0' : b' = 0 := by simpa using hb'
        subst hb0'
        rw [hvalue] at hparse
        obtain ⟨pairs', hrest, rfl⟩ := Option.map_eq_some_iff.mp hparse
        obtain ⟨last, rest'', hdata, hnames, hlast⟩ := ih hrest
        refine ⟨last, rest'', ?_, ?_, hlast⟩
        · rw [flatMap_cons, append_assoc, ← hdata, tupleBytes, hofBytes]
          calc c :: data = (c :: data).takeWhile p ++ 61 :: rest := happ
            _ = (c :: data).takeWhile p ++ 61 :: ((CString.ofBytes rest).val ++ 0 :: rest') :=
              congrArg (fun r => (c :: data).takeWhile p ++ 61 :: r) happ'
            _ = _ := by simp
        · rintro t (_ | ⟨_, ht⟩)
          · rw [hofBytes]
            exact heq
          · exact hnames t ht
    · exact hc

theorem stop_add_one (pos : Nat) (t : CString × CString) :
    (Placed.mk pos t).stop + 1 = pos + (tupleBytes t).length := by
  rw [length_tupleBytes]
  show pos + t.1.length + 1 + t.2.length + 1 = _
  omega

theorem le_pos {pos : Nat} {f : Placed} (hf : f ∈ place pos pairs) : pos ≤ f.pos := by
  induction pairs generalizing pos with
  | nil => cases hf
  | cons t pairs ih =>
    rcases mem_cons.mp hf with rfl | hf
    · exact Nat.le_refl _
    · have hle := ih hf
      rw [stop_add_one] at hle
      omega

/-- Pairs that lie one behind the other end where the last one does. -/
theorem stop_lt_iff (pos stop : Nat) (pairs : List (CString × CString)) :
    (∀ f ∈ place pos pairs, f.stop < stop) ↔
      pairs = [] ∨ pos + (pairs.flatMap tupleBytes).length ≤ stop := by
  induction pairs generalizing pos with
  | nil => simp [place]
  | cons t pairs ih =>
    have hnext := stop_add_one pos t
    rw [place, forall_mem_cons, ih, flatMap_cons, length_append]
    rcases pairs with _ | ⟨u, pairs⟩
    · simp only [flatMap_nil, length_nil, true_or, and_true, reduceCtorEq, false_or]
      omega
    · simp only [reduceCtorEq, false_or]
      omega

/-! ## Opening -/

variable {area : List UInt8}

theorem search_eq_none_iff (n i : Nat) : search area n i = none ↔
    0 < n ∧ area.length < 4 * (i + n) ∧ ∀ j, i ≤ j → ¬ MagicAt area j := by
  induction n generalizing i with
  | zero => simp [search]
  | succ n ih =>
    rw [search]
    split
    · rename_i hout
      refine iff_of_true rfl ⟨succ_pos n, by omega, fun j hj hmagic => ?_⟩
      have hin := hmagic.1
      omega
    · rename_i hin
      split
      · rename_i hmagic
        refine iff_of_false (by simp) fun hall => ?_
        exact hall.2.2 i (Nat.le_refl i) ⟨Nat.not_lt.mp hin, hmagic⟩
      · rename_i hmagic
        rw [ih]
        constructor
        · rintro ⟨hn, hout, hall⟩
          refine ⟨succ_pos n, by omega, fun j hj hat => ?_⟩
          rcases Nat.eq_or_lt_of_le hj with rfl | hlt
          · exact hmagic hat.2
          · exact hall j hlt hat
        · rintro ⟨-, hout, hall⟩
          refine ⟨?_, by omega, fun j hj => hall j (by omega)⟩
          omega

theorem search_eq_some {j : Nat} (hsearch : search area n i = some (some j)) :
    MagicAt area j ∧ i ≤ j ∧ j < i + n ∧ ∀ k, i ≤ k → k < j → ¬ MagicAt area k := by
  induction n generalizing i with
  | zero => cases hsearch
  | succ n ih =>
    rw [search] at hsearch
    split at hsearch
    · cases hsearch
    · rename_i hin
      split at hsearch
      · rename_i hmagic
        cases hsearch
        exact ⟨⟨Nat.not_lt.mp hin, hmagic⟩, Nat.le_refl _, by omega, fun k hk hlt => by omega⟩
      · rename_i hmagic
        obtain ⟨hat, hle, hlt, hbefore⟩ := ih hsearch
        refine ⟨hat, by omega, by omega, fun k hk hkj hatk => ?_⟩
        rcases Nat.eq_or_lt_of_le hk with rfl | hik
        · exact hmagic hatk.2
        · exact hbefore k hik hkj hatk

theorem search_eq_not_found (hsearch : search area n i = some none) :
    ∀ j, i ≤ j → j < i + n → ¬ MagicAt area j := by
  induction n generalizing i with
  | zero => exact fun j hj hlt => by omega
  | succ n ih =>
    rw [search] at hsearch
    split at hsearch
    · cases hsearch
    · split at hsearch
      · cases hsearch
      · rename_i hmagic
        intro j hj hlt hat
        rcases Nat.eq_or_lt_of_le hj with rfl | hij
        · exact hmagic hat.2
        · exact ih hsearch j hij (by omega) hat

/-- With less than the least size the difference wraps. -/
theorem lt_searched_iff (p : Partition) (i : Nat) : i < searched p.area ↔
    if p.area.length < minSpace then 4 * i + minSpace ≤ p.area.length + 2 ^ 32
    else 4 * i + minSpace ≤ p.area.length := by
  have hsmall := p.small
  have hmin : minSpace < 2 ^ 32 := by decide
  rw [searched, BitVec.toNat_sub, BitVec.toNat_ofNat, BitVec.toNat_ofNat, mod_eq_of_lt hsmall,
    mod_eq_of_lt hmin]
  split
  · rw [mod_eq_of_lt (by omega)]
    omega
  · have hwrap : 2 ^ 32 - minSpace + p.area.length = p.area.length - minSpace + 2 ^ 32 := by omega
    rw [hwrap, add_mod_right, mod_eq_of_lt (by omega)]
    omega

/-- The search stays in the mapping if the partition has the least size or the magic. -/
theorem search_inside_iff (p : Partition) : search p.area (searched p.area) 0 ≠ none ↔
    minSpace ≤ p.area.length ∨ ∃ i, MagicAt p.area i := by
  have hlast := lt_searched_iff p (p.area.length / 4)
  have hpos : 0 < searched p.area := succ_pos _
  have hmin : minSpace = 0x8000 := rfl
  rw [ne_eq, search_eq_none_iff]
  by_cases hsize : p.area.length < minSpace
  · rw [if_pos hsize] at hlast
    have hout : p.area.length < 4 * (0 + searched p.area) := by omega
    simp only [hpos, hout, true_and, Nat.zero_le, forall_const, not_forall, not_not]
    constructor
    · exact Or.inr
    · rintro (hle | hex)
      · omega
      · exact hex
  · rw [if_neg hsize] at hlast
    have hin : ¬ p.area.length < 4 * (0 + searched p.area) := by omega
    exact iff_of_true (fun hall => hin hall.2.1) (.inl (Nat.not_lt.mp hsize))

/-! ## The handle -/

def Opened.handle : Opened → Option Handle
  | .opened h _ => some h
  | _ => none

/-- Words that are in the mapping are searched as a list. -/
theorem search_eq_find? (hin : 4 * (i + n) ≤ area.length) : search area n i =
    some ((range' i n).find? fun j => ofLe32 (area.drop (4 * j)) = magic) := by
  induction n generalizing i with
  | zero => rfl
  | succ n ih =>
    rw [search, if_neg (by omega), range'_succ, find?_cons]
    by_cases hmagic : ofLe32 (area.drop (4 * i)) = magic
    · simp [hmagic]
    · simp [hmagic, ih (show 4 * (i + 1 + n) ≤ area.length by omega)]

/-- Where the size is one that is taken, opening gives the handle of `openArea`. -/
theorem handle_openPart (signed rdonly : Bool) {p : Partition} (hmin : minSpace ≤ p.area.length)
    (hmax : p.area.length < 2 ^ 31) :
    (openPart signed p rdonly).handle = openArea signed p.area rdonly := by
  have hspace : minSpace = 0x8000 := rfl
  have hcount : searched p.area = (p.area.length - minSpace) / 4 + 1 := by
    have hsmall := p.small
    rw [searched, BitVec.toNat_sub, BitVec.toNat_ofNat, BitVec.toNat_ofNat]
    omega
  have hrehash : ∀ h : Handle, h.rehashPart.handle = h.rehash := by
    intro h
    rw [rehashPart, rehash]
    cases parse (h.data.length + 1) h.data <;> rfl
  rw [openPart, openArea, hcount, search_eq_find? (by omega), ← range_eq_range',
    if_neg (by omega)]
  cases hfind : (range ((p.area.length - minSpace) / 4 + 1)).find? fun j =>
      ofLe32 (p.area.drop (4 * j)) = magic with
  | none => rfl
  | some i =>
    have hi := mem_range.mp (mem_of_find?_eq_some hfind)
    simp only [if_neg (show ¬ 2 ^ 31 ≤ 4 * i by omega),
      if_neg (show ¬ p.area.length < 4 * i + 8 by omega), Option.bind_some]
    cases rdonly with
    | true => exact hrehash _
    | false =>
      simp only [Bool.false_eq_true, if_false, Bool.false_or, decide_eq_true_eq]
      split
      · exact hrehash _
      · rfl

/-! ## Which partitions are safe -/

/-- What is behind a header that is taken: the walk stays in the mapping, and its pairs in the
data, if and only if it ends there. -/
theorem safe_rehashPart (h : Handle) :
    h.rehashPart.Safe ↔ Terminated h.data h.header.len.toNat := by
  rw [Handle.rehashPart]
  cases hparse : parse (h.data.length + 1) h.data with
  | none =>
    refine iff_of_false id ?_
    rintro ⟨pairs, last, rest, hdata, hnames, hlast, -⟩
    have hlen := length_le_length_flatMap pairs
    rw [hdata, parse_terminated hnames hlast (by simp; omega)] at hparse
    cases hparse
  | some pairs =>
    obtain ⟨last, rest, hdata, hnames, hlast⟩ := parse_sound hparse
    obtain ⟨hash, hset⟩ := setPairs_rest h.free pairs
    obtain ⟨hash', hsdram⟩ := setSdram_rest
      (pairs.foldl (fun h p => (h.set p.1 p.2).2) h.free)
    have hsafe : (Opened.opened (pairs.foldl (fun h p => (h.set p.1 p.2).2) h.free).setSdram
        (place (h.offset + headerSize) pairs)).Safe ↔
          ∀ f ∈ place (h.offset + headerSize) pairs, f.stop < h.offset + h.header.len.toNat := by
      rw [hsdram, hset]
      exact forall₂_congr fun f hf => and_iff_right (le_pos hf)
    dsimp only
    rw [hsafe, stop_lt_iff]
    constructor
    · intro hroom
      refine ⟨pairs, last, rest, hdata, hnames, hlast, ?_⟩
      rcases hroom with hnil | hle
      · exact .inl hnil
      · exact .inr (by omega)
    · rintro ⟨pairs', last', rest', hdata', hnames', hlast', hroom⟩
      have hlen := length_le_length_flatMap pairs'
      rw [hdata', parse_terminated hnames' hlast' (by simp; omega)] at hparse
      cases hparse
      rcases hroom with hnil | hle
      · exact .inl hnil
      · exact .inr (by omega)

/-- Opening a partition reads inside the mapping only, and sets pairs of the data that the header
has only, if and only if there is a header to find and what lies behind it ends in the data. -/
theorem open_safe_iff (signed : Bool) (p : Partition) (rdonly : Bool) :
    (Handle.openPart signed p rdonly).Safe ↔ WellEnded p.area rdonly := by
  have hinside := search_inside_iff p
  rw [Handle.openPart]
  cases hsearch : search p.area (searched p.area) 0 with
  | none =>
    refine iff_of_false id fun hwell => ?_
    exact hinside.mpr hwell.found hsearch
  | some found =>
    have hfound := hinside.mp (by simp [hsearch])
    cases found with
    | none =>
      have hno := search_eq_not_found hsearch
      refine iff_of_true trivial ⟨hfound, fun i hat hfirst hreach => ?_⟩
      have hlt : i < searched p.area := by
        have hin := hat.1
        have hmin : minSpace = 0x8000 := rfl
        rw [lt_searched_iff]
        split
        · omega
        · omega
      exact absurd hat (hno i (Nat.zero_le i) (by omega))
    | some i =>
      obtain ⟨hat, -, hlt, hbefore⟩ := search_eq_some hsearch
      rw [Nat.zero_add, lt_searched_iff] at hlt
      have hreach : p.area.length < minSpace ∨ 4 * i + minSpace ≤ p.area.length := by
        by_cases hsize : p.area.length < minSpace
        · exact .inl hsize
        · rw [if_neg hsize] at hlt
          exact .inr hlt
      have hunique : ∀ j, MagicAt p.area j → (∀ k < j, ¬ MagicAt p.area k) → j = i := by
        intro j hatj hfirst
        rcases Nat.lt_trichotomy j i with hji | heq | hij
        · exact absurd hatj (hbefore j (Nat.zero_le j) hji)
        · exact heq
        · exact absurd hat (hfirst i hij)
      have hwell : WellEnded p.area rdonly ↔ (4 * i < 2 ^ 31 →
          (rdonly = true ∨ p.area.length < 4 * i + 8 ∨
            (Header.ofBytes (p.area.drop (4 * i))).len.toNat < p.area.length - 4 * i) →
          Terminated (p.area.drop (4 * i + headerSize))
            (Header.ofBytes (p.area.drop (4 * i))).len.toNat) := by
        constructor
        · exact fun hw => hw.ended i hat (fun j hj => hbefore j (Nat.zero_le j) hj) hreach
        · refine fun himp => ⟨hfound, fun j hatj hfirst _ => ?_⟩
          rw [hunique j hatj hfirst]
          exact himp
      rw [hwell]
      dsimp only
      by_cases hint : 2 ^ 31 ≤ 4 * i
      · rw [if_pos hint]
        exact iff_of_true trivial fun hlt => absurd hint (Nat.not_le.mpr hlt)
      rw [if_neg hint, forall_prop_of_true (Nat.not_le.mp hint)]
      cases rdonly with
      | true =>
        rw [if_pos rfl, forall_prop_of_true (.inl rfl)]
        exact safe_rehashPart _
      | false =>
        rw [if_neg Bool.false_ne_true]
        by_cases hhead : p.area.length < 4 * i + 8
        · rw [if_pos hhead]
          refine iff_of_false id fun himp => ?_
          obtain ⟨pairs, last, rest, hdata, -⟩ := himp (.inr (.inl hhead))
          have hlength := congrArg List.length hdata
          simp [headerSize] at hlength
          omega
        rw [if_neg hhead]
        split
        · rename_i hlen
          rw [forall_prop_of_true (.inr (.inr hlen))]
          exact safe_rehashPart _
        · rename_i hlen
          refine iff_of_true trivial ?_
          rintro (hfalse | hshort | hlen')
          · cases hfalse
          · exact absurd hshort hhead
          · exact absurd hlen' hlen

theorem openPart_first (signed : Bool) {p : Partition} (hat : MagicAt p.area 0) :
    Handle.openPart signed p true =
      (Handle.mk signed p.area p.area.length 0 .empty []).rehashPart := by
  have hsearch : search p.area (searched p.area) 0 = some (some 0) := by
    rw [searched, search, if_neg (Nat.not_lt.mpr hat.1), if_pos hat.2]
  rw [Handle.openPart, hsearch]
  rfl

def headed (len : BitVec 32) (data : List UInt8) (hdata : data.length + 20 < 2 ^ 32) :
    Partition where
  area := le32 magic ++ (le32 len ++ (List.replicate 12 0 ++ data))
  small := by
    simp only [length_append, length_le32, length_replicate]
    omega

theorem magicAt_headed (len : BitVec 32) (hdata : data.length + 20 < 2 ^ 32) :
    MagicAt (headed len data hdata).area 0 :=
  ⟨by simp [headed], ofLe32_le32 magic _⟩

theorem safe_headed (len : BitVec 32) (hdata : data.length + 20 < 2 ^ 32) :
    (Handle.openPart true (headed len data hdata) true).Safe ↔ Terminated data len.toNat := by
  have hlen : (Header.ofBytes (headed len data hdata).area).len = len :=
    ofLe32_le32 len (List.replicate 12 0 ++ data)
  rw [openPart_first true (magicAt_headed len hdata), safe_rehashPart]
  show Terminated data (Header.ofBytes (headed len data hdata).area).len.toNat ↔ _
  rw [hlen]

/-- A name that does not end. -/
theorem not_terminated_replicate (n room : Nat) : ¬ Terminated (List.replicate n 97) room := by
  rintro ⟨pairs, last, rest, hdata, -⟩
  have hmem : (0 : UInt8) ∈ List.replicate n 97 := by
    rw [hdata]
    simp
  exact absurd (eq_of_mem_replicate hmem) (by decide)

/-- Data that starts with a pair has no room without a byte. -/
theorem not_terminated_pair (rest : List UInt8) : ¬ Terminated (97 :: 61 :: 49 :: rest) 20 := by
  rintro ⟨pairs, last, rest', hdata, hnames, hlast, hroom⟩
  rcases pairs with _ | ⟨t, pairs⟩
  · have hlast0 := last.property
    rcases hval : last.val with _ | ⟨b, _ | ⟨c, cs⟩⟩
    · simp [hval] at hdata
    · simp [hval] at hdata
    · rw [hval] at hdata hlast
      obtain ⟨-, hc, -⟩ : 97 = b ∧ 61 = c ∧ _ := by simpa using hdata
      exact hlast (by simp [hc])
  · rcases hroom with hnil | hle
    · cases hnil
    · rw [flatMap_cons, length_append, length_tupleBytes, headerSize] at hle
      omega

/-- A partition of eight bytes without the magic, one that is full with a name, and one with a
pair behind the length of its header. -/
theorem open_unsafe :
    ¬ (Handle.openPart true ⟨List.replicate 8 0, by decide⟩ true).Safe ∧
    ¬ (Handle.openPart true (headed 32768 (List.replicate 32748 97)
      (by rw [length_replicate]; decide)) true).Safe ∧
    ¬ (Handle.openPart true (headed 20 (97 :: 61 :: 49 :: List.replicate 32745 0)
      (by simp only [length_cons, length_replicate]; decide)) true).Safe := by
  refine ⟨id, ?_, ?_⟩
  · rw [safe_headed]
    exact not_terminated_replicate 32748 _
  · rw [safe_headed]
    exact not_terminated_pair _

end LibWrt.Nvram
