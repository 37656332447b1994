/-
LibWrt.Routerboot.Tag — finding a tag in the configuration data.

The data are nodes: a word with the identification in its low half and the
length of the payload in its high half, followed by the payload, padded to a
word. A null word ends them. `FirstNode` is this layout, and `tagFind` the
search.

The search rounds a length up in sixteen bits, so that 65533 to 65535 become
0, looks at the word that straddles the end of the buffer, and does not look
at where the payload ends. `tagFind_iff` says when none of this matters.
-/
import Mathlib.Tactic

namespace LibWrt.Routerboot

/-- The memory from the start of the buffer on, the size of the buffer, and the byte order. -/
structure Buffer where
  mem : Nat → UInt8
  len : Nat
  bigEndian : Bool

/-- `*datum` -/
def Buffer.word (buf : Buffer) (ofs : Nat) : Nat :=
  let byte := fun i => (buf.mem (ofs + i)).toNat
  if buf.bigEndian then byte 0 * 2 ^ 24 + byte 1 * 2 ^ 16 + byte 2 * 2 ^ 8 + byte 3
  else byte 3 * 2 ^ 24 + byte 2 * 2 ^ 16 + byte 1 * 2 ^ 8 + byte 0

/-- `id` -/
def Buffer.nodeId (buf : Buffer) (ofs : Nat) : Nat := buf.word ofs % 2 ^ 16

/-- `len` -/
def Buffer.nodeLen (buf : Buffer) (ofs : Nat) : Nat := buf.word ofs / 2 ^ 16 % 2 ^ 16

/-- `ALIGN(len, 4)` in a `u16` -/
def align16 (len : Nat) : Nat := (len + 3) / 4 * 4 % 2 ^ 16

def Buffer.next (buf : Buffer) (ofs : Nat) : Nat := ofs + 4 + align16 (buf.nodeLen ofs) / 4 * 4

inductive Errno where
  | einval
  | enoent
  deriving DecidableEq

/-- The result: the offset and the length of the payload, in sixteen bits. -/
inductive Found where
  | error (e : Errno)
  | payload (ofs len : Nat)
  deriving DecidableEq

/-- The loop of `routerboot_tag_find` from `datum` on: the offsets of the words it reads, and
    the result, or none after so many turns. -/
def tagFindFrom (buf : Buffer) (tagId : Nat) : Nat → Nat → List Nat × Option Found
  | 0, _ => ([], none)
  | fuel + 1, datum =>
    if datum ≥ buf.len then ([], some (.error .enoent))
    else if buf.word datum = 0 then ([datum], some (.error .enoent))
    else if tagId = buf.nodeId datum then
      if datum + 4 ≥ buf.len then ([datum], some (.error .enoent))
      else ([datum], some (.payload ((datum + 4) % 2 ^ 16) (buf.nodeLen datum)))
    else
      let (reads, found) := tagFindFrom buf tagId fuel (buf.next datum)
      (datum :: reads, found)

/-- `routerboot_tag_find` -/
def tagFind (buf : Buffer) (tagId : Nat) : List Nat × Option Found :=
  if tagId = 0 then ([], some (.error .einval)) else tagFindFrom buf tagId (buf.len + 1) 0

/-! ## The layout -/

/-- From `ofs` on, the first node with the identification is at `node`. -/
inductive FirstNode (buf : Buffer) (tagId : Nat) : Nat → Nat → Prop where
  | here {ofs : Nat} (hin : ofs + 4 ≤ buf.len) (hnode : buf.word ofs ≠ 0)
      (hid : buf.nodeId ofs = tagId) : FirstNode buf tagId ofs ofs
  | behind {ofs node : Nat} (hin : ofs + 4 ≤ buf.len) (hnode : buf.word ofs ≠ 0)
      (hid : buf.nodeId ofs ≠ tagId)
      (hrest : FirstNode buf tagId (ofs + 4 + (buf.nodeLen ofs + 3) / 4 * 4) node) :
      FirstNode buf tagId ofs node

structure FindOk (buf : Buffer) (tagId : Nat) (reads : List Nat) (found : Option Found) :
    Prop where
  terminates : found.isSome
  inside : ∀ ofs ∈ reads, ofs + 4 ≤ buf.len
  payload : ∀ ofs len, found = some (.payload ofs len) → ∃ node,
    FirstNode buf tagId 0 node ∧ ofs = node + 4 ∧ len = buf.nodeLen node ∧ ofs + len ≤ buf.len

/-! ## When it keeps it -/

/-- The cursor comes to `ofs`, from `start`. -/
inductive Visits (buf : Buffer) (tagId start : Nat) : Nat → Prop where
  | start (hin : start < buf.len) : Visits buf tagId start start
  | next {ofs : Nat} (h : Visits buf tagId start ofs) (hnode : buf.word ofs ≠ 0)
      (hid : buf.nodeId ofs ≠ tagId) (hin : buf.next ofs < buf.len) :
      Visits buf tagId start (buf.next ofs)

/-- The cursor does not come to a word that is cut off, and a node with the identification that
    it comes to lies in the first 64 KiB, has its payload in the buffer, and is not behind a
    node whose length rounds up to 65536. -/
structure Regular (buf : Buffer) (tagId : Nat) : Prop where
  whole : buf.len % 4 ≠ 0 → ¬ Visits buf tagId 0 (buf.len / 4 * 4)
  node : ∀ ofs, Visits buf tagId 0 ofs → buf.word ofs ≠ 0 → buf.nodeId ofs = tagId →
    ofs + 4 < buf.len → ofs + 4 + buf.nodeLen ofs ≤ buf.len ∧ ofs + 4 < 2 ^ 16 ∧
      ∀ passed, Visits buf tagId 0 passed → passed < ofs → buf.nodeLen passed ≤ 65532

variable {buf : Buffer} {tagId : Nat}

theorem lt_next (ofs : Nat) : ofs < buf.next ofs := by
  unfold Buffer.next
  omega

variable {ofs start : Nat}

/-- The search goes on where the layout does, except behind the longest nodes. -/
theorem next_of_le (h : buf.nodeLen ofs ≤ 65532) :
    buf.next ofs = ofs + 4 + (buf.nodeLen ofs + 3) / 4 * 4 := by
  unfold Buffer.next align16
  omega

theorem Visits.lt (h : Visits buf tagId start ofs) : ofs < buf.len := by
  cases h with
  | start hin => exact hin
  | next _ _ _ hin => exact hin

theorem Visits.le (h : Visits buf tagId start ofs) : start ≤ ofs := by
  induction h with
  | start => exact Nat.le_refl _
  | next _ _ _ _ ih => exact ih.trans (lt_next _).le

theorem Visits.aligned (h : Visits buf tagId start ofs) (hstart : start % 4 = 0) :
    ofs % 4 = 0 := by
  induction h with
  | start => exact hstart
  | next _ _ _ _ ih =>
    unfold Buffer.next
    omega

/-- The cursors from a cursor on. -/
theorem Visits.from_next (hnode : buf.word start ≠ 0) (hid : buf.nodeId start ≠ tagId)
    (hin : start < buf.len) (h : Visits buf tagId (buf.next start) ofs) :
    Visits buf tagId start ofs := by
  induction h with
  | start hlt => exact .next (.start hin) hnode hid hlt
  | next _ hnode' hid' hlt ih => exact .next ih hnode' hid' hlt

/-- The first cursor, or one from the second on. -/
theorem Visits.cases_start (h : Visits buf tagId start ofs) : ofs = start ∨
    (buf.word start ≠ 0 ∧ buf.nodeId start ≠ tagId ∧ Visits buf tagId (buf.next start) ofs) := by
  induction h with
  | start => exact .inl rfl
  | next _ hnode hid hin ih =>
    right
    rcases ih with rfl | ⟨hnode', hid', hrest⟩
    · exact ⟨hnode, hid, .start hin⟩
    · exact ⟨hnode', hid', .next hrest hnode hid hin⟩

/-! ## The run of the search -/

/-- Of two cursors, the further one comes from the other. -/
theorem Visits.between {a b : Nat} (ha : Visits buf tagId start a) (hb : Visits buf tagId start b)
    (hab : a ≤ b) : Visits buf tagId a b := by
  induction ha with
  | start => exact hb
  | next _ _ _ _ ih =>
    have hlt := @lt_next buf
    rcases (ih ((hlt _).le.trans hab)).cases_start with rfl | ⟨-, -, hrest⟩
    · exact absurd (hlt b) (Nat.not_lt.mpr hab)
    · exact hrest

/-- What the search finds: a node with the identification that the cursor comes to. -/
def Hit (buf : Buffer) (tagId start node : Nat) : Prop :=
  Visits buf tagId start node ∧ buf.word node ≠ 0 ∧ buf.nodeId node = tagId ∧ node + 4 < buf.len

/-- What the loop does in one turn. -/
theorem tagFindFrom_succ (fuel datum : Nat) : tagFindFrom buf tagId (fuel + 1) datum =
    if datum ≥ buf.len then ([], some (.error .enoent))
    else if buf.word datum = 0 then ([datum], some (.error .enoent))
    else if tagId = buf.nodeId datum then
      if datum + 4 ≥ buf.len then ([datum], some (.error .enoent))
      else ([datum], some (.payload ((datum + 4) % 2 ^ 16) (buf.nodeLen datum)))
    else
      (datum :: (tagFindFrom buf tagId fuel (buf.next datum)).1,
        (tagFindFrom buf tagId fuel (buf.next datum)).2) := rfl

theorem mem_reads {fuel datum : Nat} (hfuel : buf.len < datum + fuel) (ofs : Nat) :
    ofs ∈ (tagFindFrom buf tagId fuel datum).1 ↔ Visits buf tagId datum ofs := by
  induction fuel generalizing datum with
  | zero =>
    refine ⟨fun h => by simp [tagFindFrom] at h, fun h => ?_⟩
    have := h.le
    have := h.lt
    omega
  | succ fuel ih =>
    rw [tagFindFrom_succ]
    have hstop : datum < buf.len → (buf.word datum = 0 ∨ tagId = buf.nodeId datum) →
        (ofs ∈ [datum] ↔ Visits buf tagId datum ofs) := by
      intro hin hlast
      rw [List.mem_singleton]
      constructor
      · rintro rfl
        exact .start hin
      · intro h
        rcases h.cases_start with heq | ⟨hnode, hid, -⟩
        · exact heq
        · exact absurd hlast (by tauto)
    split
    · refine ⟨fun h => by simp at h, fun h => ?_⟩
      have := h.le
      have := h.lt
      omega
    · rename_i hin
      have hin : datum < buf.len := Nat.lt_of_not_ge hin
      split
      · rename_i hnode
        exact hstop hin (.inl hnode)
      · rename_i hnode
        split
        · rename_i hid
          split <;> exact hstop hin (.inr hid)
        · rename_i hid
          have hnext := @lt_next buf datum
          rw [List.mem_cons, ih (by omega)]
          constructor
          · rintro (rfl | h)
            · exact .start hin
            · exact h.from_next hnode (Ne.symm hid) hin
          · intro h
            rcases h.cases_start with heq | ⟨-, -, hrest⟩
            · exact .inl heq
            · exact .inr hrest

/-- It ends, and finds the hit there is. -/
theorem tagFindFrom_found {fuel datum : Nat} (hpos : 0 < fuel) (hfuel : buf.len < datum + fuel) :
    (tagFindFrom buf tagId fuel datum).2.isSome ∧
      ∀ ofs len, (tagFindFrom buf tagId fuel datum).2 = some (.payload ofs len) ↔
        ∃ node, Hit buf tagId datum node ∧ ofs = (node + 4) % 2 ^ 16 ∧
          len = buf.nodeLen node := by
  induction fuel generalizing datum with
  | zero => exact absurd hpos (Nat.lt_irrefl 0)
  | succ fuel ih =>
    rw [tagFindFrom_succ]
    -- the search stops with an error where there is no hit
    have hstop : (∀ node, ¬ Hit buf tagId datum node) → (some (Found.error .enoent)).isSome ∧
        ∀ ofs len, some (Found.error .enoent) = some (.payload ofs len) ↔
          ∃ node, Hit buf tagId datum node ∧ ofs = (node + 4) % 2 ^ 16 ∧
            len = buf.nodeLen node := by
      intro hno
      refine ⟨rfl, fun ofs len => ⟨fun h => by simp at h, ?_⟩⟩
      rintro ⟨node, hhit, -⟩
      exact absurd hhit (hno node)
    split
    · rename_i hout
      apply hstop
      rintro node ⟨hvisit, -⟩
      have := hvisit.le
      have := hvisit.lt
      omega
    · rename_i hin
      have hin : datum < buf.len := Nat.lt_of_not_ge hin
      split
      · rename_i hnode
        apply hstop
        rintro node ⟨hvisit, hne, -⟩
        rcases hvisit.cases_start with rfl | ⟨hne, -⟩
        · exact hne hnode
        · exact hne hnode
      · rename_i hnode
        split
        · rename_i hid
          have hfirst : ∀ node, Hit buf tagId datum node → node = datum := by
            rintro node ⟨hvisit, -⟩
            rcases hvisit.cases_start with heq | ⟨-, hne, -⟩
            · exact heq
            · exact absurd hid.symm hne
          split
          · rename_i hend
            apply hstop
            rintro node hhit
            obtain rfl := hfirst node hhit
            have := hhit.2.2.2
            omega
          · rename_i hend
            refine ⟨rfl, fun ofs len => ?_⟩
            rw [Option.some_inj, Found.payload.injEq]
            constructor
            · rintro ⟨rfl, rfl⟩
              exact ⟨datum, ⟨.start hin, hnode, hid.symm, Nat.lt_of_not_ge hend⟩, rfl, rfl⟩
            · rintro ⟨node, hhit, rfl, rfl⟩
              rw [hfirst node hhit]
              exact ⟨rfl, rfl⟩
        · rename_i hid
          have hnext := @lt_next buf datum
          obtain ⟨hsome, hiff⟩ := @ih (buf.next datum) (by omega) (by omega)
          refine ⟨hsome, fun ofs len => (hiff ofs len).trans ?_⟩
          have hhit : ∀ node, Hit buf tagId (buf.next datum) node ↔ Hit buf tagId datum node := by
            intro node
            constructor
            · rintro ⟨hvisit, hrest⟩
              exact ⟨hvisit.from_next hnode (Ne.symm hid) hin, hrest⟩
            · rintro ⟨hvisit, hnz, hnid, hend⟩
              rcases hvisit.cases_start with rfl | ⟨-, -, hrest⟩
              · exact absurd hnid.symm hid
              · exact ⟨hrest, hnz, hnid, hend⟩
          simp only [hhit]

/-! ## The walk and the layout -/

theorem FirstNode.le {node : Nat} (h : FirstNode buf tagId ofs node) : ofs ≤ node := by
  induction h with
  | here => exact Nat.le_refl _
  | behind _ _ _ _ ih => omega

/-- Past nodes that are not too long the cursor follows the layout. -/
theorem firstNode_iff_of_short {node : Nat} (h : Visits buf tagId start ofs)
    (hshort : ∀ passed, Visits buf tagId start passed → passed < ofs →
      buf.nodeLen passed ≤ 65532) :
    FirstNode buf tagId start node ↔ FirstNode buf tagId ofs node := by
  induction h with
  | start => exact Iff.rfl
  | @next ofs hvisit hnode hid hin ih =>
    have hlt := @lt_next buf ofs
    rw [ih fun passed hp hlt' => hshort passed hp (hlt'.trans hlt)]
    have hnext := next_of_le (hshort ofs hvisit hlt)
    constructor
    · rintro (⟨_, _, hid'⟩ | ⟨_, _, _, hrest⟩)
      · exact absurd hid' hid
      · rwa [hnext]
    · intro hrest
      rw [hnext] at hrest
      exact .behind (by omega) hnode hid hrest

/-- The search keeps its promise exactly where the walk is regular. -/
theorem tagFind_iff (buf : Buffer) (tagId : Nat) :
    FindOk buf tagId (tagFind buf tagId).1 (tagFind buf tagId).2 ↔
      tagId = 0 ∨ Regular buf tagId := by
  by_cases htag : tagId = 0
  · rw [tagFind, if_pos htag]
    exact ⟨fun _ => .inl htag, fun _ => ⟨rfl, fun _ h => by simp at h, fun _ _ h => by simp at h⟩⟩
  rw [or_iff_right htag]
  have hfuel : buf.len < 0 + (buf.len + 1) := by omega
  obtain ⟨hsome, hfound⟩ := @tagFindFrom_found buf tagId _ _ (Nat.succ_pos buf.len) hfuel
  have hreads := @mem_reads buf tagId _ _ hfuel
  rw [tagFind, if_neg htag]
  constructor
  · intro h
    refine ⟨fun hcut hvisit => ?_, fun ofs hvisit hnode hid hend => ?_⟩
    · have := h.inside _ ((hreads _).mpr hvisit)
      omega
    · have hhit : Hit buf tagId 0 ofs := ⟨hvisit, hnode, hid, hend⟩
      obtain ⟨node, hfirst, hofs, hlen, hin⟩ :=
        h.payload _ _ ((hfound _ _).mpr ⟨ofs, hhit, rfl, rfl⟩)
      have hsmall : (ofs + 4) % 2 ^ 16 < 2 ^ 16 := Nat.mod_lt _ (by decide)
      have hshort : ∀ passed, Visits buf tagId 0 passed → passed < ofs →
          buf.nodeLen passed ≤ 65532 := by
        intro passed
        induction passed using Nat.strong_induction_on with
        | _ passed ih =>
          intro hpassed hlt
          by_contra hlong
          -- the layout skips 64 KiB behind a longer node, and the result would not fit
          rw [firstNode_iff_of_short hpassed fun p hp hlt' => ih p hlt' hp (hlt'.trans hlt)]
            at hfirst
          rcases (hpassed.between hvisit hlt.le).cases_start with heq | ⟨-, hne, -⟩
          · omega
          · rcases hfirst with ⟨_, _, hid'⟩ | ⟨_, _, _, hrest⟩
            · exact hne hid'
            · have := hrest.le
              omega
      rw [firstNode_iff_of_short hvisit hshort] at hfirst
      have hsame : node = ofs := by
        rcases hfirst with _ | ⟨_, _, hne, _⟩
        · rfl
        · exact absurd hid hne
      subst hsame
      exact ⟨by omega, by omega, hshort⟩
  · intro h
    refine ⟨hsome, fun ofs hofs => ?_, fun ofs len hpayload => ?_⟩
    · have hvisit := (hreads ofs).mp hofs
      have haligned := hvisit.aligned rfl
      have hlt := hvisit.lt
      by_contra hcut
      have hwhole : buf.len / 4 * 4 = ofs := by omega
      exact h.whole (by omega) (hwhole ▸ hvisit)
    · obtain ⟨node, hhit, rfl, rfl⟩ := (hfound ofs len).mp hpayload
      obtain ⟨hvisit, hnode, hid, hend⟩ := hhit
      obtain ⟨hin, hsmall, hshort⟩ := h.node node hvisit hnode hid hend
      refine ⟨node, ?_, Nat.mod_eq_of_lt hsmall, rfl, ?_⟩
      · exact (firstNode_iff_of_short hvisit hshort).mpr (.here (by omega) hnode hid)
      · rw [Nat.mod_eq_of_lt hsmall]
        exact hin

/-! ### A payload that is cut off -/

def cutBuffer : Buffer where
  mem ofs := [1, 0, 100, 0, 7, 7, 7, 7].getD ofs 0
  len := 8
  bigEndian := false

/-- The search reports a payload that lies outside of the buffer. -/
theorem tagFind_outside : (tagFind cutBuffer 1).2 = some (.payload 4 100) ∧
    ¬ FindOk cutBuffer 1 (tagFind cutBuffer 1).1 (tagFind cutBuffer 1).2 := by
  have hfound : (tagFind cutBuffer 1).2 = some (.payload 4 100) := by decide
  refine ⟨hfound, fun h => ?_⟩
  obtain ⟨node, -, -, -, hin⟩ := h.payload 4 100 hfound
  exact absurd hin (by decide)

end LibWrt.Routerboot
