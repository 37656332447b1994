/-
LibWrt.Mtdsplit.Halves — what the parsers for whole flash images find.

A search for a file meets the nodes of the JFFS2 blocks one after the other
(`Meets`). It finds the file if it is met behind `1-openwrt` (`File`), and
ends without it otherwise (`NoFile`), or goes on forever.
-/
import LibWrt.Mtdsplit.Wfi

namespace LibWrt.Mtdsplit

open List
open LibWrt.Loop

namespace Wfi

variable (w : Wfi)

def Jffs2Block (o : Nat) (buf : List UInt8) : Prop :=
  w.jffs2Magic o = true ∧ w.master.mtdRead o w.master.erasesize = .ok buf ∧
    buf.length = w.master.erasesize

def BadBlock (o : Nat) (err : Int) : Prop :=
  w.jffs2Magic o = true ∧ (w.master.mtdRead o w.master.erasesize = .error err ∨
    err = -EINVAL ∧ ∃ buf, w.master.mtdRead o w.master.erasesize = .ok buf ∧
      buf.length ≠ w.master.erasesize)

def nodeAt (buf : List UInt8) (pos : Nat) : List UInt8 := (buf ++ w.behind).drop pos

/-- From `off` on, a place between two blocks, or in one, is come to, and these nodes are met on
the way. -/
inductive Meets (stop : Int) (off : Nat) :
    Nat → Option (List UInt8 × Nat) → List (List UInt8) → Prop where
  | start : Meets stop off off none []
  | pass {o : Nat} {nodes : List (List UInt8)} : Meets stop off o none nodes →
      (o : Int) < stop → w.jffs2Magic o = false →
      Meets stop off (o + w.master.erasesize) none nodes
  | enter {o : Nat} {nodes : List (List UInt8)} {buf : List UInt8} :
      Meets stop off o none nodes → (o : Int) < stop → w.Jffs2Block o buf →
      Meets stop off o (some (buf, 0)) nodes
  | skip {o pos : Nat} {nodes : List (List UInt8)} {buf : List UInt8} :
      Meets stop off o (some (buf, pos)) nodes → pos < w.master.erasesize →
      jffs2DirentValid w.master.bigEndian (w.nodeAt buf pos) = false →
      Meets stop off o (some (buf, pos + 4)) nodes
  | node {o pos : Nat} {nodes : List (List UInt8)} {buf : List UInt8} :
      Meets stop off o (some (buf, pos)) nodes → pos < w.master.erasesize →
      jffs2DirentValid w.master.bigEndian (w.nodeAt buf pos) = true →
      Meets stop off o (some (buf, nextNode w.master.bigEndian pos (w.nodeAt buf pos)))
        (nodes ++ [w.nodeAt buf pos])
  | leave {o pos : Nat} {nodes : List (List UInt8)} {buf : List UInt8} :
      Meets stop off o (some (buf, pos)) nodes → w.master.erasesize ≤ pos →
      Meets stop off (o + w.master.erasesize) none nodes

def FirstOf (name : List UInt8) (stop : Int) (off o : Nat) (nodes : List (List UInt8))
    (node : List UInt8) : Prop :=
  ∃ buf pos, w.Meets stop off o (some (buf, pos)) nodes ∧ pos < w.master.erasesize ∧
    node = w.nodeAt buf pos ∧ jffs2DirentValid w.master.bigEndian node = true ∧
    isFile name node = true ∧ ∀ x ∈ nodes, isFile name x = false

/-- The file is in the block at `o`, behind `1-openwrt`. -/
def File (name : List UInt8) (stop : Int) (off o : Nat) (node : List UInt8) : Prop :=
  ∃ nodes, w.FirstOf name stop off o nodes node ∧ ∃ x ∈ nodes, named OPENWRT_NAME x = true

/-- The blocks come to an end, or to one that can not be read, or the file is there but not
behind `1-openwrt`. -/
def NoFile (name : List UInt8) (stop : Int) (off : Nat) : Prop :=
  (∃ o nodes, w.Meets stop off o none nodes ∧ (∀ x ∈ nodes, isFile name x = false) ∧
    (stop ≤ o ∨ (o : Int) < stop ∧ ∃ err, w.BadBlock o err)) ∨
  ∃ o nodes node, w.FirstOf name stop off o nodes node ∧
    ∀ x ∈ nodes, named OPENWRT_NAME x = false

/-! ## The search -/

section Search

variable {w : Wfi} {name : List UInt8} {stop : Int} {off : Nat}

/-- The cursor is where the nodes that are met lead, and the file is not among them. -/
def At (w : Wfi) (name : List UInt8) (stop : Int) (off : Nat) (c : Cursor) : Prop :=
  ∃ nodes, w.Meets stop off c.offs c.inside nodes ∧ (∀ x ∈ nodes, isFile name x = false) ∧
    (c.valid = true ↔ ∃ x ∈ nodes, named OPENWRT_NAME x = true)

variable {node : List UInt8} {c : Cursor} {o : Nat} {nodes : List (List UInt8)}

theorem not_isFile_of_openwrt (h : named OPENWRT_NAME node = true) :
    isFile name node = false := by
  simp [isFile, h]

theorem isFile_of_named (h : named OPENWRT_NAME node = false) (hname : named name node = true) :
    isFile name node = true := by
  simp [isFile, h, hname]

theorem not_isFile_of_not_named (hname : named name node = false) :
    isFile name node = false := by
  simp [isFile, hname]

theorem At.next {c' : Cursor} (h : At w name stop off c) (hturn : w.findTurn name stop c = .inl c') :
    At w name stop off c' := by
  obtain ⟨nodes, hmeets, hfile, hvalid⟩ := h
  obtain ⟨o, inside, valid⟩ := c
  rw [findTurn] at hturn
  cases inside with
  | none =>
    dsimp only at hturn hmeets
    split_ifs at hturn with hlt hmagic
    · split at hturn
      · cases hturn
      · rename_i buf hread
        split_ifs at hturn with hlength
        obtain rfl := Sum.inl.inj hturn
        exact ⟨nodes, hmeets.enter hlt ⟨hmagic, hread, not_not.mp hlength⟩, hfile, hvalid⟩
    · obtain rfl := Sum.inl.inj hturn
      exact ⟨nodes, hmeets.pass hlt (Bool.eq_false_iff.mpr hmagic), hfile, hvalid⟩
  | some inside =>
    obtain ⟨buf, pos⟩ := inside
    dsimp only at hturn hmeets
    split_ifs at hturn with hlt hnode hopenwrt hname
    · obtain rfl := Sum.inl.inj hturn
      refine ⟨_, hmeets.node hlt hnode, ?_, ?_⟩
      · simp only [forall_mem_append, forall_mem_singleton]
        exact ⟨hfile, not_isFile_of_openwrt hopenwrt⟩
      · exact ⟨fun _ => ⟨_, mem_append_right _ (mem_singleton_self _), hopenwrt⟩,
          fun _ => rfl⟩
    · obtain rfl := Sum.inl.inj hturn
      refine ⟨_, hmeets.node hlt hnode, ?_, ?_⟩
      · simp only [forall_mem_append, forall_mem_singleton]
        exact ⟨hfile, not_isFile_of_not_named (Bool.eq_false_iff.mpr hname)⟩
      · rw [hvalid]
        simp [nodeAt, hopenwrt]
    · obtain rfl := Sum.inl.inj hturn
      exact ⟨nodes, hmeets.skip hlt (Bool.eq_false_iff.mpr hnode), hfile, hvalid⟩
    · obtain rfl := Sum.inl.inj hturn
      exact ⟨nodes, hmeets.leave (Nat.le_of_not_lt hlt), hfile, hvalid⟩

/-- What is met is led to. -/
theorem Meets.leads {inside : Option (List UInt8 × Nat)} (h : w.Meets stop off o inside nodes)
    (hfile : ∀ x ∈ nodes, isFile name x = false) :
    Leads (w.findTurn name stop) { offs := off, inside := none, valid := false }
      { offs := o, inside := inside, valid := nodes.any fun x => named OPENWRT_NAME x } := by
  induction h with
  | start => exact .refl
  | pass _ hlt hmagic ih =>
    refine (ih hfile).tail ?_
    simp [findTurn, hlt, hmagic]
  | enter _ hlt hblock ih =>
    obtain ⟨hmagic, hread, hlength⟩ := hblock
    refine (ih hfile).tail ?_
    simp [findTurn, hlt, hmagic, hread, hlength]
  | skip _ hlt hnode ih =>
    rw [nodeAt] at hnode
    refine (ih hfile).tail ?_
    simp [findTurn, hlt, hnode]
  | @node o pos nodes buf _ hlt hnode ih =>
    rw [forall_mem_append, forall_mem_singleton] at hfile
    refine (ih hfile.1).tail ?_
    have hthis := hfile.2
    rw [nodeAt] at hnode hthis ⊢
    cases hopenwrt : named OPENWRT_NAME ((buf ++ w.behind).drop pos) with
    | true => simp [findTurn, hlt, hnode, hopenwrt]
    | false =>
      have hname : named name ((buf ++ w.behind).drop pos) = false := by
        simpa [isFile, hopenwrt] using hthis
      simp [findTurn, hlt, hnode, hopenwrt, hname]
  | leave _ hle ih =>
    refine (ih hfile).tail ?_
    simp [findTurn, Nat.not_lt.mpr hle]

theorem FirstOf.named (h : w.FirstOf name stop off o nodes node) :
    named OPENWRT_NAME node = false ∧ Mtdsplit.named name node = true := by
  obtain ⟨-, -, -, -, -, -, hfile, -⟩ := h
  simpa [isFile] using hfile

theorem At.ended {find : Find} (h : At w name stop off c)
    (hturn : w.findTurn name stop c = .inr find) :
    (∃ o node, find = .found o node ∧ w.File name stop off o node) ∨
      ∃ err, find = .ret err ∧ err < 0 ∧ w.NoFile name stop off := by
  obtain ⟨nodes, hmeets, hfile, hvalid⟩ := h
  obtain ⟨o, inside, valid⟩ := c
  rw [findTurn] at hturn
  cases inside with
  | none =>
    dsimp only at hturn hmeets
    right
    split_ifs at hturn with hlt hmagic
    · split at hturn
      · rename_i err hread
        refine ⟨err, (Sum.inr.inj hturn).symm, w.master.mtdRead_neg _ _ _ hread, .inl ?_⟩
        exact ⟨o, nodes, hmeets, hfile, .inr ⟨hlt, err, hmagic, .inl hread⟩⟩
      · rename_i buf hread
        split_ifs at hturn with hlength
        refine ⟨-EINVAL, (Sum.inr.inj hturn).symm, by decide, .inl ?_⟩
        exact ⟨o, nodes, hmeets, hfile, .inr ⟨hlt, _, hmagic, .inr ⟨rfl, buf, hread, hlength⟩⟩⟩
    · refine ⟨-ENOENT, (Sum.inr.inj hturn).symm, by decide, .inl ?_⟩
      exact ⟨o, nodes, hmeets, hfile, .inl (Int.not_lt.mp hlt)⟩
  | some inside =>
    obtain ⟨buf, pos⟩ := inside
    dsimp only at hturn hmeets
    split_ifs at hturn with hlt hnode hopenwrt hname hknown
    · refine .inl ⟨o, _, (Sum.inr.inj hturn).symm, nodes, ?_, hvalid.mp hknown⟩
      exact ⟨buf, pos, hmeets, hlt, rfl, hnode,
        isFile_of_named (Bool.eq_false_iff.mpr hopenwrt) hname, hfile⟩
    · refine .inr ⟨-EINVAL, (Sum.inr.inj hturn).symm, by decide,
        .inr ⟨o, nodes, w.nodeAt buf pos, ?_, ?_⟩⟩
      · exact ⟨buf, pos, hmeets, hlt, rfl, hnode,
          isFile_of_named (Bool.eq_false_iff.mpr hopenwrt) hname, hfile⟩
      · intro x hx
        exact Bool.eq_false_iff.mpr fun hthis => hknown (hvalid.mpr ⟨x, hx, hthis⟩)

def searchStart (off : Nat) : Cursor := { offs := off, inside := none, valid := false }

theorem At.of_leads (h : Leads (w.findTurn name stop) (searchStart off) c) :
    At w name stop off c := by
  refine h.invariant ⟨[], .start, by simp, by simp [searchStart]⟩ fun c c' hc hturn => ?_
  exact hc.next hturn

theorem ends_cases {find : Find}
    (h : Ends (w.findTurn name stop) (searchStart off) find) :
    (∃ o node, find = .found o node ∧ w.File name stop off o node) ∨
      ∃ err, find = .ret err ∧ err < 0 ∧ w.NoFile name stop off := by
  obtain ⟨c, hleads, hturn⟩ := ends_iff_leads.mp h
  exact (At.of_leads hleads).ended hturn

theorem FirstOf.ends (h : w.FirstOf name stop off o nodes node) :
    Ends (w.findTurn name stop) (searchStart off)
      (if nodes.any fun x => Mtdsplit.named OPENWRT_NAME x then .found o node
        else .ret (-EINVAL)) := by
  obtain ⟨hopenwrt, hname⟩ := h.named
  obtain ⟨buf, pos, hmeets, hlt, rfl, hnode, -, hfile⟩ := h
  refine (hmeets.leads hfile).ends (.stop ?_)
  rw [nodeAt] at hopenwrt hname hnode ⊢
  simp only [findTurn, hlt, hnode, hopenwrt, hname, if_true, Bool.false_eq_true, if_false]
  split_ifs <;> rfl

theorem File.ends (h : w.File name stop off o node) :
    Ends (w.findTurn name stop) (searchStart off) (.found o node) := by
  obtain ⟨nodes, hfirst, x, hx, hopenwrt⟩ := h
  have hany : (nodes.any fun x => named OPENWRT_NAME x) = true :=
    any_eq_true.mpr ⟨x, hx, hopenwrt⟩
  have hends := hfirst.ends
  rwa [if_pos hany] at hends

theorem NoFile.ends (h : w.NoFile name stop off) :
    ∃ err, Ends (w.findTurn name stop) (searchStart off) (.ret err) := by
  rcases h with ⟨o, nodes, hmeets, hfile, hend⟩ | ⟨o, nodes, node, hfirst, hnone⟩
  · have hleads := hmeets.leads hfile
    rcases hend with hle | ⟨hlt, err, hmagic, hread | ⟨-, buf, hread, hlength⟩⟩
    · exact ⟨-ENOENT, hleads.ends (.stop (by simp [findTurn, Int.not_lt.mpr hle]))⟩
    · exact ⟨err, hleads.ends (.stop (by simp [findTurn, hlt, hmagic, hread]))⟩
    · exact ⟨-EINVAL, hleads.ends (.stop (by simp [findTurn, hlt, hmagic, hread, hlength]))⟩
  · have hany : ¬(nodes.any fun x => named OPENWRT_NAME x) = true := by
      rw [any_eq_true]
      rintro ⟨x, hx, hopenwrt⟩
      rw [hnone x hx] at hopenwrt
      cases hopenwrt
    have hends := hfirst.ends
    rw [if_neg hany] at hends
    exact ⟨_, hends⟩

end Search

end Wfi

end LibWrt.Mtdsplit
