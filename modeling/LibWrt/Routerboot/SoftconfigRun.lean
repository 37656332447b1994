/-
LibWrt.Routerboot.SoftconfigRun — what a commit leaves in flash, over all interleavings.

`Ledger` keeps what was stored since the partition was last read, and
`Promise` is what the events mean: after a commit the CRC in flash is right
and the image is that of the buffer, and where the status is clean the flash
has what was stored.

A commit computes the CRC over the buffer as it is, which is right only where
no other commit has put its CRC there since the check. And a section that
fails leaves a CRC in the buffer that another call may see before it is
nulled. `Tame` leaves both out; `commit_run` is the promise over every run
that does, and `commit_twice` a run of two commits without it.
-/
import LibWrt.Routerboot.Softconfig

namespace LibWrt.Routerboot.Softconfig

open Option List Function
open Bytes

variable {d : Driver} {s : State}

/-! ## What is promised -/

/-- The CRC of an image is that of the image with a null CRC. -/
def Driver.Right (d : Driver) (img : List UInt8) : Prop := d.getCrc img = crc32 (d.clrCrc img)

instance (d : Driver) (img : List UInt8) : Decidable (d.Right img) :=
  inferInstanceAs (Decidable (_ = _))

/-- What the calls so far have asked of the partition. -/
structure Ledger where
  /-- The bytes stored since it was last read. -/
  want : Nat → Option UInt8
  /-- Its CRC was right when it was last read, or it has been written since. -/
  right : Bool

def Ledger.read (d : Driver) (flash : List UInt8) : Ledger where
  want _ := none
  right := d.Right flash

def Ledger.store (l : Ledger) (ofs : Nat) (bytes : List UInt8) : Ledger :=
  { l with want := fun i => if ofs ≤ i ∧ i < ofs + bytes.length then bytes[i - ofs]? else l.want i }

def Ledger.note (d : Driver) (s : State) (l : Ledger) : Act → Event → Ledger
  | .store attr _ input, .stored =>
    match attr.tstore d.soc input with
    | some data => l.store (d.pldOfs attr) (word32 d.bigEndian data)
    | none => l
  | .reread _ _, _ => .read d s.flash
  | .flush _ _ _, .committed => { l with right := true }
  | _, _ => l

def Ledger.Kept (l : Ledger) (flash : List UInt8) : Prop :=
  ∀ i b, l.want i = some b → flash[i]? = some b

def Promise (d : Driver) (s : State) (l : Ledger) (s' : State) : Event → Prop
  | .committed =>
    d.Right s'.flash ∧ s'.flash = s'.buf ∧ d.clrCrc s'.flash = d.clrCrc s.buf ∧ l.Kept s'.flash
  | .noop => d.Right s.flash ∧ s.flash = s.buf ∧ l.Kept s.flash
  | .status true => s.flash = s.buf ∧ l.Kept s.flash
  | _ => True

/-! ## When it is kept -/

/-- No commit is between a section that failed and the nulling of the CRC. -/
def State.NoneFailed (s : State) : Prop := ∀ call, s.commits call ≠ .failed

/-- The payload of an attribute lies in the buffer, and not on the CRC. -/
def Driver.Inside (d : Driver) (buf : List UInt8) (attr : ScAttr) : Prop :=
  d.pldOfs attr + 4 ≤ buf.length ∧ (d.pldOfs attr + 4 ≤ 4 ∨ 8 ≤ d.pldOfs attr)

instance (d : Driver) (buf : List UInt8) (attr : ScAttr) : Decidable (d.Inside buf attr) :=
  inferInstanceAs (Decidable (_ ∧ _))

/-- What a section asks of the state before it. -/
def Tame (d : Driver) (s : State) (l : Ledger) : Act → Prop
  | .store attr _ _ => d.pldLen attr = 4 → d.Inside s.buf attr
  | .show => d.getCrc s.buf = 0 ∨ s.NoneFailed
  | .check _ _ _ => d.getCrc s.buf = 0 ∨ (s.NoneFailed ∧ l.right)
  | .flush _ _ _ => d.getCrc s.buf = 0
  | _ => True

inductive Reachable (d : Driver) : State → Ledger → Prop where
  | initial {soc : Option Soc} {behind : Nat → UInt8} {flash : List UInt8} {s : State}
      (hinit : init d.bigEndian soc behind flash = some (d, s)) (hsize : 8 ≤ flash.length) :
      Reachable d s (.read d flash)
  | step {s s' : State} {l : Ledger} {act : Act} {ev : Event} (h : Reachable d s l)
      (htame : Tame d s l act) (hstep : step d s act = some (s', ev)) :
      Reachable d s' (l.note d s act ev)

/-! ## The CRC field -/

section Crc

variable {img : List UInt8} (h : 8 ≤ img.length)

include h

@[simp] theorem length_setCrc (crc : BitVec 32) : (d.setCrc img crc).length = img.length :=
  length_overwrite img _ (by unfold crcOffset; omega)

@[simp] theorem getCrc_setCrc (crc : BitVec 32) : d.getCrc (d.setCrc img crc) = crc :=
  ofWord32_overwrite d.bigEndian crc (by unfold crcOffset; omega)

@[simp] theorem clrCrc_setCrc (crc : BitVec 32) : d.clrCrc (d.setCrc img crc) = d.clrCrc img :=
  overwrite_overwrite (by simp) (by unfold crcOffset; omega)

/-- Nulling a CRC that is null changes nothing. -/
theorem clrCrc_of_null (hcrc : d.getCrc img = 0) : d.clrCrc img = img := by
  have hsame : overwrite img crcOffset (word32 d.bigEndian (d.getCrc img)) = img :=
    overwrite_ofWord32 d.bigEndian (by unfold crcOffset; omega)
  rwa [hcrc] at hsame

/-- The CRC that a commit puts into a buffer with a null CRC is right. -/
theorem right_setCrc (hcrc : d.getCrc img = 0) : d.Right (d.setCrc img (crc32 img)) := by
  rw [Driver.Right, getCrc_setCrc h, clrCrc_setCrc h, clrCrc_of_null h hcrc]

end Crc

/-- The bytes outside of the CRC field stay. -/
theorem getElem?_setCrc {img : List UInt8} {crc : BitVec 32} {i : Nat} (h : i < 4 ∨ 8 ≤ i) :
    (d.setCrc img crc)[i]? = img[i]? := by
  rw [Driver.setCrc, getElem?_overwrite, length_word32, if_neg (by unfold crcOffset; omega)]

/-! ## The invariant -/

/-- Between two sections: the buffer has what was stored, outside of the CRC field; and where
    it has a CRC and no commit is on its way to null it, it is what the flash has. -/
structure Sound (d : Driver) (s : State) (l : Ledger) : Prop where
  size : 8 ≤ s.buf.length
  same : s.flash.length = s.buf.length
  kept : l.Kept s.buf
  apart : ∀ i b, l.want i = some b → i < 4 ∨ 8 ≤ i
  clean : d.getCrc s.buf ≠ 0 → s.NoneFailed → s.flash = s.buf
  right : d.getCrc s.buf ≠ 0 → s.NoneFailed → l.right → d.Right s.flash

variable {l : Ledger}

variable {flash : List UInt8} {call : Nat} {s' : State} {ev : Event}

theorem Ledger.kept_read {img : List UInt8} : (Ledger.read d flash).Kept img := by
  intro i b hwant
  cases hwant

theorem Ledger.apart_read (i : Nat) (b : UInt8) (hwant : (Ledger.read d flash).want i = some b) :
    i < 4 ∨ 8 ≤ i := by
  cases hwant

theorem Sound.initial {soc : Option Soc} {behind : Nat → UInt8}
    (hinit : init d.bigEndian soc behind flash = some (d, s)) (hsize : 8 ≤ flash.length) :
    Sound d s (.read d flash) := by
  unfold init at hinit
  split at hinit
  · cases hinit
  · obtain ⟨-, rfl⟩ := Prod.mk.inj (some.inj hinit)
    exact
      { size := hsize
        same := rfl
        kept := Ledger.kept_read
        apart := Ledger.apart_read
        clean := fun _ _ => rfl
        right := fun _ _ hright => of_decide_eq_true hright }

/-- What was stored stays when the CRC changes. -/
theorem Sound.kept_setCrc (h : Sound d s l) (crc : BitVec 32) : l.Kept (d.setCrc s.buf crc) := by
  intro i b hwant
  rw [getElem?_setCrc (h.apart i b hwant)]
  exact h.kept i b hwant

/-- A state with a null CRC and the same flash. -/
theorem Sound.null (h : Sound d s l) {buf : List UInt8} {commits : Nat → Phase} {l' : Ledger}
    (hlen : buf.length = s.buf.length) (hkept : l'.Kept buf)
    (hapart : ∀ i b, l'.want i = some b → i < 4 ∨ 8 ≤ i) :
    Sound d { buf := d.clrCrc buf, flash := s.flash, commits } l' := by
  have hsize : 8 ≤ buf.length := hlen ▸ h.size
  have hcrc : d.getCrc (d.clrCrc buf) = 0 := getCrc_setCrc hsize 0
  refine ⟨?_, ?_, ?_, hapart, fun hne => absurd hcrc hne, fun hne => absurd hcrc hne⟩
  · exact (length_setCrc hsize 0).symm ▸ hsize
  · exact h.same.trans (hlen.symm.trans (length_setCrc hsize 0).symm)
  · intro i b hwant
    exact (getElem?_setCrc (hapart i b hwant)).trans (hkept i b hwant)

/-- The phase of a call that has not failed, and does not now, does not count. -/
theorem Sound.phase (h : Sound d s l) {phase : Phase} (hold : s.commits call ≠ .failed) :
    Sound d (s.phase call phase) l := by
  have hnone : (s.phase call phase).NoneFailed → s.NoneFailed := by
    intro hnone c
    by_cases hc : c = call
    · exact hc ▸ hold
    · have hcall : (s.phase call phase).commits c = s.commits c := update_of_ne hc _ _
      exact hcall ▸ hnone c
  exact ⟨h.size, h.same, h.kept, h.apart, fun hne hn => h.clean hne (hnone hn),
    fun hne hn => h.right hne (hnone hn)⟩

theorem Sound.failed (hsize : 8 ≤ s.buf.length) (hsame : s.flash.length = s.buf.length)
    (hkept : l.Kept s.buf) (hapart : ∀ i b, l.want i = some b → i < 4 ∨ 8 ≤ i) :
    Sound d (s.phase call .failed) l := by
  have hsome : ¬ (s.phase call .failed).NoneFailed := fun hnone =>
    hnone call (update_self _ _ _)
  exact ⟨hsize, hsame, hkept, hapart, fun _ hn => absurd hn hsome, fun _ hn => absurd hn hsome⟩

/-! ## The sections -/

theorem Sound.attrStore (h : Sound d s l) {attr : ScAttr} {capable : Bool} {input : List Char}
    (htame : d.pldLen attr = 4 → d.Inside s.buf attr)
    (hstep : attrStore d s attr capable input = (s', ev)) :
    Sound d s' (l.note d s (.store attr capable input) ev) ∧ Promise d s l s' ev := by
  unfold Softconfig.attrStore at hstep
  split at hstep
  · obtain ⟨rfl, rfl⟩ := Prod.mk.inj hstep
    exact ⟨h, trivial⟩
  · rename_i hpayload
    have hin := htame (by simp at hpayload; exact hpayload.2)
    cases hdata : attr.tstore d.soc input with
    | none =>
      rw [hdata] at hstep
      obtain ⟨rfl, rfl⟩ := Prod.mk.inj hstep
      exact ⟨h, trivial⟩
    | some data =>
      rw [hdata] at hstep
      obtain ⟨rfl, rfl⟩ := Prod.mk.inj hstep
      have hofs : d.pldOfs attr ≤ s.buf.length := by have := hin.1; omega
      simp only [Ledger.note, hdata]
      refine ⟨h.null (length_overwrite _ _ hofs) ?_ ?_, trivial⟩
      · intro i b hwant
        rw [getElem?_overwrite]
        simp only [Ledger.store] at hwant
        split at hwant
        · rename_i hi
          rw [length_word32] at hi ⊢
          rw [if_pos ⟨hi.1, hi.2, by have := hin.1; omega⟩, hwant]
        · rename_i hi
          rw [if_neg (by tauto)]
          exact h.kept i b hwant
      · intro i b hwant
        simp only [Ledger.store] at hwant
        split at hwant
        · rename_i hi
          have := hin.2
          rw [length_word32] at hi
          omega
        · exact h.apart i b hwant

theorem Sound.reread (h : Sound d s l) (hphase : s.commits call = .checked false) {read : Outcome}
    (hstep : rereadSection s call read = (s', ev)) :
    Sound d s' (l.note d s (.reread call read) ev) ∧ Promise d s l s' ev := by
  have hlen : (mtdRead s.flash s.buf read).1.length = s.buf.length := by
    cases read <;> exact length_overwrite _ _ (Nat.zero_le _)
  have hsize : 8 ≤ (mtdRead s.flash s.buf read).1.length := hlen ▸ h.size
  have hsame := h.same.trans hlen.symm
  simp only [rereadSection] at hstep
  simp only [Ledger.note]
  split at hstep
  · rename_i hok
    obtain ⟨rfl, rfl⟩ := Prod.mk.inj hstep
    have hbuf : (mtdRead s.flash s.buf read).1 = s.flash := by
      cases read with
      | error left => cases hok
      | done bytes =>
        have hbytes : bytes = s.buf.length := of_decide_eq_true hok
        have htake : s.flash.take bytes = s.flash :=
          take_of_length_le (hbytes ▸ h.same.le)
        simp only [mtdRead, htake]
        exact overwrite_whole h.same
    refine ⟨Sound.phase ?_ (by rw [hphase]; decide), trivial⟩
    exact ⟨hsize, hsame, Ledger.kept_read, Ledger.apart_read, fun _ _ => hbuf.symm,
      fun _ _ hright => of_decide_eq_true hright⟩
  · obtain ⟨rfl, rfl⟩ := Prod.mk.inj hstep
    exact ⟨Sound.failed hsize hsame Ledger.kept_read Ledger.apart_read, trivial⟩

theorem Sound.flush (h : Sound d s l) (hphase : s.commits call = .checked true)
    (hnull : d.getCrc s.buf = 0) {erase : Option (List UInt8)} {write : Outcome}
    (hstep : flushSection d s call erase write = (s', ev)) :
    Sound d s' (l.note d s (.flush call erase write) ev) ∧ Promise d s l s' ev := by
  have hsize := h.size
  have hbuf : (d.setCrc s.buf (crc32 s.buf)).length = s.buf.length := length_setCrc hsize _
  have hkept := h.kept_setCrc (crc32 s.buf)
  have hright := right_setCrc hsize hnull
  simp only [flushSection] at hstep
  cases erase with
  | some left =>
    obtain ⟨rfl, rfl⟩ := Prod.mk.inj hstep
    refine ⟨Sound.failed (hbuf.symm ▸ hsize) ?_ hkept h.apart, trivial⟩
    exact (length_overwrite _ _ (Nat.zero_le _)).trans (h.same.trans hbuf.symm)
  | none =>
    have herased : (replicate s.flash.length (0xff : UInt8)).length = s.buf.length := by
      rw [length_replicate, h.same]
    cases write with
    | error left =>
      obtain ⟨rfl, rfl⟩ := Prod.mk.inj hstep
      refine ⟨Sound.failed (hbuf.symm ▸ hsize) ?_ hkept h.apart, trivial⟩
      exact (length_overwrite _ _ (Nat.zero_le _)).trans (herased.trans hbuf.symm)
    | done bytes =>
      simp only [mtdErase, mtdWrite, if_true] at hstep
      split at hstep
      · rename_i hok
        obtain ⟨rfl, rfl⟩ := Prod.mk.inj hstep
        have hwritten : overwrite (replicate s.flash.length 0xff) 0
            ((d.setCrc s.buf (crc32 s.buf)).take bytes) = d.setCrc s.buf (crc32 s.buf) := by
          rw [take_of_length_le (of_decide_eq_true hok).ge]
          exact overwrite_whole (hbuf.trans herased.symm)
        simp only [hwritten]
        refine ⟨Sound.phase ?_ (by rw [hphase]; decide), hright, rfl, clrCrc_setCrc hsize _, hkept⟩
        exact ⟨hbuf.symm ▸ hsize, rfl, hkept, h.apart, fun _ _ => rfl, fun _ _ _ => hright⟩
      · obtain ⟨rfl, rfl⟩ := Prod.mk.inj hstep
        refine ⟨Sound.failed (hbuf.symm ▸ hsize) ?_ hkept h.apart, trivial⟩
        exact (length_overwrite _ _ (Nat.zero_le _)).trans (herased.trans hbuf.symm)

/-- One tame section keeps the invariant and its promise. -/
theorem Sound.step (h : Sound d s l) {act : Act} (htame : Tame d s l act)
    (hstep : step d s act = some (s', ev)) :
    Sound d s' (l.note d s act ev) ∧ Promise d s l s' ev := by
  -- what a buffer with a CRC says about the flash
  have hflash : d.getCrc s.buf ≠ 0 → s.NoneFailed → s.flash = s.buf ∧ l.Kept s.flash := by
    intro hne hnone
    have hsame := h.clean hne hnone
    exact ⟨hsame, hsame ▸ h.kept⟩
  cases act with
  | store attr capable input => exact h.attrStore htame (some.inj hstep)
  | «show» =>
    obtain ⟨rfl, rfl⟩ := Prod.mk.inj (some.inj hstep)
    refine ⟨h, ?_⟩
    by_cases hne : d.getCrc s.buf = 0
    · simp [hne, Promise]
    · have hclean : decide (d.getCrc s.buf ≠ 0) = true := decide_eq_true hne
      rw [hclean]
      exact hflash hne (htame.resolve_left hne)
  | check call flush mtd =>
    simp only [Softconfig.step] at hstep
    split at hstep
    · cases hstep
    · rename_i hidle
      have hidle : s.commits call = .idle := by simpa using hidle
      split at hstep
      · rename_i hne
        obtain ⟨rfl, rfl⟩ := Prod.mk.inj (some.inj hstep)
        obtain ⟨hnone, hright⟩ := htame.resolve_left hne
        obtain ⟨hsame, hkept⟩ := hflash hne hnone
        exact ⟨h, h.right hne hnone hright, hsame, hkept⟩
      · split at hstep
        · obtain ⟨rfl, rfl⟩ := Prod.mk.inj (some.inj hstep)
          exact ⟨h, trivial⟩
        · split at hstep
          · obtain ⟨rfl, rfl⟩ := Prod.mk.inj (some.inj hstep)
            exact ⟨h.phase (by rw [hidle]; decide), trivial⟩
          · obtain ⟨rfl, rfl⟩ := Prod.mk.inj (some.inj hstep)
            exact ⟨h, trivial⟩
  | reread call read =>
    simp only [Softconfig.step] at hstep
    split at hstep
    · exact h.reread ‹_› (some.inj hstep)
    · cases hstep
  | flush call erase write =>
    simp only [Softconfig.step] at hstep
    split at hstep
    · exact h.flush ‹_› htame (some.inj hstep)
    · cases hstep
  | fail call =>
    simp only [Softconfig.step] at hstep
    split at hstep
    · obtain ⟨rfl, rfl⟩ := Prod.mk.inj (some.inj hstep)
      exact ⟨h.null rfl h.kept h.apart, trivial⟩
    · cases hstep

theorem Reachable.sound (h : Reachable d s l) : Sound d s l := by
  induction h with
  | initial hinit hsize => exact Sound.initial hinit hsize
  | step _ htame hstep ih => exact (ih.step htame hstep).1

/-- In every run of tame sections each event means what it promises. -/
theorem commit_run (h : Reachable d s l) {act : Act} (htame : Tame d s l act) {s' : State}
    {ev : Event} (hstep : step d s act = some (s', ev)) : Promise d s l s' ev :=
  (h.sound.step htame hstep).2

/-! ## Fixed runs -/

def runActs (d : Driver) : State × Ledger → List Act → Option (State × Ledger)
  | sl, [] => some sl
  | (s, l), act :: acts =>
    match step d s act with
    | none => none
    | some (s', ev) => runActs d (s', l.note d s act ev) acts

def smallImage : List UInt8 :=
  [0x53, 0x6f, 0x66, 0x74, 0x94, 0x72, 0x20, 0x8a, 2, 0, 4, 0, 1, 0, 0, 0, 0, 0, 0, 0]

def storeDelay : Act := .store .bootDelay true ['5']

/-- Another delay is stored, and two commits look at the CRC before one of them writes. -/
def twoCommits : List Act :=
  [storeDelay, .check 0 (some true) true, .check 1 (some true) true, .flush 0 none (.done 20)]

/-- The second commit computes its CRC over the first one's. -/
theorem commit_twice :
    ¬ ∀ (bigEndian : Bool) (soc : Option Soc) (behind : Nat → UInt8) (flash : List UInt8)
      (d : Driver) (s s' s'' : State) (l' : Ledger) (acts : List Act) (act : Act) (ev : Event),
      init bigEndian soc behind flash = some (d, s) → 8 ≤ flash.length →
      runActs d (s, .read d flash) acts = some (s', l') → step d s' act = some (s'', ev) →
      Promise d s' l' s'' ev := by
  intro hall
  have hrun : ((init false none (fun _ => 0) smallImage).bind fun ds =>
      (runActs ds.1 (ds.2, .read ds.1 smallImage) twoCommits).bind fun sl =>
      (step ds.1 sl.1 (.flush 1 none (.done 20))).map fun out =>
        (out.2, decide (ds.1.Right out.1.flash))) = some (.committed, false) := by
    decide +kernel
  obtain ⟨⟨d, s⟩, hinit, hrest⟩ := bind_eq_some_iff.mp hrun
  obtain ⟨⟨s', l'⟩, hacts, hrest⟩ := bind_eq_some_iff.mp hrest
  obtain ⟨⟨s'', ev⟩, hlast, hboth⟩ := map_eq_some_iff.mp hrest
  obtain ⟨rfl, hwrong⟩ := Prod.mk.inj hboth
  have hpromise := hall false none (fun _ => 0) smallImage d s s' s'' l' twoCommits
    (.flush 1 none (.done 20)) .committed hinit (by decide) hacts hlast
  exact of_decide_eq_false hwrong hpromise.1

/-- A delay is stored and committed, and then another one, by a second call. -/
theorem commit_run_again :
    ∃ (d : Driver) (s s' : State) (l : Ledger), Reachable d s l ∧
      Tame d s l (.flush 1 none (.done 20)) ∧
      step d s (.flush 1 none (.done 20)) = some (s', .committed) ∧ Promise d s l s' .committed := by
  have hrun : ((init false none (fun _ => 0) smallImage).bind fun ds =>
      (step ds.1 ds.2 storeDelay).bind fun stored =>
      (step ds.1 stored.1 (.check 0 (some true) true)).bind fun waiting =>
      (step ds.1 waiting.1 (.flush 0 none (.done 20))).bind fun done =>
      (step ds.1 done.1 (.store .bootDelay true ['3'])).bind fun stored' =>
      (step ds.1 stored'.1 (.check 1 (some true) true)).bind fun waiting' =>
      (step ds.1 waiting'.1 (.flush 1 none (.done 20))).map fun out =>
        ((ds.1.bigEndian, decide (ds.1.Inside ds.2.buf .bootDelay),
          decide (ds.1.Inside done.1.buf .bootDelay)),
          [stored, waiting, stored', waiting'].map fun x => ds.1.getCrc x.1.buf, out.2)) =
      some ((false, true, true), [0, 0, 0, 0], .committed) := by
    decide +kernel
  obtain ⟨⟨d, s⟩, hinit, hrest⟩ := bind_eq_some_iff.mp hrun
  obtain ⟨⟨stored, ev⟩, hstore, hrest⟩ := bind_eq_some_iff.mp hrest
  obtain ⟨⟨waiting, ev₁⟩, hcheck, hrest⟩ := bind_eq_some_iff.mp hrest
  obtain ⟨⟨done, ev₂⟩, hflush, hrest⟩ := bind_eq_some_iff.mp hrest
  obtain ⟨⟨stored', ev₃⟩, hstore', hrest⟩ := bind_eq_some_iff.mp hrest
  obtain ⟨⟨waiting', ev₄⟩, hcheck', hrest⟩ := bind_eq_some_iff.mp hrest
  obtain ⟨⟨s', ev₅⟩, hflush', hall⟩ := map_eq_some_iff.mp hrest
  simp only [map_cons, map_nil, Prod.mk.injEq, List.cons.injEq] at hall
  obtain ⟨⟨hbig, hinside, hinside'⟩, ⟨hnull₁, hnull₂, hnull₃, hnull₄, -⟩, rfl⟩ := hall
  have hread : Reachable d s (.read d smallImage) := .initial (hbig ▸ hinit) (by decide)
  have htame₁ : ∀ l, Tame d s l storeDelay := fun _ _ => of_decide_eq_true hinside
  have htame₂ : ∀ l, Tame d stored l (.check 0 (some true) true) := fun _ => .inl hnull₁
  have htame₃ : ∀ l, Tame d waiting l (.flush 0 none (.done 20)) := fun _ => hnull₂
  have hfirst := ((hread.step (htame₁ _) hstore).step (htame₂ _) hcheck).step (htame₃ _) hflush
  have htame₄ : ∀ l, Tame d done l (.store .bootDelay true ['3']) :=
    fun _ _ => of_decide_eq_true hinside'
  have htame₅ : ∀ l, Tame d stored' l (.check 1 (some true) true) := fun _ => .inl hnull₃
  have hsecond := (hfirst.step (htame₄ _) hstore').step (htame₅ _) hcheck'
  have htame₆ : ∀ l, Tame d waiting' l (.flush 1 none (.done 20)) := fun _ => hnull₄
  exact ⟨d, waiting', s', _, hsecond, htame₆ _, hflush', commit_run hsecond (htame₆ _) hflush'⟩

end LibWrt.Routerboot.Softconfig
