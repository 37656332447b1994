/-
LibWrt.Nvram.Tool — runs of the `nvram` command.

A run that may write works on a copy of the partition, the staging file, which
stays for the runs after it until one of them commits. So the files are a
store of two levels, `Store`, and a run of the command is one step of it
(`Agrees.main`) as long as what it writes has the room that a commit needs
(`Roomy`). What the command prints, and its status, is left out.
-/
import LibWrt.Nvram.Walk

namespace LibWrt.Nvram

open List Handle

/-! ## The command -/

/-- `do_set` -/
def doSet (pair : CString) : List Call :=
  if 61 ∈ pair.val then [.set (.ofBytes (pair.val.takeWhile (· ≠ 61)))
    (.ofBytes (pair.val.dropWhile (· ≠ 61)).tail)]
  else []

/-- The loop of `main` over its arguments: the calls, and whether there is a `commit`. The first
    argument that is not understood ends it. -/
def arguments : List CString → List Call × Bool
  | [] => ([], false)
  | arg :: args =>
    if arg = .ofString "show" then (arguments args).map (.getall :: ·) id
    else if arg = .ofString "info" then arguments args
    else if arg = .ofString "commit" then ((arguments args).1, true)
    else
      match args with
      | [] => ([], false)
      | var :: args =>
        if arg = .ofString "get" then (arguments args).map (.get var :: ·) id
        else if arg = .ofString "unset" then (arguments args).map (.unset var :: ·) id
        else if arg = .ofString "set" then (arguments args).map (doSet var ++ ·) id
        else ([], false)

/-- Whether a write is to be expected. -/
def writes : List CString → Bool
  | [] => false
  | arg :: args =>
    ((arg = .ofString "set" || arg = .ofString "unset") && !args.isEmpty) ||
      arg = .ofString "commit"

/-- The nvram partition, and `/tmp/.nvram` where it is there. -/
structure Files where
  mtd : List UInt8
  staging : Option (List UInt8)

/-- What is read: `nvram_find_staging`, or else `nvram_find_mtd`. -/
def Files.current (f : Files) : List UInt8 := f.staging.getD f.mtd

/-- `staging_to_nvram` -/
def Files.stagingToNvram (f : Files) : Files :=
  match f.staging with
  | some area => { mtd := area, staging := none }
  | none => f

/-- `main`: the files after it, which there are none of where a commit reads behind the mapping. -/
def main (signed high : Bool) (args : List CString) (f : Files) : Option Files :=
  if args = [] then some f
  else
    -- `nvram_to_staging` copies the partition where there is no staging file
    let f := if writes args then { f with staging := some f.current } else f
    match openArea signed f.current (!writes args) with
    | none => some f
    | some nvram =>
      let written :=
        if writes args then ((nvram.run (arguments args).1).commit high).map fun r =>
          { f with staging := some r.2.mmap }
        else some f
      written.map fun f => if (arguments args).2 then f.stagingToNvram else f

/-- Runs of the command, one after the other. -/
def Files.run (signed high : Bool) : List (List CString) → Files → Option Files
  | [], f => some f
  | args :: runs, f => (main signed high args f).bind (Files.run signed high runs)

/-! ## The store -/

/-- The values of a name: the saved one, and the one that is read. -/
structure Store where
  saved : Option CString
  current : Option CString
  deriving DecidableEq

/-- A run of the command, for a name and partitions like that of `h₀`. -/
def Store.step (h₀ : Handle) (name : CString) (s : Store) (args : List CString) : Store :=
  let current :=
    if writes args then h₀.lastSet name (arguments args).1 s.current else s.current
  { saved := if (arguments args).2 then current else s.saved, current }

/-- What a run writes leaves the room that a commit needs. -/
def Room (signed : Bool) (args : List CString) (f : Files) : Prop :=
  writes args → ∀ h ∈ openArea signed f.current false,
    roundup (h.run (arguments args).1).used < h.length - h.offset

def Roomy (signed high : Bool) : List (List CString) → Files → Prop
  | [], _ => True
  | args :: runs, f =>
    Room signed args f ∧ ∀ f' ∈ main signed high args f, Roomy signed high runs f'

/-! ## Names -/

namespace Handle

/-- No name has an `=`. -/
def Named (h : Handle) : Prop := ∀ name, (h.get name).isSome → 61 ∉ name.val

variable {h : Handle}

theorem Named.set (hn : h.Named) {name : CString} (hname : 61 ∉ name.val) (value : CString) :
    (h.set name value).2.Named := by
  intro name' hsome
  rw [get_set] at hsome
  split at hsome
  · rename_i heq
    rw [heq.1]
    exact hname
  · exact hn name' hsome

theorem Named.setDefault (hn : h.Named) {name : CString} (hname : 61 ∉ name.val)
    (value : CString) : (h.setDefault name value).Named := by
  unfold Handle.setDefault
  split
  · exact hn
  · exact hn.set hname value

theorem Named.setPairs {pairs : List (CString × CString)} (hnames : ∀ t ∈ pairs, 61 ∉ t.1.val)
    (hn : h.Named) : (pairs.foldl (fun h p => (h.set p.1 p.2).2) h).Named := by
  induction pairs generalizing h with
  | nil => exact hn
  | cons t pairs ih =>
    rw [forall_mem_cons] at hnames
    exact ih hnames.2 (hn.set hnames.1 t.2)

/-- An opened partition has no such name. -/
theorem openArea_named {signed rdonly : Bool} {area : List UInt8}
    (hopen : openArea signed area rdonly = some h) : h.Named := by
  obtain ⟨-, -, i, -, hre⟩ := openArea_eq_some hopen
  obtain ⟨pairs, hparse, rfl⟩ := Option.map_eq_some_iff.mp hre
  obtain ⟨-, -, -, hnames, -⟩ := parse_sound hparse
  have hfree : (Handle.mk signed area area.length (4 * i) .empty []).free.Named := by
    intro name hsome
    simp at hsome
  have hpairs := hfree.setPairs hnames
  unfold setSdram
  exact (((hpairs.setDefault (by decide) _).setDefault (by decide) _).setDefault
    (by decide) _).setDefault (by decide) _

/-- Calls that set no such name leave none. -/
theorem Named.run (hn : h.Named) (hwf : h.Wf) {calls : List Call}
    (hcalls : ∀ name value, .set name value ∈ calls → 61 ∉ name.val) : (h.run calls).Named := by
  induction calls generalizing h with
  | nil => exact hn
  | cons c calls ih =>
    refine ih ?_ (hwf.call c) fun name value hmem => hcalls name value (mem_cons_of_mem _ hmem)
    cases c with
    | set name value => exact hn.set (hcalls name value mem_cons_self) value
    | unset name =>
      intro name' hsome
      rw [show ((h.call (.unset name)).2.get name') = _ from hwf.get_unset name name'] at hsome
      split at hsome
      · simp at hsome
      · exact hn name' hsome
    | get name => exact hn
    | getall => exact hn

end Handle

/-! ## Runs -/

theorem openArea_rest {signed rdonly : Bool} {area : List UInt8} {h : Handle}
    (hopen : openArea signed area rdonly = some h) : h.signed = signed ∧ h.mmap = area := by
  obtain ⟨-, -, i, -, hre⟩ := openArea_eq_some hopen
  obtain ⟨hash, rfl⟩ := rehash_rest hre
  exact ⟨rfl, rfl⟩

/-- What can be opened for writing can be opened for reading. -/
theorem openArea_rdonly {signed : Bool} {area : List UInt8} {h : Handle} (rdonly : Bool)
    (hopen : openArea signed area false = some h) : openArea signed area rdonly = some h := by
  cases rdonly with
  | false => exact hopen
  | true =>
    obtain ⟨hmin, hmax, i, hfind, hre⟩ := openArea_eq_some hopen
    rw [openArea, if_neg (by omega), hfind, Option.bind_some]
    exact hre

/-- A commit with room leaves the handle of what it has written. -/
theorem Handle.Mapped.reopened {h : Handle} (hm : h.Mapped) (hwf : h.Wf) (hn : h.Named)
    (hlt : roundup h.used < h.length - h.offset) (high : Bool) :
    ∃ h', h.commit high = some (0, h') ∧ openArea h.signed h'.mmap false = some h' ∧
      h'.length = h.length ∧ h'.offset = h.offset ∧
      ∀ name ∉ sdramNames, h'.get name = h.get name := by
  have hnames : ∀ t ∈ h.hash.pairs, 61 ∉ t.1.val := fun t ht =>
    hn t.1 (by simp [show h.get t.1 = _ from (Chains.Wf.mem_iff hwf t).mp ht])
  obtain ⟨stat, h', hcommit, hok, -⟩ := commitOk_of_lt hm hwf hnames hlt high
  obtain ⟨h₁, hre, heq⟩ := Option.map_eq_some_iff.mp hcommit
  obtain ⟨rfl, rfl⟩ := Prod.mk.inj heq
  obtain ⟨h'', hopen, hget, -⟩ := hok rfl false
  obtain ⟨hash, hrest⟩ := rehash_rest hre
  have hfits : h.Fits := by
    rw [Fits]
    rw [roundup] at hlt
    omega
  have himage : h₁.mmap = h.commitImage high := by rw [hrest]
  have hsame : h'' = h₁ := by
    rw [himage, openArea_image hm hfits, if_pos (by simp [hlt])] at hopen
    exact Option.some.inj (hopen.symm.trans hre)
  subst hsame
  exact ⟨h'', hcommit, hopen, by rw [hrest], by rw [hrest], fun name hname =>
    hget name (.inl hname)⟩

/-- The partition can be opened, is laid out as that of `h₀`, and has this value. -/
def Holds (h₀ : Handle) (area : List UInt8) (name : CString) (value : Option CString) : Prop :=
  ∃ h, openArea h₀.signed area false = some h ∧ h.length = h₀.length ∧ h.offset = h₀.offset ∧
    h.get name = value

/-- The files hold the values of the store. -/
structure Agrees (h₀ : Handle) (name : CString) (f : Files) (s : Store) : Prop where
  saved : Holds h₀ f.mtd name s.saved
  current : Holds h₀ f.current name s.current

variable {h₀ : Handle} {name : CString} {f : Files} {s : Store} {signed high : Bool}

theorem arguments_named (args : List CString) (n value : CString) :
    .set n value ∈ (arguments args).1 → 61 ∉ n.val := by
  fun_induction arguments args with
  | case8 _ _ _ _ _ _ _ ih =>
    rw [Prod.map_fst, mem_append]
    refine (·.elim (fun hmem hn => ?_) ih)
    unfold doSet at hmem
    split at hmem
    · simp only [mem_singleton, Call.set.injEq] at hmem
      rw [hmem.1] at hn
      simpa using mem_takeWhile_imp ((takeWhile_sublist _).mem hn)
    · cases hmem
  | _ => simp_all

theorem signed_run (h : Handle) (calls : List Call) : (h.run calls).signed = h.signed := by
  induction calls generalizing h with
  | nil => rfl
  | cons c calls ih => exact (ih _).trans (by cases c <;> simp [Handle.call])

/-- The end of a run: the staging file becomes the partition, which is what is read already where
    there is none. -/
theorem Holds.finish {saved current : Option CString} (hsaved : Holds h₀ f.mtd name saved)
    (hcurrent : Holds h₀ f.current name current) (commit : Bool) :
    Agrees h₀ name (if commit then f.stagingToNvram else f)
      ⟨if commit then current else saved, current⟩ := by
  obtain ⟨mtd, staging⟩ := f
  cases commit with
  | false => exact ⟨hsaved, hcurrent⟩
  | true => cases staging <;> exact ⟨hcurrent, hcurrent⟩

/-- A run of the command is a step of the store. -/
theorem Agrees.main (hag : Agrees h₀ name f s) (hname : name ∉ sdramNames)
    {args : List CString} (hroom : Room h₀.signed args f) (high : Bool) :
    ∃ f', main h₀.signed high args f = some f' ∧ Agrees h₀ name f' (s.step h₀ name args) := by
  obtain ⟨h, hopen, hlength, hoffset, hget⟩ := hag.current
  have hwf := openArea_wf hopen
  obtain ⟨-, hlength', hoffset'⟩ := run_area h (arguments args).1
  unfold Nvram.main Store.step
  split
  · rename_i hnil
    subst hnil
    exact ⟨_, rfl, hag⟩
  · cases hw : writes args with
    | true =>
      obtain ⟨h', hcommit, hopen', hl, ho, hget'⟩ :=
        ((openArea_mapped hopen).run (arguments args).1).reopened (hwf.run _)
          ((openArea_named hopen).run hwf (arguments_named args))
          (by rw [hlength', hoffset']; exact hroom hw h hopen) high
      rw [signed_run, (openArea_rest hopen).1] at hopen'
      have hholds : Holds h₀ h'.mmap name (h₀.lastSet name (arguments args).1 s.current) := by
        refine ⟨h', hopen', by rw [hl, hlength', hlength], by rw [ho, hoffset', hoffset], ?_⟩
        rw [hget' name hname, hwf.get_run, hget, lastSet, lastSet,
          valueAfter_congr hlength hoffset]
      have hopens : openArea h₀.signed (Files.mk f.mtd (some f.current)).current false = some h :=
        hopen
      simp only [if_true, Bool.not_true, hopens, hcommit]
      exact ⟨_, rfl, Holds.finish (f := ⟨f.mtd, some h'.mmap⟩) hag.saved hholds _⟩
    | false =>
      simp only [Bool.false_eq_true, if_false, Bool.not_false, openArea_rdonly true hopen]
      exact ⟨_, rfl, Holds.finish hag.saved hag.current _⟩

theorem run_agrees {runs : List (List CString)} {s : CString → Store}
    (hroom : Roomy h₀.signed high runs f) (hag : ∀ name ∉ sdramNames, Agrees h₀ name f (s name)) :
    ∃ f', Files.run h₀.signed high runs f = some f' ∧ ∀ name ∉ sdramNames,
      Agrees h₀ name f' (runs.foldl (Store.step h₀ name) (s name)) := by
  induction runs generalizing f s with
  | nil => exact ⟨f, rfl, hag⟩
  | cons args runs ih =>
    obtain ⟨hargs, hruns⟩ := hroom
    obtain ⟨r, hr, -⟩ := (hag (.ofBytes []) (by decide)).main (by decide) hargs high
    obtain ⟨f', hf', hag'⟩ := ih (hruns r hr) fun name hname => by
      obtain ⟨r', hr', hstep⟩ := (hag name hname).main hname hargs high
      rw [Option.some.inj (hr.symm.trans hr')]
      exact hstep
    exact ⟨f', by rw [Files.run, hr]; exact hf', hag'⟩

end LibWrt.Nvram
