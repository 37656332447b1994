/-
LibWrt.Hostapd.Rename — the names of the interfaces when a configuration is
taken over in place.

A preserved BSS gets its new name at once where that is free, and a temporary
one otherwise, until all others have moved on. Only a temporary name may be
somebody's: then the kernel refuses it (`reload_names`).
-/
import LibWrt.Hostapd.MacaddrReload

namespace LibWrt.Hostapd.Macaddr.Rename

open Prod (snd fst)
open Option hiding map map_map mem_map
open List Nat

/-! ## The code -/

/-- A BSS of hostapd: one of the old configuration, or one that was added. -/
inductive Handle where
  | old (j : Nat)
  | new (i : Nat)
  deriving DecidableEq

/-- `iface->bss`, each one with its name -/
abbrev Live := List (Handle × String)

def names (l : Live) : List String := l.map snd

structure Calls where
  sha1 : String → String
  /-- With the names in use. -/
  rename : Handle → String → List String → Bool
  addBss : Nat → Bool

structure Run where
  live : Live
  deleted : List Nat := []
  /-- `rename_list` -/
  later : List Nat := []
  /-- Each new name, with the names in use at that moment. -/
  renamed : List (String × List String) := []

/-- `bss.delete`, which leaves the last one. -/
def Run.delete (s : Run) (j : Nat) : Run :=
  if s.live.length = 1 then s
  else { s with live := s.live.filter (·.1 ≠ .old j), deleted := j :: s.deleted }

section Code

variable (calls : Calls) (old config : List Bss) (running : List (Option Nat))

/-- `bss.rename` -/
def Run.rename (s : Run) (j : Nat) (name : String) : Option Run :=
  if calls.rename (.old j) name (names s.live) then
    some { s with
      live := s.live.map fun b => if b.1 = .old j then (b.1, name) else b
      renamed := (name, names s.live) :: s.renamed }
  else none

def step3Turn (prevHash : List (Option String)) (s : Run) (j : Nat) : Run :=
  if (prevHash[j]?.join).isSome then s.delete j else s

def temporary (name : String) : String := "tmp_" ++ ((calls.sha1 name).take 8).toString

def step4Turn (s : Run) (i : Nat) : Option Run :=
  match running[i]?.join with
  | none => some s
  | some j =>
    match old[j]?, config[i]? with
    | some prev, some cur =>
      if prev.ifname = cur.ifname then some s
      else if cur.ifname ∈ names s.live then
        { s with later := s.later ++ [i] }.rename calls j (temporary calls cur.ifname)
      else s.rename calls j cur.ifname
    | _, _ => none

def step5Turn (s : Run) (i : Nat) : Option Run :=
  match running[i]?.join, config[i]? with
  | some j, some cur => s.rename calls j cur.ifname
  | _, _ => none

def step7Turn (s : Run) (i : Nat) : Option Run :=
  if (running[i]?.join).isSome then some s
  else
    match config[i]? with
    | none => none
    | some cur =>
      if calls.addBss i then some { s with live := s.live ++ [(.new i, cur.ifname)] } else none

/-- `bss_list[i]` in the end -/
def handleOf (i : Nat) : Handle := ((running[i]?.join).map Handle.old).getD (.new i)

def order : List Handle := (range config.length).map (handleOf running)

def nameOf (l : Live) (h : Handle) : String := ((l.find? (·.1 = h)).map snd).getD ""

/-- `iface.set_bss_order`, which takes each BSS once -/
def setBssOrder (bssList : List Handle) (l : Live) : Option Live :=
  if bssList.length = l.length ∧ bssList.Nodup ∧ ∀ h ∈ bssList, h ∈ l.map fst then
    some (bssList.map fun h => (h, nameOf l h))
  else none

def start : Run where
  live := old.zipIdx.map fun b => (.old b.2, b.1.ifname)

end Code

structure Done where
  running : List (Option Nat)
  run : Run

/-- `iface_reload_config`, up to step 8 -/
def ifaceReloadConfig (sys : System) (env : Env) (calls : Calls) (config old : Config) :
    Option Done :=
  if old.radio ≠ config.radio then none
  else if old.bss = config.bss then
    some { running := (range config.bss.length).map some, run := start old.bss }
  else if env.pending ∨ old.bss = [] ∨ !env.enabled ∨ !env.bss 0 then none
  else
    (step1 sys env old.bss 0 config.bss (ifaceConfigMacaddrList sys.mlds config.bss)
      (old.bss.map fun bss => some (sys.hash bss.data))).bind fun p =>
    if config.mbssid ≠ 0 ∧ (p.running[0]?.join).isNone then none
    else (step2 env old.bss p).bind fun p =>
    if !step3 env p then none
    else
      let s := (range p.prevHash.length).foldl (step3Turn p.prevHash) (start old.bss)
      ((range p.running.length).foldlM (step4Turn calls old.bss config.bss p.running) s).bind
        fun s =>
      (s.later.foldlM (step5Turn calls config.bss p.running) s).bind fun s =>
      (step6 env p.running { list := macaddrInit sys.wdevs p.list, bss := p.bss }).bind fun _ =>
      ((range config.bss.length).foldlM (step7Turn calls config.bss p.running) s).bind fun s =>
      (setBssOrder (order config.bss p.running) s.live).map fun live =>
        { running := p.running, run := { s with live := live } }

/-- No name was in use when it was given, each old BSS is preserved once or deleted, and the
interface has the names of the configuration. -/
structure Renamed (old config : List Bss) (d : Done) : Prop where
  free : ∀ e ∈ d.run.renamed, e.1 ∉ e.2
  kept : ∀ j < old.length,
    Xor (j ∈ d.run.deleted) (∃! i, i < config.length ∧ d.running[i]?.join = some j)
  order : d.run.live.map fst = order config d.running
  names : names d.run.live = config.map Bss.ifname

/-- The kernel refuses a name that is in use. -/
def Calls.RefusesTaken (calls : Calls) : Prop :=
  ∀ h name used, name ∈ used → calls.rename h name used = false

structure TempsApart (calls : Calls) (old config : List Bss) : Prop where
  apart : ∀ n ∈ config.map Bss.ifname,
    temporary calls n ∉ old.map Bss.ifname ∧ temporary calls n ∉ config.map Bss.ifname
  inj : ∀ n ∈ config.map Bss.ifname, ∀ n' ∈ config.map Bss.ifname,
    temporary calls n = temporary calls n' → n = n'

/-! ## What the steps keep -/

section Steps

variable {calls : Calls} {old config : List Bss} {running : List (Option Nat)} {s s' : Run}

/-- All that is not deleted is preserved. -/
def Covered (old config : List Bss) (running : List (Option Nat)) (gone : List Nat) : Prop :=
  ∀ j < old.length, j ∉ gone → ∃ i < config.length, running[i]?.join = some j

/-- A name that is given is free, for one reason or the other. -/
def Sure (calls : Calls) (old config : List Bss) (running : List (Option Nat))
    (gone : List Nat) : Prop :=
  calls.RefusesTaken ∨
    TempsApart calls old config ∧ (config.map Bss.ifname).Nodup ∧ Covered old config running gone

/-- The name that the BSS with the index `i` has before the turn `k` of step 4, with temporary ones
for the indexes in `rest`. -/
def Named (calls : Calls) (old config : List Bss) (k : Nat) (rest : List Nat) (i j : Nat)
    (name : String) : Prop :=
  k ≤ i ∧ (old[j]?).map Bss.ifname = some name ∨
    i < k ∧ i ∉ rest ∧ (config[i]?).map Bss.ifname = some name ∨
    i ∈ rest ∧ (config[i]?).map (fun b => temporary calls b.ifname) = some name

structure Inv (calls : Calls) (old config : List Bss) (running : List (Option Nat))
    (gone : List Nat) (k : Nat) (rest : List Nat) (s : Run) : Prop where
  deleted : s.deleted = gone
  free : Sure calls old config running gone → ∀ e ∈ s.renamed, e.1 ∉ e.2
  olds : ∀ j, .old j ∈ s.live.map fst ↔ j < old.length ∧ j ∉ gone
  nodup : rest.Nodup
  rest_ok : ∀ i ∈ rest, i < k ∧ (running[i]?.join).isSome
  name : ∀ b ∈ s.live, ∀ i < config.length, ∀ j, running[i]?.join = some j → b.1 = .old j →
    Named calls old config k rest i j b.2
  new : ∀ b ∈ s.live, ∀ i, b.1 = .new i →
    running[i]?.join = none ∧ (config[i]?).map Bss.ifname = some b.2

variable {i j : Nat} {name : String}

theorem handleOf_old : handleOf running i = .old j ↔ running[i]?.join = some j := by
  unfold handleOf
  cases running[i]?.join <;> simp

theorem mem_start {b : Handle × String} : b ∈ (start old).live ↔
    ∃ j prev, old[j]? = some prev ∧ b = (.old j, prev.ifname) := by
  simp only [start, mem_map, mem_zipIdx_iff_getElem?, Prod.exists]
  constructor
  · rintro ⟨prev, j, h, rfl⟩
    exact ⟨j, prev, h, rfl⟩
  · rintro ⟨j, prev, h, rfl⟩
    exact ⟨prev, j, h, rfl⟩

theorem inv_start (calls : Calls) (config : List Bss) (running : List (Option Nat)) :
    Inv calls old config running [] 0 [] (start old) where
  deleted := rfl
  free := by simp [start]
  olds j := by
    simp only [mem_map, mem_start]
    constructor
    · rintro ⟨-, ⟨j', prev, h, rfl⟩, heq⟩
      obtain rfl := Handle.old.inj heq
      exact ⟨(List.getElem?_eq_some_iff.mp h).1, not_mem_nil⟩
    · rintro ⟨hlt, -⟩
      exact ⟨_, ⟨j, _, getElem?_eq_getElem hlt, rfl⟩, rfl⟩
  nodup := nodup_nil
  rest_ok := by simp
  name b hb i _ j _ heq := by
    obtain ⟨j', prev, h, rfl⟩ := mem_start.mp hb
    obtain rfl := Handle.old.inj heq
    exact .inl ⟨Nat.zero_le i, by rw [h]; rfl⟩
  new b hb i hi := by
    obtain ⟨j, prev, -, rfl⟩ := mem_start.mp hb
    cases hi

/-! ### Step 3 -/

structure Unnamed (calls : Calls) (old config : List Bss) (running : List (Option Nat)) (s : Run) :
    Prop where
  inv : Inv calls old config running s.deleted 0 [] s
  later : s.later = []
  renamed : s.renamed = []

theorem Unnamed.delete (h : Unnamed calls old config running s) (j : Nat) :
    Unnamed calls old config running (s.delete j) := by
  unfold Run.delete
  split_ifs with hlast
  · exact h
  refine ⟨⟨rfl, fun _ e he => ?_, fun j' => ?_, h.inv.nodup, h.inv.rest_ok, fun b hb => ?_,
    fun b hb => ?_⟩, h.later, h.renamed⟩
  · rw [h.renamed] at he
    cases he
  · have hold := h.inv.olds j'
    simp only [mem_map, mem_filter, decide_eq_true_eq, mem_cons, not_or] at hold ⊢
    constructor
    · rintro ⟨b, ⟨hb, hne⟩, heq⟩
      obtain ⟨hlt, hmem⟩ := hold.mp ⟨b, hb, heq⟩
      exact ⟨hlt, fun hj => hne (by rw [heq, hj]), hmem⟩
    · rintro ⟨hlt, hne, hmem⟩
      obtain ⟨b, hb, heq⟩ := hold.mpr ⟨hlt, hmem⟩
      exact ⟨b, ⟨hb, by rw [heq]; exact fun hj => hne (Handle.old.inj hj)⟩, heq⟩
  · exact h.inv.name b (mem_of_mem_filter hb)
  · exact h.inv.new b (mem_of_mem_filter hb)

theorem step3_unnamed (prevHash : List (Option String)) (l : List Nat)
    (h : Unnamed calls old config running s) :
    Unnamed calls old config running (l.foldl (step3Turn prevHash) s) := by
  induction l generalizing s with
  | nil => exact h
  | cons j l ih =>
    refine ih ?_
    unfold step3Turn
    split_ifs
    · exact h.delete j
    · exact h

/-! ### Renames -/

/-- Only the one BSS has another name. -/
structure Run.Renames (s : Run) (j : Nat) (name : String) (s' : Run) : Prop where
  log : s'.renamed = (name, names s.live) :: s.renamed
  later : s'.later = s.later
  deleted : s'.deleted = s.deleted
  handles : s'.live.map fst = s.live.map fst
  mem : ∀ b ∈ s'.live, b.1 = .old j ∧ b.2 = name ∨ b.1 ≠ .old j ∧ b ∈ s.live

theorem rename_some (h : s.rename calls j name = some s') :
    s.Renames j name s' ∧ (calls.RefusesTaken → name ∉ names s.live) := by
  obtain ⟨hok, h⟩ := ite_none_right_eq_some.mp h
  obtain rfl := some.inj h
  refine ⟨⟨rfl, rfl, rfl, ?_, fun b hb => ?_⟩, fun hkernel hmem => ?_⟩
  · rw [map_map]
    exact map_congr_left fun b _ => by simp only [Function.comp_apply]; split_ifs <;> rfl
  · obtain ⟨b', hb', rfl⟩ := mem_map.mp hb
    by_cases heq : b'.1 = .old j
    · exact .inl (by simp [heq])
    · exact .inr (by simp [heq, hb'])
  · rw [hkernel _ _ _ hmem] at hok
    cases hok

/-- No BSS is preserved twice. -/
def Apart (config : List Bss) (running : List (Option Nat)) : Prop :=
  ∀ i < config.length, ∀ i' < config.length, ∀ j, running[i]?.join = some j →
    running[i']?.join = some j → i = i'

variable {gone : List Nat} {k : Nat} {rest : List Nat}

theorem Inv.rename {rest' : List Nat} {k' : Nat} (h : Inv calls old config running gone k rest s)
    (hapart : Apart config running) (hi : i < config.length) (hj : running[i]?.join = some j)
    (hren : s.Renames j name s') (hfree : Sure calls old config running gone → name ∉ names s.live)
    (hname : Named calls old config k' rest' i j name)
    (hothers : ∀ i' ≠ i, ∀ j' n, Named calls old config k rest i' j' n →
      Named calls old config k' rest' i' j' n) (hnodup : rest'.Nodup)
    (hok : ∀ i ∈ rest', i < k' ∧ (running[i]?.join).isSome) :
    Inv calls old config running gone k' rest' s' := by
  refine ⟨hren.deleted.trans h.deleted, fun hsure e he => ?_, fun j' => ?_, hnodup, hok,
    fun b hb i' hi' j' hj' heq => ?_, fun b hb i' heq => ?_⟩
  · rw [hren.log] at he
    rcases mem_cons.mp he with rfl | he
    · exact hfree hsure
    · exact h.free hsure e he
  · rw [hren.handles]
    exact h.olds j'
  · rcases hren.mem b hb with ⟨hold, rfl⟩ | ⟨hne, hmem⟩
    · obtain rfl : j = j' := Handle.old.inj (hold.symm.trans heq)
      obtain rfl := hapart i hi i' hi' j hj hj'
      exact hname
    · refine hothers i' ?_ j' b.2 (h.name b hmem i' hi' j' hj' heq)
      rintro rfl
      rw [hj] at hj'
      exact hne (by rw [heq, some.inj hj'])
  · rcases hren.mem b hb with ⟨hold, -⟩ | ⟨-, hmem⟩
    · rw [hold] at heq
      cases heq
    · exact h.new b hmem i' heq

theorem mem_names {l : List Bss} (h : (l[i]?).map Bss.ifname = some name) :
    name ∈ l.map Bss.ifname := by
  obtain ⟨b, hb, rfl⟩ := map_eq_some_iff.mp h
  exact mem_map_of_mem (mem_of_getElem? hb)

theorem index_inj (hnodup : (config.map Bss.ifname).Nodup) {i' : Nat}
    (h : (config[i]?).map Bss.ifname = some name) (h' : (config[i']?).map Bss.ifname = some name) :
    i = i' := by
  rw [← getElem?_map] at h h'
  obtain ⟨hlt, -⟩ := List.getElem?_eq_some_iff.mp h
  exact (getElem?_inj hlt hnodup).mp (h.trans h'.symm)

/-- Where a name in use comes from. -/
theorem Inv.name_cases (h : Inv calls old config running gone k rest s)
    (hcover : Covered old config running gone) (hname : name ∈ names s.live) :
    k < running.length ∧ name ∈ old.map Bss.ifname ∨
      (∃ i, i ∉ rest ∧ (config[i]?).map Bss.ifname = some name) ∨
      ∃ i b, i ∈ rest ∧ config[i]? = some b ∧ temporary calls b.ifname = name := by
  obtain ⟨⟨x, n⟩, hb, rfl⟩ := mem_map.mp hname
  cases x with
  | new i =>
    obtain ⟨hnone, hright⟩ := h.new _ hb i rfl
    refine .inr (.inl ⟨i, fun hi => ?_, hright⟩)
    simpa [hnone] using (h.rest_ok i hi).2
  | old j =>
    obtain ⟨hlt, hgone⟩ := (h.olds j).mp (mem_map.mpr ⟨_, hb, rfl⟩)
    obtain ⟨i, hi, hj⟩ := hcover j hlt hgone
    rcases h.name _ hb i hi j hj rfl with ⟨hle, hold⟩ | ⟨-, hnot, hright⟩ | ⟨hmem, htemp⟩
    · refine .inl ⟨lt_of_le_of_lt hle ?_, mem_names hold⟩
      by_contra hout
      simp [getElem?_eq_none (Nat.not_lt.mp hout)] at hj
    · exact .inr (.inl ⟨i, hnot, hright⟩)
    · obtain ⟨b, hb', htemp⟩ := map_eq_some_iff.mp htemp
      exact .inr (.inr ⟨i, b, hmem, hb', htemp⟩)

/-- A temporary name is free in step 4. -/
theorem Inv.temporary_free (h : Inv calls old config running gone k rest s)
    (hsure : TempsApart calls old config ∧ (config.map Bss.ifname).Nodup ∧
      Covered old config running gone) {cur : Bss} (hcur : config[k]? = some cur) :
    temporary calls cur.ifname ∉ names s.live := by
  obtain ⟨htemps, hnodup, hcover⟩ := hsure
  have hmem : cur.ifname ∈ config.map Bss.ifname := mem_names (by rw [hcur]; rfl)
  intro hname
  rcases h.name_cases hcover hname with ⟨-, hold⟩ | ⟨i, -, hright⟩ | ⟨i, b, hi, hb, htemp⟩
  · exact (htemps.apart _ hmem).1 hold
  · exact (htemps.apart _ hmem).2 (mem_names hright)
  · have hsame := htemps.inj _ (mem_names (by rw [hb]; rfl)) _ hmem htemp
    have hi' : (config[i]?).map Bss.ifname = some cur.ifname := by rw [hb, ← hsame]; rfl
    have hik : i = k := index_inj hnodup hi' (by rw [hcur]; rfl)
    have hlt := (h.rest_ok i hi).1
    omega

theorem Inv.ifname_free (h : Inv calls old config running gone running.length (i :: rest) s)
    (hsure : TempsApart calls old config ∧ (config.map Bss.ifname).Nodup ∧
      Covered old config running gone) {cur : Bss} (hcur : config[i]? = some cur) :
    cur.ifname ∉ names s.live := by
  obtain ⟨htemps, hnodup, hcover⟩ := hsure
  intro hname
  rcases h.name_cases hcover hname with ⟨hlt, -⟩ | ⟨i', hi', hright⟩ | ⟨i', b, -, hb, htemp⟩
  · exact lt_irrefl _ hlt
  · refine hi' ?_
    rw [index_inj hnodup hright (by rw [hcur]; rfl)]
    exact mem_cons_self
  · refine (htemps.apart b.ifname (mem_names (by rw [hb]; rfl))).2 ?_
    rw [htemp]
    exact mem_names (by rw [hcur]; rfl)

/-! ### Steps 4 and 5 -/

/-- Nothing is to be done for the index. -/
theorem Inv.skip (h : Inv calls old config running gone k s.later s)
    (hright : ∀ b ∈ s.live, ∀ j, running[k]?.join = some j → b.1 = .old j → k < config.length →
      (config[k]?).map Bss.ifname = some b.2) :
    Inv calls old config running gone (k + 1) s.later s := by
  refine ⟨h.deleted, h.free, h.olds, h.nodup, fun i hi => ?_, fun b hb i hi j hj heq => ?_, h.new⟩
  · exact ⟨lt_succ_of_lt (h.rest_ok i hi).1, (h.rest_ok i hi).2⟩
  · by_cases hk : i = k
    · subst hk
      refine .inr (.inl ⟨lt_succ_self i, fun hmem => ?_, hright b hb j hj heq hi⟩)
      exact lt_irrefl i (h.rest_ok i hmem).1
    · rcases h.name b hb i hi j hj heq with ⟨hle, hold⟩ | ⟨hlt, hr⟩ | ht
      · exact .inl ⟨by omega, hold⟩
      · exact .inr (.inl ⟨by omega, hr⟩)
      · exact .inr (.inr ht)

theorem step4_inv (h : Inv calls old config running gone k s.later s)
    (hapart : Apart config running)
    (hturn : step4Turn calls old config running s k = some s') :
    Inv calls old config running gone (k + 1) s'.later s' := by
  unfold step4Turn at hturn
  cases hj : running[k]?.join with
  | none =>
    rw [hj] at hturn
    obtain rfl := some.inj hturn
    exact h.skip fun _ _ j hj' => by simp [hj] at hj'
  | some j =>
    rw [hj] at hturn
    dsimp only at hturn
    split at hturn
    case h_1 prev cur hprev hcur =>
      have hk : k < config.length := (List.getElem?_eq_some_iff.mp hcur).1
      have hnot : k ∉ s.later := fun hmem => lt_irrefl k (h.rest_ok k hmem).1
      split_ifs at hturn with hsame htaken
      · obtain rfl := some.inj hturn
        refine h.skip fun b hb j' hj' heq hlt => ?_
        obtain rfl := some.inj (hj.symm.trans hj')
        rcases h.name b hb k hlt j hj heq with ⟨-, hold⟩ | ⟨hlt, -⟩ | ⟨hmem, -⟩
        · rw [hprev] at hold
          rw [hcur, ← hold, map_some, map_some, hsame]
        · exact absurd hlt (lt_irrefl k)
        · exact absurd hmem hnot
      · obtain ⟨hren, hkernel⟩ := rename_some hturn
        rw [hren.later]
        refine Inv.rename (s := { s with later := s.later ++ [k] })
          ⟨h.deleted, h.free, h.olds, h.nodup, h.rest_ok, h.name, h.new⟩ hapart hk hj hren
          (fun hsure => hsure.elim hkernel fun hs => h.temporary_free hs hcur) ?_ ?_ ?_ ?_
        · exact .inr (.inr ⟨by simp, by rw [hcur]; rfl⟩)
        · rintro i' hne j' n (⟨hle, hold⟩ | ⟨hlt, hmem, hr⟩ | ⟨hmem, ht⟩)
          · exact .inl ⟨by omega, hold⟩
          · exact .inr (.inl ⟨by omega, by simp [hmem, hne], hr⟩)
          · exact .inr (.inr ⟨mem_append_left _ hmem, ht⟩)
        · exact nodup_append.mpr ⟨h.nodup, nodup_singleton k, by
            intro a ha b hb
            rw [mem_singleton.mp hb]
            exact fun hab => hnot (hab ▸ ha)⟩
        · intro i hi
          rcases mem_append.mp hi with hi | hi
          · exact ⟨lt_succ_of_lt (h.rest_ok i hi).1, (h.rest_ok i hi).2⟩
          · rw [mem_singleton.mp hi]
            exact ⟨lt_succ_self k, by simp [hj]⟩
      · obtain ⟨hren, -⟩ := rename_some hturn
        rw [hren.later]
        refine h.rename hapart hk hj hren (fun _ => htaken) ?_ ?_ h.nodup
          fun i hi => ⟨lt_succ_of_lt (h.rest_ok i hi).1, (h.rest_ok i hi).2⟩
        · exact .inr (.inl ⟨lt_succ_self k, hnot, by rw [hcur]; rfl⟩)
        · rintro i' hne j' n (⟨hle, hold⟩ | ⟨hlt, hr⟩ | ht)
          · exact .inl ⟨by omega, hold⟩
          · exact .inr (.inl ⟨by omega, hr⟩)
          · exact .inr (.inr ht)
    case h_2 => cases hturn

theorem step5_inv (hapart : Apart config running)
    (h : Inv calls old config running gone running.length rest s)
    (hrun : rest.foldlM (step5Turn calls config running) s = some s') :
    Inv calls old config running gone running.length [] s' := by
  induction rest generalizing s with
  | nil =>
    obtain rfl := some.inj hrun
    exact h
  | cons i rest ih =>
    rw [foldlM_cons] at hrun
    obtain ⟨t, hturn, hrun⟩ := bind_eq_some_iff.mp hrun
    refine ih ?_ hrun
    obtain ⟨hnot, hnodup⟩ := nodup_cons.mp h.nodup
    unfold step5Turn at hturn
    split at hturn
    case h_1 j cur hj hcur =>
      obtain ⟨hren, hkernel⟩ := rename_some hturn
      refine h.rename hapart (List.getElem?_eq_some_iff.mp hcur).1 hj hren
        (fun hsure => hsure.elim hkernel fun hs => h.ifname_free hs hcur) ?_ ?_ hnodup
        fun i' hi' => h.rest_ok i' (mem_cons_of_mem _ hi')
      · exact .inr (.inl ⟨(h.rest_ok i mem_cons_self).1, hnot, by rw [hcur]; rfl⟩)
      · rintro i' hne j' n (hold | ⟨hlt, hmem, hr⟩ | ⟨hmem, ht⟩)
        · exact .inl hold
        · exact .inr (.inl ⟨hlt, fun hi => hmem (mem_cons_of_mem _ hi), hr⟩)
        · exact .inr (.inr ⟨(mem_cons.mp hmem).resolve_left hne, ht⟩)
    case h_2 => cases hturn

/-! ### Steps 7 and 8 -/

theorem step7_inv (h : Inv calls old config running gone k [] s)
    (hturn : step7Turn calls config running s i = some s') :
    Inv calls old config running gone k [] s' := by
  unfold step7Turn at hturn
  cases hcur : config[i]? with
  | none =>
    rw [hcur] at hturn
    obtain ⟨-, rfl⟩ : (running[i]?.join).isSome = true ∧ s = s' := by simpa using hturn
    exact h
  | some cur =>
    rw [hcur] at hturn
    dsimp only at hturn
    split_ifs at hturn with hrun
    · obtain rfl := some.inj hturn
      exact h
    obtain rfl := some.inj hturn
    refine ⟨h.deleted, h.free, fun j => ?_, h.nodup, h.rest_ok, fun b hb i' hi j hj heq => ?_,
      fun b hb i' heq => ?_⟩
    · rw [← h.olds j]
      simp
    · rcases mem_append.mp hb with hb | hb
      · exact h.name b hb i' hi j hj heq
      · rw [mem_singleton.mp hb] at heq
        cases heq
    · rcases mem_append.mp hb with hb | hb
      · exact h.new b hb i' heq
      · obtain rfl := mem_singleton.mp hb
        obtain rfl := Handle.new.inj heq
        exact ⟨by simpa using hrun, by rw [hcur]; rfl⟩

/-- The names in the order of the configuration. -/
theorem names_order (h : Inv calls old config running gone running.length [] s)
    (hmem : ∀ x ∈ order config running, x ∈ s.live.map fst) :
    names ((order config running).map fun x => (x, nameOf s.live x)) =
      config.map Bss.ifname := by
  refine ext_getElem (by simp [names, order]) fun i hi hi' => ?_
  have hlen : i < config.length := by simpa using hi'
  have hin := hmem (handleOf running i) (mem_map_of_mem (mem_range.mpr hlen))
  obtain ⟨b, hb, hfst⟩ := mem_map.mp hin
  obtain ⟨b', hfind⟩ : ∃ b', s.live.find? (·.1 = handleOf running i) = some b' := by
    rw [← isSome_iff_exists, find?_isSome]
    exact ⟨b, hb, by simpa using hfst⟩
  have hb' := mem_of_find?_eq_some hfind
  have hfst' : b'.1 = handleOf running i := by simpa using find?_some hfind
  have hright : (config[i]?).map Bss.ifname = some b'.2 := by
    cases hj : running[i]?.join with
    | none =>
      refine (h.new b' hb' i ?_).2
      rw [hfst', handleOf, hj]
      rfl
    | some j =>
      rcases h.name b' hb' i hlen j hj (by rw [hfst', handleOf_old.mpr hj]) with
        ⟨hle, -⟩ | ⟨-, -, hr⟩ | ⟨hmem, -⟩
      · simp [getElem?_eq_none hle] at hj
      · exact hr
      · exact absurd hmem not_mem_nil
  have hname : nameOf s.live (handleOf running i) = b'.2 := by rw [nameOf, hfind]; rfl
  simp only [names, order, getElem_map, getElem_range, hname]
  rw [getElem?_eq_getElem hlen] at hright
  exact (some.inj hright).symm

/-- What `set_bss_order` accepts has each BSS once. -/
theorem setBssOrder_some {l l' : Live} (h : setBssOrder (order config running) l = some l') :
    Apart config running ∧ (∀ x, x ∈ order config running ↔ x ∈ l.map fst) ∧
      l' = (order config running).map fun x => (x, nameOf l x) := by
  obtain ⟨⟨hlen, hnodup, hmem⟩, h⟩ := ite_none_right_eq_some.mp h
  have hperm : (order config running).Perm (l.map fst) :=
    (subperm_of_subset hnodup hmem).perm_of_length_le (by simp [hlen])
  refine ⟨fun i hi i' hi' j hj hj' => ?_, fun x => hperm.mem_iff, (some.inj h).symm⟩
  refine inj_on_of_nodup_map hnodup (mem_range.mpr hi) (mem_range.mpr hi') ?_
  rw [handleOf_old.mpr hj, handleOf_old.mpr hj']

theorem mem_order : .old j ∈ order config running ↔
    ∃ i, i < config.length ∧ running[i]?.join = some j := by
  simp only [order, mem_map, mem_range, handleOf_old]

end Steps

/-! ## The whole reload -/

theorem renamed_same (config : List Bss) :
    Renamed config config ⟨(range config.length).map some, start config⟩ := by
  have hrun : ∀ i j, i < config.length →
      (((range config.length).map some)[i]?.join = some j ↔ i = j) := by
    intro i j hi
    simp [hi]
  refine ⟨by simp [start], fun j hj => .inr ⟨⟨j, ⟨hj, (hrun j j hj).mpr rfl⟩, fun i hi =>
    (hrun i j hi.1).mp hi.2⟩, by simp [start]⟩, ?_, ?_⟩
  · refine ext_getElem (by simp [start, order]) fun i hi hi' => ?_
    have hlen : i < config.length := by simpa [order] using hi'
    simp [start, order, handleOf, hlen]
  · refine ext_getElem (by simp [start, names]) fun i hi hi' => ?_
    simp [start, names]

theorem renamed_of_order {calls : Calls} {old config : List Bss} {running : List (Option Nat)}
    {gone : List Nat} {s : Run} {live : Live}
    (h : Inv calls old config running gone running.length [] s)
    (hnew : (config.map Bss.ifname).Nodup)
    (hfree : calls.RefusesTaken ∨ TempsApart calls old config)
    (horder : setBssOrder (order config running) s.live = some live) :
    Renamed old config ⟨running, { s with live := live }⟩ := by
  obtain ⟨hapart, hmem, rfl⟩ := setBssOrder_some horder
  have hiff : ∀ j < old.length, .old j ∈ order config running ↔ j ∉ gone := by
    intro j hj
    rw [hmem, h.olds]
    exact and_iff_right hj
  have hcover : Covered old config running gone := fun j hj hgone =>
    mem_order.mp ((hiff j hj).mpr hgone)
  refine ⟨h.free (hfree.imp_right fun ht => ⟨ht, hnew, hcover⟩), fun j hj => ?_, ?_,
    names_order h fun x => (hmem x).mp⟩
  · rw [h.deleted]
    by_cases hdel : j ∈ gone
    · refine .inl ⟨hdel, ?_⟩
      rintro ⟨i, hi, -⟩
      exact (hiff j hj).mp (mem_order.mpr ⟨i, hi⟩) hdel
    · obtain ⟨i, hi, hrun⟩ := hcover j hj hdel
      exact .inr ⟨⟨i, ⟨hi, hrun⟩, fun i' hi' => hapart i' hi'.1 i hi j hi'.2 hrun⟩, hdel⟩
  · rw [map_map]
    exact map_id _

/-- After a reload that returns true, no name was given while it was in use, each old BSS is
preserved once or deleted, and the interface has the BSSes of the configuration in order. That the
kernel refuses a name in use is needed only where a temporary name is somebody's. -/
theorem reload_names {sys : System} {env : Env} {calls : Calls} {config old : Config} {d : Done}
    (hnew : (config.bss.map Bss.ifname).Nodup)
    (hfree : calls.RefusesTaken ∨ TempsApart calls old.bss config.bss)
    (h : ifaceReloadConfig sys env calls config old = some d) :
    Renamed old.bss config.bss d := by
  obtain ⟨-, h⟩ := ite_none_left_eq_some.mp h
  split_ifs at h with hsame
  · obtain rfl := some.inj h
    rw [hsame]
    exact renamed_same config.bss
  obtain ⟨p, -, h⟩ := bind_eq_some_iff.mp h
  obtain ⟨-, h⟩ := ite_none_left_eq_some.mp h
  obtain ⟨q, -, h⟩ := bind_eq_some_iff.mp h
  obtain ⟨-, h⟩ := ite_none_left_eq_some.mp h
  obtain ⟨s₄, h4, h⟩ := bind_eq_some_iff.mp h
  obtain ⟨s₅, h5, h⟩ := bind_eq_some_iff.mp h
  obtain ⟨-, -, h⟩ := bind_eq_some_iff.mp h
  obtain ⟨s₇, h7, h⟩ := bind_eq_some_iff.mp h
  obtain ⟨live, horder, h⟩ := map_eq_some_iff.mp h
  obtain rfl := h
  obtain ⟨hapart, -⟩ := setBssOrder_some horder
  have h3 := step3_unnamed q.prevHash (range q.prevHash.length)
    (show Unnamed calls old.bss config.bss q.running (start old.bss) from
      ⟨inv_start calls config.bss q.running, rfl, rfl⟩)
  have h4' := Loop.foldlM_range_invariant
    (fun k s => Inv calls old.bss config.bss q.running _ k s.later s)
    (by rw [h3.later]; exact h3.inv) (fun _ _ _ _ hs => step4_inv hs hapart) h4
  have h7' := Loop.foldlM_range_invariant
    (fun _ => Inv calls old.bss config.bss q.running _ q.running.length [])
    (step5_inv hapart h4' h5) (fun _ _ _ _ hs => step7_inv hs) h7
  exact renamed_of_order h7' hnew hfree horder

def wlan (ifname bssid option : String) : Bss where
  ifname := ifname
  bssid := bssid
  defaultMacaddr := false
  randomMacaddr := false
  forceReload := false
  mldAp := false
  data := [option]
  hash := []

def pair (a b : String × String) : Config where
  radio := { channel := none, data := [] }
  mbssid := 0
  bss := [wlan "wlan0" a.1 a.2, wlan "wlan1" b.1 b.2]

def pairSystem : System where
  hash := fun data => data.headD ""
  fullmac := false
  mlds := []
  wdevs := []

def pairEnv : Env where
  pending := false
  enabled := true
  bss := fun _ => true
  rename := true
  update := true
  macaddrNext := fun _ => none

/-- The checksum is that of `wlan0`. -/
def pairCalls : Calls where
  sha1 := fun _ => "daffbef91ee156b90fd01ecb2fd5d3edcd660331"
  rename := fun _ name used => decide (name ∉ used)
  addBss := fun _ => true

/-- Two BSSes that swap their names. -/
theorem reload_swap : ∃ d,
    ifaceReloadConfig pairSystem pairEnv pairCalls
      (pair ("02:00:00:00:00:01", "ssid=b") ("02:00:00:00:00:00", "ssid=a"))
      (pair ("02:00:00:00:00:00", "ssid=a") ("02:00:00:00:00:01", "ssid=b")) = some d ∧
    Renamed (pair ("02:00:00:00:00:00", "ssid=a") ("02:00:00:00:00:01", "ssid=b")).bss
      (pair ("02:00:00:00:00:01", "ssid=b") ("02:00:00:00:00:00", "ssid=a")).bss d := by
  have hrefuses : pairCalls.RefusesTaken := fun _ _ _ hmem => decide_eq_false (not_not.mpr hmem)
  have hrun := eq_some_of_isSome (o := ifaceReloadConfig pairSystem pairEnv pairCalls
      (pair ("02:00:00:00:00:01", "ssid=b") ("02:00:00:00:00:00", "ssid=a"))
      (pair ("02:00:00:00:00:00", "ssid=a") ("02:00:00:00:00:01", "ssid=b"))) (by rfl)
  exact ⟨_, hrun, reload_names (by decide) (.inl hrefuses) hrun⟩

end LibWrt.Hostapd.Macaddr.Rename
