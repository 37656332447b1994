/-
LibWrt.Kconfig — kconfig.pl: adding and comparing configurations.

A configuration has a value for some symbols. What an operator makes of two of
them depends, for each symbol, on the values of this symbol only (`get?_add`,
`get?_diff`), and so does what is left of one that is written and read
(`get?_reload`). A symbol that is not set is `n` or `#undef`, and the addition
of m+ treats the two differently.
-/
import LibWrt.Lib.Dict
import Mathlib

namespace LibWrt.Kconfig

open List

abbrev Text := List Char

abbrev Config := Dict Text Text

def undef : Text := ['#', 'u', 'n', 'd', 'e', 'f']

def PREFIX : Text := ['C', 'O', 'N', 'F', 'I', 'G', '_']

def notSet : Text := [' ', 'i', 's', ' ', 'n', 'o', 't', ' ', 's', 'e', 't']

/-! ## The code -/

def truthy (t : Text) : Bool := t != [] && t != ['0']

/-- `$config->{$idx} = $val`, where the code comes to it. -/
def write (config : Config) (idx : Text) : Option Text → Config
  | some val => config.set idx val
  | none => config

def setValue (modPlus : Bool) (old : Option Text) (newval : Text) : Option Text :=
  if old = none ∨ modPlus = false ∨ old = some undef ∨ newval = ['y'] then some newval else none

/-- set_config -/
def setConfig (config : Config) (idx newval : Text) (modPlus : Bool) : Config :=
  write config idx (setValue modPlus (config.get? idx) newval)

def upTo (mark : Text) : Text → Option Text
  | [] => none
  | c :: t => if mark.isPrefixOf (c :: t) then some [] else (upTo mark t).map (c :: ·)

def behind (start line : Text) : Option Text :=
  if start.isPrefixOf line then some (line.drop start.length) else none

/-- `/^CONFIG_(.+?)=(.+)/` -/
def assigned (line : Text) : Option (Text × Text) :=
  match behind PREFIX line with
  | some (c :: t) =>
    match t.dropWhile (· != '=') with
    | _ :: v :: vs => some (c :: t.takeWhile (· != '='), v :: vs)
    | _ => none
  | _ => none

/-- `/^# CONFIG_(.+?) is not set/` -/
def unset (line : Text) : Option Text :=
  match behind ('#' :: ' ' :: PREFIX) line with
  | some (c :: t) => (upTo notSet t).map (c :: ·)
  | _ => none

/-- One line of load_config. -/
def loadLine (modPlus : Bool) (config : Config) (line : Text) : Config :=
  match assigned line with
  | some (idx, val) => setConfig config idx val modPlus
  | none =>
    match unset line with
    | some idx => setConfig config idx undef modPlus
    | none => config

/-- load_config -/
def loadConfig (lines : List Text) (modPlus : Bool) : Config :=
  lines.foldl (loadLine modPlus) ∅

def addValue (modPlus : Bool) (old : Option Text) (val : Text) : Option Text :=
  if modPlus = true ∧ old.any truthy = true ∧ (old = some ['y'] ∨ val = undef) then none
  else some val

/-- config_add -/
def configAdd (cfg1 cfg2 : Config) (modPlus : Bool) : Config :=
  (cfg1.entries ++ cfg2.entries).foldl (fun config e =>
    write config e.1 (addValue modPlus (config.get? e.1) e.2)) ∅

def diffValue (newOnly : Bool) (old : Option Text) (val : Text) : Option Text :=
  if old = some val ∨ (newOnly = true ∧ old = none ∧ val = undef) then none else some val

/-- config_diff -/
def configDiff (cfg1 cfg2 : Config) (newOnly : Bool) : Config :=
  cfg2.entries.foldl (fun config e =>
    write config e.1 (diffValue newOnly (cfg1.get? e.1) e.2)) ∅

/-- print_cfgline -/
def printCfgline (name val : Text) : Text :=
  if val = undef ∨ val = ['n'] then '#' :: ' ' :: PREFIX ++ name ++ notSet
  else PREFIX ++ name ++ '=' :: val

/-- dump_config -/
def dumpConfig (cfg : Config) : List Text :=
  (cfg.entries.mergeSort fun a b => decide (a.1 ≤ b.1)).map fun e => printCfgline e.1 e.2

/-! ## What it is to do -/

def tristates : List Text := [['y'], ['m'], ['n'], undef]

/-- Symbols are of letters, digits and `_`, and have one of the three states. -/
def Tristate (a : Config) : Prop := ∀ k v, a.get? k = some v →
  k ≠ [] ∧ (∀ c ∈ k, (c.isAlphanum || c == '_') = true) ∧ v ∈ tristates

/-- Symbols as above, with any values. -/
def Proper (a : Config) : Prop := ∀ k v, a.get? k = some v →
  k ≠ [] ∧ (∀ c ∈ k, (c.isAlphanum || c == '_') = true) ∧ v ≠ []

def Agree (a b : Config) : Prop := ∀ k, a.get? k = b.get? k

/-- Written by dump_config and read by load_config. -/
def reload (a : Config) (modPlus : Bool) : Config := loadConfig (dumpConfig a) modPlus

structure DiffLaws : Prop where
  all : ∀ (a b : Config) k,
    (configAdd a (configDiff a b false) false).get? k = (b.get? k).or (a.get? k)
  /-- What is not set in `b` and absent in `a` stays absent. -/
  newOnly : ∀ (a b : Config) k, (configAdd a (configDiff a b true) false).get? k =
    if b.get? k = some undef ∧ a.get? k = none then none else (b.get? k).or (a.get? k)

structure AddLaws (a b c : Config) : Prop where
  comm : Agree (configAdd a b true) (configAdd b a true)
  assoc : Agree (configAdd (configAdd a b true) c true) (configAdd a (configAdd b c true) true)
  idem : Agree (configAdd a a true) a

/-- No symbol is m in one and n in the other. -/
def Compatible (a b : Config) : Prop :=
  ∀ k, ¬(a.get? k = some ['m'] ∧ b.get? k = some ['n']) ∧
    ¬(a.get? k = some ['n'] ∧ b.get? k = some ['m'])

def values : List (Option Text) := none :: tristates.map some

/-! ## Symbol by symbol -/

theorem get?_write (d : Config) (idx k : Text) (val : Option Text) :
    (write d idx val).get? k = if k = idx then val.or (d.get? k) else d.get? k := by
  cases val with
  | none => exact (ite_self _).symm
  | some v => exact d.get?_set idx k v

theorem get?_foldl {l : List (Σ _ : Text, Text)} (hl : l.NodupKeys)
    (step : Text → Option Text → Text → Option Text) (d : Config) (k : Text) :
    (l.foldl (fun d e => write d e.1 (step e.1 (d.get? e.1) e.2)) d).get? k =
      ((l.dlookup k).bind (step k (d.get? k))).or (d.get? k) := by
  induction l generalizing d with
  | nil => rfl
  | cons e l ih =>
    obtain ⟨hnew, htail⟩ := nodupKeys_cons.mp hl
    rw [foldl_cons, ih htail, get?_write]
    by_cases hk : k = e.1
    · subst hk
      rw [dlookup_eq_none.mpr hnew, dlookup_cons_eq, if_pos rfl]
      rfl
    · rw [dlookup_cons_ne _ _ hk, if_neg hk]

def addOption (modPlus : Bool) (old val : Option Text) : Option Text :=
  (val.bind (addValue modPlus old)).or old

theorem get?_add (a b : Config) (modPlus : Bool) (k : Text) :
    (configAdd a b modPlus).get? k = addOption modPlus (a.get? k) (b.get? k) := by
  rw [configAdd, foldl_append, get?_foldl b.nodupKeys fun _ old v => addValue modPlus old v,
    get?_foldl a.nodupKeys fun _ old v => addValue modPlus old v, Dict.get?_empty]
  change addOption modPlus (((a.get? k).bind _).or none) (b.get? k) = _
  cases a.get? k with
  | none => rfl
  | some v => simp [addValue]

theorem get?_diff (a b : Config) (newOnly : Bool) (k : Text) :
    (configDiff a b newOnly).get? k = (b.get? k).bind (diffValue newOnly (a.get? k)) := by
  rw [configDiff, get?_foldl b.nodupKeys fun k _ v => diffValue newOnly (a.get? k) v,
    Dict.get?_empty, Option.or_none]
  rfl

theorem diffLaws : DiffLaws := by
  have hadd : ∀ (old val : Option Text) newOnly,
      ¬(newOnly = true ∧ val = some undef ∧ old = none) →
      addOption false old (val.bind (diffValue newOnly old)) = val.or old := by
    intro old val newOnly hnew
    cases val with
    | none => rfl
    | some v =>
      rw [Option.bind_some, diffValue]
      split_ifs with h
      · obtain rfl | ⟨hnewOnly, hold, rfl⟩ := h
        · rfl
        · exact absurd ⟨hnewOnly, rfl, hold⟩ hnew
      · simp [addOption, addValue]
  constructor
  · intro a b k
    rw [get?_add, get?_diff]
    exact hadd _ _ _ (by simp)
  · intro a b k
    rw [get?_add, get?_diff]
    split_ifs with hnew
    · rw [hnew.1, hnew.2]
      rfl
    · exact hadd _ _ _ fun h => hnew h.2

/-! ## What is read of what was written -/

theorem behind_append (start line : Text) : behind start (start ++ line) = some line := by
  simp [behind]

theorem upTo_append (t : Text) (h : ∀ c ∈ t, c ≠ ' ') : upTo notSet (t ++ notSet) = some t := by
  induction t with
  | nil => rfl
  | cons c t ih =>
    have hno : notSet.isPrefixOf (c :: (t ++ notSet)) = false := by
      simp [notSet, isPrefixOf, (h c mem_cons_self).symm]
    rw [cons_append, upTo, hno, ih fun d hd => h d (mem_cons_of_mem _ hd)]
    rfl

def norm (val : Text) : Text := if val = ['n'] then undef else val

theorem loadLine_print {k v : Text} (hk : k ≠ [])
    (hchars : ∀ c ∈ k, (c.isAlphanum || c == '_') = true) (hv : v ≠ []) (modPlus : Bool)
    (config : Config) :
    loadLine modPlus config (printCfgline k v) = setConfig config k (norm v) modPlus := by
  obtain ⟨c, t, rfl⟩ := exists_cons_of_ne_nil hk
  have hne : ∀ d ∈ t, d ≠ ' ' ∧ d ≠ '=' := by
    intro d hd
    have := hchars d (mem_cons_of_mem _ hd)
    constructor <;> rintro rfl <;> revert this <;> decide
  have hunset : loadLine modPlus config ('#' :: ' ' :: PREFIX ++ (c :: t) ++ notSet) =
      setConfig config (c :: t) undef modPlus := by
    have hassigned : assigned ('#' :: ' ' :: PREFIX ++ (c :: t) ++ notSet) = none := rfl
    rw [loadLine, hassigned, append_assoc, unset, behind_append]
    change (match (upTo notSet (t ++ notSet)).map (c :: ·) with
      | some idx => setConfig config idx undef modPlus
      | none => config) = _
    rw [upTo_append t fun d hd => (hne d hd).1]
    rfl
  have hset : ∀ x xs, loadLine modPlus config (PREFIX ++ (c :: t) ++ '=' :: x :: xs) =
      setConfig config (c :: t) (x :: xs) modPlus := by
    intro x xs
    have hp : ∀ d ∈ t, (d != '=') = true := fun d hd => bne_iff_ne.mpr (hne d hd).2
    rw [loadLine, append_assoc, assigned, behind_append, cons_append]
    simp [dropWhile_append_of_pos hp, takeWhile_append_of_pos hp]
  rw [printCfgline]
  split_ifs with h
  · obtain rfl | rfl := h <;> exact hunset
  · obtain ⟨x, xs, rfl⟩ := exists_cons_of_ne_nil hv
    rw [norm, if_neg fun hn => h (.inr hn)]
    exact hset x xs

/-- What was not set is `#undef` when it is read. -/
theorem get?_reload {a : Config} (ha : Proper a) (modPlus : Bool) (k : Text) :
    (reload a modPlus).get? k = (a.get? k).map norm := by
  have hperm := mergeSort_perm a.entries fun x y => decide (x.1 ≤ y.1)
  have hkeys := (perm_nodupKeys hperm).mpr a.nodupKeys
  have hlines : reload a modPlus = (a.entries.mergeSort fun x y => decide (x.1 ≤ y.1)).foldl
      (fun d e => write d e.1 (setValue modPlus (d.get? e.1) (norm e.2))) ∅ := by
    rw [reload, loadConfig, dumpConfig, foldl_map]
    apply foldl_ext
    intro d e he
    obtain ⟨hk, hchars, hv⟩ := ha e.1 e.2 ((a.mem_entries_iff e.1 e.2).mp (hperm.mem_iff.mp he))
    exact loadLine_print hk hchars hv modPlus d
  rw [hlines, get?_foldl hkeys fun _ old v => setValue modPlus old (norm v),
    perm_dlookup k hkeys hperm, Dict.get?_empty, Option.or_none]
  change (a.get? k).bind _ = _
  cases a.get? k with
  | none => rfl
  | some v => rfl

section Reload

variable {a : Config} (ha : Tristate a)

include ha

theorem Tristate.proper : Proper a := fun k v hv =>
  have hno : ∀ x ∈ tristates, x ≠ [] := by decide
  ⟨(ha k v hv).1, (ha k v hv).2.1, hno v (ha k v hv).2.2⟩

theorem mem_values (k : Text) : a.get? k ∈ values := by
  cases hv : a.get? k with
  | none => exact mem_cons_self
  | some v => exact mem_cons_of_mem _ (mem_map_of_mem (ha k v hv).2.2)

theorem mem_values_reload (modPlus : Bool) (k : Text) :
    (reload a modPlus).get? k ∈ values ∧ (reload a modPlus).get? k ≠ some ['n'] := by
  rw [get?_reload ha.proper]
  have hnorm : ∀ x ∈ values, x.map norm ∈ values ∧ x.map norm ≠ some ['n'] := by decide
  exact hnorm _ (mem_values ha k)

end Reload

theorem addLaws_iff {a b c : Config} (ha : ∀ k, a.get? k ∈ values) (hb : ∀ k, b.get? k ∈ values)
    (hc : ∀ k, c.get? k ∈ values) : AddLaws a b c ↔ Compatible a b := by
  have hcomm : ∀ x ∈ values, ∀ y ∈ values, addOption true x y = addOption true y x ↔
      ¬(x = some ['m'] ∧ y = some ['n']) ∧ ¬(x = some ['n'] ∧ y = some ['m']) := by decide
  have hassoc : ∀ x ∈ values, ∀ y ∈ values, ∀ z ∈ values,
      addOption true (addOption true x y) z = addOption true x (addOption true y z) := by decide
  have hidem : ∀ x ∈ values, addOption true x x = x := by decide
  have hagree : Agree (configAdd a b true) (configAdd b a true) ↔ Compatible a b :=
    forall_congr' fun k => by
      rw [get?_add, get?_add]
      exact hcomm _ (ha k) _ (hb k)
  constructor
  · intro h
    exact hagree.mp h.comm
  · intro h
    exact {
      comm := hagree.mpr h
      assoc := fun k => by
        simp only [get?_add]
        exact hassoc _ (ha k) _ (hb k) _ (hc k)
      idem := fun k => by
        rw [get?_add]
        exact hidem _ (ha k) }

theorem algebra_iff {a b c : Config} (ha : Tristate a) (hb : Tristate b) (hc : Tristate c) :
    (DiffLaws ∧ AddLaws a b c ∧ ∀ f g h, AddLaws (reload a f) (reload b g) (reload c h)) ↔
      Compatible a b := by
  have hiff := addLaws_iff (mem_values ha) (mem_values hb) (mem_values hc)
  constructor
  · intro h
    exact hiff.mp h.2.1
  · intro h
    refine ⟨diffLaws, hiff.mpr h, fun f g h => (addLaws_iff (fun k => (mem_values_reload ha f k).1)
      (fun k => (mem_values_reload hb g k).1) fun k => (mem_values_reload hc h k).1).mpr ?_⟩
    intro k
    exact ⟨fun hmn => (mem_values_reload hb g k).2 hmn.2,
      fun hnm => (mem_values_reload ha f k).2 hnm.1⟩

section Sample

/-- `CONFIG_X`, only. -/
def only (v : Text) : Config := (∅ : Config).set ['X'] v

theorem tristate_only {v : Text} (hv : v ∈ tristates) : Tristate (only v) := by
  intro k w hw
  rw [only, Dict.get?_set] at hw
  split_ifs at hw with hk
  · rw [hk, ← Option.some.inj hw]
    exact ⟨by decide, fun c hc => by rw [mem_singleton.mp hc]; rfl, hv⟩
  · cases hw

theorem algebra_iff_sample : (DiffLaws ∧ AddLaws (only ['m']) (only undef) (only ['n']) ∧
    ∀ f g h, AddLaws (reload (only ['m']) f) (reload (only undef) g) (reload (only ['n']) h)) ↔
      Compatible (only ['m']) (only undef) :=
  algebra_iff (tristate_only (by decide)) (tristate_only (by decide)) (tristate_only (by decide))

theorem not_comm : Tristate (only ['m']) ∧ Tristate (only ['n']) ∧
    ¬Agree (configAdd (only ['m']) (only ['n']) true) (configAdd (only ['n']) (only ['m']) true) := by
  refine ⟨tristate_only (by decide), tristate_only (by decide), fun h => ?_⟩
  have hX := h ['X']
  rw [get?_add, get?_add] at hX
  revert hX
  decide

end Sample

end LibWrt.Kconfig
