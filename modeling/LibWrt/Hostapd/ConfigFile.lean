/-
LibWrt.Hostapd.ConfigFile — the configuration file of hostapd, written and read.

The scripts append a line for each option, `key=value`; the loader reads the
file line by line and cuts each line at its first `=`. Nothing is escaped, so
that a value is read back as it was if and only if it has no line feed.
-/
import Mathlib.Data.List.DropRight
import Mathlib.Tactic

namespace LibWrt.Hostapd.ConfigFile

open List

abbrev Text := List UInt8

def ascii (s : String) : Text := s.toList.map fun c => UInt8.ofNat c.toNat

def nl : UInt8 := 10

def eqSign : UInt8 := 61

/-! ## The file as it is written -/

inductive Scalar where
  | null
  | bool (b : Bool)
  | int (i : Int)
  | string (s : Text)

inductive Value where
  | scalar (v : Scalar)
  | array (elems : List Scalar)

def Scalar.text : Scalar → Text
  | .null => ascii "null"
  | .bool b => ascii (if b then "true" else "false")
  | .int i => ascii (toString i)
  | .string s => s

/-- `join(' ', value)` -/
def joinBlank (elems : List Scalar) : Text := (ascii " ").intercalate (elems.map Scalar.text)

structure Key where
  bytes : Text
  ne_nil : bytes ≠ []
  no_nl : nl ∉ bytes
  no_eq : eqSign ∉ bytes

def appendRaw (configData value : Text) : Text := configData ++ (value ++ [nl])

def valueText : Value → Option Text
  | .scalar .null => none
  | .array elems => some (joinBlank elems)
  | .scalar (.bool b) => some (Scalar.int (if b then 1 else 0)).text
  | .scalar v => some v.text

def append (configData : Text) (key : Key) (value : Value) : Text :=
  match valueText value with
  | none => configData
  | some text => appendRaw configData (key.bytes ++ (eqSign :: text))

def get (dict : List (Text × Value)) (key : Key) : Value :=
  (dict.lookup key.bytes).getD (.scalar .null)

def appendVars (configData : Text) (dict : List (Text × Value)) (keys : List Key) : Text :=
  keys.foldl (fun data key => append data key (get dict key)) configData

inductive Call where
  | append (key : Key) (value : Value)
  | appendVars (dict : List (Text × Value)) (keys : List Key)

def call (configData : Text) : Call → Text
  | .append key value => append configData key value
  | .appendVars dict keys => appendVars configData dict keys

/-- The text after `flush_config` and calls. -/
def dumpConfig (calls : List Call) : Text := calls.foldl call []

/-! ## The file as it is read -/

def lines : Text → List Text
  | [] => []
  | c :: rest =>
    if c = nl then [c] :: lines rest
    else match lines rest with
      | [] => [[c]]
      | line :: more => (c :: line) :: more

/-- `rtrim(line, "\n")` -/
def rtrim (line : Text) : Text := line.rdropWhile (· = nl)

/-- `split(line, "=", 2)` -/
def split (line : Text) : Text × Option Text :=
  (line.takeWhile (· ≠ eqSign),
    match line.dropWhile (· ≠ eqSign) with
    | [] => none
    | _ :: value => some value)

structure Bss where
  ifname : Option Text
  data : List Text
  hash : List (Text × Text)
  bssid : Option Text
  nasid : Option Text
  /-- What `int` is given. -/
  mldAp : Option Text
  defaultMacaddr : Bool
  randomMacaddr : Bool

structure Config where
  phy : Text
  radioIdx : Option Int
  radioData : List Text
  channel : Option Text
  /-- What `int` is given. -/
  numGlobalMacaddr : Option Text
  macaddrBase : Option Text
  /-- What `int` is given. -/
  mbssid : Option Text
  bss : List Bss
  origFile : Text

/-- `hostapd.data.file_fields` -/
def fileFields : List Text :=
  [ascii "vlan_file", ascii "wpa_psk_file", ascii "sae_password_file", ascii "rxkh_file",
    ascii "accept_mac_file", ascii "deny_mac_file", ascii "eap_user_file", ascii "ca_cert",
    ascii "server_cert", ascii "server_cert2", ascii "private_key", ascii "private_key2",
    ascii "dh_file", ascii "eap_sim_db"]

structure Env where
  readfile : Option Text → Option Text
  normalizeRxkhs : Option Text → Option Text
  sha1 : Option Text → Text

def lc (text : Text) : Text := text.map fun c => if 65 ≤ c ∧ c ≤ 90 then c + 32 else c

def configAddBss (name : Option Text) : Bss where
  ifname := name
  data := []
  hash := []
  bssid := none
  nasid := none
  mldAp := none
  defaultMacaddr := false
  randomMacaddr := false

def addHash (env : Env) (bss : Bss) (key : Text) (value : Option Text) : Bss :=
  if key ∈ fileFields then
    let content := env.readfile value
    let hash := if key = ascii "rxkh_file" then env.sha1 (env.normalizeRxkhs content)
      else env.sha1 content
    { bss with hash := bss.hash.filter (·.1 ≠ key) ++ [(key, hash)] }
  else bss

def directives (bss : Bss) (line : Text) : Bss :=
  { bss with
    defaultMacaddr := bss.defaultMacaddr || line = ascii "#default_macaddr"
    randomMacaddr := bss.randomMacaddr || line = ascii "#random_macaddr" }

def bssField (bss : Bss) (key : Text) (value : Option Text) : Bss :=
  if key = ascii "nas_identifier" then { bss with nasid := value }
  else if key = ascii "mld_ap" then { bss with mldAp := value }
  else bss

def bssLine (env : Env) (bss : Bss) (line : Text) : Option Bss × Bss :=
  let bss := directives bss line
  let val := split line
  if val.1 = [] then (none, bss)
  else if val.1 = ascii "bssid" then (none, { bss with bssid := val.2.map lc })
  else
    let bss := bssField bss val.1 val.2
    if val.1 = ascii "bss" then (some bss, configAddBss val.2)
    else
      let bss := addHash env bss val.1 val.2
      (none, { bss with data := bss.data ++ [line] })

def loadBss (env : Env) (bss : Bss) : List Text → List Bss
  | [] => [bss]
  | line :: more =>
    (bssLine env bss (rtrim line)).1.toList ++
      loadBss env (bssLine env bss (rtrim line)).2 more

def radioLine (config : Config) (line : Text) : Config :=
  let val := split line
  let config :=
    if val.1 = ascii "#num_global_macaddr" then { config with numGlobalMacaddr := val.2 }
    else if val.1 = ascii "#macaddr_base" then { config with macaddrBase := val.2 }
    else if val.1 = ascii "mbssid" then { config with mbssid := val.2 }
    else config
  { config with radioData := config.radioData ++ [line] }

def loadRadio (env : Env) (config : Config) : List Text → Config
  | [] => config
  | line :: more =>
    let val := split (rtrim line)
    if val.1 = [] then loadRadio env config more
    else if val.1 = ascii "interface" then
      { config with bss := loadBss env (configAddBss val.2) more }
    else if val.1 = ascii "channel" then loadRadio env { config with channel := val.2 } more
    else loadRadio env (radioLine config (rtrim line)) more

def ifaceLoadConfig (env : Env) (phy : Text) (radio : Int) (filename text : Text) : Config :=
  loadRadio env
    { phy := phy
      radioIdx := if radio < 0 then none else some radio
      radioData := []
      channel := none
      numGlobalMacaddr := none
      macaddrBase := none
      mbssid := none
      bss := []
      origFile := filename } (lines text)

/-! ## What is said of a file -/

def lineVal (line : Text) : Text × Option Text := split (rtrim line)

def hasKey (val : Text × Option Text) : Bool := val.1 ≠ []

def readPairs (text : Text) : List (Text × Option Text) := ((lines text).map lineVal).filter hasKey

def callPairs : Call → List (Text × Text)
  | .append key value => (valueText value).toList.map fun text => (key.bytes, text)
  | .appendVars dict keys =>
    keys.flatMap fun key => (valueText (get dict key)).toList.map fun text => (key.bytes, text)

def pairs (calls : List Call) : List (Text × Text) := calls.flatMap callPairs

def noInterface (val : Text × Option Text) : Bool := val.1 ≠ ascii "interface"

def isBss (val : Text × Option Text) : Bool := val.1 = ascii "bss"

def sections (pairs : List (Text × Option Text)) : List (Option Text) :=
  match pairs.dropWhile noInterface with
  | [] => []
  | first :: more => first.2 :: (more.filter isBss).map Prod.snd

/-- A file is read as it was written: the same keys and values, no line more, a BSS for each that
was written, and no comment with a meaning. -/
structure Intact (calls : List Call) : Prop where
  pairs_eq : readPairs (dumpConfig calls) = (pairs calls).map fun pair => (pair.1, some pair.2)
  lines_eq : (lines (dumpConfig calls)).length = (pairs calls).length
  sections_eq : ∀ env phy radio filename,
    (ifaceLoadConfig env phy radio filename (dumpConfig calls)).bss.map Bss.ifname =
      sections ((pairs calls).map fun pair => (pair.1, some pair.2))
  directives_eq : ∀ env phy radio filename,
    ∀ bss ∈ (ifaceLoadConfig env phy radio filename (dumpConfig calls)).bss,
      bss.defaultMacaddr = false ∧ bss.randomMacaddr = false

/-! ## Lines -/

section Lines

variable {line rest text : Text}

theorem lines_append (h : nl ∉ line) :
    lines (line ++ nl :: rest) = (line ++ [nl]) :: lines rest := by
  induction line with
  | nil => rw [nil_append, lines, if_pos rfl, nil_append]
  | cons c line ih =>
    have hc : c ≠ nl := fun heq => h (heq ▸ mem_cons_self)
    rw [cons_append, lines, if_neg hc, ih fun hmem => h (mem_cons_of_mem _ hmem)]
    rfl

/-- A line feed ends a line. -/
theorem nl_not_mem_dropLast (h : line ∈ lines text) : nl ∉ line.dropLast := by
  induction text generalizing line with
  | nil => cases h
  | cons c text ih =>
    rw [lines] at h
    split_ifs at h with hc
    · rcases mem_cons.mp h with rfl | h
      · exact not_mem_nil
      · exact ih h
    · split at h
      · rcases mem_cons.mp h with rfl | h
        · exact not_mem_nil
        · cases h
      · rename_i first more hlines
        rcases mem_cons.mp h with rfl | h
        · have hfirst := ih (hlines ▸ mem_cons_self)
          cases first with
          | nil => exact not_mem_nil
          | cons d first =>
            rw [dropLast_cons_of_ne_nil (cons_ne_nil d first), mem_cons, not_or]
            exact ⟨fun heq => hc heq.symm, hfirst⟩
        · exact ih (hlines ▸ mem_cons_of_mem _ h)

theorem rtrim_append (line : Text) : rtrim (line ++ [nl]) = rtrim line := by
  rw [rtrim, rdropWhile_concat_pos _ _ _ (by simp), rtrim]

theorem rtrim_eq (h : nl ∉ line) : rtrim line = line := by
  rw [rtrim, rdropWhile_eq_self_iff]
  intro hne
  simp only [decide_eq_true_eq]
  exact fun heq => h (heq ▸ getLast_mem hne)

/-- What is cut off may be nothing but a line feed. -/
theorem nl_not_mem_rtrim (h : line ∈ lines text) : nl ∉ rtrim line := by
  have hfront := nl_not_mem_dropLast h
  rcases eq_nil_or_concat line with rfl | ⟨front, last, rfl⟩
  · exact not_mem_nil
  rw [concat_eq_append] at hfront ⊢
  rw [dropLast_concat] at hfront
  by_cases hlast : last = nl
  · rw [hlast, rtrim_append, rtrim_eq hfront]
    exact hfront
  · have hall : nl ∉ front ++ [last] := by
      rw [mem_append, mem_singleton, not_or]
      exact ⟨hfront, fun heq => hlast heq.symm⟩
    rw [rtrim_eq hall]
    exact hall

/-! ## Keys and values -/

variable {value : Text}

theorem split_append {key : Text} (h : eqSign ∉ key) :
    split (key ++ eqSign :: value) = (key, some value) := by
  have hkey : ∀ c ∈ key, decide (c ≠ eqSign) = true := by
    intro c hc
    exact decide_eq_true fun heq => h (heq ▸ hc)
  rw [split, takeWhile_append_of_pos hkey, dropWhile_append_of_pos hkey,
    takeWhile_cons_of_neg (by simp), dropWhile_cons_of_neg (by simp), append_nil]

/-- A value that is read is a part of its line. -/
theorem mem_of_split (h : (split line).2 = some value) {c : UInt8} (hc : c ∈ value) : c ∈ line := by
  rw [split] at h
  dsimp only at h
  split at h
  · cases h
  · rename_i d more hdrop
    obtain rfl := Option.some.inj h
    have hmem : c ∈ line.dropWhile (· ≠ eqSign) := hdrop ▸ mem_cons_of_mem d hc
    exact (dropWhile_suffix _).subset hmem

/-- No value that is read has a line feed. -/
theorem nl_not_mem_readPairs {pair : Text × Option Text} (h : pair ∈ readPairs text)
    (hvalue : pair.2 = some value) : nl ∉ value := by
  obtain ⟨hmem, -⟩ := mem_filter.mp h
  obtain ⟨line, hline, rfl⟩ := mem_map.mp hmem
  exact fun hnl => nl_not_mem_rtrim hline (mem_of_split hvalue hnl)

end Lines

/-! ## What is written -/

def render (pairs : List (Text × Text)) : Text :=
  pairs.flatMap fun pair => pair.1 ++ eqSign :: pair.2 ++ [nl]

theorem append_eq (configData : Text) (key : Key) (value : Value) :
    append configData key value =
      configData ++ render (callPairs (.append key value)) := by
  rw [append, callPairs]
  cases valueText value with
  | none => rw [Option.toList_none, map_nil, render, flatMap_nil, append_nil]
  | some text =>
    rw [Option.toList_some, map_singleton, render, flatMap_singleton]
    rfl

theorem call_eq (configData : Text) (c : Call) :
    call configData c = configData ++ render (callPairs c) := by
  cases c with
  | append key value => exact append_eq configData key value
  | appendVars dict keys =>
    rw [call, appendVars, callPairs]
    induction keys generalizing configData with
    | nil => rw [foldl_nil, flatMap_nil, render, flatMap_nil, append_nil]
    | cons key keys ih =>
      rw [foldl_cons, ih, append_eq, flatMap_cons, append_assoc, render, render,
        ← flatMap_append]
      rfl

theorem dumpConfig_eq (calls : List Call) : dumpConfig calls = render (pairs calls) := by
  have hfold (configData : Text) :
      calls.foldl call configData = configData ++ render (pairs calls) := by
    induction calls generalizing configData with
    | nil => rw [foldl_nil, pairs, flatMap_nil, render, flatMap_nil,
        append_nil]
    | cons c calls ih =>
      rw [foldl_cons, ih, call_eq, append_assoc, render, render, ← flatMap_append,
        pairs, pairs, flatMap_cons, render]
  exact hfold []

/-- The keys are those of the scripts. -/
theorem key_of_mem_pairs {calls : List Call} {pair : Text × Text} (h : pair ∈ pairs calls) :
    pair.1 ≠ [] ∧ nl ∉ pair.1 ∧ eqSign ∉ pair.1 := by
  obtain ⟨c, -, hmem⟩ := mem_flatMap.mp h
  cases c with
  | append key value =>
    obtain ⟨text, -, rfl⟩ := mem_map.mp hmem
    exact ⟨key.ne_nil, key.no_nl, key.no_eq⟩
  | appendVars dict keys =>
    obtain ⟨key, -, hmem⟩ := mem_flatMap.mp hmem
    obtain ⟨text, -, rfl⟩ := mem_map.mp hmem
    exact ⟨key.ne_nil, key.no_nl, key.no_eq⟩

variable {ps : List (Text × Text)}

/-- Without a line feed in a value, there is a line for each. -/
theorem lines_render (hkey : ∀ pair ∈ ps, nl ∉ pair.1) (hvalue : ∀ pair ∈ ps, nl ∉ pair.2) :
    lines (render ps) = ps.map fun pair => pair.1 ++ eqSign :: pair.2 ++ [nl] := by
  induction ps with
  | nil => rfl
  | cons pair ps ih =>
    have hline : nl ∉ pair.1 ++ eqSign :: pair.2 := by
      rw [mem_append, mem_cons, not_or, not_or]
      exact ⟨hkey pair mem_cons_self, by decide, hvalue pair mem_cons_self⟩
    have hrest := ih (fun p hp => hkey p (mem_cons_of_mem _ hp))
      fun p hp => hvalue p (mem_cons_of_mem _ hp)
    rw [render, flatMap_cons, append_assoc _ [nl], singleton_append,
      lines_append hline, map_cons, ← hrest, render]

/-- They are read back. -/
theorem readPairs_render (hkey : ∀ pair ∈ ps, pair.1 ≠ [] ∧ nl ∉ pair.1 ∧ eqSign ∉ pair.1)
    (hvalue : ∀ pair ∈ ps, nl ∉ pair.2) :
    readPairs (render ps) = ps.map fun pair => (pair.1, some pair.2) := by
  have hsplit : ∀ pair ∈ ps, lineVal (pair.1 ++ eqSign :: pair.2 ++ [nl]) =
      (pair.1, some pair.2) := by
    intro pair hpair
    obtain ⟨-, hnl, heq⟩ := hkey pair hpair
    have hline : nl ∉ pair.1 ++ eqSign :: pair.2 := by
      rw [mem_append, mem_cons, not_or, not_or]
      exact ⟨hnl, by decide, hvalue pair hpair⟩
    rw [lineVal, rtrim_append, rtrim_eq hline, split_append heq]
  rw [readPairs, lines_render (fun pair hp => (hkey pair hp).2.1) hvalue, map_map,
    map_congr_left (g := fun pair => (pair.1, some pair.2)) hsplit, filter_eq_self]
  intro pair hpair
  obtain ⟨p, hp, rfl⟩ := mem_map.mp hpair
  exact decide_eq_true (hkey p hp).1

/-! ## What is loaded -/

section Load

variable {env : Env}

theorem ifname_bssField (bss : Bss) (key : Text) (value : Option Text) :
    (bssField bss key value).ifname = bss.ifname := by
  rw [bssField]
  split_ifs <;> rfl

theorem ifname_addHash (bss : Bss) (key : Text) (value : Option Text) :
    (addHash env bss key value).ifname = bss.ifname := by
  rw [addHash]
  split_ifs <;> rfl

/-- What a BSS's name is does not change; another one begins with a line that says so. -/
theorem bssLine_names (bss : Bss) (line : Text) :
    (bssLine env bss line).1.toList.map Bss.ifname ++ [(bssLine env bss line).2.ifname] =
      bss.ifname :: if (split line).1 = ascii "bss" then [(split line).2] else [] := by
  have hempty : ascii "bss" ≠ [] := by decide
  have hbssid : ascii "bss" ≠ ascii "bssid" := by decide
  rw [bssLine]
  dsimp only
  by_cases hnil : (split line).1 = []
  · rw [if_pos hnil, if_neg (by rw [hnil]; exact hempty.symm)]
    rfl
  rw [if_neg hnil]
  by_cases hid : (split line).1 = ascii "bssid"
  · rw [if_pos hid, if_neg (by rw [hid]; exact hbssid.symm)]
    rfl
  rw [if_neg hid]
  by_cases hbss : (split line).1 = ascii "bss"
  · rw [if_pos hbss, if_pos hbss]
    dsimp only [Option.toList_some]
    rw [map_singleton, ifname_bssField]
    rfl
  · rw [if_neg hbss, if_neg hbss]
    dsimp only [Option.toList_none, map_nil]
    rw [ifname_addHash, ifname_bssField]
    rfl

theorem filter_isBss (vals : List (Text × Option Text)) :
    (vals.filter hasKey).filter isBss = vals.filter isBss := by
  rw [filter_filter]
  refine filter_congr fun val _ => ?_
  cases hbss : isBss val with
  | false => rfl
  | true =>
    have hne : hasKey val = true := by
      rw [isBss, decide_eq_true_eq] at hbss
      rw [hasKey, hbss]
      decide
    rw [hne]
    rfl

/-- The sections of a loop are the one it begins with, and one for each line that says so. -/
theorem loadBss_names (bss : Bss) (ls : List Text) :
    (loadBss env bss ls).map Bss.ifname =
      bss.ifname :: ((ls.map lineVal).filter isBss).map Prod.snd := by
  induction ls generalizing bss with
  | nil => rfl
  | cons line ls ih =>
    have hline := @bssLine_names env bss (rtrim line)
    rw [loadBss, map_append, ih, append_cons, hline, map_cons]
    by_cases hbss : (split (rtrim line)).1 = ascii "bss"
    · have hthis : isBss (lineVal line) = true := decide_eq_true hbss
      rw [if_pos hbss, filter_cons_of_pos hthis]
      rfl
    · have hthis : ¬isBss (lineVal line) = true := by
        rw [isBss, decide_eq_true_eq]
        exact hbss
      rw [if_neg hbss, filter_cons_of_neg hthis]
      rfl

theorem loadRadio_names (config : Config) (hconfig : config.bss = []) (ls : List Text) :
    (loadRadio env config ls).bss.map Bss.ifname = sections ((ls.map lineVal).filter hasKey) := by
  induction ls generalizing config with
  | nil =>
    rw [loadRadio, hconfig]
    rfl
  | cons line ls ih =>
    rw [loadRadio, map_cons]
    by_cases hnil : (split (rtrim line)).1 = []
    · have hthis : ¬hasKey (lineVal line) = true := by
        rw [hasKey, decide_eq_true_eq]
        exact not_not.mpr hnil
      rw [if_pos hnil, ih config hconfig, filter_cons_of_neg hthis]
    have hthis : hasKey (lineVal line) = true := decide_eq_true hnil
    rw [if_neg hnil, filter_cons_of_pos hthis]
    by_cases hif : (split (rtrim line)).1 = ascii "interface"
    · have hfirst : ¬noInterface (lineVal line) = true := by
        rw [noInterface, decide_eq_true_eq]
        exact not_not.mpr hif
      rw [if_pos hif, sections, dropWhile_cons_of_neg hfirst, loadBss_names]
      dsimp only
      rw [filter_isBss]
      rfl
    have hother : noInterface (lineVal line) = true := decide_eq_true hif
    rw [if_neg hif, sections, dropWhile_cons_of_pos hother, ← sections]
    split_ifs with hch
    · exact ih _ hconfig
    · refine ih _ ?_
      rw [radioLine]
      dsimp only
      split_ifs <;> exact hconfig

/-- No comment with a meaning was seen. -/
def Plain (bss : Bss) : Prop := bss.defaultMacaddr = false ∧ bss.randomMacaddr = false

variable {bss : Bss}

theorem plain_addHash (h : Plain bss) (key : Text) (value : Option Text) :
    Plain (addHash env bss key value) := by
  rw [addHash]
  split_ifs <;> exact h

theorem plain_bssField (h : Plain bss) (key : Text) (value : Option Text) :
    Plain (bssField bss key value) := by
  rw [bssField]
  split_ifs <;> exact h

/-- A line with a value is no such comment. -/
theorem bssLine_plain {b : Bss} {line : Text} (hbss : Plain bss)
    (hvalue : hasKey (split line) = true → (split line).2 ≠ none)
    (hb : b ∈ (bssLine env bss line).1.toList ++ [(bssLine env bss line).2]) : Plain b := by
  have hline (s : Text) (hkey : hasKey (split s) = true) (hs : (split s).2 = none) : line ≠ s :=
    fun heq => hvalue (heq ▸ hkey) (heq ▸ hs)
  have hflags : directives bss line = bss := by
    rw [directives, decide_eq_false (hline _ (by decide) (by decide)),
      decide_eq_false (hline _ (by decide) (by decide)), Bool.or_false, Bool.or_false]
  have hfield := plain_bssField hbss (split line).1 (split line).2
  rw [bssLine, hflags] at hb
  dsimp only at hb
  split_ifs at hb
  · obtain rfl := mem_singleton.mp hb
    exact hbss
  · obtain rfl := mem_singleton.mp hb
    exact hbss
  · rcases mem_cons.mp hb with rfl | hb
    · exact hfield
    · obtain rfl := mem_singleton.mp hb
      exact ⟨rfl, rfl⟩
  · obtain rfl := mem_singleton.mp hb
    exact plain_addHash hfield _ _

theorem loadBss_plain (hbss : Plain bss) {ls : List Text}
    (hvalue : ∀ line ∈ ls, hasKey (lineVal line) = true → (lineVal line).2 ≠ none) :
    ∀ b ∈ loadBss env bss ls, Plain b := by
  induction ls generalizing bss with
  | nil =>
    intro b hb
    obtain rfl := mem_singleton.mp hb
    exact hbss
  | cons line ls ih =>
    have hline : ∀ b ∈ (bssLine env bss (rtrim line)).1.toList ++
        [(bssLine env bss (rtrim line)).2], Plain b :=
      fun b => bssLine_plain hbss (hvalue line mem_cons_self)
    intro b hb
    rcases mem_append.mp hb with hb | hb
    · exact hline b (mem_append_left _ hb)
    · refine ih (hline _ (mem_append_right _ mem_cons_self)) ?_ b hb
      exact fun l hl => hvalue l (mem_cons_of_mem _ hl)

theorem loadRadio_plain {config : Config} (hconfig : config.bss = []) {ls : List Text}
    (hvalue : ∀ line ∈ ls, hasKey (lineVal line) = true → (lineVal line).2 ≠ none) :
    ∀ b ∈ (loadRadio env config ls).bss, Plain b := by
  induction ls generalizing config with
  | nil =>
    intro b hb
    rw [loadRadio, hconfig] at hb
    cases hb
  | cons line ls ih =>
    have hrest := fun l hl => hvalue l (mem_cons_of_mem line hl)
    rw [loadRadio]
    split_ifs
    · exact ih hconfig hrest
    · exact loadBss_plain ⟨rfl, rfl⟩ hrest
    · exact ih hconfig hrest
    · refine ih ?_ hrest
      rw [radioLine]
      dsimp only
      split_ifs <;> exact hconfig

end Load

/-- A file is read as it was written if and only if no value has a line feed. -/
theorem intact_iff (calls : List Call) :
    Intact calls ↔ ∀ pair ∈ pairs calls, nl ∉ pair.2 := by
  have hkey : ∀ pair ∈ pairs calls, pair.1 ≠ [] ∧ nl ∉ pair.1 ∧ eqSign ∉ pair.1 :=
    fun _ hpair => key_of_mem_pairs hpair
  constructor
  · intro h pair hpair
    have hmem : (pair.1, some pair.2) ∈ readPairs (dumpConfig calls) := by
      rw [h.pairs_eq]
      exact mem_map_of_mem hpair
    exact nl_not_mem_readPairs hmem rfl
  · intro h
    have hlines := lines_render (fun pair hp => (hkey pair hp).2.1) h
    have hpairs := readPairs_render hkey h
    rw [← dumpConfig_eq] at hlines hpairs
    refine ⟨hpairs, ?_, fun env phy radio filename => ?_, fun env phy radio filename => ?_⟩
    · rw [hlines, length_map]
    · rw [← hpairs]
      exact loadRadio_names _ rfl _
    · refine loadRadio_plain rfl fun line hline hhas hnone => ?_
      have hmem : lineVal line ∈ readPairs (dumpConfig calls) :=
        mem_filter.mpr ⟨mem_map_of_mem hline, hhas⟩
      rw [hpairs] at hmem
      obtain ⟨pair, -, hpair⟩ := mem_map.mp hmem
      rw [← hpair] at hnone
      cases hnone

theorem ssid_ne_nil : ascii "ssid" ≠ [] := by decide

theorem ssid_no_nl : nl ∉ ascii "ssid" := by decide

theorem ssid_no_eq : eqSign ∉ ascii "ssid" := by decide

def ssidKey : Key where
  bytes := ascii "ssid"
  ne_nil := ssid_ne_nil
  no_nl := ssid_no_nl
  no_eq := ssid_no_eq

/-- A value with a line feed brings a line with it. -/
theorem intact_fails : ¬∀ calls, Intact calls := by
  intro h
  have hlength := (h [.append ssidKey (.scalar (.string (ascii "a\nbss=wlan1")))]).lines_eq
  exact absurd hlength (by decide)

end LibWrt.Hostapd.ConfigFile
