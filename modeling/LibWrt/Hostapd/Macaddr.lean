/-
LibWrt.Hostapd.Macaddr — the addresses of the BSSes when a configuration is
taken over in place.

One list of addresses goes through all passes. It has the index of the BSS that
an address belongs to, or -1 where the address is in use otherwise. The BSSes of
the running interface are looked for in the new configuration, by a hash of
their options; what is not found is new, and has its address looked up or
generated. The names of the interfaces and the calls of hostapd have no effect
on the addresses: whether the calls succeed is known outside.
-/
import LibWrt.Lib.Dict
import LibWrt.Hostapd.Core
import Mathlib.Tactic

namespace LibWrt.Hostapd.Macaddr

/-! ## Configurations -/

structure Bss where
  ifname : String
  /-- For a default address, what the scripts have generated. -/
  bssid : String
  defaultMacaddr : Bool
  randomMacaddr : Bool
  forceReload : Bool
  mldAp : Bool
  data : List String
  hash : List (String × String)
  deriving DecidableEq

structure Config where
  radio : Radio
  mbssid : Int
  bss : List Bss

def Bss.static (bss : Bss) : Bool := !bss.defaultMacaddr && !bss.randomMacaddr

abbrev MacaddrList := Dict String Int

def truthy (v : Option Int) : Bool := v.any (· ≠ 0)

/-- What is the same in all passes. -/
structure System where
  /-- `bss_config_hash` -/
  hash : List String → String
  fullmac : Bool
  /-- The addresses of the MLD interfaces. -/
  mlds : List String
  /-- The addresses of the interfaces of the phy. -/
  wdevs : List String

structure Env where
  pending : Bool
  /-- The interface is there, and enabled. -/
  enabled : Bool
  /-- `get_config_bss` finds the BSS of the old configuration. -/
  bss : Nat → Bool
  /-- Steps 4 and 5. -/
  rename : Bool
  /-- Steps 7 to 9. -/
  update : Bool
  macaddrNext : MacaddrList → Option String

/-- An address that is generated is not in the list. -/
def Env.Fresh (env : Env) : Prop :=
  ∀ list addr, env.macaddrNext list = some addr → list.get? addr = none

/-! ## The list -/

/-- The addresses that the configuration assigns, from the index `i` on. -/
def assigned : Nat → List Bss → MacaddrList → MacaddrList
  | _, [], list => list
  | i, bss :: rest, list =>
    assigned (i + 1) rest (if bss.defaultMacaddr then list else list.set bss.bssid i)

def ifaceConfigMacaddrList (mlds : List String) (bss : List Bss) : MacaddrList :=
  assigned 0 bss (mlds.foldl (fun list addr => list.set addr (-1)) ∅)

/-- `macaddr_init` -/
def macaddrInit (wdevs : List String) (list : MacaddrList) : MacaddrList :=
  wdevs.foldl (fun list addr => if (list.get? addr).isNone then list.set addr (-1) else list) list

/-! ## The passes -/

section Passes

variable (sys : System) (env : Env) (old : List Bss)

def bssFindExisting (bss : Bss) (prevHash : List (Option String)) :
    Option Nat × List (Option String) :=
  match prevHash.findIdx? (· = some (sys.hash bss.data)) with
  | some i => (some i, prevHash.set i none)
  | none => (none, prevHash)

/-- On a fullmac device the first BSS is preserved in any case. -/
def findPrev (i : Nat) (bss : Bss) (prevHash : List (Option String)) :
    Option Nat × List (Option String) :=
  if i = 0 ∧ sys.fullmac then (some 0, prevHash.set 0 none) else bssFindExisting sys bss prevHash

def preserves (list : MacaddrList) (cur prev : Bss) : Bool :=
  (cur.defaultMacaddr || cur.randomMacaddr) &&
    cur.randomMacaddr == prev.randomMacaddr && cur.defaultMacaddr == prev.defaultMacaddr &&
    !truthy (list.get? prev.bssid)

/-- What a pass goes on with; `running` has the indexes of the running BSSes. -/
structure Pass where
  list : MacaddrList
  prevHash : List (Option String)
  bss : List Bss
  running : List (Option Nat)

def Pass.cons (bss : Bss) (running : Option Nat) (p : Pass) : Pass :=
  { p with bss := bss :: p.bss, running := running :: p.running }

def step1 : Nat → List Bss → MacaddrList → List (Option String) → Option Pass
  | _, [], list, prevHash => some { list := list, prevHash := prevHash, bss := [], running := [] }
  | i, cur :: rest, list, prevHash =>
    let found := findPrev sys i cur prevHash
    match found.1 with
    | none => (step1 (i + 1) rest list found.2).map (Pass.cons cur none)
    | some j =>
      match old[j]? with
      | none => none
      | some prev =>
        if prev.forceReload then (step1 (i + 1) rest list found.2).map (Pass.cons cur none)
        else if !env.bss j then none
        else if preserves list cur prev then
          (step1 (i + 1) rest (list.set prev.bssid i) found.2).map
            (Pass.cons { cur with bssid := prev.bssid } (some j))
        else (step1 (i + 1) rest list found.2).map (Pass.cons cur (some j))

/-- If none was found, the first one is renamed; its address does not change. -/
def step2 (p : Pass) : Option Pass :=
  if p.running.all Option.isNone then
    match p.bss, old with
    | cur :: rest, prev :: _ =>
      if cur.bssid ≠ prev.bssid ∧ !cur.defaultMacaddr then none
      else if !env.bss 0 then none
      else some { list := p.list.set prev.bssid 0
                  prevHash := p.prevHash.set 0 none
                  bss := { cur with bssid := prev.bssid } :: rest
                  running := some 0 :: p.running.tail }
    | _, _ => none
  else some p

/-- Each running BSS that is not used is there to be deleted. -/
def step3 (p : Pass) : Bool :=
  (p.prevHash.zipIdx).all fun h => h.1.isNone || env.bss h.2

/-- `config.bss[mac_idx]`; an index below zero counts from the end. -/
def bssIndex (bss : List Bss) : Option Int → Option Nat
  | none => none
  | some v =>
    let i := if v < 0 then v + bss.length else v
    if 0 ≤ i ∧ i < bss.length then some i.toNat else none

structure Step6 where
  list : MacaddrList
  bss : List Bss

/-- The turn of the BSS `i` in step 6. -/
def step6Turn (running : List (Option Nat)) (s : Step6) (i : Nat) : Option Step6 :=
  if (running[i]?.join).isSome then some s
  else
    match s.bss[i]? with
    | none => none
    | some bsscfg =>
      let macIdx := s.list.get? bsscfg.bssid
      let list := if macIdx.any (· < 0) then s.list.set bsscfg.bssid i else s.list
      if macIdx = some (i : Int) then some { s with list := list }
      else
        -- The check for the first BSS, `!mac_idx < 0`, compares a truth value with
        -- zero, and never holds.
        match if bsscfg.defaultMacaddr then some i else bssIndex s.bss macIdx with
        | none => none
        | some target =>
          match env.macaddrNext list with
          | none => none
          | some addr =>
            some { list := list.set addr i
                   bss := s.bss.modify target fun bss => { bss with bssid := addr } }

def step6 (running : List (Option Nat)) (s : Step6) : Option Step6 :=
  (List.range s.bss.length).foldlM (step6Turn env running) s

end Passes

structure Reloaded where
  bss : List Bss
  running : List (Option Nat)

/-- It returns true with what has become of the configuration. -/
def ifaceReloadConfig (sys : System) (env : Env) (config : Config) (oldConfig : Option Config) :
    Option Reloaded :=
  match oldConfig with
  | none => none
  | some old =>
    if old.radio ≠ config.radio then none
    else if old.bss = config.bss then
      some { bss := config.bss, running := (List.range config.bss.length).map some }
    else if env.pending then none
    else if old.bss = [] then none
    else if !env.enabled then none
    else if !env.bss 0 then none
    else
      (step1 sys env old.bss 0 config.bss (ifaceConfigMacaddrList sys.mlds config.bss)
        (old.bss.map fun bss => some (sys.hash bss.data))).bind fun p =>
      if config.mbssid ≠ 0 ∧ (p.running[0]?.join).isNone then none
      else (step2 env old.bss p).bind fun p =>
      if !step3 env p then none
      else if !env.rename then none
      else (step6 env p.running
        { list := macaddrInit sys.wdevs p.list, bss := p.bss }).bind fun s =>
      if !env.update then none
      else some { bss := s.bss, running := p.running }

end LibWrt.Hostapd.Macaddr
