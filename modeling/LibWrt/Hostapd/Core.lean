/-
LibWrt.Hostapd.Core — the configurations of hostapd, and how interfaces are
brought up.

A configuration that cannot be taken over in place restarts the interface of its
phy: a sequence of calls of wpa_supplicant, each of which goes on when the last
one is answered. The object of a sequence is entered in a table under the phy.
What has been done goes to a log, the newest first.
-/
import Mathlib.Data.List.Basic

namespace LibWrt.Hostapd

open Function

/-! ## Configurations -/

structure Radio where
  channel : Option String
  data : List String
  deriving DecidableEq

/-- The addresses are left out: whether those of two lists are equal is known outside. -/
structure Bss where
  ifname : String
  mldAp : Bool
  data : List String
  /-- The hashes of the files. -/
  hash : List (String × String)
  deriving DecidableEq

structure Config where
  phy : String
  radioIdx : Option Int
  radio : Radio
  bss : List Bss
  origBss : Option (List Bss)
  origFile : String
  deriving DecidableEq

structure File where
  name : String
  radio : Radio
  bss : List Bss

/-- The phy with its radio, if that is one. -/
def phyName (phy : String) (radio : Option Int) : String :=
  match radio with
  | some r => if 0 ≤ r then phy ++ "." ++ toString r else phy
  | none => phy

/-- What `phy_open` returns. -/
structure Phydev where
  phy : String
  radio : Option Int
  deriving DecidableEq

def Phydev.name (phydev : Phydev) : String := phyName phydev.phy phydev.radio

def ifaceLoadConfig (phy : String) (radio : Option Int) (file : File) : Config :=
  { phy := phy, radioIdx := radio.filter (0 ≤ ·), radio := file.radio, bss := file.bss
    origBss := none, origFile := file.name }

/-! ## The state -/

inductive PendingState where
  | init
  | createBss
  | checkPhy
  | wpasStopped
  | done
  deriving DecidableEq

/-- A call of wpa_supplicant that is waited for. -/
inductive Request where
  | phyStatus
  | phySetState (stop : Bool)
  deriving DecidableEq

structure Pending where
  nextState : Option PendingState
  phydev : Phydev
  config : Config
  /-- A call is waited for. -/
  defer : Bool
  deriving DecidableEq

inductive Entry where
  | set (name : String) (config : Config)
  | removeIface (name : String)
  | wdevAdd (ifname : String)
  | wdevRemove (ifname : String)
  | macaddrList (phydev : Phydev)
  | call (phydev : Phydev) (request : Request)
  /-- The interface of the phy is added, while `current` is what is set for it. -/
  | addIface (phy : String) (config : Config) (current : Option Config)
  deriving DecidableEq

/-- `pending` has the objects, `pendingConfig` is the table. -/
structure State where
  config : String → Option Config
  pendingConfig : String → Option Nat
  pending : Nat → Pending
  next : Nat
  log : List Entry

structure Env where
  phyOpen : Bool
  /-- `bss_check_mld` -/
  checkMld : Bss → Bool
  /-- The addresses of the old and the new BSSes are equal. -/
  sameAddresses : Bool
  /-- What is left of `iface_reload_config`; it may throw. -/
  reload : Option Bool
  wdevAdd : Bool
  /-- `ubus.defer` finds wpa_supplicant. -/
  defer : Request → Bool
  /-- `hostapd.add_iface`, with the status of the phy or without. -/
  addIface : Bool → Bool
  /-- The interface is there and starts. -/
  start : Bool

namespace State

def put (s : State) (i : Nat) (p : Pending) : State :=
  { s with pending := update s.pending i p }

def note (s : State) (e : Entry) : State := { s with log := e :: s.log }

def setConfig (s : State) (name : String) (config : Config) : State :=
  { s with config := update s.config name (some config) }

end State

/-! ## A sequence -/

/-- How a state of a sequence ends: with the next one, with none, or it throws. -/
inductive Outcome where
  | next (state : PendingState)
  | none
  | raised
  deriving DecidableEq

section Sequence

variable (env : Env) (i : Nat)

/-- `pending.call`; there is no answer to wait for if wpa_supplicant is not found. -/
def pendingCall (request : Request) (s : State) : State :=
  let p := s.pending i
  (s.put i { p with defer := env.defer request }).note (.call p.phydev request)

def ifaceAdd (phy : String) (config : Config) (status : Bool) (s : State) : Bool × State :=
  (env.addIface status && (!status || env.start), s.note (.addIface phy config (s.config phy)))

/-- `__iface_pending_next`; `data` is the state of the phy that wpa_supplicant has told. -/
def pendingStep (state : Option PendingState) (data : Option String) (s : State) :
    Outcome × State :=
  let p := { s.pending i with defer := false }
  let s := s.put i p
  match state with
  | some .init => (.next .createBss, s.note (.macaddrList p.phydev))
  | some .createBss =>
    match p.config.bss with
    | [] => (.raised, s)
    | bss :: _ =>
      let s := if bss.mldAp then s else s.note (.wdevAdd bss.ifname)
      if !bss.mldAp && !env.wdevAdd then (.none, s)
      else (.next .checkPhy, pendingCall env i .phyStatus s)
  | some .checkPhy =>
    if data = some "COMPLETED" then
      let added := ifaceAdd env p.phydev.name p.config true s
      if added.1 then (.next .done, added.2)
      -- The name of the first BSS is printed.
      else if p.config.bss = [] then (.raised, added.2)
      else (.next .wpasStopped, pendingCall env i (.phySetState true) added.2)
    else (.next .wpasStopped, pendingCall env i (.phySetState true) s)
  | some .wpasStopped =>
    let added := ifaceAdd env p.phydev.name p.config false s
    if !added.1 && p.config.bss = [] then (.raised, added.2)
    else (.none, pendingCall env i (.phySetState false) added.2)
  | some .done | none =>
    (.none, { s with pendingConfig := update s.pendingConfig p.phydev.name none })

/-- The loop of `iface_pending_next`, which ends when a call is waited for. -/
def pendingLoop (data : Option String) : Nat → State → State
  | 0, s => s
  | n + 1, s =>
    match pendingStep env i (s.pending i).nextState data s with
    | (.raised, s) => s
    | (.none, s) =>
      (pendingStep env i (some .done) none (s.put i { s.pending i with nextState := none })).2
    | (.next state, s) =>
      let s := s.put i { s.pending i with nextState := some state }
      if (s.pending i).defer then s else pendingLoop data n s

/-- From `init` there are four states to go, at most. -/
def ifacePendingNext (data : Option String) (s : State) : State := pendingLoop env i data 5 s

def ifacePendingAbort (s : State) : State :=
  ifacePendingNext env i none (s.put i { s.pending i with nextState := some .done })

end Sequence

section Configs

variable (env : Env)

def ifacePendingInit (phydev : Phydev) (config : Config) (s : State) : State :=
  let i := s.next
  let p : Pending := { nextState := some .init, phydev := phydev, config := config, defer := false }
  ifacePendingNext env i none
    { s.put i p with next := i + 1
                     pendingConfig := update s.pendingConfig phydev.name (some i) }

def ifaceRemove (config : Option Config) (s : State) : State :=
  match config with
  | none => s
  | some config =>
    if config.bss.head?.all (·.ifname = "") then s
    else (config.bss.filter (!·.mldAp)).foldl (fun s bss => s.note (.wdevRemove bss.ifname)) s

def ifaceRestart (phydev : Phydev) (config : Config) (oldConfig : Option Config) (s : State) :
    State :=
  let s := match s.pendingConfig phydev.name with
    | none => s
    | some i => ifacePendingAbort env i s
  let s := ifaceRemove (some config) (ifaceRemove oldConfig (s.note (.removeIface phydev.name)))
  if config.bss = [] then s else ifacePendingInit env phydev config s

/-- It returns whether the configuration was taken over, and may throw. -/
def ifaceReloadConfig (name : String) (config : Config) (oldConfig : Option Config) (s : State) :
    Option Bool :=
  match oldConfig with
  | none => some false
  | some oldConfig =>
    if oldConfig.radio ≠ config.radio then some false
    else if oldConfig.bss = config.bss ∧ env.sameAddresses then some true
    else if (s.pendingConfig name).isSome then some false
    else if oldConfig.bss = [] then some false
    else env.reload

/-- The BSSes that are links of an interface that is not there are skipped. -/
def ifaceCheckMld (config : Config) : Config :=
  { config with origBss := some config.bss
                bss := config.bss.filter fun bss => !bss.mldAp || env.checkMld bss }

def ifaceConfigRemove (name : String) (oldConfig : Option Config) (s : State) : State :=
  ifaceRemove oldConfig (s.note (.removeIface name))

def ifaceSetConfig (name : String) (config : Config) (s : State) : State :=
  let oldConfig := s.config name
  let s := (s.setConfig name config).note (.set name config)
  if !env.phyOpen then s
  else
    let phydev : Phydev := { phy := config.phy, radio := config.radioIdx }
    let config := ifaceCheckMld env config
    let s := s.setConfig name config
    if config.bss = [] then ifaceConfigRemove name oldConfig s
    else if ifaceReloadConfig env name config oldConfig s = some true then
      s.note (.macaddrList phydev)
    else ifaceRestart env phydev config oldConfig s

/-! ## Requests -/

def configSet (phy : String) (radio : Option Int) (prevConfig : Option File) (config : File)
    (s : State) : State :=
  if phy = "" then s
  else
    let name := phyName phy radio
    let s := match prevConfig, s.config name with
      | some file, none =>
        let prev := ifaceLoadConfig phy radio file
        s.setConfig name { prev with radio := { prev.radio with data := [] } }
      | _, _ => s
    ifaceSetConfig env name (ifaceLoadConfig phy radio config) s

/-- One of the configurations that are read again, from what is its file now. -/
def reload (name : String) (radio : Radio) (bss : List Bss) (s : State) : State :=
  match s.config name with
  | none => s
  | some config =>
    ifaceSetConfig env name
      (ifaceLoadConfig config.phy config.radioIdx
        { name := config.origFile, radio := radio, bss := bss }) s

/-- The copy has no list of BSSes, and throws, if none was kept. -/
def mldReloadInterface (name : String) (s : State) : State :=
  match s.config name with
  | none => s
  | some config =>
    match config.origBss with
    | some bss => ifaceSetConfig env name { config with bss := bss } s
    | none =>
      (s.setConfig name { config with bss := [] }).note (.set name { config with bss := [] })

end Configs

/-- A request for several phys is one event for each of them. -/
inductive Event where
  | configSet (phy : String) (radio : Option Int) (prevConfig : Option File) (config : File)
  | reload (name : String) (radio : Radio) (bss : List Bss)
  /-- `mld_set` changes the links of the interface. -/
  | mldReload (name : String)
  /-- wpa_supplicant answers the call of a sequence. -/
  | reply (i : Nat) (data : Option String)

def step (env : Env) (e : Event) (s : State) : State :=
  match e with
  | .configSet phy radio prevConfig config => configSet env phy radio prevConfig config s
  | .reload name radio bss => reload env name radio bss s
  | .mldReload name => mldReloadInterface env name s
  | .reply i data =>
    if (s.pending i).defer then
      ifacePendingNext env i data (s.put i { s.pending i with defer := false })
    else s

def State.init : State :=
  { config := fun _ => none
    pendingConfig := fun _ => none
    pending := fun _ =>
      { nextState := none
        phydev := { phy := "", radio := none }
        config := { phy := "", radioIdx := none, radio := { channel := none, data := [] }, bss := []
                    origBss := none, origFile := "" }
        defer := false }
    next := 0
    log := [] }

inductive Reachable (ok : Env → Event → State → Prop) : State → Prop where
  | init : Reachable ok .init
  | step {s : State} (hs : Reachable ok s) (env : Env) (e : Event) (he : ok env e s) :
      Reachable ok (step env e s)

end LibWrt.Hostapd
