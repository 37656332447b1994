/-
LibWrt.Wireless.Core — the radios of netifd and the scripts that handle them.

A device is set up and torn down by a script. One script runs at a time; for
the others there is a queue with one slot a device name. The devices are
objects: one that was deleted keeps its id, the next of which is known. What is
called and what is reported goes to a log, the newest first.
-/
import LibWrt.Lib.Dict
import Mathlib.Data.Finset.Insert

namespace LibWrt.Wireless

/-! ## The configuration -/

structure VifConfig where
  network : List String
  networkVlan : List String
  bridgeIsolate : Bool
  isolate : Bool
  proxyArp : Bool
  multicastToUnicast : Option Bool
  mode : String
  deriving DecidableEq

structure Vlan where
  name : String
  config : VifConfig
  deriving DecidableEq

structure Vif where
  name : String
  config : VifConfig
  vlan : List Vlan
  /-- The stations: names, with their options as a text. -/
  sta : List (String × String)
  deriving DecidableEq

/-- `wdev.data`: the options of the device itself are a text. -/
structure Data where
  name : String
  config : String
  vif : List Vif
  deriving DecidableEq

/-! ## The state -/

inductive DevState where
  | down
  | setup
  | up
  | teardown
  deriving DecidableEq

inductive Op where
  | setup
  | teardown
  deriving DecidableEq

inductive Section where
  | device
  | vif
  | vlan
  deriving DecidableEq

structure HandlerData where
  ifname : Option String
  type : Section
  config : Option VifConfig
  deriving DecidableEq

structure Iface where
  name : String
  config : VifConfig
  vlans : List (String × Vlan)
  stas : List (String × (String × String))

structure HandlerConfig where
  config : String
  interfaces : List (String × Iface)
  data : Option HandlerData

structure Proc where
  pid : Nat
  exe : String
  deriving DecidableEq

structure Wdev where
  name : String
  data : Data
  state : DevState
  autostart : Bool
  delete : Bool
  retry : Option Int
  retrySetupFailed : Bool
  configChange : Bool
  cancelSetup : Bool
  procs : List Proc
  procTimer : Bool
  disabledVifs : Finset String
  ifindexCache : String → Option Nat
  handlerConfig : HandlerConfig
  handlerData : Dict String HandlerData

/-- An entry of `wdev_handler`; its callback is that of its op. -/
structure Slot where
  op : Op
  wdev : Nat
  time : Nat
  deriving DecidableEq

structure Script where
  op : Op
  wdev : Nat
  serial : Nat
  deriving DecidableEq

inductive Request where
  | start
  | stop
  | destroy
  deriving DecidableEq

/-- `interface_handle_link`, for an entry with the interface name `owner`. -/
structure Link where
  name : String
  ifname : String
  vlan : List String
  up : Bool
  owner : String
  deriving DecidableEq

/-- `dev_data` of `device_set`. -/
structure DevData where
  isolate : Bool
  wirelessAp : Bool
  multicastToUnicast : Option Bool
  wirelessProxyarp : Option Bool
  wirelessIsolate : Option Bool
  deriving DecidableEq

inductive Entry where
  | request (i : Nat) (r : Request)
  | started (serial : Nat) (op : Op) (i : Nat)
  | completed (serial : Nat)
  /-- `i` was reported up, while script `running` was run for it. -/
  | markUp (i : Nat) (running : Option Nat)
  /-- Script `serial` was treated as a failed setup. -/
  | failure (i : Nat) (serial : Nat)
  | link (l : Link)
  | deviceSet (dev : String) (data : DevData)
  /-- An entry left the handler data without a report. -/
  | dropped (hd : HandlerData)
  | configDone
  deriving DecidableEq

structure State where
  /-- `netifd.wireless.devices` -/
  devices : Dict String Nat
  wdev : Nat → Wdev
  next : Nat
  /-- `wdev_handler` -/
  handler : Dict String Slot
  /-- `wdev_cur` -/
  cur : Option Script
  /-- `wdev_script_task` -/
  task : Option Nat
  /-- `wdev_script_timeout`, with what it calls back. -/
  timeout : Option Script
  /-- `handler_timer` is armed. -/
  timer : Bool
  /-- The script processes there are. -/
  running : List Script
  serial : Nat
  /-- The call that is made has thrown. -/
  raised : Bool
  log : List Entry

structure NetState where
  enabled : Bool
  ifindex : Nat
  deriving DecidableEq

/-- What a call finds outside: the time, the networks, and how scripts start.
`failing` says of each start that fails, and `last` of the one after these, which
of the scripts that wait the longest it is. -/
structure Env where
  time : Nat
  interfaceGetEnabled : String → Option NetState
  failing : List Nat
  last : Nat

namespace State

def put (s : State) (i : Nat) (w : Wdev) : State := { s with wdev := Function.update s.wdev i w }

def note (s : State) (e : Entry) : State := { s with log := e :: s.log }

def raise (s : State) : State := { s with raised := true }

end State

/-! ## Links -/

/-- A script says an empty name where it has none. -/
def HandlerData.named (data : HandlerData) : Option String := data.ifname.filter (· ≠ "")

def devData (dev : String) (data : HandlerData) (config : VifConfig) : DevData :=
  let ap := data.ifname = some dev ∧
    (data.type = .vlan ∨ data.type = .vif ∧ config.mode = "ap")
  let vifAp := data.type = .vif ∧ config.mode = "ap"
  { isolate := config.bridgeIsolate
    wirelessAp := ap
    multicastToUnicast := if ap then config.multicastToUnicast else none
    wirelessProxyarp := if vifAp then some config.proxyArp else none
    wirelessIsolate := if vifAp then some config.isolate else none }

def linkOf (dev : String) (data : HandlerData) (config : VifConfig) (up : Bool) (net : String) :
    Link :=
  { name := net, ifname := dev, vlan := config.networkVlan, up := up
    owner := data.ifname.getD "" }

def handleLink (dev : String) (data : HandlerData) (up : Bool) (s : State) : State :=
  match data.config with
  | none => s.raise
  | some config =>
    let s := if up then s.note (.deviceSet dev (devData dev data config)) else s
    config.network.foldl (fun s net => s.note (.link (linkOf dev data config up net))) s

def handleLinks (entries : List HandlerData) (up : Bool) (s : State) : State :=
  entries.foldl (fun s data =>
    if s.raised then s
    else match data.named with
      | none => s
      | some dev => handleLink dev data up s) s

def Wdev.sections (w : Wdev) : List HandlerData := w.handlerData.entries.map (·.2)

/-! ## What is configured -/

/-- `sprintf("%02d", n)` -/
def pad2 (n : Nat) : String := if n < 10 then "0" ++ toString n else toString n

/-- The names are those of the places, from one on. -/
def numbered {α : Type} (l : List α) : List (String × α) :=
  l.mapIdx fun k a => (pad2 (k + 1), a)

def dropOthers (w : Wdev) : List Entry :=
  (w.handlerData.entries.filter (fun e => e.1 ≠ w.name)).map (fun e => .dropped e.2)

/-- `wdev.handler_data` with the entry of the device only. -/
def ownData (w : Wdev) : Dict String HandlerData :=
  match w.handlerData.get? w.name with
  | none => ∅
  | some data => (∅ : Dict String HandlerData).set w.name data

def interfacesOf (w : Wdev) : List (String × Iface) :=
  numbered ((w.data.vif.filter (fun vif => vif.name ∉ w.disabledVifs)).map fun vif =>
    { name := vif.name, config := vif.config
      vlans := numbered vif.vlan, stas := numbered vif.sta })

def wdevConfigInit (i : Nat) (s : State) : State :=
  let w := s.wdev i
  { s.put i { w with
      handlerConfig := { config := w.data.config, interfaces := interfacesOf w, data := none }
      handlerData := ownData w } with
    log := dropOthers w ++ s.log }

/-- Whether one of the networks is enabled, if any is known, and their last index. -/
def networksState (env : Env) (nets : List String) : Option Bool × Nat :=
  nets.foldl (fun acc net =>
    match env.interfaceGetEnabled net with
    | none => acc
    | some st =>
      (if st.enabled then some true else if acc.1 = none then some false else acc.1,
        if st.ifindex ≠ 0 then st.ifindex else acc.2)) (none, 0)

structure Scan where
  disabled : Finset String
  cache : String → Option Nat
  changed : Bool

def scanVif (env : Env) (acc : Scan) (vif : String × VifConfig) : Scan :=
  let st := networksState env vif.2.network
  let index : Option Nat := if st.2 ≠ 0 then some st.2 else none
  { disabled := if st.1 = some false then insert vif.1 acc.disabled else acc.disabled
    changed := acc.changed || (st.1 ≠ some false && index ≠ acc.cache vif.1)
    cache := Function.update acc.cache vif.1 index }

def Data.vifs (data : Data) : List (String × VifConfig) :=
  data.vif.flatMap fun vif => (vif.name, vif.config) :: vif.vlan.map fun v => (v.name, v.config)

/-- It returns `config_change`. -/
def wdevUpdateDisabledVifs (env : Env) (w : Wdev) : Wdev :=
  let scan := w.data.vifs.foldl (scanVif env)
    { disabled := ∅, cache := w.ifindexCache, changed := false }
  { w with
    disabledVifs := scan.disabled
    ifindexCache := scan.cache
    configChange := scan.changed || w.disabledVifs ≠ scan.disabled || w.configChange }

def wdevReset (w : Wdev) : Wdev := { w with retry := some 3, retrySetupFailed := false }

def wdevProcReset (w : Wdev) : Wdev := { w with procTimer := false, procs := [] }

/-- `if (wdev.retry > 0) wdev.retry--; else wdev.retry_setup_failed = true;` -/
def Wdev.countFailure (w : Wdev) : Wdev :=
  match w.retry with
  | some n =>
    if 0 < n then { w with retry := some (n - 1) } else { w with retrySetupFailed := true }
  | none => { w with retrySetupFailed := true }

end LibWrt.Wireless
