/-
LibWrt.Supplicant.Core — the configurations of wpa_supplicant.

Interfaces are kept by phy; an MLD has a link on several radios of a phy, and
masks of the radios it is for, of those that can be used, and of those in use.
hostapd stops and starts phys. A name of a phy has its radio as a part of its
own. What is started goes to a log, the newest first, with whether hostapd had
stopped its phy then; an MLD is started with all of its radios.
-/
import Mathlib.Data.List.Basic

namespace LibWrt.Supplicant

/-- `phy_name`, with no dot in between. -/
structure PhyName where
  phy : String
  radio : Option Nat
  deriving DecidableEq

abbrev Mask := BitVec 64

def bit (radio : Nat) : Mask := 1#64 <<< radio

/-! ## Configurations -/

structure IfaceConfig where
  iface : String
  mlo : Bool
  freqList : Option (List Nat)
  data : String
  deriving DecidableEq

structure MldConfig where
  phy : String
  radios : List (Option Nat)
  data : String
  deriving DecidableEq

structure Iface where
  config : IfaceConfig
  running : Bool
  deriving DecidableEq

structure Mld where
  config : MldConfig
  phyConfig : List (Option IfaceConfig)
  freqList : Option (List Nat)
  radioMask : Mask
  radioMaskUp : Mask
  radioMaskPresent : Mask
  deriving DecidableEq

inductive Entry where
  | iface (name : PhyName) (ifname : String) (stopped : Bool)
  | link (name : PhyName) (mld : String) (stopped : Bool)
  deriving DecidableEq

/-- `config` has the interfaces of each phy; `told` is what hostapd has told last, `stopped` the
last of it that came when the phy was known. -/
structure State where
  mld : List (String × Mld)
  mldPending : Bool
  config : PhyName → Option (List (String × Iface))
  timers : List PhyName
  stopped : PhyName → Bool
  told : PhyName → Bool
  log : List Entry

structure Env where
  phyOpen : PhyName → Bool
  /-- The interface of the MLD is there after it was added. -/
  added : String → Bool

/-! ## Interfaces -/

def ifaceStop (iface : Iface) : Iface := { iface with running := false }

/-- What becomes of an interface with a new configuration; the old one is stopped if it is
another. -/
def ifaceCb (new : IfaceConfig) (old : Option Iface) : Iface :=
  match old with
  | some old => { config := new, running := if old.config = new then old.running else false }
  | none => { config := new, running := false }

/-- `data[key] = value` -/
def put {α : Type} (key : String) (value : α) (dict : List (String × α)) : List (String × α) :=
  if dict.any (·.1 = key) then dict.map fun e => if e.1 = key then (key, value) else e
  else dict ++ [(key, value)]

def remove {α : Type} (key : String) (dict : List (String × α)) : List (String × α) :=
  dict.filter (·.1 ≠ key)

/-- What `update` takes along: the entries that are left, those before, and the new ones. -/
structure Update where
  data : List (String × Iface)
  oldData : List (String × Option Iface)
  newData : List (String × IfaceConfig)

def updateStep (u : Update) (config : IfaceConfig) : Update :=
  { data := remove config.iface u.data
    oldData := put config.iface (u.data.lookup config.iface) u.oldData
    newData := put config.iface config u.newData }

/-- `update` of a list of values. -/
def update (data : List (String × Iface)) (configs : List IfaceConfig) : List (String × Iface) :=
  let u := configs.foldl updateStep { data := data, oldData := [], newData := [] }
  u.newData.map fun e => (e.1, ifaceCb e.2 ((u.oldData.lookup e.1).getD none))

namespace State

def note (s : State) (e : Entry) : State := { s with log := e :: s.log }

def setConfig (s : State) (name : PhyName) (ifaces : List (String × Iface)) : State :=
  { s with config := Function.update s.config name (some ifaces) }

def setStopped (s : State) (name : PhyName) (stop : Bool) : State :=
  { s with stopped := Function.update s.stopped name stop }

end State

def ifaceStart (name : PhyName) (s : State) (e : String × Iface) : State :=
  if e.2.running then s else s.note (.iface name e.1 (s.told name))

def startPending (env : Env) (name : PhyName) (s : State) : State :=
  match s.config name with
  | none => s
  | some ifaces =>
    if env.phyOpen name then
      (ifaces.foldl (ifaceStart name) s).setConfig name
        (ifaces.map fun e => (e.1, { e.2 with running := true }))
    else s

/-! ## MLDs -/

def mldRemove (data : Mld) : Mld := { data with radioMaskUp := 0 }

/-- `mld_first_phy` -/
def mldFirstPhy (data : Mld) : Option Nat :=
  (List.range 64).find? fun r => data.radioMaskPresent.getLsbD r

/-- The device of an MLD can be made, and its interface is there. -/
def mldAdds (env : Env) (s : State) (name : String) (data : Mld) : Bool :=
  (mldFirstPhy data).any fun radio =>
    (s.config ⟨data.config.phy, some radio⟩).isSome &&
      env.phyOpen ⟨data.config.phy, some radio⟩ && env.added name

def mldAdd (env : Env) (s : State) (name : String) (data : Mld) : Mld :=
  if mldAdds env s name data then { data with radioMaskUp := data.radioMaskPresent } else data

def mldAddLinks (env : Env) (s : State) (name : String) (data : Mld) : Mld :=
  mldAdd env s name (mldRemove data)

def newMld (config : MldConfig) : Mld where
  config := config
  phyConfig := []
  freqList := none
  radioMask := (config.radios.filterMap fun r => r).foldl (fun mask r => mask ||| bit r) 0
  radioMaskUp := 0
  radioMaskPresent := 0

def mldOf (mlds : List (String × Mld)) (name : String) (config : MldConfig) : Mld :=
  match mlds.lookup name with
  | some prev => if prev.config = config then prev else newMld config
  | none => newMld config

def mldSetConfig (config : List (String × MldConfig)) (mlds : List (String × Mld)) :
    List (String × Mld) :=
  config.map fun e => (e.1, mldOf mlds e.1 e.2)

/-- `data.phy_config[radio] = config` -/
def setPhyConfig (configs : List (Option IfaceConfig)) (radio : Nat)
    (config : Option IfaceConfig) : List (Option IfaceConfig) :=
  (List.range (max configs.length (radio + 1))).map fun i =>
    if i = radio then config else configs[i]?.getD none

def freqListOf (configs : List (Option IfaceConfig)) : Option (List Nat) :=
  let lists := configs.filterMap fun config => config.bind IfaceConfig.freqList
  if lists = [] then none else some lists.flatten

/-- A phy without a number of its radio counts as the first one in the masks. -/
def mldSetIfaceConfig (radio : Option Nat) (config : Option IfaceConfig) (data : Mld) : Mld :=
  let phyConfig := match radio with
    | some r => setPhyConfig data.phyConfig r config
    | none => data.phyConfig
  { data with
    phyConfig := phyConfig
    radioMaskPresent :=
      if config.isSome then data.radioMaskPresent ||| bit (radio.getD 0)
      else data.radioMaskPresent &&& ~~~bit (radio.getD 0)
    freqList := freqListOf phyConfig }

def mldUpdateIface (data : Mld) : Mld :=
  if data.radioMaskUp = 0 then data
  else if data.radioMaskPresent = 0 then mldRemove data
  else if data.radioMaskUp &&& ~~~data.radioMaskPresent = 0 then data
  else mldRemove data

def mloConfig (configs : List IfaceConfig) (name : String) : Option IfaceConfig :=
  configs.reverse.find? fun config => config.mlo && config.iface = name

def mldUpdatePhy (name : PhyName) (configs : List IfaceConfig) (mlds : List (String × Mld)) :
    List (String × Mld) :=
  mlds.map fun e =>
    if e.2.config.phy ≠ name.phy then e
    else (e.1, mldUpdateIface (mldSetIfaceConfig name.radio (mloConfig configs e.1) e.2))

def mldStarts (data : Mld) : Bool := data.radioMaskPresent &&& ~~~data.radioMaskUp ≠ 0

def mldStartOne (env : Env) (s : State) (name : String) (data : Mld) : Mld :=
  if mldStarts data then
    if data.radioMaskUp = 0 then mldAdd env s name data else mldAddLinks env s name data
  else data

/-- The device is made with the whole `radioMask`. -/
def mldLinks (env : Env) (s : State) (name : String) (data : Mld) : List Entry :=
  if mldStarts data && mldAdds env s name data then
    ((List.range 64).filter fun r => data.radioMask.getLsbD r).map fun r =>
      .link ⟨data.config.phy, some r⟩ name (s.told ⟨data.config.phy, some r⟩)
  else []

def mldStart (env : Env) (s : State) : State :=
  if s.mldPending then s
  else
    { s with
      mld := s.mld.map fun e => (e.1, mldStartOne env s e.1 e.2)
      log := (s.mld.flatMap fun e => mldLinks env s e.1 e.2).reverse ++ s.log }

/-! ## Requests -/

def setConfig (name : PhyName) (configs : List IfaceConfig) (s : State) : State :=
  { s with mld := mldUpdatePhy name configs s.mld }.setConfig name
    (update ((s.config name).getD []) (configs.filter (!·.mlo)))

def mask (name : PhyName) : Mask := name.radio.elim 0 bit

def mldStop (name : PhyName) (data : Mld) : Mld :=
  let stopped := { data with radioMaskPresent := data.radioMaskPresent &&& ~~~mask name }
  if data.radioMaskUp &&& mask name ≠ 0 then mldUpdateIface stopped else stopped

def mldFor (name : PhyName) (data : Mld) : Bool := data.radioMask &&& mask name ≠ 0

def mldPresent (name : PhyName) (data : Mld) : Mld :=
  if mldFor name data then { data with radioMaskPresent := data.radioMaskPresent ||| mask name }
  else data

def phySetState (env : Env) (name : PhyName) (stop : Bool) (s : State) : State :=
  match s.config name with
  | none => s
  | some ifaces =>
    if stop then
      let s := s.setConfig name (ifaces.map fun e => (e.1, ifaceStop e.2))
      let mlds := s.mld.map fun e => (e.1, mldStop name e.2)
      { s with mld := mlds }.setStopped name true
    else
      let s := startPending env name (s.setStopped name false)
      let started := { s with mld := s.mld.map fun e => (e.1, mldPresent name e.2) }
      if s.mld.any fun e => mldFor name e.2 then mldStart env started else started

/-- The timer of a request without `defer` comes later. -/
inductive Event where
  | mldSet (config : List (String × MldConfig))
  | mldStart
  | configSet (name : PhyName) (configs : Option (List IfaceConfig)) (defer : Bool)
  | phySetState (name : PhyName) (stop : Bool)
  | timer (name : PhyName)

def configSet (name : PhyName) (configs : Option (List IfaceConfig)) (defer : Bool) (s : State) :
    State :=
  let s := match configs with
    | some configs => setConfig name configs s
    | none => s
  if defer then s else { s with timers := s.timers ++ [name] }

def step (env : Env) (e : Event) (s : State) : State :=
  match e with
  | .mldSet config => { s with mld := mldSetConfig config s.mld, mldPending := true }
  | .mldStart => mldStart env { s with mldPending := false }
  | .configSet name configs defer => configSet name configs defer s
  | .phySetState name stop =>
    phySetState env name stop { s with told := Function.update s.told name stop }
  | .timer name =>
    if name ∈ s.timers then startPending env name { s with timers := s.timers.erase name } else s

def State.init : State where
  mld := []
  mldPending := false
  config _ := none
  timers := []
  stopped _ := false
  told _ := false
  log := []

inductive Reachable (ok : Env → Event → State → Prop) : State → Prop where
  | init : Reachable ok .init
  | step {s : State} (hs : Reachable ok s) (env : Env) (e : Event) (he : ok env e s) :
      Reachable ok (step env e s)

end LibWrt.Supplicant
