/-
LibWrt.Wireless.Device — the calls of a device and the queue of the scripts.

A function that queues a script then runs the queue: that is `run` here. Such a
call is always the last one of its caller, so that a script that fails to start
calls back from inside of the loop over the queue: `runNextHandler`, which is
over the starts that fail, gives the callback the starts that are left. If none
was started there, the loop goes on.
-/
import LibWrt.Wireless.Core

namespace LibWrt.Wireless

/-! ## The state machine -/

def deleteWdev (name : String) (s : State) : State := { s with devices := s.devices.del name }

section Handlers

variable (run : State → State) (env : Env)

def runHandler (i : Nat) (op : Op) (s : State) : State :=
  run { s with handler := s.handler.set (s.wdev i).name { op := op, wdev := i, time := env.time } }

def setup (i : Nat) (s : State) : State :=
  let w := s.wdev i
  if w.state ≠ .up ∧ w.state ≠ .down then s
  else if !w.autostart || w.retrySetupFailed then s
  else runHandler run env i .setup
    (s.put i { wdevProcReset w with configChange := false, state := .setup })

def teardown (i : Nat) (s : State) : State :=
  let w := { s.wdev i with cancelSetup := false }
  if w.state = .teardown ∨ w.state = .down then s.put i w
  else runHandler run env i .teardown (s.put i { wdevProcReset w with state := .teardown })

/-- The callback of the setup script `serial`. -/
def wdevSetupCb (i serial : Nat) (s : State) : State :=
  let w := s.wdev i
  if w.state ≠ .setup then
    if w.state = .up ∧ w.configChange then setup run env i (wdevConfigInit i s) else s
  else teardown run env i ((s.put i w.countFailure).note (.failure i serial))

def wdevTeardownCb (i : Nat) (s : State) : State :=
  let s := handleLinks (s.wdev i).sections false s
  if s.raised then s
  else
    let w := { s.wdev i with handlerData := ∅, state := .down }
    let s := s.put i w
    if w.delete then deleteWdev w.data.name s else setup run env i s

def callback (c : Script) (s : State) : State :=
  match c.op with
  | .setup => wdevSetupCb run env c.wdev c.serial s
  | .teardown => wdevTeardownCb run env c.wdev s

def settled (c : Script) (s : State) : State :=
  { s with timeout := none, task := none, cur := none, timer := true
           log := .completed c.serial :: s.log }

def runHandlerCb (c : Script) (s : State) : State :=
  match s.cur with
  | none => s.raise
  | some d => if d.wdev ≠ c.wdev then s else callback run env c (settled c s)

end Handlers

/-! ## The queue -/

def oldest (handler : Dict String Slot) : List (String × Slot) :=
  (handler.entries.filter fun e => handler.entries.all fun e' => e.2.time ≤ e'.2.time).map
    fun e => (e.1, e.2)

def pick (k : Nat) (handler : Dict String Slot) : Option (String × Slot) :=
  (oldest handler)[k % (oldest handler).length]?

/-- `handler_config.data` that the script is given. -/
def giveData (i : Nat) (s : State) : State :=
  let w := s.wdev i
  s.put i { w with handlerConfig := { w.handlerConfig with data := w.handlerData.get? w.name } }

def take (name : String) (slot : Slot) (s : State) : State :=
  let c : Script := { op := slot.op, wdev := slot.wdev, serial := s.serial }
  (giveData slot.wdev { s with handler := s.handler.del name, cur := some c
                               serial := s.serial + 1 }).note (.started c.serial c.op c.wdev)

def spawn (c : Script) (s : State) : State :=
  { s with running := c :: s.running, task := some c.serial, timeout := some c }

def configDone (s : State) : State :=
  if s.cur.isNone ∧ s.handler.size = 0 then s.note .configDone else s

def runNextHandler (env : Env) : List Nat → State → State
  | [], s =>
    if s.cur.isSome then s
    else match pick env.last s.handler with
      | none => configDone s
      | some e => spawn { op := e.2.op, wdev := e.2.wdev, serial := s.serial } (take e.1 e.2 s)
  | k :: failing, s =>
    if s.cur.isSome then s
    else match pick k s.handler with
      | none => configDone s
      | some e =>
        let c : Script := { op := e.2.op, wdev := e.2.wdev, serial := s.serial }
        let s := runHandlerCb (runNextHandler env failing) env c (take e.1 e.2 s)
        if s.raised then s else runNextHandler env failing s

def Env.run (env : Env) : State → State := runNextHandler env env.failing

/-! ## The calls -/

section Calls

variable (env : Env)

def check (i : Nat) (s : State) : State :=
  let w := wdevUpdateDisabledVifs env (s.wdev i)
  let s := s.put i w
  if w.configChange then setup env.run env i (wdevConfigInit i s) else s

def Wdev.renew (w : Wdev) (data : Data) : Wdev :=
  { w with data := data, ifindexCache := fun _ => none, retrySetupFailed := false, delete := false }

def update (i : Nat) (data : Option Data) (s : State) : State :=
  let w := s.wdev i
  if data = some w.data then s
  else
    let w := match data with
      | some data => w.renew data
      | none => w
    check env i (s.put i { wdevReset w with configChange := true })

def start (i : Nat) (s : State) : State :=
  let w := s.wdev i
  if w.delete then s
  else
    let w := wdevReset { w with autostart := true }
    if w.state ≠ .down then s.put i w
    else
      let w := wdevUpdateDisabledVifs env w
      let s := s.put i w
      setup env.run env i (if w.configChange then wdevConfigInit i s else s)

def retrySetup (i : Nat) (s : State) : State :=
  let w := s.wdev i
  if w.delete then s
  else if w.state ≠ .down ∨ w.autostart = false then s
  else start env i s

def stop (i : Nat) (s : State) : State :=
  let w := { s.wdev i with autostart := false }
  match w.state with
  | .setup => s.put i { w with cancelSetup := true }
  | .up => teardown env.run env i (s.put i w)
  | _ => s.put i w

def destroy (i : Nat) (s : State) : State :=
  let w := { s.wdev i with autostart := false, delete := true }
  let s := s.put i w
  if w.state ≠ .down then stop env i s
  else { deleteWdev w.data.name s with log := w.sections.map .dropped ++ s.log }

/-! ## Messages of the scripts -/

/-- The device is reported up; the log has the script that is run for it. -/
def wdevMarkUp (i : Nat) (s : State) : State :=
  if (s.wdev i).state ≠ .setup then s
  else
    let s := handleLinks (s.wdev i).sections true s
    if s.raised then s
    else
      let running := (s.cur.filter (·.wdev = i)).map (·.serial)
      (s.put i { s.wdev i with state := .up }).note (.markUp i running)

inductive Command where
  | up
  | setData
  | processAdd
  | setRetry
  | other
  deriving DecidableEq

/-- `none` is a parameter that is missing or empty: the source only asks if it is true. -/
structure Notify where
  command : Command
  interface : Option String
  vlan : Option String
  ifname : Option String
  proc : Option Proc
  retry : Option Int
  deriving DecidableEq

/-- The messages by which a device is reported up: about no interface or VLAN of it. -/
def Notify.MarksUp (req : Notify) : Prop :=
  req.command = .up ∧ req.interface = none ∧ req.vlan = none

/-- A name is null or not; the empty one is not told apart from the others. -/
def sectionOf (w : Wdev) (vif vlan : Option String) :
    Option (String × Section × Option VifConfig) :=
  match vif, vlan with
  | none, none => some (w.name, .device, none)
  | none, some _ => none
  | some vif, none =>
    (w.handlerConfig.interfaces.lookup vif).map fun iface =>
      (iface.name, .vif, some iface.config)
  | some vif, some vlan =>
    (w.handlerConfig.interfaces.lookup vif).bind fun iface =>
      (iface.vlans.lookup vlan).map fun v => (iface.name ++ "/" ++ v.name, .vlan, some v.config)

def wdevSetData (i : Nat) (vif vlan ifname : Option String) (s : State) : State :=
  let w := s.wdev i
  match sectionOf w vif vlan with
  | none => s
  | some (key, type, config) =>
    let data : HandlerData := { ifname := ifname, type := type, config := config }
    { s.put i { w with handlerData := w.handlerData.set key data } with
      log := (w.handlerData.get? key).toList.map .dropped ++ s.log }

def wdevProcAdd (i : Nat) (proc : Option Proc) (s : State) : State :=
  let w := s.wdev i
  match proc with
  | none => s
  | some proc => s.put i { w with procs := w.procs ++ [proc], procTimer := true }

def notify (i : Nat) (req : Notify) (s : State) : State :=
  let w := s.wdev i
  match req.command with
  | .up =>
    if req.interface.isSome ∨ req.vlan.isSome ∨ w.state ≠ .setup then s else wdevMarkUp i s
  | .setData => wdevSetData i req.interface req.vlan req.ifname s
  | .processAdd =>
    if w.state ≠ .setup ∧ w.state ≠ .up then s else wdevProcAdd i req.proc s
  | .setRetry => s.put i { w with retry := some (req.retry.getD 3) }
  | .other => s

/-- `match(name, /(.+)\.sta.+/)`: what is before the last `.sta`. -/
def beforeSta : List Char → Option (List Char)
  | [] => none
  | c :: rest =>
    match beforeSta rest with
    | some m => some (c :: m)
    | none => if ".sta".toList.isPrefixOf rest ∧ 4 < rest.length then some [c] else none

def hotplugName (name : String) : String :=
  match beforeSta name.toList with
  | some m => String.ofList m
  | none => name

def hotplug (i : Nat) (dev : String) (add : Bool) (s : State) : State :=
  (s.wdev i).sections.foldl (fun s data =>
    if s.raised then s
    else if data.ifname ≠ some (hotplugName dev) ∨ data.type = .device then s
    else handleLink dev data add s) s

def wdevProcCheck (i : Nat) (active : Proc → Bool) (s : State) : State :=
  if (s.wdev i).procs.any (fun p => !active p) then teardown env.run env i s else s

/-! ## Devices -/

def newWdev (data : Data) : Wdev :=
  { name := data.name, data := data, state := .down, autostart := true, delete := false
    retry := none, retrySetupFailed := false, configChange := false, cancelSetup := false
    procs := [], procTimer := false, disabledVifs := ∅, ifindexCache := fun _ => none
    handlerConfig := { config := data.config, interfaces := [], data := none }
    handlerData := ∅ }

/-- `wdev.new`, whose device is entered in the table. -/
def create (data : Data) (s : State) : State :=
  let i := s.next
  let s := wdevConfigInit i (s.put i (wdevUpdateDisabledVifs env (newWdev data)))
  { s with timer := true, next := i + 1, devices := s.devices.set data.name i }

inductive Method where
  | start
  | stop
  | destroy
  | retrySetup
  | update (data : Option Data)
  | check
  | notify (req : Notify)
  | hotplug (name : String) (add : Bool)

/-- The requests go to the log; a configuration has a device under its name. -/
def call (i : Nat) (m : Method) (s : State) : State :=
  match m with
  | .start => start env i (s.note (.request i .start))
  | .stop => stop env i (s.note (.request i .stop))
  | .destroy => destroy env i (s.note (.request i .destroy))
  | .retrySetup => retrySetup env i s
  | .update data => if data.all (·.name = (s.wdev i).name) then update env i data s else s
  | .check => check env i s
  | .notify req => notify i req s
  | .hotplug name add => hotplug i name add s

inductive Event where
  | create (data : Data)
  | call (name : String) (m : Method)
  | procCheck (i : Nat) (active : Proc → Bool)
  /-- A script process has ended. -/
  | exit (c : Script)
  /-- `run_handler_timeout`, which cancels the process. -/
  | scriptTimeout
  | handlerTimer

def perform (e : Event) (s : State) : State :=
  match e with
  | .create data => if (s.devices.get? data.name).isSome then s else create env data s
  | .call name m =>
    match s.devices.get? name with
    | none => s
    | some i => call env i m s
  | .procCheck i active => if (s.wdev i).procTimer then wdevProcCheck env i active s else s
  | .exit c =>
    if c ∈ s.running then
      runHandlerCb env.run env c { s with running := s.running.erase c }
    else s
  | .scriptTimeout =>
    match s.timeout with
    | none => s
    | some c =>
      runHandlerCb env.run env c
        { s with timeout := none
                 running := s.running.filter fun d => s.task ≠ some d.serial }
  | .handlerTimer => env.run { s with timer := false }

def step (e : Event) (s : State) : State := perform env e { s with raised := false }

end Calls

def State.init : State :=
  { devices := ∅, wdev := fun _ => newWdev { name := "", config := "", vif := [] }, next := 0
    handler := ∅, cur := none, task := none, timeout := none, timer := false, running := []
    serial := 0, raised := false, log := [] }

inductive Reachable (ok : Env → Event → State → Prop) : State → Prop where
  | init : Reachable ok .init
  | step {s : State} (hs : Reachable ok s) (env : Env) (e : Event) (he : ok env e s) :
      Reachable ok (step env e s)

end LibWrt.Wireless
