/-
LibWrt.Rtl83xx.Offload — routes and flows that the switch handles.

A route has an id from the moment it is added; its rule and its counter it
gets when the neighbour behind its gateway is resolved. A flow gets both
when it is created. The commands (`serve`) take them from the pools of
`LibWrt.Rtl83xx.Pie` and give them back. `reg_mutex` is part of the pools
because one error path keeps it, and the next command waits for ever.
-/
import LibWrt.Rtl83xx.Pie

namespace LibWrt.Rtl83xx.Offload

open Function

/-- `MAX_ROUTES` -/
def maxRoutes : Nat := 512

/-- `MAX_HOST_ROUTES` -/
def maxHostRoutes : Nat := 1536

/-- `MAX_ROUTER_MACS` -/
def maxRouterMacs : Nat := 64

/-- `L3_EGRESS_DMACS` -/
def l3EgressDmacs : Nat := 2048

/-- `MAX_SMACS` -/
def maxSmacs : Nat := 64

/-- `struct rtl83xx_route` as it is allocated; its rule has no slot yet. -/
structure Route where
  gwIp : BitVec 32
  dstIp : BitVec 32 := 0
  prefixLen : Nat := 0
  isHostRoute : Bool
  id : Nat
  pr : PieRule := { id := none }
  deriving DecidableEq

/-- `struct rtl83xx_flow` -/
structure Flow where
  cookie : Nat
  rule : PieRule
  deriving DecidableEq

structure State where
  pools : Pools
  routes : List Route
  flows : List Flow

/-- `struct fib_entry_notifier_info` with its next hop. -/
structure FibEntry where
  /-- `type == RTN_BROADCAST` -/
  broadcast : Bool
  dst : BitVec 32
  dstLen : Nat
  gw4 : BitVec 32

/-- What else decides about an addition. -/
structure FibAdd extends FibEntry where
  /-- a port of the switch is under the device -/
  onSwitch : Bool
  devAddr : BitVec 48
  /-- there is memory for the route -/
  stored : Bool
  /-- the neighbour behind the gateway, when it is resolved already -/
  neigh : Option (BitVec 48)

structure FlowMatch where
  control : Bool
  basic : Bool
  /-- destination and source -/
  ethAddrs : Option (BitVec 48 × BitVec 48)
  /-- destination, and the masks of destination and source -/
  ipv4Addrs : Option (BitVec 32 × BitVec 32 × BitVec 32)
  /-- the masks of destination and source -/
  ipv6Addrs : Option (BitVec 128 × BitVec 128)

variable (chip : Chip)

/-! ## Neighbours -/

/-- `inet_make_mask` -/
def inetMakeMask (logmask : Nat) : BitVec 32 :=
  if logmask ≠ 0 then ~~~((1 <<< (32 - logmask)) - 1) else 0

namespace PieRule

/-- The counter a rule logs to, when there was one. -/
def withCntr (pr : PieRule) (packetCntr : Option Nat) : PieRule :=
  match packetCntr with
  | some c => { pr with packetCntr := some c, logSel := true, logData := c }
  | none => { pr with packetCntr := none }

end PieRule

def Route.rule (r : Route) : PieRule :=
  { r.pr with dip := r.dstIp, dipM := inetMakeMask r.prefixLen }

/-- `rtl83xx_l3_nexthop_update`, for one route. What `route_read` reads back of the route's own
    entry is taken to be what the route has already. -/
def updateRoute (p : Pools) (mac : BitVec 48) (r : Route) : Option (Route × Pools) :=
  let p := if chip.family = .rtl930x then
      { p with egressMac := update p.egressMac r.id mac }
    else p
  match r.rule.id with
  | none =>
    match packetCntrAlloc chip p with
    | none => none
    | some (packetCntr, p) =>
      -- nobody looks at the error
      let (_, pr, p) := pieRuleAdd chip p (r.rule.withCntr packetCntr)
      some ({ r with pr := pr }, p)
  | some idx => some ({ r with pr := r.rule }, pieRuleWrite p idx r.rule)

/-- The loop of `rtl83xx_l3_nexthop_update` over the routes with the gateway. -/
def updateRoutes (ipAddr : BitVec 32) (mac : BitVec 48) :
    Pools → List Route → Option (List Route × Pools)
  | p, [] => some ([], p)
  | p, r :: rs =>
    if r.gwIp = ipAddr then
      match updateRoute chip p mac r with
      | none => none
      | some (r, p) => (updateRoutes ipAddr mac p rs).map fun (rs, p) => (r :: rs, p)
    else (updateRoutes ipAddr mac p rs).map fun (rs, p) => (r :: rs, p)

/-- `rtl83xx_l3_nexthop_update` -/
def l3NexthopUpdate (s : State) (ipAddr : BitVec 32) (mac : BitVec 48) :
    Option (Option Errno × State) :=
  if s.routes.all fun r => r.gwIp ≠ ipAddr then some (some .enoent, s)
  else
    (updateRoutes chip ipAddr mac s.pools s.routes).map fun (routes, p) =>
      (none, { s with pools := p, routes := routes })

/-! ## Routes -/

/-- `rtl83xx_route_alloc`. Nobody looks whether a bit was found. -/
def routeAlloc (p : Pools) (ip : BitVec 32) (stored : Bool) : Option (Option (Route × Pools)) :=
  if p.regMutex then none
  else if !stored then some none
  else
    let idx := findFirstZeroBit p.routeUseBm maxRoutes
    some (some ({ id := idx, gwIp := ip, isHostRoute := false },
      { p with routeUseBm := update p.routeUseBm idx true }))

/-- `rtl83xx_host_route_alloc`; its bitmap begins behind the other, and so do its ids. -/
def hostRouteAlloc (p : Pools) (ip : BitVec 32) (stored : Bool) :
    Option (Option (Route × Pools)) :=
  if p.regMutex then none
  else if !stored then some none
  else
    let idx := findFirstZeroBit (fun i => p.routeUseBm (maxRoutes + i)) maxHostRoutes
    some (some ({ id := idx + maxRoutes, gwIp := ip, isHostRoute := true },
      { p with routeUseBm := update p.routeUseBm (idx + maxRoutes) true }))

/-- `ipv4_is_loopback` -/
def ipv4IsLoopback (addr : BitVec 32) : Bool := addr &&& 0xff000000 = 0x7f000000

/-- `rtldsa_fib4_check`: the entry is skipped. -/
def fib4Check (info : FibEntry) : Bool :=
  info.broadcast || ipv4IsLoopback info.dst || info.dst = 0

/-- The loop of `rtl83xx_alloc_router_mac`: an entry that has the address, or the first that
    is free. -/
def routerMacSlot (p : Pools) (mac : BitVec 48) : Option Nat :=
  match (List.range maxRouterMacs).find? fun i => p.routerMac i = some mac with
  | some i => some i
  | none => (List.range maxRouterMacs).find? fun i => p.routerMac i = none

/-- `rtl83xx_alloc_router_mac`, whether it was possible -/
def allocRouterMac (p : Pools) (mac : BitVec 48) : Option (Bool × Pools) :=
  if p.regMutex then none
  else
    match routerMacSlot p mac with
    | none => some (false, p)
    | some i => some (true, { p with routerMac := update p.routerMac i (some mac) })

/-- The loop of `rtl83xx_alloc_egress_intf`: an interface with the address, and the first that
    was free. -/
def egressIntfScan (p : Pools) (mac : BitVec 48) : List Nat → Option Nat → Option Nat × Option Nat
  | [], freeMac => (none, freeMac)
  | i :: is, freeMac =>
    let m := p.egressMac (l3EgressDmacs + i)
    if freeMac = none ∧ m = 0 then egressIntfScan p mac is (some i)
    else if m = mac then (some i, freeMac)
    else egressIntfScan p mac is freeMac

/-- `rtl83xx_alloc_egress_intf`, whether it was possible. Where it was not, the mutex is not
    released. -/
def allocEgressIntf (p : Pools) (mac : BitVec 48) : Option (Bool × Pools) :=
  if p.regMutex then none
  else
    match egressIntfScan p mac (List.range maxSmacs) none with
    | (some _, _) => some (true, p)
    | (none, none) => some (false, { p with regMutex := true })
    | (none, some i) =>
      some (true, { p with egressMac := update p.egressMac (l3EgressDmacs + i) mac })

/-- The router address and the egress interface of a route, where the family has them. -/
def allocInterface (p : Pools) (mac : BitVec 48) : Option (Bool × Pools) :=
  if chip.family = .rtl930x then
    match allocRouterMac p mac with
    | none => none
    | some (false, p) => some (false, p)
    | some (true, p) => allocEgressIntf p mac
  else some (true, p)

/-- `rtldsa_fib4_add`. A route that gets no interface stays. -/
def fib4Add (s : State) (info : FibAdd) : Option (Option Errno × State) :=
  if fib4Check info.toFibEntry then some (none, s)
  else if !info.onSwitch then some (some .enodev, s)
  else
    let alloc := if info.dstLen = 32 ∧ chip.family = .rtl930x then hostRouteAlloc else routeAlloc
    match alloc s.pools info.gw4 info.stored with
    | none => none
    | some none => some (some .enospc, s)
    | some (some (route, p)) =>
      let route := { route with dstIp := info.dst, prefixLen := info.dstLen }
      match allocInterface chip p info.devAddr with
      | none => none
      | some (interface, p) =>
        let s := { s with pools := p, routes := route :: s.routes }
        match interface, info.neigh with
        | true, some mac =>
          if info.gw4 ≠ 0 then
            (l3NexthopUpdate chip s info.gw4 mac).map fun (_, s) => (none, s)
          else some (none, s)
        | _, _ => some (none, s)

def State.routesVia (s : State) (gw : BitVec 32) : List Route :=
  s.routes.filter fun r => r.gwIp = gw

def Route.isTo (r : Route) (info : FibEntry) : Bool :=
  r.dstIp = info.dst && r.prefixLen = info.dstLen

/-- `rtldsa_fib4_del`. Where no route of the gateway is to the destination, the cursor has
    stopped at the last one. -/
def fib4Del (s : State) (info : FibEntry) : Option (Option Errno × State) :=
  if fib4Check info then some (none, s)
  else
    let list := s.routesVia info.gw4
    match list.getLast? with
    | none => some (some .enoent, s)
    | some last =>
      let route := (list.find? fun r => r.isTo info).getD last
      let p := match route.pr.packetCntr with
        | some c => { s.pools with
            packetCntrUseBm := update s.pools.packetCntrUseBm c true }
        | none => s.pools
      match pieRuleRm p route.pr with
      | none => none
      | some p =>
        -- `rtl83xx_route_rm`
        some (none, { s with
          pools := { p with routeUseBm := update p.routeUseBm route.id false }
          routes := s.routes.erase route })

/-! ## Flows -/

/-- `rtl83xx_parse_flow_rule` -/
def parseFlowRule (m : FlowMatch) (rule : PieRule) : Option Errno × PieRule :=
  if !m.control || !m.basic then (some .eopnotsupp, rule)
  else
    let rule := match m.ethAddrs with
      | some (dst, src) => { rule with dmac := dst, smac := src }
      | none => rule
    match m.ipv4Addrs, m.ipv6Addrs with
    | some (dst, dstM, srcM), _ =>
      (none, { rule with isIpv6 := false, dip := dst, dipM := dstM, sipM := srcM })
    | none, some (dstM, srcM) => (none, { rule with isIpv6 := true, dip6M := dstM, sip6M := srcM })
    | none, none => (none, rule)

/-- `rtl83xx_add_flow`, what it does to the rule; nobody looks at its errors. -/
def addFlow (m : FlowMatch) (rule : PieRule) : PieRule := (parseFlowRule m rule).2

/-- `rtl83xx_configure_flower` -/
def configureFlower (s : State) (cookie : Nat) (m : FlowMatch) (stored : Bool) :
    Option (Option Errno × State) :=
  if s.flows.any fun f => f.cookie = cookie then some (some .eexist, s)
  else if !stored then some (some .enomem, s)
  else
    match packetCntrAlloc chip s.pools with
    | none => none
    | some (packetCntr, p) =>
      let (err, rule, p) := pieRuleAdd chip p ((addFlow m {}).withCntr packetCntr)
      some (err, { s with pools := p, flows := { cookie := cookie, rule := rule } :: s.flows })

/-- `rtl83xx_delete_flower` -/
def deleteFlower (s : State) (cookie : Nat) : Option (Option Errno × State) :=
  match s.flows.find? fun f => f.cookie = cookie with
  | none => some (some .einval, s)
  | some flow =>
    (pieRuleRm s.pools flow.rule).map fun p =>
      (none, { s with pools := p, flows := s.flows.erase flow })

/-! ## Commands -/

inductive Request where
  | fib4Add (info : FibAdd)
  | fib4Del (info : FibEntry)
  | neighUpdate (ipAddr : BitVec 32) (mac : BitVec 48)
  | flowReplace (cookie : Nat) (m : FlowMatch) (stored : Bool)
  | flowDestroy (cookie : Nat)

/-- `priv->r->l3_setup` is there. -/
def l3Setup : Bool :=
  match chip.family with
  | .rtl838x | .rtl839x => true
  | .rtl930x => chip.l3Offload
  | .rtl931x => false

/-- A command; `none` when it waits for the mutex for ever. -/
def serve (s : State) : Request → Option (Option Errno × State)
  | .fib4Add info => if l3Setup chip then fib4Add chip s info else some (none, s)
  | .fib4Del info => if l3Setup chip then fib4Del s info else some (none, s)
  | .neighUpdate ipAddr mac =>
    if l3Setup chip then l3NexthopUpdate chip s ipAddr mac else some (none, s)
  | .flowReplace cookie m stored => configureFlower chip s cookie m stored
  | .flowDestroy cookie => deleteFlower s cookie

/-- No routes and no flows; `rtl930x_l3_setup` reserves route 0. -/
def initial (routerMac : Nat → Option (BitVec 48)) : State where
  pools :=
    { octetCntrUseBm := fun _ => false
      packetCntrUseBm := fun _ => false
      pieUseBm := fun _ => false
      routeUseBm := fun i => i = 0 && chip.family = .rtl930x && l3Setup chip
      rules := fun _ => none
      routerMac := routerMac
      egressMac := fun _ => 0
      regMutex := false }
  routes := []
  flows := []

end LibWrt.Rtl83xx.Offload
