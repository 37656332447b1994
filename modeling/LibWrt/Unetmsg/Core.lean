/-
LibWrt.Unetmsg.Core — the message broker, its clients and its peers.

Local clients publish and subscribe names. A host of a unetd network that is a
peer is told of these over the outgoing channel to it, and tells of its own
over the incoming one. `Daemon` is what the broker knows; an id is the next
number that was not given away yet, and the order of an object is left out.
What is sent goes to a log, the newest first.
-/
import LibWrt.Lib.Dict

namespace LibWrt.Unetmsg

open Function

/-! ## The state -/

inductive Kind where
  | publish
  | subscribe
  deriving DecidableEq

inductive Method where
  | message
  | request
  | publish
  deriving DecidableEq

inductive Output where
  /-- An outgoing channel is authenticated; this is not sent. -/
  | up (chan : Nat)
  | announce (chan : Nat) (kind : Kind) (name : String) (enabled : Bool)
  | deliver (client : Nat) (method : Method) (name : String)
  | forward (chan : Nat) (method : Method) (name : String)
  deriving DecidableEq

structure Client where
  lists : Kind → Dict String Nat

/-- `sock_data` of an incoming connection, with the names that are enabled. -/
structure RxConn where
  network : String
  name : String
  auth : Bool
  lists : Kind → List String

/-- `sock_data` of an outgoing connection. -/
structure TxConn where
  network : String
  name : String
  auth : Bool
  deriving DecidableEq

structure Peer where
  address : String
  allowed : Option (List String)
  deriving DecidableEq

structure Net where
  localHost : String
  localAddress : String
  peers : Dict String Peer
  rxChannels : Dict String Nat
  txChannels : Dict String Nat

structure Daemon where
  clients : Dict Nat Client
  /-- `publish` and `subscribe`: of a name the handles, with their clients. -/
  handles : Kind → Dict String (Dict Nat Nat)
  /-- `remote_publish` and `remote_subscribe`: of a name the hosts, with their networks. -/
  remote : Kind → Dict String (Dict String String)
  networks : Dict String Net
  /-- The incoming connections that are not closed. -/
  rx : Dict Nat RxConn
  /-- The outgoing connections that are not closed. -/
  tx : Dict Nat TxConn
  next : Nat
  log : List Output

def Daemon.init : Daemon where
  clients := ∅
  handles := fun _ => ∅
  remote := fun _ => ∅
  networks := ∅
  rx := ∅
  tx := ∅
  next := 0
  log := []

/-! ## Local clients -/

def receivers (d : Daemon) (kind : Kind) (name : String) (sender : Option Nat) : List Nat :=
  (((d.handles kind).get? name).getD ∅).entries.filterMap fun e =>
    if sender = some e.2 ∨ (d.clients.get? e.2).isNone then none else some e.2

def deliveries (d : Daemon) (kind : Kind) (method : Method) (name : String)
    (sender : Option Nat) : List Output :=
  (receivers d kind name sender).map fun client => .deliver client method name

/-- `handle_publish` -/
def handlePublish (d : Daemon) (sender : Option Nat) (name : String) : Daemon :=
  { d with log := deliveries d .subscribe .publish name sender ++ d.log }

def remoteChannels (d : Daemon) (kind : Kind) (name : String) (host : Option String) : List Nat :=
  (((d.remote kind).get? name).getD ∅).entries.filterMap fun e =>
    if host.isSome ∧ host ≠ some e.1 then none
    else (d.networks.get? e.2).bind fun net => net.txChannels.get? e.1

/-- `handle_message` and `handle_request`: the handles are those of a table. -/
def handleCall (d : Daemon) (kind : Kind) (method : Method) (name : String) (sender : Option Nat)
    (remote : Bool) (host : Option String) : Daemon :=
  let toLocal :=
    if host.isSome ∧ host ≠ some "" then [] else deliveries d kind method name sender
  let toRemote :=
    if remote ∧ host ≠ some "" then
      (remoteChannels d kind name host).map fun chan => Output.forward chan method name
    else []
  { d with log := toRemote ++ toLocal ++ d.log }

def authChannels (d : Daemon) : List Nat :=
  d.networks.entries.flatMap fun e => e.2.txChannels.entries.filterMap fun c =>
    match d.tx.get? c.2 with
    | some conn => if conn.auth then some c.2 else none
    | none => none

/-- `pubsub_set` -/
def pubsubSet (d : Daemon) (kind : Kind) (name : String) (enabled : Bool) : Daemon :=
  { d with log := (authChannels d).map (fun chan => .announce chan kind name enabled) ++ d.log }

/-- `length(list[name]) > 0` -/
def hasHandle (d : Daemon) (kind : Kind) (name : String) : Bool :=
  match (d.handles kind).get? name with
  | some list => list.size ≠ 0
  | none => false

def setHandles (d : Daemon) (kind : Kind) (name : String) (list : Dict Nat Nat) : Daemon :=
  { d with handles := update d.handles kind ((d.handles kind).set name list) }

/-- `pubsub_add` of a client, that gets the id of the handle. -/
def pubsubAdd (d : Daemon) (kind : Kind) (name : String) (client : Nat) : Daemon × Nat :=
  let list := ((d.handles kind).get? name).getD ∅
  let d :=
    if !hasHandle d kind name || kind = .publish then
      pubsubSet (setHandles d kind name list) kind name true
    else d
  ({ setHandles d kind name (list.set d.next client) with next := d.next + 1 }, d.next)

/-- `pubsub_del` -/
def pubsubDel (d : Daemon) (kind : Kind) (name : String) (handle : Nat) : Daemon :=
  let list := (((d.handles kind).get? name).getD ∅).del handle
  let d := setHandles d kind name list
  if list.size = 0 ∨ kind = .publish then pubsubSet d kind name (list.size ≠ 0) else d

def clientAdd (kind : Kind) (client : Nat) (d : Daemon) (name : String) : Daemon :=
  match d.clients.get? client with
  | none => d
  | some cl =>
    if ((cl.lists kind).get? name).isSome then d
    else
      let (d, handle) := pubsubAdd d kind name client
      let cl := { cl with lists := update cl.lists kind ((cl.lists kind).set name handle) }
      let d := { d with clients := d.clients.set client cl }
      if kind = .publish then handlePublish d (some client) name else d

/-- `client_pubsub` that is granted. -/
def clientPubsub (kind : Kind) (client : Nat) (d : Daemon) (names : List String) : Daemon :=
  names.foldl (clientAdd kind client) d

def clientDel (kind : Kind) (client : Nat) (d : Daemon) (name : String) (handle : Nat) : Daemon :=
  let d := if kind = .publish then handlePublish d (some client) name else d
  pubsubDel d kind name handle

/-- `client_disconnect` -/
def clientDisconnect (d : Daemon) (client : Nat) : Daemon :=
  match d.clients.get? client with
  | none => d
  | some cl =>
    let drop kind (d : Daemon) := (cl.lists kind).entries.foldl
      (fun d e => clientDel kind client d e.1 e.2) d
    let d := drop .subscribe (drop .publish d)
    { d with clients := d.clients.del client }

/-- `client_request` -/
def clientRequest (d : Daemon) (client : Nat) (method : Method) (name : String)
    (host : Option String) (granted : Bool) : Daemon :=
  match d.clients.get? client, method with
  | some cl, .message =>
    if ((cl.lists .publish).get? name).isNone then d
    else handleCall d .subscribe .message name (some client) true host
  | some cl, .request =>
    if ((cl.lists .subscribe).get? name).isNone && !granted then d
    else handleCall d .publish .request name (some client) true host
  | _, _ => d

/-! ## Incoming channels -/

def setNet (d : Daemon) (name : String) (net : Net) : Daemon :=
  { d with networks := d.networks.set name net }

def publishedBy (d : Daemon) (host : String) : List String :=
  (d.remote .publish).entries.filterMap fun e =>
    if (e.2.get? host).isSome then some e.1 else none

/-- `network_rx_cleanup_state` -/
def rxCleanupState (d : Daemon) (host : String) : Daemon :=
  (publishedBy d host).foldl (fun d name => handlePublish d none name)
    { d with remote := fun kind => (d.remote kind).map fun hosts => hosts.del host }

/-- The channel is taken out of the network, if it is the one that is there. -/
def rxUnregister (d : Daemon) (chan : Nat) (conn : RxConn) : Daemon :=
  match d.networks.get? conn.network with
  | none => d
  | some net =>
    if net.rxChannels.get? conn.name = some chan then
      rxCleanupState
        (setNet d conn.network { net with rxChannels := net.rxChannels.del conn.name }) conn.name
    else d

/-- `network_rx_socket_close` -/
def rxSocketClose (d : Daemon) (chan : Nat) : Daemon :=
  match d.rx.get? chan with
  | none => d
  | some conn =>
    let d := rxUnregister d chan conn
    { d with rx := d.rx.del chan }

/-- `network_tx_socket_close` -/
def txSocketClose (d : Daemon) (chan : Nat) : Daemon :=
  match d.tx.get? chan with
  | none => d
  | some conn =>
    let networks :=
      match d.networks.get? conn.network with
      | none => d.networks
      | some net =>
        if net.txChannels.get? conn.name = some chan then
          d.networks.set conn.network { net with txChannels := net.txChannels.del conn.name }
        else d.networks
    { d with networks, tx := d.tx.del chan }

def txAuth (d : Daemon) (net : Net) (host : String) : Bool :=
  match (net.txChannels.get? host).bind d.tx.get? with
  | some conn => conn.auth
  | none => false

def Peer.allows (wildcard : String → String → Bool) (peer : Peer) (name : String) : Bool :=
  match peer.allowed with
  | none => true
  | some allowed => allowed.any (wildcard name)

def setRx (d : Daemon) (chan : Nat) (conn : RxConn) : Daemon :=
  { d with rx := d.rx.set chan conn }

def setRemote (d : Daemon) (kind : Kind) (name host : String) (network : Option String) : Daemon :=
  let hosts := ((d.remote kind).get? name).getD ∅
  let hosts :=
    match network with
    | some network => hosts.set host network
    | none => hosts.del host
  { d with remote := update d.remote kind ((d.remote kind).set name hosts) }

def RxConn.setList (conn : RxConn) (kind : Kind) (names : List String) : RxConn :=
  { conn with lists := update conn.lists kind names }

/-- A peer publishes or subscribes a name. If it is not known any more, there is an exception. -/
def peerEnable (wildcard : String → String → Bool) (d : Daemon) (net : Net) (chan : Nat)
    (conn : RxConn) (kind : Kind) (name : String) : Daemon :=
  let announced := txAuth d net conn.name && kind = .publish
  if name ∈ conn.lists kind then if announced then handlePublish d none name else d
  else
    match net.peers.get? conn.name with
    | none => d
    | some peer =>
      if !peer.allows wildcard name then d
      else
        let d := setRemote d kind name conn.name (some conn.network)
        let d := if announced then handlePublish d none name else d
        setRx d chan (conn.setList kind (name :: conn.lists kind))

def peerDisable (d : Daemon) (chan : Nat) (conn : RxConn) (kind : Kind) (name : String) : Daemon :=
  if name ∉ conn.lists kind then d
  else
    let d := if kind = .publish then handlePublish d none name else d
    let d := setRemote d kind name conn.name none
    setRx d chan (conn.setList kind ((conn.lists kind).filter (· ≠ name)))

inductive PeerRequest where
  | hello
  /-- With a token that is valid or not. -/
  | auth (valid : Bool)
  | pubsub (kind : Kind) (name : String) (enabled : Bool)
  | request (name : String)
  | message (name : String)
  | other
  deriving DecidableEq

/-- `network_socket_handle_request` -/
def socketHandleRequest (wildcard : String → String → Bool) (d : Daemon) (chan : Nat)
    (conn : RxConn) : PeerRequest → Daemon
  | .pubsub kind name enabled =>
    match d.networks.get? conn.network with
    | none => d
    | some net =>
      if name = "" then d
      else if enabled then peerEnable wildcard d net chan conn kind name
      else peerDisable d chan conn kind name
  | .request name =>
    if (d.networks.get? conn.network).isNone then d
    else handleCall d .publish .request name none false none
  | .message name =>
    if (d.networks.get? conn.network).isNone then d
    else handleCall d .subscribe .message name none false none
  | _ => d

/-- `network_check_auth` of a token that is valid, if the host is a peer. -/
def checkAuth (d : Daemon) (chan : Nat) (conn : RxConn) : Option Daemon :=
  match d.networks.get? conn.network with
  | none => none
  | some net =>
    if (net.peers.get? conn.name).isNone then none
    else
      let d :=
        match net.rxChannels.get? conn.name with
        | some old => rxSocketClose d old
        | none => d
      let d := rxCleanupState (setRx d chan { conn with auth := true }) conn.name
      match d.networks.get? conn.network with
      | none => none
      | some net =>
        some (setNet d conn.network { net with rxChannels := net.rxChannels.set conn.name chan })

def rxRequest (wildcard : String → String → Bool) (d : Daemon) (chan : Nat) (req : PeerRequest) :
    Daemon :=
  match d.rx.get? chan with
  | none => d
  | some conn =>
    if conn.auth then socketHandleRequest wildcard d chan conn req
    else
      match req with
      | .hello => d
      | .auth true => (checkAuth d chan conn).getD (rxSocketClose d chan)
      | _ => rxSocketClose d chan

/-- `network_accept`; of the peers with the address, the object decides for one. -/
def networkAccept (d : Daemon) (network src name : String) : Daemon :=
  match (d.networks.get? network).bind fun net => net.peers.get? name with
  | none => d
  | some peer =>
    if peer.address ≠ src then d
    else
      { setRx d d.next { network, name, auth := false, lists := fun _ => [] } with
        next := d.next + 1 }

/-! ## Outgoing channels -/

def snapshot (d : Daemon) (chan : Nat) : List Output :=
  [Kind.publish, Kind.subscribe].flatMap fun kind =>
    (d.handles kind).entries.map fun e => Output.announce chan kind e.1 true

/-- `auth_data_cb` with a token that is valid -/
def authData (d : Daemon) (chan : Nat) : Daemon :=
  match d.tx.get? chan with
  | none => d
  | some conn =>
    let d := { d with tx := d.tx.set chan { conn with auth := true }
                      log := snapshot d chan ++ Output.up chan :: d.log }
    let names :=
      match ((d.networks.get? conn.network).bind fun net =>
        net.rxChannels.get? conn.name).bind d.rx.get? with
      | some rx => rx.lists .publish
      | none => []
    names.foldl (fun d name => handlePublish d none name) d

/-- `auth_cb` -/
def authDone (d : Daemon) (chan : Nat) : Daemon :=
  match d.tx.get? chan with
  | none => d
  | some conn => if conn.auth then d else txSocketClose d chan

/-- `network_open_channel`, if there is a socket. -/
def openChannel (network name : String) (socket : Bool) (d : Daemon) : Daemon :=
  let d :=
    match (d.networks.get? network).bind fun net => net.txChannels.get? name with
    | some old => txSocketClose d old
    | none => d
  if !socket then d
  else
    match d.networks.get? network with
    | none => d
    | some net =>
      { setNet d network { net with txChannels := net.txChannels.set name d.next } with
        tx := d.tx.set d.next { network, name, auth := false }
        next := d.next + 1 }

def closeRx (network host : String) (d : Daemon) : Daemon :=
  match (d.networks.get? network).bind fun net => net.rxChannels.get? host with
  | some chan => rxSocketClose d chan
  | none => d

def closeTx (network host : String) (d : Daemon) : Daemon :=
  match (d.networks.get? network).bind fun net => net.txChannels.get? host with
  | some chan => txSocketClose d chan
  | none => d

/-- `network_connect_peers`, with the hosts that there is a socket for. -/
def connectPeers (network : String) (socket : String → Bool) (d : Daemon) : Daemon :=
  match d.networks.get? network with
  | none => d
  | some net =>
    let d := net.peers.entries.foldl (fun d e =>
      match d.networks.get? network with
      | some now => if txAuth d now e.1 then d else openChannel network e.1 (socket e.1) d
      | none => d) d
    let txHosts := ((d.networks.get? network).map fun now => now.txChannels.keys).getD []
    let d := txHosts.foldl (fun d host =>
      if (net.peers.get? host).isNone then closeTx network host d else d) d
    let rxHosts := ((d.networks.get? network).map fun now => now.rxChannels.keys).getD []
    rxHosts.foldl (fun d host =>
      if (net.peers.get? host).isNone then closeRx network host d else d) d

/-! ## Networks -/

structure Service where
  type : String
  members : List String
  allowed : Option (List String)

structure Info where
  localHost : String
  localAddress : String
  peers : Dict String Peer
  services : List Service

def allowedOf (services : List Service) (peer : String) : List String :=
  (services.filter fun s => peer ∈ s.members).foldl (fun allowed s =>
    (s.allowed.getD ["*"]).foldl (fun allowed cur =>
      if cur ∈ allowed then allowed else allowed ++ [cur]) allowed) []

/-- `unetd_network_check_peers` -/
def checkPeers (info : Info) : Info :=
  let services := info.services.filter fun s => s.type = "unetmsg"
  if services = [] then info
  else
    let services := services.filter fun s => info.localHost ∈ s.members
    let keep (peers : Dict String Peer) (name : String) : Dict String Peer :=
      match peers.get? name with
      | none => peers
      | some peer =>
        let allowed := allowedOf services name
        if allowed = [] then peers.del name
        else peers.set name { peer with allowed := some allowed }
    { info with peers := info.peers.keys.foldl keep info.peers }

/-- `network_open`, if there is a socket. -/
def networkOpen (name : String) (info : Info) (socket : Bool) (d : Daemon) : Daemon :=
  if socket then
    setNet d name {
      localHost := info.localHost
      localAddress := info.localAddress
      peers := info.peers
      rxChannels := ∅
      txChannels := ∅ }
  else d

/-- `network_close` -/
def networkClose (name : String) (d : Daemon) : Daemon :=
  match d.networks.get? name with
  | none => d
  | some net =>
    let d := net.rxChannels.keys.foldl (fun d host => closeRx name host d) d
    let d := net.txChannels.keys.foldl (fun d host => closeTx name host d) d
    { d with networks := d.networks.del name }

/-- `network_update` -/
def networkUpdate (name : String) (info : Info) (socket : Bool) (d : Daemon) : Daemon :=
  match d.networks.get? name with
  | none => d
  | some net =>
    if net.localHost ≠ info.localHost ∨ net.localAddress ≠ info.localAddress then
      networkOpen name info socket (networkClose name d)
    else
      let d := net.peers.entries.foldl (fun d e =>
        if e.2.allowed = (info.peers.get? e.1).bind (·.allowed) then d
        else closeTx name e.1 (closeRx name e.1 d)) d
      match d.networks.get? name with
      | none => d
      | some net => setNet d name { net with peers := info.peers }

def updateOne (socket : String → Bool) (d : Daemon) (e : String × Info) : Daemon :=
  if e.2.localHost = "" then d
  else
    let info := checkPeers e.2
    if (d.networks.get? e.1).isSome then networkUpdate e.1 info (socket e.1) d
    else networkOpen e.1 info (socket e.1) d

/-- `unetd_network_update` -/
def networkUpdates (socket : String → Bool) (data : Dict String Info) (d : Daemon) : Daemon :=
  let d := data.entries.foldl (fun d e => updateOne socket d (e.1, e.2)) d
  (d.networks.keys.filter fun name => (data.get? name).isNone).foldl
    (fun d name => networkClose name d) d

/-! ## Events -/

inductive Event where
  | connect
  | pubsub (kind : Kind) (client : Nat) (names : List String)
  | call (client : Nat) (method : Method) (name : String) (host : Option String) (granted : Bool)
  | disconnect (client : Nat)
  | accept (network src name : String)
  | peer (chan : Nat) (req : PeerRequest)
  | rxClosed (chan : Nat)
  | authData (chan : Nat)
  | authDone (chan : Nat)
  | txClosed (chan : Nat)
  | connectPeers (network : String) (socket : String → Bool)
  | update (data : Dict String Info) (socket : String → Bool)

/-- One event. A timer that runs out closes a connection, as a disconnect does. -/
def step (wildcard : String → String → Bool) (d : Daemon) : Event → Daemon
  | .connect => { d with clients := d.clients.set d.next ⟨fun _ => ∅⟩, next := d.next + 1 }
  | .pubsub kind client names => clientPubsub kind client d names
  | .call client method name host granted => clientRequest d client method name host granted
  | .disconnect client => clientDisconnect d client
  | .accept network src name => networkAccept d network src name
  | .peer chan req => rxRequest wildcard d chan req
  | .rxClosed chan => rxSocketClose d chan
  | .authData chan => authData d chan
  | .authDone chan => authDone d chan
  | .txClosed chan => txSocketClose d chan
  | .connectPeers network socket => connectPeers network socket d
  | .update data socket => networkUpdates socket data d

def run (wildcard : String → String → Bool) (d : Daemon) (events : List Event) : Daemon :=
  events.foldl (step wildcard) d

end LibWrt.Unetmsg
