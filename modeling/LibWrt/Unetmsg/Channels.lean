/-
LibWrt.Unetmsg.Channels — the channels that are registered.

A network and a host give the key of a channel. What is told to the peers, and
what they tell, are two sides of the broker that change on their own:
`TxSame` is for a step that leaves the first one alone, `RxSame` for one that
leaves the second one. On both sides the registered channels are a `Registry`,
in every state that is reached (`rxOk_run`, `txOk_run`).
-/
import Mathlib.Data.Set.Insert
import LibWrt.Lib.Registry
import LibWrt.Unetmsg.Core

namespace LibWrt.Unetmsg

open Option Prod Set List

/-! ## Views of a state -/

def Daemon.rxChan (d : Daemon) (k : String × String) : Option Nat :=
  (d.networks.get? k.1).bind fun net => net.rxChannels.get? k.2

def Daemon.txChan (d : Daemon) (k : String × String) : Option Nat :=
  (d.networks.get? k.1).bind fun net => net.txChannels.get? k.2

def Daemon.peersOf (d : Daemon) (network : String) : Option (Dict String Peer) :=
  (d.networks.get? network).map fun net => net.peers

def Daemon.entry (d : Daemon) (kind : Kind) (name host : String) : Option String :=
  ((d.remote kind).get? name).bind fun hosts => hosts.get? host

/-- An incoming connection is registered once it is authenticated. -/
def RxConn.key (conn : RxConn) : Option (String × String) :=
  if conn.auth then some (conn.network, conn.name) else none

def TxConn.key (conn : TxConn) : Option (String × String) := some (conn.network, conn.name)

/-- The outputs that a client gets, or a host for its clients. -/
def Output.isCall : Output → Bool
  | .deliver .. => true
  | .forward .. => true
  | _ => false

section SetNet

variable (d : Daemon) (name : String) (net : Net)

theorem rxChan_setNet (k : String × String) :
    (setNet d name net).rxChan k = if k.1 = name then net.rxChannels.get? k.2 else d.rxChan k := by
  simp only [Daemon.rxChan, setNet, Dict.get?_set]
  split <;> rfl

theorem txChan_setNet (k : String × String) :
    (setNet d name net).txChan k = if k.1 = name then net.txChannels.get? k.2 else d.txChan k := by
  simp only [Daemon.txChan, setNet, Dict.get?_set]
  split <;> rfl

theorem peersOf_setNet (network : String) :
    (setNet d name net).peersOf network =
      if network = name then some net.peers else d.peersOf network := by
  simp only [Daemon.peersOf, setNet, Dict.get?_set]
  split <;> rfl

end SetNet

section Views

variable {d : Daemon} {name : String} {net : Net}

theorem rxChan_of_get? (hnet : d.networks.get? name = some net) {k : String × String}
    (hk : k.1 = name) : d.rxChan k = net.rxChannels.get? k.2 := by
  simp [Daemon.rxChan, hk, hnet]

theorem txChan_of_get? (hnet : d.networks.get? name = some net) {k : String × String}
    (hk : k.1 = name) : d.txChan k = net.txChannels.get? k.2 := by
  simp [Daemon.txChan, hk, hnet]

theorem peersOf_of_get? (hnet : d.networks.get? name = some net) :
    d.peersOf name = some net.peers := by
  simp [Daemon.peersOf, hnet]

end Views

/-! ## Steps that leave a side alone -/

/-- Clients get something, and that is all. -/
def Calls (d d' : Daemon) : Prop :=
  ∃ outs : List Output, (∀ o ∈ outs, o.isCall = true) ∧ d' = { d with log := outs ++ d.log }

/-- What is told to the peers stays, and so does what they have to be told. -/
structure TxSame (d d' : Daemon) : Prop where
  tx : d'.tx = d.tx
  txChan : ∀ k, d'.txChan k = d.txChan k
  handles : d'.handles = d.handles
  clients : d'.clients = d.clients
  next : d.next ≤ d'.next
  log : ∃ outs : List Output, (∀ o ∈ outs, o.isCall = true) ∧ d'.log = outs ++ d.log

structure RxSame (d d' : Daemon) : Prop where
  rx : d'.rx = d.rx
  rxChan : ∀ k, d'.rxChan k = d.rxChan k
  peersOf : ∀ network, d'.peersOf network = d.peersOf network
  remote : d'.remote = d.remote
  next : d.next ≤ d'.next

namespace Calls

variable {d d' d'' : Daemon}

theorem refl (d : Daemon) : Calls d d := ⟨[], by simp, rfl⟩

theorem trans (h : Calls d d') (h' : Calls d' d'') : Calls d d'' := by
  obtain ⟨outs, hcall, rfl⟩ := h
  obtain ⟨outs', hcall', rfl⟩ := h'
  refine ⟨outs' ++ outs, ?_, by simp⟩
  intro o ho
  exact (List.mem_append.mp ho).elim (hcall' o) (hcall o)

theorem txSame (h : Calls d d') : TxSame d d' := by
  obtain ⟨outs, hcall, rfl⟩ := h
  exact ⟨rfl, fun _ => rfl, rfl, rfl, le_refl _, outs, hcall, rfl⟩

theorem rxSame (h : Calls d d') : RxSame d d' := by
  obtain ⟨outs, -, rfl⟩ := h
  exact ⟨rfl, fun _ => rfl, fun _ => rfl, rfl, le_refl _⟩

end Calls

theorem calls_deliveries (d : Daemon) (kind : Kind) (method : Method) (name : String)
    (sender : Option Nat) : ∀ o ∈ deliveries d kind method name sender, o.isCall = true := by
  simp [deliveries, Output.isCall]

theorem calls_handlePublish (d : Daemon) (sender : Option Nat) (name : String) :
    Calls d (handlePublish d sender name) :=
  ⟨_, calls_deliveries d _ _ _ _, rfl⟩

theorem calls_foldl_handlePublish (names : List String) (d : Daemon) :
    Calls d (names.foldl (fun d name => handlePublish d none name) d) := by
  induction names generalizing d with
  | nil => exact .refl d
  | cons name names ih => exact (calls_handlePublish d none name).trans (ih _)

theorem calls_handleCall (d : Daemon) (kind : Kind) (method : Method) (name : String)
    (sender : Option Nat) (remote : Bool) (host : Option String) :
    Calls d (handleCall d kind method name sender remote host) := by
  refine ⟨_, ?_, rfl⟩
  intro o ho
  rcases List.mem_append.mp ho with ho | ho
  · split at ho
    · obtain ⟨chan, -, rfl⟩ := List.mem_map.mp ho
      rfl
    · cases ho
  · split at ho
    · cases ho
    · exact calls_deliveries d _ _ _ _ o ho

namespace TxSame

variable {d d' d'' : Daemon}

theorem refl (d : Daemon) : TxSame d d := (Calls.refl d).txSame

theorem trans (h : TxSame d d') (h' : TxSame d' d'') : TxSame d d'' where
  tx := h'.tx.trans h.tx
  txChan := fun k => (h'.txChan k).trans (h.txChan k)
  handles := h'.handles.trans h.handles
  clients := h'.clients.trans h.clients
  next := h.next.trans h'.next
  log := by
    obtain ⟨outs, hcall, heq⟩ := h.log
    obtain ⟨outs', hcall', heq'⟩ := h'.log
    refine ⟨outs' ++ outs, ?_, by rw [heq', heq, append_assoc]⟩
    intro o ho
    exact (List.mem_append.mp ho).elim (hcall' o) (hcall o)

theorem setNet {name : String} {net net' : Net} (hnet : d.networks.get? name = some net)
    (heq : net'.txChannels = net.txChannels) : TxSame d (setNet d name net') where
  tx := rfl
  txChan := by
    intro k
    rw [txChan_setNet]
    split
    · rw [txChan_of_get? hnet ‹_›, heq]
    · rfl
  handles := rfl
  clients := rfl
  next := le_refl _
  log := ⟨[], by simp, rfl⟩

end TxSame

namespace RxSame

variable {d d' d'' : Daemon}

theorem refl (d : Daemon) : RxSame d d := (Calls.refl d).rxSame

theorem trans (h : RxSame d d') (h' : RxSame d' d'') : RxSame d d'' where
  rx := h'.rx.trans h.rx
  rxChan := fun k => (h'.rxChan k).trans (h.rxChan k)
  peersOf := fun network => (h'.peersOf network).trans (h.peersOf network)
  remote := h'.remote.trans h.remote
  next := h.next.trans h'.next

theorem entry (h : RxSame d d') (kind : Kind) (name host : String) :
    d'.entry kind name host = d.entry kind name host := by
  simp only [Daemon.entry, h.remote]

theorem setNet {name : String} {net net' : Net} (hnet : d.networks.get? name = some net)
    (hrx : net'.rxChannels = net.rxChannels) (hpeers : net'.peers = net.peers) :
    RxSame d (setNet d name net') where
  rx := rfl
  rxChan := by
    intro k
    rw [rxChan_setNet]
    split
    · rw [rxChan_of_get? hnet ‹_›, hrx]
    · rfl
  peersOf := by
    intro network
    rw [peersOf_setNet]
    split
    · subst network
      rw [peersOf_of_get? hnet, hpeers]
    · rfl
  remote := rfl
  next := le_refl _

end RxSame

/-! ## Incoming channels -/

/-- The incoming channels are registered, and tell nothing before. -/
structure RxOk (d : Daemon) : Prop where
  registry : Registry d.rx RxConn.key d.rxChan d.next
  lists : ∀ chan conn, d.rx.get? chan = some conn → conn.auth = false →
    ∀ kind, conn.lists kind = []

def Daemon.names (d : Daemon) (k : String × String) (kind : Kind) : List String :=
  match (d.rxChan k).bind d.rx.get? with
  | some conn => conn.lists kind
  | none => []

variable {d d' : Daemon} {k : String × String} {chan : Nat} {conn : RxConn}

theorem names_of_reg (hreg : d.rxChan k = some chan) (hget : d.rx.get? chan = some conn)
    (kind : Kind) :
    d.names k kind = conn.lists kind := by
  simp [Daemon.names, hreg, hget]

theorem names_of_none (hreg : d.rxChan k = none) (kind : Kind) :
    d.names k kind = [] := by
  simp [Daemon.names, hreg]

theorem RxConn.key_of_auth (hauth : conn.auth = true) :
    conn.key = some (conn.network, conn.name) := by
  simp [RxConn.key, hauth]

theorem RxConn.key_eq_some (hkey : conn.key = some k) :
    conn.auth = true ∧ conn.network = k.1 ∧ conn.name = k.2 := by
  simp only [RxConn.key] at hkey
  split at hkey
  · cases hkey
    exact ⟨‹_›, rfl, rfl⟩
  · cases hkey

namespace RxOk

variable {d d' : Daemon} {chan : Nat} {conn : RxConn} {k : String × String}

theorem rxChan_of_auth (h : RxOk d) (hget : d.rx.get? chan = some conn)
    (hauth : conn.auth = true) : d.rxChan (conn.network, conn.name) = some chan :=
  h.registry.reg_of_get? hget (RxConn.key_of_auth hauth)

theorem get?_of_rxChan (h : RxOk d) (hreg : d.rxChan k = some chan) :
    ∃ conn, d.rx.get? chan = some conn ∧ conn.auth = true ∧ conn.network = k.1 ∧
      conn.name = k.2 := by
  obtain ⟨conn, hget, hkey⟩ := h.registry.get?_of_reg hreg
  exact ⟨conn, hget, RxConn.key_eq_some hkey⟩

theorem network_of_rxChan (hreg : d.rxChan k = some chan) :
    ∃ net, d.networks.get? k.1 = some net ∧ net.rxChannels.get? k.2 = some chan := by
  simpa [Daemon.rxChan, bind_eq_some_iff] using hreg

/-- The side that the peers tell is the same. -/
theorem of_same (h : RxOk d) (hs : RxSame d d') : RxOk d' := by
  have hreg : d'.rxChan = d.rxChan := funext hs.rxChan
  refine ⟨?_, ?_⟩
  · rw [hs.rx, hreg]
    exact h.registry.mono hs.next
  · rw [hs.rx]
    exact h.lists

end RxOk

theorem RxSame.names (hs : RxSame d d') (k : String × String) (kind : Kind) :
    d'.names k kind = d.names k kind := by
  simp only [Daemon.names, hs.rxChan, hs.rx]

def setRxs (d : Daemon) (rx : Dict Nat RxConn) : Daemon := { d with rx }

/-- Of the channels that were registered, those under some keys are closed. -/
structure RxLess (d d' : Daemon) (S : Set (String × String)) : Prop where
  ok : RxOk d'
  rxChan : ∀ k ∈ S, d'.rxChan k = none
  rxChan_kept : ∀ k, k ∉ S → d'.rxChan k = d.rxChan k
  names_kept : ∀ k, k ∉ S → ∀ kind, d'.names k kind = d.names k kind
  /-- A host of a channel that is closed has no entries left, in whatever network. -/
  entry : ∀ k ∈ S, (d.rxChan k).isSome → ∀ kind name, d'.entry kind name k.2 = none
  entry_kept : ∀ host, (∀ network, (network, host) ∈ S → d.rxChan (network, host) = none) →
    ∀ kind name, d'.entry kind name host = d.entry kind name host

/-- The same, and the rest of the broker is left alone. -/
structure RxClosed (d d' : Daemon) (S : Set (String × String)) : Prop extends RxLess d d' S where
  networks : ∀ network, (∀ k ∈ S, k.1 ≠ network) →
    d'.networks.get? network = d.networks.get? network
  peersOf : ∀ network, d'.peersOf network = d.peersOf network
  waiting : ∀ chan conn, d.rx.get? chan = some conn → conn.auth = false →
    d'.rx.get? chan = some conn
  same : TxSame d d'

theorem RxSame.less (hs : RxSame d d') (h : RxOk d) : RxLess d d' ∅ :=
  ⟨h.of_same hs, by simp, fun k _ => hs.rxChan k, fun k _ => hs.names k, by simp,
    fun host _ kind name => hs.entry kind name host⟩

namespace RxLess

variable {d d' d'' : Daemon} {S T : Set (String × String)}

theorem names (h : RxLess d d' S) {k : String × String} (hk : k ∈ S) (kind : Kind) :
    d'.names k kind = [] :=
  names_of_none (h.rxChan k hk) kind

theorem trans (h : RxLess d d' S) (h' : RxLess d' d'' T) : RxLess d d'' (S ∪ T) where
  ok := h'.ok
  rxChan := by
    intro k hk
    by_cases hT : k ∈ T
    · exact h'.rxChan k hT
    · rw [h'.rxChan_kept k hT]
      exact h.rxChan k (hk.resolve_right hT)
  rxChan_kept := by
    intro k hk
    rw [h'.rxChan_kept k (fun hT => hk (.inr hT)), h.rxChan_kept k (fun hS => hk (.inl hS))]
  names_kept := by
    intro k hk kind
    rw [h'.names_kept k (fun hT => hk (.inr hT)), h.names_kept k (fun hS => hk (.inl hS))]
  entry := by
    intro k hk hreg kind name
    by_cases hS : k ∈ S
    · have hnone := h.entry k hS hreg kind name
      by_cases hT : ∃ network, (network, k.2) ∈ T ∧ (d'.rxChan (network, k.2)).isSome
      · obtain ⟨network, hT, hsome⟩ := hT
        exact h'.entry (network, k.2) hT hsome kind name
      · rw [h'.entry_kept k.2 _ kind name, hnone]
        intro network hmem
        by_contra hne
        exact hT ⟨network, hmem, isSome_iff_ne_none.mpr hne⟩
    · exact h'.entry k (hk.resolve_left hS) (by rwa [h.rxChan_kept k hS]) kind name
  entry_kept := by
    intro host hnone kind name
    rw [h'.entry_kept host _ kind name, h.entry_kept host _ kind name]
    · exact fun network hS => hnone network (.inl hS)
    · intro network hT
      by_cases hS : (network, host) ∈ S
      · exact h.rxChan _ hS
      · rw [h.rxChan_kept _ hS]
        exact hnone network (.inr hT)

/-- The keys that count are those of channels that were registered. -/
theorem congr (h : RxLess d d' S) (hST : ∀ k, (d.rxChan k).isSome → (k ∈ S ↔ k ∈ T)) :
    RxLess d d' T where
  ok := h.ok
  rxChan := by
    intro k hk
    by_cases hS : k ∈ S
    · exact h.rxChan k hS
    · rw [h.rxChan_kept k hS]
      by_contra hne
      exact hS ((hST k (isSome_iff_ne_none.mpr hne)).mpr hk)
  rxChan_kept := by
    intro k hk
    by_cases hS : k ∈ S
    · rw [h.rxChan k hS]
      by_contra hne
      exact hk ((hST k (isSome_iff_ne_none.mpr (Ne.symm hne))).mp hS)
    · exact h.rxChan_kept k hS
  names_kept := by
    intro k hk kind
    by_cases hS : k ∈ S
    · rw [h.names hS, names_of_none]
      by_contra hne
      exact hk ((hST k (isSome_iff_ne_none.mpr hne)).mp hS)
    · exact h.names_kept k hS kind
  entry := fun k hk hsome => h.entry k ((hST k hsome).mpr hk) hsome
  entry_kept := by
    intro host hnone kind name
    refine h.entry_kept host ?_ kind name
    intro network hS
    by_contra hne
    exact hne (hnone network ((hST _ (isSome_iff_ne_none.mpr hne)).mp hS))

end RxLess

namespace RxClosed

variable {d d' d'' : Daemon} {S T : Set (String × String)}

theorem refl (h : RxOk d) : RxClosed d d ∅ :=
  ⟨(RxSame.refl d).less h, fun _ _ => rfl, fun _ => rfl, fun _ _ hget _ => hget, .refl d⟩

theorem trans (h : RxClosed d d' S) (h' : RxClosed d' d'' T) : RxClosed d d'' (S ∪ T) where
  toRxLess := h.toRxLess.trans h'.toRxLess
  networks := by
    intro network hne
    rw [h'.networks network fun k hk => hne k (.inr hk), h.networks network fun k hk => hne k (.inl hk)]
  peersOf := fun network => (h'.peersOf network).trans (h.peersOf network)
  waiting := fun chan conn hget hauth =>
    h'.waiting chan conn (h.waiting chan conn hget hauth) hauth
  same := h.same.trans h'.same

end RxClosed

theorem entry_map_del (d : Daemon) (host : String) (kind : Kind) (name host' : String) :
    (({ d with remote := fun kind => (d.remote kind).map fun hosts => hosts.del host } :
      Daemon).entry kind name host') = if host' = host then none else d.entry kind name host' := by
  simp only [Daemon.entry, Dict.get?_map]
  cases (d.remote kind).get? name with
  | none => simp
  | some hosts => simpa using Dict.get?_del hosts host host'

theorem rxCleanupState_calls (d : Daemon) (host : String) :
    Calls { d with remote := fun kind => (d.remote kind).map fun hosts => hosts.del host }
      (rxCleanupState d host) :=
  calls_foldl_handlePublish _ _

theorem rxCleanupState_rx (d : Daemon) (host : String) : (rxCleanupState d host).rx = d.rx := by
  obtain ⟨outs, -, heq⟩ := rxCleanupState_calls d host
  rw [heq]

theorem rxCleanupState_networks (d : Daemon) (host : String) :
    (rxCleanupState d host).networks = d.networks := by
  obtain ⟨outs, -, heq⟩ := rxCleanupState_calls d host
  rw [heq]

theorem rxCleanupState_entry (d : Daemon) (host : String) (kind : Kind) (name host' : String) :
    (rxCleanupState d host).entry kind name host' =
      if host' = host then none else d.entry kind name host' := by
  obtain ⟨outs, -, heq⟩ := rxCleanupState_calls d host
  rw [heq, ← entry_map_del d host kind name host']
  rfl

theorem rxCleanupState_same (d : Daemon) (host : String) : TxSame d (rxCleanupState d host) := by
  obtain ⟨outs, hcall, heq⟩ := rxCleanupState_calls d host
  rw [heq]
  exact ⟨rfl, fun _ => rfl, rfl, rfl, le_refl _, outs, hcall, rfl⟩

theorem rxChan_setNet_del {net : Net} (hnet : d.networks.get? k.1 = some net) (k' : String × String) :
    (setNet d k.1 { net with rxChannels := net.rxChannels.del k.2 }).rxChan k' =
      if k' = k then none else d.rxChan k' := by
  rw [rxChan_setNet]
  by_cases hk : k'.1 = k.1
  · rw [if_pos hk, Dict.get?_del, rxChan_of_get? hnet hk]
    by_cases hk' : k'.2 = k.2
    · rw [if_pos hk', if_pos (Prod.ext hk hk')]
    · rw [if_neg hk', if_neg (fun hc => hk' (congrArg snd hc))]
  · rw [if_neg hk, if_neg (fun hc => hk (congrArg fst hc))]

theorem peersOf_setNet_rx {name : String} {net : Net} (hnet : d.networks.get? name = some net)
    (rxChannels : Dict String Nat) (network : String) :
    (setNet d name { net with rxChannels }).peersOf network = d.peersOf network := by
  rw [peersOf_setNet]
  split
  · subst network
    rw [peersOf_of_get? hnet]
  · rfl

theorem closeRx_eq (d : Daemon) (k : String × String) : closeRx k.1 k.2 d =
    match d.rxChan k with
    | some chan => rxSocketClose d chan
    | none => d := rfl

/-- A registered channel is closed. -/
theorem closeRx_of_reg (h : RxOk d) (hreg : d.rxChan k = some chan) :
    ∃ net, d.networks.get? k.1 = some net ∧
      closeRx k.1 k.2 d = setRxs (rxCleanupState
        (setNet d k.1 { net with rxChannels := net.rxChannels.del k.2 }) k.2) (d.rx.del chan) := by
  obtain ⟨conn, hget, -, hnetwork, hname⟩ := h.get?_of_rxChan hreg
  obtain ⟨net, hnet, hchan⟩ := RxOk.network_of_rxChan hreg
  refine ⟨net, hnet, ?_⟩
  rw [closeRx_eq, hreg]
  simp only [rxSocketClose, rxUnregister, hnet, hchan, hget, hnetwork, hname, setRxs, if_pos,
    rxCleanupState_rx]
  rfl

theorem rxChan_congr (h : d'.networks = d.networks) : d'.rxChan = d.rxChan := by
  unfold Daemon.rxChan
  rw [h]

theorem txChan_congr (h : d'.networks = d.networks) : d'.txChan = d.txChan := by
  unfold Daemon.txChan
  rw [h]

theorem peersOf_congr (h : d'.networks = d.networks) : d'.peersOf = d.peersOf := by
  unfold Daemon.peersOf
  rw [h]

theorem closeRx_closed (h : RxOk d) (k : String × String) :
    RxClosed d (closeRx k.1 k.2 d) {k} := by
  cases hreg : d.rxChan k with
  | none =>
    have heq : closeRx k.1 k.2 d = d := by
      rw [closeRx_eq, hreg]
    rw [heq]
    refine ⟨⟨h, ?_, fun _ _ => rfl, fun _ _ _ => rfl, ?_, fun _ _ _ _ => rfl⟩, fun _ _ => rfl,
      fun _ => rfl, fun _ _ hget _ => hget, .refl d⟩
    · rintro _ rfl
      exact hreg
    · rintro _ rfl hsome
      rw [hreg] at hsome
      cases hsome
  | some chan =>
    obtain ⟨net, hnet, heq⟩ := closeRx_of_reg h hreg
    have hiff : ∀ k', d.rxChan k' = some chan ↔ k' = k := fun k' =>
      ⟨fun hk => h.registry.key_unique hk hreg, fun hk => hk ▸ hreg⟩
    have hnetworks : (closeRx k.1 k.2 d).networks =
        (setNet d k.1 { net with rxChannels := net.rxChannels.del k.2 }).networks := by
      rw [heq]
      exact rxCleanupState_networks _ _
    have hrxChan : ∀ k', (closeRx k.1 k.2 d).rxChan k' = if k' = k then none else d.rxChan k' := by
      intro k'
      rw [rxChan_congr hnetworks, rxChan_setNet_del hnet]
    have hrx : (closeRx k.1 k.2 d).rx = d.rx.del chan := by
      rw [heq]
      rfl
    have hentry : ∀ kind name host, (closeRx k.1 k.2 d).entry kind name host =
        if host = k.2 then none else d.entry kind name host := by
      intro kind name host
      rw [heq]
      exact rxCleanupState_entry
        (setNet d k.1 { net with rxChannels := net.rxChannels.del k.2 }) k.2 kind name host
    have hsame : TxSame d (closeRx k.1 k.2 d) := by
      rw [heq]
      have hset : TxSame d (setNet d k.1 { net with rxChannels := net.rxChannels.del k.2 }) :=
        .setNet hnet rfl
      have hclean := hset.trans (rxCleanupState_same _ k.2)
      exact ⟨hclean.tx, hclean.txChan, hclean.handles, hclean.clients, hclean.next, hclean.log⟩
    refine ⟨⟨⟨?_, ?_⟩, ?_, ?_, ?_, ?_, ?_⟩, ?_, ?_, ?_, hsame⟩
    · rw [hrx]
      exact (h.registry.close chan fun k' => by simp only [hiff, hrxChan]).mono hsame.next
    · intro chan' conn' hget'
      rw [hrx, Dict.get?_del] at hget'
      split at hget'
      · cases hget'
      · exact h.lists chan' conn' hget'
    · rintro _ rfl
      rw [hrxChan, if_pos rfl]
    · intro k' hk
      rw [hrxChan, if_neg (show k' ≠ k from hk)]
    · intro k' hk kind
      have hkept : (closeRx k.1 k.2 d).rxChan k' = d.rxChan k' := by
        rw [hrxChan, if_neg (show k' ≠ k from hk)]
      cases hreg' : d.rxChan k' with
      | none => rw [names_of_none hreg', names_of_none (hkept.trans hreg')]
      | some chan' =>
        have hne : chan' ≠ chan := by
          rintro rfl
          exact hk ((hiff k').mp hreg')
        simp only [Daemon.names, hkept, hreg', hrx, bind_some, Dict.get?_del_ne _ hne]
    · rintro _ rfl - kind name
      rw [hentry, if_pos rfl]
    · intro host hnone kind name
      rw [hentry, if_neg]
      rintro rfl
      rw [hnone k.1 rfl] at hreg
      cases hreg
    · intro network hne
      rw [hnetworks]
      exact Dict.get?_set_ne _ (hne k rfl).symm _
    · intro network
      rw [peersOf_congr hnetworks, peersOf_setNet_rx hnet]
    · intro chan' conn' hget' hauth'
      have hne : chan' ≠ chan := by
        rintro rfl
        obtain ⟨conn, hget, hauth, -⟩ := h.get?_of_rxChan hreg
        rw [hget, some.injEq] at hget'
        rw [← hget', hauth] at hauth'
        cases hauth'
      rw [hrx, Dict.get?_del_ne _ hne, hget']

theorem keys_cons (network host : String) (hosts : List String) :
    {k : String × String | k.1 = network ∧ k.2 ∈ host :: hosts} =
      {(network, host)} ∪ {k | k.1 = network ∧ k.2 ∈ hosts} := by
  ext k
  simp only [mem_cons, mem_ofPred_eq, mem_union, mem_singleton_iff, Prod.ext_iff]
  tauto

theorem closeRx_foldl_closed (network : String) (hosts : List String) (h : RxOk d) :
    RxClosed d (hosts.foldl (fun d host => closeRx network host d) d)
      {k | k.1 = network ∧ k.2 ∈ hosts} := by
  induction hosts generalizing d with
  | nil =>
    have hS : {k : String × String | k.1 = network ∧ k.2 ∈ ([] : List String)} = ∅ := by
      ext k
      simp
    rw [hS]
    exact .refl h
  | cons host hosts ih =>
    have hone := closeRx_closed h (network, host)
    rw [keys_cons]
    exact hone.trans (ih hone.ok)

/-- A channel that is closed: it is not registered, or its network and host are closed. -/
theorem rxSocketClose_eq (h : RxOk d) (hget : d.rx.get? chan = some conn) : rxSocketClose d chan =
      if conn.auth then closeRx conn.network conn.name d else setRxs d (d.rx.del chan) := by
  split
  · rw [closeRx_eq d (conn.network, conn.name), h.rxChan_of_auth hget ‹_›]
  · have hnot : d.rxChan (conn.network, conn.name) ≠ some chan := by
      intro hreg
      obtain ⟨conn', hget', hauth, -⟩ := h.get?_of_rxChan hreg
      rw [hget, some.injEq] at hget'
      subst conn'
      contradiction
    have hunreg : rxUnregister d chan conn = d := by
      unfold rxUnregister
      cases hnet : d.networks.get? conn.network with
      | none => rfl
      | some net =>
        rw [rxChan_of_get? hnet rfl] at hnot
        exact if_neg hnot
    simp only [rxSocketClose, hget, hunreg, setRxs]

theorem RxOk.setRxs_del (h : RxOk d) (hget : d.rx.get? chan = some conn) (hauth : conn.auth = false) :
    RxOk (setRxs d (d.rx.del chan)) ∧
      ∀ k kind, (setRxs d (d.rx.del chan)).names k kind = d.names k kind := by
  have hnot : ∀ k, d.rxChan k ≠ some chan := by
    intro k hreg
    obtain ⟨conn', hget', hauth', -⟩ := h.get?_of_rxChan hreg
    rw [hget, some.injEq] at hget'
    subst conn'
    rw [hauth] at hauth'
    cases hauth'
  refine ⟨⟨?_, ?_⟩, ?_⟩
  · exact h.registry.close chan fun k => (if_neg (hnot k)).symm
  · intro chan' conn' hget'
    simp only [setRxs, Dict.get?_del] at hget'
    split at hget'
    · cases hget'
    · exact h.lists chan' conn' hget'
  · intro k kind
    have hsame : (setRxs d (d.rx.del chan)).rxChan k = d.rxChan k := rfl
    cases hreg : d.rxChan k with
    | none => rw [names_of_none hreg, names_of_none (hsame.trans hreg)]
    | some chan' =>
      have hne : chan' ≠ chan := fun hc => hnot k (hc ▸ hreg)
      simp only [Daemon.names, hsame, hreg, bind_some]
      rw [show (setRxs d (d.rx.del chan)).rx.get? chan' = d.rx.get? chan' from
        Dict.get?_del_ne _ hne]

/-! ## Outgoing channels -/

/-- The outgoing channels are registered. -/
def TxOk (d : Daemon) : Prop := Registry d.tx TxConn.key d.txChan d.next

theorem TxOk.of_same (h : TxOk d) (hs : TxSame d d') : TxOk d' := by
  have hreg : d'.txChan = d.txChan := funext hs.txChan
  unfold TxOk
  rw [hs.tx, hreg]
  exact Registry.mono h hs.next

/-- No outgoing channel is authenticated that was not, and no peer is told of a name. -/
structure TxQuiet (d d' : Daemon) : Prop where
  ok : TxOk d'
  auth : ∀ chan conn, d'.tx.get? chan = some conn → conn.auth = true → d.tx.get? chan = some conn
  handles : d'.handles = d.handles
  clients : d'.clients = d.clients
  next : d.next ≤ d'.next
  log : ∃ outs : List Output, (∀ o ∈ outs, o.isCall = true) ∧ d'.log = outs ++ d.log

theorem TxSame.quiet (hs : TxSame d d') (h : TxOk d) : TxQuiet d d' :=
  ⟨h.of_same hs, fun _ _ hget _ => hs.tx ▸ hget, hs.handles, hs.clients, hs.next, hs.log⟩

theorem TxQuiet.trans {d'' : Daemon} (h : TxQuiet d d') (h' : TxQuiet d' d'') :
    TxQuiet d d'' where
  ok := h'.ok
  auth := fun chan conn hget hauth => h.auth chan conn (h'.auth chan conn hget hauth) hauth
  handles := h'.handles.trans h.handles
  clients := h'.clients.trans h.clients
  next := h.next.trans h'.next
  log := by
    obtain ⟨outs, hcall, heq⟩ := h.log
    obtain ⟨outs', hcall', heq'⟩ := h'.log
    refine ⟨outs' ++ outs, ?_, by rw [heq', heq, append_assoc]⟩
    intro o ho
    exact (List.mem_append.mp ho).elim (hcall' o) (hcall o)

/-- Outgoing channels are closed, those under some keys among them. -/
structure TxClosed (d d' : Daemon) (S : Set (String × String)) : Prop where
  ok : TxOk d'
  sub : ∀ chan conn, d'.tx.get? chan = some conn → d.tx.get? chan = some conn
  txChan : ∀ k ∈ S, d'.txChan k = none
  networks : ∀ network, (∀ k ∈ S, k.1 ≠ network) →
    d'.networks.get? network = d.networks.get? network
  handles : d'.handles = d.handles
  clients : d'.clients = d.clients
  log : d'.log = d.log
  same : RxSame d d'

namespace TxClosed

variable {d d' d'' : Daemon} {S T : Set (String × String)}

theorem refl (h : TxOk d) : TxClosed d d ∅ :=
  ⟨h, fun _ _ hget => hget, by simp, fun _ _ => rfl, rfl, rfl, rfl, .refl d⟩

/-- No channel is registered that was not. -/
theorem txChan_sub (h : TxClosed d d' S) (hok : TxOk d) {k : String × String} {chan : Nat}
    (hreg : d'.txChan k = some chan) : d.txChan k = some chan := by
  obtain ⟨conn, hget, hkey⟩ := Registry.get?_of_reg h.ok hreg
  exact Registry.reg_of_get? hok (h.sub chan conn hget) hkey

theorem txChan_none (h : TxClosed d d' S) (hok : TxOk d) {k : String × String}
    (hreg : d.txChan k = none) : d'.txChan k = none := by
  cases hreg' : d'.txChan k with
  | none => rfl
  | some chan =>
    rw [h.txChan_sub hok hreg'] at hreg
    cases hreg

theorem trans (h : TxClosed d d' S) (h' : TxClosed d' d'' T) : TxClosed d d'' (S ∪ T) where
  ok := h'.ok
  sub := fun chan conn hget => h.sub chan conn (h'.sub chan conn hget)
  txChan := by
    intro k hk
    rcases hk with hS | hT
    · exact h'.txChan_none h.ok (h.txChan k hS)
    · exact h'.txChan k hT
  networks := by
    intro network hne
    rw [h'.networks network fun k hk => hne k (.inr hk), h.networks network fun k hk => hne k (.inl hk)]
  handles := h'.handles.trans h.handles
  clients := h'.clients.trans h.clients
  log := h'.log.trans h.log
  same := h.same.trans h'.same

theorem quiet (h : TxClosed d d' S) : TxQuiet d d' :=
  ⟨h.ok, fun chan conn hget _ => h.sub chan conn hget, h.handles, h.clients, h.same.next,
    [], by simp, by simp [h.log]⟩

end TxClosed

theorem txSocketClose_same (d : Daemon) (chan : Nat) : RxSame d (txSocketClose d chan) := by
  cases hget : d.tx.get? chan with
  | none =>
    rw [show txSocketClose d chan = d by simp only [txSocketClose, hget]]
    exact .refl d
  | some conn =>
    simp only [txSocketClose, hget]
    cases hnet : d.networks.get? conn.network with
    | none => exact ⟨rfl, fun _ => rfl, fun _ => rfl, rfl, le_refl _⟩
    | some net =>
      simp only
      split
      · have hs : RxSame d (setNet d conn.network
            { net with txChannels := net.txChannels.del conn.name }) := .setNet hnet rfl rfl
        exact ⟨rfl, hs.rxChan, hs.peersOf, rfl, le_refl _⟩
      · exact ⟨rfl, fun _ => rfl, fun _ => rfl, rfl, le_refl _⟩

def setTxs (d : Daemon) (tx : Dict Nat TxConn) : Daemon := { d with tx }

/-- The networks after an outgoing channel is closed. -/
theorem txSocketClose_of_get? (h : TxOk d) {conn : TxConn} (hget : d.tx.get? chan = some conn) :
    ∃ net, d.networks.get? conn.network = some net ∧ txSocketClose d chan =
      setTxs (setNet d conn.network { net with txChannels := net.txChannels.del conn.name })
        (d.tx.del chan) := by
  have hreg : d.txChan (conn.network, conn.name) = some chan := Registry.reg_of_get? h hget rfl
  obtain ⟨net, hnet, hchan⟩ := bind_eq_some_iff.mp hreg
  simp only at hnet hchan
  refine ⟨net, hnet, ?_⟩
  simp only [txSocketClose, hget, hnet, hchan, if_pos, setNet, setTxs]

/-- A connection is closed, and its network and host have no channel any more. -/
theorem txSocketClose_closed (h : TxOk d) {conn : TxConn} (hget : d.tx.get? chan = some conn) :
    TxClosed d (txSocketClose d chan) {(conn.network, conn.name)} := by
  obtain ⟨net, hnet, heq⟩ := txSocketClose_of_get? h hget
  have hreg : d.txChan (conn.network, conn.name) = some chan := Registry.reg_of_get? h hget rfl
  have htxChan : ∀ k, (txSocketClose d chan).txChan k =
      if k = (conn.network, conn.name) then none else d.txChan k := by
    intro k
    rw [heq]
    refine (txChan_setNet d conn.network
      { net with txChannels := net.txChannels.del conn.name } k).trans ?_
    by_cases hk : k.1 = conn.network
    · rw [if_pos hk, Dict.get?_del, txChan_of_get? hnet hk]
      by_cases hk' : k.2 = conn.name
      · rw [if_pos hk', if_pos (Prod.ext hk hk')]
      · rw [if_neg hk', if_neg (fun hc => hk' (congrArg snd hc))]
    · rw [if_neg hk, if_neg (fun hc => hk (congrArg fst hc))]
  have htx : (txSocketClose d chan).tx = d.tx.del chan := by
    rw [heq]
    rfl
  have hsame := txSocketClose_same d chan
  refine ⟨?_, ?_, ?_, ?_, by rw [heq]; rfl, by rw [heq]; rfl, by rw [heq]; rfl, hsame⟩
  · have hclose : Registry (d.tx.del chan) TxConn.key (txSocketClose d chan).txChan d.next := by
      refine Registry.close h chan fun k => ?_
      have hiff : d.txChan k = some chan ↔ k = (conn.network, conn.name) :=
        ⟨fun hk => Registry.key_unique h hk hreg, fun hk => hk ▸ hreg⟩
      simp only [htxChan, hiff]
    unfold TxOk
    rw [htx]
    exact hclose.mono hsame.next
  · intro chan' conn' hget'
    rw [htx, Dict.get?_del] at hget'
    split at hget'
    · cases hget'
    · exact hget'
  · rintro _ rfl
    rw [htxChan, if_pos rfl]
  · intro network hne
    rw [heq]
    exact Dict.get?_set_ne _ (hne _ rfl).symm _

theorem closeTx_eq (d : Daemon) (k : String × String) : closeTx k.1 k.2 d =
    match d.txChan k with
    | some chan => txSocketClose d chan
    | none => d := rfl

theorem closeTx_closed (h : TxOk d) (k : String × String) :
    TxClosed d (closeTx k.1 k.2 d) {k} := by
  rw [closeTx_eq]
  cases hreg : d.txChan k with
  | none =>
    refine ⟨h, fun _ _ hget => hget, ?_, fun _ _ => rfl, rfl, rfl, rfl, .refl d⟩
    rintro _ rfl
    exact hreg
  | some chan =>
    obtain ⟨conn, hget, hkey⟩ := Registry.get?_of_reg h hreg
    have hk : (conn.network, conn.name) = k := some.inj hkey
    rw [← hk]
    exact txSocketClose_closed h hget

theorem closeTx_foldl_closed (network : String) (hosts : List String) (h : TxOk d) :
    TxClosed d (hosts.foldl (fun d host => closeTx network host d) d)
      {k | k.1 = network ∧ k.2 ∈ hosts} := by
  induction hosts generalizing d with
  | nil =>
    have hS : {k : String × String | k.1 = network ∧ k.2 ∈ ([] : List String)} = ∅ := by
      ext k
      simp
    rw [hS]
    exact .refl h
  | cons host hosts ih =>
    have hone := closeTx_closed h (network, host)
    rw [keys_cons]
    exact hone.trans (ih hone.ok)

end LibWrt.Unetmsg
