/-
LibWrt.Unetmsg.Peers — what a peer tells.

A connection comes, authenticates, and then enables and disables names.
`Told` is what the last two do to the names of a channel and to the remote
handles, and `Greeted` what the first authentication does: whatever the host
had told before, over any channel, is gone. `rxRequest_waiting` and
`rxRequest_pubsub` say what the request of a connection does.
-/
import LibWrt.Unetmsg.Networks

namespace LibWrt.Unetmsg

open Option Nat Prod Function

/-- The peers that a host may have names with. -/
def Allowed (wildcard : String → String → Bool) (d : Daemon) (k : String × String)
    (name : String) : Prop :=
  ∃ peers peer, d.peersOf k.1 = some peers ∧ peers.get? k.2 = some peer ∧
    peer.allows wildcard name = true

/-- A name is enabled on a registered channel, or it is disabled. -/
structure Told (d d' : Daemon) (k : String × String) (kind : Kind) (name : String)
    (enabled : Bool) : Prop where
  ok : RxOk d'
  rxChan : ∀ k', d'.rxChan k' = d.rxChan k'
  names : ∀ name', name' ∈ d'.names k kind ↔
    if name' = name then enabled = true else name' ∈ d.names k kind
  names_kept : ∀ k' kind', (k', kind') ≠ (k, kind) → d'.names k' kind' = d.names k' kind'
  entry : d'.entry kind name k.2 = if enabled then some k.1 else none
  entry_kept : ∀ kind' name' host, (kind', name', host) ≠ (kind, name, k.2) →
    d'.entry kind' name' host = d.entry kind' name' host
  peersOf : ∀ network, d'.peersOf network = d.peersOf network
  same : TxSame d d'

/-- An incoming channel is registered that was not authenticated before. -/
structure Greeted (d d' : Daemon) (k : String × String) : Prop where
  ok : RxOk d'
  names : ∀ kind, d'.names k kind = []
  names_kept : ∀ k', k' ≠ k → ∀ kind, d'.names k' kind = d.names k' kind
  entry : ∀ kind name, d'.entry kind name k.2 = none
  entry_kept : ∀ host, host ≠ k.2 → ∀ kind name, d'.entry kind name host = d.entry kind name host
  peersOf : ∀ network, d'.peersOf network = d.peersOf network
  same : TxSame d d'

/-! ## Names -/

theorem entry_setRemote (d : Daemon) (kind : Kind) (name host : String) (network : Option String)
    (kind' : Kind) (name' host' : String) :
    (setRemote d kind name host network).entry kind' name' host' =
      if (kind', name', host') = (kind, name, host) then network
      else d.entry kind' name' host' := by
  simp only [Daemon.entry, setRemote, Prod.mk.injEq]
  by_cases hkind : kind' = kind
  · subst kind'
    simp only [update_self, Dict.get?_set, true_and]
    by_cases hname : name' = name
    · subst name'
      simp only [if_pos, bind_some, true_and]
      cases (d.remote kind).get? name <;> cases network <;> simp [Dict.get?_set, Dict.get?_del]
    · simp [hname]
  · simp [hkind]

theorem setRemote_same (d : Daemon) (kind : Kind) (name host : String) (network : Option String) :
    TxSame d (setRemote d kind name host network) :=
  ⟨rfl, fun _ => rfl, rfl, rfl, le_refl _, [], by simp, rfl⟩

variable {d d' : Daemon} {chan : Nat} {conn : RxConn}

theorem RxOk.of_eq (h : RxOk d) (hrx : d'.rx = d.rx) (hnetworks : d'.networks = d.networks)
    (hnext : d.next ≤ d'.next) : RxOk d' := by
  refine ⟨?_, ?_⟩
  · rw [hrx, rxChan_congr hnetworks]
    exact h.registry.mono hnext
  · rw [hrx]
    exact h.lists

theorem names_congr (hrx : d'.rx = d.rx) (hnetworks : d'.networks = d.networks) :
    d'.names = d.names := by
  funext k kind
  simp only [Daemon.names, hrx, rxChan_congr hnetworks]

theorem names_setRx (h : RxOk d) {k : String × String} (hreg : d.rxChan k = some chan)
    (conn : RxConn) (k' : String × String) (kind : Kind) :
    (setRx d chan conn).names k' kind = if k' = k then conn.lists kind else d.names k' kind := by
  have hsame : (setRx d chan conn).rxChan = d.rxChan := rfl
  split
  · subst k'
    exact names_of_reg (hsame ▸ hreg) (Dict.get?_set_self _ _ _) kind
  · rename_i hne
    simp only [Daemon.names, hsame]
    cases hreg' : d.rxChan k' with
    | none => rfl
    | some chan' =>
      have hchan : chan' ≠ chan := by
        rintro rfl
        exact hne (h.registry.key_unique hreg' hreg)
      simp only [setRx, bind_some, Dict.get?_set_ne _ hchan]

theorem told_of_set {d₁ d₂ : Daemon} (h : RxOk d) (hget : d.rx.get? chan = some conn)
    (hauth : conn.auth = true) {kind : Kind} {name : String} {enabled : Bool} {names : List String}
    (hnames : ∀ name', name' ∈ names ↔
      if name' = name then enabled = true else name' ∈ conn.lists kind) (hbefore : Calls d d₁)
    (hafter : Calls (setRemote d₁ kind name conn.name
      (if enabled then some conn.network else none)) d₂) :
    Told d (setRx d₂ chan (conn.setList kind names)) (conn.network, conn.name) kind name enabled := by
  have hreg := h.rxChan_of_auth hget hauth
  have hsame := (hbefore.txSame.trans (setRemote_same _ kind name conn.name _)).trans hafter.txSame
  obtain ⟨outs, -, rfl⟩ := hbefore
  obtain ⟨outs', -, rfl⟩ := hafter
  generalize hd₂ : ({ setRemote _ _ _ _ _ with log := _ } : Daemon) = d₂ at hsame ⊢
  have hrx : d₂.rx = d.rx := by rw [← hd₂]; rfl
  have hnetworks : d₂.networks = d.networks := by rw [← hd₂]; rfl
  have hentry : ∀ kind' name' host, d₂.entry kind' name' host =
      if (kind', name', host) = (kind, name, conn.name) then
        (if enabled then some conn.network else none) else d.entry kind' name' host := by
    intro kind' name' host
    rw [← hd₂]
    exact entry_setRemote _ kind name conn.name _ kind' name' host
  have hok₂ : RxOk d₂ := h.of_eq hrx hnetworks hsame.next
  have hreg₂ : d₂.rxChan (conn.network, conn.name) = some chan := by
    rw [rxChan_congr hnetworks, hreg]
  have hold : d.names (conn.network, conn.name) kind = conn.lists kind := names_of_reg hreg hget kind
  have hnamesOf := names_setRx hok₂ hreg₂ (conn.setList kind names)
  refine ⟨⟨?_, ?_⟩, ?_, ?_, ?_, ?_, ?_, ?_, ?_⟩
  · have hkey : (conn.setList kind names).key = conn.key := rfl
    have hget₂ : d₂.rx.get? chan = some conn := by rw [hrx, hget]
    exact hok₂.registry.set_of_key_eq hget₂ hkey
  · intro chan' conn' hget' hauth'
    simp only [setRx, Dict.get?_set, hrx] at hget'
    split at hget'
    · cases hget'
      exact absurd hauth' (by simpa [RxConn.setList] using hauth)
    · exact h.lists chan' conn' hget' hauth'
  · exact fun k => congrFun (rxChan_congr hnetworks) k
  · intro name'
    rw [hnamesOf, if_pos rfl, hold]
    simpa [RxConn.setList] using hnames name'
  · intro k' kind' hne
    rw [hnamesOf, names_congr hrx hnetworks]
    split
    · subst k'
      have hkind : kind' ≠ kind := fun hc => hne (by rw [hc])
      simp only [RxConn.setList, update_of_ne hkind]
      exact (names_of_reg hreg hget kind').symm
    · rfl
  · exact (hentry kind name conn.name).trans (if_pos rfl)
  · intro kind' name' host hne
    exact (hentry kind' name' host).trans (if_neg hne)
  · exact fun network => congrFun (peersOf_congr hnetworks) network
  · exact ⟨hsame.tx, hsame.txChan, hsame.handles, hsame.clients, hsame.next, hsame.log⟩

/-! ## Authentication -/

/-- The old channel of the host is closed first. -/
theorem checkAuth_eq {net : Net} (hnet : d.networks.get? conn.network = some net)
    (hpeer : (net.peers.get? conn.name).isNone = false) :
    checkAuth d chan conn = ((closeRx conn.network conn.name d).networks.get? conn.network).map
      fun net => setNet (rxCleanupState
        (setRx (closeRx conn.network conn.name d) chan { conn with auth := true }) conn.name)
        conn.network { net with rxChannels := net.rxChannels.set conn.name chan } := by
  have hclose := closeRx_eq d (conn.network, conn.name)
  rw [rxChan_of_get? hnet rfl] at hclose
  simp only at hclose
  rw [hclose]
  simp only [checkAuth, hnet, hpeer, Bool.false_eq_true, if_false, rxCleanupState_networks]
  cases net.rxChannels.get? conn.name with
  | none =>
    simp only [setRx, hnet]
    rfl
  | some old =>
    simp only [setRx]
    cases (rxSocketClose d old).networks.get? conn.network <;> rfl

theorem setRx_same (d : Daemon) (chan : Nat) (conn : RxConn) : TxSame d (setRx d chan conn) :=
  ⟨rfl, fun _ => rfl, rfl, rfl, le_refl _, [], by simp, rfl⟩

theorem RxOk.register (h : RxOk d) (hget : d.rx.get? chan = some conn) (hauth : conn.auth = false)
    (hfree : d.rxChan (conn.network, conn.name) = none)
    (hrxChan : ∀ k, d'.rxChan k = if k = (conn.network, conn.name) then some chan else d.rxChan k)
    (hrx : d'.rx = d.rx.set chan { conn with auth := true }) (hnext : d.next ≤ d'.next) :
    RxOk d' ∧ ∀ k kind, d'.names k kind =
      if k = (conn.network, conn.name) then [] else d.names k kind := by
  have hkey : ({ conn with auth := true } : RxConn).key = some (conn.network, conn.name) := rfl
  have hold : ∀ old, d.rx.get? chan = some old → old.key = none := by
    intro old hget'
    rw [hget, some.injEq] at hget'
    simp [RxConn.key, ← hget', hauth]
  have hlists := h.lists chan conn hget hauth
  refine ⟨⟨?_, ?_⟩, ?_⟩
  · rw [hrx]
    exact h.registry.register hold hkey hfree
      ((h.registry.lt_next chan conn hget).trans_le hnext) hnext hrxChan
  · intro chan' conn' hget' hauth'
    rw [hrx, Dict.get?_set] at hget'
    split at hget'
    · cases hget'
      cases hauth'
    · exact h.lists chan' conn' hget' hauth'
  · intro k kind
    split
    · subst k
      rw [names_of_reg ((hrxChan _).trans (if_pos rfl)) (hrx ▸ Dict.get?_set_self _ _ _)]
      exact hlists kind
    · rename_i hk
      have hreg : d'.rxChan k = d.rxChan k := (hrxChan k).trans (if_neg hk)
      cases hreg' : d.rxChan k with
      | none => rw [names_of_none hreg', names_of_none (hreg.trans hreg')]
      | some chan' =>
        have hne : chan' ≠ chan := by
          rintro rfl
          obtain ⟨conn', hget', hkey'⟩ := h.registry.get?_of_reg hreg'
          rw [hold conn' hget'] at hkey'
          cases hkey'
        simp only [Daemon.names, hreg, hreg', hrx, bind_some, Dict.get?_set_ne _ hne]

theorem checkAuth_greeted (h : RxOk d) (hget : d.rx.get? chan = some conn)
    (hauth : conn.auth = false) (hcheck : checkAuth d chan conn = some d') :
    Greeted d d' (conn.network, conn.name) := by
  have hclosed := closeRx_closed h (conn.network, conn.name)
  have hget₁ := hclosed.waiting chan conn hget hauth
  have hnone := hclosed.rxChan (conn.network, conn.name) rfl
  obtain ⟨net, hnet, rfl⟩ : ∃ net, (closeRx conn.network conn.name d).networks.get? conn.network =
      some net ∧ setNet (rxCleanupState
        (setRx (closeRx conn.network conn.name d) chan { conn with auth := true }) conn.name)
        conn.network { net with rxChannels := net.rxChannels.set conn.name chan } = d' := by
    unfold checkAuth at hcheck
    cases hnet : d.networks.get? conn.network with
    | none => simp [hnet] at hcheck
    | some net =>
      cases hpeer : (net.peers.get? conn.name).isNone with
      | true => simp [hnet, hpeer] at hcheck
      | false =>
        change checkAuth d chan conn = some d' at hcheck
        rw [checkAuth_eq hnet hpeer] at hcheck
        exact map_eq_some_iff.mp hcheck
  generalize closeRx _ _ d = d₁ at hclosed hget₁ hnone hnet
  have hnetworks : (rxCleanupState (setRx d₁ chan { conn with auth := true }) conn.name).networks =
      d₁.networks := rxCleanupState_networks _ _
  have hrx : (rxCleanupState (setRx d₁ chan { conn with auth := true }) conn.name).rx =
      d₁.rx.set chan { conn with auth := true } := rxCleanupState_rx _ _
  have hentry : ∀ kind name host,
      (rxCleanupState (setRx d₁ chan { conn with auth := true }) conn.name).entry kind name host =
        if host = conn.name then none else d₁.entry kind name host :=
    fun kind name host => rxCleanupState_entry _ conn.name kind name host
  have hsame := (setRx_same d₁ chan { conn with auth := true }).trans
    (rxCleanupState_same _ conn.name)
  generalize rxCleanupState _ _ = d₂ at hnetworks hrx hentry hsame
  rw [← hnetworks] at hnet
  have hset : TxSame d₂ (setNet d₂ conn.network
      { net with rxChannels := net.rxChannels.set conn.name chan }) := .setNet hnet rfl
  have hrxChan : ∀ k, (setNet d₂ conn.network
      { net with rxChannels := net.rxChannels.set conn.name chan }).rxChan k =
        if k = (conn.network, conn.name) then some chan else d₁.rxChan k := by
    intro k
    rw [rxChan_setNet, ← rxChan_congr hnetworks]
    by_cases hk : k.1 = conn.network
    · rw [if_pos hk, Dict.get?_set, rxChan_of_get? hnet hk]
      by_cases hk' : k.2 = conn.name
      · rw [if_pos hk', if_pos (Prod.ext hk hk')]
      · rw [if_neg hk', if_neg fun hc => hk' (congrArg snd hc)]
    · rw [if_neg hk, if_neg fun hc => hk (congrArg fst hc)]
  obtain ⟨hok, hnames⟩ := hclosed.ok.register hget₁ hauth hnone hrxChan hrx hsame.next
  refine ⟨hok, ?_, ?_, ?_, ?_, ?_, (hclosed.same.trans hsame).trans hset⟩
  · intro kind
    rw [hnames, if_pos rfl]
  · intro k' hk kind
    rw [hnames, if_neg hk]
    exact hclosed.names_kept k' hk kind
  · intro kind name
    exact (hentry kind name conn.name).trans (if_pos rfl)
  · intro host hhost kind name
    refine (hentry kind name host).trans ((if_neg hhost).trans ?_)
    refine hclosed.entry_kept host (fun network hmem => ?_) kind name
    exact absurd (congrArg snd hmem) hhost
  · intro network
    rw [peersOf_setNet_rx hnet, peersOf_congr hnetworks, hclosed.peersOf]

/-- A host that is a peer of the network. -/
def Known (d : Daemon) (k : String × String) : Prop :=
  ∃ peers peer, d.peersOf k.1 = some peers ∧ peers.get? k.2 = some peer

theorem checkAuth_of_known (h : RxOk d) (chan : Nat) (conn : RxConn) :
    (∃ d', checkAuth d chan conn = some d') ↔ Known d (conn.network, conn.name) := by
  cases hnet : d.networks.get? conn.network with
  | none => simp [checkAuth, Known, Daemon.peersOf, hnet]
  | some net =>
    cases hpeer : net.peers.get? conn.name with
    | none => simp [checkAuth, Known, Daemon.peersOf, hnet, hpeer]
    | some peer =>
      have hpeers := (closeRx_closed h (conn.network, conn.name)).peersOf conn.network
      rw [checkAuth_eq hnet (by simp [hpeer])]
      simp only [Known, peersOf_of_get? hnet, some.injEq, exists_and_left, exists_eq_left',
        hpeer, exists_eq', iff_true]
      rw [peersOf_of_get? hnet] at hpeers
      obtain ⟨net', hnet', -⟩ := map_eq_some_iff.mp hpeers
      exact ⟨_, map_eq_some_iff.mpr ⟨net', hnet', rfl⟩⟩

/-! ## Requests -/

section Requests

variable {wildcard : String → String → Bool} {d : Daemon} {chan : Nat} {conn : RxConn}

/-- A request that changes the names of a channel. -/
def Sets (wildcard : String → String → Bool) (d : Daemon) (k : String × String) (kind : Kind)
    (name : String) (enabled : Bool) : Prop :=
  name ≠ "" ∧
    if enabled then name ∉ d.names k kind ∧ Allowed wildcard d k name else name ∈ d.names k kind

theorem allowed_iff {net : Net} (hnet : d.networks.get? conn.network = some net) (name : String) :
    Allowed wildcard d (conn.network, conn.name) name ↔
      ∃ peer, net.peers.get? conn.name = some peer ∧ peer.allows wildcard name = true := by
  simp [Allowed, peersOf_of_get? hnet]

variable (wildcard) in
theorem peerEnable_spec (h : RxOk d) (hget : d.rx.get? chan = some conn) (hauth : conn.auth = true)
    {net : Net} (hnet : d.networks.get? conn.network = some net) (kind : Kind) (name : String) :
    (name ∈ conn.lists kind → Calls d (peerEnable wildcard d net chan conn kind name)) ∧
    (name ∉ conn.lists kind → ¬ Allowed wildcard d (conn.network, conn.name) name →
      peerEnable wildcard d net chan conn kind name = d) ∧
    (name ∉ conn.lists kind → Allowed wildcard d (conn.network, conn.name) name →
      Told d (peerEnable wildcard d net chan conn kind name) (conn.network, conn.name) kind name
        true) := by
  rw [allowed_iff hnet]
  refine ⟨fun hmem => ?_, fun hmem hnot => ?_, fun hmem hallowed => ?_⟩
  · simp only [peerEnable, if_pos hmem]
    split
    · exact calls_handlePublish d none name
    · exact .refl d
  · simp only [peerEnable, if_neg hmem]
    cases hpeer : net.peers.get? conn.name with
    | none => rfl
    | some peer =>
      have hallows : peer.allows wildcard name = false := by
        simpa [hpeer] using hnot
      simp [hallows]
  · obtain ⟨peer, hpeer, hallows⟩ := hallowed
    simp only [peerEnable, if_neg hmem, hpeer, hallows, Bool.not_true, Bool.false_eq_true, if_false]
    have hafter : Calls (setRemote d kind name conn.name
        (if true then some conn.network else none))
        (if (txAuth d net conn.name && decide (kind = Kind.publish)) = true then
          handlePublish (setRemote d kind name conn.name (some conn.network)) none name
        else setRemote d kind name conn.name (some conn.network)) := by
      simp only [if_true]
      split
      · exact calls_handlePublish _ none name
      · exact .refl _
    refine told_of_set h hget hauth ?_ (.refl d) hafter
    intro name'
    by_cases hname : name' = name <;> simp [hname]

theorem peerDisable_spec (h : RxOk d) (hget : d.rx.get? chan = some conn)
    (hauth : conn.auth = true) (kind : Kind) (name : String) :
    (name ∉ conn.lists kind → peerDisable d chan conn kind name = d) ∧
    (name ∈ conn.lists kind →
      Told d (peerDisable d chan conn kind name) (conn.network, conn.name) kind name false) := by
  refine ⟨fun hmem => ?_, fun hmem => ?_⟩
  · simp only [peerDisable, if_pos hmem]
  · simp only [peerDisable, hmem, not_true_eq_false, if_false]
    refine told_of_set h hget hauth ?_ ?_ (.refl _)
    · intro name'
      by_cases hname : name' = name <;> simp [hname]
    · split
      · exact calls_handlePublish d none name
      · exact .refl d

theorem rxRequest_of_auth (hget : d.rx.get? chan = some conn) (hauth : conn.auth = true)
    (req : PeerRequest) :
    rxRequest wildcard d chan req = socketHandleRequest wildcard d chan conn req := by
  simp only [rxRequest, hget, hauth, if_true]

variable (wildcard) in
/-- A name is enabled or disabled, or it is already; one that is not allowed has no effect. -/
theorem rxRequest_pubsub (h : RxOk d) (hget : d.rx.get? chan = some conn)
    (hauth : conn.auth = true) (kind : Kind) (name : String) (enabled : Bool) :
    let k := (conn.network, conn.name)
    let d' := rxRequest wildcard d chan (.pubsub kind name enabled)
    (Sets wildcard d k kind name enabled → Told d d' k kind name enabled) ∧
      (¬ Sets wildcard d k kind name enabled → Calls d d') ∧
      (name ∉ d.names k kind → ¬ Allowed wildcard d k name → d' = d) := by
  have hreg := h.rxChan_of_auth hget hauth
  obtain ⟨net, hnet, -⟩ := RxOk.network_of_rxChan hreg
  have hnames : d.names (conn.network, conn.name) kind = conn.lists kind :=
    names_of_reg hreg hget kind
  simp only [rxRequest_of_auth hget hauth, socketHandleRequest, hnet, Sets, hnames]
  by_cases hname : name = ""
  · subst name
    exact ⟨fun hsets => absurd rfl hsets.1, fun _ => .refl d, fun _ _ => rfl⟩
  simp only [ne_eq, hname, if_false, not_false_eq_true, true_and]
  cases enabled with
  | true =>
    obtain ⟨hagain, hnot, htold⟩ := peerEnable_spec wildcard h hget hauth hnet kind name
    simp only [if_true]
    refine ⟨fun hsets => htold hsets.1 hsets.2, fun hsets => ?_, hnot⟩
    by_cases hmem : name ∈ conn.lists kind
    · exact hagain hmem
    · rw [hnot hmem fun hallowed => hsets ⟨hmem, hallowed⟩]
      exact .refl d
  | false =>
    obtain ⟨hnot, htold⟩ := peerDisable_spec h hget hauth kind name
    simp only [Bool.false_eq_true, if_false]
    refine ⟨htold, fun hmem => ?_, fun hmem _ => hnot hmem⟩
    rw [hnot hmem]
    exact .refl d

/-- What a peer asks for is passed on to the clients. -/
theorem rxRequest_calls (hget : d.rx.get? chan = some conn) (hauth : conn.auth = true)
    {req : PeerRequest} (hreq : ∀ kind name enabled, req ≠ .pubsub kind name enabled) :
    Calls d (rxRequest wildcard d chan req) := by
  rw [rxRequest_of_auth hget hauth]
  cases req with
  | pubsub kind name enabled => exact absurd rfl (hreq kind name enabled)
  | request name =>
    simp only [socketHandleRequest]
    split
    · exact .refl d
    · exact calls_handleCall d ..
  | message name =>
    simp only [socketHandleRequest]
    split
    · exact .refl d
    · exact calls_handleCall d ..
  | _ => exact .refl d

variable (wildcard) in
theorem rxRequest_waiting (h : RxOk d) (hget : d.rx.get? chan = some conn)
    (hauth : conn.auth = false) (req : PeerRequest) :
    let k := (conn.network, conn.name)
    let d' := rxRequest wildcard d chan req
    (req = .auth true → Known d k → Greeted d d' k) ∧
      (¬ (req = .auth true ∧ Known d k) → d' = d ∨ d' = rxSocketClose d chan) := by
  have hknown := checkAuth_of_known h chan conn
  simp only [rxRequest, hget, hauth, Bool.false_eq_true, if_false]
  refine ⟨?_, ?_⟩
  · rintro rfl hk
    obtain ⟨d', hcheck⟩ := hknown.mpr hk
    simp only [hcheck, getD_some]
    exact checkAuth_greeted h hget hauth hcheck
  · intro hnot
    split
    · exact .inl rfl
    · right
      cases hcheck : checkAuth d chan conn with
      | none => rfl
      | some d' => exact absurd ⟨rfl, hknown.mp ⟨d', hcheck⟩⟩ hnot
    · exact .inr rfl

theorem rxRequest_of_none (hget : d.rx.get? chan = none) (req : PeerRequest) :
    rxRequest wildcard d chan req = d := by
  simp only [rxRequest, hget]

end Requests

/-! ## A connection comes -/

theorem networkAccept_spec (h : RxOk d) (network src name : String) :
    let d' := networkAccept d network src name
    RxOk d' ∧ TxSame d d' ∧ (∀ k kind, d'.names k kind = d.names k kind) ∧
      (∀ kind name host, d'.entry kind name host = d.entry kind name host) ∧
      ∀ network, d'.peersOf network = d.peersOf network := by
  simp only
  unfold networkAccept
  split
  · exact ⟨h, .refl d, fun _ _ => rfl, fun _ _ _ => rfl, fun _ => rfl⟩
  split
  · exact ⟨h, .refl d, fun _ _ => rfl, fun _ _ _ => rfl, fun _ => rfl⟩
  have hnext := h.registry.get?_next
  refine ⟨⟨?_, ?_⟩, ?_, ?_, fun _ _ _ => rfl, fun _ => rfl⟩
  · refine h.registry.set_of_key_none ?_ rfl (lt_succ_self _) (le_succ _)
    intro old hget
    rw [hnext] at hget
    cases hget
  · intro chan conn hget hauth
    simp only [setRx, Dict.get?_set] at hget
    split at hget
    · cases hget
      exact fun _ => rfl
    · exact h.lists chan conn hget hauth
  · exact ⟨rfl, fun _ => rfl, rfl, rfl, le_succ _, [], by simp, rfl⟩
  · intro k kind
    change (setRx d d.next _).names k kind = _
    have hsame : ∀ conn, (setRx d d.next conn).rxChan k = d.rxChan k := fun _ => rfl
    cases hreg : d.rxChan k with
    | none => exact (names_of_none ((hsame _).trans hreg) kind).trans (names_of_none hreg kind).symm
    | some chan =>
      obtain ⟨conn, hget, -⟩ := h.get?_of_rxChan hreg
      have hne : chan ≠ d.next := (h.registry.lt_next chan conn hget).ne
      rw [names_of_reg hreg hget]
      exact names_of_reg ((hsame _).trans hreg) ((Dict.get?_set_ne _ hne _).trans hget) kind

end LibWrt.Unetmsg
