/-
LibWrt.Unetmsg.Clients — what a local client does, and the runs.

A client changes its handles and the handles of the names, and nothing of the
channels (`Local`). With the other modules this gives that the channels are
registered in every state that is reached (`ok_run`).
-/
import LibWrt.Unetmsg.Peers

namespace LibWrt.Unetmsg

/-- The channels, and what was told over them, are the same. -/
structure Local (d d' : Daemon) : Prop where
  networks : d'.networks = d.networks
  rx : d'.rx = d.rx
  tx : d'.tx = d.tx
  remote : d'.remote = d.remote
  next : d.next ≤ d'.next

namespace Local

variable {d d' d'' : Daemon}

theorem refl (d : Daemon) : Local d d := ⟨rfl, rfl, rfl, rfl, le_refl _⟩

theorem trans (h : Local d d') (h' : Local d' d'') : Local d d'' :=
  ⟨h'.networks.trans h.networks, h'.rx.trans h.rx, h'.tx.trans h.tx, h'.remote.trans h.remote,
    h.next.trans h'.next⟩

theorem of_calls (h : Calls d d') : Local d d' := by
  obtain ⟨outs, -, rfl⟩ := h
  exact ⟨rfl, rfl, rfl, rfl, le_refl _⟩

theorem foldl {α : Type} {f : Daemon → α → Daemon} (hf : ∀ d a, Local d (f d a)) (l : List α)
    (d : Daemon) : Local d (l.foldl f d) := by
  induction l generalizing d with
  | nil => exact refl d
  | cons a l ih => exact (hf d a).trans (ih _)

theorem rxSame (h : Local d d') : RxSame d d' :=
  ⟨h.rx, fun k => congrFun (rxChan_congr h.networks) k,
    fun network => congrFun (peersOf_congr h.networks) network, h.remote, h.next⟩

theorem txOk (h : Local d d') (ht : TxOk d) : TxOk d' := by
  unfold TxOk
  rw [h.tx, txChan_congr h.networks]
  exact Registry.mono ht h.next

end Local

theorem pubsubAdd_local (d : Daemon) (kind : Kind) (name : String) (client : Nat) :
    Local d (pubsubAdd d kind name client).1 := by
  simp only [pubsubAdd]
  split <;> exact ⟨rfl, rfl, rfl, rfl, Nat.le_succ _⟩

theorem pubsubDel_local (d : Daemon) (kind : Kind) (name : String) (handle : Nat) :
    Local d (pubsubDel d kind name handle) := by
  simp only [pubsubDel]
  split <;> exact ⟨rfl, rfl, rfl, rfl, le_refl _⟩

theorem clientAdd_local (kind : Kind) (client : Nat) (d : Daemon) (name : String) :
    Local d (clientAdd kind client d name) := by
  unfold clientAdd
  split
  · exact .refl d
  rename_i cl _
  split
  · exact .refl d
  have hadd := pubsubAdd_local d kind name client
  generalize pubsubAdd d kind name client = r at hadd
  obtain ⟨d', handle⟩ := r
  have hset : Local d { d' with clients := d'.clients.set client { cl with
      lists := Function.update cl.lists kind ((cl.lists kind).set name handle) } } :=
    ⟨hadd.networks, hadd.rx, hadd.tx, hadd.remote, hadd.next⟩
  simp only
  split
  · exact hset.trans (.of_calls (calls_handlePublish _ _ _))
  · exact hset

theorem clientDel_local (kind : Kind) (client : Nat) (d : Daemon) (name : String) (handle : Nat) :
    Local d (clientDel kind client d name handle) := by
  unfold clientDel
  refine Local.trans ?_ (pubsubDel_local _ kind name handle)
  split
  · exact .of_calls (calls_handlePublish d _ _)
  · exact .refl d

theorem clientDisconnect_local (d : Daemon) (client : Nat) :
    Local d (clientDisconnect d client) := by
  unfold clientDisconnect
  split
  · exact .refl d
  rename_i cl _
  have hdrop : ∀ kind d, Local d ((cl.lists kind).entries.foldl
      (fun d e => clientDel kind client d e.1 e.2) d) := fun kind d =>
    Local.foldl (fun d (e : Sigma fun _ : String => Nat) =>
      clientDel_local kind client d e.1 e.2) _ d
  have hboth := (hdrop .publish d).trans (hdrop .subscribe _)
  exact ⟨hboth.networks, hboth.rx, hboth.tx, hboth.remote, hboth.next⟩

theorem clientRequest_calls (d : Daemon) (client : Nat) (method : Method) (name : String)
    (host : Option String) (granted : Bool) :
    Calls d (clientRequest d client method name host granted) := by
  unfold clientRequest
  split
  · split
    · exact .refl d
    · exact calls_handleCall d ..
  · split
    · exact .refl d
    · exact calls_handleCall d ..
  · exact .refl d

/-! ## Outgoing channels -/

def comeUp (d : Daemon) (chan : Nat) (conn : TxConn) : Daemon :=
  { d with
    tx := d.tx.set chan { conn with auth := true }
    log := snapshot d chan ++ Output.up chan :: d.log }

variable {d : Daemon}

theorem authData_calls {chan : Nat} {conn : TxConn} (hget : d.tx.get? chan = some conn) :
    Calls (comeUp d chan conn) (authData d chan) := by
  unfold authData
  simp only [hget]
  exact calls_foldl_handlePublish _ (comeUp d chan conn)

theorem authData_of_none {chan : Nat} (hget : d.tx.get? chan = none) :
    authData d chan = d := by
  simp only [authData, hget]

theorem authData_spec (ht : TxOk d) (chan : Nat) :
    RxSame d (authData d chan) ∧ TxOk (authData d chan) := by
  cases hget : d.tx.get? chan with
  | none =>
    rw [authData_of_none hget]
    exact ⟨.refl d, ht⟩
  | some conn =>
    have hset : RxSame d (comeUp d chan conn) :=
      ⟨rfl, fun _ => rfl, fun _ => rfl, rfl, le_refl _⟩
    have hkey : ({ conn with auth := true } : TxConn).key = conn.key := rfl
    have hok : TxOk (comeUp d chan conn) := Registry.set_of_key_eq ht hget hkey
    have hcalls := authData_calls hget
    exact ⟨hset.trans hcalls.rxSame, hok.of_same hcalls.txSame⟩

theorem txSocketClose_ok (ht : TxOk d) (chan : Nat) : TxQuiet d (txSocketClose d chan) := by
  cases hget : d.tx.get? chan with
  | none =>
    rw [show txSocketClose d chan = d by simp only [txSocketClose, hget]]
    exact (TxSame.refl d).quiet ht
  | some conn => exact (txSocketClose_closed ht hget).quiet

theorem authDone_quiet (ht : TxOk d) (chan : Nat) :
    RxSame d (authDone d chan) ∧ TxQuiet d (authDone d chan) := by
  unfold authDone
  split
  · exact ⟨.refl d, (TxSame.refl d).quiet ht⟩
  split
  · exact ⟨.refl d, (TxSame.refl d).quiet ht⟩
  · exact ⟨txSocketClose_same d chan, txSocketClose_ok ht chan⟩

/-! ## Runs -/

/-- The channels of both sides are registered. -/
structure Ok (d : Daemon) : Prop where
  rx : RxOk d
  tx : TxOk d

theorem Ok.init : Ok .init :=
  ⟨⟨Registry.empty _, by simp [Daemon.init]⟩, Registry.empty _⟩

theorem Local.ok {d' : Daemon} (h : Local d d') (hok : Ok d) : Ok d' :=
  ⟨hok.rx.of_same h.rxSame, h.txOk hok.tx⟩

/-- A connection that is closed, of the peers that tell. -/
theorem rxSocketClose_ok (h : RxOk d) (chan : Nat) :
    RxOk (rxSocketClose d chan) ∧ TxSame d (rxSocketClose d chan) := by
  cases hget : d.rx.get? chan with
  | none =>
    rw [show rxSocketClose d chan = d by simp only [rxSocketClose, hget]]
    exact ⟨h, .refl d⟩
  | some conn =>
    rw [rxSocketClose_eq h hget]
    split
    · have hclosed := closeRx_closed h (conn.network, conn.name)
      exact ⟨hclosed.ok, hclosed.same⟩
    · rename_i hauth
      exact ⟨(h.setRxs_del hget (Bool.not_eq_true _ ▸ hauth)).1,
        ⟨rfl, fun _ => rfl, rfl, rfl, le_refl _, [], by simp, rfl⟩⟩

theorem rxRequest_ok (wildcard : String → String → Bool) (h : RxOk d) (chan : Nat)
    (req : PeerRequest) :
    RxOk (rxRequest wildcard d chan req) ∧ TxSame d (rxRequest wildcard d chan req) := by
  have hcalls : ∀ {d' : Daemon}, Calls d d' → RxOk d' ∧ TxSame d d' :=
    fun hc => ⟨h.of_same hc.rxSame, hc.txSame⟩
  cases hget : d.rx.get? chan with
  | none =>
    rw [rxRequest_of_none hget]
    exact ⟨h, .refl d⟩
  | some conn =>
    cases hauth : conn.auth with
    | false =>
      obtain ⟨hgreet, hclose⟩ := rxRequest_waiting wildcard h hget hauth req
      by_cases hk : req = .auth true ∧ Known d (conn.network, conn.name)
      · have hgreeted := hgreet hk.1 hk.2
        exact ⟨hgreeted.ok, hgreeted.same⟩
      · rcases hclose hk with heq | heq
        · rw [heq]
          exact ⟨h, .refl d⟩
        · rw [heq]
          exact rxSocketClose_ok h chan
    | true =>
      by_cases hreq : ∃ kind name enabled, req = .pubsub kind name enabled
      · obtain ⟨kind, name, enabled, rfl⟩ := hreq
        obtain ⟨htold, hcall, -⟩ :=
          rxRequest_pubsub wildcard h hget hauth kind name enabled
        by_cases hsets : Sets wildcard d (conn.network, conn.name) kind name enabled
        · exact ⟨(htold hsets).ok, (htold hsets).same⟩
        · exact hcalls (hcall hsets)
      · exact hcalls (rxRequest_calls hget hauth fun kind name enabled heq =>
          hreq ⟨kind, name, enabled, heq⟩)

/-- The events of the clients, and of a channel that gets authenticated. -/
def Event.announces : Event → Bool
  | .connect => true
  | .pubsub .. => true
  | .disconnect _ => true
  | .authData _ => true
  | _ => false

/-- Any other event tells no peer of a name. -/
theorem step_quiet (wildcard : String → String → Bool) (h : Ok d) (e : Event)
    (he : e.announces = false) : RxOk (step wildcard d e) ∧ TxQuiet d (step wildcard d e) := by
  have hcalls : ∀ {d' : Daemon}, Calls d d' → RxOk d' ∧ TxQuiet d d' :=
    fun hc => ⟨h.rx.of_same hc.rxSame, hc.txSame.quiet h.tx⟩
  cases e with
  | connect | pubsub | disconnect | authData => cases he
  | call client method name host granted => exact hcalls (clientRequest_calls d ..)
  | accept network src name =>
    obtain ⟨hrx, hsame, -⟩ := networkAccept_spec h.rx network src name
    exact ⟨hrx, hsame.quiet h.tx⟩
  | peer chan req =>
    obtain ⟨hrx, hsame⟩ := rxRequest_ok wildcard h.rx chan req
    exact ⟨hrx, hsame.quiet h.tx⟩
  | rxClosed chan =>
    obtain ⟨hrx, hsame⟩ := rxSocketClose_ok h.rx chan
    exact ⟨hrx, hsame.quiet h.tx⟩
  | authDone chan =>
    obtain ⟨hsame, hquiet⟩ := authDone_quiet h.tx chan
    exact ⟨h.rx.of_same hsame, hquiet⟩
  | txClosed chan =>
    exact ⟨h.rx.of_same (txSocketClose_same d chan), txSocketClose_ok h.tx chan⟩
  | connectPeers network socket =>
    have hstep := (connectPeers_step h.rx h.tx network socket).1
    exact ⟨hstep.rx.ok, hstep.tx⟩
  | update data socket =>
    have hstep := networkUpdates_step h.rx h.tx socket data
    exact ⟨hstep.rx.ok, hstep.tx⟩

theorem connect_local (wildcard : String → String → Bool) (d : Daemon) :
    Local d (step wildcard d .connect) :=
  ⟨rfl, rfl, rfl, rfl, Nat.le_succ _⟩

theorem clientPubsub_local (kind : Kind) (client : Nat) (d : Daemon) (names : List String) :
    Local d (clientPubsub kind client d names) :=
  Local.foldl (clientAdd_local kind client) names d

theorem ok_step (wildcard : String → String → Bool) (h : Ok d) (e : Event) :
    Ok (step wildcard d e) := by
  by_cases he : e.announces = true
  · cases e with
    | connect => exact (connect_local wildcard d).ok h
    | pubsub kind client names => exact (clientPubsub_local kind client d names).ok h
    | disconnect client => exact (clientDisconnect_local d client).ok h
    | authData chan =>
      obtain ⟨hsame, htx⟩ := authData_spec h.tx chan
      exact ⟨h.rx.of_same hsame, htx⟩
    | _ => cases he
  · obtain ⟨hrx, hquiet⟩ := step_quiet wildcard h e (Bool.not_eq_true _ ▸ he)
    exact ⟨hrx, hquiet.ok⟩

theorem run_append (wildcard : String → String → Bool) (d : Daemon) (events : List Event)
    (e : Event) : run wildcard d (events ++ [e]) = step wildcard (run wildcard d events) e := by
  simp [run]

/-- A property that each event keeps holds after any events. -/
theorem run_invariant {wildcard : String → String → Bool} (P : Daemon → Prop)
    (hstep : ∀ d e, P d → P (step wildcard d e)) (hd : P d) (events : List Event) :
    P (run wildcard d events) := by
  induction events generalizing d with
  | nil => exact hd
  | cons e events ih => exact ih (hstep d e hd)

theorem ok_run (wildcard : String → String → Bool) (events : List Event) :
    Ok (run wildcard .init events) :=
  run_invariant Ok (fun _ e h => ok_step wildcard h e) Ok.init events

end LibWrt.Unetmsg
