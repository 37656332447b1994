/-
LibWrt.Unetmsg.Allowed — what a peer may have an effect on.

The patterns of a peer are looked at when it enables a name, and not for a
request or a message. A peer that is left out of an update keeps its channel
if it had no patterns. Where neither happens (`Checked`), the names of a
channel are allowed ones all along, and a peer has no effect on the clients
with any other name (`allowed_run`).
-/
import LibWrt.Unetmsg.Clients
import Mathlib.Tactic.IntervalCases

namespace LibWrt.Unetmsg

open List Option

/-! ## The property -/

def delivered (d : Daemon) : List Output :=
  d.log.filter fun o =>
    match o with
    | .deliver .. => true
    | _ => false

def PeerRequest.name? : PeerRequest → Option String
  | .pubsub _ name _ => some name
  | .request name => some name
  | .message name => some name
  | _ => none

section Property

variable (wildcard : String → String → Bool)

/-- No remote handle is there for a name that its host may not have. -/
def Granted (d : Daemon) : Prop :=
  ∀ kind name network host, d.entry kind name host = some network →
    Allowed wildcard d (network, host) name

/-- No client gets anything for a name that the peer may not have. -/
def Silent (d : Daemon) : Event → Prop
  | .peer chan req => ∀ conn name, d.rx.get? chan = some conn → req.name? = some name →
    ¬ Allowed wildcard d (conn.network, conn.name) name →
    delivered (rxRequest wildcard d chan req) = delivered d
  | _ => True

/-- A request or a message is for an allowed name, or no client gets it; and an update leaves out
no peer whose channel has names and is not closed. -/
def Checked (d : Daemon) : Event → Prop
  | .peer chan req => ∀ conn name, d.rx.get? chan = some conn → conn.auth = true →
    (req = .request name → Allowed wildcard d (conn.network, conn.name) name ∨
      receivers d .publish name none = []) ∧
    (req = .message name → Allowed wildcard d (conn.network, conn.name) name ∨
      receivers d .subscribe name none = [])
  | .update data _ => ∀ k kind, d.names k kind ≠ [] → ¬ Dropped d data k →
    ∀ info, data.get? k.1 = some info → info.localHost ≠ "" →
      ((checkPeers info).peers.get? k.2).isSome
  | _ => True

/-- The names of a channel are allowed ones, and a remote handle is for a name of its channel. -/
structure Lawful (d : Daemon) : Prop where
  listed : ∀ k kind name, name ∈ d.names k kind → Allowed wildcard d k name
  entry : ∀ kind name network host, d.entry kind name host = some network →
    name ∈ d.names (network, host) kind

end Property

/-! ## Steps -/

section Steps

variable {wildcard : String → String → Bool} {d d' : Daemon}

theorem Allowed.congr {k : String × String} {name : String}
    (h : d'.peersOf k.1 = d.peersOf k.1) :
    Allowed wildcard d' k name ↔ Allowed wildcard d k name := by
  simp only [Allowed, h]

theorem Lawful.granted (h : Lawful wildcard d) : Granted wildcard d :=
  fun kind name network host hentry => h.listed _ kind name (h.entry kind name network host hentry)

theorem Lawful.init : Lawful wildcard .init := by
  refine ⟨?_, ?_⟩
  · simp [Daemon.names, Daemon.rxChan, Daemon.init]
  · simp [Daemon.entry, Daemon.init]

section

variable (h : Lawful wildcard d)

include h

theorem Lawful.congr (hentry : ∀ kind name host, d'.entry kind name host = d.entry kind name host)
    (hnames : ∀ k kind, d'.names k kind = d.names k kind)
    (hpeers : ∀ network, d'.peersOf network = d.peersOf network) : Lawful wildcard d' := by
  refine ⟨fun k kind name hmem => ?_, fun kind name network host heq => ?_⟩
  · rw [hnames] at hmem
    exact (Allowed.congr (hpeers k.1)).mpr (h.listed k kind name hmem)
  · rw [hentry] at heq
    rw [hnames]
    exact h.entry kind name network host heq

theorem Lawful.of_same (hs : RxSame d d') : Lawful wildcard d' :=
  h.congr hs.entry hs.names hs.peersOf

theorem Lawful.less {S : Set (String × String)} (hl : RxLess d d' S)
    (hkept : ∀ k, k ∉ S → ∀ kind name, name ∈ d.names k kind → Allowed wildcard d k name →
      Allowed wildcard d' k name) : Lawful wildcard d' := by
  refine ⟨fun k kind name hmem => ?_, fun kind name network host heq => ?_⟩
  · by_cases hS : k ∈ S
    · rw [hl.names hS] at hmem
      cases hmem
    · rw [hl.names_kept k hS] at hmem
      exact hkept k hS kind name hmem (h.listed k kind name hmem)
  · have hopen : ∀ network', (network', host) ∈ S → d.rxChan (network', host) = none := by
      intro network' hk
      by_contra hne
      have hnone := hl.entry (network', host) hk (isSome_iff_ne_none.mpr hne) kind name
      rw [show d'.entry kind name host = none from hnone] at heq
      cases heq
    rw [hl.entry_kept host hopen] at heq
    have hmem := h.entry kind name network host heq
    by_cases hS : (network, host) ∈ S
    · rw [names_of_none (hopen network hS)] at hmem
      cases hmem
    · rwa [hl.names_kept _ hS]

theorem Lawful.greeted {k : String × String} (hg : Greeted d d' k) :
    Lawful wildcard d' := by
  refine ⟨fun k' kind name hmem => ?_, fun kind name network host heq => ?_⟩
  · by_cases hk : k' = k
    · rw [hk, hg.names] at hmem
      cases hmem
    · rw [hg.names_kept k' hk] at hmem
      exact (Allowed.congr (hg.peersOf k'.1)).mpr (h.listed k' kind name hmem)
  · by_cases hhost : host = k.2
    · subst host
      rw [hg.entry] at heq
      cases heq
    · rw [hg.entry_kept host hhost] at heq
      rw [hg.names_kept (network, host) fun hk => hhost (congrArg Prod.snd hk)]
      exact h.entry kind name network host heq

theorem Lawful.told {k : String × String} {kind : Kind} {name : String} {enabled : Bool}
 (ht : Told d d' k kind name enabled)
    (hallowed : enabled = true → Allowed wildcard d k name) : Lawful wildcard d' := by
  refine ⟨fun k' kind' name' hmem => ?_, fun kind' name' network host heq => ?_⟩
  · rw [Allowed.congr (ht.peersOf k'.1)]
    by_cases hk : (k', kind') = (k, kind)
    · cases hk
      rw [ht.names] at hmem
      split at hmem
      · subst name'
        exact hallowed hmem
      · exact h.listed k kind name' hmem
    · rw [ht.names_kept k' kind' hk] at hmem
      exact h.listed k' kind' name' hmem
  · by_cases hsame : (kind', name', host) = (kind, name, k.2)
    · cases hsame
      rw [ht.entry] at heq
      split at heq
      · cases heq
        rw [show (k.1, k.2) = k from rfl, ht.names, if_pos rfl]
        assumption
      · cases heq
    · rw [ht.entry_kept kind' name' host hsame] at heq
      have hmem := h.entry kind' name' network host heq
      by_cases hk : ((network, host), kind') = (k, kind)
      · cases hk
        have hname : name' ≠ name := fun hc => hsame (by rw [hc])
        rwa [ht.names, if_neg hname]
      · rwa [ht.names_kept _ _ hk]

/-- An update; a peer that is still there has the patterns that it had. -/
theorem Lawful.update (hok : Ok d) (data : Dict String Info)
    (socket : String → Bool) (hc : Checked wildcard d (.update data socket)) :
    Lawful wildcard (networkUpdates socket data d) := by
  have hstep := networkUpdates_step hok.rx hok.tx socket data
  refine h.less hstep.rx fun k hk kind name hmem hallowed => ?_
  have hne : d.names k kind ≠ [] := ne_nil_of_mem hmem
  obtain ⟨peers, peer, hpeers, hpeer, hallows⟩ := hallowed
  -- The channel is still registered, so the network is known.
  obtain ⟨peers', hpeers'⟩ : ∃ peers', (networkUpdates socket data d).peersOf k.1 = some peers' := by
    have hreg : d.rxChan k ≠ none := fun hnone => hne (names_of_none hnone kind)
    rw [← hstep.rx.rxChan_kept k hk] at hreg
    obtain ⟨chan, hchan⟩ := ne_none_iff_exists'.mp hreg
    obtain ⟨net, hnet, -⟩ := RxOk.network_of_rxChan hchan
    exact ⟨net.peers, peersOf_of_get? hnet⟩
  obtain ⟨info, hinfo, hcase⟩ := peersOf_networkUpdates hok.rx hok.tx hpeers'
  split at hcase
  · rw [hpeers, some.injEq] at hcase
    subst peers'
    exact ⟨peers, peer, hpeers', hpeer, hallows⟩
  · rename_i hlocal
    subst peers'
    obtain ⟨peer', hpeer'⟩ :=
      isSome_iff_exists.mp (hc k kind hne hk info hinfo hlocal)
    refine ⟨_, peer', hpeers', hpeer', ?_⟩
    obtain ⟨net, hnet, heq⟩ := map_eq_some_iff.mp hpeers
    subst peers
    have hsame : peer.allowed = peer'.allowed := by
      by_contra hdiff
      refine hk ?_
      simp only [Set.mem_ofPred_eq, Dropped, hinfo]
      refine ⟨hlocal, net, hnet, .inr ⟨peer, hpeer, ?_⟩⟩
      rw [hpeer']
      exact hdiff
    simpa only [Peer.allows, hsame] using hallows

end

end Steps

/-! ## Runs -/

section Runs

variable {wildcard : String → String → Bool} {d : Daemon}

theorem Lawful.rxSocketClose (h : Lawful wildcard d) (hr : RxOk d) (chan : Nat) :
    Lawful wildcard (rxSocketClose d chan) := by
  cases hget : d.rx.get? chan with
  | none =>
    rw [show Unetmsg.rxSocketClose d chan = d by simp only [Unetmsg.rxSocketClose, hget]]
    exact h
  | some conn =>
    rw [rxSocketClose_eq hr hget]
    split
    · have hclosed := closeRx_closed hr (conn.network, conn.name)
      exact h.less hclosed.toRxLess fun k _ _ _ _ hallowed =>
        (Allowed.congr (hclosed.peersOf k.1)).mpr hallowed
    · rename_i hauth
      exact h.congr (fun _ _ _ => rfl) (hr.setRxs_del hget (Bool.not_eq_true _ ▸ hauth)).2
        fun _ => rfl

theorem Lawful.rxRequest (h : Lawful wildcard d) (hr : RxOk d) (chan : Nat) (req : PeerRequest) :
    Lawful wildcard (rxRequest wildcard d chan req) := by
  cases hget : d.rx.get? chan with
  | none =>
    rw [rxRequest_of_none hget]
    exact h
  | some conn =>
    cases hauth : conn.auth with
    | false =>
      obtain ⟨hgreet, hclose⟩ := rxRequest_waiting wildcard hr hget hauth req
      by_cases hk : req = .auth true ∧ Known d (conn.network, conn.name)
      · exact h.greeted (hgreet hk.1 hk.2)
      · rcases hclose hk with heq | heq
        · rwa [heq]
        · rw [heq]
          exact h.rxSocketClose hr chan
    | true =>
      by_cases hreq : ∃ kind name enabled, req = .pubsub kind name enabled
      · obtain ⟨kind, name, enabled, rfl⟩ := hreq
        obtain ⟨htold, hcall, -⟩ := rxRequest_pubsub wildcard hr hget hauth kind name enabled
        by_cases hsets : Sets wildcard d (conn.network, conn.name) kind name enabled
        · refine h.told (htold hsets) fun henabled => ?_
          have hset := hsets.2
          rw [if_pos henabled] at hset
          exact hset.2
        · exact h.of_same (hcall hsets).rxSame
      · exact h.of_same (rxRequest_calls hget hauth fun kind name enabled heq =>
          hreq ⟨kind, name, enabled, heq⟩).rxSame

theorem lawful_step (hok : Ok d) (h : Lawful wildcard d) (e : Event) (hc : Checked wildcard d e) :
    Lawful wildcard (step wildcard d e) := by
  cases e with
  | connect => exact h.of_same (connect_local wildcard d).rxSame
  | pubsub kind client names => exact h.of_same (clientPubsub_local kind client d names).rxSame
  | call client method name host granted => exact h.of_same (clientRequest_calls d ..).rxSame
  | disconnect client => exact h.of_same (clientDisconnect_local d client).rxSame
  | accept network src name =>
    obtain ⟨-, -, hnames, hentry, hpeers⟩ := networkAccept_spec hok.rx network src name
    exact h.congr hentry hnames hpeers
  | peer chan req => exact h.rxRequest hok.rx chan req
  | rxClosed chan => exact h.rxSocketClose hok.rx chan
  | authData chan => exact h.of_same (authData_spec hok.tx chan).1
  | authDone chan => exact h.of_same (authDone_quiet hok.tx chan).1
  | txClosed chan => exact h.of_same (txSocketClose_same d chan)
  | connectPeers network socket =>
    obtain ⟨hstep, hpeers⟩ := connectPeers_step hok.rx hok.tx network socket
    exact h.less hstep.rx fun k _ _ _ _ hallowed => (Allowed.congr (hpeers k.1)).mpr hallowed
  | update data socket => exact h.update hok data socket hc

theorem delivered_handleCall (d : Daemon) (kind : Kind) (method : Method) (name : String)
    (hnone : receivers d kind name none = []) :
    delivered (handleCall d kind method name none false none) = delivered d := by
  simp [handleCall, delivered, deliveries, hnone]

/-- A peer is not heard for a name that it may not have. -/
theorem silent_step (hok : Ok d) (h : Lawful wildcard d) (e : Event) (hc : Checked wildcard d e) :
    Silent wildcard d e := by
  cases e with
  | peer chan req =>
    intro conn name hget hname hnot
    cases hauth : conn.auth with
    | false =>
      obtain ⟨-, hclose⟩ := rxRequest_waiting wildcard hok.rx hget hauth req
      have hreq : ¬ (req = .auth true ∧ Known d (conn.network, conn.name)) := by
        rintro ⟨rfl, -⟩
        cases hname
      rcases hclose hreq with heq | heq
      · rw [heq]
      · rw [heq, rxSocketClose_eq hok.rx hget, if_neg (by simp [hauth])]
        rfl
    | true =>
      obtain ⟨hrequest, hmessage⟩ := hc conn name hget hauth
      cases req with
      | pubsub kind name' enabled =>
        cases hname
        obtain ⟨-, -, hsame⟩ := rxRequest_pubsub wildcard hok.rx hget hauth kind name enabled
        rw [hsame (fun hmem => hnot (h.listed _ kind name hmem)) hnot]
      | request name' =>
        cases hname
        rw [rxRequest_of_auth hget hauth]
        simp only [socketHandleRequest]
        split
        · rfl
        · exact delivered_handleCall d _ _ _ ((hrequest rfl).resolve_left hnot)
      | message name' =>
        cases hname
        rw [rxRequest_of_auth hget hauth]
        simp only [socketHandleRequest]
        split
        · rfl
        · exact delivered_handleCall d _ _ _ ((hmessage rfl).resolve_left hnot)
      | hello | auth _ | other => cases hname
  | _ => trivial

end Runs

/-- In a run of events that are checked, a peer has no effect on the clients with a name that it
may not have, and there is no remote handle for it. -/
theorem allowed_run (wildcard : String → String → Bool) (events : List Event)
    (hchecked : ∀ before e, before ++ [e] <+: events →
      Checked wildcard (run wildcard .init before) e) :
    (∀ before, before <+: events → Granted wildcard (run wildcard .init before)) ∧
      ∀ before e, before ++ [e] <+: events → Silent wildcard (run wildcard .init before) e := by
  have hlawful : ∀ before, before <+: events → Lawful wildcard (run wildcard .init before) := by
    intro before hbefore
    induction before using List.reverseRecOn with
    | nil => exact .init
    | append_singleton before e ih =>
      rw [run_append]
      exact lawful_step (ok_run wildcard before) (ih ((prefix_append _ _).trans hbefore)) e
        (hchecked before e hbefore)
  refine ⟨fun before hbefore => (hlawful before hbefore).granted, fun before e hbefore => ?_⟩
  exact silent_step (ok_run wildcard before) (hlawful before ((prefix_append _ _).trans hbefore))
    e (hchecked before e hbefore)

def guardedInfo : Info where
  localHost := "a"
  localAddress := "fd00::a"
  peers := (∅ : Dict String Peer).set "b" ⟨"fd00::b", none⟩
  services := [⟨"unetmsg", ["a", "b"], some ["y"]⟩]

/-- The wildcards of literal names. -/
def literal (name pattern : String) : Bool := pattern == "*" || pattern == name

/-- The peer enables the one name and another one, and sends a message for each. -/
def guardedEvents : List Event := [
  .update ((∅ : Dict String Info).set "net" guardedInfo) fun _ => true,
  .accept "net" "fd00::b" "b",
  .peer 0 (.auth true),
  .peer 0 (.pubsub .publish "y" true),
  .peer 0 (.pubsub .publish "x" true),
  .connect,
  .pubsub .subscribe 1 ["y"],
  .peer 0 (.message "y"),
  .peer 0 (.message "x")]

/-- A client gets the message for the one name; for the other one there is none. -/
theorem allowed_message : Granted literal (run literal .init guardedEvents) ∧
    delivered (run literal .init guardedEvents) ≠
      delivered (run literal .init (guardedEvents.take 7)) := by
  refine ⟨(allowed_run literal guardedEvents ?_).1 _ (prefix_refl _), by decide⟩
  intro before e hbefore
  have htake : before = guardedEvents.take before.length :=
    prefix_iff_eq_take.mp ((prefix_append _ _).trans hbefore)
  have he : guardedEvents[before.length]? = some e := by
    obtain ⟨rest, hrest⟩ := hbefore
    simp [← hrest]
  generalize before.length = i at htake he
  subst htake
  have hi : i < 9 := (List.getElem?_eq_some_iff.mp he).1
  have hfirst : ∀ {conn : RxConn} {d : Daemon}, d.rx.get? 0 = some conn →
      (d.rx.get? 0).map (fun conn => (conn.network, conn.name)) = some ("net", "b") →
      (conn.network, conn.name) = ("net", "b") := by
    intro conn d hget hmap
    rw [hget] at hmap
    exact some.inj hmap
  interval_cases i <;> obtain rfl := some.inj he
  · exact fun k kind hne => absurd rfl hne
  · trivial
  · exact fun _ _ _ _ => ⟨nofun, nofun⟩
  · exact fun _ _ _ _ => ⟨nofun, nofun⟩
  · exact fun _ _ _ _ => ⟨nofun, nofun⟩
  · trivial
  · trivial
  · refine fun conn name hget _ => ⟨nofun, ?_⟩
    rintro ⟨⟩
    rw [hfirst hget (by decide)]
    exact .inl ⟨_, _, rfl, rfl, rfl⟩
  · refine fun conn name hget _ => ⟨nofun, ?_⟩
    rintro ⟨⟩
    exact .inr (by decide)

def guardedRun : Daemon :=
  run literal .init [
    .update ((∅ : Dict String Info).set "net" guardedInfo) fun _ => true,
    .accept "net" "fd00::b" "b",
    .peer 0 (.auth true),
    .connect,
    .pubsub .subscribe 1 ["x"]]

/-- The client gets a message of the peer for a name that it may not have. -/
theorem allowed_fails : ¬ Silent literal guardedRun (.peer 0 (.message "x")) := by
  intro hsilent
  have hconn : (guardedRun.rx.get? 0).map (fun conn => (conn.network, conn.name)) =
      some ("net", "b") := by decide
  have hpeer : (guardedRun.peersOf "net").bind (fun peers => peers.get? "b") =
      some ⟨"fd00::b", some ["y"]⟩ := by decide
  have hgot : delivered (rxRequest literal guardedRun 0 (.message "x")) ≠ delivered guardedRun := by
    decide
  obtain ⟨conn, hget, hkey⟩ := map_eq_some_iff.mp hconn
  obtain ⟨hnetwork, hname⟩ := Prod.mk.inj hkey
  refine hgot (hsilent conn "x" hget rfl ?_)
  rw [hnetwork, hname]
  rintro ⟨peers, peer, hpeers, hget', hallows⟩
  rw [hpeers, bind_some, hget', some.injEq] at hpeer
  subst peer
  revert hallows
  decide

end LibWrt.Unetmsg
