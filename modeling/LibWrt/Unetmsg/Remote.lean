/-
LibWrt.Unetmsg.Remote — the remote handles and the names of the channels.

A remote handle is kept under the name and the host, and a channel under the
network and the host. So of a host that is a peer in two networks, a change of
one channel takes or overwrites the handles of the other one. `Apart` is for
the events that do not come to this: exactly with these the handles stay those
of the names that are enabled (`entries_iff`).
-/
import LibWrt.Unetmsg.Clients

namespace LibWrt.Unetmsg

open List

/-- The remote handles are those of the names that are enabled on the channels. -/
def Entries (d : Daemon) : Prop :=
  ∀ kind name network host,
    d.entry kind name host = some network ↔ name ∈ d.names (network, host) kind

/-- A handle stays while its name is enabled. -/
def Keeps (d d' : Daemon) : Prop :=
  ∀ kind name network host, d.entry kind name host = some network →
    name ∈ d'.names (network, host) kind → d'.entry kind name host = some network

/-- Of a host whose channel is closed, no other channel has names, but for one that is closed. -/
def Alone (d : Daemon) (S : Set (String × String)) : Prop :=
  ∀ k ∈ S, (d.rxChan k).isSome →
    ∀ network, (network, k.2) ∉ S → ∀ kind, d.names (network, k.2) kind = []

/-- An event that does not touch a host that has names in another network. -/
def Apart (wildcard : String → String → Bool) (d : Daemon) : Event → Prop
  | .peer chan req => ∀ conn, d.rx.get? chan = some conn →
    (conn.auth = false → req = .auth true → Known d (conn.network, conn.name) →
      ∀ network, network ≠ conn.network → ∀ kind, d.names (network, conn.name) kind = []) ∧
    (conn.auth = true → ∀ kind name enabled, req = .pubsub kind name enabled →
      Sets wildcard d (conn.network, conn.name) kind name enabled →
      ∀ network, network ≠ conn.network → name ∉ d.names (network, conn.name) kind)
  | .rxClosed chan => ∀ conn, d.rx.get? chan = some conn → conn.auth = true →
    Alone d {(conn.network, conn.name)}
  | .connectPeers network _ =>
    Alone d {k | k.1 = network ∧ ∃ peers, d.peersOf network = some peers ∧ peers.get? k.2 = none}
  | .update data _ => Alone d {k | Dropped d data k}
  | _ => True

section Steps

variable {d d' : Daemon}

/-- Channels are closed. -/
theorem entries_less_iff {S : Set (String × String)} (h : RxLess d d' S) (he : Entries d) :
    Entries d' ↔ Alone d S := by
  constructor
  · intro he' k hk hsome network hnot kind
    rw [eq_nil_iff_forall_not_mem]
    intro name hmem
    rw [← h.names_kept (network, k.2) hnot] at hmem
    have hentry := (he' kind name network k.2).mpr hmem
    rw [h.entry k hk hsome] at hentry
    cases hentry
  · intro halone kind name network host
    by_cases hclosed : ∃ network', (network', host) ∈ S ∧ (d.rxChan (network', host)).isSome
    · obtain ⟨network', hk, hsome⟩ := hclosed
      have hnames : d'.names (network, host) kind = [] := by
        by_cases hS : (network, host) ∈ S
        · exact h.names hS kind
        · rw [h.names_kept _ hS]
          exact halone (network', host) hk hsome network hS kind
      rw [hnames, show d'.entry kind name host = none from h.entry (network', host) hk hsome kind name]
      simp
    · have hopen : ∀ network', (network', host) ∈ S → d.rxChan (network', host) = none := by
        intro network' hk
        by_contra hne
        exact hclosed ⟨network', hk, Option.isSome_iff_ne_none.mpr hne⟩
      rw [h.entry_kept host hopen, he]
      by_cases hS : (network, host) ∈ S
      · rw [h.names hS, names_of_none (hopen network hS)]
      · rw [h.names_kept _ hS]

/-- A channel is authenticated. -/
theorem entries_greeted_iff {k : String × String} (h : Greeted d d' k) (he : Entries d) :
    Entries d' ↔ ∀ network, network ≠ k.1 → ∀ kind, d.names (network, k.2) kind = [] := by
  constructor
  · intro he' network hne kind
    rw [eq_nil_iff_forall_not_mem]
    intro name hmem
    rw [← h.names_kept (network, k.2) fun hk => hne (congrArg Prod.fst hk)] at hmem
    have hentry := (he' kind name network k.2).mpr hmem
    rw [h.entry] at hentry
    cases hentry
  · intro halone kind name network host
    by_cases hhost : host = k.2
    · subst host
      have hnames : d'.names (network, k.2) kind = [] := by
        by_cases hne : network = k.1
        · rw [hne]
          exact h.names kind
        · rw [h.names_kept (network, k.2) fun hk => hne (congrArg Prod.fst hk)]
          exact halone network hne kind
      rw [hnames, h.entry]
      simp
    · rw [h.entry_kept host hhost, h.names_kept (network, host) fun hk => hhost (congrArg Prod.snd hk)]
      exact he kind name network host

/-- A name is enabled or disabled. -/
theorem entries_told_iff {k : String × String} {kind : Kind} {name : String} {enabled : Bool}
    (h : Told d d' k kind name enabled) (he : Entries d) :
    Entries d' ↔ ∀ network, network ≠ k.1 → name ∉ d.names (network, k.2) kind := by
  constructor
  · intro he' network hne hmem
    rw [← h.names_kept (network, k.2) kind fun hk => hne (congrArg (fun p => p.1.1) hk)] at hmem
    have hentry := (he' kind name network k.2).mpr hmem
    rw [h.entry] at hentry
    split at hentry
    · exact hne (Option.some.inj hentry).symm
    · cases hentry
  · intro halone kind' name' network host
    by_cases hsame : (kind', name', host) = (kind, name, k.2)
    · cases hsame
      rw [h.entry]
      by_cases hne : network = k.1
      · subst network
        rw [show (k.1, k.2) = k from rfl, h.names, if_pos rfl]
        cases enabled <;> simp
      · rw [h.names_kept (network, k.2) kind fun hk => hne (congrArg (fun p => p.1.1) hk)]
        cases enabled <;> simp [halone network hne, Ne.symm hne]
    · rw [h.entry_kept kind' name' host hsame, he]
      by_cases hk : ((network, host), kind') = (k, kind)
      · cases hk
        have hname : name' ≠ name := fun heq => hsame (by rw [heq])
        rw [h.names, if_neg hname]
      · rw [h.names_kept _ _ hk]

theorem entries_congr (hentry : ∀ kind name host, d'.entry kind name host = d.entry kind name host)
    (hnames : ∀ k kind, d'.names k kind = d.names k kind) : Entries d' ↔ Entries d := by
  simp only [Entries, hentry, hnames]

theorem RxSame.keepsEntries (h : RxSame d d') : Entries d' ↔ Entries d :=
  entries_congr h.entry h.names

end Steps

/-! ## Events -/

theorem entries_close_waiting {d : Daemon} (h : RxOk d) (he : Entries d) {chan : Nat}
    {conn : RxConn} (hget : d.rx.get? chan = some conn) (hauth : conn.auth = false) :
    Entries (rxSocketClose d chan) := by
  rw [rxSocketClose_eq h hget, if_neg (by simp [hauth])]
  have hentry : ∀ kind name host, (setRxs d (d.rx.del chan)).entry kind name host =
      d.entry kind name host := fun _ _ _ => rfl
  exact (entries_congr hentry (h.setRxs_del hget hauth).2).mpr he

theorem entries_rxClosed_iff (wildcard : String → String → Bool) {d : Daemon} (h : RxOk d)
    (he : Entries d) (chan : Nat) :
    Entries (rxSocketClose d chan) ↔ Apart wildcard d (.rxClosed chan) := by
  simp only [Apart]
  cases hget : d.rx.get? chan with
  | none =>
    rw [show rxSocketClose d chan = d by simp only [rxSocketClose, hget]]
    simp [he]
  | some conn =>
    simp only [Option.some.injEq, forall_eq']
    cases hauth : conn.auth with
    | false => simp [entries_close_waiting h he hget hauth]
    | true =>
      rw [rxSocketClose_eq h hget, if_pos hauth,
        entries_less_iff (closeRx_closed h (conn.network, conn.name)).toRxLess he]
      simp

theorem entries_peer_iff (wildcard : String → String → Bool) {d : Daemon} (h : RxOk d)
    (he : Entries d) (chan : Nat) (req : PeerRequest) :
    Entries (rxRequest wildcard d chan req) ↔ Apart wildcard d (.peer chan req) := by
  simp only [Apart]
  cases hget : d.rx.get? chan with
  | none =>
    rw [rxRequest_of_none hget]
    simp [he]
  | some conn =>
    simp only [Option.some.injEq, forall_eq']
    cases hauth : conn.auth with
    | false =>
      obtain ⟨hgreet, hclose⟩ := rxRequest_waiting wildcard h hget hauth req
      by_cases hk : req = .auth true ∧ Known d (conn.network, conn.name)
      · rw [entries_greeted_iff (hgreet hk.1 hk.2) he]
        simp [hk.1, hk.2]
      · have hleft : Entries (rxRequest wildcard d chan req) := by
          rcases hclose hk with heq | heq
          · rwa [heq]
          · rw [heq]
            exact entries_close_waiting h he hget hauth
        simp only [hleft, true_iff, forall_const, Bool.false_eq_true, false_imp_iff, and_true]
        exact fun hreq hknown => absurd ⟨hreq, hknown⟩ hk
    | true =>
      simp only [Bool.true_eq_false, false_imp_iff, forall_const, true_and]
      by_cases hreq : ∃ kind name enabled, req = .pubsub kind name enabled
      · obtain ⟨kind, name, enabled, rfl⟩ := hreq
        obtain ⟨htold, hcall, -⟩ :=
          rxRequest_pubsub wildcard h hget hauth kind name enabled
        by_cases hsets : Sets wildcard d (conn.network, conn.name) kind name enabled
        · rw [entries_told_iff (htold hsets) he]
          constructor
          · rintro halone _ _ _ ⟨⟩ -
            exact halone
          · intro halone
            exact halone kind name enabled rfl hsets
        · refine iff_of_true ((hcall hsets).rxSame.keepsEntries.mpr he) ?_
          rintro _ _ _ ⟨⟩ hsets'
          exact absurd hsets' hsets
      · have hcalls : Calls d (rxRequest wildcard d chan req) :=
          rxRequest_calls hget hauth fun kind name enabled heq => hreq ⟨kind, name, enabled, heq⟩
        refine iff_of_true (hcalls.rxSame.keepsEntries.mpr he) ?_
        intro kind name enabled heq
        exact absurd ⟨kind, name, enabled, heq⟩ hreq

/-- An event keeps the handles right, if and only if it stays apart from other channels. -/
theorem entries_step_iff (wildcard : String → String → Bool) {d : Daemon} (h : Ok d)
    (he : Entries d) (e : Event) : Entries (step wildcard d e) ↔ Apart wildcard d e := by
  have hlocal : ∀ {d' : Daemon}, RxSame d d' → (Entries d' ↔ True) := fun hs =>
    iff_true_intro (hs.keepsEntries.mpr he)
  cases e with
  | connect => exact hlocal (connect_local wildcard d).rxSame
  | pubsub kind client names => exact hlocal (clientPubsub_local kind client d names).rxSame
  | call client method name host granted => exact hlocal (clientRequest_calls d ..).rxSame
  | disconnect client => exact hlocal (clientDisconnect_local d client).rxSame
  | accept network src name =>
    obtain ⟨-, -, hnames, hentry, -⟩ := networkAccept_spec h.rx network src name
    exact iff_true_intro ((entries_congr hentry hnames).mpr he)
  | peer chan req => exact entries_peer_iff wildcard h.rx he chan req
  | rxClosed chan => exact entries_rxClosed_iff wildcard h.rx he chan
  | authData chan => exact hlocal (authData_spec h.tx chan).1
  | authDone chan => exact hlocal (authDone_quiet h.tx chan).1
  | txClosed chan => exact hlocal (txSocketClose_same d chan)
  | connectPeers network socket =>
    exact entries_less_iff (connectPeers_step h.rx h.tx network socket).1.rx he
  | update data socket => exact entries_less_iff (networkUpdates_step h.rx h.tx socket data).rx he

theorem Entries.init : Entries .init := by
  simp [Entries, Daemon.entry, Daemon.names, Daemon.rxChan, Daemon.init]

theorem Entries.keeps {d d' : Daemon} (h : Entries d') : Keeps d d' :=
  fun kind name network host _ hmem => (h kind name network host).mpr hmem

/-- In each state of a run the remote handles are those of the names that are enabled, and a
handle stays while its name is enabled, if and only if each event of the run stays apart. -/
theorem entries_iff (wildcard : String → String → Bool) (events : List Event) :
    ((∀ before, before <+: events → Entries (run wildcard .init before)) ∧
      ∀ before e, before ++ [e] <+: events →
        Keeps (run wildcard .init before) (run wildcard .init (before ++ [e]))) ↔
      ∀ before e, before ++ [e] <+: events → Apart wildcard (run wildcard .init before) e := by
  constructor
  · rintro ⟨hentries, -⟩ before e hprefix
    have hbefore := hentries before ((prefix_append _ _).trans hprefix)
    have hafter := hentries _ hprefix
    rw [run_append] at hafter
    exact (entries_step_iff wildcard (ok_run wildcard before) hbefore e).mp hafter
  · intro hapart
    have hentries : ∀ before, before <+: events → Entries (run wildcard .init before) := by
      intro before hprefix
      induction before using reverseRecOn with
      | nil => exact .init
      | append_singleton before e ih =>
        have hbefore := ih ((prefix_append _ _).trans hprefix)
        rw [run_append]
        exact (entries_step_iff wildcard (ok_run wildcard before) hbefore e).mpr
          (hapart before e hprefix)
    exact ⟨hentries, fun before e hprefix => (hentries _ hprefix).keeps⟩

def twoNetworks : Dict String Info :=
  ((∅ : Dict String Info).set "east" {
    localHost := "a"
    localAddress := "fd01::a"
    peers := (∅ : Dict String Peer).set "b" ⟨"fd01::b", none⟩
    services := [] }).set "west" {
    localHost := "a"
    localAddress := "fd02::a"
    peers := (∅ : Dict String Peer).set "b" ⟨"fd02::b", none⟩
    services := [] }

/-- The channel of one network is closed, and the name of the other one is not known any more. -/
theorem entries_fails :
    ¬ Entries (run (fun name pattern => pattern == "*" || pattern == name) .init [
      .update twoNetworks fun _ => true,
      .accept "east" "fd01::b" "b",
      .accept "west" "fd02::b" "b",
      .peer 0 (.auth true),
      .peer 1 (.auth true),
      .peer 0 (.pubsub .publish "x" true),
      .rxClosed 1]) := by
  intro hentries
  have hx := hentries .publish "x" "east" "b"
  revert hx
  decide

end LibWrt.Unetmsg
