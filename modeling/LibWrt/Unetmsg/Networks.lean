/-
LibWrt.Unetmsg.Networks — what an update does to the channels.

A network is opened, changed or closed on its own: the others stay as they are.
`NetStep` says so, with the incoming channels that are closed, and that no peer
is told of a name. An update of all networks closes the channels that it drops
(`networkUpdates_step`), in the state that it starts from.
-/
import LibWrt.Unetmsg.Channels

namespace LibWrt.Unetmsg

open List Option Daemon Set Nat

/-- Some incoming channels are closed, and no peer is told of a name. -/
structure Less (d d' : Daemon) (S : Set (String × String)) : Prop where
  rx : RxLess d d' S
  tx : TxQuiet d d'

/-- The same, of one network. -/
structure NetStep (network : String) (d d' : Daemon) (S : Set (String × String)) : Prop
    extends Less d d' S where
  elsewhere : ∀ network', network' ≠ network →
    d'.networks.get? network' = d.networks.get? network'

section Less

variable {d d' d'' : Daemon} {S T : Set (String × String)} {network : String}

theorem Less.refl (hr : RxOk d) (ht : TxOk d) : Less d d ∅ :=
  ⟨(RxSame.refl d).less hr, (TxSame.refl d).quiet ht⟩

theorem Less.trans (h : Less d d' S) (h' : Less d' d'' T) : Less d d'' (S ∪ T) :=
  ⟨h.rx.trans h'.rx, h.tx.trans h'.tx⟩

theorem Less.congr (h : Less d d' S) (hST : ∀ k, (d.rxChan k).isSome → (k ∈ S ↔ k ∈ T)) :
    Less d d' T :=
  ⟨h.rx.congr hST, h.tx⟩

theorem NetStep.refl (hr : RxOk d) (ht : TxOk d) : NetStep network d d ∅ :=
  ⟨.refl hr ht, fun _ _ => rfl⟩

theorem NetStep.trans (h : NetStep network d d' S) (h' : NetStep network d' d'' T) :
    NetStep network d d'' (S ∪ T) :=
  ⟨h.toLess.trans h'.toLess, fun network' hne =>
    (h'.elsewhere network' hne).trans (h.elsewhere network' hne)⟩

theorem NetStep.congr (h : NetStep network d d' S)
    (hST : ∀ k, (d.rxChan k).isSome → (k ∈ S ↔ k ∈ T)) : NetStep network d d' T :=
  ⟨h.toLess.congr hST, h.elsewhere⟩

theorem RxClosed.step (network : String) (h : RxClosed d d' S) (ht : TxOk d) (hS : ∀ k ∈ S, k.1 = network) :
    NetStep network d d' S :=
  ⟨⟨h.toRxLess, h.same.quiet ht⟩, fun network' hne =>
    h.networks network' fun k hk heq => hne (heq.symm.trans (hS k hk))⟩

theorem TxClosed.step (network : String) (h : TxClosed d d' S) (hr : RxOk d) (hS : ∀ k ∈ S, k.1 = network) :
    NetStep network d d' ∅ :=
  ⟨⟨h.same.less hr, h.quiet⟩, fun network' hne =>
    h.networks network' fun k hk heq => hne (heq.symm.trans (hS k hk))⟩

end Less

/-! ## A network is opened -/

variable {d d' : Daemon} {net : Net} {network name : String} {peers : Dict String Peer}

/-- A network that is not known has no channels. -/
theorem setNet_step (net : Net) (hr : RxOk d) (ht : TxOk d)
    (hrx : ∀ host, d.rxChan (network, host) = net.rxChannels.get? host)
    (htx : ∀ host, d.txChan (network, host) = net.txChannels.get? host) :
    NetStep network d (setNet d network net) ∅ := by
  have hrxChan : (setNet d network net).rxChan = d.rxChan := by
    funext k
    rw [rxChan_setNet]
    split
    · subst network
      exact (hrx k.2).symm
    · rfl
  have htxChan : (setNet d network net).txChan = d.txChan := by
    funext k
    rw [txChan_setNet]
    split
    · subst network
      exact (htx k.2).symm
    · rfl
  refine ⟨⟨⟨⟨?_, hr.lists⟩, by simp, fun k _ => congrFun hrxChan k, ?_, by simp,
    fun _ _ _ _ => rfl⟩, ⟨?_, fun _ _ hget _ => hget, rfl, rfl, le_refl _, [], by simp, rfl⟩⟩, ?_⟩
  · rw [hrxChan]
    exact hr.registry
  · intro k _ kind
    simp only [Daemon.names, hrxChan]
    rfl
  · unfold TxOk
    rw [htxChan]
    exact ht
  · intro network' hne
    exact Dict.get?_set_ne _ hne _

theorem networkOpen_step (hr : RxOk d) (ht : TxOk d) (hnet : d.networks.get? name = none)
    (info : Info) (socket : Bool) :
    NetStep name d (networkOpen name info socket d) ∅ := by
  unfold networkOpen
  split
  · apply setNet_step _ hr ht
    · intro host
      simp [rxChan, hnet]
    · intro host
      simp [txChan, hnet]
  · exact .refl hr ht

theorem peersOf_networkOpen (hnet : d.networks.get? name = none) {info : Info} {socket : Bool}
    (hpeers : (networkOpen name info socket d).peersOf name = some peers) :
    peers = info.peers := by
  unfold networkOpen at hpeers
  split at hpeers
  · rw [peersOf_setNet, if_pos rfl] at hpeers
    exact (some.inj hpeers).symm
  · simp [peersOf, hnet] at hpeers

/-! ## A network is closed -/

theorem mem_keys_iff {V : Type} (dict : Dict String V) (key : String) :
    key ∈ dict.keys ↔ (dict.get? key).isSome := by
  rw [← AList.mem_keys]
  exact AList.lookup_isSome.symm

/-- A network without channels is forgotten. -/
theorem delNet_step (hr : RxOk d) (ht : TxOk d)
    (hrx : ∀ k : String × String, k.1 = network → d.rxChan k = none)
    (htx : ∀ k : String × String, k.1 = network → d.txChan k = none) :
    NetStep network d { d with networks := d.networks.del network } ∅ := by
  have hrxChan : ({ d with networks := d.networks.del network } : Daemon).rxChan = d.rxChan := by
    funext k
    by_cases hk : k.1 = network
    · rw [hrx k hk]
      simp [rxChan, hk]
    · simp only [rxChan, Dict.get?_del_ne _ hk]
  have htxChan : ({ d with networks := d.networks.del network } : Daemon).txChan = d.txChan := by
    funext k
    by_cases hk : k.1 = network
    · rw [htx k hk]
      simp [txChan, hk]
    · simp only [txChan, Dict.get?_del_ne _ hk]
  refine ⟨⟨⟨⟨?_, hr.lists⟩, by simp, fun k _ => congrFun hrxChan k, ?_, by simp,
    fun _ _ _ _ => rfl⟩, ⟨?_, fun _ _ hget _ => hget, rfl, rfl, le_refl _, [], by simp, rfl⟩⟩, ?_⟩
  · rw [hrxChan]
    exact hr.registry
  · intro k _ kind
    simp only [Daemon.names, hrxChan]
  · unfold TxOk
    rw [htxChan]
    exact ht
  · intro network' hne
    exact Dict.get?_del_ne _ hne

/-- Each channel of a network is closed. -/
theorem rxChan_none_of_keys (hnet : d.networks.get? name = some net)
    (h : RxLess d d' {k | k.1 = name ∧ k.2 ∈ net.rxChannels.keys}) (k : String × String)
    (hk : k.1 = name) : d'.rxChan k = none := by
  by_cases hmem : k.2 ∈ net.rxChannels.keys
  · exact h.rxChan k ⟨hk, hmem⟩
  · rw [h.rxChan_kept k fun hc => hmem hc.2, rxChan_of_get? hnet hk]
    rw [mem_keys_iff, Bool.not_eq_true, isSome_eq_false_iff,
      isNone_iff_eq_none] at hmem
    exact hmem

theorem txChan_none_of_keys {d'' : Daemon} (ht : TxOk d) (hs : TxSame d d')
    (hnet : d.networks.get? name = some net)
    (h : TxClosed d' d'' {k | k.1 = name ∧ k.2 ∈ net.txChannels.keys}) (k : String × String)
    (hk : k.1 = name) : d''.txChan k = none := by
  by_cases hmem : k.2 ∈ net.txChannels.keys
  · exact h.txChan k ⟨hk, hmem⟩
  · apply h.txChan_none (ht.of_same hs)
    rw [hs.txChan, txChan_of_get? hnet hk]
    rw [mem_keys_iff, Bool.not_eq_true, isSome_eq_false_iff,
      isNone_iff_eq_none] at hmem
    exact hmem

theorem networkClose_step (hr : RxOk d) (ht : TxOk d) (name : String) :
    NetStep name d (networkClose name d) {k | k.1 = name} := by
  unfold networkClose
  cases hnet : d.networks.get? name with
  | none =>
    refine NetStep.congr (.refl hr ht) fun k hsome => ?_
    have hne : k.1 ≠ name := by
      intro hk
      simp [rxChan, hk, hnet] at hsome
    simp [hne]
  | some net =>
    have hrx := closeRx_foldl_closed name net.rxChannels.keys hr
    have htx := closeTx_foldl_closed name net.txChannels.keys (ht.of_same hrx.same)
    have hstep := (hrx.step name ht fun k hk => hk.1).trans
      (htx.step name hrx.ok fun k hk => hk.1)
    have hrxNone := rxChan_none_of_keys hnet hrx.toRxLess
    have htxNone := txChan_none_of_keys ht hrx.same hnet htx
    have hdel := delNet_step hstep.rx.ok hstep.tx.ok
      (fun k hk => (htx.same.rxChan k).trans (hrxNone k hk)) htxNone
    refine (hstep.trans hdel).congr fun k hsome => ?_
    simp only [union_empty, mem_ofPred_eq, and_iff_left_iff_imp, mem_keys_iff]
    intro hk
    rwa [rxChan_of_get? hnet hk] at hsome

theorem networks_networkClose (d : Daemon) (name : String) :
    (networkClose name d).networks.get? name = none := by
  unfold networkClose
  split
  · assumption
  · exact Dict.get?_del_self _ _

/-! ## A network changes -/

def Net.moved (net : Net) (info : Info) : Prop :=
  net.localHost ≠ info.localHost ∨ net.localAddress ≠ info.localAddress

def Net.changed (net : Net) (info : Info) (host : String) : Prop :=
  ∃ peer, net.peers.get? host = some peer ∧
    peer.allowed ≠ (info.peers.get? host).bind fun peer => peer.allowed

/-- The update of a network closes the channels of a host. -/
def Drops (d : Daemon) (name : String) (info : Info) (host : String) : Prop :=
  info.localHost ≠ "" ∧ ∃ net, d.networks.get? name = some net ∧
    (net.moved (checkPeers info) ∨ net.changed (checkPeers info) host)

section

variable (hr : RxOk d) (ht : TxOk d)

include hr ht

theorem closeChanged_step (name : String) (info : Info)
    (es : List (Sigma fun _ : String => Peer)) :
    let d' := es.foldl (fun d e =>
      if e.2.allowed = (info.peers.get? e.1).bind (·.allowed) then d
      else closeTx name e.1 (closeRx name e.1 d)) d
    NetStep name d d' {k | k.1 = name ∧ ∃ e ∈ es, e.1 = k.2 ∧
      e.2.allowed ≠ (info.peers.get? e.1).bind (·.allowed)} ∧
      ∀ network, d'.peersOf network = d.peersOf network := by
  induction es generalizing d with
  | nil =>
    refine ⟨?_, fun _ => rfl⟩
    refine NetStep.congr (.refl hr ht) fun k _ => ?_
    simp
  | cons e es ih =>
    simp only [foldl_cons]
    by_cases heq : e.2.allowed = (info.peers.get? e.1).bind (·.allowed)
    · rw [if_pos heq]
      obtain ⟨hstep, hpeers⟩ := ih hr ht
      refine ⟨hstep.congr fun k _ => ?_, hpeers⟩
      simp only [mem_ofPred_eq, mem_cons, exists_eq_or_imp]
      tauto
    · rw [if_neg heq]
      have hrx := closeRx_closed hr (name, e.1)
      have htx := closeTx_closed (ht.of_same hrx.same) (name, e.1)
      have hone := (hrx.step name ht (by simp)).trans
        (htx.step name hrx.ok (by simp))
      obtain ⟨hstep, hpeers⟩ := ih hone.rx.ok hone.tx.ok
      refine ⟨(hone.trans hstep).congr fun k _ => ?_, fun network => ?_⟩
      · simp only [union_empty, mem_union, mem_singleton_iff, mem_ofPred_eq,
          mem_cons, exists_eq_or_imp, Prod.ext_iff]
        constructor
        · rintro (⟨hk, hk'⟩ | ⟨hk, hmem⟩)
          · exact ⟨hk, .inl ⟨hk'.symm, heq⟩⟩
          · exact ⟨hk, .inr hmem⟩
        · rintro ⟨hk, ⟨hk', -⟩ | hmem⟩
          · exact .inl ⟨hk, hk'.symm⟩
          · exact .inr ⟨hk, hmem⟩
      · rw [hpeers, htx.same.peersOf, hrx.peersOf]

theorem networkUpdate_step (hnet : d.networks.get? name = some net)
    (info : Info) (socket : Bool) :
    NetStep name d (networkUpdate name info socket d)
      {k | k.1 = name ∧ (net.moved info ∨ net.changed info k.2)} := by
  unfold networkUpdate
  simp only [hnet]
  by_cases hmoved : net.localHost ≠ info.localHost ∨ net.localAddress ≠ info.localAddress
  · rw [if_pos hmoved]
    have hclose := networkClose_step hr ht name
    have hopen := networkOpen_step hclose.rx.ok hclose.tx.ok (networks_networkClose d name) info socket
    refine (hclose.trans hopen).congr fun k _ => ?_
    have hm : net.moved info := hmoved
    simp [hm]
  · rw [if_neg hmoved]
    obtain ⟨hstep, hpeers⟩ := closeChanged_step hr ht name info net.peers.entries
    have hm : ¬ net.moved info := hmoved
    have hS : ∀ k : String × String, (d.rxChan k).isSome →
        (k ∈ {k : String × String | k.1 = name ∧ ∃ e ∈ net.peers.entries, e.1 = k.2 ∧
          e.2.allowed ≠ (info.peers.get? e.1).bind (·.allowed)} ↔
        k ∈ {k : String × String | k.1 = name ∧ (net.moved info ∨ net.changed info k.2)}) := by
      intro k _
      simp only [mem_ofPred_eq, hm, false_or, Net.changed]
      refine and_congr_right fun _ => ⟨?_, ?_⟩
      · rintro ⟨e, hmem, hk, hne⟩
        refine ⟨e.2, ?_, hk ▸ hne⟩
        rw [← hk]
        exact (Dict.mem_entries_iff _ _ _).mp hmem
      · rintro ⟨peer, hget, hne⟩
        exact ⟨⟨k.2, peer⟩, (Dict.mem_entries_iff _ _ _).mpr hget, rfl, hne⟩
    split
    · exact hstep.congr hS
    · rename_i net' hnet'
      have hset := setNet_step { net' with peers := info.peers } hstep.rx.ok hstep.tx.ok
        (fun host => rxChan_of_get? hnet' rfl) (fun host => txChan_of_get? hnet' rfl)
      refine (hstep.trans hset).congr fun k hsome => ?_
      rw [union_empty]
      exact hS k hsome

theorem peersOf_networkUpdate (hnet : d.networks.get? name = some net)
    {info : Info} {socket : Bool}
    (hpeers : (networkUpdate name info socket d).peersOf name = some peers) :
    peers = info.peers := by
  unfold networkUpdate at hpeers
  simp only [hnet] at hpeers
  split at hpeers
  · exact peersOf_networkOpen (networks_networkClose d name) hpeers
  · obtain ⟨-, hsame⟩ := closeChanged_step hr ht name info net.peers.entries
    split at hpeers
    · rename_i hnone
      have hsome := hsame name
      rw [peersOf_of_get? hnet] at hsome
      simp [peersOf, hnone] at hsome
    · rw [peersOf_setNet, if_pos rfl] at hpeers
      exact (some.inj hpeers).symm

/-! ## An update of all networks -/

theorem updateOne_step (socket : String → Bool) (e : String × Info) :
    NetStep e.1 d (updateOne socket d e) {k | k.1 = e.1 ∧ Drops d e.1 e.2 k.2} := by
  unfold updateOne
  split
  · refine NetStep.congr (.refl hr ht) fun k _ => ?_
    simp [Drops, *]
  · simp only
    cases hnet : d.networks.get? e.1 with
    | none =>
      simp only [isSome_none, Bool.false_eq_true, if_false]
      refine (networkOpen_step hr ht hnet _ _).congr fun k _ => ?_
      simp [Drops, hnet]
    | some net =>
      simp only [isSome_some, if_true]
      refine (networkUpdate_step hr ht hnet _ _).congr fun k _ => ?_
      simp [Drops, *]

theorem peersOf_updateOne {socket : String → Bool} {e : String × Info}
    (hlocal : e.2.localHost ≠ "") (hpeers : (updateOne socket d e).peersOf e.1 = some peers) :
    peers = (checkPeers e.2).peers := by
  unfold updateOne at hpeers
  rw [if_neg hlocal] at hpeers
  simp only at hpeers
  cases hnet : d.networks.get? e.1 with
  | none =>
    simp only [hnet, isSome_none, Bool.false_eq_true, if_false] at hpeers
    exact peersOf_networkOpen hnet hpeers
  | some net =>
    simp only [hnet, isSome_some, if_true] at hpeers
    exact peersOf_networkUpdate hr ht hnet hpeers

omit hr ht in
theorem Drops.congr (h : d'.networks.get? name = d.networks.get? name) (info : Info) (host : String) :
    Drops d' name info host ↔ Drops d name info host := by
  simp only [Drops, h]

/-- Networks that differ are updated, each one from the state at the start. -/
theorem updateAll_step (socket : String → Bool)
    (es : List (Sigma fun _ : String => Info)) (hnodup : es.NodupKeys) :
    let d' := es.foldl (fun d e => updateOne socket d (e.1, e.2)) d
    Less d d' {k | ∃ e ∈ es, k.1 = e.1 ∧ Drops d e.1 e.2 k.2} ∧
      ∀ network, (∀ e ∈ es, e.1 ≠ network) →
        d'.networks.get? network = d.networks.get? network := by
  induction es generalizing d with
  | nil =>
    refine ⟨?_, fun _ _ => rfl⟩
    refine Less.congr (.refl hr ht) fun k _ => ?_
    simp
  | cons e es ih =>
    rw [nodupKeys_cons] at hnodup
    have hone := updateOne_step hr ht socket (e.1, e.2)
    obtain ⟨hstep, hsame⟩ := ih hone.rx.ok hone.tx.ok hnodup.2
    have hne : ∀ e' ∈ es, e'.1 ≠ e.1 := by
      intro e' hmem heq
      exact hnodup.1 (heq ▸ mem_map_of_mem hmem)
    refine ⟨(hone.toLess.trans hstep).congr fun k _ => ?_, fun network hnot => ?_⟩
    · simp only [mem_union, mem_ofPred_eq, mem_cons, exists_eq_or_imp]
      refine or_congr_right (exists_congr fun e' => and_congr_right fun hmem => ?_)
      rw [Drops.congr (hone.elsewhere e'.1 (hne e' hmem))]
    · rw [foldl_cons, hsame network fun e' hmem => hnot e' (mem_cons_of_mem e hmem)]
      exact hone.elsewhere network (hnot e mem_cons_self).symm

theorem peersOf_updateAll (socket : String → Bool)
    (es : List (Sigma fun _ : String => Info)) (hnodup : es.NodupKeys)
    {e : Sigma fun _ : String => Info} (hmem : e ∈ es)
    (hpeers : (es.foldl (fun d e => updateOne socket d (e.1, e.2)) d).peersOf e.1 = some peers) :
    if e.2.localHost = "" then d.peersOf e.1 = some peers
    else peers = (checkPeers e.2).peers := by
  induction es generalizing d with
  | nil => cases hmem
  | cons e' es ih =>
    rw [nodupKeys_cons] at hnodup
    have hone := updateOne_step hr ht socket (e'.1, e'.2)
    rcases mem_cons.mp hmem with rfl | hmem
    · have hne : ∀ e' ∈ es, e'.1 ≠ e.1 := by
        intro e' hmem heq
        exact hnodup.1 (heq ▸ mem_map_of_mem hmem)
      obtain ⟨-, hsame⟩ := updateAll_step hone.rx.ok hone.tx.ok socket es hnodup.2
      rw [foldl_cons, peersOf, hsame e.1 hne] at hpeers
      split
      · rename_i hlocal
        rwa [updateOne, if_pos hlocal] at hpeers
      · exact peersOf_updateOne (e := (e.1, e.2)) hr ht ‹_› hpeers
    · have hne : e.1 ≠ e'.1 := by
        intro heq
        exact hnodup.1 (heq ▸ mem_map_of_mem hmem)
      have hrest := ih hone.rx.ok hone.tx.ok hnodup.2 hmem hpeers
      rwa [peersOf, hone.elsewhere e.1 hne] at hrest

theorem closeAll_step (names : List String) :
    let d' := names.foldl (fun d name => networkClose name d) d
    Less d d' {k | k.1 ∈ names} ∧
      (∀ network, network ∉ names → d'.networks.get? network = d.networks.get? network) ∧
      ∀ network ∈ names, d'.networks.get? network = none := by
  induction names generalizing d with
  | nil =>
    refine ⟨?_, fun _ _ => rfl, by simp⟩
    refine Less.congr (.refl hr ht) fun k _ => ?_
    simp
  | cons name names ih =>
    have hone := networkClose_step hr ht name
    obtain ⟨hstep, hsame, hnone⟩ := ih hone.rx.ok hone.tx.ok
    refine ⟨(hone.toLess.trans hstep).congr fun k _ => by simp, fun network hnot => ?_,
      fun network hmem => ?_⟩
    · rw [foldl_cons, hsame network fun hmem => hnot (mem_cons_of_mem name hmem)]
      exact hone.elsewhere network fun heq => hnot (heq ▸ mem_cons_self)
    · by_cases hmem' : network ∈ names
      · exact hnone network hmem'
      · have heq := (mem_cons.mp hmem).resolve_right hmem'
        subst network
        rw [foldl_cons, hsame name hmem']
        exact networks_networkClose d name

/-- What an update drops: networks that are gone, and peers with other patterns. -/
def Dropped (d : Daemon) (data : Dict String Info) (k : String × String) : Prop :=
  match data.get? k.1 with
  | some info => Drops d k.1 info k.2
  | none => True

theorem networkUpdates_step (socket : String → Bool)
    (data : Dict String Info) :
    Less d (networkUpdates socket data d) {k | Dropped d data k} := by
  obtain ⟨hall, hsame⟩ := updateAll_step hr ht socket data.entries data.nodupKeys
  obtain ⟨hclose, -, -⟩ := closeAll_step hall.rx.ok hall.tx.ok
    (AList.keys (data.entries.foldl (fun d e => updateOne socket d (e.1, e.2)) d).networks
      |>.filter fun name => (data.get? name).isNone)
  refine (hall.trans hclose).congr fun k hsome => ?_
  simp only [mem_union, mem_ofPred_eq, mem_filter, mem_keys_iff, Dropped]
  cases hdata : data.get? k.1 with
  | some info =>
    simp only [isNone_some, Bool.false_eq_true, and_false, or_false]
    constructor
    · rintro ⟨e, hmem, hk, hdrops⟩
      have hget := (Dict.mem_entries_iff data e.1 e.2).mp hmem
      rw [← hk, hdata, some.injEq] at hget
      rwa [hk, hget]
    · intro hdrops
      exact ⟨⟨k.1, info⟩, (Dict.mem_entries_iff data k.1 info).mpr hdata, rfl, hdrops⟩
  | none =>
    simp only [isNone_none, and_true, iff_true]
    right
    rw [hsame k.1]
    · cases hnet : d.networks.get? k.1 with
      | none => simp [rxChan, hnet] at hsome
      | some net => rfl
    · intro e hmem hk
      rw [← hk, (Dict.mem_entries_iff data e.1 e.2).mp hmem] at hdata
      cases hdata

theorem peersOf_networkUpdates {socket : String → Bool}
    {data : Dict String Info} (hpeers : (networkUpdates socket data d).peersOf network = some peers) :
    ∃ info, data.get? network = some info ∧
      if info.localHost = "" then d.peersOf network = some peers
      else peers = (checkPeers info).peers := by
  obtain ⟨hall, hsame⟩ := updateAll_step hr ht socket data.entries data.nodupKeys
  obtain ⟨-, hkept, hnone⟩ := closeAll_step hall.rx.ok hall.tx.ok
    (AList.keys (data.entries.foldl (fun d e => updateOne socket d (e.1, e.2)) d).networks
      |>.filter fun name => (data.get? name).isNone)
  simp only [networkUpdates, peersOf] at hpeers
  by_cases hmem : network ∈ (AList.keys (data.entries.foldl
      (fun d e => updateOne socket d (e.1, e.2)) d).networks
      |>.filter fun name => (data.get? name).isNone)
  · rw [hnone network hmem] at hpeers
    cases hpeers
  · rw [hkept network hmem] at hpeers
    simp only [mem_filter, mem_keys_iff, not_and] at hmem
    obtain ⟨net, hnet, -⟩ := map_eq_some_iff.mp hpeers
    have hdata := hmem (by rw [hnet]; rfl)
    cases hget : data.get? network with
    | none => simp [hget] at hdata
    | some info =>
      refine ⟨info, rfl, ?_⟩
      exact peersOf_updateAll hr ht socket data.entries data.nodupKeys
        (e := ⟨network, info⟩) ((Dict.mem_entries_iff data network info).mpr hget) hpeers

/-! ## Peers are connected -/

def openedTx (d : Daemon) (network name : String) (net : Net) : Daemon :=
  { setNet d network { net with txChannels := net.txChannels.set name d.next } with
    tx := d.tx.set d.next { network, name, auth := false }
    next := d.next + 1 }

omit hr ht in
/-- The old channel is closed, and there is a new one if there is a socket. -/
theorem openChannel_cases (d : Daemon) (network name : String) (socket : Bool) :
    openChannel network name socket d = closeTx network name d ∨
      ∃ net, (closeTx network name d).networks.get? network = some net ∧
        openChannel network name socket d = openedTx (closeTx network name d) network name net := by
  cases socket with
  | false => exact .inl rfl
  | true =>
    cases hold : (d.networks.get? network).bind fun net => net.txChannels.get? name with
    | none =>
      simp only [openChannel, closeTx, hold, Bool.not_true, Bool.false_eq_true, if_false]
      cases hnet : d.networks.get? network with
      | none => exact .inl rfl
      | some net => exact .inr ⟨net, rfl, rfl⟩
    | some old =>
      simp only [openChannel, closeTx, hold, Bool.not_true, Bool.false_eq_true, if_false]
      cases hnet : (txSocketClose d old).networks.get? network with
      | none => exact .inl rfl
      | some net => exact .inr ⟨net, rfl, rfl⟩

theorem openChannel_step (network name : String) (socket : Bool) :
    NetStep network d (openChannel network name socket d) ∅ ∧
      RxSame d (openChannel network name socket d) := by
  have hclose := closeTx_closed ht (network, name)
  have hstep := hclose.step network hr (by simp)
  rcases openChannel_cases d network name socket with heq | ⟨net, hnet, heq⟩
  · rw [heq]
    exact ⟨hstep, hclose.same⟩
  rw [heq]
  generalize closeTx network name d = d' at hclose hstep hnet
  have hnext : d'.tx.get? d'.next = none := Registry.get?_next hclose.ok
  have hsame : RxSame d' (openedTx d' network name net) := by
    have hs : RxSame d' (setNet d' network
      { net with txChannels := net.txChannels.set name d'.next }) := .setNet hnet rfl rfl
    exact ⟨rfl, hs.rxChan, hs.peersOf, rfl, le_succ _⟩
  refine ⟨⟨⟨?_, hclose.quiet.trans ?_⟩, ?_⟩, hclose.same.trans hsame⟩
  · exact (hclose.same.trans hsame).less hr
  · refine ⟨?_, ?_, rfl, rfl, le_succ _, [], by simp, rfl⟩
    · refine Registry.register (k := (network, name)) hclose.ok ?_ rfl ?_ (lt_succ_self _)
        (le_succ _) ?_
      · intro old hget
        rw [hnext] at hget
        cases hget
      · exact hclose.txChan _ rfl
      · intro k
        refine (txChan_setNet d' network
          { net with txChannels := net.txChannels.set name d'.next } k).trans ?_
        by_cases hk : k.1 = network
        · rw [if_pos hk, Dict.get?_set, txChan_of_get? hnet hk]
          by_cases hk' : k.2 = name
          · rw [if_pos hk', if_pos (Prod.ext hk hk')]
          · rw [if_neg hk', if_neg fun hc => hk' (congrArg Prod.snd hc)]
        · rw [if_neg hk, if_neg fun hc => hk (congrArg Prod.fst hc)]
    · intro chan conn hget hauth
      simp only [openedTx, Dict.get?_set] at hget
      split at hget
      · cases hget
        cases hauth
      · exact hget
  · intro network' hne
    exact (Dict.get?_set_ne _ hne _).trans (hstep.elsewhere network' hne)

/-- The peers without an authenticated channel are connected to. -/
theorem openPeers_step (network : String) (socket : String → Bool)
    (es : List (Sigma fun _ : String => Peer)) :
    let d' := es.foldl (fun d e =>
      match d.networks.get? network with
      | some now => if txAuth d now e.1 then d else openChannel network e.1 (socket e.1) d
      | none => d) d
    NetStep network d d' ∅ ∧ RxSame d d' := by
  induction es generalizing d with
  | nil => exact ⟨.refl hr ht, .refl d⟩
  | cons e es ih =>
    have hone : NetStep network d (match d.networks.get? network with
        | some now => if txAuth d now e.1 then d else openChannel network e.1 (socket e.1) d
        | none => d) ∅ ∧ RxSame d (match d.networks.get? network with
        | some now => if txAuth d now e.1 then d else openChannel network e.1 (socket e.1) d
        | none => d) := by
      split
      · split
        · exact ⟨.refl hr ht, .refl d⟩
        · exact openChannel_step hr ht network e.1 (socket e.1)
      · exact ⟨.refl hr ht, .refl d⟩
    obtain ⟨hstep, hsame⟩ := ih hone.1.rx.ok hone.1.tx.ok
    refine ⟨?_, hone.2.trans hsame⟩
    have hboth := hone.1.trans hstep
    rwa [union_empty] at hboth

theorem connectPeers_step (network : String) (socket : String → Bool) :
    Less d (connectPeers network socket d)
      {k | k.1 = network ∧ ∃ peers, d.peersOf network = some peers ∧ peers.get? k.2 = none} ∧
      ∀ network', (connectPeers network socket d).peersOf network' = d.peersOf network' := by
  unfold connectPeers
  cases hnet : d.networks.get? network with
  | none =>
    refine ⟨Less.congr (.refl hr ht) fun k _ => ?_, fun _ => rfl⟩
    simp [peersOf, hnet]
  | some net =>
    simp only [← foldl_filter (p := fun host => (net.peers.get? host).isNone)]
    obtain ⟨hopen, hopenSame⟩ := openPeers_step hr ht network socket net.peers.entries
    generalize net.peers.entries.foldl _ d = d' at hopen hopenSame
    have htx := closeTx_foldl_closed network (((d'.networks.get? network).map fun now =>
      now.txChannels.keys).getD [] |>.filter fun host => (net.peers.get? host).isNone) hopen.tx.ok
    have htxStep := htx.step network hopen.rx.ok fun k hk => hk.1
    generalize List.foldl _ d' _ = d'' at htx htxStep
    have hrx := closeRx_foldl_closed network (((d''.networks.get? network).map fun now =>
      now.rxChannels.keys).getD [] |>.filter fun host => (net.peers.get? host).isNone)
      htxStep.rx.ok
    have hrxStep := hrx.step network htxStep.tx.ok fun k hk => hk.1
    refine ⟨((hopen.trans htxStep).trans hrxStep).toLess.congr fun k hsome => ?_, fun network' => ?_⟩
    · rw [← hopenSame.rxChan, ← htx.same.rxChan] at hsome
      simp only [union_empty, empty_union, mem_ofPred_eq, mem_filter,
        isNone_iff_eq_none]
      refine and_congr_right fun hk => ?_
      subst network
      have hmem : k.2 ∈ ((d''.networks.get? k.1).map fun now => now.rxChannels.keys).getD [] := by
        cases hnet'' : d''.networks.get? k.1 with
        | none => simp [rxChan, hnet''] at hsome
        | some now =>
          rw [rxChan_of_get? hnet'' rfl] at hsome
          exact (mem_keys_iff _ _).mpr hsome
      simp [hmem, peersOf_of_get? hnet]
    · rw [hrx.peersOf, htx.same.peersOf, hopenSame.peersOf]

end

end LibWrt.Unetmsg
