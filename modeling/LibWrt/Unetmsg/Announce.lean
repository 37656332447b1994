/-
LibWrt.Unetmsg.Announce — what the peers are told of the local names.

`lastEnabled` is what was sent last of a name over a channel, since it was
authenticated. A handle that comes or goes is told to the channels that are up,
and a channel that comes up gets all names of the tables. The tables keep names
whose last handle is gone, and these are told as enabled as well:
`agree_iff` is about the runs where no channel comes up at such a time.
-/
import LibWrt.Unetmsg.Clients

namespace LibWrt.Unetmsg

open List Option Dict Function Nat

/-! ## What was sent -/

section Sent

variable (chan : Nat) (kind : Kind) (name : String)

/-- The value that was sent last, the newest output first. -/
def lastEnabled : List Output → Bool
  | [] => false
  | .up c :: log => if c = chan then false else lastEnabled log
  | .announce c k n enabled :: log =>
    if c = chan ∧ k = kind ∧ n = name then enabled else lastEnabled log
  | .deliver .. :: log => lastEnabled log
  | .forward .. :: log => lastEnabled log

variable {chan kind name}

theorem lastEnabled_calls {outs : List Output} (hcall : ∀ o ∈ outs, o.isCall = true)
    (log : List Output) :
    lastEnabled chan kind name (outs ++ log) = lastEnabled chan kind name log := by
  induction outs with
  | nil => rfl
  | cons o outs ih =>
    have ih := ih fun o ho => hcall o (mem_cons_of_mem _ ho)
    have ho := hcall o mem_cons_self
    cases o with
    | up | announce => cases ho
    | deliver => exact ih
    | forward => exact ih

/-- A name is told to some channels. -/
theorem lastEnabled_announce (chans : List Nat) (k : Kind) (n : String) (enabled : Bool)
    (log : List Output) :
    lastEnabled chan kind name (chans.map (fun c => .announce c k n enabled) ++ log) =
      if chan ∈ chans ∧ kind = k ∧ name = n then enabled else lastEnabled chan kind name log := by
  induction chans with
  | nil => simp
  | cons c chans ih =>
    simp only [map_cons, cons_append, lastEnabled, ih, mem_cons]
    by_cases hc : c = chan
    · by_cases hkn : kind = k ∧ name = n
      · simp [hc, hkn.1, hkn.2]
      · have hkn' : ¬ (k = kind ∧ n = name) := fun h => hkn ⟨h.1.symm, h.2.symm⟩
        simp [hc, hkn, hkn']
    · simp [hc, Ne.symm hc]

theorem lastEnabled_names (c : Nat) (k : Kind) (es : List (Sigma fun _ : String => Dict Nat Nat))
    (log : List Output) :
    lastEnabled chan kind name (es.map (fun e => .announce c k e.1 true) ++ log) =
      (decide (c = chan ∧ k = kind ∧ name ∈ es.map Sigma.fst) ||
        lastEnabled chan kind name log) := by
  induction es with
  | nil => simp
  | cons e es ih =>
    simp only [map_cons, cons_append, lastEnabled, ih, mem_cons]
    by_cases hck : c = chan ∧ k = kind
    · by_cases hname : e.1 = name
      · simp [hck.1, hck.2, hname]
      · simp [hck.1, hck.2, hname, Ne.symm hname]
    · have hne : ∀ p : Prop, ¬ (c = chan ∧ k = kind ∧ p) := fun p h => hck ⟨h.1, h.2.1⟩
      simp [hne]

theorem lastEnabled_up (c : Nat) (log : List Output) :
    lastEnabled chan kind name (.up c :: log) =
      if c = chan then false else lastEnabled chan kind name log := rfl

/-- A channel that comes up is told the names of the tables. -/
theorem lastEnabled_snapshot (d : Daemon) (c : Nat) (log : List Output) :
    lastEnabled chan kind name (snapshot d c ++ .up c :: log) =
      if c = chan then ((d.handles kind).get? name).isSome
      else lastEnabled chan kind name log := by
  have hmem : ∀ kind, name ∈ (d.handles kind).entries.map Sigma.fst ↔
      ((d.handles kind).get? name).isSome = true := fun kind => mem_keys_iff _ _
  simp only [snapshot, flatMap_cons, flatMap_nil, append_nil, append_assoc,
    lastEnabled_names, lastEnabled_up, hmem]
  by_cases hc : c = chan
  · cases kind <;> simp [hc]
  · simp [hc]

end Sent

/-! ## Handles -/

def HasClient (d : Daemon) (kind : Kind) (name : String) : Prop :=
  ∃ client cl, d.clients.get? client = some cl ∧ ((cl.lists kind).get? name).isSome

def Daemon.handle (d : Daemon) (kind : Kind) (name : String) (h : Nat) : Option Nat :=
  ((d.handles kind).get? name).bind fun list => list.get? h

/-- The handles are those of the clients that are connected, one for each name. -/
structure Served (d : Daemon) : Prop where
  handle_iff : ∀ kind name h client, d.handle kind name h = some client ↔
    ∃ cl, d.clients.get? client = some cl ∧ (cl.lists kind).get? name = some h
  client_lt : ∀ client cl, d.clients.get? client = some cl → client < d.next
  handle_lt : ∀ kind name h client, d.handle kind name h = some client → h < d.next

section Handles

variable {d d' : Daemon}

theorem size_ne_zero_iff {K V : Type} [DecidableEq K] (dict : Dict K V) :
    dict.size ≠ 0 ↔ ∃ k v, dict.get? k = some v := by
  rw [Dict.size, ne_eq, length_eq_zero_iff]
  constructor
  · intro hne
    obtain ⟨e, hmem⟩ := exists_mem_of_ne_nil _ hne
    exact ⟨e.1, e.2, (mem_entries_iff dict e.1 e.2).mp hmem⟩
  · rintro ⟨k, v, hget⟩ hnil
    have hmem := (mem_entries_iff dict k v).mpr hget
    rw [hnil] at hmem
    cases hmem

theorem hasHandle_iff (kind : Kind) (name : String) :
    hasHandle d kind name = true ↔ ∃ h client, d.handle kind name h = some client := by
  unfold hasHandle Daemon.handle
  cases (d.handles kind).get? name with
  | none => simp
  | some list => simpa using size_ne_zero_iff list

theorem Served.hasHandle_iff (h : Served d) (kind : Kind) (name : String) :
    hasHandle d kind name = true ↔ HasClient d kind name := by
  rw [Unetmsg.hasHandle_iff]
  constructor
  · rintro ⟨handle, client, heq⟩
    obtain ⟨cl, hcl, hget⟩ := (h.handle_iff kind name handle client).mp heq
    exact ⟨client, cl, hcl, by rw [hget]; rfl⟩
  · rintro ⟨client, cl, hcl, hsome⟩
    obtain ⟨handle, hget⟩ := isSome_iff_exists.mp hsome
    exact ⟨handle, client, (h.handle_iff kind name handle client).mpr ⟨cl, hcl, hget⟩⟩

theorem Served.congr (h : Served d) (hhandles : d'.handles = d.handles)
    (hclients : d'.clients = d.clients) (hnext : d.next ≤ d'.next) : Served d' := by
  have hhandle : d'.handle = d.handle := by
    unfold Daemon.handle
    rw [hhandles]
  refine ⟨?_, ?_, ?_⟩
  · rw [hhandle, hclients]
    exact h.handle_iff
  · rw [hclients]
    exact fun client cl hcl => (h.client_lt client cl hcl).trans_le hnext
  · rw [hhandle]
    exact fun kind name handle client heq => (h.handle_lt kind name handle client heq).trans_le hnext

theorem get?_getD (dict : Dict String (Dict Nat Nat)) (name : String) (h : Nat) :
    ((dict.get? name).getD ∅).get? h = (dict.get? name).bind fun list => list.get? h := by
  cases dict.get? name <;> rfl

theorem handle_setHandles (d : Daemon) (kind : Kind) (name : String) (list : Dict Nat Nat)
    (k : Kind) (n : String) (h : Nat) : (setHandles d kind name list).handle k n h =
      if k = kind ∧ n = name then list.get? h else d.handle k n h := by
  simp only [Daemon.handle, setHandles]
  by_cases hk : k = kind
  · subst k
    by_cases hn : n = name <;> simp [hn, get?_set]
  · simp [hk]

/-- A client gets a handle. -/
theorem handle_pubsubAdd (d : Daemon) (kind : Kind) (name : String) (client : Nat)
    (k : Kind) (n : String) (h : Nat) : (pubsubAdd d kind name client).1.handle k n h =
      if k = kind ∧ n = name ∧ h = d.next then some client else d.handle k n h := by
  have hmain : ∀ d' : Daemon, d'.next = d.next →
      (∀ k n h, ¬ (k = kind ∧ n = name) → d'.handle k n h = d.handle k n h) →
      ({ setHandles d' kind name ((((d.handles kind).get? name).getD ∅).set d'.next client) with
        next := d'.next + 1 } : Daemon).handle k n h =
        if k = kind ∧ n = name ∧ h = d.next then some client else d.handle k n h := by
    intro d' hnext hsame
    refine (handle_setHandles d' kind name _ k n h).trans ?_
    by_cases hkn : k = kind ∧ n = name
    · rw [if_pos hkn, get?_set, hnext, get?_getD]
      simp only [hkn.1, hkn.2, true_and]
      rfl
    · rw [if_neg hkn, hsame k n h hkn, if_neg fun hc => hkn ⟨hc.1, hc.2.1⟩]
  simp only [pubsubAdd]
  split
  · refine hmain _ rfl fun k n h hkn => ?_
    exact (handle_setHandles d kind name _ k n h).trans (if_neg hkn)
  · exact hmain d rfl fun _ _ _ _ => rfl

/-- A handle goes. -/
theorem handle_pubsubDel (d : Daemon) (kind : Kind) (name : String) (handle : Nat)
    (k : Kind) (n : String) (h : Nat) : (pubsubDel d kind name handle).handle k n h =
      if k = kind ∧ n = name ∧ h = handle then none else d.handle k n h := by
  have hmain : (setHandles d kind name
      ((((d.handles kind).get? name).getD ∅).del handle)).handle k n h =
        if k = kind ∧ n = name ∧ h = handle then none else d.handle k n h := by
    rw [handle_setHandles]
    by_cases hkn : k = kind ∧ n = name
    · rw [if_pos hkn, get?_del, get?_getD]
      simp only [hkn.1, hkn.2, true_and]
      rfl
    · rw [if_neg hkn, if_neg fun hc => hkn ⟨hc.1, hc.2.1⟩]
  simp only [pubsubDel]
  split <;> exact hmain

end Handles

/-! ## Clients come and go -/

variable {d : Daemon}

theorem Served.clientAdd (h : Served d) (kind : Kind) (client : Nat) (name : String) :
    Served (clientAdd kind client d name) := by
  unfold Unetmsg.clientAdd
  split
  · exact h
  rename_i cl hcl
  split
  · exact h
  rename_i hnone
  rw [Bool.not_eq_true, isSome_eq_false_iff, isNone_iff_eq_none] at hnone
  have hhandle := handle_pubsubAdd d kind name client
  have hclients : (pubsubAdd d kind name client).1.clients = d.clients := by
    simp only [pubsubAdd]
    split <;> rfl
  have hnext : (pubsubAdd d kind name client).1.next = d.next + 1 := by
    simp only [pubsubAdd]
    split <;> rfl
  have hid : (pubsubAdd d kind name client).2 = d.next := by
    simp only [pubsubAdd]
    split <;> rfl
  generalize pubsubAdd d kind name client = r at hhandle hclients hnext hid
  obtain ⟨d', handle⟩ := r
  simp only at hhandle hclients hnext hid
  subst handle
  have hset : Served { d' with clients := d'.clients.set client { cl with
      lists := update cl.lists kind ((cl.lists kind).set name d.next) } } := by
    refine ⟨fun k n i c => ?_, fun c cl' hget => ?_, fun k n i c heq => ?_⟩
    · change d'.handle k n i = some c ↔ _
      rw [hhandle]
      simp only [hclients, get?_set]
      by_cases hc : c = client
      · subst c
        simp only [if_pos, some.injEq, exists_eq_left']
        by_cases hk : k = kind
        · subst k
          simp only [update_self, get?_set, true_and]
          by_cases hn : n = name
          · subst n
            simp only [if_pos, true_and, some.injEq]
            by_cases hi : i = d.next
            · simp [hi]
            · have hnot : d.handle kind name i ≠ some client := by
                intro heq
                obtain ⟨cl', hcl', hget⟩ := (h.handle_iff kind name i client).mp heq
                rw [hcl, some.injEq] at hcl'
                subst cl'
                rw [hnone] at hget
                cases hget
              simp [hi, hnot, Ne.symm hi]
          · rw [if_neg (fun hc => hn hc.1), h.handle_iff, if_neg hn]
            simp [hcl]
        · rw [if_neg (fun hc => hk hc.1), h.handle_iff, update_of_ne hk]
          simp [hcl]
      · rw [if_neg hc, ← h.handle_iff]
        split
        · rename_i hkni
          obtain ⟨rfl, rfl, rfl⟩ := hkni
          have hlt := h.handle_lt k n d.next c
          simp only [some.injEq, Ne.symm hc, false_iff]
          intro heq
          exact absurd (hlt heq) (Nat.lt_irrefl _)
        · rfl
    · simp only [hclients, get?_set] at hget
      have hlt : c < d.next := by
        split at hget
        · subst c
          exact h.client_lt client cl hcl
        · exact h.client_lt c cl' hget
      exact hlt.trans_le (hnext ▸ le_succ _)
    · change d'.handle k n i = some c at heq
      change i < d'.next
      rw [hhandle] at heq
      split at heq
      · omega
      · have := h.handle_lt k n i c heq
        omega
  simp only
  split
  · obtain ⟨outs, -, heq⟩ := calls_handlePublish { d' with clients := d'.clients.set client { cl with
      lists := update cl.lists kind ((cl.lists kind).set name d.next) } } (some client) name
    rw [heq]
    exact hset.congr rfl rfl (le_refl _)
  · exact hset

/-- The handles that a client loses. -/
theorem handle_clientDel (d : Daemon) (kind : Kind) (client : Nat) (name : String) (handle : Nat)
    (k : Kind) (n : String) (h : Nat) : (clientDel kind client d name handle).handle k n h =
      if k = kind ∧ n = name ∧ h = handle then none else d.handle k n h := by
  unfold clientDel
  simp only
  rw [handle_pubsubDel]
  split
  · rfl
  · split
    · obtain ⟨outs, -, heq⟩ := calls_handlePublish d (some client) name
      rw [heq]
      rfl
    · rfl

theorem handle_clientDel_foldl (kind : Kind) (client : Nat) (es : List (Sigma fun _ : String => Nat))
    (d : Daemon) (k : Kind) (n : String) (h : Nat) :
    (es.foldl (fun d e => clientDel kind client d e.1 e.2) d).handle k n h =
      if k = kind ∧ ⟨n, h⟩ ∈ es then none else d.handle k n h := by
  induction es generalizing d with
  | nil => simp
  | cons e es ih =>
    rw [foldl_cons, ih, handle_clientDel]
    have hmem : (⟨n, h⟩ : Sigma fun _ : String => Nat) = e ↔ n = e.1 ∧ h = e.2 := by
      obtain ⟨n', h'⟩ := e
      simp
    simp only [mem_cons, hmem]
    by_cases hk : k = kind
    · by_cases hin : (⟨n, h⟩ : Sigma fun _ : String => Nat) ∈ es <;> simp [hk, hin]
    · simp [hk]

theorem clients_clientDel_foldl (kind : Kind) (client : Nat)
    (es : List (Sigma fun _ : String => Nat)) (d : Daemon) :
    (es.foldl (fun d e => clientDel kind client d e.1 e.2) d).clients = d.clients := by
  induction es generalizing d with
  | nil => rfl
  | cons e es ih =>
    rw [foldl_cons, ih]
    simp only [clientDel, pubsubDel]
    split <;> split <;> rfl

/-- What a client leaves that goes. -/
theorem clientDisconnect_of_get? {client : Nat} {cl : Client}
    (hcl : d.clients.get? client = some cl) :
    ∃ d', clientDisconnect d client = { d' with clients := d'.clients.del client } ∧
      d'.clients = d.clients ∧ Local d d' ∧
      ∀ k n h, d'.handle k n h =
        if (cl.lists k).get? n = some h then none else d.handle k n h := by
  have hdrop : ∀ kind d, Local d ((cl.lists kind).entries.foldl
      (fun d e => clientDel kind client d e.1 e.2) d) := fun kind d =>
    Local.foldl (fun d (e : Sigma fun _ : String => Nat) =>
      clientDel_local kind client d e.1 e.2) _ d
  refine ⟨_, by simp only [clientDisconnect, hcl], ?_,
    (hdrop .publish d).trans (hdrop .subscribe _), ?_⟩
  · rw [clients_clientDel_foldl, clients_clientDel_foldl]
  · intro k n h
    rw [handle_clientDel_foldl, handle_clientDel_foldl]
    cases k <;> simp [mem_entries_iff]

theorem Served.clientDisconnect (h : Served d) (client : Nat) :
    Served (clientDisconnect d client) := by
  cases hcl : d.clients.get? client with
  | none =>
    simp only [Unetmsg.clientDisconnect, hcl]
    exact h
  | some cl =>
    obtain ⟨d', heq, hclients, hlocal, hhandle⟩ := clientDisconnect_of_get? hcl
    rw [heq]
    refine ⟨fun k n i c => ?_, fun c cl' hget => ?_, fun k n i c heq => ?_⟩
    · change d'.handle k n i = some c ↔ _
      rw [hhandle]
      simp only [hclients, get?_del]
      by_cases hc : c = client
      · subst c
        simp only [if_pos, reduceCtorEq, false_and, exists_false, iff_false]
        split
        · simp
        · rename_i hnot
          rw [h.handle_iff]
          simpa [hcl] using hnot
      · rw [if_neg hc, ← h.handle_iff]
        split
        · rename_i hget
          -- The handle was the one of the client that goes.
          have hown := (h.handle_iff k n i client).mpr ⟨cl, hcl, hget⟩
          simp [hown, Ne.symm hc]
        · rfl
    · simp only [hclients, get?_del] at hget
      split at hget
      · cases hget
      · exact (h.client_lt c cl' hget).trans_le hlocal.next
    · change d'.handle k n i = some c at heq
      rw [hhandle] at heq
      split at heq
      · cases heq
      · exact (h.handle_lt k n i c heq).trans_le hlocal.next

/-! ## What the peers know -/

/-- Over each channel that is up, this was sent last of each name. -/
def Sent (d : Daemon) (f : Kind → String → Bool) : Prop :=
  ∀ chan conn, d.tx.get? chan = some conn → conn.auth = true →
    ∀ kind name, lastEnabled chan kind name d.log = f kind name

/-- The peers know of a name what is so, and the names are those of the clients. -/
structure Agree (d : Daemon) : Prop where
  sent : Sent d (hasHandle d)
  served : ∀ kind name, hasHandle d kind name = true ↔ HasClient d kind name

/-- A table has no name whose last handle is gone. -/
def NoneLeft (d : Daemon) : Prop :=
  ∀ kind name, ((d.handles kind).get? name).isSome → hasHandle d kind name = true

section Sent

variable {d d' : Daemon} {f : Kind → String → Bool}

theorem Sent.congr {g : Kind → String → Bool} (h : Sent d f)
    (heq : ∀ kind name, g kind name = f kind name) : Sent d g := by
  intro chan conn hget hauth kind name
  rw [heq]
  exact h chan conn hget hauth kind name

theorem sent_calls_iff (hc : Calls d d') : Sent d' f ↔ Sent d f := by
  obtain ⟨outs, hcall, rfl⟩ := hc
  simp only [Sent, lastEnabled_calls hcall]

theorem Sent.quiet (h : Sent d f) (hq : TxQuiet d d') : Sent d' f := by
  obtain ⟨outs, hcall, heq⟩ := hq.log
  intro chan conn hget hauth kind name
  rw [heq, lastEnabled_calls hcall]
  exact h chan conn (hq.auth chan conn hget hauth) hauth kind name

theorem mem_authChannels (ht : TxOk d) {chan : Nat} {conn : TxConn}
    (hget : d.tx.get? chan = some conn) (hauth : conn.auth = true) : chan ∈ authChannels d := by
  have hreg : d.txChan (conn.network, conn.name) = some chan := Registry.reg_of_get? ht hget rfl
  obtain ⟨net, hnet, hchan⟩ := bind_eq_some_iff.mp hreg
  rw [authChannels, mem_flatMap]
  refine ⟨⟨conn.network, net⟩, (mem_entries_iff _ _ _).mpr hnet, ?_⟩
  rw [mem_filterMap]
  refine ⟨⟨conn.name, chan⟩, (mem_entries_iff _ _ _).mpr hchan, ?_⟩
  simp only [hget, hauth, if_true]

theorem sent_pubsubSet (h : Sent d f) (ht : TxOk d) (kind : Kind) (name : String)
    (enabled : Bool) : Sent (pubsubSet d kind name enabled)
      fun k n => if k = kind ∧ n = name then enabled else f k n := by
  intro chan conn hget hauth k n
  simp only [pubsubSet, lastEnabled_announce, mem_authChannels ht hget hauth, true_and]
  rw [h chan conn hget hauth]

theorem hasHandle_of_handle {d' : Daemon} {kind : Kind} {name : String}
    (h : ∀ i, d'.handle kind name i = d.handle kind name i) :
    hasHandle d' kind name = hasHandle d kind name := by
  rw [Bool.eq_iff_iff, hasHandle_iff, hasHandle_iff]
  simp only [h]

theorem hasHandle_setHandles (d : Daemon) (kind : Kind) (name : String) (list : Dict Nat Nat)
    (k : Kind) (n : String) : hasHandle (setHandles d kind name list) k n =
      if k = kind ∧ n = name then decide (list.size ≠ 0) else hasHandle d k n := by
  simp only [hasHandle, setHandles]
  by_cases hk : k = kind
  · subst k
    by_cases hn : n = name <;> simp [hn, get?_set]
  · simp [hk]

theorem sent_pubsubAdd (h : Sent d (hasHandle d)) (ht : TxOk d) (kind : Kind) (name : String)
    (client : Nat) : Sent (pubsubAdd d kind name client).1
      (hasHandle (pubsubAdd d kind name client).1) := by
  have hhas : ∀ k n, hasHandle (pubsubAdd d kind name client).1 k n =
      if k = kind ∧ n = name then true else hasHandle d k n := by
    intro k n
    split
    · rename_i hkn
      rw [hasHandle_iff]
      refine ⟨d.next, client, ?_⟩
      rw [handle_pubsubAdd, if_pos ⟨hkn.1, hkn.2, rfl⟩]
    · rename_i hkn
      apply hasHandle_of_handle
      intro i
      rw [handle_pubsubAdd, if_neg fun hc => hkn ⟨hc.1, hc.2.1⟩]
  refine Sent.congr ?_ hhas
  unfold pubsubAdd
  simp only
  split
  · exact sent_pubsubSet (d := setHandles d kind name _) h ht kind name true
  · rename_i hnot
    -- It is known already.
    refine Sent.congr (f := hasHandle d) h fun k n => ?_
    split
    · rename_i hkn
      simp only [Bool.or_eq_true, Bool.not_eq_true', not_or, Bool.not_eq_false] at hnot
      rw [hkn.1, hkn.2, hnot.1]
    · rfl

theorem sent_pubsubDel (h : Sent d (hasHandle d)) (ht : TxOk d) (kind : Kind) (name : String)
    (handle : Nat) : Sent (pubsubDel d kind name handle)
      (hasHandle (pubsubDel d kind name handle)) := by
  have hset := hasHandle_setHandles d kind name ((((d.handles kind).get? name).getD ∅).del handle)
  unfold pubsubDel
  simp only
  split
  · have hsent := sent_pubsubSet (d := setHandles d kind name
      ((((d.handles kind).get? name).getD ∅).del handle)) h ht kind name
      (((((d.handles kind).get? name).getD ∅).del handle).size ≠ 0)
    exact hsent.congr hset
  · rename_i hnot
    refine Sent.congr (f := hasHandle d) h fun k n => ?_
    rw [hset]
    split
    · rename_i hkn
      -- Another handle is left, and was there before.
      obtain ⟨hsize, -⟩ := not_or.mp hnot
      obtain ⟨i, c, hget⟩ := (size_ne_zero_iff _).mp hsize
      rw [get?_del] at hget
      split at hget
      · cases hget
      · rw [get?_getD] at hget
        have hold := (hasHandle_iff (d := d) kind name).mpr ⟨i, c, hget⟩
        rw [hkn.1, hkn.2, hold]
        exact decide_eq_true hsize
    · rfl

end Sent

/-! ## Runs -/

/-- The channels, the handles, and what the peers know. -/
structure Knows (d : Daemon) : Prop where
  ok : Ok d
  served : Served d
  sent : Sent d (hasHandle d)

theorem Knows.agree (h : Knows d) : Agree d :=
  ⟨h.sent, h.served.hasHandle_iff⟩

theorem Knows.init : Knows .init := by
  refine ⟨.init, ⟨?_, by simp [Daemon.init], ?_⟩, by simp [Sent, Daemon.init]⟩
  · simp [Daemon.handle, Daemon.init]
  · simp [Daemon.handle, Daemon.init]

theorem Knows.quiet {d' : Daemon} (h : Knows d) (hrx : RxOk d') (hq : TxQuiet d d') :
    Knows d' := by
  refine ⟨⟨hrx, hq.ok⟩, h.served.congr hq.handles hq.clients hq.next, ?_⟩
  have hhas : hasHandle d' = hasHandle d := by
    funext kind name
    simp only [hasHandle, hq.handles]
  rw [hhas]
  exact h.sent.quiet hq

theorem sent_of_calls {d' : Daemon} (hc : Calls d d') :
    Sent d' (hasHandle d') ↔ Sent d (hasHandle d) := by
  have hsent := sent_calls_iff (f := hasHandle d) hc
  obtain ⟨outs, -, rfl⟩ := hc
  exact hsent

theorem Knows.clientAdd (h : Knows d) (kind : Kind) (client : Nat) (name : String) :
    Knows (clientAdd kind client d name) := by
  refine ⟨(clientAdd_local kind client d name).ok h.ok, h.served.clientAdd kind client name, ?_⟩
  unfold Unetmsg.clientAdd
  split
  · exact h.sent
  split
  · exact h.sent
  have hadd := sent_pubsubAdd h.sent h.ok.tx kind name client
  generalize pubsubAdd d kind name client = r at hadd
  simp only
  split
  · exact (sent_of_calls (calls_handlePublish _ _ name)).mpr hadd
  · exact hadd

theorem sent_clientDel (h : Sent d (hasHandle d)) (ht : TxOk d) (kind : Kind) (client : Nat)
    (name : String) (handle : Nat) :
    Sent (clientDel kind client d name handle) (hasHandle (clientDel kind client d name handle)) := by
  unfold clientDel
  simp only
  split
  · have hcalls := calls_handlePublish d (some client) name
    exact sent_pubsubDel ((sent_of_calls hcalls).mpr h) (ht.of_same hcalls.txSame) kind name handle
  · exact sent_pubsubDel h ht kind name handle

theorem sent_clientDel_foldl (kind : Kind) (client : Nat) (es : List (Sigma fun _ : String => Nat))
    (h : Sent d (hasHandle d)) (ht : TxOk d) :
    let d' := es.foldl (fun d e => clientDel kind client d e.1 e.2) d
    Sent d' (hasHandle d') ∧ TxOk d' := by
  induction es generalizing d with
  | nil => exact ⟨h, ht⟩
  | cons e es ih =>
    exact ih (sent_clientDel h ht kind client e.1 e.2)
      ((clientDel_local kind client d e.1 e.2).txOk ht)

theorem Knows.clientDisconnect (h : Knows d) (client : Nat) :
    Knows (clientDisconnect d client) := by
  refine ⟨(clientDisconnect_local d client).ok h.ok, h.served.clientDisconnect client, ?_⟩
  unfold Unetmsg.clientDisconnect
  split
  · exact h.sent
  rename_i cl _
  obtain ⟨hpub, ht⟩ := sent_clientDel_foldl .publish client (cl.lists .publish).entries h.sent h.ok.tx
  exact (sent_clientDel_foldl .subscribe client (cl.lists .subscribe).entries hpub ht).1

/-- A channel comes up, and is told of the names of the tables. -/
theorem sent_authData_iff (h : Sent d (hasHandle d)) {chan : Nat} {conn : TxConn}
    (hget : d.tx.get? chan = some conn) :
    Sent (authData d chan) (hasHandle (authData d chan)) ↔ NoneLeft d := by
  rw [sent_of_calls (authData_calls hget)]
  constructor
  · intro hsent kind name hsome
    have heq := hsent chan { conn with auth := true } (get?_set_self _ _ _) rfl kind name
    rw [comeUp, lastEnabled_snapshot, if_pos rfl] at heq
    rw [hsome] at heq
    exact heq.symm
  · intro hnone chan' conn' hget' hauth' kind name
    rw [comeUp, lastEnabled_snapshot]
    split
    · rw [Bool.eq_iff_iff]
      refine ⟨hnone kind name, fun hhas => ?_⟩
      obtain ⟨i, c, heq⟩ := (hasHandle_iff kind name).mp hhas
      obtain ⟨list, hlist, -⟩ := bind_eq_some_iff.mp heq
      exact isSome_iff_exists.mpr ⟨list, hlist⟩
    · rename_i hne
      simp only [comeUp, get?_set_ne _ (Ne.symm hne)] at hget'
      exact h chan' conn' hget' hauth' kind name

theorem Served.connect (h : Served d) (wildcard : String → String → Bool) :
    Served (step wildcard d .connect) := by
  have hnew : ∀ cl, d.clients.get? d.next ≠ some cl := fun cl hcl =>
    absurd (h.client_lt d.next cl hcl) (Nat.lt_irrefl _)
  refine ⟨fun kind name handle client => ?_, fun client cl hcl => ?_,
    fun kind name handle client heq =>
      (h.handle_lt kind name handle client heq).trans (lt_succ_self _)⟩
  · rw [show (step wildcard d .connect).handle = d.handle from rfl, h.handle_iff]
    simp only [step, get?_set]
    by_cases hc : client = d.next
    · subst client
      simp [hnew]
    · simp [hc]
  · simp only [step, get?_set] at hcl ⊢
    split at hcl
    · omega
    · exact (h.client_lt client cl hcl).trans (lt_succ_self _)

/-- An event keeps what the peers know, but for a channel that comes up at a bad time. -/
theorem knows_step (wildcard : String → String → Bool) (h : Knows d) (e : Event)
    (he : ∀ chan, e = .authData chan → (d.tx.get? chan).isSome → NoneLeft d) :
    Knows (step wildcard d e) := by
  by_cases ha : e.announces = true
  · cases e with
    | connect =>
      have hlocal := connect_local wildcard d
      exact ⟨hlocal.ok h.ok, h.served.connect wildcard, h.sent⟩
    | pubsub kind client names =>
      exact foldlRecOn names (clientAdd kind client) h
        fun d h name _ => h.clientAdd kind client name
    | disconnect client => exact h.clientDisconnect client
    | authData chan =>
      cases hget : d.tx.get? chan with
      | none =>
        rw [show step wildcard d (.authData chan) = d from authData_of_none hget]
        exact h
      | some conn =>
        refine ⟨ok_step wildcard h.ok (.authData chan), ?_, ?_⟩
        · obtain ⟨outs, -, heq⟩ := authData_calls hget
          rw [show step wildcard d (.authData chan) = _ from heq]
          exact h.served.congr rfl rfl (le_refl _)
        · refine (sent_authData_iff h.sent hget).mpr (he chan rfl ?_)
          rw [hget]
          rfl
    | _ => cases ha
  · obtain ⟨hrx, hq⟩ := step_quiet wildcard h.ok e (Bool.not_eq_true _ ▸ ha)
    exact h.quiet hrx hq

/-- What the peers know of the local names is so in each state of a run, if and only if no
channel comes up while a table has a name whose last handle is gone. -/
theorem agree_iff (wildcard : String → String → Bool) (events : List Event) :
    (∀ before, before <+: events → Agree (run wildcard .init before)) ↔
      ∀ before chan, before ++ [.authData chan] <+: events →
        ((run wildcard .init before).tx.get? chan).isSome →
        NoneLeft (run wildcard .init before) := by
  constructor
  · intro hagree before chan hprefix hsome
    obtain ⟨conn, hget⟩ := isSome_iff_exists.mp hsome
    have hbefore := hagree before ((prefix_append _ _).trans hprefix)
    have hafter := hagree _ hprefix
    rw [run_append] at hafter
    exact (sent_authData_iff hbefore.sent hget).mp hafter.sent
  · intro hnone before hprefix
    suffices hknows : Knows (run wildcard .init before) from hknows.agree
    induction before using reverseRecOn with
    | nil => exact .init
    | append_singleton before e ih =>
      rw [run_append]
      refine knows_step wildcard (ih ((prefix_append _ _).trans hprefix)) e ?_
      rintro chan rfl hsome
      exact hnone before chan hprefix hsome

def pairInfo : Info where
  localHost := "a"
  localAddress := "fd00::a"
  peers := (∅ : Dict String Peer).set "b" ⟨"fd00::b", none⟩
  services := []

/-- A client publishes a name and goes, and then the peer is connected to: it takes the name to
be published. -/
theorem agree_fails :
    ¬ Agree (run (fun name pattern => pattern == "*" || pattern == name) .init [
      .update ((∅ : Dict String Info).set "net" pairInfo) fun _ => true,
      .connectPeers "net" fun _ => true,
      .connect,
      .pubsub .publish 1 ["x"],
      .disconnect 1,
      .authData 0]) := by
  intro hagree
  have hsent := hagree.sent 0 ⟨"net", "b", true⟩ (by decide) rfl .publish "x"
  revert hsent
  decide

end LibWrt.Unetmsg
