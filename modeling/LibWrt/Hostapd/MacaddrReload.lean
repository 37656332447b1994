/-
LibWrt.Hostapd.MacaddrReload — what a reload in place leaves of the addresses.

A reload that returns true has taken the BSSes over in step 1, or has renamed
the first one in step 2 when none was found, or had nothing to do.
-/
import LibWrt.Hostapd.MacaddrUnique

namespace LibWrt.Hostapd.Macaddr

open Option

/-- The addresses are unique, none is that of an MLD, a static one, which is neither a default nor
    a random one, is kept, and so is that of the running BSS that the first one takes over. -/
structure Unique (sys : System) (old config : List Bss) (r : Reloaded) : Prop where
  distinct : (r.bss.map Bss.bssid).Nodup
  mlds : ∀ b ∈ r.bss, b.bssid ∉ sys.mlds
  static : ∀ (i : Nat) (cur : Bss), config[i]? = some cur → cur.static = true →
    ∃ b, r.bss[i]? = some b ∧ b.bssid = cur.bssid
  first : ∀ (j : Nat) (prev b : Bss), r.running[0]? = some (some j) → old[j]? = some prev →
    r.bss[0]? = some b → b.bssid = prev.bssid

/-- What hostapd answers has no effect on it. -/
def KeepsUnique (sys : System) (old config : Config) : Prop :=
  ∀ env : Env, env.Fresh → ∀ r, ifaceReloadConfig sys env config (some old) = some r →
    Unique sys old.bss config.bss r

/-- The first one goes on as the first running one. -/
def Renames (old config : List Bss) (prev cur : Bss) : Prop :=
  old[0]? = some prev ∧ config[0]? = some cur ∧
    (cur.bssid = prev.bssid ∨ cur.defaultMacaddr = true)

/-- What step 2 needs: the running address is nobody else's. -/
structure Alone (sys : System) (config : List Bss) (prev : Bss) : Prop where
  mld : prev.bssid ∉ sys.mlds
  others : ∀ (i : Nat) (cur : Bss), config[i + 1]? = some cur → cur.defaultMacaddr = false →
    cur.bssid ∉ sys.mlds ∧ cur.bssid ≠ prev.bssid

/-- The condition on the configurations, for each way that a reload can take. -/
structure Allowed (sys : System) (old config : Config) : Prop where
  same : old.bss = config.bss → ∀ b ∈ old.bss, b.bssid ∉ sys.mlds
  renamed : old.bss ≠ config.bss → (∀ i, ¬ Taken (running sys old.bss config.bss) i) →
    config.mbssid = 0 → ∀ prev cur, Renames old.bss config.bss prev cur →
      Alone sys config.bss prev
  taken : old.bss ≠ config.bss → (∃ i, Taken (running sys old.bss config.bss) i) →
    (config.mbssid ≠ 0 → Taken (running sys old.bss config.bss) 0) →
      TakenOver sys old.bss config.bss

/-! ## The ways of a reload -/

def goesOn (prev cur : Bss) (p : Pass) : Pass where
  list := p.list.set prev.bssid 0
  prevHash := p.prevHash.set 0 none
  bss := cur.withAddr prev.bssid :: p.bss.tail
  running := some 0 :: p.running.tail

theorem step2_cases {env : Env} {old : List Bss} {p q : Pass} (h : step2 env old p = some q) :
    (∃ t ∈ p.running, t.isSome) ∧ q = p ∨
      (∀ t ∈ p.running, t = none) ∧ ∃ prev cur, Renames old p.bss prev cur ∧
        q = goesOn prev cur p := by
  unfold step2 at h
  split at h
  case isTrue hnone =>
    split at h
    case h_1 cur rest prev tail hbss =>
      split at h
      case isTrue => cases h
      case isFalse haddr =>
        split at h
        case isTrue => cases h
        case isFalse =>
          refine .inr ⟨by simpa using hnone, prev, cur, ⟨by simp, by simp [hbss], ?_⟩, ?_⟩
          · by_cases heq : cur.bssid = prev.bssid
            · exact .inl heq
            · exact .inr (by simpa [heq] using haddr)
          · rw [← some.inj h, goesOn, hbss]
            rfl
    case h_2 => cases h
  case isFalse hsome =>
    refine .inl ⟨?_, (some.inj h).symm⟩
    simpa [isSome_iff_ne_none] using hsome

/-- The steps of a reload that returns true. -/
theorem reload_cases {sys : System} {env : Env} {old config : Config} {r : Reloaded}
    (h : ifaceReloadConfig sys env config (some old) = some r) :
    old.radio = config.radio ∧
      (old.bss = config.bss ∧
          r = { bss := config.bss, running := (List.range config.bss.length).map some } ∨
        old.bss ≠ config.bss ∧ ∃ p q s,
          step1 sys env old.bss 0 config.bss (listOf sys config.bss)
            (old.bss.map fun bss => some (sys.hash bss.data)) = some p ∧
          (config.mbssid ≠ 0 → (p.running[0]?.join).isSome) ∧
          step2 env old.bss p = some q ∧
          step6 env q.running { list := macaddrInit sys.wdevs q.list, bss := q.bss } = some s ∧
          r = { bss := s.bss, running := q.running }) := by
  obtain ⟨hradio, h⟩ := ite_none_left_eq_some.mp h
  refine ⟨not_not.mp hradio, ?_⟩
  by_cases heq : old.bss = config.bss
  · rw [if_pos heq] at h
    exact .inl ⟨heq, (some.inj h).symm⟩
  rw [if_neg heq] at h
  obtain ⟨-, h⟩ := ite_none_left_eq_some.mp h
  obtain ⟨-, h⟩ := ite_none_left_eq_some.mp h
  obtain ⟨-, h⟩ := ite_none_left_eq_some.mp h
  obtain ⟨-, h⟩ := ite_none_left_eq_some.mp h
  obtain ⟨p, hp, h⟩ := bind_eq_some_iff.mp h
  obtain ⟨hmbssid, h⟩ := ite_none_left_eq_some.mp h
  obtain ⟨q, hq, h⟩ := bind_eq_some_iff.mp h
  obtain ⟨-, h⟩ := ite_none_left_eq_some.mp h
  obtain ⟨-, h⟩ := ite_none_left_eq_some.mp h
  obtain ⟨s, hs, h⟩ := bind_eq_some_iff.mp h
  obtain ⟨-, h⟩ := ite_none_left_eq_some.mp h
  refine .inr ⟨heq, p, q, s, hp, fun hm => ?_, hq, hs, (some.inj h).symm⟩
  by_contra hnone
  exact hmbssid ⟨hm, by simpa using hnone⟩

/-! ## Kept addresses -/

section Kept

variable {sys : System} {old config : List Bss} {list : MacaddrList} {env : Env} {s' : Step6}

/-- A BSS that is neither new with a default address nor moved keeps its address. -/
theorem step6_keeps {T : List (Option Nat)} {B : List Bss} (hstart : Start T list B)
    (hfresh : env.Fresh) (h : step6 env T { list := list, bss := B } = some s') {j : Nat} {b : Bss}
    (hb : B[j]? = some b) (hg : ¬ Generated T B j) (hv : ∀ i, ¬ Victim T list B i j) :
    s'.bss[j]? = some b := by
  have hturned := step6_turned hstart hfresh h
  rw [hturned.same j (fun hj => absurd hj hg) fun i _ => hv i, hb]

variable (hnew : AssignedApart config) (hl : Left sys old config list) (hfresh : env.Fresh)
  (h6 : step6 env (running sys old config) { list := list, bss := leftBss sys old config } =
    some s')
include hnew hl hfresh h6

/-- A BSS keeps an address that it is given. -/
theorem Left.given_kept {i : Nat} {cur : Bss} (h : Given sys old config i cur) :
    s'.bss[i]? = some cur := by
  refine step6_keeps (hl.start hnew) hfresh h6 (left_of_not_inherits h.1 h.2.2) ?_ fun k hk => ?_
  · rintro ⟨-, b, hb, hd⟩
    obtain rfl : cur = b := by simpa [hb] using (left_of_not_inherits h.1 h.2.2).symm
    simp [h.2.1] at hd
  · obtain ⟨-, -, _, prev, -, hin, -⟩ := hl.victim hnew hk
    exact h.2.2 prev hin

/-- A BSS that inherits nothing but is taken over keeps what it has. -/
theorem Left.taken_kept {i : Nat} {cur : Bss} (hcur : config[i]? = some cur)
    (ht : Taken (running sys old config) i) (hin : ∀ prev, ¬ InheritsFrom sys old config i prev) :
    s'.bss[i]? = some cur := by
  refine step6_keeps (hl.start hnew) hfresh h6 (left_of_not_inherits hcur hin)
    (fun hg => hg.1 ht) fun k hk => ?_
  obtain ⟨-, -, _, prev, -, hin', -⟩ := hl.victim hnew hk
  exact hin prev hin'

/-- A BSS keeps an inherited address, unless it is moved. -/
theorem Left.inherited_kept {i : Nat} {prev : Bss} (h : InheritsFrom sys old config i prev)
    (hz : ¬ ZeroMoves sys old config i) : ∃ b, s'.bss[i]? = some b ∧ b.bssid = prev.bssid := by
  obtain ⟨cur, hcur, hleft⟩ := h.left
  refine ⟨_, step6_keeps (hl.start hnew) hfresh h6 hleft (fun hg => hg.1 h.taken) fun k hk => ?_,
    Bss.withAddr_bssid cur prev.bssid⟩
  exact hz (hl.victim hnew hk).2

end Kept

/-! ## What is enough -/

/-- A reload that changes nothing. -/
theorem same_unique {sys : System} {bss : List Bss} (hold : (bss.map Bss.bssid).Nodup)
    (h : ∀ b ∈ bss, b.bssid ∉ sys.mlds) :
    Unique sys bss bss { bss := bss, running := (List.range bss.length).map some } where
  distinct := hold
  mlds := h
  static i cur hcur _ := ⟨cur, hcur, rfl⟩
  first j prev b hj hprev hb := by
    have hlt := (List.getElem?_eq_some_iff.mp hb).1
    have hj' : j = 0 := by simpa [hlt] using hj.symm
    subst hj'
    rw [some.inj (hb.symm.trans hprev)]

section Enough

variable {sys : System} {old config : List Bss} {env : Env} {s' : Step6}
  (hnew : AssignedApart config) (hold : (old.map Bss.bssid).Nodup) (hfresh : env.Fresh)

include hnew hold hfresh in
/-- A reload that has taken a BSS over. -/
theorem TakenOver.unique {list : MacaddrList} (h : TakenOver sys old config)
    (hl : Left sys old config list)
    (h6 : step6 env (running sys old config) { list := list, bss := leftBss sys old config } =
      some s') :
    Unique sys old config { bss := s'.bss, running := running sys old config } := by
  obtain ⟨hdistinct, hmlds⟩ := hl.unique hnew hold h hfresh h6
  refine ⟨hdistinct, hmlds, fun i cur hcur hstatic => ?_, fun j prev b hj hprev hb => ?_⟩
  · have hstatic' : cur.defaultMacaddr = false ∧ cur.randomMacaddr = false := by
      simpa [Bss.static] using hstatic
    have hin : ∀ prev, ¬ InheritsFrom sys old config i prev := by
      rintro prev ⟨c, t, hc, -, hin⟩
      obtain rfl : cur = c := by simpa [hcur] using hc
      obtain ⟨-, -, -, hp⟩ := inherits_eq_some_iff.mp hin
      simp [preserves, hstatic'] at hp
    exact ⟨cur, hl.given_kept hnew hfresh h6 ⟨hcur, hstatic'.1, hin⟩, rfl⟩
  · have htaken : Taken (running sys old config) 0 := by
      have : (running sys old config)[0]? = some (some j) := hj
      simp [Taken, this]
    by_cases hin : ∃ p, InheritsFrom sys old config 0 p
    · obtain ⟨p, hp⟩ := hin
      obtain ⟨c, hc, heq⟩ := hl.inherited_kept hnew hfresh h6 hp fun hz => hz.1 htaken
      obtain rfl : b = c := some.inj (hb.symm.trans hc)
      obtain ⟨_, t, -, ht, hin⟩ := hp
      obtain ⟨k, rfl, hk, -⟩ := inherits_eq_some_iff.mp hin
      obtain rfl : j = k := by simpa using some.inj (hj.symm.trans ht)
      rw [heq, some.inj (hprev.symm.trans hk)]
    · push Not at hin
      have hlt : 0 < config.length := by
        have := (List.getElem?_eq_some_iff.mp hj).1
        simpa [running, length_takes] using this
      have hcur := List.getElem?_eq_getElem hlt
      have hkept := hl.taken_kept hnew hfresh h6 hcur htaken hin
      rw [some.inj (hb.symm.trans hkept)]
      exact h.first j prev _ hj hprev hcur hin

/-- Nothing is taken over: step 1 leaves the configuration as it is. -/
theorem leftBss_of_none (hnone : ∀ i, ¬ Taken (running sys old config) i) :
    leftBss sys old config = config := by
  apply List.ext_getElem?
  intro i
  cases hcur : config[i]? with
  | none =>
    rw [List.getElem?_eq_none_iff] at hcur ⊢
    rwa [length_leftBss]
  | some cur => exact left_of_not_inherits hcur fun prev h => hnone i h.taken

section Renamed

variable {prev cur : Bss} {list : MacaddrList}
  (hnone : ∀ i, ¬ Taken (running sys old config) i)
  (hlist : ∀ addr, list.get? addr =
    (if addr = prev.bssid then some 0 else (listOf sys config).get? addr).or
      (if addr ∈ sys.wdevs then some (-1) else none))

def renamedBss (config : List Bss) (prev cur : Bss) : List Bss :=
  cur.withAddr prev.bssid :: config.tail

def renamedRunning (sys : System) (old config : List Bss) : List (Option Nat) :=
  some 0 :: (running sys old config).tail

theorem taken_renamed_zero : Taken (renamedRunning sys old config) 0 := rfl

theorem renamedBss_succ (i : Nat) : (renamedBss config prev cur)[i + 1]? = config[i + 1]? := by
  simp [renamedBss]

include hnew hlist in
/-- A BSS other than the first has its own index for the address that it is assigned. -/
theorem Alone.own (h : Alone sys config prev) {i : Nat} {b : Bss} (hb : config[i + 1]? = some b)
    (hd : b.defaultMacaddr = false) : list.get? b.bssid = some ((i + 1 : Nat) : Int) := by
  rw [hlist, if_neg (h.others i b hb hd).2, listOf_given hnew hb hd]
  rfl

include hnew hlist in
/-- No index in the list is that of a BSS with a default address. -/
theorem renamed_unused (i : Nat)
    (hg : Generated (renamedRunning sys old config) (renamedBss config prev cur) i)
    (addr : String) : list.get? addr ≠ some (i : Int) := by
  obtain ⟨htaken, b, hb, hd⟩ := hg
  intro haddr
  cases i with
  | zero => exact htaken taken_renamed_zero
  | succ i =>
    rw [renamedBss_succ] at hb
    rw [hlist] at haddr
    by_cases heq : addr = prev.bssid
    · rw [if_pos heq] at haddr
      have : (0 : Int) = ((i + 1 : Nat) : Int) := by simpa using haddr
      omega
    · rw [if_neg heq] at haddr
      rcases config_cases hnew sys.mlds addr with ⟨k, c, hc, hcd, rfl, hk⟩ | ⟨-, hk⟩
      · rw [listOf, hk] at haddr
        obtain rfl : k = i + 1 := by
          have : (k : Int) = ((i + 1 : Nat) : Int) := by simpa using haddr
          omega
        obtain rfl : b = c := some.inj (hb.symm.trans hc)
        simp [hd] at hcd
      · rw [listOf, hk] at haddr
        have : (-1 : Int) = ((i + 1 : Nat) : Int) := by
          split at haddr
          · simpa using haddr
          · split at haddr
            · simpa using haddr
            · simp at haddr
        omega

include hnew hlist in
theorem Alone.start (h : Alone sys config prev) :
    Start (renamedRunning sys old config) list (renamedBss config prev cur) := by
  refine ⟨fun i b hb htaken hd => ?_, renamed_unused hnew hlist⟩
  cases i with
  | zero => exact absurd taken_renamed_zero htaken
  | succ i =>
    have hlt := (List.getElem?_eq_some_iff.mp hb).1
    rw [renamedBss_succ] at hb
    exact ⟨i + 1, h.own hnew hlist hb hd, hlt, .inl rfl⟩

include hnew hlist in
theorem Alone.no_victim (h : Alone sys config prev) {i j : Nat} :
    ¬ Victim (renamedRunning sys old config) list (renamedBss config prev cur) i j := by
  rintro ⟨htaken, hne, b, hb, hd, hj⟩
  cases i with
  | zero => exact htaken taken_renamed_zero
  | succ i =>
    rw [renamedBss_succ] at hb
    rw [h.own hnew hlist hb hd] at hj
    have : ((i + 1 : Nat) : Int) = (j : Int) := by simpa using hj
    omega

include hnew hlist in
theorem Alone.apart (h : Alone sys config prev) (hnone : ∀ i, ¬ Taken (running sys old config) i) :
    Apart (renamedRunning sys old config) list (renamedBss config prev cur) sys.mlds 0
      { list := list, bss := renamedBss config prev cur } := by
  -- a BSS that has its address is the first, or assigned
  have hcases : ∀ (i : Nat) (b : Bss),
      Settled (renamedRunning sys old config) (renamedBss config prev cur) 0 i →
      (renamedBss config prev cur)[i]? = some b → i = 0 ∧ b.bssid = prev.bssid ∨
        ∃ k, i = k + 1 ∧ config[k + 1]? = some b ∧ b.defaultMacaddr = false := by
    intro i b hi hb
    cases i with
    | zero =>
      have : cur.withAddr prev.bssid = b := by simpa [renamedBss] using hb
      exact .inl ⟨rfl, by rw [← this, Bss.withAddr_bssid]⟩
    | succ i =>
      refine .inr ⟨i, rfl, by rwa [renamedBss_succ] at hb, ?_⟩
      by_contra hd
      have htaken : ¬ Taken (renamedRunning sys old config) (i + 1) := by
        have := hnone (i + 1)
        simpa [Taken, renamedRunning] using this
      exact absurd (hi ⟨htaken, b, hb, by simpa using hd⟩) (Nat.not_lt_zero _)
  refine ⟨fun i b hi hb => ?_, fun i b hi hb => ?_, fun i j b c hi hj hb hc heq => .inl ?_⟩
  · rcases hcases i b hi hb with ⟨-, haddr⟩ | ⟨k, rfl, hk, hd⟩
    · simp [hlist, haddr]
    · simp [h.own hnew hlist hk hd]
  · rcases hcases i b hi hb with ⟨-, haddr⟩ | ⟨k, rfl, hk, hd⟩
    · exact haddr ▸ h.mld
    · exact (h.others k b hk hd).1
  · rcases hcases i b hi hb with ⟨rfl, haddr⟩ | ⟨k, rfl, hk, hd⟩
    · rcases hcases j c hj hc with ⟨rfl, -⟩ | ⟨l, rfl, hl, hd'⟩
      · rfl
      · exact absurd (heq.symm.trans haddr) (h.others l c hl hd').2
    · rcases hcases j c hj hc with ⟨rfl, haddr⟩ | ⟨l, rfl, hl, hd'⟩
      · exact absurd (heq.trans haddr) (h.others k b hk hd).2
      · exact assigned_inj hnew hk hl hd hd' heq

include hnew hlist hnone hfresh in
/-- A reload that goes on with the first BSS under its address. -/
theorem Alone.unique (h : Alone sys config prev) (hren : Renames old config prev cur)
    (h6 : step6 env (renamedRunning sys old config)
      { list := list, bss := renamedBss config prev cur } = some s') :
    Unique sys old config { bss := s'.bss, running := renamedRunning sys old config } := by
  have hstart : Start (renamedRunning sys old config) list (renamedBss config prev cur) :=
    h.start hnew hlist
  have hvic : ∀ i j,
      ¬ Victim (renamedRunning sys old config) list (renamedBss config prev cur) i j :=
    fun i j => h.no_victim hnew hlist
  have hmlds : ∀ a ∈ sys.mlds, (list.get? a).isSome := by
    intro a ha
    rw [hlist, isSome_or]
    by_cases heq : a = prev.bssid
    · simp [heq]
    · rcases config_cases hnew sys.mlds a with ⟨k, b, -, -, -, hk⟩ | ⟨-, hk⟩
      · simp [heq, listOf, hk]
      · simp [heq, listOf, hk, ha]
  obtain ⟨hdistinct, hmld⟩ := step6_unique hstart hfresh hmlds (h.apart hnew hlist hnone) h6
  have hzero : s'.bss[0]? = some (cur.withAddr prev.bssid) :=
    step6_keeps hstart hfresh h6 rfl (fun hg => hg.1 taken_renamed_zero) fun i => hvic i 0
  obtain ⟨hprev, hcur, haddr⟩ := hren
  refine ⟨hdistinct, hmld, fun i c hc hstatic => ?_, fun j p b hj hp hb => ?_⟩
  · have hd : c.defaultMacaddr = false := by simp_all [Bss.static]
    cases i with
    | zero =>
      obtain rfl : c = cur := some.inj (hc.symm.trans hcur)
      refine ⟨_, hzero, ?_⟩
      rw [Bss.withAddr_bssid, haddr.resolve_right (by simp [hd])]
    | succ i =>
      refine ⟨c, step6_keeps hstart hfresh h6 ((renamedBss_succ i).trans hc) ?_
        fun k => hvic k _, rfl⟩
      rintro ⟨-, b, hb, hbd⟩
      rw [renamedBss_succ, hc] at hb
      rw [some.inj hb, hbd] at hd
      cases hd
  · have hj' : 0 = j := by simpa [renamedRunning] using hj
    subst hj'
    rw [some.inj (hb.symm.trans hzero), Bss.withAddr_bssid,
      some.inj (hprev.symm.trans hp)]

end Renamed

/-- The condition is enough. -/
theorem Allowed.keepsUnique {sys : System} {old config : Config} (hnew : AssignedApart config.bss)
    (hold : (old.bss.map Bss.bssid).Nodup) (h : old.radio = config.radio → Allowed sys old config) :
    KeepsUnique sys old config := by
  intro env hfresh r hr
  obtain ⟨hradio, hcases⟩ := reload_cases hr
  have h := h hradio
  rcases hcases with ⟨heq, rfl⟩ | ⟨hne, p, q, s, hp, hmbssid, hq, hs, rfl⟩
  · rw [← heq]
    exact same_unique hold (h.same heq)
  have hfound := step1_found hold hp fun _ _ _ _ => rfl
  have hrunning : p.running = running sys old.bss config.bss := hfound.running
  have hbss : p.bss = leftBss sys old.bss config.bss := hfound.bss
  rcases step2_cases hq with ⟨⟨t, ht, hsome⟩, rfl⟩ | ⟨hnone, prev, cur, hren, rfl⟩
  · have htaken : ∃ i, Taken (running sys old.bss config.bss) i := by
      obtain ⟨i, hi⟩ := List.mem_iff_getElem?.mp ht
      exact ⟨i, by simpa [Taken, ← hrunning, hi] using hsome⟩
    have hl := left_of_found rfl hfound
    rw [hrunning] at hs hmbssid ⊢
    rw [hbss] at hs
    exact (h.taken hne htaken hmbssid).unique hnew hold hfresh hl hs
  · have hnone' : ∀ i, ¬ Taken (running sys old.bss config.bss) i := by
      intro i hi
      rw [Taken, ← hrunning] at hi
      cases hget : p.running[i]? with
      | none => simp [hget] at hi
      | some t =>
        have := hnone t (List.mem_iff_getElem?.mpr ⟨i, hget⟩)
        simp [hget, this] at hi
    have hsame := leftBss_of_none hnone'
    rw [hsame] at hbss
    have hmb : config.mbssid = 0 := by
      by_contra hm
      exact hnone' 0 (by simpa [Taken, ← hrunning] using hmbssid hm)
    rw [hbss] at hren
    have halone := h.renamed hne hnone' hmb prev cur hren
    have hrun : (goesOn prev cur p).running = renamedRunning sys old.bss config.bss := by
      rw [goesOn, hrunning, renamedRunning]
    have hbss' : (goesOn prev cur p).bss = renamedBss config.bss prev cur := by
      rw [goesOn, hbss, renamedBss]
    rw [hrun, hbss'] at hs
    rw [hrun]
    refine halone.unique hnew hfresh hnone' (fun addr => ?_) hren hs
    have hlist : p.list.get? addr = (listOf sys config.bss).get? addr :=
      hfound.others addr fun k prev hk => absurd (InheritsFrom.taken hk) (hnone' k)
    rw [get?_macaddrInit, goesOn, Dict.get?_set, hlist]

end Enough

end LibWrt.Hostapd.Macaddr
