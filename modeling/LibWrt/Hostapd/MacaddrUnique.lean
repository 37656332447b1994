/-
LibWrt.Hostapd.MacaddrUnique — when the addresses stay unique.

The addresses collide where the passes lose track of one: the index 0 in the
list reads as if there were none, and the address of a BSS that is taken over
without inheriting one is not in the list at all.
-/
import LibWrt.Hostapd.MacaddrPass

namespace LibWrt.Hostapd.Macaddr

open List Option

theorem nodup_of_distinct {bss : List Bss}
    (h : ∀ (i j : Nat) (b c : Bss), bss[i]? = some b → bss[j]? = some c →
      b.bssid = c.bssid → i = j) :
    (bss.map Bss.bssid).Nodup := by
  rw [List.Nodup, pairwise_map, pairwise_iff_getElem]
  intro i j hi hj hlt heq
  have := h i j _ _ (getElem?_eq_getElem hi) (getElem?_eq_getElem hj) heq
  omega

/-! ## What step 6 keeps apart -/

section Apart

variable {T : List (Option Nat)} {list : MacaddrList} {B : List Bss} {env : Env}

/-- The BSS has its address before the turn of the BSS `k`. -/
def Settled (T : List (Option Nat)) (B : List Bss) (k j : Nat) : Prop := Generated T B j → j < k

/-- The addresses are in the list and apart, but for those of BSSes still to be moved. -/
structure Apart (T : List (Option Nat)) (list : MacaddrList) (B : List Bss) (mlds : List String)
    (k : Nat) (s : Step6) : Prop where
  known : ∀ j b, Settled T B k j → s.bss[j]? = some b → (s.list.get? b.bssid).isSome
  mld : ∀ j b, Settled T B k j → s.bss[j]? = some b → b.bssid ∉ mlds
  distinct : ∀ i j b c, Settled T B k i → Settled T B k j → s.bss[i]? = some b →
    s.bss[j]? = some c → b.bssid = c.bssid →
    i = j ∨ k ≤ i ∧ Victim T list B i j ∨ k ≤ j ∧ Victim T list B j i

/-- After a turn a BSS has the new address, or had its address before. -/
theorem Generates.settled {k : Nat} {s s' : Step6} {target : Nat} {addr : String}
    (h : Generates T list B env k s s' target addr) {j : Nat} {b : Bss}
    (hj : Settled T B (k + 1) j) (hb : s'.bss[j]? = some b) :
    j = target ∧ b.bssid = addr ∨ j ≠ target ∧ Settled T B k j ∧ s.bss[j]? = some b := by
  obtain ⟨list', _, _, rfl⟩ := h.next
  by_cases hjt : j = target
  · subst hjt
    obtain ⟨c, _, rfl⟩ := map_eq_some_iff.mp ((getElem?_modify_eq _ _ _).symm.trans hb)
    exact .inl ⟨rfl, rfl⟩
  · refine .inr ⟨hjt, fun hg => ?_, ?_⟩
    · have := hj hg
      rcases Nat.lt_or_eq_of_le (Nat.lt_succ_iff.mp this) with hlt | rfl
      · exact hlt
      · rcases h.why with ⟨rfl, _⟩ | hw
        · exact absurd rfl hjt
        · obtain ⟨_, _, c, hc, hd, _⟩ := hw
          obtain ⟨_, c', hc', hd'⟩ := hg
          obtain rfl : c = c' := by simpa [hc] using hc'
          simp [hd] at hd'
    · simpa [getElem?_modify_ne _ _ (Ne.symm hjt)] using hb

theorem Settled.of_not_generated {k j : Nat} (hk : ¬ Generated T B k)
    (h : Settled T B (k + 1) j) : Settled T B k j := by
  intro hg
  have := h hg
  rcases Nat.lt_or_eq_of_le (Nat.lt_succ_iff.mp this) with hlt | rfl
  · exact hlt
  · exact absurd hg hk

/-- A BSS that is still to be moved after the turn of another one. -/
theorem Victim.later {k i j : Nat} (h : k ≤ i) (hv : Victim T list B i j)
    (hk : ¬ Victim T list B k j) : k + 1 ≤ i := by
  rcases Nat.lt_or_eq_of_le h with hlt | rfl
  · exact hlt
  · exact absurd hv hk

theorem Apart.step {mlds : List String} {k : Nat} {s s' : Step6} (hstart : Start T list B)
    (hfresh : env.Fresh) (hmlds : ∀ a ∈ mlds, (list.get? a).isSome)
    (hs : Turned T list B k s) (ha : Apart T list B mlds k s)
    (h : step6Turn env T s k = some s') : Apart T list B mlds (k + 1) s' := by
  rcases turn_cases hstart hs h with ⟨rfl, hg, hv⟩ | ⟨target, addr, hgen⟩
  · refine ⟨fun j b hj => ha.known j b (hj.of_not_generated hg),
      fun j b hj => ha.mld j b (hj.of_not_generated hg), fun i j b c hi hj hb hc heq => ?_⟩
    rcases ha.distinct i j b c (hi.of_not_generated hg) (hj.of_not_generated hg) hb hc heq with
      h | ⟨hk, h⟩ | ⟨hk, h⟩
    · exact .inl h
    · exact .inr (.inl ⟨h.later hk (hv j), h⟩)
    · exact .inr (.inr ⟨h.later hk (hv i), h⟩)
  have hcases := fun j b (hj : Settled T B (k + 1) j) (hb : s'.bss[j]? = some b) =>
    hgen.settled hj hb
  obtain ⟨list', hm, hnext, rfl⟩ := hgen.next
  have hnone := hfresh _ _ hnext
  -- The new address is not that of a BSS that has one.
  have hnew : ∀ j b, Settled T B k j → s.bss[j]? = some b → b.bssid ≠ addr := by
    rintro j b hj hb rfl
    have := ha.known j b hj hb
    rw [← hm.isSome, hnone] at this
    cases this
  have htarget : ∀ j, j ≠ target → ¬ Victim T list B k j := by
    intro j hj hv
    rcases hgen.why with ⟨rfl, _, b, hb, hd⟩ | hw
    · obtain ⟨_, _, c, hc, hd', _⟩ := hv
      obtain rfl : b = c := by simpa [hb] using hc
      simp [hd] at hd'
    · exact hj (hv.unique hw)
  refine ⟨fun j b hj hb => ?_, fun j b hj hb => ?_, fun i j b c hi hj hb hc heq => ?_⟩
  · rcases hcases j b hj hb with ⟨-, rfl⟩ | ⟨-, hj, hb⟩
    · simp
    · have := ha.known j b hj hb
      rw [hm.get?_set hnone this, hm.isSome]
      exact this
  · rcases hcases j b hj hb with ⟨-, rfl⟩ | ⟨-, hj, hb⟩
    · intro hmem
      have := hs.isSome _ (hmlds _ hmem)
      rw [← hm.isSome, hnone] at this
      cases this
    · exact ha.mld j b hj hb
  · rcases hcases i b hi hb with ⟨hit, hib⟩ | ⟨hit, hi, hb⟩
    · rcases hcases j c hj hc with ⟨hjt, -⟩ | ⟨-, hj, hc⟩
      · exact .inl (hit.trans hjt.symm)
      · exact absurd (heq.symm.trans hib) (hnew j c hj hc)
    · rcases hcases j c hj hc with ⟨-, hjc⟩ | ⟨hjt, hj, hc⟩
      · exact absurd (heq.trans hjc) (hnew i b hi hb)
      · rcases ha.distinct i j b c hi hj hb hc heq with h | ⟨hk, h⟩ | ⟨hk, h⟩
        · exact .inl h
        · exact .inr (.inl ⟨h.later hk (htarget j hjt), h⟩)
        · exact .inr (.inr ⟨h.later hk (htarget i hit), h⟩)

/-- If the addresses are apart before step 6, they are unique after it. -/
theorem step6_unique {mlds : List String} {s' : Step6} (hstart : Start T list B)
    (hfresh : env.Fresh) (hmlds : ∀ a ∈ mlds, (list.get? a).isSome)
    (ha : Apart T list B mlds 0 { list := list, bss := B })
    (h : step6 env T { list := list, bss := B } = some s') :
    (s'.bss.map Bss.bssid).Nodup ∧ ∀ b ∈ s'.bss, b.bssid ∉ mlds := by
  have hend := Loop.foldlM_range_invariant
    (fun k s => Turned T list B k s ∧ Apart T list B mlds k s) ⟨Turned.init hstart, ha⟩
    (fun k _ s t hs h => ⟨hs.1.step hstart hfresh h, hs.2.step hstart hfresh hmlds hs.1 h⟩) h
  obtain ⟨hturned, hapart⟩ := hend
  have hsettled : ∀ j b, s'.bss[j]? = some b → Settled T B B.length j := by
    intro j b hb _
    have := (List.getElem?_eq_some_iff.mp hb).1
    rwa [hturned.length] at this
  constructor
  · refine nodup_of_distinct fun i j b c hb hc heq => ?_
    have hi := (List.getElem?_eq_some_iff.mp hb).1
    have hj := (List.getElem?_eq_some_iff.mp hc).1
    rw [hturned.length] at hi hj
    rcases hapart.distinct i j b c (hsettled i b hb) (hsettled j c hc) hb hc heq with
      h | ⟨hk, -⟩ | ⟨hk, -⟩
    · exact h
    · exact absurd hk (Nat.not_le.mpr hi)
    · exact absurd hk (Nat.not_le.mpr hj)
  · intro b hb
    obtain ⟨j, hj⟩ := mem_iff_getElem?.mp hb
    exact hapart.mld j b (hsettled j b hj) hj

theorem step6_same {s' : Step6} (hstart : Start T list B)
    (hg : ∀ k, ¬ Generated T B k) (hv : ∀ k j, ¬ Victim T list B k j)
    (h : step6 env T { list := list, bss := B } = some s') :
    s' = { list := list, bss := B } := by
  have hend := Loop.foldlM_range_invariant
    (fun k s => Turned T list B k s ∧ s = { list := list, bss := B })
    ⟨Turned.init hstart, rfl⟩ ?_ h
  · exact hend.2
  · rintro k - s t ⟨hs, rfl⟩ h
    rcases turn_cases hstart hs h with ⟨rfl, -, -⟩ | ⟨target, addr, hgen⟩
    · refine ⟨?_, rfl⟩
      exact ⟨hs.length, fun _ _ _ => rfl, hs.isSome, hs.holds, fun i _ hi => absurd hi (hg i)⟩
    · rcases hgen.why with ⟨-, h⟩ | h
      · exact absurd h (hg k)
      · exact absurd h (hv k target)

end Apart

/-! ## What step 1 leaves -/

section Left

variable (sys : System) (old config : List Bss)

def listOf : MacaddrList := ifaceConfigMacaddrList sys.mlds config

def running : List (Option Nat) :=
  takes sys old 0 config (old.map fun bss => some (sys.hash bss.data))

/-- The BSS `i` goes on with the address of `prev`. -/
def InheritsFrom (i : Nat) (prev : Bss) : Prop :=
  Inherits old (listOf sys config) config (running sys old config) i prev

/-- The BSS `i` has the address that it is assigned. -/
def Given (i : Nat) (cur : Bss) : Prop :=
  config[i]? = some cur ∧ cur.defaultMacaddr = false ∧ ∀ prev, ¬ InheritsFrom sys old config i prev

/-- The BSS `i` has a default address, and is taken over without inheriting one. -/
def Loose (i : Nat) (cur : Bss) : Prop :=
  config[i]? = some cur ∧ cur.defaultMacaddr = true ∧ Taken (running sys old config) i ∧
    ∀ prev, ¬ InheritsFrom sys old config i prev

/-- The first BSS is new, and its address is inherited by another one. -/
def ZeroMoves (j : Nat) : Prop :=
  ¬ Taken (running sys old config) 0 ∧ ∃ cur prev, Given sys old config 0 cur ∧
    InheritsFrom sys old config j prev ∧ prev.bssid = cur.bssid

def leftBss : List Bss :=
  List.zipWith (kept old (listOf sys config)) config (running sys old config)

variable {sys old config}

theorem leftBss_eq_some_iff {i : Nat} {b : Bss} :
    (leftBss sys old config)[i]? = some b ↔
      ∃ cur t, config[i]? = some cur ∧ (running sys old config)[i]? = some t ∧
        kept old (listOf sys config) cur t = b := by
  simp [leftBss, getElem?_zipWith_eq_some]

theorem exists_running {i : Nat} {cur : Bss} (h : config[i]? = some cur) :
    ∃ t, (running sys old config)[i]? = some t := by
  have hlt := (List.getElem?_eq_some_iff.mp h).1
  rw [← @length_takes sys old 0 config (old.map fun b => some (sys.hash b.data))] at hlt
  exact ⟨_, getElem?_eq_getElem hlt⟩

theorem length_leftBss : (leftBss sys old config).length = config.length := by
  simp [leftBss, running, length_takes]

theorem InheritsFrom.taken {i : Nat} {prev : Bss} (h : InheritsFrom sys old config i prev) :
    Taken (running sys old config) i := by
  obtain ⟨cur, t, _, ht, hin⟩ := h
  obtain ⟨j, rfl, _⟩ := inherits_eq_some_iff.mp hin
  simp [Taken, ht]

theorem InheritsFrom.left {i : Nat} {prev : Bss} (h : InheritsFrom sys old config i prev) :
    ∃ cur, config[i]? = some cur ∧
      (leftBss sys old config)[i]? = some (cur.withAddr prev.bssid) := by
  obtain ⟨cur, t, hcur, ht, hin⟩ := h
  exact ⟨cur, hcur, leftBss_eq_some_iff.mpr ⟨cur, t, hcur, ht, by simp [kept, hin]⟩⟩

theorem left_of_not_inherits {i : Nat} {cur : Bss} (hcur : config[i]? = some cur)
    (h : ∀ prev, ¬ InheritsFrom sys old config i prev) :
    (leftBss sys old config)[i]? = some cur := by
  obtain ⟨t, ht⟩ := @exists_running sys old config i cur hcur
  refine leftBss_eq_some_iff.mpr ⟨cur, t, hcur, ht, ?_⟩
  have : inherits old (listOf sys config) cur t = none :=
    eq_none_iff_forall_ne_some.mpr fun prev hin => h prev ⟨cur, t, hcur, ht, hin⟩
  simp [kept, this]

/-- How a BSS has its address after step 1. -/
theorem left_cases {i : Nat} {b : Bss} (h : (leftBss sys old config)[i]? = some b) :
    (∃ prev, InheritsFrom sys old config i prev ∧ b.bssid = prev.bssid) ∨
    Given sys old config i b ∨ Loose sys old config i b ∨
      Generated (running sys old config) (leftBss sys old config) i := by
  obtain ⟨cur, t, hcur, ht, rfl⟩ := leftBss_eq_some_iff.mp h
  by_cases hin : ∃ prev, InheritsFrom sys old config i prev
  · obtain ⟨prev, hprev⟩ := hin
    obtain ⟨c, hc, hleft⟩ := hprev.left
    refine .inl ⟨prev, hprev, ?_⟩
    rw [h] at hleft
    rw [some.inj hleft, Bss.withAddr_bssid]
  · push Not at hin
    have hleft := left_of_not_inherits hcur hin
    rw [h] at hleft
    rw [some.inj hleft]
    cases hd : cur.defaultMacaddr with
    | false => exact .inr (.inl ⟨hcur, hd, hin⟩)
    | true =>
      by_cases htaken : Taken (running sys old config) i
      · exact .inr (.inr (.inl ⟨hcur, hd, htaken, hin⟩))
      · exact .inr (.inr (.inr ⟨htaken, cur, left_of_not_inherits hcur hin, hd⟩))

/-- What step 1 has made of the list, with the interfaces of the phy. -/
structure Left (sys : System) (old config : List Bss) (list : MacaddrList) : Prop where
  inherited : ∀ k prev, InheritsFrom sys old config k prev →
    list.get? prev.bssid = some (k : Int)
  others : ∀ addr, (∀ k prev, InheritsFrom sys old config k prev → prev.bssid ≠ addr) →
    list.get? addr =
      ((listOf sys config).get? addr).or (if addr ∈ sys.wdevs then some (-1) else none)

theorem left_of_found {list0 : MacaddrList} {p : Pass} (hlist : list0 = listOf sys config)
    (h : Found old (listOf sys config) 0 config (running sys old config) list0 p) :
    Left sys old config (macaddrInit sys.wdevs p.list) := by
  subst hlist
  refine ⟨fun k prev hk => ?_, fun addr haddr => ?_⟩
  · rw [get?_macaddrInit, h.inherited k prev hk]
    simp
  · rw [get?_macaddrInit, h.others addr haddr]

/-- An address can be inherited if the list has none, or the index zero, for it. -/
theorem InheritsFrom.vacant {i : Nat} {prev : Bss} (h : InheritsFrom sys old config i prev) :
    (listOf sys config).get? prev.bssid = none ∨ (listOf sys config).get? prev.bssid = some 0 := by
  obtain ⟨cur, t, _, _, hin⟩ := h
  obtain ⟨_, _, _, hp⟩ := inherits_eq_some_iff.mp hin
  cases hl : (listOf sys config).get? prev.bssid with
  | none => exact .inl rfl
  | some v =>
    simp only [preserves, hl, truthy, any_some, Bool.and_eq_true] at hp
    exact .inr (by simpa using hp.2)

theorem InheritsFrom.unique (hold : (old.map Bss.bssid).Nodup) {i j : Nat} {prev prev' : Bss}
    (h : InheritsFrom sys old config i prev) (h' : InheritsFrom sys old config j prev')
    (heq : prev.bssid = prev'.bssid) : i = j := by
  obtain ⟨_, _, _, hi, hin⟩ := h
  obtain ⟨_, _, _, hj, hin'⟩ := h'
  obtain ⟨k, rfl, hk, _⟩ := inherits_eq_some_iff.mp hin
  obtain ⟨k', rfl, hk', _⟩ := inherits_eq_some_iff.mp hin'
  obtain rfl := bssid_inj hold hk hk' heq
  obtain ⟨hi', hi⟩ := List.getElem?_eq_some_iff.mp hi
  obtain ⟨hj', hj⟩ := List.getElem?_eq_some_iff.mp hj
  have := pairwise_iff_getElem.mp
    (@takes_apart sys old 0 config (old.map fun b => some (sys.hash b.data)))
  rcases Nat.lt_trichotomy i j with hlt | heq | hlt
  · exact absurd hj (this i j hi' hj' hlt k hi)
  · exact heq
  · exact absurd hi (this j i hj' hi' hlt k hj)

variable (hnew : AssignedApart config)
include hnew

theorem listOf_given {k : Nat} {cur : Bss} (h : config[k]? = some cur)
    (hd : cur.defaultMacaddr = false) : (listOf sys config).get? cur.bssid = some (k : Int) :=
  get?_config hnew sys.mlds h (by simp [hd])

theorem assigned_inj {i j : Nat} {b c : Bss} (hb : config[i]? = some b) (hc : config[j]? = some c)
    (hbd : b.defaultMacaddr = false) (hcd : c.defaultMacaddr = false) (h : b.bssid = c.bssid) :
    i = j := by
  let sys : System := { hash := fun _ => "", fullmac := false, mlds := [], wdevs := [] }
  have hi := @listOf_given sys config hnew i b hb hbd
  rw [h, listOf_given hnew hc hcd] at hi
  simpa using hi.symm

/-- Only the address of the first BSS is inherited while it is assigned. -/
theorem InheritsFrom.zero {i k : Nat} {prev cur : Bss} (h : InheritsFrom sys old config i prev)
    (hcur : config[k]? = some cur) (hd : cur.defaultMacaddr = false)
    (heq : prev.bssid = cur.bssid) : k = 0 := by
  have hk := @listOf_given sys config hnew k cur hcur hd
  rcases h.vacant with hv | hv
  · rw [heq, hk] at hv
    cases hv
  · rw [heq, hk] at hv
    simpa using hv

variable {list : MacaddrList} (hl : Left sys old config list)
include hl

/-- An index in the list is that of a BSS which inherits, or is assigned, the address. -/
theorem Left.cases {addr : String} {v : Nat} (h : list.get? addr = some (v : Int)) :
    (∃ prev, InheritsFrom sys old config v prev ∧ prev.bssid = addr) ∨
      ∃ b, config[v]? = some b ∧ b.defaultMacaddr = false ∧ b.bssid = addr := by
  by_cases hin : ∃ k prev, InheritsFrom sys old config k prev ∧ prev.bssid = addr
  · obtain ⟨k, prev, hk, rfl⟩ := hin
    rw [hl.inherited k prev hk] at h
    obtain rfl : k = v := by simpa using h
    exact .inl ⟨prev, hk, rfl⟩
  · push Not at hin
    rw [hl.others addr hin] at h
    rcases config_cases hnew sys.mlds addr with ⟨k, b, hb, hd, rfl, hk⟩ | ⟨-, hk⟩
    · rw [show (listOf sys config).get? b.bssid = some (k : Int) from hk] at h
      obtain rfl : k = v := by simpa using h
      exact .inr ⟨b, hb, by simpa using hd, rfl⟩
    · rw [show (listOf sys config).get? addr = _ from hk] at h
      split at h <;> [skip; split at h] <;> simp at h

theorem Left.given {k : Nat} {cur : Bss} (h : Given sys old config k cur) :
    ∃ v : Nat, list.get? cur.bssid = some (v : Int) ∧
      (v = k ∨ k = 0 ∧ ∃ prev, InheritsFrom sys old config v prev ∧ prev.bssid = cur.bssid) := by
  by_cases hin : ∃ j prev, InheritsFrom sys old config j prev ∧ prev.bssid = cur.bssid
  · obtain ⟨j, prev, hj, heq⟩ := hin
    refine ⟨j, heq ▸ hl.inherited j prev hj, .inr ⟨hj.zero hnew h.1 h.2.1 heq, prev, hj, heq⟩⟩
  · push Not at hin
    refine ⟨k, ?_, .inl rfl⟩
    rw [hl.others _ hin, listOf_given hnew h.1 h.2.1]
    rfl

theorem Left.start : Start (running sys old config) list (leftBss sys old config) := by
  constructor
  · intro i b hb htaken hd
    rcases left_cases hb with ⟨prev, hin, -⟩ | hgiven | hloose | ⟨-, c, hc, hcd⟩
    · exact absurd hin.taken htaken
    · obtain ⟨v, hv, hcase⟩ := hl.given hnew hgiven
      rcases hcase with rfl | ⟨-, prev, hin, -⟩
      · exact ⟨v, hv, (List.getElem?_eq_some_iff.mp hb).1, .inl rfl⟩
      · obtain ⟨_, _, hleft⟩ := hin.left
        exact ⟨v, hv, (List.getElem?_eq_some_iff.mp hleft).1, .inr hin.taken⟩
    · exact absurd hloose.2.2.1 htaken
    · obtain rfl : b = c := by simpa [hb] using hc
      simp [hd] at hcd
  · rintro i ⟨htaken, b, hb, hd⟩ addr haddr
    rcases hl.cases hnew haddr with ⟨prev, hin, -⟩ | ⟨c, hc, hcd, -⟩
    · exact htaken hin.taken
    · have hin : ∀ prev, ¬ InheritsFrom sys old config i prev := fun prev h => htaken h.taken
      have hleft := left_of_not_inherits hc hin
      obtain rfl : b = c := by simpa [hb] using hleft
      simp [hd] at hcd

/-- Only the first BSS can find its address with another one. -/
theorem Left.victim {i j : Nat} (h : Victim (running sys old config) list
    (leftBss sys old config) i j) : i = 0 ∧ ZeroMoves sys old config j := by
  obtain ⟨htaken, hne, b, hb, hd, hv⟩ := h
  rcases left_cases hb with ⟨prev, hin, -⟩ | hgiven | hloose | ⟨-, c, hc, hcd⟩
  · exact absurd hin.taken htaken
  · obtain ⟨v, hv', hcase⟩ := hl.given hnew hgiven
    obtain rfl : v = j := by simpa [hv] using hv'.symm
    rcases hcase with rfl | ⟨rfl, prev, hin, heq⟩
    · exact absurd rfl hne
    · exact ⟨rfl, htaken, b, prev, hgiven, hin, heq⟩
  · exact absurd hloose.2.2.1 htaken
  · obtain rfl : b = c := by simpa [hb] using hc
    simp [hd] at hcd

omit hnew in
theorem Left.victim_zero {j : Nat} (h : ZeroMoves sys old config j) :
    Victim (running sys old config) list (leftBss sys old config) 0 j := by
  obtain ⟨htaken, cur, prev, hgiven, hin, heq⟩ := h
  refine ⟨htaken, ?_, cur, left_of_not_inherits hgiven.1 hgiven.2.2, hgiven.2.1, ?_⟩
  · rintro rfl
    exact htaken hin.taken
  · rw [← heq]
    exact hl.inherited j prev hin

end Left

/-! ## When the addresses are unique -/

section TakenOver

variable (sys : System) (old config : List Bss)

def MustGenerate : Prop :=
  (∃ i cur, config[i]? = some cur ∧ cur.defaultMacaddr = true ∧
    ¬ Taken (running sys old config) i) ∨ ∃ j, ZeroMoves sys old config j

/-- What step 1 has to find. -/
structure TakenOver : Prop where
  given : ∀ i cur, Given sys old config i cur → cur.bssid ∉ sys.mlds
  inherited : ∀ i prev, InheritsFrom sys old config i prev → prev.bssid ∉ sys.mlds
  /-- The address of the first BSS is not inherited by another one, unless the first is new. -/
  zero : ∀ i cur prev, Given sys old config 0 cur → Taken (running sys old config) 0 →
    InheritsFrom sys old config i prev → prev.bssid ≠ cur.bssid
  /-- The first BSS that is taken over is configured with the address it has. -/
  first : ∀ j prev cur, (running sys old config)[0]? = some (some j) → old[j]? = some prev →
    config[0]? = some cur → (∀ p, ¬ InheritsFrom sys old config 0 p) → cur.bssid = prev.bssid
  /-- What the scripts have generated for a loose BSS is nobody's address. -/
  loose : ∀ i cur, Loose sys old config i cur → cur.bssid ∉ sys.mlds ∧
    (∀ k c, Given sys old config k c → c.bssid ≠ cur.bssid) ∧
    (∀ k prev, InheritsFrom sys old config k prev → prev.bssid ≠ cur.bssid) ∧
    ∀ k c, Loose sys old config k c → c.bssid = cur.bssid → k = i
  /-- It is in the list when addresses are generated. -/
  known : MustGenerate sys old config → ∀ i cur, Loose sys old config i cur →
    ((listOf sys config).get? cur.bssid).isSome ∨ cur.bssid ∈ sys.wdevs

variable {sys old config} {list : MacaddrList}

section Sufficient

variable (hnew : AssignedApart config) (hl : Left sys old config list)
include hnew hl

theorem Left.mlds {a : String} (ha : a ∈ sys.mlds) : (list.get? a).isSome := by
  by_cases hin : ∃ k prev, InheritsFrom sys old config k prev ∧ prev.bssid = a
  · obtain ⟨k, prev, hk, rfl⟩ := hin
    simp [hl.inherited k prev hk]
  · push Not at hin
    have hlist : ((listOf sys config).get? a).isSome := by
      rcases config_cases hnew sys.mlds a with ⟨k, b, -, -, -, hk⟩ | ⟨-, hk⟩
      · simp [listOf, hk]
      · simp [listOf, hk, ha]
    rw [hl.others a hin, isSome_or, hlist, Bool.true_or]

omit hnew in
theorem Left.loose {i : Nat} {cur : Bss} (h : TakenOver sys old config)
    (hg : MustGenerate sys old config) (hi : Loose sys old config i cur) :
    (list.get? cur.bssid).isSome := by
  rw [hl.others _ ((h.loose i cur hi).2.2.1), isSome_or]
  rcases h.known hg i cur hi with hk | hk <;> simp [hk]

/-- Before step 6 only an address that its owner is new for is held twice. -/
theorem Left.distinct (hold : (old.map Bss.bssid).Nodup) (h : TakenOver sys old config)
    {i j : Nat} {b c : Bss}
    (hi : Settled (running sys old config) (leftBss sys old config) 0 i)
    (hj : Settled (running sys old config) (leftBss sys old config) 0 j)
    (hb : (leftBss sys old config)[i]? = some b) (hc : (leftBss sys old config)[j]? = some c)
    (heq : b.bssid = c.bssid) :
    i = j ∨ Victim (running sys old config) list (leftBss sys old config) i j ∨
      Victim (running sys old config) list (leftBss sys old config) j i := by
  have hmove : ∀ {k l : Nat} {cur prev : Bss}, Given sys old config k cur →
      InheritsFrom sys old config l prev → prev.bssid = cur.bssid →
      Victim (running sys old config) list (leftBss sys old config) k l := by
    intro k l cur prev hgiven hin heq
    obtain rfl := hin.zero hnew hgiven.1 hgiven.2.1 heq
    by_cases htaken : Taken (running sys old config) 0
    · exact absurd heq (h.zero l cur prev hgiven htaken hin)
    · exact hl.victim_zero ⟨htaken, cur, prev, hgiven, hin, heq⟩
  rcases left_cases hb with ⟨prev, hin, hbp⟩ | hgiven | hloose | hgen
  · rw [hbp] at heq
    rcases left_cases hc with ⟨prev', hin', hcp⟩ | hgiven' | hloose' | hgen'
    · exact .inl (hin.unique hold hin' (heq.trans hcp))
    · exact .inr (.inr (hmove hgiven' hin heq))
    · exact absurd heq ((h.loose j c hloose').2.2.1 i prev hin)
    · exact absurd (hj hgen') (Nat.not_lt_zero j)
  · rcases left_cases hc with ⟨prev', hin', hcp⟩ | hgiven' | hloose' | hgen'
    · exact .inr (.inl (hmove hgiven hin' (hcp.symm.trans heq.symm)))
    · exact .inl (assigned_inj hnew hgiven.1 hgiven'.1 hgiven.2.1 hgiven'.2.1 heq)
    · exact absurd heq ((h.loose j c hloose').2.1 i b hgiven)
    · exact absurd (hj hgen') (Nat.not_lt_zero j)
  · rcases left_cases hc with ⟨prev', hin', hcp⟩ | hgiven' | hloose' | hgen'
    · exact absurd (hcp.symm.trans heq.symm) ((h.loose i b hloose).2.2.1 j prev' hin')
    · exact absurd heq.symm ((h.loose i b hloose).2.1 j c hgiven')
    · exact .inl ((h.loose j c hloose').2.2.2 i b hloose heq)
    · exact absurd (hj hgen') (Nat.not_lt_zero j)
  · exact absurd (hi hgen) (Nat.not_lt_zero i)

omit hnew hl in
theorem TakenOver.mld (h : TakenOver sys old config) {i : Nat} {b : Bss}
    (hi : Settled (running sys old config) (leftBss sys old config) 0 i)
    (hb : (leftBss sys old config)[i]? = some b) : b.bssid ∉ sys.mlds := by
  rcases left_cases hb with ⟨prev, hin, hbp⟩ | hgiven | hloose | hgen
  · exact hbp ▸ h.inherited i prev hin
  · exact h.given i b hgiven
  · exact (h.loose i b hloose).1
  · exact absurd (hi hgen) (Nat.not_lt_zero i)

theorem Left.apart (hold : (old.map Bss.bssid).Nodup) (h : TakenOver sys old config)
    (hg : MustGenerate sys old config) :
    Apart (running sys old config) list (leftBss sys old config) sys.mlds 0
      { list := list, bss := leftBss sys old config } := by
  refine ⟨fun i b hi hb => ?_, fun i b hi hb => h.mld hi hb,
    fun i j b c hi hj hb hc heq => ?_⟩
  · rcases left_cases hb with ⟨prev, hin, hbp⟩ | hgiven | hloose | hgen
    · simp [hbp, hl.inherited i prev hin]
    · obtain ⟨v, hv, -⟩ := hl.given hnew hgiven
      simp [hv]
    · exact hl.loose h hg hloose
    · exact absurd (hi hgen) (Nat.not_lt_zero i)
  · exact (hl.distinct hnew hold h hi hj hb hc heq).imp_right fun h =>
      h.imp (fun h => ⟨Nat.zero_le i, h⟩) fun h => ⟨Nat.zero_le j, h⟩

omit hnew hl in
theorem generated_mustGenerate {i : Nat}
    (h : Generated (running sys old config) (leftBss sys old config) i) :
    MustGenerate sys old config := by
  obtain ⟨htaken, b, hb, hd⟩ := h
  obtain ⟨cur, t, hcur, ht, rfl⟩ := leftBss_eq_some_iff.mp hb
  have hleft := @left_of_not_inherits sys old config i cur hcur fun prev h => htaken h.taken
  refine .inl ⟨i, cur, hcur, ?_, htaken⟩
  rw [hb] at hleft
  rw [← some.inj hleft, hd]

theorem Left.unique (hold : (old.map Bss.bssid).Nodup) (h : TakenOver sys old config)
    {env : Env} (hfresh : env.Fresh) {s' : Step6}
    (h6 : step6 env (running sys old config)
      { list := list, bss := leftBss sys old config } = some s') :
    (s'.bss.map Bss.bssid).Nodup ∧ ∀ b ∈ s'.bss, b.bssid ∉ sys.mlds := by
  by_cases hg : MustGenerate sys old config
  · exact step6_unique (hl.start hnew) hfresh (fun a => hl.mlds hnew)
      (hl.apart hnew hold h hg) h6
  have hgen : ∀ k, ¬ Generated (running sys old config) (leftBss sys old config) k :=
    fun k hk => hg (generated_mustGenerate hk)
  have hvic : ∀ k j, ¬ Victim (running sys old config) list (leftBss sys old config) k j :=
    fun k j hk => hg (.inr ⟨j, (hl.victim hnew hk).2⟩)
  obtain rfl := step6_same (hl.start hnew) hgen hvic h6
  have hsettled : ∀ i, Settled (running sys old config) (leftBss sys old config) 0 i :=
    fun i hi => absurd hi (hgen i)
  constructor
  · refine nodup_of_distinct fun i j b c hb hc heq => ?_
    exact (hl.distinct hnew hold h (hsettled i) (hsettled j) hb hc heq).resolve_right
      fun h => h.elim (hvic i j) (hvic j i)
  · intro b hb
    obtain ⟨i, hi⟩ := mem_iff_getElem?.mp hb
    exact h.mld (hsettled i) hi

end Sufficient

end TakenOver

end LibWrt.Hostapd.Macaddr
