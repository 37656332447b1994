/-
LibWrt.Hostapd.MacaddrExact — the condition is exact.

For a configuration that is not allowed, an environment in which all calls
succeed shows it: where an address goes missing from the list, the generator
finds it again.
-/
import LibWrt.Hostapd.MacaddrReload

namespace LibWrt.Hostapd.Macaddr

open List
open Option hiding all all_eq_true

/-! ## An environment where all calls succeed -/

theorem exists_new (list : MacaddrList) : ∃ addr, list.get? addr = none := by
  obtain ⟨addr, haddr⟩ := Infinite.exists_notMem_finset list.keys.toFinset
  refine ⟨addr, ?_⟩
  rw [Dict.get?, AList.lookup_eq_none, AList.mem_keys]
  simpa using haddr

/-- It generates the address `addr` if that is not in the list. -/
noncomputable def preferring (addr : String) : Env where
  pending := false
  enabled := true
  bss _ := true
  rename := true
  update := true
  macaddrNext list :=
    if list.get? addr = none then some addr else some (exists_new list).choose

theorem preferring_fresh (addr : String) : (preferring addr).Fresh := by
  intro list a h
  by_cases hnone : list.get? addr = none
  · obtain rfl : addr = a := by simpa [preferring, hnone] using h
    exact hnone
  · obtain rfl : (exists_new list).choose = a := by simpa [preferring, hnone] using h
    exact (exists_new list).choose_spec

theorem preferring_exists (addr : String) (list : MacaddrList) :
    ∃ a, (preferring addr).macaddrNext list = some a := by
  by_cases hnone : list.get? addr = none <;> simp [preferring, hnone]

/-- The reload goes through where its steps do. -/
theorem reload_of_steps {sys : System} {addr : String} {old config : Config} {p q : Pass}
    {s : Step6} (hradio : old.radio = config.radio) (hne : old.bss ≠ config.bss)
    (hbss : old.bss ≠ [])
    (hp : step1 sys (preferring addr) old.bss 0 config.bss (listOf sys config.bss)
      (old.bss.map fun bss => some (sys.hash bss.data)) = some p)
    (hmbssid : config.mbssid ≠ 0 → (p.running[0]?.join).isSome)
    (hq : step2 (preferring addr) old.bss p = some q)
    (hs : step6 (preferring addr) q.running
      { list := macaddrInit sys.wdevs q.list, bss := q.bss } = some s) :
    ifaceReloadConfig sys (preferring addr) config (some old) =
      some { bss := s.bss, running := q.running } := by
  have hm : ¬ (config.mbssid ≠ 0 ∧ (p.running[0]?.join).isNone = true) := by
    rintro ⟨hmb, hnone⟩
    have := hmbssid hmb
    simp_all
  have h3 : step3 (preferring addr) q = true := by simp [step3, preferring]
  have hp' : step1 sys (preferring addr) old.bss 0 config.bss
      (ifaceConfigMacaddrList sys.mlds config.bss)
      (old.bss.map fun bss => some (sys.hash bss.data)) = some p := hp
  rw [ifaceReloadConfig, if_neg (not_not.mpr hradio), if_neg hne, if_neg (by simp [preferring]),
    if_neg hbss, if_neg (by simp [preferring]), if_neg (by simp [preferring]), hp',
    bind_some, if_neg hm, hq, bind_some, if_neg (by simp [h3]),
    if_neg (by simp [preferring]), hs, bind_some, if_neg (by simp [preferring])]

/-! ## What the generator brings back -/

section Preferred

variable {T : List (Option Nat)} {list : MacaddrList} {B : List Bss} {addr : String}

/-- Before any address is generated, or with the address at a BSS that has had its turn. -/
def Brought (T : List (Option Nat)) (list : MacaddrList) (B : List Bss) (addr : String) (k : Nat)
    (s : Step6) : Prop :=
  (s.list.get? addr = none ∧ ∀ i < k, ¬ Generated T B i ∧ ∀ j, ¬ Victim T list B i j) ∨
    (s.list.get? addr).isSome ∧ ∃ j b, s.bss[j]? = some b ∧ b.bssid = addr ∧
      (Generated T B j ∧ j < k ∨ ∃ i < k, Victim T list B i j)

theorem Brought.step {k : Nat} {s s' : Step6} (hstart : Start T list B)
    (hone : ∀ i i' j, Victim T list B i j → Victim T list B i' j → i = i')
    (hs : Turned T list B k s) (hb : Brought T list B addr k s)
    (h : step6Turn (preferring addr) T s k = some s') : Brought T list B addr (k + 1) s' := by
  rcases turn_cases hstart hs h with ⟨rfl, hg, hv⟩ | ⟨target, a, hgen⟩
  · rcases hb with ⟨hnone, hall⟩ | ⟨hsome, j, b, hj, hab, hwhy⟩
    · refine .inl ⟨hnone, fun i hi => ?_⟩
      rcases Nat.lt_or_eq_of_le (Nat.lt_succ_iff.mp hi) with hlt | rfl
      · exact hall i hlt
      · exact ⟨hg, hv⟩
    · refine .inr ⟨hsome, j, b, hj, hab, ?_⟩
      rcases hwhy with ⟨hg, hlt⟩ | ⟨i, hi, hv⟩
      · exact .inl ⟨hg, by omega⟩
      · exact .inr ⟨i, by omega, hv⟩
  have htarget := hgen.target_cases hstart
  have hwhy := hgen.why
  obtain ⟨list', hm, hnext, rfl⟩ := hgen.next
  rcases hb with ⟨hnone, -⟩ | ⟨hsome, j, b, hj, hab, hold⟩
  · -- the first address that is generated
    have hnone' : list'.get? addr = none := by
      have := hm.isSome addr
      rw [hnone] at this
      simpa using this
    obtain rfl : addr = a := by simpa [preferring, hnone'] using hnext
    have hlt : target < B.length := by
      rcases hwhy with ⟨rfl, -, c, hc, -⟩ | hv
      · exact (List.getElem?_eq_some_iff.mp hc).1
      · exact (hstart.victim_taken hv).2
    rw [← hs.length] at hlt
    refine .inr ⟨by simp, target, { s.bss[target] with bssid := addr }, ?_, rfl, ?_⟩
    · simp [getElem?_modify_eq, getElem?_eq_getElem hlt]
    · rcases hwhy with ⟨rfl, hg⟩ | hv
      · exact .inl ⟨hg, Nat.lt_succ_self _⟩
      · exact .inr ⟨k, Nat.lt_succ_self _, hv⟩
  · have hne : target ≠ j := by
      rintro rfl
      rcases hold with ⟨hg, hlt⟩ | ⟨i, hi, hv⟩
      · rcases hwhy with ⟨rfl, -⟩ | hv
        · omega
        · exact hg.1 (hstart.victim_taken hv).1
      · rcases hwhy with ⟨rfl, hg⟩ | hv'
        · exact hg.1 (hstart.victim_taken hv).1
        · have := hone i k target hv hv'
          omega
    have hsome' : (list'.get? addr).isSome := by rw [hm.isSome, hsome]
    refine .inr ⟨?_, j, b, ?_, hab, ?_⟩
    · change ((list'.set a k).get? addr).isSome
      rw [Dict.get?_set]
      split
      · rfl
      · exact hsome'
    · change (s.bss.modify target _)[j]? = _
      rw [getElem?_modify_ne _ _ hne, hj]
    · rcases hold with ⟨hg, hlt⟩ | ⟨i, hi, hv⟩
      · exact .inl ⟨hg, by omega⟩
      · exact .inr ⟨i, by omega, hv⟩

/-- If an address is generated at all, the preferred one is. -/
theorem step6_brings {s' : Step6} (hstart : Start T list B)
    (hone : ∀ i i' j, Victim T list B i j → Victim T list B i' j → i = i')
    (hnone : list.get? addr = none)
    (hgen : ∃ k < B.length, Generated T B k ∨ ∃ j, Victim T list B k j)
    (h : step6 (preferring addr) T { list := list, bss := B } = some s') :
    ∃ j b, s'.bss[j]? = some b ∧ b.bssid = addr ∧
      (Generated T B j ∨ ∃ i, Victim T list B i j) := by
  have hend := Loop.foldlM_range_invariant
    (fun k s => Turned T list B k s ∧ Brought T list B addr k s)
    ⟨Turned.init hstart, .inl ⟨hnone, fun i hi => absurd hi (Nat.not_lt_zero i)⟩⟩
    (fun k _ s t hs h => ⟨hs.1.step hstart (preferring_fresh addr) h,
      hs.2.step hstart hone hs.1 h⟩) h
  obtain ⟨-, ⟨-, hall⟩ | ⟨-, j, b, hj, hab, hwhy⟩⟩ := hend
  · obtain ⟨k, hk, hg | ⟨j, hv⟩⟩ := hgen
    · exact absurd hg (hall k hk).1
    · exact absurd hv ((hall k hk).2 j)
  · refine ⟨j, b, hj, hab, ?_⟩
    rcases hwhy with ⟨hg, -⟩ | ⟨i, -, hv⟩
    · exact .inl hg
    · exact .inr ⟨i, hv⟩

end Preferred

/-! ## The condition is needed -/

section Needed

variable {sys : System} {old config : Config}
  (hnew : AssignedApart config.bss) (hold : (old.bss.map Bss.bssid).Nodup)
  (hradio : old.radio = config.radio) (hkeeps : KeepsUnique sys old config)

include hradio hkeeps in
theorem KeepsUnique.same (heq : old.bss = config.bss) : ∀ b ∈ old.bss, b.bssid ∉ sys.mlds := by
  have hr : ifaceReloadConfig sys (preferring "") config (some old) =
      some { bss := config.bss, running := (List.range config.bss.length).map some } := by
    rw [ifaceReloadConfig, if_neg (not_not.mpr hradio), if_pos heq]
  have := (hkeeps _ (preferring_fresh "") _ hr).mlds
  rwa [heq]

theorem exists_step1 (addr : String) (hold : (old.bss.map Bss.bssid).Nodup)
    (hbss : old.bss ≠ []) : ∃ p,
      step1 sys (preferring addr) old.bss 0 config.bss (listOf sys config.bss)
        (old.bss.map fun bss => some (sys.hash bss.data)) = some p ∧
      Found old.bss (listOf sys config.bss) 0 config.bss (running sys old.bss config.bss)
        (listOf sys config.bss) p := by
  obtain ⟨p, hp⟩ := @step1_exists sys (preferring addr) old.bss (fun _ => rfl) hbss 0
    config.bss (listOf sys config.bss) (old.bss.map fun bss => some (sys.hash bss.data)) (by simp)
  exact ⟨p, hp, step1_found hold hp fun _ _ _ _ => rfl⟩

section Renamed

variable {prev cur : Bss} {list : MacaddrList}
  (hlist : ∀ addr, list.get? addr =
    (if addr = prev.bssid then some 0 else (listOf sys config.bss).get? addr).or
      (if addr ∈ sys.wdevs then some (-1) else none))

include hnew hlist in
/-- An address that is assigned belongs to its BSS, or to the first one. -/
theorem renamed_own {i : Nat} {b : Bss} (hb : config.bss[i + 1]? = some b)
    (hd : b.defaultMacaddr = false) :
    list.get? b.bssid = some (if b.bssid = prev.bssid then 0 else ((i + 1 : Nat) : Int)) := by
  rw [hlist, listOf_given hnew hb hd]
  split <;> rfl

include hnew hlist in
theorem renamed_start :
    Start (renamedRunning sys old.bss config.bss) list (renamedBss config.bss prev cur) := by
  constructor
  · intro i b hb htaken hd
    cases i with
    | zero => exact absurd taken_renamed_zero htaken
    | succ i =>
      have hlt := (List.getElem?_eq_some_iff.mp hb).1
      rw [renamedBss_succ] at hb
      have hown := renamed_own hnew hlist hb hd
      by_cases heq : b.bssid = prev.bssid
      · exact ⟨0, by simpa [heq] using hown, by omega, .inr taken_renamed_zero⟩
      · exact ⟨i + 1, by simpa [heq] using hown, hlt, .inl rfl⟩
  · exact renamed_unused hnew hlist

include hnew hlist in
/-- Only the first BSS can be moved. -/
theorem renamed_victim {i j : Nat}
    (h : Victim (renamedRunning sys old.bss config.bss) list (renamedBss config.bss prev cur) i j) :
    j = 0 ∧ ∃ b, config.bss[i]? = some b ∧ b.defaultMacaddr = false ∧ b.bssid = prev.bssid := by
  obtain ⟨htaken, hne, b, hb, hd, hj⟩ := h
  cases i with
  | zero => exact absurd taken_renamed_zero htaken
  | succ i =>
    rw [renamedBss_succ] at hb
    rw [renamed_own hnew hlist hb hd] at hj
    by_cases heq : b.bssid = prev.bssid
    · exact ⟨by simpa [heq] using hj.symm, b, hb, hd, heq⟩
    · have : ((i + 1 : Nat) : Int) = (j : Int) := by simpa [heq] using hj
      omega

end Renamed

include hnew hold hradio hkeeps in
theorem KeepsUnique.renamed (hne : old.bss ≠ config.bss)
    (hnone : ∀ i, ¬ Taken (running sys old.bss config.bss) i) (hmb : config.mbssid = 0)
    {prev cur : Bss} (hren : Renames old.bss config.bss prev cur) :
    Alone sys config.bss prev := by
  have hbss : old.bss ≠ [] := by
    rintro hnil
    simp [Renames, hnil] at hren
  obtain ⟨p, hp, hfound⟩ := @exists_step1 sys old config "" hold hbss
  have hrunning : p.running = running sys old.bss config.bss := hfound.running
  have hbssp : p.bss = config.bss := hfound.bss.trans (leftBss_of_none hnone)
  have hall : p.running.all Option.isNone = true := by
    rw [hrunning, List.all_eq_true]
    intro t ht
    obtain ⟨i, hi⟩ := mem_iff_getElem?.mp ht
    have := hnone i
    rw [Taken, hi] at this
    simpa using this
  have hq : step2 (preferring "") old.bss p = some (goesOn prev cur p) := by
    obtain ⟨hprev, hcur, haddr⟩ := hren
    obtain ⟨tail, hold'⟩ : ∃ tail, old.bss = prev :: tail := by
      cases hcase : old.bss with
      | nil => exact absurd hcase hbss
      | cons o os =>
        rw [hcase] at hprev
        exact ⟨os, by rw [← some.inj hprev]⟩
    obtain ⟨rest, hrest⟩ : ∃ rest, config.bss = cur :: rest := by
      cases hcase : config.bss with
      | nil => simp [hcase] at hcur
      | cons c cs =>
        rw [hcase] at hcur
        exact ⟨cs, by rw [← some.inj hcur]⟩
    have hok : ¬ (cur.bssid ≠ prev.bssid ∧ (!cur.defaultMacaddr) = true) := by
      rintro ⟨hne, hd⟩
      exact haddr.elim hne fun hd' => by simp [hd'] at hd
    unfold step2
    rw [if_pos hall]
    simp only [hbssp, hrest, hold']
    rw [if_neg hok, if_neg (by simp [preferring]), goesOn, hbssp, hrest]
    rfl
  have hlist : ∀ addr, (macaddrInit sys.wdevs (goesOn prev cur p).list).get? addr =
      (if addr = prev.bssid then some 0 else (listOf sys config.bss).get? addr).or
        (if addr ∈ sys.wdevs then some (-1) else none) := by
    intro addr
    have hlist : p.list.get? addr = (listOf sys config.bss).get? addr :=
      hfound.others addr fun k prev hk => absurd (InheritsFrom.taken hk) (hnone k)
    rw [get?_macaddrInit, goesOn, Dict.get?_set, hlist]
  have hrun : (goesOn prev cur p).running = renamedRunning sys old.bss config.bss := by
    rw [goesOn, hrunning, renamedRunning]
  have hbss' : (goesOn prev cur p).bss = renamedBss config.bss prev cur := by
    rw [goesOn, hbssp, renamedBss]
  have hstart : Start (renamedRunning sys old.bss config.bss)
      (macaddrInit sys.wdevs (goesOn prev cur p).list) (renamedBss config.bss prev cur) :=
    renamed_start hnew hlist
  obtain ⟨s, hs⟩ := step6_exists hstart (preferring_fresh "") (preferring_exists "")
  have hr := reload_of_steps hradio hne hbss hp (fun hm => absurd hmb hm) hq
    (by rw [hrun, hbss']; exact hs)
  have hu := hkeeps _ (preferring_fresh "") _ hr
  rw [hrun] at hu
  -- an assigned address stays
  have hkept : ∀ (i : Nat) (b : Bss), config.bss[i + 1]? = some b → b.defaultMacaddr = false →
      s.bss[i + 1]? = some b := by
    intro i b hb hd
    refine step6_keeps hstart (preferring_fresh "") hs ((renamedBss_succ i).trans hb) ?_
      fun k hk => ?_
    · rintro ⟨-, c, hc, hcd⟩
      rw [renamedBss_succ, hb] at hc
      rw [some.inj hc, hcd] at hd
      cases hd
    · have := (renamed_victim hnew hlist hk).1
      omega
  have hlen : 0 < s.bss.length := by
    rw [(step6_turned hstart (preferring_fresh "") hs).length]
    simp [renamedBss]
  have hfirst : (s.bss[0]).bssid = prev.bssid :=
    hu.first 0 prev _ rfl hren.1 (getElem?_eq_getElem hlen)
  refine ⟨?_, fun i b hb hd => ⟨?_, fun heq => ?_⟩⟩
  · rw [← hfirst]
    exact hu.mlds _ (getElem_mem hlen)
  · exact hu.mlds b (mem_iff_getElem?.mpr ⟨i + 1, hkept i b hb hd⟩)
  · have := bssid_inj hu.distinct (getElem?_eq_getElem hlen) (hkept i b hb hd)
      (hfirst.trans heq.symm)
    omega

section Taken

variable (hne : old.bss ≠ config.bss) (htaken : ∃ i, Taken (running sys old.bss config.bss) i)
  (hmb : config.mbssid ≠ 0 → Taken (running sys old.bss config.bss) 0)
include hnew hold hradio hkeeps hne htaken hmb

/-- A reload that takes a BSS over, with a preferred address. -/
theorem KeepsUnique.reload (addr : String) : ∃ list s,
    Left sys old.bss config.bss list ∧
      step6 (preferring addr) (running sys old.bss config.bss)
        { list := list, bss := leftBss sys old.bss config.bss } = some s ∧
      Unique sys old.bss config.bss
        { bss := s.bss, running := running sys old.bss config.bss } := by
  obtain ⟨i, hi⟩ := htaken
  have hbss : old.bss ≠ [] := by
    intro hnil
    obtain ⟨t, ht⟩ : ∃ t, (running sys old.bss config.bss)[i]? = some (some t) := by
      cases hget : (running sys old.bss config.bss)[i]? with
      | none => simp [Taken, hget] at hi
      | some t =>
        cases t with
        | none => simp [Taken, hget] at hi
        | some t => exact ⟨t, rfl⟩
    obtain ⟨prev, hprev⟩ := takes_lt (mem_iff_getElem?.mpr ⟨i, ht⟩)
    simp [hnil] at hprev
  obtain ⟨p, hp, hfound⟩ := @exists_step1 sys old config addr hold hbss
  have hrunning : p.running = running sys old.bss config.bss := hfound.running
  have hbssp : p.bss = leftBss sys old.bss config.bss := hfound.bss
  have hl := left_of_found rfl hfound
  have hall : ¬ p.running.all Option.isNone = true := by
    rw [hrunning, List.all_eq_true]
    intro hall
    cases hget : (running sys old.bss config.bss)[i]? with
    | none => simp [Taken, hget] at hi
    | some t =>
      have := hall t (mem_iff_getElem?.mpr ⟨i, hget⟩)
      rw [Taken, hget] at hi
      simp_all
  have hq : step2 (preferring addr) old.bss p = some p := by
    unfold step2
    rw [if_neg hall]
  obtain ⟨s, hs⟩ := step6_exists (hl.start hnew) (preferring_fresh addr) (preferring_exists addr)
  have hr := reload_of_steps hradio hne hbss hp
    (fun hm => by rw [hrunning]; exact hmb hm) hq (by rw [hrunning, hbssp]; exact hs)
  have hu := hkeeps _ (preferring_fresh addr) _ hr
  rw [hrunning] at hu
  exact ⟨_, s, hl, hs, hu⟩

theorem KeepsUnique.known (hloose : ∀ i cur, Loose sys old.bss config.bss i cur →
      ∀ k prev, InheritsFrom sys old.bss config.bss k prev → prev.bssid ≠ cur.bssid)
    (hgen : MustGenerate sys old.bss config.bss) {i : Nat} {cur : Bss}
    (h : Loose sys old.bss config.bss i cur) :
    ((listOf sys config.bss).get? cur.bssid).isSome ∨ cur.bssid ∈ sys.wdevs := by
  by_contra hout
  obtain ⟨list, s, hl, hs, hu⟩ := hkeeps.reload hnew hold hradio hne htaken hmb cur.bssid
  have hnone : list.get? cur.bssid = none := by
    rw [hl.others _ (hloose i cur h)]
    simp_all
  have hturn : ∃ k < (leftBss sys old.bss config.bss).length,
      Generated (running sys old.bss config.bss) (leftBss sys old.bss config.bss) k ∨
        ∃ j, Victim (running sys old.bss config.bss) list (leftBss sys old.bss config.bss) k j := by
    rcases hgen with ⟨k, c, hc, hd, hk⟩ | ⟨j, hz⟩
    · have hleft := left_of_not_inherits hc fun prev hin => hk hin.taken
      exact ⟨k, (List.getElem?_eq_some_iff.mp hleft).1, .inl ⟨hk, c, hleft, hd⟩⟩
    · obtain ⟨-, -, b, hb, -⟩ := hl.victim_zero hz
      exact ⟨0, (List.getElem?_eq_some_iff.mp hb).1, .inr ⟨j, hl.victim_zero hz⟩⟩
  obtain ⟨j, b, hj, hbj, hwhy⟩ := step6_brings (hl.start hnew)
    (fun a a' k hv hv' => (hl.victim hnew hv).1.trans (hl.victim hnew hv').1.symm)
    hnone hturn hs
  have hkept := hl.taken_kept hnew (preferring_fresh cur.bssid) hs h.1 h.2.2.1 h.2.2.2
  have hij : j = i := bssid_inj hu.distinct hj hkept hbj
  rcases hwhy with hg | ⟨k, hv⟩
  · exact hg.1 (hij ▸ h.2.2.1)
  · obtain ⟨-, -, _, prev, -, hin, -⟩ := hl.victim hnew hv
    exact h.2.2.2 prev (hij ▸ hin)

/-- A reload that takes a BSS over keeps the addresses unique only if the condition holds. -/
theorem KeepsUnique.takenOver : TakenOver sys old.bss config.bss := by
  obtain ⟨list, s, hl, hs, hu⟩ := hkeeps.reload hnew hold hradio hne htaken hmb ""
  have hfresh := preferring_fresh ""
  have hmem {i : Nat} {b : Bss} (hb : s.bss[i]? = some b) : b.bssid ∉ sys.mlds :=
    hu.mlds b (mem_iff_getElem?.mpr ⟨i, hb⟩)
  have hgiven {i : Nat} {cur : Bss} (h : Given sys old.bss config.bss i cur) :
      s.bss[i]? = some cur := hl.given_kept hnew hfresh hs h
  have hkept {i : Nat} {cur : Bss} (h : Loose sys old.bss config.bss i cur) :
      s.bss[i]? = some cur := hl.taken_kept hnew hfresh hs h.1 h.2.2.1 h.2.2.2
  -- an address that is inherited belongs to the heir, or to the first one
  have hheir {i : Nat} {prev : Bss} (h : InheritsFrom sys old.bss config.bss i prev) :
      (∃ b, s.bss[i]? = some b ∧ b.bssid = prev.bssid) ∨
        ∃ cur, Given sys old.bss config.bss 0 cur ∧ cur.bssid = prev.bssid := by
    by_cases hz : ZeroMoves sys old.bss config.bss i
    · obtain ⟨-, cur, prev', hcur, hin, heq⟩ := hz
      obtain ⟨c, t, hc, ht, hin⟩ := hin
      obtain ⟨c', t', hc', ht', hin'⟩ := h
      obtain rfl : c = c' := some.inj (hc.symm.trans hc')
      obtain rfl : t = t' := some.inj (ht.symm.trans ht')
      obtain rfl : prev' = prev := some.inj (hin.symm.trans hin')
      exact .inr ⟨cur, hcur, heq.symm⟩
    · exact .inl (hl.inherited_kept hnew hfresh hs h hz)
  have hloose : ∀ i cur, Loose sys old.bss config.bss i cur →
      ∀ k prev, InheritsFrom sys old.bss config.bss k prev → prev.bssid ≠ cur.bssid := by
    intro i cur h k prev hin heq
    rcases hheir hin with ⟨b, hb, hbp⟩ | ⟨c, hc, hcp⟩
    · obtain rfl := bssid_inj hu.distinct hb (hkept h) (hbp.trans heq)
      exact h.2.2.2 prev hin
    · obtain rfl := bssid_inj hu.distinct (hgiven hc) (hkept h) (hcp.trans heq)
      have := some.inj (hc.1.symm.trans h.1)
      have hd := hc.2.1
      rw [this, h.2.1] at hd
      cases hd
  refine ⟨fun i cur h => hmem (hgiven h), fun i prev h => ?_, fun i cur prev h h0 hin heq => ?_,
    fun j prev cur hj hprev hcur hin => ?_, fun i cur h => ⟨hmem (hkept h), fun k c hc heq => ?_,
      hloose i cur h, fun k c hc heq => ?_⟩,
    fun hgen i cur h => hkeeps.known hnew hold hradio hne htaken hmb hloose hgen h⟩
  · rcases hheir h with ⟨b, hb, hbp⟩ | ⟨c, hc, hcp⟩
    · exact hbp ▸ hmem hb
    · exact hcp ▸ hmem (hgiven hc)
  · obtain ⟨b, hb, hbp⟩ := hl.inherited_kept hnew hfresh hs hin fun hz => hz.1 h0
    obtain rfl := bssid_inj hu.distinct hb (hgiven h) (hbp.trans heq)
    exact h.2.2 prev hin
  · have h0 : Taken (running sys old.bss config.bss) 0 := by simp [Taken, hj]
    exact hu.first j prev cur hj hprev (hl.taken_kept hnew hfresh hs hcur h0 hin)
  · obtain rfl := bssid_inj hu.distinct (hgiven hc) (hkept h) heq
    have := some.inj (hc.1.symm.trans h.1)
    have hd := hc.2.1
    rw [this, h.2.1] at hd
    cases hd
  · exact bssid_inj hu.distinct (hkept hc) (hkept h) heq

end Taken

end Needed

/-! ## The result -/

/-- A reload in place keeps the addresses unique, whatever hostapd answers and however addresses
    are generated, exactly for the configurations that are allowed. The addresses that are assigned,
    random ones among them, differ before. -/
theorem keepsUnique_iff (sys : System) (old config : Config)
    (hold : (old.bss.map Bss.bssid).Nodup)
    (hnew : ((config.bss.filter (!·.defaultMacaddr)).map Bss.bssid).Nodup) :
    KeepsUnique sys old config ↔ (old.radio = config.radio → Allowed sys old config) := by
  have hapart := assignedApart_of_nodup hnew
  constructor
  · intro h hradio
    exact ⟨h.same hradio, fun hne hnone hmb prev cur hren =>
        h.renamed hapart hold hradio hne hnone hmb hren,
      fun hne htaken hmb => h.takenOver hapart hold hradio hne htaken hmb⟩
  · exact Allowed.keepsUnique hapart hold

/-- A BSS without further options than the line `x`. -/
def bssOf (x bssid : String) (defaultMacaddr : Bool) : Bss where
  ifname := x
  bssid := bssid
  defaultMacaddr := defaultMacaddr
  randomMacaddr := false
  forceReload := false
  mldAp := false
  data := [x]
  hash := []

def configOf (bss : List Bss) : Config where
  radio := { channel := none, data := [] }
  mbssid := 0
  bss := bss

/-- The first BSS has its address from the user, the second one that of its place. -/
def assignedFirst : Config := configOf [bssOf "x" "assigned" false, bssOf "y" "second" true]

/-- The order is changed, and both have the addresses of their places. -/
def swapped : Config := configOf [bssOf "y" "first" true, bssOf "x" "second" true]

def plain : System where
  hash data := data.headD ""
  fullmac := false
  mlds := []
  wdevs := []

theorem keepsUnique_iff_swapped :
    KeepsUnique plain assignedFirst swapped ↔
      (assignedFirst.radio = swapped.radio → Allowed plain assignedFirst swapped) :=
  keepsUnique_iff plain assignedFirst swapped (by decide) (by decide)

/-- The second one is not told that the first one goes on with its address. -/
theorem not_keepsUnique_swapped :
    (assignedFirst.bss.map Bss.bssid).Nodup ∧
      ((swapped.bss.filter (!·.defaultMacaddr)).map Bss.bssid).Nodup ∧
      ¬ KeepsUnique plain assignedFirst swapped := by
  refine ⟨by decide, by decide, fun h => ?_⟩
  let env : Env :=
    { pending := false, enabled := true, bss := fun _ => true, rename := true, update := true
      macaddrNext := fun _ => none }
  have hrun : (ifaceReloadConfig plain env swapped (some assignedFirst)).map
      (·.bss.map Bss.bssid) = some ["second", "second"] := by decide +kernel
  obtain ⟨r, hr, hbss⟩ := map_eq_some_iff.mp hrun
  have hfresh : env.Fresh := fun _ _ hnone => by cases hnone
  have hdistinct := (h env hfresh r hr).distinct
  rw [hbss] at hdistinct
  exact absurd hdistinct (by decide)

end LibWrt.Hostapd.Macaddr
