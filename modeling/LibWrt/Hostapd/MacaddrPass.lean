/-
LibWrt.Hostapd.MacaddrPass — what each pass does to the addresses.

In step 1 the tests of different BSSes do not interfere, because no running BSS
is taken over twice: each test gives what it gives on the list of the
configuration. In step 6 a turn does nothing, or one address is generated, for
the BSS whose turn it is or for one that holds its address.
-/
import LibWrt.Lib.Loop
import LibWrt.Hostapd.Macaddr

namespace LibWrt.Hostapd.Macaddr

open List Option

/-! ## The list of addresses -/

def AssignedApart (config : List Bss) : Prop :=
  config.Pairwise fun b b' => !b.defaultMacaddr → !b'.defaultMacaddr → b.bssid ≠ b'.bssid

variable {config : List Bss} {i : Nat} {sys : System}

theorem assignedApart_of_nodup (h : ((config.filter (!·.defaultMacaddr)).map Bss.bssid).Nodup) :
    AssignedApart config := by
  have h := pairwise_filter.mp (pairwise_map.mp h)
  exact h.imp fun h ha hb => h ha hb

theorem get?_assigned_none {addr : String} {bss : List Bss} {list : MacaddrList}
    (h : ∀ b ∈ bss, !b.defaultMacaddr → b.bssid ≠ addr) :
    (assigned i bss list).get? addr = list.get? addr := by
  induction bss generalizing i list with
  | nil => rfl
  | cons b rest ih =>
    rw [assigned, ih fun b hb => h b (by simp [hb])]
    split
    · rfl
    · exact Dict.get?_set_ne _ (Ne.symm (h b (by simp) (by simp_all))) _

theorem get?_assigned {bss : List Bss} (hbss : AssignedApart bss) {k : Nat} {b : Bss}
    (hb : bss[k]? = some b) (hd : !b.defaultMacaddr) (i : Nat) (list : MacaddrList) :
    (assigned i bss list).get? b.bssid = some ((i + k : Nat) : Int) := by
  induction bss generalizing i k list with
  | nil => simp at hb
  | cons c rest ih =>
    obtain ⟨hc, hrest⟩ := pairwise_cons.mp hbss
    cases k with
    | zero =>
      obtain rfl : c = b := by simpa using hb
      rw [assigned, get?_assigned_none fun b hb hd' => (hc b hb hd hd').symm]
      simp_all
    | succ k =>
      have := ih hrest (by simpa using hb) (i + 1)
        (if c.defaultMacaddr then list else list.set c.bssid i)
      rw [assigned, this]
      congr 2
      omega

theorem get?_mlds (mlds : List String) (addr : String) (list : MacaddrList) :
    (mlds.foldl (fun list addr => list.set addr (-1)) list).get? addr =
      if addr ∈ mlds then some (-1) else list.get? addr := by
  induction mlds generalizing list with
  | nil => simp
  | cons a rest ih =>
    rw [foldl_cons, ih, Dict.get?_set]
    by_cases ha : addr = a <;> simp [ha]

theorem get?_config (hc : AssignedApart config) (mlds : List String) {k : Nat} {b : Bss}
    (hb : config[k]? = some b) (hd : !b.defaultMacaddr) :
    (ifaceConfigMacaddrList mlds config).get? b.bssid = some (k : Int) := by
  simpa [ifaceConfigMacaddrList] using get?_assigned hc hb hd 0 _

theorem get?_config_none {mlds : List String} {addr : String}
    (h : ∀ b ∈ config, !b.defaultMacaddr → b.bssid ≠ addr) :
    (ifaceConfigMacaddrList mlds config).get? addr = if addr ∈ mlds then some (-1) else none := by
  rw [ifaceConfigMacaddrList, get?_assigned_none h, get?_mlds]
  rfl

/-- An address of the list is assigned to a BSS, or that of an MLD interface. -/
theorem config_cases (hc : AssignedApart config) (mlds : List String) (addr : String) :
    (∃ (k : Nat) (b : Bss), config[k]? = some b ∧ (!b.defaultMacaddr) = true ∧ b.bssid = addr ∧
      (ifaceConfigMacaddrList mlds config).get? addr = some (k : Int)) ∨
    ((∀ b ∈ config, !b.defaultMacaddr → b.bssid ≠ addr) ∧
      (ifaceConfigMacaddrList mlds config).get? addr =
        if addr ∈ mlds then some (-1) else none) := by
  by_cases h : ∀ b ∈ config, !b.defaultMacaddr → b.bssid ≠ addr
  · exact .inr ⟨h, get?_config_none h⟩
  · push Not at h
    obtain ⟨b, hb, hd, rfl⟩ := h
    obtain ⟨k, hk⟩ := mem_iff_getElem?.mp hb
    exact .inl ⟨k, b, hk, hd, rfl, get?_config hc mlds hk hd⟩

theorem get?_macaddrInit (wdevs : List String) (list : MacaddrList) (addr : String) :
    (macaddrInit wdevs list).get? addr =
      (list.get? addr).or (if addr ∈ wdevs then some (-1) else none) := by
  induction wdevs generalizing list with
  | nil => simp [macaddrInit]
  | cons a rest ih =>
    rw [macaddrInit, foldl_cons]
    change (macaddrInit rest _).get? addr = _
    rw [ih]
    by_cases ha : addr = a
    · subst ha
      cases hl : list.get? addr <;> simp [hl]
    · cases hl : list.get? a <;> simp [ha, Dict.get?_set]

/-! ## The BSSes that are found -/

section Takes

variable (sys : System) (old : List Bss)

/-- The running BSS that each BSS of the configuration takes over in step 1. -/
def takes : Nat → List Bss → List (Option String) → List (Option Nat)
  | _, [], _ => []
  | i, cur :: rest, prevHash =>
    let found := findPrev sys i cur prevHash
    found.1.filter (fun j => (old[j]?).any fun prev => !prev.forceReload) ::
      takes (i + 1) rest found.2

/-- The running BSS has not been found yet. -/
def IsOpen (prevHash : List (Option String)) (j : Nat) : Prop := ∃ h, prevHash[j]? = some (some h)

variable {sys old}

variable {prevHash : List (Option String)} {i j : Nat}

theorem isOpen_set :
    IsOpen (prevHash.set i none) j ↔ IsOpen prevHash j ∧ j ≠ i := by
  unfold IsOpen
  rw [getElem?_set]
  by_cases h : i = j
  · subst h
    simp only [if_pos, ne_eq, not_true_eq_false, and_false, iff_false, not_exists]
    split <;> simp
  · simp [h, Ne.symm h]

theorem bssFindExisting_open {cur : Bss} (h : (bssFindExisting sys cur prevHash).1 = some j) :
    IsOpen prevHash j := by
  unfold bssFindExisting at h
  split at h
  case h_1 i hi =>
    obtain rfl : i = j := by simpa using h
    obtain ⟨hlt, heq, _⟩ := findIdx?_eq_some_iff_getElem.mp hi
    exact ⟨_, by simpa [getElem?_eq_getElem hlt] using heq⟩
  case h_2 => simp at h

theorem findPrev_open {cur : Bss} (h : IsOpen (findPrev sys i cur prevHash).2 j) :
    IsOpen prevHash j ∧ (findPrev sys i cur prevHash).1 ≠ some j := by
  unfold findPrev at h ⊢
  split at h
  case isTrue hi =>
    rw [isOpen_set] at h
    simp [hi, h.1, Ne.symm h.2]
  case isFalse hi =>
    rw [if_neg hi]
    unfold bssFindExisting at h ⊢
    split at h
    case h_1 k hk =>
      rw [isOpen_set] at h
      simp [h.1, Ne.symm h.2]
    case h_2 hk => simp [h]

theorem takes_open (hi : 0 < i) {bss : List Bss} (h : some j ∈ takes sys old i bss prevHash) :
    IsOpen prevHash j := by
  induction bss generalizing i prevHash with
  | nil => simp [takes] at h
  | cons cur rest ih =>
    rcases mem_cons.mp h with h | h
    · have h := (filter_eq_some_iff.mp h.symm).1
      rw [findPrev, if_neg (by omega)] at h
      exact bssFindExisting_open h
    · exact (findPrev_open (ih (by omega) h)).1

/-- No running BSS is taken over twice. -/
theorem takes_apart (i : Nat) (bss : List Bss) (prevHash : List (Option String)) :
    (takes sys old i bss prevHash).Pairwise fun t t' => ∀ j, t = some j → t' ≠ some j := by
  induction bss generalizing i prevHash with
  | nil => exact List.Pairwise.nil
  | cons cur rest ih =>
    refine pairwise_cons.mpr ⟨?_, ih _ _⟩
    rintro t ht j hj rfl
    exact (findPrev_open (takes_open (by omega) ht)).2 (filter_eq_some_iff.mp hj).1

theorem length_takes (i : Nat) (bss : List Bss) (prevHash : List (Option String)) :
    (takes sys old i bss prevHash).length = bss.length := by
  induction bss generalizing i prevHash with
  | nil => rfl
  | cons cur rest ih => simp [takes, ih]

theorem takes_lt {bss : List Bss} (h : some j ∈ takes sys old i bss prevHash) :
    ∃ prev, old[j]? = some prev := by
  induction bss generalizing i prevHash with
  | nil => simp [takes] at h
  | cons cur rest ih =>
    rcases mem_cons.mp h with h | h
    · have hprev := (filter_eq_some_iff.mp h.symm).2
      cases hj : old[j]? with
      | none => simp [hj] at hprev
      | some prev => exact ⟨prev, rfl⟩
    · exact ih h

end Takes

/-! ## Step 1 -/

section Step1

variable {sys : System} {env : Env} {old : List Bss}

def inherits (old : List Bss) (list : MacaddrList) (cur : Bss) (t : Option Nat) : Option Bss :=
  (t.bind fun j => old[j]?).filter (preserves list cur)

def Bss.withAddr (bss : Bss) (addr : String) : Bss := { bss with bssid := addr }

@[simp] theorem Bss.withAddr_bssid (bss : Bss) (addr : String) :
    (bss.withAddr addr).bssid = addr := rfl

@[simp] theorem Bss.withAddr_defaultMacaddr (bss : Bss) (addr : String) :
    (bss.withAddr addr).defaultMacaddr = bss.defaultMacaddr := rfl

def kept (old : List Bss) (list : MacaddrList) (cur : Bss) (t : Option Nat) : Bss :=
  (inherits old list cur t).elim cur fun prev => cur.withAddr prev.bssid

/-- The BSS `k` of a list inherits the address of `prev`. -/
def Inherits (old : List Bss) (list : MacaddrList) (bss : List Bss) (ts : List (Option Nat))
    (k : Nat) (prev : Bss) : Prop :=
  ∃ cur t, bss[k]? = some cur ∧ ts[k]? = some t ∧ inherits old list cur t = some prev

variable {list list0 : MacaddrList} {cur prev : Bss} {t : Option Nat} {bss : List Bss}
  {ts : List (Option Nat)} {i : Nat} {p : Pass}

theorem inherits_eq_some_iff :
    inherits old list cur t = some prev ↔
      ∃ j, t = some j ∧ old[j]? = some prev ∧ preserves list cur prev := by
  simp only [inherits, filter_eq_some_iff, bind_eq_some_iff]
  exact ⟨fun h => h.1.elim fun j hj => ⟨j, hj.1, hj.2, h.2⟩,
    fun h => h.elim fun j hj => ⟨⟨j, hj.1, hj.2.1⟩, hj.2.2⟩⟩

@[simp] theorem inherits_cons_zero :
    Inherits old list (cur :: bss) (t :: ts) 0 prev ↔ inherits old list cur t = some prev := by
  simp [Inherits]

@[simp] theorem inherits_cons_succ {k : Nat} :
    Inherits old list (cur :: bss) (t :: ts) (k + 1) prev ↔ Inherits old list bss ts k prev := by
  simp [Inherits]

/-- What step 1 has done to the BSSes `cfgs`, from the index `i` on. -/
structure Found (old : List Bss) (list0 : MacaddrList) (i : Nat) (cfgs : List Bss)
    (ts : List (Option Nat)) (list : MacaddrList) (p : Pass) : Prop where
  running : p.running = ts
  bss : p.bss = List.zipWith (kept old list0) cfgs ts
  inherited : ∀ k prev, Inherits old list0 cfgs ts k prev →
    p.list.get? prev.bssid = some ((i + k : Nat) : Int)
  others : ∀ addr, (∀ k prev, Inherits old list0 cfgs ts k prev → prev.bssid ≠ addr) →
    p.list.get? addr = list.get? addr

theorem Found.cons (h : Found old list0 (i + 1) bss ts list p)
    (ht : inherits old list0 cur t = none) :
    Found old list0 i (cur :: bss) (t :: ts) list (p.cons cur t) where
  running := by rw [Pass.cons, h.running]
  bss := by simp [Pass.cons, h.bss, kept, ht]
  inherited k prev hk := by
    cases k with
    | zero => simp [ht] at hk
    | succ k =>
      have := h.inherited k prev (inherits_cons_succ.mp hk)
      rw [Pass.cons, this]
      congr 2
      omega
  others addr haddr := h.others addr fun k prev hk => haddr (k + 1) prev (inherits_cons_succ.mpr hk)

theorem Found.consInherited (h : Found old list0 (i + 1) bss ts (list.set prev.bssid i) p)
    (ht : inherits old list0 cur t = some prev)
    (hprev : ∀ k prev', Inherits old list0 bss ts k prev' → prev'.bssid ≠ prev.bssid) :
    Found old list0 i (cur :: bss) (t :: ts) list (p.cons (cur.withAddr prev.bssid) t) where
  running := by rw [Pass.cons, h.running]
  bss := by simp [Pass.cons, h.bss, kept, ht]
  inherited k prev' hk := by
    cases k with
    | zero =>
      obtain rfl : prev = prev' := by simpa [ht] using hk
      rw [Pass.cons, h.others _ hprev, Dict.get?_set_self]
      simp
    | succ k =>
      have := h.inherited k prev' (inherits_cons_succ.mp hk)
      rw [Pass.cons, this]
      congr 2
      omega
  others addr haddr := by
    have hne : prev.bssid ≠ addr := haddr 0 prev (inherits_cons_zero.mpr ht)
    rw [Pass.cons, h.others addr fun k p hk => haddr (k + 1) p (inherits_cons_succ.mpr hk)]
    exact Dict.get?_set_ne _ hne.symm _

theorem preserves_congr {list' : MacaddrList} (h : list.get? prev.bssid = list'.get? prev.bssid) :
    preserves list cur prev = preserves list' cur prev := by
  simp [preserves, h]

theorem bssid_inj {old : List Bss} (hold : (old.map Bss.bssid).Nodup) {j j' : Nat} {b b' : Bss}
    (hj : old[j]? = some b) (hj' : old[j']? = some b') (h : b.bssid = b'.bssid) : j = j' := by
  have hlt := List.getElem?_eq_some_iff.mp hj
  refine (List.getElem?_inj (by simpa using hlt.1) hold).mp ?_
  simp [hj, hj', h]

theorem step1_found {cfgs : List Bss} {prevHash : List (Option String)}
    (hold : (old.map Bss.bssid).Nodup) (h : step1 sys env old i cfgs list prevHash = some p)
    (hlist : ∀ j prev, some j ∈ takes sys old i cfgs prevHash → old[j]? = some prev →
      list.get? prev.bssid = list0.get? prev.bssid) :
    Found old list0 i cfgs (takes sys old i cfgs prevHash) list p := by
  induction cfgs generalizing i list prevHash p with
  | nil =>
    obtain rfl : _ = p := by simpa [step1] using h
    exact ⟨rfl, rfl, fun k prev hk => by simp [Inherits] at hk, fun _ _ => rfl⟩
  | cons cur rest ih =>
    have hrest : ∀ j prev, some j ∈ takes sys old (i + 1) rest (findPrev sys i cur prevHash).2 →
        old[j]? = some prev → list.get? prev.bssid = list0.get? prev.bssid :=
      fun j prev hj => hlist j prev (mem_cons_of_mem _ hj)
    have happart := (pairwise_cons.mp (@takes_apart sys old i (cur :: rest)
      prevHash)).1
    rw [step1] at h
    rw [takes] at hlist ⊢
    rcases hf : (findPrev sys i cur prevHash).1 with _ | j
    · simp only [hf] at h
      obtain ⟨q, hq, rfl⟩ := map_eq_some_iff.mp h
      exact (ih hq hrest).cons rfl
    rcases hj : old[j]? with _ | prev
    · simp [hf, hj] at h
    simp only [hf, hj] at h
    by_cases hforce : prev.forceReload
    · rw [if_pos hforce] at h
      obtain ⟨q, hq, rfl⟩ := map_eq_some_iff.mp h
      have ht : (some j).filter (fun j => (old[j]?).any fun prev => !prev.forceReload) = none := by
        simp [hj, hforce]
      rw [ht]
      exact (ih hq hrest).cons rfl
    have ht : (some j).filter (fun j => (old[j]?).any fun prev => !prev.forceReload) = some j := by
      simp [hj, hforce]
    simp only [hf, ht] at happart hlist ⊢
    rw [if_neg hforce] at h
    split at h
    · cases h
    have hsame := hlist j prev mem_cons_self hj
    split at h
    case isTrue hp =>
      have hin : inherits old list0 cur (some j) = some prev :=
        inherits_eq_some_iff.mpr ⟨j, rfl, hj, preserves_congr hsame ▸ hp⟩
      obtain ⟨q, hq, rfl⟩ := map_eq_some_iff.mp h
      have hne : ∀ j' prev', some j' ∈ takes sys old (i + 1) rest (findPrev sys i cur prevHash).2 →
          old[j']? = some prev' → prev'.bssid ≠ prev.bssid := by
        rintro j' prev' hj' hprev' heq
        obtain rfl := bssid_inj hold hprev' hj heq
        exact happart _ hj' _ rfl rfl
      refine Found.consInherited (ih hq ?_) hin ?_
      · intro j' prev' hj' hprev'
        rw [Dict.get?_set_ne _ (hne j' prev' hj' hprev'), hrest j' prev' hj' hprev']
      · rintro k prev' ⟨c, t, _, hk, hc⟩
        obtain ⟨j', rfl, hj', _⟩ := inherits_eq_some_iff.mp hc
        exact hne j' prev' (mem_iff_getElem?.mpr ⟨k, hk⟩) hj'
    case isFalse hp =>
      obtain ⟨q, hq, rfl⟩ := map_eq_some_iff.mp h
      refine (ih hq hrest).cons ?_
      rw [eq_none_iff_forall_ne_some]
      intro prev' hin
      obtain ⟨j', heq, hj', hp'⟩ := inherits_eq_some_iff.mp hin
      cases heq
      rw [hj] at hj'
      cases hj'
      exact hp (preserves_congr hsame ▸ hp')

end Step1

theorem findPrev_lt {cur : Bss} {prevHash : List (Option String)} {j : Nat}
    (hlen : 0 < prevHash.length) (h : (findPrev sys i cur prevHash).1 = some j) :
    j < prevHash.length := by
  unfold findPrev at h
  split at h
  · obtain rfl : 0 = j := by simpa using h
    exact hlen
  · obtain ⟨hash, hj⟩ := bssFindExisting_open h
    exact (List.getElem?_eq_some_iff.mp hj).1

@[simp] theorem length_findPrev {cur : Bss} {prevHash : List (Option String)} :
    (findPrev sys i cur prevHash).2.length = prevHash.length := by
  unfold findPrev bssFindExisting
  split
  · simp
  · split <;> simp

theorem step1_exists {env : Env} {old : List Bss} (henv : ∀ j, env.bss j = true) (hold : old ≠ [])
    (i : Nat) (cfgs : List Bss) (list : MacaddrList) (prevHash : List (Option String))
    (hlen : prevHash.length = old.length) :
    ∃ p, step1 sys env old i cfgs list prevHash = some p := by
  induction cfgs generalizing i list prevHash with
  | nil => exact ⟨_, rfl⟩
  | cons cur rest ih =>
    rw [step1]
    have hnext := fun list => ih (i + 1) list (findPrev sys i cur prevHash).2 (by simp [hlen])
    rcases hf : (findPrev sys i cur prevHash).1 with _ | j
    · obtain ⟨p, hp⟩ := hnext list
      exact ⟨p.cons cur none, by simp [hp]⟩
    have hj : j < old.length :=
      hlen ▸ findPrev_lt (by rw [hlen]; exact length_pos_iff.mpr hold) hf
    obtain ⟨p, hp⟩ := hnext list
    obtain ⟨p', hp'⟩ := hnext (list.set old[j].bssid i)
    simp only [getElem?_eq_getElem hj, henv, hp, hp', Bool.not_true, Bool.false_eq_true,
      if_false]
    split
    · exact ⟨_, rfl⟩
    · split <;> exact ⟨_, rfl⟩

/-! ## Step 6 -/

section Step6

/-- Step 6 passes over the BSS. -/
def Taken (T : List (Option Nat)) (i : Nat) : Prop := (T[i]?.join).isSome

instance (T : List (Option Nat)) (i : Nat) : Decidable (Taken T i) :=
  inferInstanceAs (Decidable (_ = true))

variable {T : List (Option Nat)} {list : MacaddrList} {B : List Bss}

/-- The address of the new BSS `i` belongs to the BSS `j`. -/
def Victim (T : List (Option Nat)) (list : MacaddrList) (B : List Bss) (i j : Nat) : Prop :=
  ¬ Taken T i ∧ i ≠ j ∧ ∃ b, B[i]? = some b ∧ b.defaultMacaddr = false ∧
    list.get? b.bssid = some (j : Int)

/-- The BSS `i` has an address generated in any case. -/
def Generated (T : List (Option Nat)) (B : List Bss) (i : Nat) : Prop :=
  ¬ Taken T i ∧ ∃ b, B[i]? = some b ∧ b.defaultMacaddr = true

structure Start (T : List (Option Nat)) (list : MacaddrList) (B : List Bss) : Prop where
  own : ∀ i b, B[i]? = some b → ¬ Taken T i → b.defaultMacaddr = false →
    ∃ v : Nat, list.get? b.bssid = some (v : Int) ∧ v < B.length ∧ (v = i ∨ Taken T v)
  unused : ∀ i, Generated T B i → ∀ addr, list.get? addr ≠ some (i : Int)

theorem Start.victim_taken (h : Start T list B) {i j : Nat} (hv : Victim T list B i j) :
    Taken T j ∧ j < B.length := by
  obtain ⟨hi, hne, b, hb, hd, hj⟩ := hv
  obtain ⟨v, hv, hlt, hcase⟩ := h.own i b hb hi hd
  obtain rfl : v = j := by simpa [hv] using hj
  exact ⟨hcase.resolve_left fun h => hne h.symm, hlt⟩

theorem Victim.unique {i j j' : Nat} (h : Victim T list B i j) (h' : Victim T list B i j') :
    j = j' := by
  obtain ⟨_, _, b, hb, _, hj⟩ := h
  obtain ⟨_, _, b', hb', _, hj'⟩ := h'
  obtain rfl : b = b' := by simpa [hb] using hb'
  simpa [hj] using hj'

/-- The list has got no other addresses, and none has been taken from a BSS. -/
structure Marked (i : Nat) (list list' : MacaddrList) : Prop where
  isSome : ∀ addr, (list'.get? addr).isSome = (list.get? addr).isSome
  holds : ∀ addr (v : Nat), list.get? addr = some (v : Int) → list'.get? addr = some (v : Int)
  only : ∀ addr (v : Nat), list'.get? addr = some (v : Int) →
    v = i ∨ list.get? addr = some (v : Int)

theorem marked (i : Nat) (list : MacaddrList) (addr : String) :
    Marked i list (if (list.get? addr).any (· < 0) then list.set addr i else list) := by
  by_cases h : (list.get? addr).any (· < 0)
  · rw [if_pos h]
    obtain ⟨v, hv, hlt⟩ : ∃ v, list.get? addr = some v ∧ v < 0 := by
      cases hl : list.get? addr <;> simp_all
    refine ⟨fun a => ?_, fun a w ha => ?_, fun a w ha => ?_⟩ <;> by_cases hne : a = addr
    · subst hne
      simp [hv]
    · rw [Dict.get?_set_ne _ hne]
    · subst hne
      have : v = (w : Int) := by simpa [hv] using ha
      omega
    · rwa [Dict.get?_set_ne _ hne]
    · subst hne
      exact .inl (by simpa using ha.symm)
    · rw [Dict.get?_set_ne _ hne] at ha
      exact .inr ha
  · rw [if_neg h]
    exact ⟨fun _ => rfl, fun _ _ ha => ha, fun _ _ ha => .inr ha⟩

/-- What holds before the turn of the BSS `k`. -/
structure Turned (T : List (Option Nat)) (list : MacaddrList) (B : List Bss) (k : Nat)
    (s : Step6) : Prop where
  length : s.bss.length = B.length
  same : ∀ j, (Generated T B j → k ≤ j) → (∀ i < k, ¬ Victim T list B i j) → s.bss[j]? = B[j]?
  isSome : ∀ addr, (list.get? addr).isSome → (s.list.get? addr).isSome
  holds : ∀ addr (v : Nat), list.get? addr = some (v : Int) → s.list.get? addr = some (v : Int)
  unused : ∀ i, k ≤ i → Generated T B i → ∀ addr, s.list.get? addr ≠ some (i : Int)

theorem Turned.init (h : Start T list B) : Turned T list B 0 { list := list, bss := B } :=
  ⟨rfl, fun _ _ _ => rfl, fun _ ha => ha, fun _ _ ha => ha, fun i _ hi => h.unused i hi⟩

/-- A turn that generates an address, for the BSS `target`. -/
structure Generates (T : List (Option Nat)) (list : MacaddrList) (B : List Bss) (env : Env)
    (k : Nat) (s s' : Step6) (target : Nat) (addr : String) : Prop where
  why : target = k ∧ Generated T B k ∨ Victim T list B k target
  next : ∃ list', Marked k s.list list' ∧ env.macaddrNext list' = some addr ∧
    s' = { list := list'.set addr k
           bss := s.bss.modify target fun bss => { bss with bssid := addr } }

theorem bssIndex_natCast {bss : List Bss} {v : Nat} (hv : v < bss.length) :
    bssIndex bss (some (v : Int)) = some v := by
  have hneg : ¬ ((v : Int) < 0) := by omega
  simp only [bssIndex, if_neg hneg]
  rw [if_pos (by omega), Int.toNat_natCast]

/-- What a turn can do. -/
theorem turn_cases {env : Env} {k : Nat} {s s' : Step6} (hstart : Start T list B)
    (hs : Turned T list B k s) (h : step6Turn env T s k = some s') :
    s' = s ∧ ¬ Generated T B k ∧ (∀ j, ¬ Victim T list B k j) ∨
      ∃ target addr, Generates T list B env k s s' target addr := by
  unfold step6Turn at h
  split at h
  case isTrue ht =>
    obtain rfl : s = s' := by simpa using h
    exact .inl ⟨rfl, fun hg => hg.1 ht, fun j hv => hv.1 ht⟩
  case isFalse ht =>
    have hsame : s.bss[k]? = B[k]? :=
      hs.same k (fun _ => le_refl k) fun i _ hv => ht (hstart.victim_taken hv).1
    split at h
    case h_1 => cases h
    case h_2 b hb =>
      have hB : B[k]? = some b := hsame ▸ hb
      have hm := marked k s.list b.bssid
      simp only at h
      cases hd : b.defaultMacaddr with
      | false =>
        obtain ⟨v, hv, hlt, hcase⟩ := hstart.own k b hB ht hd
        have hv' := hs.holds _ _ hv
        by_cases hvk : v = k
        · subst hvk
          rw [if_pos hv'] at h
          have hneg : ¬ (s.list.get? b.bssid).any (· < 0) := by simp [hv']
          rw [if_neg hneg] at h
          refine .inl ⟨by simpa using h.symm, ?_, ?_⟩
          · rintro ⟨_, c, hc, hcd⟩
            obtain rfl : b = c := by simpa [hB] using hc
            simp [hd] at hcd
          · rintro j ⟨_, hne, c, hc, _, hj⟩
            obtain rfl : b = c := by simpa [hB] using hc
            exact hne (by simpa [hv] using hj)
        · have hne : ¬ s.list.get? b.bssid = some (k : Int) := by simp [hv', hvk]
          have hidx : bssIndex s.bss (s.list.get? b.bssid) = some v := by
            rw [hv', bssIndex_natCast (by rw [hs.length]; exact hlt)]
          simp only [if_neg hne, hd, hidx, Bool.false_eq_true, if_false] at h
          split at h
          · cases h
          case h_2 addr haddr =>
            exact .inr ⟨v, addr, .inr ⟨ht, fun e => hvk e.symm, b, hB, hd, hv⟩, _, hm, haddr,
              by simpa using h.symm⟩
      | true =>
        have hg : Generated T B k := ⟨ht, b, hB, hd⟩
        have hne : ¬ s.list.get? b.bssid = some (k : Int) := hs.unused k (le_refl k) hg _
        simp only [if_neg hne, hd, if_true] at h
        split at h
        · cases h
        case h_2 addr haddr =>
          exact .inr ⟨k, addr, .inl ⟨rfl, hg⟩, _, hm, haddr, by simpa using h.symm⟩

end Step6

section Run

variable {T : List (Option Nat)} {list : MacaddrList} {B : List Bss} {env : Env}

variable {k : Nat} {s s' : Step6}

theorem Marked.get?_set {list list' : MacaddrList} (h : Marked k list list') {addr : String}
    (hfresh : list'.get? addr = none) {a : String} (ha : (list.get? a).isSome) :
    (list'.set addr k).get? a = list'.get? a := by
  refine Dict.get?_set_ne _ ?_ _
  rintro rfl
  simp [← h.isSome, hfresh] at ha

section

variable (hstart : Start T list B)

include hstart

/-- The target of a turn is the BSS itself, or one that is passed over. -/
theorem Generates.target_cases {target : Nat} {addr : String}
    (h : Generates T list B env k s s' target addr) :
    target = k ∧ Generated T B k ∨ Taken T target ∧ target ≠ k := by
  rcases h.why with hw | hw
  · exact .inl hw
  · exact .inr ⟨(hstart.victim_taken hw).1, Ne.symm hw.2.1⟩

theorem Turned.step (hfresh : env.Fresh) (hs : Turned T list B k s)
    (h : step6Turn env T s k = some s') :
    Turned T list B (k + 1) s' := by
  rcases turn_cases hstart hs h with ⟨rfl, hg, hv⟩ | ⟨target, addr, hgen⟩
  · exact ⟨hs.length, fun j hj hvic => hs.same j (fun h => by have := hj h; omega)
      fun i hi => hvic i (by omega), hs.isSome, hs.holds, fun i hi => hs.unused i (by omega)⟩
  obtain ⟨list', hm, hnext, rfl⟩ := hgen.next
  have hnone := hfresh _ _ hnext
  refine ⟨by simpa using hs.length, ?_, ?_, ?_, ?_⟩
  · intro j hj hvic
    have hne : target ≠ j := by
      rintro rfl
      rcases hgen.why with ⟨rfl, hg⟩ | hw
      · have := hj hg
        omega
      · exact hvic k (by omega) hw
    change (s.bss.modify target _)[j]? = _
    rw [getElem?_modify_ne _ _ hne]
    exact hs.same j (fun h => by have := hj h; omega) fun i hi => hvic i (by omega)
  · intro a ha
    have := hs.isSome a ha
    rw [hm.get?_set hnone this, hm.isSome]
    exact this
  · intro a v ha
    have := hs.holds a v ha
    rw [hm.get?_set hnone (by simp [this])]
    exact hm.holds a v this
  · intro i hi hg a ha
    rw [Dict.get?_set] at ha
    split at ha
    · have : (k : Int) = i := by simpa using ha
      omega
    · rcases hm.only a i ha with rfl | ha
      · omega
      · exact hs.unused i (by omega) hg a ha

theorem step6_turned (hfresh : env.Fresh)
    (h : step6 env T { list := list, bss := B } = some s') :
    Turned T list B B.length s' :=
  Loop.foldlM_range_invariant (Turned T list B) (Turned.init hstart)
    (fun _ _ _ _ hs h => hs.step hstart hfresh h) h

theorem step6Turn_exists (hs : Turned T list B k s) (hk : k < B.length)
    (henv : ∀ l, ∃ a, env.macaddrNext l = some a) :
    ∃ s', step6Turn env T s k = some s' := by
  by_cases ht : Taken T k
  · exact ⟨s, by simp [step6Turn, show (T[k]?.join).isSome from ht]⟩
  have hsame : s.bss[k]? = B[k]? :=
    hs.same k (fun _ => le_refl k) fun i _ hv => ht (hstart.victim_taken hv).1
  have hB : B[k]? = some B[k] := getElem?_eq_getElem hk
  obtain ⟨a, ha⟩ := henv (if (s.list.get? B[k].bssid).any (· < 0) then
    s.list.set B[k].bssid k else s.list)
  rw [step6Turn, if_neg (show ¬ (T[k]?.join).isSome from ht), hsame, hB]
  simp only [ha]
  split
  · exact ⟨_, rfl⟩
  cases hd : B[k].defaultMacaddr with
  | true => exact ⟨_, rfl⟩
  | false =>
    obtain ⟨v, hv, hlt, _⟩ := hstart.own k _ hB ht hd
    have hidx : bssIndex s.bss (s.list.get? B[k].bssid) = some v := by
      rw [hs.holds _ _ hv, bssIndex_natCast (by rw [hs.length]; exact hlt)]
    exact ⟨_, by simp only [hidx, Bool.false_eq_true, if_false]; rfl⟩

theorem step6_exists (hfresh : env.Fresh)
    (henv : ∀ l, ∃ a, env.macaddrNext l = some a) :
    ∃ s', step6 env T { list := list, bss := B } = some s' := by
  refine Loop.foldlM_range_exists (Turned T list B) (Turned.init hstart) ?_
  intro k hk s hs
  obtain ⟨s', hs'⟩ := step6Turn_exists hstart hs hk henv
  exact ⟨s', hs', hs.step hstart hfresh hs'⟩

end

end Run

end LibWrt.Hostapd.Macaddr
