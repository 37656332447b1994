/-
LibWrt.Rtl83xx.Lag — which ports are in which LAG, and which of them stands for it.

The LAG functions keep the members of each LAG, the union of them, and one
primary port for each LAG; the other ports are non-primary. `rtl83xx_sw_probe`
leaves all of it zero.

A zero `lag_primary` is port 0 and not "none", so the first port to join a LAG
becomes non-primary; and whichever port leaves, the LAG has no primary
afterwards. `lag_run_iff` says which runs are not hurt by it.
-/
import LibWrt.Rtl83xx.Isolation

namespace LibWrt.Rtl83xx

open Function Option
open BitVec hiding not_or

namespace Lag

/-- `MAX_LAGS` -/
def maxLags : Nat := 16

/-- `num_lag_ids` -/
def numLagIds : Family → Nat
  | .rtl838x => 8
  | .rtl839x => 16
  | .rtl930x => 16
  | .rtl931x => 16

/-- `enum netdev_lag_hash` -/
inductive Hash where
  | l2
  | l23
  | l34
  | other
  deriving DecidableEq

/-- `struct netdev_lag_upper_info` -/
structure UpperInfo where
  /-- `tx_type` is `NETDEV_LAG_TX_TYPE_HASH` -/
  txHash : Bool
  hashType : Hash

inductive Errno where
  | einval
  | eopnotsupp
  deriving DecidableEq

/-- The four variables of `struct rtl838x_switch_priv`. -/
@[ext]
structure State where
  /-- `lags_port_members` -/
  members : Nat → BitVec 64
  lagPrimary : Nat → BitVec 32
  lagNonPrimary : BitVec 64
  lagmembers : BitVec 64

/-- What `devm_kzalloc` gives. -/
def probed : State := { members := fun _ => 0, lagPrimary := fun _ => 0, lagNonPrimary := 0
                        lagmembers := 0 }

/-- `rtl83xx_lag_can_offload`; `id` is the answer of `dsa_lag_id`. -/
def canOffload (f : Family) (id : Int) (info : UpperInfo) : Bool :=
  if id < 0 || id ≥ numLagIds f then false
  else if !info.txHash then false
  else if info.hashType ≠ .l2 && info.hashType ≠ .l23 then false
  else true

/-- `rtl83xx_lag_add`, without the registers; `none` is an error. -/
def lagAdd (f : Family) (group port : Nat) (s : State) : Option State :=
  if (List.range (numLagIds f)).any fun i => s.members i &&& bitUll port ≠ 0 then none
  else
    some { s with members := update s.members group (s.members group ||| bitUll port) }

/-- `rtl83xx_lag_del`, without the registers. -/
def lagDel (f : Family) (group port : Nat) (s : State) : Option State :=
  if group ≥ numLagIds f then none
  else if s.members group &&& bitUll port = 0 then none
  else
    some { s with members := update s.members group (s.members group &&& ~~~bitUll port) }

/-- What `rtl83xx_port_lag_join` records before `rtl83xx_lag_add`. -/
def record (group port : Nat) (s : State) : State :=
  let s :=
    if s.lagPrimary group = -1 then
      { s with lagPrimary := update s.lagPrimary group (BitVec.ofNat 32 port) }
    else { s with lagNonPrimary := s.lagNonPrimary ||| bitUll port }
  { s with lagmembers := s.lagmembers ||| bitUll port }

/-- `rtl83xx_port_lag_join` -/
def portLagJoin (f : Family) (port : Nat) (id : Int) (info : UpperInfo) (s : State) :
    Option Errno × State :=
  if !canOffload f id info then (some .eopnotsupp, s)
  else if port ≥ f.cpuPort then (some .einval, s)
  else
    let s := record id.toNat port s
    match lagAdd f id.toNat port s with
    | none => (some .einval, s)
    | some s' => (none, s')

/-- What `rtl83xx_port_lag_leave` takes back before `rtl83xx_lag_del`. -/
def forget (group port : Nat) (s : State) : State :=
  { s with
    lagmembers := s.lagmembers &&& ~~~bitUll port
    lagPrimary := update s.lagPrimary group (-1)
    lagNonPrimary := s.lagNonPrimary &&& ~~~bitUll port }

/-- `rtl83xx_port_lag_leave`, which returns 0 always; an index outside the array has no defined
    effect. -/
def portLagLeave (f : Family) (port : Nat) (id : Int) (s : State) : Option State :=
  if id = -1 then some s
  else if port ≥ f.cpuPort then some s
  else if id < 0 || id ≥ maxLags then none
  else
    let s := forget id.toNat port s
    some ((lagDel f id.toNat port s).getD s)

/-! ## Bits -/

variable {m : BitVec 64} {port : Nat}

theorem and_bitUll_ne_zero (hport : port < 64) :
    m &&& bitUll port ≠ 0 ↔ m.getLsbD port = true := by
  constructor
  · intro h
    by_contra hbit
    refine h (eq_of_getLsbD_eq fun i hi => ?_)
    by_cases hip : port = i
    · subst hip
      simp [hbit]
    · simp [hip]
  · intro h hzero
    have hbit : (m &&& bitUll port).getLsbD port = true := by
      rw [getLsbD_and, getLsbD_bitUll]
      simp [h, hport]
    rw [hzero] at hbit
    simp at hbit

theorem or_bitUll (hport : port < 64) (i : Nat) :
    (m ||| bitUll port).getLsbD i = true ↔ m.getLsbD i = true ∨ i = port := by
  rw [getLsbD_or, Bool.or_eq_true, getLsbD_bitUll]
  simp only [hport, decide_true, Bool.true_and, decide_eq_true_eq, @eq_comm Nat port]

theorem and_not_bitUll (i : Nat) :
    (m &&& ~~~bitUll port).getLsbD i = true ↔ m.getLsbD i = true ∧ i ≠ port := by
  by_cases hi : i < 64
  · simp only [getLsbD_and, getLsbD_not, getLsbD_bitUll]
    by_cases hip : port = i
    · subst hip
      simp [hi]
    · simp [hi, hip, Ne.symm hip]
  · simp [getLsbD_of_ge _ _ (Nat.le_of_not_lt hi)]

/-! ## The invariant -/

/-- What the four variables should say: each LAG with members has one that is not non-primary,
and it is the LAG's primary port. -/
structure Inv (s : State) : Prop where
  primary : ∀ g, s.members g ≠ 0 → ∃ p, (s.members g).getLsbD p = true ∧
    s.lagNonPrimary.getLsbD p = false ∧ s.lagPrimary g = BitVec.ofNat 32 p ∧
      ∀ q, (s.members g).getLsbD q = true → s.lagNonPrimary.getLsbD q = false → q = p
  union : ∀ p, s.lagmembers.getLsbD p = true ↔ ∃ g, (s.members g).getLsbD p = true
  subset : ∀ p, s.lagNonPrimary.getLsbD p = true → s.lagmembers.getLsbD p = true

/-- What the functions keep in any case. -/
structure Sound (f : Family) (s : State) : Prop where
  disjoint : ∀ g h p, (s.members g).getLsbD p = true → (s.members h).getLsbD p = true → g = h
  groups : ∀ g, numLagIds f ≤ g → s.members g = 0
  ports : ∀ g p, (s.members g).getLsbD p = true → p < f.cpuPort

/-! ## A step -/

inductive Event where
  | join (port : Nat) (id : Int) (info : UpperInfo)
  | leave (port : Nat) (id : Int)

def step (f : Family) (s : State) : Event → Option (Option Errno × State)
  | .join port id info => some (portLagJoin f port id info s)
  | .leave port id => (portLagLeave f port id s).map fun s' => (none, s')

def Free (s : State) (port : Nat) : Prop := ∀ g, (s.members g).getLsbD port = false

/-- The steps that do no harm. The first port of a LAG has to find no primary port; a port of
another LAG has to be refused without a trace; and a port leaves last. -/
def Ok (f : Family) (s : State) : Event → Prop
  | .join port id info => canOffload f id info = true → port < f.cpuPort →
    (Free s port ∧ (s.members id.toNat = 0 → s.lagPrimary id.toNat = -1)) ∨
      (¬ Free s port ∧ s.lagPrimary id.toNat ≠ -1 ∧ s.lagNonPrimary.getLsbD port = true)
  | .leave port id => id = -1 ∨ f.cpuPort ≤ port ∨
    (0 ≤ id ∧ id < maxLags ∧
      (∀ q, (s.members id.toNat).getLsbD q = true → q = port) ∧
      ∀ g, g ≠ id.toNat → (s.members g).getLsbD port = false)

/-- A step ends in a state that is as it should be, and a join that fails changes nothing. -/
def Holds (f : Family) (s : State) (e : Event) : Prop :=
  ∃ err s', step f s e = some (err, s') ∧ Inv s' ∧ (err ≠ none → s' = s)

section Steps

variable {f : Family} {s : State} {port : Nat} {id : Int} {info : UpperInfo}

theorem port_lt_64 (hport : port < f.cpuPort) : port < 64 := by
  have := f.cpuPort_lt
  omega

theorem ofNat_ne_neg_one (hport : port < 64) : BitVec.ofNat 32 port ≠ -1 := by
  intro h
  have := congrArg BitVec.toNat h
  simp at this
  omega

theorem canOffload_lt (h : canOffload f id info = true) :
    0 ≤ id ∧ id < numLagIds f := by
  unfold canOffload at h
  split at h
  · cases h
  · rename_i hid
    simpa using hid

theorem lagAdd_free (hport : port < f.cpuPort) (hfree : Free s port) (group : Nat) :
    lagAdd f group port s = some
      { s with members := update s.members group (s.members group ||| bitUll port) } := by
  refine if_neg fun h => ?_
  obtain ⟨i, -, hi⟩ := List.any_eq_true.mp h
  rw [decide_eq_true_eq, and_bitUll_ne_zero (port_lt_64 hport), hfree i] at hi
  cases hi

theorem lagAdd_busy (hs : Sound f s) (hport : port < f.cpuPort) (hbusy : ¬ Free s port)
    (group : Nat) : lagAdd f group port s = none := by
  obtain ⟨g, hg⟩ := not_forall.mp hbusy
  rw [Bool.not_eq_false] at hg
  have hlt : g < numLagIds f := by
    by_contra hge
    rw [hs.groups g (Nat.le_of_not_lt hge)] at hg
    simp at hg
  refine if_pos (List.any_eq_true.mpr ⟨g, List.mem_range.mpr hlt, ?_⟩)
  rw [decide_eq_true_eq, and_bitUll_ne_zero (port_lt_64 hport), hg]

theorem member_update_or (hport : port < 64) (g h q : Nat) :
    (update s.members g (s.members g ||| bitUll port) h).getLsbD q = true ↔
      (s.members h).getLsbD q = true ∨ h = g ∧ q = port := by
  by_cases hh : h = g
  · subst hh
    rw [update_self, or_bitUll hport]
    simp
  · rw [update_of_ne hh]
    simp [hh]

theorem member_update_not (g h q : Nat) :
    (update s.members g (s.members g &&& ~~~bitUll port) h).getLsbD q = true ↔
      (s.members h).getLsbD q = true ∧ ¬ (h = g ∧ q = port) := by
  by_cases hh : h = g
  · subst hh
    rw [update_self, and_not_bitUll]
    simp
  · rw [update_of_ne hh]
    simp [hh]

@[simp] theorem record_members (group port : Nat) (s : State) :
    (record group port s).members = s.members := by
  unfold record
  split <;> rfl

@[simp] theorem record_lagmembers (group port : Nat) (s : State) :
    (record group port s).lagmembers = s.lagmembers ||| bitUll port := by
  unfold record
  split <;> rfl

variable {group : Nat} {s' : State}

theorem record_none (h : s.lagPrimary group = -1) :
    (record group port s).lagNonPrimary = s.lagNonPrimary ∧
      (record group port s).lagPrimary =
        update s.lagPrimary group (BitVec.ofNat 32 port) := by
  unfold record
  rw [if_pos h]
  exact ⟨rfl, rfl⟩

theorem record_some (h : s.lagPrimary group ≠ -1) :
    (record group port s).lagNonPrimary = s.lagNonPrimary ||| bitUll port ∧
      (record group port s).lagPrimary = s.lagPrimary := by
  unfold record
  rw [if_neg h]
  exact ⟨rfl, rfl⟩

/-- A LAG with members has a primary port. -/
theorem Inv.lagPrimary_ne (h : Inv s) {g : Nat} (hg : s.members g ≠ 0) :
    s.lagPrimary g ≠ -1 := by
  obtain ⟨p, hp, -, hprimary, -⟩ := h.primary g hg
  rw [hprimary]
  exact ofNat_ne_neg_one (lt_of_getLsbD hp)

theorem Inv.free_nonPrimary (h : Inv s) (hfree : Free s port) :
    s.lagNonPrimary.getLsbD port = false := by
  by_contra hnon
  obtain ⟨g, hg⟩ := (h.union port).mp (h.subset port (by simpa using hnon))
  rw [hfree g] at hg
  cases hg

def joined (group port : Nat) (s : State) : State :=
  { record group port s with
    members := update s.members group (s.members group ||| bitUll port) }

theorem inv_joined_iff (h : Inv s) (hport : port < 64) (hfree : Free s port) (group : Nat) :
    Inv (joined group port s) ↔ (s.members group = 0 → s.lagPrimary group = -1) := by
  constructor
  · intro hinv hzero
    by_contra hprimary
    have hbit := (@member_update_or s port hport group group port).mpr (.inr ⟨rfl, rfl⟩)
    have hne : (joined group port s).members group ≠ 0 := by
      intro hz
      rw [show update s.members group (s.members group ||| bitUll port) group = 0 from hz]
        at hbit
      simp at hbit
    obtain ⟨p, hp, hnon, -, -⟩ := hinv.primary group hne
    -- the port is the only member, and non-primary
    have hpp : p = port := by
      rcases (member_update_or hport group group p).mp hp with hp | hp
      · rw [hzero] at hp
        simp at hp
      · exact hp.2
    have hset : (joined group port s).lagNonPrimary = s.lagNonPrimary ||| bitUll port :=
      (record_some hprimary).1
    rw [hset, hpp, Bool.eq_false_iff] at hnon
    exact hnon ((or_bitUll hport port).mpr (.inr rfl))
  · intro hcond
    have hmem : ∀ g q, ((joined group port s).members g).getLsbD q = true ↔
        (s.members g).getLsbD q = true ∨ g = group ∧ q = port := member_update_or hport group
    have hall : ∀ q, (joined group port s).lagmembers.getLsbD q = true ↔
        s.lagmembers.getLsbD q = true ∨ q = port := by
      intro q
      rw [joined, record_lagmembers, or_bitUll hport]
    have hunion : ∀ q, (joined group port s).lagmembers.getLsbD q = true ↔
        ∃ g, ((joined group port s).members g).getLsbD q = true := by
      intro q
      rw [hall, h.union]
      constructor
      · rintro (⟨g, hg⟩ | rfl)
        · exact ⟨g, (hmem g q).mpr (.inl hg)⟩
        · exact ⟨group, (hmem group q).mpr (.inr ⟨rfl, rfl⟩)⟩
      · rintro ⟨g, hg⟩
        rcases (hmem g q).mp hg with hg | ⟨-, rfl⟩
        · exact .inl ⟨g, hg⟩
        · exact .inr rfl
    by_cases hprimary : s.lagPrimary group = -1
    · have hempty : s.members group = 0 := by
        by_contra hne
        exact h.lagPrimary_ne hne hprimary
      obtain ⟨hnon, hset⟩ : (joined group port s).lagNonPrimary = s.lagNonPrimary ∧
          (joined group port s).lagPrimary =
            update s.lagPrimary group (BitVec.ofNat 32 port) := record_none hprimary
      refine ⟨fun g hg => ?_, hunion, fun q hq => ?_⟩
      · rw [hnon, hset]
        by_cases hgg : g = group
        · subst hgg
          refine ⟨port, (hmem g port).mpr (.inr ⟨rfl, rfl⟩), h.free_nonPrimary hfree,
            update_self _ _ _, fun q hq _ => ?_⟩
          rcases (hmem g q).mp hq with hq | hq
          · rw [hempty] at hq
            simp at hq
          · exact hq.2
        · have hsame : (joined group port s).members g = s.members g :=
            update_of_ne hgg _ _
          rw [hsame] at hg ⊢
          rw [update_of_ne hgg]
          exact h.primary g hg
      · rw [hnon] at hq
        exact (hall q).mpr (.inl (h.subset q hq))
    · obtain ⟨hnon, hset⟩ : (joined group port s).lagNonPrimary =
          s.lagNonPrimary ||| bitUll port ∧ (joined group port s).lagPrimary = s.lagPrimary :=
        record_some hprimary
      refine ⟨fun g hg => ?_, hunion, fun q hq => ?_⟩
      · have hne : s.members g ≠ 0 := by
          by_cases hgg : g = group
          · subst hgg
            exact fun hz => hprimary (hcond hz)
          · rwa [show (joined group port s).members g = s.members g from
              update_of_ne hgg _ _] at hg
        obtain ⟨p, hp, hpnon, hpprimary, hunique⟩ := h.primary g hne
        have hpp : p ≠ port := by
          rintro rfl
          rw [hfree g] at hp
          cases hp
        refine ⟨p, (hmem g p).mpr (.inl hp), ?_, by rw [hset, hpprimary], fun q hq hqnon => ?_⟩
        · rw [hnon, Bool.eq_false_iff, ne_eq, or_bitUll hport]
          simp [hpnon, hpp]
        · rw [hnon, Bool.eq_false_iff, ne_eq, or_bitUll hport, not_or] at hqnon
          rcases (hmem g q).mp hq with hq | hq
          · exact hunique q hq (by simpa using hqnon.1)
          · exact absurd hq.2 hqnon.2
      · rw [hnon, or_bitUll hport] at hq
        exact (hall q).mpr (hq.imp (h.subset q) id)

theorem or_bitUll_self {m : BitVec 64} (h : m.getLsbD port = true) : m ||| bitUll port = m := by
  refine eq_of_getLsbD_eq fun i hi => ?_
  have hport := lt_of_getLsbD h
  rw [Bool.eq_iff_iff, or_bitUll hport]
  constructor
  · rintro (hi | rfl)
    · exact hi
    · exact h
  · exact .inl

/-- When a join that fails leaves nothing behind. -/
theorem record_eq_iff (h : Inv s) (hport : port < 64) (group : Nat) :
    record group port s = s ↔
      s.lagPrimary group ≠ -1 ∧ s.lagNonPrimary.getLsbD port = true := by
  constructor
  · intro heq
    have hprimary : s.lagPrimary group ≠ -1 := by
      intro hprimary
      have hset := (@record_none s port group hprimary).2
      rw [heq] at hset
      refine ofNat_ne_neg_one hport ?_
      rw [← hprimary, hset, update_self]
    refine ⟨hprimary, ?_⟩
    rw [← heq, (record_some hprimary).1, or_bitUll hport]
    exact .inr rfl
  · rintro ⟨hprimary, hnon⟩
    have hall : s.lagmembers.getLsbD port = true := h.subset port hnon
    obtain ⟨hset, hsame⟩ := @record_some s port group hprimary
    refine State.ext (record_members group port s) hsame ?_ ?_
    · rw [hset, or_bitUll_self hnon]
    · rw [record_lagmembers, or_bitUll_self hall]

/-- A port leaves, as the driver has it. -/
def left (f : Family) (group port : Nat) (s : State) : State :=
  (lagDel f group port (forget group port s)).getD (forget group port s)

theorem left_member (hs : Sound f s) (hport : port < 64) (group g q : Nat) :
    ((left f group port s).members g).getLsbD q = true ↔
      (s.members g).getLsbD q = true ∧ ¬ (g = group ∧ q = port) := by
  unfold left lagDel
  by_cases hgroup : group ≥ numLagIds f
  · rw [if_pos hgroup]
    simp only [getD_none, forget]
    refine ⟨fun hq => ⟨hq, ?_⟩, And.left⟩
    rintro ⟨rfl, -⟩
    rw [hs.groups g hgroup] at hq
    simp at hq
  · rw [if_neg hgroup]
    by_cases hbit : (forget group port s).members group &&& bitUll port = 0
    · rw [if_pos hbit]
      simp only [getD_none, forget]
      refine ⟨fun hq => ⟨hq, ?_⟩, And.left⟩
      rintro ⟨rfl, rfl⟩
      exact (and_bitUll_ne_zero hport).mpr hq hbit
    · rw [if_neg hbit]
      exact member_update_not group g q

theorem left_rest (f : Family) (group port : Nat) (s : State) :
    (left f group port s).lagPrimary = update s.lagPrimary group (-1) ∧
      (left f group port s).lagNonPrimary = s.lagNonPrimary &&& ~~~bitUll port ∧
        (left f group port s).lagmembers = s.lagmembers &&& ~~~bitUll port := by
  unfold left lagDel
  split
  · exact ⟨rfl, rfl, rfl⟩
  · split
    · exact ⟨rfl, rfl, rfl⟩
    · exact ⟨rfl, rfl, rfl⟩

theorem members_eq_zero_iff {m : BitVec 64} : m = 0 ↔ ∀ q, m.getLsbD q = false := by
  constructor
  · rintro rfl q
    simp
  · intro h
    exact eq_of_getLsbD_eq fun i _ => by simp [h i]

theorem inv_left_iff (hs : Sound f s) (h : Inv s) (hport : port < 64) (group : Nat) :
    Inv (left f group port s) ↔ (∀ q, (s.members group).getLsbD q = true → q = port) ∧
      ∀ g, g ≠ group → (s.members g).getLsbD port = false := by
  have hmem := left_member hs hport group
  obtain ⟨hset, hnon, hall⟩ := left_rest f group port s
  constructor
  · intro hinv
    have hempty : (left f group port s).members group = 0 := by
      by_contra hne
      refine hinv.lagPrimary_ne hne ?_
      rw [hset, update_self]
    refine ⟨fun q hq => ?_, fun g hg => ?_⟩
    · by_contra hqp
      have := (hmem group q).mpr ⟨hq, fun hgq => hqp hgq.2⟩
      rw [hempty] at this
      simp at this
    · by_contra hbit
      have hin := (hinv.union port).mpr
        ⟨g, (hmem g port).mpr ⟨by simpa using hbit, fun hgq => hg hgq.1⟩⟩
      rw [hall, and_not_bitUll] at hin
      exact hin.2 rfl
  · rintro ⟨hlast, hother⟩
    have hgone : ∀ g, ((left f group port s).members g).getLsbD port = false := by
      intro g
      rw [Bool.eq_false_iff, ne_eq, hmem]
      rintro ⟨hbit, hne⟩
      rw [hother g fun hg => hne ⟨hg, rfl⟩] at hbit
      cases hbit
    refine ⟨fun g hg => ?_, fun q => ?_, fun q hq => ?_⟩
    · have hgg : g ≠ group := by
        rintro rfl
        refine hg (members_eq_zero_iff.mpr fun q => ?_)
        rw [Bool.eq_false_iff, ne_eq, hmem]
        rintro ⟨hq, hne⟩
        exact hne ⟨rfl, hlast q hq⟩
      have hne : s.members g ≠ 0 := by
        intro hz
        refine hg (members_eq_zero_iff.mpr fun q => ?_)
        rw [Bool.eq_false_iff, ne_eq, hmem, hz]
        simp
      obtain ⟨p, hp, hpnon, hprimary, hunique⟩ := h.primary g hne
      refine ⟨p, (hmem g p).mpr ⟨hp, fun hgq => hgg hgq.1⟩, ?_, ?_, fun q hq hqnon => ?_⟩
      · rw [hnon, Bool.eq_false_iff, ne_eq, and_not_bitUll, hpnon]
        simp
      · rw [hset, update_of_ne hgg, hprimary]
      · have hqp : q ≠ port := by
          rintro rfl
          rw [hgone g] at hq
          cases hq
        rw [hnon, Bool.eq_false_iff, ne_eq, and_not_bitUll] at hqnon
        refine hunique q ((hmem g q).mp hq).1 ?_
        rw [Bool.eq_false_iff]
        exact fun hbit => hqnon ⟨hbit, hqp⟩
    · rw [hall, and_not_bitUll, h.union]
      constructor
      · rintro ⟨⟨g, hg⟩, hqp⟩
        exact ⟨g, (hmem g q).mpr ⟨hg, fun hgq => hqp hgq.2⟩⟩
      · rintro ⟨g, hg⟩
        refine ⟨⟨g, ((hmem g q).mp hg).1⟩, ?_⟩
        rintro rfl
        rw [hgone g] at hg
        cases hg
    · rw [hnon, and_not_bitUll] at hq
      rw [hall, and_not_bitUll]
      exact ⟨h.subset q hq.1, hq.2⟩

theorem portLagJoin_free (hport : port < f.cpuPort) (hoff : canOffload f id info = true)
    (hfree : Free s port) :
    portLagJoin f port id info s = (none, joined id.toNat port s) := by
  have hadd : lagAdd f id.toNat port (record id.toNat port s) =
      some (joined id.toNat port s) := by
    rw [lagAdd_free hport (by simpa [Free] using hfree), record_members]
    rfl
  simp only [portLagJoin, hoff, Bool.not_true, Bool.false_eq_true, if_false, ge_iff_le,
    Nat.not_le.mpr hport, hadd]

theorem portLagJoin_busy (hs : Sound f s) (hport : port < f.cpuPort)
    (hoff : canOffload f id info = true) (hbusy : ¬ Free s port) :
    portLagJoin f port id info s = (some .einval, record id.toNat port s) := by
  have hsound : Sound f (record id.toNat port s) := by
    constructor
    · simpa using hs.disjoint
    · simpa using hs.groups
    · simpa using hs.ports
  have hadd : lagAdd f id.toNat port (record id.toNat port s) = none :=
    lagAdd_busy hsound hport (by simpa [Free] using hbusy) _
  simp only [portLagJoin, hoff, Bool.not_true, Bool.false_eq_true, if_false, ge_iff_le,
    Nat.not_le.mpr hport, hadd]

theorem holds_of_step {e : Event} {err : Option Errno} (hstep : step f s e = some (err, s')) :
    Holds f s e ↔ Inv s' ∧ (err ≠ none → s' = s) := by
  constructor
  · rintro ⟨err', s'', hstep', hinv, hsame⟩
    rw [hstep, some.injEq, Prod.mk.injEq] at hstep'
    obtain ⟨rfl, rfl⟩ := hstep'
    exact ⟨hinv, hsame⟩
  · rintro ⟨hinv, hsame⟩
    exact ⟨err, s', hstep, hinv, hsame⟩

theorem holds_join_iff (hs : Sound f s) (h : Inv s) (port : Nat) (id : Int) (info : UpperInfo) :
    Holds f s (.join port id info) ↔ Ok f s (.join port id info) := by
  by_cases hoff : canOffload f id info = true
  · by_cases hport : port < f.cpuPort
    · simp only [Ok, hoff, hport, forall_const]
      by_cases hfree : Free s port
      · have hstep : step f s (.join port id info) = some (none, joined id.toNat port s) :=
          congrArg some (portLagJoin_free hport hoff hfree)
        rw [holds_of_step hstep, inv_joined_iff h (port_lt_64 hport) hfree]
        simp [hfree]
      · have hstep : step f s (.join port id info) =
            some (some .einval, record id.toNat port s) :=
          congrArg some (portLagJoin_busy hs hport hoff hfree)
        rw [holds_of_step hstep, ← record_eq_iff h (port_lt_64 hport)]
        simp only [hfree, false_and, not_false_eq_true, true_and, false_or, ne_eq, reduceCtorEq,
          forall_const, and_iff_right_iff_imp]
        intro hsame
        rwa [hsame]
    · have hstep : step f s (.join port id info) = some (some .einval, s) := by
        simp [step, portLagJoin, hoff, Nat.not_lt.mp hport]
      rw [holds_of_step hstep]
      simp [Ok, hport, h]
  · have hstep : step f s (.join port id info) = some (some .eopnotsupp, s) := by
      simp [step, portLagJoin, hoff]
    rw [holds_of_step hstep]
    simp [Ok, hoff, h]

theorem holds_leave_iff (hs : Sound f s) (h : Inv s) (port : Nat) (id : Int) :
    Holds f s (.leave port id) ↔ Ok f s (.leave port id) := by
  by_cases hid : id = -1
  · have hstep : step f s (.leave port id) = some (none, s) := by
      simp [step, portLagLeave, hid]
    rw [holds_of_step hstep]
    simp [Ok, hid, h]
  by_cases hport : f.cpuPort ≤ port
  · have hstep : step f s (.leave port id) = some (none, s) := by
      simp [step, portLagLeave, hport]
    rw [holds_of_step hstep]
    simp [Ok, hport, h]
  by_cases hrange : 0 ≤ id ∧ id < maxLags
  · have hstep : step f s (.leave port id) = some (none, left f id.toNat port s) := by
      have hin : (id < 0 || id ≥ (maxLags : Int)) = false := by
        simpa using hrange
      simp [step, portLagLeave, hid, hport, hin, left]
    rw [holds_of_step hstep, inv_left_iff hs h (port_lt_64 (Nat.not_le.mp hport))]
    simp [Ok, hid, hport, hrange]
  · have hstep : step f s (.leave port id) = none := by
      have hin : (id < 0 || id ≥ (maxLags : Int)) = true := by
        simp
        omega
      simp [step, portLagLeave, hid, hport, hin]
    constructor
    · rintro ⟨err, s', hsome, -⟩
      rw [hstep] at hsome
      cases hsome
    · rintro (h | h | ⟨h0, hlt, -⟩)
      · exact absurd h hid
      · exact absurd h hport
      · exact absurd ⟨h0, hlt⟩ hrange

/-- A step ends as it should exactly if it is one of those that do no harm. -/
theorem holds_iff (hs : Sound f s) (h : Inv s) (e : Event) : Holds f s e ↔ Ok f s e := by
  cases e with
  | join port id info => exact holds_join_iff hs h port id info
  | leave port id => exact holds_leave_iff hs h port id

theorem Sound.of_members (hs : Sound f s)
    (hmem : ∀ g q, (s'.members g).getLsbD q = true → (s.members g).getLsbD q = true) :
    Sound f s' where
  disjoint g h p hg hh := hs.disjoint g h p (hmem g p hg) (hmem h p hh)
  groups g hg := by
    rw [members_eq_zero_iff]
    intro q
    rw [Bool.eq_false_iff]
    intro hq
    have hbit := hmem g q hq
    rw [hs.groups g hg] at hbit
    simp at hbit
  ports g p hp := hs.ports g p (hmem g p hp)

theorem Sound.joined (hs : Sound f s) (hport : port < f.cpuPort) (hfree : Free s port)
    (hgroup : group < numLagIds f) : Sound f (joined group port s) := by
  have hmem : ∀ g q, ((Lag.joined group port s).members g).getLsbD q = true ↔
      (s.members g).getLsbD q = true ∨ g = group ∧ q = port :=
    member_update_or (port_lt_64 hport) group
  have hnot : ∀ g, (s.members g).getLsbD port ≠ true := fun g => by simp [hfree g]
  refine ⟨fun g h p hg hh => ?_, fun g hg => ?_, fun g p hp => ?_⟩
  · rcases (hmem g p).mp hg with hgp | ⟨rfl, rfl⟩
    · rcases (hmem h p).mp hh with hhp | ⟨-, rfl⟩
      · exact hs.disjoint g h p hgp hhp
      · exact absurd hgp (hnot g)
    · rcases (hmem h p).mp hh with hhp | ⟨rfl, -⟩
      · exact absurd hhp (hnot h)
      · rfl
  · have hne : g ≠ group := by omega
    rw [show (Lag.joined group port s).members g = s.members g from update_of_ne hne _ _]
    exact hs.groups g hg
  · rcases (hmem g p).mp hp with hp | ⟨-, rfl⟩
    · exact hs.ports g p hp
    · exact hport

/-- No step puts a port into two LAGs. -/
theorem Sound.step (hs : Sound f s) {e : Event} {err : Option Errno}
    (hstep : step f s e = some (err, s')) : Sound f s' := by
  cases e with
  | join port id info =>
    by_cases hoff : canOffload f id info = true
    · by_cases hport : port < f.cpuPort
      · have hlt := canOffload_lt hoff
        by_cases hfree : Free s port
        · simp only [Lag.step, portLagJoin_free hport hoff hfree, some.injEq,
            Prod.mk.injEq] at hstep
          obtain ⟨-, rfl⟩ := hstep
          exact hs.joined hport hfree (by omega)
        · simp only [Lag.step, portLagJoin_busy hs hport hoff hfree, some.injEq,
            Prod.mk.injEq] at hstep
          obtain ⟨-, rfl⟩ := hstep
          exact hs.of_members fun g q hq => by rwa [record_members] at hq
      · simp [Lag.step, portLagJoin, hoff, Nat.not_lt.mp hport] at hstep
        exact hstep.2 ▸ hs
    · simp [Lag.step, portLagJoin, hoff] at hstep
      exact hstep.2 ▸ hs
  | leave port id =>
    obtain ⟨s'', hleave, heq⟩ := map_eq_some_iff.mp hstep
    obtain ⟨-, rfl⟩ := Prod.mk.inj heq
    unfold portLagLeave at hleave
    split at hleave
    · exact some.inj hleave ▸ hs
    split at hleave
    · exact some.inj hleave ▸ hs
    split at hleave
    · cases hleave
    · rename_i hport hrange
      have hleft : left f id.toNat port s = s'' := some.inj hleave
      rw [← hleft]
      refine hs.of_members fun g q hq => ?_
      exact ((left_member hs (port_lt_64 (Nat.not_le.mp hport)) id.toNat g q).mp hq).1

end Steps

/-! ## Runs -/

/-- In every state of a run the variables are as they should be, and joins that fail change
nothing. -/
def RunHolds (f : Family) : State → List Event → Prop
  | s, [] => Inv s
  | s, e :: es => Inv s ∧ Holds f s e ∧ ∀ err s', step f s e = some (err, s') → RunHolds f s' es

/-- Every step of a run is one of those that do no harm. -/
def RunOk (f : Family) : State → List Event → Prop
  | _, [] => True
  | s, e :: es => Ok f s e ∧ ∀ err s', step f s e = some (err, s') → RunOk f s' es

theorem runHolds_iff {f : Family} {s : State} (hs : Sound f s) (h : Inv s) (es : List Event) :
    RunHolds f s es ↔ RunOk f s es := by
  induction es generalizing s with
  | nil => simp [RunHolds, RunOk, h]
  | cons e es ih =>
    simp only [RunHolds, RunOk, h, true_and, holds_iff hs h]
    refine and_congr_right fun hok => forall_congr' fun err => forall_congr' fun s' =>
      forall_congr' fun hstep => ?_
    obtain ⟨hinv, -⟩ := (holds_of_step hstep).mp ((holds_iff hs h e).mpr hok)
    exact ih (hs.step hstep) hinv

theorem sound_probed (f : Family) : Sound f probed :=
  ⟨by simp [probed], by simp [probed], by simp [probed]⟩

theorem inv_probed : Inv probed := ⟨by simp [probed], by simp [probed], by simp [probed]⟩

/-- From the probed state on, the four variables fit together in every state of a run if and only
if no step of it is one of those that hurt them. -/
theorem lag_run_iff (f : Family) (es : List Event) :
    RunHolds f probed es ↔ RunOk f probed es :=
  runHolds_iff (sound_probed f) inv_probed es

/-- The first port that joins a LAG does not become its primary port. -/
theorem lag_first_join :
    ¬ RunHolds .rtl838x probed [.join 3 1 { txHash := true, hashType := .l2 }] := by
  intro h
  obtain ⟨hok, -⟩ := (runHolds_iff (sound_probed _) inv_probed _).mp h
  rcases hok rfl (by decide) with ⟨-, hprimary⟩ | ⟨-, -, hnon⟩
  · exact absurd (hprimary rfl) (by decide)
  · exact absurd hnon (by decide)

end Lag

end LibWrt.Rtl83xx
