/-
LibWrt.Rtl83xx.Isolation — which ports a port forwards to.

Every user port has a mask of the ports that it forwards to, and the switch
has a row for it with the same bits while the port is enabled. Joins, leaves
and changes of the isolation flag compute the mask of one port and change its
bit in the masks of the ports of the bridge (`updatePortMember`).

`Inv` says what the masks are. `updatePortMember_spec` is what one update
does to every port, and `isolation_run` says that `Inv` holds after any
events. The setup gives a mask to the ports with a phy or a pcs only; another
user port has none until it is in a bridge.
-/
import LibWrt.Rtl83xx.L2

namespace LibWrt.Rtl83xx

open List

/-- `BIT_ULL` -/
def bitUll (i : Nat) : BitVec 64 := BitVec.twoPow 64 i

@[simp] theorem getLsbD_bitUll (i j : Nat) :
    (bitUll i).getLsbD j = (decide (i < 64) && decide (i = j)) :=
  BitVec.getLsbD_twoPow i j

namespace Family

/-- `cpu_port` -/
def cpuPort : Family → Nat
  | rtl838x => 28
  | rtl839x => 52
  | rtl930x => 28
  | rtl931x => 56

theorem cpuPort_lt (f : Family) : f.cpuPort < 57 := by cases f <;> decide

/-- The words `traffic_set` writes. -/
def trafficWords (f : Family) (destMatrix : BitVec 64) : List (BitVec 32) :=
  match f with
  | rtl838x => [destMatrix.setWidth 32]
  | rtl839x => [(destMatrix >>> 32).setWidth 32, destMatrix.setWidth 32]
  | rtl930x => [(destMatrix <<< 3).setWidth 32]
  | rtl931x => [(destMatrix >>> (32 - 7)).setWidth 32, (destMatrix <<< 7).setWidth 32]

/-- The word and the bit that `traffic_enable` and `traffic_disable` change. -/
def trafficBit (f : Family) (dest : Nat) : Nat × Nat :=
  match f with
  | rtl838x => (0, dest)
  | rtl839x => if dest < 32 then (1, dest) else (0, dest - 32)
  | rtl930x => (0, dest + 3)
  | rtl931x => (if (dest + 7) / 32 = 0 then 1 else 0, (dest + 7) % 32)

def rowHas (f : Family) (row : List (BitVec 32)) (dest : Nat) : Bool :=
  (row.getD (f.trafficBit dest).1 0).getLsbD (f.trafficBit dest).2

/-- A row of words has the bits of the mask that was written. -/
theorem rowHas_trafficWords (f : Family) (destMatrix : BitVec 64) {dest : Nat}
    (hdest : dest ≤ f.cpuPort) :
    f.rowHas (f.trafficWords destMatrix) dest = destMatrix.getLsbD dest := by
  cases f with
  | rtl838x =>
    have hlt : dest < 32 := Nat.lt_of_le_of_lt hdest (by decide)
    simp [rowHas, trafficWords, trafficBit, hlt]
  | rtl839x =>
    have hlt : dest < 64 := Nat.lt_of_le_of_lt hdest (by decide)
    by_cases hlow : dest < 32
    · simp [rowHas, trafficWords, trafficBit, hlow]
    · have hindex : 32 + (dest - 32) = dest := by omega
      have hhigh : dest - 32 < 32 := by omega
      simp [rowHas, trafficWords, trafficBit, hlow, hindex, hhigh]
  | rtl930x =>
    have hlt : dest + 3 < 32 := Nat.add_lt_add_right (Nat.lt_of_le_of_lt hdest (by decide)) 3
    simp [rowHas, trafficWords, trafficBit, hlt]
  | rtl931x =>
    have hle : dest ≤ 56 := hdest
    by_cases hlow : (dest + 7) / 32 = 0
    · have hmod : (dest + 7) % 32 = dest + 7 := by omega
      have hlt : dest + 7 < 32 := by omega
      simp [rowHas, trafficWords, trafficBit, hlow, hmod, hlt]
    · have hlt : (dest + 7) % 32 < 32 := Nat.mod_lt _ (by decide)
      have hindex : 25 + (dest + 7) % 32 = dest := by omega
      simp [rowHas, trafficWords, trafficBit, hlow, hlt, hindex]

end Family

namespace Isolation

/-- `struct rtl838x_port`, what the masks need of it. -/
structure Port where
  enable : Bool
  isolated : Bool
  pm : BitVec 64

/-- The family and the user ports -/
structure Config where
  family : Family
  user : List Nat
  nodup : user.Nodup
  below : ∀ p ∈ user, p < family.cpuPort

/-- The ports, the bridge of each as the DSA core has it, and the rows of the switch. -/
structure State (B : Type) where
  port : Nat → Port
  bridge : Nat → Option B
  row : Nat → List (BitVec 32)

variable {B : Type} [DecidableEq B] (cfg : Config)

namespace State

variable (s : State B)

/-- `traffic_set` -/
def trafficSet (source : Nat) (destMatrix : BitVec 64) : State B :=
  { s with row := Function.update s.row source (cfg.family.trafficWords destMatrix) }

/-- `sw_w32_mask` in the word of the row that has a port's bit -/
def trafficMask (source dest : Nat) (f : BitVec 32 → BitVec 32 → BitVec 32) : State B :=
  let (word, bit) := cfg.family.trafficBit dest
  let row := (s.row source).modify word fun w => f w (BitVec.twoPow 32 bit)
  { s with row := Function.update s.row source row }

def trafficEnable (source dest : Nat) : State B :=
  s.trafficMask cfg source dest fun w bit => w ||| bit

def trafficDisable (source dest : Nat) : State B :=
  s.trafficMask cfg source dest fun w bit => w &&& ~~~bit

def setPm (port : Nat) (pm : BitVec 64) : State B :=
  let s := { s with port := Function.update s.port port { s.port port with pm := pm } }
  if (s.port port).enable then s.trafficSet cfg port pm else s

end State

/-- Another port's mask, when the ports of the bridge are told that a port joins or not. -/
def patched (s : State B) (port : Nat) (join : Bool) (other : Nat) : BitVec 64 :=
  if join && !((s.port port).isolated && (s.port other).isolated) then
    (s.port other).pm ||| bitUll port
  else (s.port other).pm &&& ~~~bitUll port

/-- The body of the loop of `rtldsa_update_port_member`. -/
def updateOther (port : Nat) (bridge : Option B) (join : Bool) (r : BitVec 64 × State B)
    (other : Nat) : BitVec 64 × State B :=
  let (portMask, s) := r
  if other = port then (portMask, s)
  else if s.bridge other ≠ bridge then (portMask, s)
  else
    (if join && !((s.port port).isolated && (s.port other).isolated) then
        portMask ||| bitUll other
      else portMask,
      s.setPm cfg other (patched s port join other))

/-- `rtldsa_update_port_member` -/
def updatePortMember (s : State B) (port : Nat) (bridge : Option B) (join : Bool) : State B :=
  let (portMask, s) :=
    cfg.user.foldl (updateOther cfg port bridge join) (bitUll cfg.family.cpuPort, s)
  s.setPm cfg port portMask

/-- `rtldsa_port_bridge_join` -/
def portBridgeJoin (s : State B) (port : Nat) (bridge : B) : State B :=
  let s := { s with port := Function.update s.port port { s.port port with isolated := false } }
  updatePortMember cfg s port (some bridge) true

/-- `rtldsa_port_bridge_leave` -/
def portBridgeLeave (s : State B) (port : Nat) (bridge : B) : State B :=
  updatePortMember cfg s port (some bridge) false

/-- `rtl83xx_port_bridge_flags` with the isolation flag -/
def portBridgeFlags (s : State B) (port : Nat) (isolated : Bool) : State B :=
  let s := { s with port := Function.update s.port port { s.port port with isolated := isolated } }
  updatePortMember cfg s port (s.bridge port) true

/-- `rtldsa_port_enable` -/
def portEnable (s : State B) (port : Nat) : State B :=
  let s := { s with port := Function.update s.port port { s.port port with enable := true } }
  if port = cfg.family.cpuPort then s
  else (s.trafficEnable cfg cfg.family.cpuPort port).trafficSet cfg port (s.port port).pm

/-- `rtldsa_port_disable` of a user port -/
def portDisable (s : State B) (port : Nat) : State B :=
  let s := (s.trafficDisable cfg cfg.family.cpuPort port).trafficSet cfg port 0
  { s with port := Function.update s.port port { s.port port with enable := false } }

variable (connected : Nat → Bool) (reset : Nat → List (BitVec 32))

/-- What `rtl83xx_setup` and `rtl93xx_setup` leave; `connected` are the ports with a phy or a
    pcs, and `reset` has the rows before. -/
def setup : State B where
  port i :=
    { enable := decide (i = cfg.family.cpuPort)
      isolated := false
      pm := if i < cfg.family.cpuPort ∧ connected i then bitUll cfg.family.cpuPort else 0 }
  bridge _ := none
  row i :=
    if (i < cfg.family.cpuPort ∧ connected i) ∨ i = cfg.family.cpuPort then
      cfg.family.trafficWords (bitUll i)
    else reset i

/-! ## Events -/

inductive Event (B : Type) where
  | join (port : Nat) (bridge : B)
  | leave (port : Nat)
  | isolate (port : Nat) (isolated : Bool)
  | enable (port : Nat)
  | disable (port : Nat)

/-- An event, with the DSA core in front of the driver: it sets the bridge of a port that joins
    before the call and clears that of a port that leaves, and only a port without a bridge joins
    one and only a port with a bridge leaves it or gets another flag. -/
def step (s : State B) : Event B → State B
  | .join port bridge =>
    if port ∈ cfg.user ∧ s.bridge port = none then
      portBridgeJoin cfg { s with bridge := Function.update s.bridge port (some bridge) } port bridge
    else s
  | .leave port =>
    match s.bridge port with
    | some bridge =>
      portBridgeLeave cfg { s with bridge := Function.update s.bridge port none } port bridge
    | none => s
  | .isolate port isolated =>
    match s.bridge port with
    | some _ => portBridgeFlags cfg s port isolated
    | none => s
  | .enable port =>
    if port ∈ cfg.user ∨ port = cfg.family.cpuPort then portEnable cfg s port else s
  | .disable port => if port ∈ cfg.user then portDisable cfg s port else s

def run (events : List (Event B)) : State B := events.foldl (step cfg) (setup cfg connected reset)

/-- Whether the port is enabled after an event; `on` says whether it was before. -/
def enabled (port : Nat) (on : Bool) : Event B → Bool
  | .enable p => on || decide (p = port)
  | .disable p => on && !decide (p = port)
  | _ => on

/-! ## What the masks are -/

/-- A port forwards to the CPU port, and to the other ports of its bridge but for those that are
    isolated like itself. -/
def Forwards (s : State B) (port dest : Nat) : Prop :=
  dest = cfg.family.cpuPort ∨
    dest ∈ cfg.user ∧ dest ≠ port ∧ s.bridge port ≠ none ∧ s.bridge dest = s.bridge port ∧
      ¬ ((s.port port).isolated = true ∧ (s.port dest).isolated = true)

/-- The mask of a port is what it forwards to. -/
def Exact (s : State B) (p : Nat) : Prop :=
  ∀ dest, (s.port p).pm.getLsbD dest = true ↔ Forwards cfg s p dest

structure Inv (s : State B) : Prop where
  pm : ∀ p ∈ cfg.user, Exact cfg s p ∨
    connected p = false ∧ s.bridge p = none ∧ (s.port p).pm = 0
  row : ∀ p ∈ cfg.user, (s.port p).enable = true →
    s.row p = cfg.family.trafficWords (s.port p).pm
  bridged : ∀ p, s.bridge p ≠ none → p ∈ cfg.user

/-! ## An update -/

namespace State

variable {cfg} (s : State B)

omit [DecidableEq B]

@[simp] theorem bridge_setPm (port : Nat) (pm : BitVec 64) :
    (s.setPm cfg port pm).bridge = s.bridge := by
  rw [setPm]
  split <;> rfl

theorem port_setPm (port : Nat) (pm : BitVec 64) : (s.setPm cfg port pm).port =
    Function.update s.port port { s.port port with pm := pm } := by
  rw [setPm]
  split <;> rfl

@[simp] theorem enable_setPm (port : Nat) (pm : BitVec 64) (q : Nat) :
    ((s.setPm cfg port pm).port q).enable = (s.port q).enable := by
  rw [port_setPm]
  by_cases h : q = port
  · subst h
    simp
  · simp [h]

@[simp] theorem isolated_setPm (port : Nat) (pm : BitVec 64) (q : Nat) :
    ((s.setPm cfg port pm).port q).isolated = (s.port q).isolated := by
  rw [port_setPm]
  by_cases h : q = port
  · subst h
    simp
  · simp [h]

theorem pm_setPm (port : Nat) (pm : BitVec 64) (q : Nat) :
    ((s.setPm cfg port pm).port q).pm = if q = port then pm else (s.port q).pm := by
  rw [port_setPm]
  by_cases h : q = port
  · subst h
    simp
  · simp [h]

theorem row_setPm (port : Nat) (pm : BitVec 64) (q : Nat) :
    (s.setPm cfg port pm).row q =
      if q = port ∧ (s.port q).enable = true then cfg.family.trafficWords pm else s.row q := by
  have henable : (Function.update s.port port { s.port port with pm := pm } port).enable =
      (s.port port).enable := by
    rw [Function.update_self]
  simp only [setPm, henable]
  by_cases h : q = port
  · subst h
    by_cases hq : (s.port q).enable = true <;> simp [hq, trafficSet]
  · by_cases hport : (s.port port).enable = true <;> simp [hport, h, trafficSet]

end State

def Other (s : State B) (port : Nat) (bridge : Option B) (q : Nat) : Prop :=
  q ≠ port ∧ s.bridge q = bridge

/-- What an update does to some ports: the masks and rows of those that are in the bridge are
    patched, and all of the rest stays. -/
structure Patched (port : Nat) (br : Option B) (join : Bool) (ps : List Nat)
    (s s' : State B) : Prop where
  bridge : s'.bridge = s.bridge
  enable : ∀ q, (s'.port q).enable = (s.port q).enable
  isolated : ∀ q, (s'.port q).isolated = (s.port q).isolated
  inside : ∀ q ∈ ps, Other s port br q → (s'.port q).pm = patched s port join q ∧
    ((s.port q).enable = true → s'.row q = cfg.family.trafficWords (patched s port join q))
  outside : ∀ q, ¬ (q ∈ ps ∧ Other s port br q) →
    (s'.port q).pm = (s.port q).pm ∧ s'.row q = s.row q

/-- The loop patches the other ports and collects those that are joined. -/
theorem foldl_updateOther (port : Nat) (bridge : Option B) (join : Bool) {ps : List Nat}
    (hnodup : ps.Nodup) (portMask : BitVec 64) (s : State B) :
    Patched cfg port bridge join ps s
        (ps.foldl (updateOther cfg port bridge join) (portMask, s)).2 ∧
      ∀ dest, (ps.foldl (updateOther cfg port bridge join) (portMask, s)).1.getLsbD dest = true ↔
        portMask.getLsbD dest = true ∨
          dest < 64 ∧ dest ∈ ps ∧ Other s port bridge dest ∧ join = true ∧
            ¬ ((s.port port).isolated = true ∧ (s.port dest).isolated = true) := by
  induction ps generalizing portMask s with
  | nil => exact ⟨⟨rfl, fun _ => rfl, fun _ => rfl, by simp, fun _ _ => ⟨rfl, rfl⟩⟩, by simp⟩
  | cons a ps ih =>
    rw [nodup_cons] at hnodup
    rw [foldl_cons]
    by_cases hother : Other s port bridge a
    · have hfirst : updateOther cfg port bridge join (portMask, s) a =
          (if join && !((s.port port).isolated && (s.port a).isolated) then
              portMask ||| bitUll a
            else portMask,
            s.setPm cfg a (patched s port join a)) := by
        rw [updateOther, if_neg hother.1, if_neg (not_not.mpr hother.2)]
      rw [hfirst]
      generalize hmid : s.setPm cfg a (patched s port join a) = mid
      obtain ⟨hpatched, hmask⟩ := ih hnodup.2 _ mid
      have hother' : ∀ q, Other mid port bridge q ↔ Other s port bridge q := by
        intro q
        rw [Other, Other, ← hmid, State.bridge_setPm]
      have hsame : ∀ q, q ≠ a → patched mid port join q = patched s port join q := by
        intro q hq
        rw [patched, patched, ← hmid, State.isolated_setPm, State.isolated_setPm, State.pm_setPm,
          if_neg hq]
      refine ⟨⟨?_, ?_, ?_, ?_, ?_⟩, ?_⟩
      · rw [hpatched.bridge, ← hmid, State.bridge_setPm]
      · intro q
        rw [hpatched.enable, ← hmid, State.enable_setPm]
      · intro q
        rw [hpatched.isolated, ← hmid, State.isolated_setPm]
      · intro q hq hq'
        rcases mem_cons.mp hq with rfl | hq
        · -- the port is not met again
          obtain ⟨hpm, hrow⟩ := hpatched.outside q fun hand => hnodup.1 hand.1
          rw [hpm, hrow, ← hmid, State.pm_setPm, if_pos rfl]
          refine ⟨rfl, fun henable => ?_⟩
          rw [State.row_setPm, if_pos ⟨rfl, henable⟩]
        · have hne : q ≠ a := fun heq => hnodup.1 (heq ▸ hq)
          obtain ⟨hpm, hrow⟩ := hpatched.inside q hq ((hother' q).mpr hq')
          rw [hsame q hne] at hpm hrow
          refine ⟨hpm, fun henable => hrow ?_⟩
          rw [← hmid, State.enable_setPm]
          exact henable
      · intro q hq
        have hne : q ≠ a := by
          rintro rfl
          exact hq ⟨mem_cons_self, hother⟩
        obtain ⟨hpm, hrow⟩ := hpatched.outside q fun hand =>
          hq ⟨mem_cons_of_mem _ hand.1, (hother' q).mp hand.2⟩
        rw [hpm, hrow, ← hmid, State.pm_setPm, State.row_setPm, if_neg hne,
          if_neg fun hand => hne hand.1]
        exact ⟨rfl, rfl⟩
      · intro dest
        rw [hmask, hother', ← hmid]
        simp only [State.isolated_setPm, mem_cons]
        have hcond : (join && !((s.port port).isolated && (s.port a).isolated)) = true ↔
            join = true ∧ ¬ ((s.port port).isolated = true ∧ (s.port a).isolated = true) := by
          cases join <;> cases (s.port port).isolated <;> cases (s.port a).isolated <;> simp
        have hbit : (if join && !((s.port port).isolated && (s.port a).isolated) then
              portMask ||| bitUll a
            else portMask).getLsbD dest = true ↔ portMask.getLsbD dest = true ∨
              dest < 64 ∧ dest = a ∧ join = true ∧
                ¬ ((s.port port).isolated = true ∧ (s.port a).isolated = true) := by
          by_cases hjoin : (join && !((s.port port).isolated && (s.port a).isolated)) = true
          · have hand := hcond.mp hjoin
            rw [if_pos hjoin, BitVec.getLsbD_or, Bool.or_eq_true, getLsbD_bitUll, Bool.and_eq_true,
              decide_eq_true_eq, decide_eq_true_eq]
            refine or_congr_right ⟨?_, ?_⟩
            · rintro ⟨hlt, rfl⟩
              exact ⟨hlt, rfl, hand⟩
            · rintro ⟨hlt, rfl, -⟩
              exact ⟨hlt, rfl⟩
          · rw [if_neg hjoin, or_iff_left]
            exact fun h => hjoin (hcond.mpr h.2.2)
        rw [hbit, or_assoc]
        refine or_congr_right ⟨?_, ?_⟩
        · rintro (⟨hlt, rfl, hand⟩ | ⟨hlt, hmem, hrest⟩)
          · exact ⟨hlt, .inl rfl, hother, hand⟩
          · exact ⟨hlt, .inr hmem, hrest⟩
        · rintro ⟨hlt, rfl | hmem, hrest⟩
          · exact .inl ⟨hlt, rfl, hrest.2⟩
          · exact .inr ⟨hlt, hmem, hrest⟩
    · have hskip : updateOther cfg port bridge join (portMask, s) a = (portMask, s) := by
        rw [updateOther]
        by_cases hport : a = port
        · rw [if_pos hport]
        · rw [if_neg hport, if_pos fun heq => hother ⟨hport, heq⟩]
      obtain ⟨hpatched, hmask⟩ := ih hnodup.2 portMask s
      rw [hskip]
      refine ⟨⟨hpatched.bridge, hpatched.enable, hpatched.isolated, ?_, ?_⟩, ?_⟩
      · intro q hq hq'
        rcases mem_cons.mp hq with rfl | hq
        · exact absurd hq' hother
        · exact hpatched.inside q hq hq'
      · intro q hq
        exact hpatched.outside q fun hand => hq ⟨mem_cons_of_mem _ hand.1, hand.2⟩
      · intro dest
        rw [hmask, mem_cons]
        refine or_congr_right ⟨fun h => ⟨h.1, .inr h.2.1, h.2.2⟩, ?_⟩
        rintro ⟨hlt, rfl | hmem, hand⟩
        · exact absurd hand.1 hother
        · exact ⟨hlt, hmem, hand⟩

/-- What an update of a port does: its own mask has the CPU port and the ports it joins, and the
    others' masks are patched. -/
structure PortUpdated (port : Nat) (br : Option B) (join : Bool) (s s' : State B) : Prop where
  bridge : s'.bridge = s.bridge
  enable : ∀ q, (s'.port q).enable = (s.port q).enable
  isolated : ∀ q, (s'.port q).isolated = (s.port q).isolated
  own : ∀ dest, (s'.port port).pm.getLsbD dest = true ↔ dest = cfg.family.cpuPort ∨
    dest ∈ cfg.user ∧ Other s port br dest ∧ join = true ∧
      ¬ ((s.port port).isolated = true ∧ (s.port dest).isolated = true)
  ownRow : (s.port port).enable = true →
    s'.row port = cfg.family.trafficWords (s'.port port).pm
  inside : ∀ q ∈ cfg.user, Other s port br q → (s'.port q).pm = patched s port join q ∧
    ((s.port q).enable = true → s'.row q = cfg.family.trafficWords (s'.port q).pm)
  outside : ∀ q, q ≠ port → ¬ (q ∈ cfg.user ∧ Other s port br q) →
    (s'.port q).pm = (s.port q).pm ∧ s'.row q = s.row q

theorem updatePortMember_spec (s : State B) (port : Nat) (br : Option B) (join : Bool) :
    PortUpdated cfg port br join s (updatePortMember cfg s port br join) := by
  obtain ⟨hpatched, hmask⟩ :=
    foldl_updateOther cfg port br join cfg.nodup (bitUll cfg.family.cpuPort) s
  rw [updatePortMember]
  generalize cfg.user.foldl (updateOther cfg port br join) (bitUll cfg.family.cpuPort, s) = r
    at hpatched hmask
  obtain ⟨portMask, mid⟩ := r
  dsimp only at hpatched hmask ⊢
  have hcpu := cfg.family.cpuPort_lt
  refine ⟨?_, ?_, ?_, ?_, ?_, ?_, ?_⟩
  · rw [State.bridge_setPm, hpatched.bridge]
  · intro q
    rw [State.enable_setPm, hpatched.enable]
  · intro q
    rw [State.isolated_setPm, hpatched.isolated]
  · intro dest
    rw [State.pm_setPm, if_pos rfl, hmask, getLsbD_bitUll, Bool.and_eq_true, decide_eq_true_eq,
      decide_eq_true_eq]
    refine or_congr ⟨fun h => h.2.symm, ?_⟩ ⟨And.right, fun h => ⟨?_, h⟩⟩
    · rintro rfl
      exact ⟨by omega, rfl⟩
    · have := cfg.below dest h.1
      omega
  · intro henable
    rw [State.row_setPm, State.pm_setPm, if_pos rfl, if_pos ⟨rfl, by rwa [hpatched.enable]⟩]
  · intro q hq hother
    obtain ⟨hpm, hrow⟩ := hpatched.inside q hq hother
    rw [State.pm_setPm, if_neg hother.1, State.row_setPm, if_neg fun hand => hother.1 hand.1, hpm]
    exact ⟨rfl, hrow⟩
  · intro q hne hq
    obtain ⟨hpm, hrow⟩ := hpatched.outside q hq
    rw [State.pm_setPm, if_neg hne, State.row_setPm, if_neg fun hand => hne hand.1, hpm, hrow]
    exact ⟨rfl, rfl⟩

/-! ## Every event keeps the masks -/

variable {cfg connected reset} {s : State B}

omit [DecidableEq B] in
theorem patched_self {p q : Nat} (hp : p < 64) (join : Bool) :
    (patched s p join q).getLsbD p = true ↔
      join = true ∧ ¬ ((s.port p).isolated = true ∧ (s.port q).isolated = true) := by
  rw [patched]
  cases join <;> cases (s.port p).isolated <;> cases (s.port q).isolated <;> simp [hp]

omit [DecidableEq B] in
theorem patched_ne {p q dest : Nat} (hdest : dest ≠ p) (join : Bool) :
    (patched s p join q).getLsbD dest = (s.port q).pm.getLsbD dest := by
  rw [patched]
  split
  · simp [Ne.symm hdest]
  · rw [BitVec.getLsbD_and, BitVec.getLsbD_not, getLsbD_bitUll]
    by_cases hlt : dest < 64
    · simp [Ne.symm hdest, hlt]
    · rw [BitVec.getLsbD_of_ge _ _ (Nat.le_of_not_lt hlt), Bool.false_and]

/-- A port joins or stays in a bridge, or has left it, before its update; of the other ports nothing
    has changed. -/
structure Moves (cfg : Config) (s s₁ : State B) (p : Nat) (br : B) (join : Bool) : Prop where
  user : p ∈ cfg.user
  bridge : ∀ q, q ≠ p → s₁.bridge q = s.bridge q
  port : ∀ q, q ≠ p → s₁.port q = s.port q
  row : s₁.row = s.row
  before : s.bridge p = none ∨ s.bridge p = some br
  after : s₁.bridge p = if join then some br else none

variable {s₁ s' : State B} {p q : Nat} {br : B} {join : Bool}

omit [DecidableEq B] in
theorem Moves.exact_self (hm : Moves cfg s s₁ p br join)
    (hspec : PortUpdated cfg p (some br) join s₁ s') : Exact cfg s' p := by
  intro dest
  rw [hspec.own, Forwards, hspec.bridge, hm.after, hspec.isolated, hspec.isolated, Other]
  refine or_congr_right (and_congr_right fun _ => ?_)
  by_cases hdest : dest = p
  · simp [hdest]
  · cases join <;> simp [hdest]

omit [DecidableEq B] in
/-- The bits of the other ports in the mask of a port that stays where it is. -/
theorem Moves.kept (hm : Moves cfg s s₁ p br join)
    (hspec : PortUpdated cfg p (some br) join s₁ s') (hexact : Exact cfg s q) (hqp : q ≠ p)
    {dest : Nat} (hdest : dest ≠ p) :
    (s.port q).pm.getLsbD dest = true ↔ Forwards cfg s' q dest := by
  rw [hexact dest, Forwards, Forwards, hspec.bridge, hm.bridge q hqp, hm.bridge dest hdest,
    hspec.isolated, hspec.isolated, hm.port q hqp, hm.port dest hdest]

theorem Moves.exact_other (hm : Moves cfg s s₁ p br join)
    (hspec : PortUpdated cfg p (some br) join s₁ s') (hq : q ∈ cfg.user) (hqp : q ≠ p)
    (hexact : Exact cfg s q) : Exact cfg s' q := by
  intro dest
  have hplt : p < cfg.family.cpuPort := cfg.below p hm.user
  have hcpu := cfg.family.cpuPort_lt
  by_cases hother : s.bridge q = some br
  · have hin : Other s₁ p (some br) q := ⟨hqp, by rw [hm.bridge q hqp, hother]⟩
    rw [(hspec.inside q hq hin).1]
    by_cases hdest : dest = p
    · subst hdest
      rw [patched_self (by omega), Forwards, hspec.bridge, hm.after, hm.bridge q hqp, hother,
        hspec.isolated, hspec.isolated]
      have hne : dest ≠ cfg.family.cpuPort := by omega
      cases join
      · simp [hne]
      · simp [hne, hm.user, Ne.symm hqp, and_comm]
    · rw [patched_ne hdest, hm.port q hqp]
      exact hm.kept hspec hexact hqp hdest
  · have hout : ¬ (q ∈ cfg.user ∧ Other s₁ p (some br) q) := by
      rintro ⟨-, -, heq⟩
      exact hother (by rw [← hm.bridge q hqp, heq])
    rw [(hspec.outside q hqp hout).1, hm.port q hqp]
    by_cases hdest : dest = p
    · subst hdest
      rw [hexact dest, Forwards, Forwards, hspec.bridge, hm.after, hm.bridge q hqp]
      refine or_congr_right (iff_of_false ?_ ?_)
      · rintro ⟨-, -, hnone, heq, -⟩
        rcases hm.before with hbefore | hbefore
        · exact hnone (heq ▸ hbefore)
        · exact hother (heq ▸ hbefore)
      · rintro ⟨-, -, hnone, heq, -⟩
        cases join with
        | false => exact hnone heq.symm
        | true => exact hother heq.symm
    · exact hm.kept hspec hexact hqp hdest

theorem Inv.update (hinv : Inv cfg connected s) (hm : Moves cfg s s₁ p br join) :
    Inv cfg connected (updatePortMember cfg s₁ p (some br) join) := by
  have hspec := updatePortMember_spec cfg s₁ p (some br) join
  generalize updatePortMember cfg s₁ p (some br) join = s' at hspec
  refine ⟨fun q hq => ?_, fun q hq henable => ?_, fun q hq => ?_⟩
  · by_cases hqp : q = p
    · subst hqp
      exact .inl (hm.exact_self hspec)
    rcases hinv.pm q hq with hexact | ⟨hconnected, hnone, hzero⟩
    · exact .inl (hm.exact_other hspec hq hqp hexact)
    · have hout : ¬ (q ∈ cfg.user ∧ Other s₁ p (some br) q) := by
        rintro ⟨-, -, heq⟩
        rw [hm.bridge q hqp, hnone] at heq
        cases heq
      refine .inr ⟨hconnected, ?_, ?_⟩
      · rw [hspec.bridge, hm.bridge q hqp, hnone]
      · rw [(hspec.outside q hqp hout).1, hm.port q hqp, hzero]
  · rw [hspec.enable] at henable
    by_cases hqp : q = p
    · subst hqp
      exact hspec.ownRow henable
    · by_cases hother : Other s₁ p (some br) q
      · exact (hspec.inside q hq hother).2 henable
      · obtain ⟨hpm, hrow⟩ := hspec.outside q hqp fun hand => hother hand.2
        rw [hm.port q hqp] at hpm henable
        rw [hpm, hrow, hm.row]
        exact hinv.row q hq henable
  · by_cases hqp : q = p
    · rw [hqp]
      exact hm.user
    · rw [hspec.bridge, hm.bridge q hqp] at hq
      exact hinv.bridged q hq

omit [DecidableEq B] in
theorem inv_setup : Inv cfg connected (setup cfg connected reset : State B) := by
  have hcpu := cfg.family.cpuPort_lt
  refine ⟨?_, ?_, ?_⟩
  · intro p hp
    by_cases hconnected : connected p = true
    swap
    · exact .inr ⟨by simpa using hconnected, rfl, if_neg fun h => hconnected h.2⟩
    refine .inl fun dest => ?_
    have hpm : ((setup cfg connected reset : State B).port p).pm = bitUll cfg.family.cpuPort :=
      if_pos ⟨cfg.below p hp, hconnected⟩
    rw [hpm, getLsbD_bitUll, Bool.and_eq_true, decide_eq_true_eq, decide_eq_true_eq]
    constructor
    · exact fun h => .inl h.2.symm
    · rintro (rfl | ⟨-, -, hbridge, -⟩)
      · exact ⟨by omega, rfl⟩
      · exact absurd rfl hbridge
  · intro p hp henable
    have heq : p = cfg.family.cpuPort := of_decide_eq_true henable
    exact absurd (cfg.below p hp) (by omega)
  · exact fun p hbridge => absurd rfl hbridge

omit [DecidableEq B] in
theorem Inv.of_rows (hinv : Inv cfg connected s) {s' : State B} (hbridge : s'.bridge = s.bridge)
    (hpm : ∀ q, (s'.port q).pm = (s.port q).pm)
    (hisolated : ∀ q, (s'.port q).isolated = (s.port q).isolated)
    (hrow : ∀ q ∈ cfg.user, (s'.port q).enable = true →
      s'.row q = cfg.family.trafficWords (s.port q).pm) : Inv cfg connected s' := by
  refine ⟨fun q hq => ?_, fun q hq henable => ?_, fun q hq => ?_⟩
  · refine (hinv.pm q hq).imp (fun h dest => ?_) fun ⟨hconnected, hnone, hzero⟩ =>
      ⟨hconnected, by rw [hbridge, hnone], by rw [hpm, hzero]⟩
    rw [hpm, h dest, Forwards, Forwards, hbridge, hisolated, hisolated]
  · rw [hpm, hrow q hq henable]
  · rw [hbridge] at hq
    exact hinv.bridged q hq

omit [DecidableEq B] in
theorem fields_update_enable (s : State B) (p : Nat) (enable : Bool) (q : Nat) :
    (Function.update s.port p { s.port p with enable } q).pm = (s.port q).pm ∧
      (Function.update s.port p { s.port p with enable } q).isolated = (s.port q).isolated := by
  by_cases hqp : q = p
  · subst hqp
    simp
  · simp [hqp]

omit [DecidableEq B] in
theorem Inv.enable (hinv : Inv cfg connected s) {p : Nat} (hp : p ∈ cfg.user ∨ p = cfg.family.cpuPort) :
    Inv cfg connected (portEnable cfg s p) := by
  have hfields := fields_update_enable s p true
  rw [portEnable]
  split
  · rename_i hcpu
    refine hinv.of_rows rfl (fun q => (hfields q).1) (fun q => (hfields q).2) fun q hq henable => ?_
    have hne : q ≠ p := by
      have := cfg.below q hq
      omega
    have henable' : (s.port q).enable = true := by simpa [hne] using henable
    exact hinv.row q hq henable'
  · rename_i hcpu
    refine hinv.of_rows rfl (fun q => (hfields q).1) (fun q => (hfields q).2) fun q hq henable => ?_
    have hqcpu : q ≠ cfg.family.cpuPort := by
      have := cfg.below q hq
      omega
    by_cases hqp : q = p
    · subst hqp
      simp [State.trafficSet]
    · have henable' : (s.port q).enable = true := by
        simpa [State.trafficSet, State.trafficEnable, State.trafficMask, hqp] using henable
      simpa [State.trafficSet, State.trafficEnable, State.trafficMask, hqp, hqcpu] using
        hinv.row q hq henable'

omit [DecidableEq B] in
theorem Inv.disable (hinv : Inv cfg connected s) (p : Nat) : Inv cfg connected (portDisable cfg s p) := by
  have hfields := fields_update_enable s p false
  refine hinv.of_rows rfl (fun q => (hfields q).1) (fun q => (hfields q).2) fun q hq henable => ?_
  have hqcpu : q ≠ cfg.family.cpuPort := by
    have := cfg.below q hq
    omega
  by_cases hqp : q = p
  · subst hqp
    simp [portDisable] at henable
  · have henable' : (s.port q).enable = true := by
      simpa [portDisable, State.trafficSet, State.trafficDisable, State.trafficMask, hqp] using
        henable
    simpa [portDisable, State.trafficSet, State.trafficDisable, State.trafficMask, hqp, hqcpu] using
      hinv.row q hq henable'

theorem Inv.step (hinv : Inv cfg connected s) (e : Event B) : Inv cfg connected (Isolation.step cfg s e) := by
  cases e with
  | join p br =>
    rw [Isolation.step]
    split
    · rename_i hjoin
      exact hinv.update ⟨hjoin.1, fun q hq => by simp [hq], fun q hq => by simp [hq], rfl,
        .inl hjoin.2, by simp⟩
    · exact hinv
  | leave p =>
    rw [Isolation.step]
    split
    · rename_i br hbridge
      have hp : p ∈ cfg.user := hinv.bridged p (by simp [hbridge])
      exact hinv.update ⟨hp, fun q hq => by simp [hq], fun q hq => rfl, rfl, .inr hbridge, by simp⟩
    · exact hinv
  | isolate p isolated =>
    rw [Isolation.step]
    split
    · rename_i br hbridge
      have hp : p ∈ cfg.user := hinv.bridged p (by simp [hbridge])
      rw [portBridgeFlags]
      dsimp only
      rw [hbridge]
      exact hinv.update ⟨hp, fun q hq => rfl, fun q hq => by simp [hq], rfl, .inr hbridge,
        by simp [hbridge]⟩
    · exact hinv
  | enable p =>
    rw [Isolation.step]
    split
    · exact hinv.enable (by assumption)
    · exact hinv
  | disable p =>
    rw [Isolation.step]
    split
    · exact hinv.disable p
    · exact hinv

theorem Inv.foldl (hinv : Inv cfg connected s) (events : List (Event B)) :
    Inv cfg connected (events.foldl (Isolation.step cfg) s) := by
  induction events generalizing s with
  | nil => exact hinv
  | cons e events ih => exact ih (hinv.step e)

omit [DecidableEq B] in
theorem forwards_symm {p q : Nat} (hp : p ∈ cfg.user) (hq : q ∈ cfg.user)
    (h : Forwards cfg s p q) : Forwards cfg s q p := by
  rcases h with hcpu | ⟨-, hne, hbridge, heq, hiso⟩
  · have := cfg.below q hq
    omega
  · exact .inr ⟨hp, Ne.symm hne, by rwa [heq], heq.symm, fun hand => hiso hand.symm⟩

omit [DecidableEq B] in
/-- Also where a port has no mask. -/
theorem Inv.pm_symm (hinv : Inv cfg connected s) {p q : Nat} (hp : p ∈ cfg.user)
    (hq : q ∈ cfg.user) (h : (s.port p).pm.getLsbD q = true) :
    (s.port q).pm.getLsbD p = true := by
  rcases hinv.pm p hp with hexact | ⟨-, -, hzero⟩
  · have hforwards := forwards_symm hp hq ((hexact q).mp h)
    rcases hinv.pm q hq with hexact' | ⟨-, hnone, -⟩
    · exact (hexact' p).mpr hforwards
    · rcases hforwards with hcpu | ⟨-, -, hbridge, -⟩
      · exact absurd (cfg.below p hp) (by omega)
      · exact absurd hnone hbridge
  · rw [hzero] at h
    simp at h

/-- A port is enabled and disabled by its own events. -/
theorem enable_step {p : Nat} (hp : p ∈ cfg.user) (s : State B) (e : Event B) :
    ((Isolation.step cfg s e).port p).enable = enabled p (s.port p).enable e := by
  have hupdate : ∀ (s : State B) (q : Nat) br join,
      ((updatePortMember cfg s q br join).port p).enable = (s.port p).enable := fun s q br join =>
    (updatePortMember_spec cfg s q br join).enable p
  have hcpu := cfg.below p hp
  cases e with
  | join q br =>
    unfold Isolation.step enabled
    dsimp only
    split
    · rw [portBridgeJoin, hupdate]
      by_cases hpq : p = q
      · subst hpq
        simp
      · simp [hpq]
    · rfl
  | leave q =>
    unfold Isolation.step enabled
    dsimp only
    split
    · rw [portBridgeLeave, hupdate]
    · rfl
  | isolate q isolated =>
    unfold Isolation.step enabled
    dsimp only
    split
    · rw [portBridgeFlags, hupdate]
      by_cases hpq : p = q
      · subst hpq
        simp
      · simp [hpq]
    · rfl
  | enable q =>
    unfold Isolation.step enabled portEnable
    dsimp only
    by_cases hpq : p = q
    · subst hpq
      simp [hp, hcpu.ne, State.trafficSet, State.trafficEnable, State.trafficMask]
    · split
      · split <;>
          simp [hpq, Ne.symm hpq, State.trafficSet, State.trafficEnable, State.trafficMask]
      · simp [Ne.symm hpq]
  | disable q =>
    unfold Isolation.step enabled portDisable
    dsimp only
    by_cases hpq : p = q
    · subst hpq
      simp [hp]
    · split
      · simp [hpq, Ne.symm hpq, State.trafficSet, State.trafficDisable, State.trafficMask]
      · simp [Ne.symm hpq]

theorem enable_foldl {p : Nat} (hp : p ∈ cfg.user) (s : State B) (events : List (Event B)) :
    ((events.foldl (Isolation.step cfg) s).port p).enable =
      events.foldl (enabled p) (s.port p).enable := by
  induction events generalizing s with
  | nil => rfl
  | cons e events ih => rw [foldl_cons, foldl_cons, ih, enable_step hp]

/-- After any events, the mask of a user port is the CPU port and the other ports of its bridge
    but for those that are isolated like itself, or it is empty, of a port that has neither a phy
    nor a pcs and is in no bridge. Ports forward to each other or not at all. A port is enabled if
    its last enable or disable was an enable, and then its row has the bits of its mask. -/
theorem isolation_run (cfg : Config) (connected : Nat → Bool) (reset : Nat → List (BitVec 32))
    (events : List (Event B)) :
    (∀ p ∈ cfg.user, Exact cfg (run cfg connected reset events) p ∨ connected p = false ∧
      (run cfg connected reset events).bridge p = none ∧
      ((run cfg connected reset events).port p).pm = 0) ∧
    (∀ p ∈ cfg.user, ∀ q ∈ cfg.user,
      ((run cfg connected reset events).port p).pm.getLsbD q =
        ((run cfg connected reset events).port q).pm.getLsbD p) ∧
    (∀ p ∈ cfg.user, ((run cfg connected reset events).port p).enable =
      events.foldl (enabled p) false) ∧
    ∀ p ∈ cfg.user, ((run cfg connected reset events).port p).enable = true →
      ∀ dest ≤ cfg.family.cpuPort,
        cfg.family.rowHas ((run cfg connected reset events).row p) dest =
          ((run cfg connected reset events).port p).pm.getLsbD dest := by
  have hinv : Inv cfg connected (run cfg connected reset events) := inv_setup.foldl events
  refine ⟨hinv.pm, fun p hp q hq => ?_, fun p hp => ?_, fun p hp henable dest hdest => ?_⟩
  · rw [Bool.eq_iff_iff]
    exact ⟨hinv.pm_symm hp hq, hinv.pm_symm hq hp⟩
  · have hoff : ((setup cfg connected reset : State B).port p).enable = false :=
      decide_eq_false (cfg.below p hp).ne
    rw [run, enable_foldl hp, hoff]
  · rw [hinv.row p hp henable]
    exact cfg.family.rowHas_trafficWords _ hdest

/-- A user port with neither a phy nor a pcs, before any event -/
theorem isolation_unconnected :
    ¬ ∀ (cfg : Config) (connected : Nat → Bool) (reset : Nat → List (BitVec 32))
      (events : List (Event Unit)), ∀ p ∈ cfg.user, Exact cfg (run cfg connected reset events) p := by
  intro h
  have hexact := h ⟨.rtl838x, [0], by decide, by decide⟩ (fun _ => false) (fun _ => []) [] 0
    (by decide) 28
  exact absurd (hexact.mpr (.inl rfl)) (by decide)

/-- Two ports in a bridge, one of them isolated, and one port without a bridge. -/
example : ((run ⟨.rtl838x, [0, 1, 2], by decide, by decide⟩ (fun _ => true) (fun _ => [])
    [.join 0 (), .join 1 (), .isolate 1 true]).port 0).pm = bitUll 28 ||| bitUll 1 := by decide

end Isolation

end LibWrt.Rtl83xx
