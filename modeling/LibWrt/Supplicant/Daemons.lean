/-
LibWrt.Supplicant.Daemons — hostapd and wpa_supplicant together.

The calls of hostapd are on their way for a while, and are handled in their
order; wpa_supplicant handles other requests in between, and its timers. What
each daemon keeps on its own holds of the two.
-/
import LibWrt.Hostapd.Started
import LibWrt.Supplicant.Exclusion

namespace LibWrt.Daemons

open Supplicant (PhyName)

/-- `calls` has what is on its way, the oldest first. -/
structure State where
  hostapd : Hostapd.State
  supplicant : Supplicant.State
  calls : List (PhyName × Bool)

inductive Event where
  | hostapd (env : Hostapd.Env) (e : Hostapd.Event)
  | supplicant (env : Supplicant.Env) (e : Supplicant.Event)
  /-- The oldest call is handled. -/
  | deliver (env : Supplicant.Env)
  /-- It is not, when wpa_supplicant is not found. -/
  | lose

def phyOf (phydev : Hostapd.Phydev) : PhyName where
  phy := phydev.phy
  radio := phydev.radio.bind fun r => if 0 ≤ r then some r.toNat else none

def callOf : Hostapd.Entry → Option (PhyName × Bool)
  | .call phydev (.phySetState stop) => some (phyOf phydev, stop)
  | _ => none

def newCalls (s t : Hostapd.State) : List (PhyName × Bool) :=
  (t.log.take (t.log.length - s.log.length)).reverse.filterMap callOf

def step (e : Event) (s : State) : State :=
  match e with
  | .hostapd env e =>
    let hostapd := Hostapd.step env e s.hostapd
    { s with hostapd := hostapd, calls := s.calls ++ newCalls s.hostapd hostapd }
  | .supplicant env e => { s with supplicant := Supplicant.step env e s.supplicant }
  | .deliver env =>
    match s.calls with
    | [] => s
    | call :: calls =>
      { s with supplicant := Supplicant.step env (.phySetState call.1 call.2) s.supplicant
               calls := calls }
  | .lose => { s with calls := s.calls.tail }

def State.init : State where
  hostapd := .init
  supplicant := .init
  calls := []

inductive Reachable (ok : Event → State → Prop) : State → Prop where
  | init : Reachable ok .init
  | step {s : State} (hs : Reachable ok s) (e : Event) (he : ok e s) : Reachable ok (step e s)

/-- hostapd aborts no sequence that has stopped its phy, and wpa_supplicant is not asked to start
what is stopped. -/
def Allowed (e : Event) (s : State) : Prop :=
  match e with
  | .hostapd env e => Hostapd.KeptOn env e s.hostapd
  | .supplicant env e => Supplicant.Started env e s.supplicant
  | .deliver env => ∀ call ∈ s.calls.head?,
    Supplicant.Started env (.phySetState call.1 call.2) s.supplicant
  | .lose => True

/-- wpa_supplicant starts nothing on a phy that is stopped, and a phy that hostapd has stopped has
a sequence which starts it with its next step. -/
structure Exclusive (s : State) : Prop where
  started : ∀ e ∈ s.supplicant.log, e.stopped = false
  told : Hostapd.Told s.hostapd

section Runs

variable {s : State}

theorem hostapd_reachable (h : Reachable Allowed s) :
    Hostapd.Reachable Hostapd.KeptOn s.hostapd := by
  induction h with
  | init => exact .init
  | @step s _ e he ih =>
    cases e with
    | hostapd env e => exact .step ih env e he
    | supplicant env e => exact ih
    | deliver env =>
      rw [step]
      split <;> exact ih
    | lose => exact ih

theorem supplicant_reachable (h : Reachable Allowed s) :
    Supplicant.Reachable Supplicant.Started s.supplicant := by
  induction h with
  | init => exact .init
  | @step s _ e he ih =>
    cases e with
    | hostapd env e => exact ih
    | supplicant env e => exact .step ih env e he
    | deliver env =>
      rw [step]
      split
      · exact ih
      · rename_i call calls hcalls
        refine .step ih env _ (he call ?_)
        rw [hcalls]
        rfl
    | lose => exact ih

/-- In a run whose steps are all allowed, what one daemon does not start and the other starts again
is as it should be. -/
theorem exclusive_reachable (h : Reachable Allowed s) : Exclusive s :=
  ⟨(Supplicant.excluded_reachable (supplicant_reachable h)).log,
    (Hostapd.told_reachable (hostapd_reachable h)).1⟩

end Runs

/-! ## A timer, and a sequence -/

def hostapdEnv : Hostapd.Env where
  phyOpen := true
  checkMld _ := true
  sameAddresses := false
  reload := some false
  wdevAdd := true
  defer _ := true
  addIface _ := true
  start := true

def bssSample : Hostapd.Bss where
  ifname := "phy0-ap0"
  mldAp := false
  data := []
  hash := []

def fileSample : Hostapd.File where
  name := ""
  radio := { channel := none, data := [] }
  bss := [bssSample]

def phySample : PhyName where
  phy := "phy0"
  radio := none

def ifaceSample : Supplicant.IfaceConfig where
  iface := "phy0-sta0"
  mlo := false
  freqList := none
  data := ""

def runEvents (events : List Event) : State := events.foldl (fun s e => step e s) .init

theorem reachable_runEvents {ok : Event → State → Prop} (h : ∀ e s, ok e s) (events : List Event) :
    Reachable ok (runEvents events) := by
  have hfold (s : State) (hs : Reachable ok s) :
      Reachable ok (events.foldl (fun s e => step e s) s) := by
    induction events generalizing s with
    | nil => exact hs
    | cons e events ih => exact ih _ (.step hs e (h e s))
  exact hfold .init .init

/-- The timer of a request starts an interface after the stop of its phy. -/
theorem exclusive_fails : ¬∀ s, Reachable (fun _ _ => True) s → Exclusive s := by
  intro h
  have hrun := h _ (reachable_runEvents (fun _ _ => trivial)
    [.supplicant Supplicant.envSample (.configSet phySample (some [ifaceSample]) false),
      .hostapd hostapdEnv (.configSet "phy0" none none fileSample),
      .hostapd hostapdEnv (.reply 0 none),
      .deliver Supplicant.envSample,
      .supplicant Supplicant.envSample (.timer phySample)])
  have hstarted := hrun.started (.iface phySample "phy0-sta0" true) (by decide)
  cases hstarted

/-- A sequence that stops its phy, and starts it again. -/
theorem exclusive_reachable_sequence : Exclusive (step (.hostapd hostapdEnv (.reply 0 none))
    (step (.deliver Supplicant.envSample) (step (.hostapd hostapdEnv (.reply 0 none))
      (step (.hostapd hostapdEnv (.configSet "phy0" none none fileSample)) .init)))) := by
  refine exclusive_reachable (.step (.step (.step (.step .init _ ?_) _ trivial) _ ?_) _ trivial)
  · intro _ i hi
    cases hi
  · intro call hcall
    have hstop : (step (.hostapd hostapdEnv (.reply 0 none)) (step (.hostapd hostapdEnv
        (.configSet "phy0" none none fileSample)) .init)).calls.head? = some (phySample, true) := by
      decide
    rw [hstop] at hcall
    obtain rfl := Option.some.inj hcall
    exact ⟨List.not_mem_nil, fun _ e he => absurd he List.not_mem_nil⟩

end LibWrt.Daemons
