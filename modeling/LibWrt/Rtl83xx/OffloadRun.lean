/-
LibWrt.Rtl83xx.OffloadRun — one owner for each route id, rule and counter.

`Right` says that ids, rule slots and counters have one owner each and are
marked as in use, `Promise` that a command returns, leaves nothing behind
when it fails, and gives back exactly what its route or flow held. Several
commands do otherwise when a table is full or when a route was not yet
resolved, and the end of a flow never gives back its counter; the commands
that do not come to such a place are `Tame`.

`Sound` is the invariant. `Sound.serve` is the step lemma, `offload_run` the
run lemma, and the counterexample without the condition deletes a route
before its neighbour is known.
-/
import LibWrt.Rtl83xx.Offload

namespace LibWrt.Rtl83xx.Offload

open List Function Option Bool BitVec

variable (chip : Chip)

def State.owners (s : State) : List PieRule :=
  s.routes.map Route.pr ++ s.flows.map Flow.rule

structure Right (s : State) : Prop where
  ids : (s.routes.map Route.id).Nodup
  slots : (s.owners.filterMap PieRule.id).Nodup
  cntrs : (s.owners.filterMap PieRule.cntr).Nodup
  /-- what is in use is not marked as free -/
  idUsed : ∀ r ∈ s.routes, s.pools.routeUseBm r.id = true
  slotUsed : ∀ pr ∈ s.owners, ∀ n, pr.id = some n →
    s.pools.pieUseBm n = true ∧ s.pools.rules n = some pr
  cntrUsed : ∀ pr ∈ s.owners, ∀ c, pr.cntr = some c → s.pools.packetCntrUseBm c = false
  /-- a flow has its rule -/
  flows : ∀ f ∈ s.flows, f.rule.id ≠ none

/-- What a route holds is given back, and nothing else changes. -/
def State.removeRoute (s : State) (route : Route) : State :=
  { s with
    pools := { s.pools.giveRule route.pr with
      routeUseBm := update s.pools.routeUseBm route.id false }
    routes := s.routes.erase route }

/-- What a flow holds is given back, and nothing else changes. -/
def State.removeFlow (s : State) (flow : Flow) : State :=
  { s with pools := s.pools.giveRule flow.rule, flows := s.flows.erase flow }

/-- A command returns; when it fails it leaves everything as it was, and a deletion gives back
    exactly what was held. -/
def Promise (s : State) (req : Request) : Prop :=
  ∃ result s', serve chip s req = some (result, s') ∧ (result ≠ none → s' = s) ∧
    match req with
    | .fib4Del info => result = none → l3Setup chip = true → fib4Check info = false →
        ∃ route ∈ s.routes, route.gwIp = info.gw4 ∧ route.isTo info = true ∧
          s' = s.removeRoute route
    | .flowDestroy cookie => result = none →
        ∃ flow ∈ s.flows, flow.cookie = cookie ∧ s' = s.removeFlow flow
    | _ => True

/-! ## Commands that go well -/

def State.unresolved (s : State) (gw : BitVec 32) : List Route :=
  (s.routesVia gw).filter fun r => r.pr.id = none

noncomputable def routeSlots (p : Pools) : Finset Nat :=
  freeSlots chip p { dipM := allOnes 32 }

/-- The new route's id is of no other route: there is a free one, or the one behind the last
    is not in use. -/
def IdFree (s : State) (base size : Nat) : Prop :=
  (∃ i < size, s.pools.routeUseBm (base + i) = false) ∨ ∀ r ∈ s.routes, r.id ≠ base + size

/-- There is a router address and an egress interface for the route. -/
def InterfaceFree (p : Pools) (mac : BitVec 48) : Prop :=
  routerMacSlot p mac ≠ none ∧ egressIntfScan p mac (List.range maxSmacs) none ≠ (none, none)

/-- An addition that does not meet a full table. -/
structure TameAdd (s : State) (info : FibAdd) : Prop where
  id : if info.dstLen = 32 ∧ chip.family = .rtl930x then IdFree s maxRoutes maxHostRoutes
    else IdFree s 0 maxRoutes
  interface : chip.family = .rtl930x → InterfaceFree s.pools info.devAddr
  slots : info.gw4 ≠ 0 → info.neigh ≠ none →
    (s.unresolved info.gw4).length + 1 ≤ (routeSlots chip s.pools).card

def Tame (s : State) : Request → Prop
  | .fib4Add info =>
    l3Setup chip = false ∨ fib4Check info.toFibEntry = true ∨ info.onSwitch = false ∨
      info.stored = false ∨ TameAdd chip s info
  | .fib4Del info =>
    -- the gateway has no routes, or one of them is to the destination and was resolved
    l3Setup chip = false ∨ fib4Check info = true ∨ s.routesVia info.gw4 = [] ∨
      ∃ route, (s.routesVia info.gw4).find? (fun r => r.isTo info) = some route ∧
        route.pr.id ≠ none ∧ route.pr.packetCntr ≠ none
  | .neighUpdate ipAddr _ =>
    l3Setup chip = false ∨ (s.unresolved ipAddr).length ≤ (routeSlots chip s.pools).card
  | .flowReplace cookie m stored =>
    (∃ f ∈ s.flows, f.cookie = cookie) ∨ stored = false ∨
      (freeSlots chip s.pools (addFlow m {})).Nonempty
  | .flowDestroy cookie =>
    -- the flow got no counter
    ∀ flow, s.flows.find? (fun f => f.cookie = cookie) = some flow →
      flow.rule.packetCntr = none

inductive Reachable : State → Prop where
  | initial (routerMac : Nat → Option (BitVec 48)) : Reachable (initial chip routerMac)
  | serve {s s' : State} {result : Option Errno} (h : Reachable s) (req : Request)
      (htame : Tame chip s req) (hserve : serve chip s req = some (result, s')) : Reachable s'

/-! ## The invariant -/

/-- The rule of a route asks for a destination address at most. -/
structure RouteRule (pr : PieRule) : Prop where
  isEgress : pr.isEgress = false
  isIpv6 : pr.isIpv6 = false
  sipM : pr.sipM = 0
  smac : pr.smac = 0
  dmac : pr.dmac = 0

structure Sound (s : State) : Prop where
  kept : Kept s.pools s.owners
  ids : Held (fun i => s.pools.routeUseBm i = true) (s.routes.map Route.id)
  routeRules : ∀ r ∈ s.routes, RouteRule r.pr
  flows : ∀ f ∈ s.flows, f.rule.id ≠ none

variable {chip}

variable {s : State} {pr : PieRule} {p q : Pools} {owners : List PieRule}

theorem Sound.right (h : Sound s) : Right s where
  ids := h.ids.nodup
  slots := h.kept.slots.nodup
  cntrs := h.kept.cntrs.nodup
  idUsed r hr := h.ids.used r.id (mem_map_of_mem hr)
  slotUsed pr hpr n hn :=
    ⟨h.kept.slots.used n (mem_filterMap.mpr ⟨pr, hpr, hn⟩), h.kept.rules pr hpr n hn⟩
  cntrUsed pr hpr c hc := (h.kept.cntrs.used c (mem_filterMap.mpr ⟨pr, hpr, hc⟩)).1
  flows := h.flows

theorem Sound.initial (chip : Chip) (routerMac : Nat → Option (BitVec 48)) :
    Sound (initial chip routerMac) where
  kept :=
    { regMutex := rfl
      slots := Held.nil _
      cntrs := Held.nil _
      split := fun _ h => by cases h
      rules := fun _ h => by cases h }
  ids := Held.nil _
  routeRules _ h := by cases h
  flows _ h := by cases h

/-! ## A neighbour is resolved -/

theorem RouteRule.fits (h : RouteRule pr) {t : Fin 5}
    (ht : pieTemplateFits { dipM := allOnes 32 } t = true) :
    pieTemplateFits pr t = true := by
  have hdip : pieTemplHas t .dip0 = true := by
    by_contra hnot
    have hones : allOnes 32 ≠ 0 := by decide
    simp [pieTemplateFits, hnot] at ht
  simp [pieTemplateFits, h.isIpv6, h.sipM, h.smac, h.dmac, hdip]

theorem RouteRule.subset_freeSlots (h : RouteRule pr) (chip : Chip) (p : Pools) :
    routeSlots chip p ⊆ freeSlots chip p pr := by
  intro n hn
  obtain ⟨hlt, hfree, hmin, hmax, j, hj, hfits⟩ := mem_freeSlots.mp hn
  refine mem_freeSlots.mpr ⟨hlt, hfree, ?_, ?_, j, hj, h.fits hfits⟩
  · rw [h.isEgress]
    exact hmin
  · rw [h.isEgress]
    exact hmax

theorem card_routeSlots_take (chip : Chip) (p q : Pools) {idx : Nat}
    (hpie : q.pieUseBm = update p.pieUseBm idx true) :
    (routeSlots chip p).card ≤ (routeSlots chip q).card + 1 := by
  have hsub : (routeSlots chip p).erase idx ⊆ routeSlots chip q := by
    intro n hn
    obtain ⟨hne, hn⟩ := Finset.mem_erase.mp hn
    obtain ⟨hlt, hfree, hfits⟩ := mem_freeSlots.mp hn
    refine mem_freeSlots.mpr ⟨hlt, ?_, hfits⟩
    rw [hpie, update_of_ne hne]
    exact hfree
  have hcard := Finset.card_le_card hsub
  have herase := Finset.pred_card_le_card_erase (s := routeSlots chip p) (a := idx)
  omega

theorem routeSlots_congr (chip : Chip) (hpie : q.pieUseBm = p.pieUseBm) :
    routeSlots chip q = routeSlots chip p := by
  ext n
  simp only [routeSlots, mem_freeSlots, hpie]

@[simp] theorem withCntr_packetCntr (pr : PieRule) (c : Option Nat) :
    (pr.withCntr c).packetCntr = c := by
  cases c <;> rfl

theorem freeSlots_withCntr (chip : Chip) (p : Pools) (pr : PieRule) (c : Option Nat) :
    freeSlots chip p (pr.withCntr c) = freeSlots chip p pr := by
  cases c <;> rfl

theorem RouteRule.withCntr (h : RouteRule pr) (c : Option Nat) :
    RouteRule (pr.withCntr c) := by
  cases c with
  | none => exact ⟨h.isEgress, h.isIpv6, h.sipM, h.smac, h.dmac⟩
  | some c => exact ⟨h.isEgress, h.isIpv6, h.sipM, h.smac, h.dmac⟩

theorem Kept.newRule (h : Kept p owners) (chip : Chip) (hroom : (freeSlots chip p pr).Nonempty) :
    ∃ c q idx j, packetCntrAlloc chip p = some (c, q) ∧ q.routeUseBm = p.routeUseBm ∧
      q.pieUseBm = p.pieUseBm ∧
      Kept { q with
        pieUseBm := update q.pieUseBm idx true
        rules := update q.rules idx
          (some { pr.withCntr c with valid := true, tid := j, id := some idx }) }
        ({ pr.withCntr c with valid := true, tid := j, id := some idx } :: owners) ∧
      pieRuleAdd chip q (pr.withCntr c) =
        (none, { pr.withCntr c with valid := true, tid := j, id := some idx },
          { q with
            pieUseBm := update q.pieUseBm idx true
            rules := update q.rules idx
              (some { pr.withCntr c with valid := true, tid := j, id := some idx }) }) := by
  obtain ⟨c, octet, packet, halloc, hkept, hcntr⟩ := h.takeCntr chip
  have hroom' : (freeSlots chip { p with octetCntrUseBm := octet, packetCntrUseBm := packet }
      (pr.withCntr c)).Nonempty := by
    rw [freeSlots_withCntr]
    exact hroom
  obtain ⟨idx, j, hfind⟩ := pieFindSlot_isSome hroom'
  obtain ⟨-, hfree, -⟩ := mem_freeSlots.mp (pieFindSlot_some hfind)
  refine ⟨c, _, idx, j, halloc, rfl, rfl, hkept.takeSlot hfree rfl ?_, ?_⟩
  · simpa using hcntr
  · simp only [pieRuleAdd, hfind]

/-- A rule without a slot holds nothing. -/
theorem Kept.drop (h : Kept p (pr :: owners)) (hid : pr.id = none) : Kept p owners where
  regMutex := h.regMutex
  slots := by
    have hslots := h.slots
    rw [filterMap_cons_none hid] at hslots
    exact hslots
  cntrs := by
    have hcntrs := h.cntrs
    have hcntr : pr.cntr = none := by simp [PieRule.cntr, hid]
    rw [filterMap_cons_none hcntr] at hcntrs
    exact hcntrs
  split := h.split
  rules pr' hpr' := h.rules pr' (mem_cons_of_mem pr hpr')

theorem Kept.addEmpty (h : Kept p owners) (hid : pr.id = none) : Kept p (pr :: owners) where
  regMutex := h.regMutex
  slots := by
    rw [filterMap_cons_none hid]
    exact h.slots
  cntrs := by
    have hcntr : pr.cntr = none := by simp [PieRule.cntr, hid]
    rw [filterMap_cons_none hcntr]
    exact h.cntrs
  split := h.split
  rules pr' hpr' n hn := by
    rcases mem_cons.mp hpr' with rfl | hpr'
    · rw [hid] at hn
      cases hn
    · exact h.rules pr' hpr' n hn

/-- One route is updated; one that has no rule yet needs a slot. -/
theorem updateRoute_kept {others : List PieRule} {r : Route} (h : Kept p (r.pr :: others))
    (hrule : RouteRule r.pr) (mac : BitVec 48)
    (hroom : r.pr.id = none → 1 ≤ (routeSlots chip p).card) :
    ∃ r' q, updateRoute chip p mac r = some (r', q) ∧ Kept q (r'.pr :: others) ∧
      RouteRule r'.pr ∧ r'.id = r.id ∧ q.routeUseBm = p.routeUseBm ∧
      (routeSlots chip p).card ≤
        (routeSlots chip q).card + (if r.pr.id = none then 1 else 0) := by
  -- the address of the next hop is none of these resources
  obtain ⟨p', hp', hkept, hroute, hpie⟩ : ∃ p', (if chip.family = .rtl930x then
      { p with egressMac := update p.egressMac r.id mac } else p) = p' ∧
      Kept p' (r.pr :: others) ∧ p'.routeUseBm = p.routeUseBm ∧ p'.pieUseBm = p.pieUseBm := by
    refine ⟨_, rfl, ?_⟩
    split
    · exact ⟨h.congr rfl rfl rfl rfl rfl, rfl, rfl⟩
    · exact ⟨h, rfl, rfl⟩
  have hrule' : RouteRule r.rule :=
    ⟨hrule.isEgress, hrule.isIpv6, hrule.sipM, hrule.smac, hrule.dmac⟩
  have hsame : r.rule.id = r.pr.id := rfl
  simp only [updateRoute, hp']
  cases hid : r.pr.id with
  | none =>
    rw [hid] at hsame
    have hone := hroom hid
    rw [← routeSlots_congr chip hpie] at hone ⊢
    have hroom' : (freeSlots chip p' r.rule).Nonempty :=
      (Finset.card_pos.mp hone).mono (hrule'.subset_freeSlots chip p')
    obtain ⟨c, q, idx, j, halloc, hqroute, hqpie, hq, hadd⟩ := (hkept.drop hid).newRule chip hroom'
    simp only [hsame, halloc, hadd]
    refine ⟨_, _, rfl, hq, ?_, rfl, hqroute.trans hroute, ?_⟩
    · have hcntr := hrule'.withCntr c
      exact ⟨hcntr.isEgress, hcntr.isIpv6, hcntr.sipM, hcntr.smac, hcntr.dmac⟩
    · simp only [if_true]
      have htake : update q.pieUseBm idx true = update p'.pieUseBm idx true := by
        rw [hqpie]
      exact card_routeSlots_take chip p' _ htake
  | some idx =>
    rw [hid] at hsame
    simp only [hsame]
    refine ⟨_, _, rfl, hkept.rewrite hid hsame rfl, hrule', rfl, hroute, ?_⟩
    have hcard := routeSlots_congr chip (p := p) (q := pieRuleWrite p' idx r.rule) hpie
    simp [hcard]

/-- The routes via a gateway are updated; there is a slot for each that has no rule yet. -/
theorem updateRoutes_kept (gw : BitVec 32) (mac : BitVec 48) {rs : List Route}
    {others : List PieRule} (h : Kept p (rs.map Route.pr ++ others))
    (hrules : ∀ r ∈ rs, RouteRule r.pr)
    (hroom : ((rs.filter fun r => r.gwIp = gw).filter fun r => r.pr.id = none).length ≤
      (routeSlots chip p).card) :
    ∃ rs' q, updateRoutes chip gw mac p rs = some (rs', q) ∧
      Kept q (rs'.map Route.pr ++ others) ∧ (∀ r ∈ rs', RouteRule r.pr) ∧
      rs'.map Route.id = rs.map Route.id ∧ q.routeUseBm = p.routeUseBm := by
  induction rs generalizing p others with
  | nil => exact ⟨[], p, rfl, h, hrules, rfl, rfl⟩
  | cons r rs ih =>
    have hrules' : ∀ r ∈ rs, RouteRule r.pr := fun r' hr' => hrules r' (mem_cons_of_mem r hr')
    have hmiddle : ∀ (pr : PieRule) (l : List PieRule),
        (pr :: (l ++ others)).Perm (l ++ pr :: others) := fun pr l => perm_middle.symm
    by_cases hgw : r.gwIp = gw
    · simp only [filter_cons, hgw, decide_true, if_true] at hroom
      have hone : r.pr.id = none → 1 ≤ (routeSlots chip p).card := by
        intro hid
        simp only [hid, decide_true, if_true, length_cons] at hroom
        omega
      obtain ⟨r', q, hr', hq, hrule', hid', huse', hcard⟩ :=
        updateRoute_kept h (hrules r mem_cons_self) mac hone
      have hrest : ((rs.filter fun r => r.gwIp = gw).filter fun r => r.pr.id = none).length ≤
          (routeSlots chip q).card := by
        by_cases hid : r.pr.id = none
        · simp only [hid, decide_true, if_true, length_cons] at hroom hcard
          omega
        · simp only [hid, decide_false, false_eq_true, if_false] at hroom hcard
          omega
      obtain ⟨rs', q', hrs', hq', hrules'', hids, huse⟩ :=
        ih (hq.perm (hmiddle r'.pr (rs.map Route.pr))) hrules' hrest
      refine ⟨r' :: rs', q', ?_, hq'.perm (hmiddle r'.pr (rs'.map Route.pr)).symm, ?_, ?_, ?_⟩
      · simp only [updateRoutes, hgw, if_true, hr', hrs', map_some]
      · exact forall_mem_cons.mpr ⟨hrule', hrules''⟩
      · rw [map_cons, map_cons, hids, hid']
      · rw [huse, huse']
    · simp only [filter_cons, hgw, decide_false, false_eq_true, if_false] at hroom
      obtain ⟨rs', q, hrs', hq, hrules'', hids, huse⟩ :=
        ih (h.perm (hmiddle r.pr (rs.map Route.pr))) hrules' hroom
      refine ⟨r :: rs', q, ?_, hq.perm (hmiddle r.pr (rs'.map Route.pr)).symm, ?_, ?_, huse⟩
      · simp only [updateRoutes, hgw, if_false, hrs', map_some]
      · exact forall_mem_cons.mpr ⟨hrules r mem_cons_self, hrules''⟩
      · rw [map_cons, map_cons, hids]

theorem Sound.nexthopUpdate (chip : Chip) (h : Sound s) (gw : BitVec 32) (mac : BitVec 48)
    (hroom : (s.unresolved gw).length ≤ (routeSlots chip s.pools).card) :
    ∃ result s', l3NexthopUpdate chip s gw mac = some (result, s') ∧
      (result ≠ none → s' = s) ∧ Sound s' := by
  unfold l3NexthopUpdate
  split
  · exact ⟨_, _, rfl, fun _ => rfl, h⟩
  · obtain ⟨rs, q, hrs, hq, hrules, hids, huse⟩ :=
      updateRoutes_kept gw mac h.kept h.routeRules hroom
    rw [hrs]
    refine ⟨none, _, rfl, fun hne => absurd rfl hne, hq, ?_, hrules, h.flows⟩
    simp only [hids, huse]
    exact h.ids

/-! ## Routes come and go -/

/-- The id a new route gets. -/
theorem Sound.newId (h : Sound s) {base size : Nat} (hfree : IdFree s base size) :
    findFirstZeroBit (fun i => s.pools.routeUseBm (base + i)) size + base ∉
      s.routes.map Route.id := by
  rcases findFirstZeroBit_cases (fun i => s.pools.routeUseBm (base + i)) size with
    ⟨-, hbit⟩ | ⟨heq, hall⟩
  · refine h.ids.not_mem ?_
    rw [Nat.add_comm, hbit]
    exact Bool.false_ne_true
  · rcases hfree with ⟨i, hi, hbit⟩ | hnone
    · rw [hall i hi] at hbit
      cases hbit
    · rw [heq]
      intro hmem
      obtain ⟨r, hr, hid⟩ := mem_map.mp hmem
      exact hnone r hr (by omega)

theorem Sound.addRoute (h : Sound s) {route : Route} (hpr : route.pr = { id := none })
    (hid : route.id ∉ s.routes.map Route.id) (hq : Kept q s.owners)
    (huse : q.routeUseBm = update s.pools.routeUseBm route.id true) :
    Sound { s with pools := q, routes := route :: s.routes } where
  kept := hq.addEmpty (by rw [hpr])
  ids := by
    refine ⟨nodup_cons.mpr ⟨hid, h.ids.nodup⟩, ?_⟩
    intro i hi
    simp only [huse]
    rcases mem_cons.mp hi with rfl | hi
    · exact update_self _ _ _
    · rw [update_apply]
      split
      · rfl
      · exact h.ids.used i hi
  routeRules := by
    refine forall_mem_cons.mpr ⟨?_, h.routeRules⟩
    rw [hpr]
    exact ⟨rfl, rfl, rfl, rfl, rfl⟩
  flows := h.flows

/-- A route of either kind is allocated. -/
theorem alloc_eq (chip : Chip) (hmutex : p.regMutex = false) (info : FibAdd)
    (hstored : info.stored = true) :
    ∃ base size host,
      (if info.dstLen = 32 ∧ chip.family = .rtl930x then (base = maxRoutes ∧ size = maxHostRoutes)
        else (base = 0 ∧ size = maxRoutes)) ∧
      (if info.dstLen = 32 ∧ chip.family = .rtl930x then hostRouteAlloc else routeAlloc)
        p info.gw4 info.stored =
      some (some (
        { id := findFirstZeroBit (fun i => p.routeUseBm (base + i)) size + base
          gwIp := info.gw4
          isHostRoute := host },
        let idx := findFirstZeroBit (fun i => p.routeUseBm (base + i)) size + base
        { p with routeUseBm := update p.routeUseBm idx true })) := by
  by_cases hhost : info.dstLen = 32 ∧ chip.family = .rtl930x
  · refine ⟨maxRoutes, maxHostRoutes, true, ?_, ?_⟩
    · rw [if_pos hhost]
      exact ⟨rfl, rfl⟩
    · simp [if_pos hhost, hostRouteAlloc, hmutex, hstored]
  · refine ⟨0, maxRoutes, false, ?_, ?_⟩
    · rw [if_neg hhost]
      exact ⟨rfl, rfl⟩
    · simp [if_neg hhost, routeAlloc, hmutex, hstored]

theorem egressIntfScan_congr (hmac : q.egressMac = p.egressMac) (mac : BitVec 48) (is : List Nat)
    (freeMac : Option Nat) :
    egressIntfScan q mac is freeMac = egressIntfScan p mac is freeMac := by
  induction is generalizing freeMac with
  | nil => rfl
  | cons i is ih => simp only [egressIntfScan, hmac, ih]

theorem allocEgressIntf_kept (h : Kept p owners) {mac : BitVec 48}
    (hfree : egressIntfScan p mac (List.range maxSmacs) none ≠ (none, none)) :
    ∃ q, allocEgressIntf p mac = some (true, q) ∧ Kept q owners ∧
      q.routeUseBm = p.routeUseBm ∧ q.pieUseBm = p.pieUseBm := by
  rw [allocEgressIntf, if_neg (by simp [h.regMutex])]
  split
  · exact ⟨p, rfl, h, rfl, rfl⟩
  · rename_i hscan
    exact absurd hscan hfree
  · exact ⟨_, rfl, h.congr rfl rfl rfl rfl rfl, rfl, rfl⟩

theorem allocInterface_kept (h : Kept p owners) {mac : BitVec 48}
    (hfree : chip.family = .rtl930x → InterfaceFree p mac) :
    ∃ q, allocInterface chip p mac = some (true, q) ∧ Kept q owners ∧
      q.routeUseBm = p.routeUseBm ∧ q.pieUseBm = p.pieUseBm := by
  unfold allocInterface
  split
  · rename_i hfamily
    obtain ⟨hrouter, hegress⟩ := hfree hfamily
    obtain ⟨i, hslot⟩ := ne_none_iff_exists'.mp hrouter
    have hrouterMac : allocRouterMac p mac =
        some (true, { p with routerMac := update p.routerMac i (some mac) }) := by
      rw [allocRouterMac, if_neg (by simp [h.regMutex]), hslot]
    have hkept : Kept { p with routerMac := update p.routerMac i (some mac) } owners :=
      h.congr rfl rfl rfl rfl rfl
    rw [hrouterMac]
    exact allocEgressIntf_kept hkept fun hscan =>
      hegress ((egressIntfScan_congr rfl _ _ _).symm.trans hscan)
  · exact ⟨p, rfl, h, rfl, rfl⟩

theorem Sound.fib4Add (h : Sound s) (info : FibAdd)
    (htame : fib4Check info.toFibEntry = true ∨ info.onSwitch = false ∨ info.stored = false ∨
      TameAdd chip s info) :
    ∃ result s', fib4Add chip s info = some (result, s') ∧ (result ≠ none → s' = s) ∧
      Sound s' := by
  unfold Offload.fib4Add
  split
  · exact ⟨_, _, rfl, fun _ => rfl, h⟩
  · rename_i hcheck
    split
    · exact ⟨_, _, rfl, fun _ => rfl, h⟩
    · rename_i hswitch
      cases hstored : info.stored with
      | false =>
        refine ⟨some .enospc, s, ?_, fun _ => rfl, h⟩
        by_cases hhost : info.dstLen = 32 ∧ chip.family = .rtl930x
        · simp [if_pos hhost, hostRouteAlloc, h.kept.regMutex]
        · simp [if_neg hhost, routeAlloc, h.kept.regMutex]
      | true =>
        have ht : TameAdd chip s info := by
          have hswitch' : info.onSwitch = true := by simpa using hswitch
          simpa [hcheck, hswitch', hstored] using htame
        obtain ⟨base, size, host, hkind, halloc⟩ := alloc_eq chip h.kept.regMutex info hstored
        have hfree : IdFree s base size := by
          have hid := ht.id
          split at hid <;> rename_i hhost
          · rw [if_pos hhost] at hkind
            rw [hkind.1, hkind.2]
            exact hid
          · rw [if_neg hhost] at hkind
            rw [hkind.1, hkind.2]
            exact hid
        have hnew := h.newId hfree
        rw [hstored] at halloc
        simp only at halloc ⊢
        rw [halloc]
        generalize findFirstZeroBit (fun i => s.pools.routeUseBm (base + i)) size + base = idx at hnew
        have hkept : Kept { s.pools with
            routeUseBm := update s.pools.routeUseBm idx true } s.owners :=
          h.kept.congr rfl rfl rfl rfl rfl
        have hinterface : chip.family = .rtl930x → InterfaceFree { s.pools with
            routeUseBm := update s.pools.routeUseBm idx true } info.devAddr := by
          intro hfamily
          obtain ⟨hrouter, hegress⟩ := ht.interface hfamily
          exact ⟨hrouter, fun hscan => hegress ((egressIntfScan_congr rfl _ _ _).symm.trans hscan)⟩
        obtain ⟨q, hq, hqkept, huse, hpie⟩ := allocInterface_kept hkept hinterface
        simp only [hq]
        have hadd : Sound { s with
            pools := q
            routes := { gwIp := info.gw4, dstIp := info.dst, prefixLen := info.dstLen
                        isHostRoute := host, id := idx } :: s.routes } :=
          h.addRoute rfl hnew hqkept huse
        cases hneigh : info.neigh with
        | none => exact ⟨none, _, rfl, fun hne => absurd rfl hne, hadd⟩
        | some mac =>
          by_cases hgw : info.gw4 = 0
          · simp only [if_neg (not_not.mpr hgw)]
            exact ⟨none, _, rfl, fun hne => absurd rfl hne, hadd⟩
          · have hslots : routeSlots chip q = routeSlots chip s.pools := routeSlots_congr chip hpie
            have hroom : (State.unresolved { s with
                pools := q
                routes := { gwIp := info.gw4, dstIp := info.dst, prefixLen := info.dstLen
                            isHostRoute := host, id := idx } :: s.routes } info.gw4).length ≤
                (routeSlots chip q).card := by
              rw [hslots]
              refine le_trans (le_of_eq ?_) (ht.slots hgw (by simp [hneigh]))
              simp [State.unresolved, State.routesVia]
            obtain ⟨result, s', hs', -, hsound⟩ := hadd.nexthopUpdate chip info.gw4 mac hroom
            refine ⟨none, s', ?_, fun hne => absurd rfl hne, hsound⟩
            simp only [hgw, ne_eq, not_false_eq_true, if_true, hs', map_some]

theorem Sound.removeRoute (h : Sound s) {route : Route} (hroute : route ∈ s.routes) :
    Sound (s.removeRoute route) where
  kept := by
    have hperm : s.owners.Perm (route.pr :: (s.removeRoute route).owners) := by
      have hroutes := (perm_cons_erase hroute).map Route.pr
      exact hroutes.append_right (s.flows.map Flow.rule)
    exact (h.kept.perm hperm).giveRule.congr rfl rfl rfl rfl rfl
  ids := by
    have hids := h.ids.perm ((perm_cons_erase hroute).map Route.id)
    refine Held.give (t := route.id) hids ?_
    intro i hne hi
    show update s.pools.routeUseBm route.id false i = true
    rw [update_of_ne hne]
    exact hi
  routeRules r hr := h.routeRules r (mem_of_mem_erase hr)
  flows := h.flows

theorem Sound.removeFlow (h : Sound s) {flow : Flow} (hflow : flow ∈ s.flows) :
    Sound (s.removeFlow flow) where
  kept := by
    have hperm : s.owners.Perm (flow.rule :: (s.removeFlow flow).owners) := by
      have hflows := (perm_cons_erase hflow).map Flow.rule
      exact (hflows.append_left (s.routes.map Route.pr)).trans perm_middle
    exact (h.kept.perm hperm).giveRule
  ids := h.ids
  routeRules := h.routeRules
  flows f hf := h.flows f (mem_of_mem_erase hf)

theorem update_eq_ite {β : Type} (f : Nat → β) (i : Nat) (v : β) :
    update f i v = fun n => if some i = some n then v else f n := by
  funext n
  simp [update_apply, eq_comm]

/-- A rule and its counter are given back. -/
theorem pieRuleRm_eq (hmutex : p.regMutex = false) {idx : Nat} (hid : pr.id = some idx) :
    pieRuleRm p pr = some { p with
      rules := fun n => if pr.id = some n then none else p.rules n
      pieUseBm := fun n => if pr.id = some n then false else p.pieUseBm n } := by
  simp only [pieRuleRm, hmutex, false_eq_true, if_false, hid, update_eq_ite]

theorem Sound.fib4Del (h : Sound s) (info : FibEntry)
    (htame : fib4Check info = true ∨ s.routesVia info.gw4 = [] ∨
      ∃ route, (s.routesVia info.gw4).find? (fun r => r.isTo info) = some route ∧
        route.pr.id ≠ none ∧ route.pr.packetCntr ≠ none) :
    ∃ result s', fib4Del s info = some (result, s') ∧ (result ≠ none → s' = s) ∧
      (result = none → fib4Check info = false →
        ∃ route ∈ s.routes, route.gwIp = info.gw4 ∧ route.isTo info = true ∧
          s' = s.removeRoute route) ∧ Sound s' := by
  unfold Offload.fib4Del
  cases hcheck : fib4Check info with
  | true =>
    refine ⟨none, s, rfl, fun _ => rfl, ?_, h⟩
    intro _ hfalse
    cases hfalse
  | false =>
    simp only [false_eq_true, if_false]
    cases hlast : (s.routesVia info.gw4).getLast? with
    | none =>
      refine ⟨some .enoent, s, rfl, fun _ => rfl, ?_, h⟩
      intro hnone
      cases hnone
    | some last =>
      have hne : s.routesVia info.gw4 ≠ [] := by
        intro hnil
        rw [hnil] at hlast
        cases hlast
      obtain ⟨route, hfind, hid, hcntr⟩ : ∃ route,
          (s.routesVia info.gw4).find? (fun r => r.isTo info) = some route ∧
          route.pr.id ≠ none ∧ route.pr.packetCntr ≠ none := by
        simpa [hcheck, hne] using htame
      obtain ⟨idx, hidx⟩ := ne_none_iff_exists'.mp hid
      obtain ⟨c, hc⟩ := ne_none_iff_exists'.mp hcntr
      have hvia := mem_of_find?_eq_some hfind
      obtain ⟨hroute, hgw⟩ := mem_filter.mp hvia
      have hto := find?_some hfind
      have hrm := pieRuleRm_eq (p := { s.pools with
        packetCntrUseBm := update s.pools.packetCntrUseBm c true }) h.kept.regMutex hidx
      have hcntr' : route.pr.cntr = some c := by simp [PieRule.cntr, hidx, hc]
      simp only [hfind, getD_some, hc, hrm]
      refine ⟨none, s.removeRoute route, ?_, fun hne => absurd rfl hne, ?_, h.removeRoute hroute⟩
      · simp only [State.removeRoute, Pools.giveRule, hcntr', update_eq_ite]
      · exact fun _ _ => ⟨route, hroute, by simpa using hgw, hto, rfl⟩

/-! ## Flows come and go -/

theorem Sound.configureFlower (h : Sound s) (cookie : Nat) (m : FlowMatch) (stored : Bool)
    (htame : (∃ f ∈ s.flows, f.cookie = cookie) ∨ stored = false ∨
      (freeSlots chip s.pools (addFlow m {})).Nonempty) :
    ∃ result s', configureFlower chip s cookie m stored = some (result, s') ∧
      (result ≠ none → s' = s) ∧ Sound s' := by
  unfold Offload.configureFlower
  split
  · exact ⟨_, _, rfl, fun _ => rfl, h⟩
  · rename_i hnew
    cases hstored : stored with
    | false => exact ⟨_, _, rfl, fun _ => rfl, h⟩
    | true =>
      have hroom : (freeSlots chip s.pools (addFlow m {})).Nonempty := by
        have hnot : ¬ ∃ f ∈ s.flows, f.cookie = cookie := by simpa using hnew
        simpa [hnot, hstored] using htame
      obtain ⟨c, q, idx, j, halloc, huse, -, hq, hadd⟩ := h.kept.newRule chip hroom
      simp only [Bool.not_true, false_eq_true, if_false, halloc, hadd]
      refine ⟨none, _, rfl, fun hne => absurd rfl hne, hq.perm perm_middle.symm, ?_,
        h.routeRules, ?_⟩
      · simp only [huse]
        exact h.ids
      · exact forall_mem_cons.mpr ⟨by simp, h.flows⟩

theorem Sound.deleteFlower (h : Sound s) (cookie : Nat)
    (htame : ∀ flow, s.flows.find? (fun f => f.cookie = cookie) = some flow →
      flow.rule.packetCntr = none) :
    ∃ result s', deleteFlower s cookie = some (result, s') ∧ (result ≠ none → s' = s) ∧
      (result = none → ∃ flow ∈ s.flows, flow.cookie = cookie ∧ s' = s.removeFlow flow) ∧
      Sound s' := by
  unfold Offload.deleteFlower
  cases hfind : s.flows.find? fun f => f.cookie = cookie with
  | none =>
    refine ⟨some .einval, s, rfl, fun _ => rfl, ?_, h⟩
    intro hnone
    cases hnone
  | some flow =>
    have hflow := mem_of_find?_eq_some hfind
    have hcookie := find?_some hfind
    obtain ⟨idx, hidx⟩ := ne_none_iff_exists'.mp (h.flows flow hflow)
    have hcntr : flow.rule.cntr = none := by simp [PieRule.cntr, hidx, htame flow hfind]
    simp only [pieRuleRm_eq h.kept.regMutex hidx, map_some]
    refine ⟨none, s.removeFlow flow, ?_, fun hne => absurd rfl hne, ?_, h.removeFlow hflow⟩
    · simp [State.removeFlow, Pools.giveRule, hcntr]
    · exact fun _ => ⟨flow, hflow, by simpa using hcookie, rfl⟩

/-! ## Every run -/

/-- One tame command keeps the invariant and its promise. -/
theorem Sound.serve (h : Sound s) (req : Request) (htame : Tame chip s req) :
    Promise chip s req ∧ ∀ result s', serve chip s req = some (result, s') → Sound s' := by
  -- a command that is left alone
  have hskip : ∀ result s', some ((none : Option Errno), s) = some (result, s') → Sound s' := by
    intro result s' heq
    cases heq
    exact h
  cases req with
  | fib4Add info =>
    cases hl3 : l3Setup chip with
    | false =>
      simp only [Promise, Offload.serve, hl3, false_eq_true, if_false]
      exact ⟨⟨none, s, rfl, fun hne => absurd rfl hne, trivial⟩, hskip⟩
    | true =>
      obtain ⟨result, s', hs', hfail, hsound⟩ :=
        h.fib4Add info (by simpa [Tame, hl3] using htame)
      simp only [Promise, Offload.serve, hl3, if_true, hs']
      exact ⟨⟨result, s', rfl, hfail, trivial⟩, by rintro _ _ ⟨⟩; exact hsound⟩
  | fib4Del info =>
    cases hl3 : l3Setup chip with
    | false =>
      simp only [Promise, Offload.serve, hl3, false_eq_true, if_false]
      exact ⟨⟨none, s, rfl, fun hne => absurd rfl hne, fun _ hfalse => absurd hfalse (by simp)⟩,
        hskip⟩
    | true =>
      obtain ⟨result, s', hs', hfail, hdone, hsound⟩ :=
        h.fib4Del info (by simpa [Tame, hl3] using htame)
      simp only [Promise, Offload.serve, hl3, if_true, hs']
      exact ⟨⟨result, s', rfl, hfail, fun hnone _ => hdone hnone⟩, by rintro _ _ ⟨⟩; exact hsound⟩
  | neighUpdate ipAddr mac =>
    cases hl3 : l3Setup chip with
    | false =>
      simp only [Promise, Offload.serve, hl3, false_eq_true, if_false]
      exact ⟨⟨none, s, rfl, fun hne => absurd rfl hne, trivial⟩, hskip⟩
    | true =>
      obtain ⟨result, s', hs', hfail, hsound⟩ :=
        h.nexthopUpdate chip ipAddr mac (by simpa [Tame, hl3] using htame)
      simp only [Promise, Offload.serve, hl3, if_true, hs']
      exact ⟨⟨result, s', rfl, hfail, trivial⟩, by rintro _ _ ⟨⟩; exact hsound⟩
  | flowReplace cookie m stored =>
    obtain ⟨result, s', hs', hfail, hsound⟩ := h.configureFlower cookie m stored htame
    simp only [Promise, Offload.serve, hs']
    exact ⟨⟨result, s', rfl, hfail, trivial⟩, by rintro _ _ ⟨⟩; exact hsound⟩
  | flowDestroy cookie =>
    obtain ⟨result, s', hs', hfail, hdone, hsound⟩ := h.deleteFlower cookie htame
    simp only [Promise, Offload.serve, hs']
    exact ⟨⟨result, s', rfl, hfail, hdone⟩, by rintro _ _ ⟨⟩; exact hsound⟩

theorem Reachable.sound (h : Reachable chip s) : Sound s := by
  induction h with
  | initial routerMac => exact Sound.initial chip routerMac
  | serve _ req htame hserve ih => exact (ih.serve req htame).2 _ _ hserve

def serveAll (chip : Chip) : State → List Request → Option State
  | s, [] => some s
  | s, req :: reqs =>
    match serve chip s req with
    | none => none
    | some (_, s) => serveAll chip s reqs

def plainChip : Chip where
  family := .rtl838x
  l3Offload := false
  tmplteCtrl _ _ := 2

def pendingRoute : FibAdd where
  broadcast := false
  dst := 0xc0000200
  dstLen := 24
  gw4 := 0xc6336401
  onSwitch := true
  devAddr := 0x020000000001
  stored := true
  neigh := none

def ipv4Flow : FlowMatch where
  control := true
  basic := true
  ethAddrs := none
  ipv4Addrs := some (0xc0000201, allOnes 32, 0)
  ipv6Addrs := none

/-- A flow has counter 0; a route comes and goes before its neighbour is known. -/
def pendingRun : List Request :=
  [.flowReplace 1 ipv4Flow true, .fib4Add pendingRoute, .fib4Del pendingRoute.toFibEntry]

end LibWrt.Rtl83xx.Offload
