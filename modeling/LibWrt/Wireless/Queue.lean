/-
LibWrt.Wireless.Queue — no device is stuck, and no script is lost.

A device that is set up or torn down has its script queued or running: `Queued`,
which says so of all devices but some: that whose script has just ended, and
those whose teardown has thrown. A slot is that of its device alone, as those
that are not down are in the table. No teardown throws if no device itself has
an interface.
-/
import LibWrt.Wireless.Steps

namespace LibWrt.Wireless

open Option State

def Pending (s : State) (op : Op) (i : Nat) : Prop :=
  (∃ name slot, s.handler.get? name = some slot ∧ slot.wdev = i ∧ slot.op = op) ∨
    ∃ c, s.cur = some c ∧ c.wdev = i ∧ c.op = op

/-- What is known of the devices and the queue; the scripts of `stuck` may be missing. -/
structure Queued (stuck : Set Nat) (s : State) : Prop where
  slot : ∀ name slot, s.handler.get? name = some slot → (s.wdev slot.wdev).name = name
  setup : ∀ i ∉ stuck, (s.wdev i).state = .setup → Pending s .setup i
  teardown : ∀ i ∉ stuck, (s.wdev i).state = .teardown → Pending s .teardown i
  torn : ∀ i, Pending s .teardown i → (s.wdev i).state = .teardown
  busy : ∀ i op, Pending s op i → (s.wdev i).state ≠ .down
  solo : ∀ c, s.cur = some c → c.op = .teardown →
    ∀ name slot, s.handler.get? name = some slot → slot.wdev ≠ c.wdev
  table : ∀ name i, s.devices.get? name = some i → (s.wdev i).name = name ∧ i < s.next
  listed : ∀ i, (s.wdev i).state ≠ .down → s.devices.get? (s.wdev i).name = some i
  named : ∀ i, (s.wdev i).data.name = (s.wdev i).name
  fresh : ∀ i, s.next ≤ i → (s.wdev i).state = .down

namespace Queued

variable {s t : State} {x : Set Nat} {i : Nat}

theorem frame (h : Queued x s) (hdevices : t.devices = s.devices) (hnext : t.next = s.next)
    (hhandler : t.handler = s.handler) (hcur : t.cur = s.cur)
    (hname : ∀ i, (t.wdev i).name = (s.wdev i).name)
    (hdata : ∀ i, (t.wdev i).data.name = (t.wdev i).name)
    (hstate : ∀ i, (t.wdev i).state = (s.wdev i).state) : Queued x t := by
  have hpending : ∀ op i, Pending t op i ↔ Pending s op i := by
    intro op i
    rw [Pending, Pending, hhandler, hcur]
  constructor
  · simpa only [hhandler, hname] using h.slot
  · simpa only [hpending, hstate] using h.setup
  · simpa only [hpending, hstate] using h.teardown
  · simpa only [hpending, hstate] using h.torn
  · simpa only [hpending, hstate] using h.busy
  · simpa only [hhandler, hcur] using h.solo
  · simpa only [hdevices, hnext, hname] using h.table
  · simpa only [hdevices, hstate, hname] using h.listed
  · exact hdata
  · simpa only [hnext, hstate] using h.fresh

variable {w : Wdev}

/-- One device is changed, but for its name and state. -/
theorem put (h : Queued x s) (ht : t.wdev = (s.put i w).wdev) (hname : w.name = (s.wdev i).name)
    (hdata : w.data.name = w.name) (hstate : w.state = (s.wdev i).state)
    (hdevices : t.devices = s.devices) (hnext : t.next = s.next) (hhandler : t.handler = s.handler)
    (hcur : t.cur = s.cur) : Queued x t := by
  refine h.frame hdevices hnext hhandler hcur ?_ ?_ ?_ <;> intro j <;>
    rw [ht, wdev_put] <;> split_ifs with hj
  · rw [hname, hj]
  · rfl
  · exact hdata
  · exact h.named j
  · rw [hstate, hj]
  · rfl

theorem eq_of_name (h : Queued x s) {j : Nat} (hi : s.devices.get? (s.wdev i).name = some i)
    (hj : (s.wdev j).state ≠ .down) (hname : (s.wdev j).name = (s.wdev i).name) : j = i := by
  have := h.listed j hj
  rw [hname, hi, some.injEq] at this
  exact this.symm

theorem get?_of_listed (h : Queued x s) (hlisted : s.Listed i) :
    s.devices.get? (s.wdev i).name = some i := by
  obtain ⟨name, hname⟩ := hlisted
  rw [(h.table name i hname).1]
  exact hname

/-- The script of the device, which is excepted, is queued. -/
theorem enqueue (h : Queued (insert i x) s) (time : Nat) {op : Op} (ht : t.wdev = (s.put i w).wdev)
    (hi : s.devices.get? (s.wdev i).name = some i) (hname : w.name = (s.wdev i).name)
    (hdata : w.data.name = w.name)
    (hop : op = .setup ∧ w.state = .setup ∨ op = .teardown ∧ w.state = .teardown)
    (hfree : ∀ c, s.cur = some c → c.wdev = i → c.op = .setup) (hdevices : t.devices = s.devices)
    (hnext : t.next = s.next)
    (hhandler : t.handler = s.handler.set w.name { op := op, wdev := i, time := time })
    (hcur : t.cur = s.cur) : Queued x t := by
  have hself : t.wdev i = w := by rw [ht, wdev_put_self]
  have hne : ∀ j, j ≠ i → t.wdev j = s.wdev j := fun j hj => by rw [ht, wdev_put_ne _ _ _ hj]
  have hw : w.state ≠ .down := by rcases hop with ⟨-, h⟩ | ⟨-, h⟩ <;> simp [h]
  -- A slot of another device is not overwritten, as it would be in the table.
  have hslot : ∀ name slot, t.handler.get? name = some slot ↔
      (name = w.name ∧ slot = { op := op, wdev := i, time := time }) ∨
        (s.handler.get? name = some slot ∧ slot.wdev ≠ i) := by
    intro name slot
    rw [hhandler, Dict.get?_set]
    split_ifs with heq
    · constructor
      · intro hsome
        exact .inl ⟨heq, (some.inj hsome).symm⟩
      · rintro (⟨-, rfl⟩ | ⟨hsome, hj⟩)
        · rfl
        · have hnamej := h.slot name slot hsome
          have hbusy := h.busy slot.wdev slot.op (.inl ⟨name, slot, hsome, rfl, rfl⟩)
          exact absurd (h.eq_of_name hi hbusy (by rw [hnamej, heq, hname])) hj
    · constructor
      · intro hsome
        refine .inr ⟨hsome, fun hj => heq ?_⟩
        have hnamej := h.slot name slot hsome
        rw [hname, ← hj, hnamej]
      · rintro (⟨heq', -⟩ | ⟨hsome, -⟩)
        · exact absurd heq' heq
        · exact hsome
  have hpend : ∀ op' j, j ≠ i → (Pending t op' j ↔ Pending s op' j) := by
    intro op' j hj
    simp only [Pending, hslot, hcur]
    constructor
    · rintro (⟨name, slot, ⟨-, rfl⟩ | ⟨hsome, -⟩, hwdev, hop'⟩ | hc)
      · exact absurd hwdev.symm hj
      · exact .inl ⟨name, slot, hsome, hwdev, hop'⟩
      · exact .inr hc
    · rintro (⟨name, slot, hsome, hwdev, hop'⟩ | hc)
      · exact .inl ⟨name, slot, .inr ⟨hsome, by rw [hwdev]; exact hj⟩, hwdev, hop'⟩
      · exact .inr hc
  have hpendi : Pending t op i := .inl ⟨w.name, _, (hslot _ _).mpr (.inl ⟨rfl, rfl⟩), rfl, rfl⟩
  constructor
  · intro name slot hsome
    rcases (hslot name slot).mp hsome with ⟨rfl, rfl⟩ | ⟨hsome, hj⟩
    · simp only [hself]
    · rw [hne _ hj]
      exact h.slot name slot hsome
  · intro j hx hstate
    by_cases hj : j = i
    · subst hj
      rw [hself] at hstate
      rcases hop with ⟨rfl, -⟩ | ⟨-, hdown⟩
      · exact hpendi
      · rw [hdown] at hstate
        cases hstate
    · rw [hne j hj] at hstate
      exact (hpend _ j hj).mpr (h.setup j (by simp [hj, hx]) hstate)
  · intro j hx hstate
    by_cases hj : j = i
    · subst hj
      rw [hself] at hstate
      rcases hop with ⟨-, hsetup⟩ | ⟨rfl, -⟩
      · rw [hsetup] at hstate
        cases hstate
      · exact hpendi
    · rw [hne j hj] at hstate
      exact (hpend _ j hj).mpr (h.teardown j (by simp [hj, hx]) hstate)
  · intro j hpending
    by_cases hj : j = i
    · subst hj
      rw [hself]
      rcases hop with ⟨rfl, -⟩ | ⟨-, hstate⟩
      · rcases hpending with ⟨name, slot, hsome, hwdev, hop'⟩ | ⟨c, hc, hwdev, hop'⟩
        · rcases (hslot name slot).mp hsome with ⟨-, rfl⟩ | ⟨-, hj⟩
          · cases hop'
          · exact absurd hwdev hj
        · rw [hfree c (hcur ▸ hc) hwdev] at hop'
          cases hop'
      · exact hstate
    · rw [hne j hj]
      exact h.torn j ((hpend _ j hj).mp hpending)
  · intro j op' hpending
    by_cases hj : j = i
    · subst hj
      rw [hself]
      exact hw
    · rw [hne j hj]
      exact h.busy j op' ((hpend _ j hj).mp hpending)
  · intro c hc hop' name slot hsome
    rw [hcur] at hc
    rcases (hslot name slot).mp hsome with ⟨-, rfl⟩ | ⟨hsome, -⟩
    · intro hwdev
      rw [hfree c hc hwdev.symm] at hop'
      cases hop'
    · exact h.solo c hc hop' name slot hsome
  · intro name j hj
    rw [hdevices] at hj
    obtain ⟨hname', hlt⟩ := h.table name j hj
    refine ⟨?_, hnext ▸ hlt⟩
    by_cases hji : j = i
    · subst hji
      rw [hself, hname, hname']
    · rw [hne j hji, hname']
  · intro j hstate
    rw [hdevices]
    by_cases hj : j = i
    · subst hj
      rw [hself, hname]
      exact hi
    · rw [hne j hj] at hstate ⊢
      exact h.listed j hstate
  · intro j
    by_cases hj : j = i
    · subst hj
      rw [hself]
      exact hdata
    · rw [hne j hj]
      exact h.named j
  · intro j hj
    have hlt := (h.table _ i hi).2
    rw [hnext] at hj
    rw [hne j (by omega)]
    exact h.fresh j hj

theorem except (h : Queued x s) (i : Nat) : Queued (insert i x) s :=
  { h with
    setup := fun j hj => h.setup j fun hx => hj (Set.mem_insert_of_mem i hx)
    teardown := fun j hj => h.teardown j fun hx => hj (Set.mem_insert_of_mem i hx) }

/-- The device has its script, or needs none. -/
theorem all (h : Queued (insert i x) s)
    (hsetup : i ∉ x → (s.wdev i).state = .setup → Pending s .setup i)
    (hteardown : i ∉ x → (s.wdev i).state = .teardown → Pending s .teardown i) : Queued x s := by
  refine { h with setup := fun j hx hj => ?_, teardown := fun j hx hj => ?_ }
  · by_cases hji : j = i
    · subst hji
      exact hsetup hx hj
    · exact h.setup j (by simp [hji, hx]) hj
  · by_cases hji : j = i
    · subst hji
      exact hteardown hx hj
    · exact h.teardown j (by simp [hji, hx]) hj

/-- The device is up, or it is down and has no script. -/
theorem rest (h : Queued (insert i x) s) (ht : t.wdev = (s.put i w).wdev)
    (hname : w.name = (s.wdev i).name) (hdata : w.data.name = w.name)
    (hstate : w.state = .up ∨ w.state = .down ∧ ∀ op, ¬ Pending s op i)
    (hfree : ¬ Pending s .teardown i) (hlt : i < s.next) (hhandler : t.handler = s.handler)
    (hcur : t.cur = s.cur) (hnext : t.next = s.next)
    (htable : ∀ name j, t.devices.get? name = some j → s.devices.get? name = some j)
    (hlisted : ∀ j, (t.wdev j).state ≠ .down → s.devices.get? (s.wdev j).name = some j →
      t.devices.get? (s.wdev j).name = some j)
    (hup : w.state = .up → s.devices.get? (s.wdev i).name = some i) :
    Queued x t := by
  have hself : t.wdev i = w := by rw [ht, wdev_put_self]
  have hne : ∀ j, j ≠ i → t.wdev j = s.wdev j := fun j hj => by rw [ht, wdev_put_ne _ _ _ hj]
  have hpend : ∀ op j, Pending t op j ↔ Pending s op j := by
    intro op j
    rw [Pending, Pending, hhandler, hcur]
  have hnamej : ∀ j, (t.wdev j).name = (s.wdev j).name := by
    intro j
    by_cases hj : j = i
    · rw [hj, hself, hname]
    · rw [hne j hj]
  have hstatej : ∀ j, (t.wdev j).state = .setup ∨ (t.wdev j).state = .teardown → j ≠ i := by
    rintro j hj rfl
    rw [hself] at hj
    rcases hstate with h | ⟨h, -⟩ <;> rw [h] at hj <;> simp at hj
  constructor
  · intro name slot hsome
    rw [hhandler] at hsome
    rw [hnamej]
    exact h.slot name slot hsome
  · intro j hx hj
    have hji := hstatej j (.inl hj)
    rw [hne j hji] at hj
    exact (hpend _ j).mpr (h.setup j (by simp [hji, hx]) hj)
  · intro j hx hj
    have hji := hstatej j (.inr hj)
    rw [hne j hji] at hj
    exact (hpend _ j).mpr (h.teardown j (by simp [hji, hx]) hj)
  · intro j hpending
    rw [hpend] at hpending
    have hji : j ≠ i := fun hji => hfree (hji ▸ hpending)
    rw [hne j hji]
    exact h.torn j hpending
  · intro j op hpending
    rw [hpend] at hpending
    by_cases hji : j = i
    · subst hji
      rw [hself]
      rcases hstate with hstate | ⟨-, hnone⟩
      · simp [hstate]
      · exact absurd hpending (hnone op)
    · rw [hne j hji]
      exact h.busy j op hpending
  · simpa only [hhandler, hcur] using h.solo
  · intro name j hj
    rw [hnamej, hnext]
    exact h.table name j (htable name j hj)
  · intro j hj
    rw [hnamej]
    refine hlisted j hj ?_
    by_cases hji : j = i
    · subst hji
      rw [hself] at hj
      rcases hstate with hstate | ⟨hstate, -⟩
      · exact hup hstate
      · exact absurd hstate hj
    · rw [hne j hji] at hj
      exact h.listed j hj
  · intro j
    by_cases hji : j = i
    · subst hji
      rw [hself]
      exact hdata
    · rw [hne j hji]
      exact h.named j
  · intro j hj
    rw [hnext] at hj
    rw [hne j (by omega)]
    exact h.fresh j hj

/-- The device is no longer in the table. -/
theorem get?_del_listed (hi : s.devices.get? (s.wdev i).name = some i) :
    (∀ name j, (s.devices.del (s.wdev i).name).get? name = some j →
      s.devices.get? name = some j) ∧
    ∀ j, j ≠ i → s.devices.get? (s.wdev j).name = some j →
      (s.devices.del (s.wdev i).name).get? (s.wdev j).name = some j := by
  constructor
  · intro name j hj
    rw [Dict.get?_del] at hj
    split_ifs at hj
    exact hj
  · intro j hji hj
    rw [Dict.get?_del, if_neg]
    · exact hj
    · intro heq
      rw [heq, hi, some.injEq] at hj
      exact hji hj.symm

/-- A script that is run for a device which is not torn down is for its setup. -/
theorem free (h : Queued x s) (hstate : (s.wdev i).state ≠ .teardown) :
    ∀ c, s.cur = some c → c.wdev = i → c.op = .setup := by
  intro c hc hwdev
  cases hop : c.op with
  | setup => rfl
  | teardown => exact absurd (h.torn i (.inr ⟨c, hc, hwdev, hop⟩)) hstate

/-- A device is entered in the table. -/
theorem create (h : Queued x s) (hnone : s.devices.get? w.name = none)
    (hdata : w.data.name = w.name) (hstate : w.state = .down) :
    Queued x (created s.next w s) := by
  have hself : (created s.next w s).wdev s.next = w := wdev_put_self s _ w
  have hne : ∀ j, j ≠ s.next → (created s.next w s).wdev j = s.wdev j :=
    fun j hj => wdev_put_ne s _ w hj
  have hbusy : ∀ op j, Pending s op j → j ≠ s.next := by
    rintro op j hpending rfl
    exact h.busy _ op hpending (h.fresh _ le_rfl)
  have hup : ∀ j, ((created s.next w s).wdev j).state ≠ .down → j ≠ s.next := by
    rintro j hj rfl
    rw [hself] at hj
    exact hj hstate
  constructor
  · intro name slot hsome
    have hj := hbusy slot.op slot.wdev (.inl ⟨name, slot, hsome, rfl, rfl⟩)
    rw [hne _ hj]
    exact h.slot name slot hsome
  · intro j hx hj
    have hji := hup j (by simp [hj])
    rw [hne j hji] at hj
    exact h.setup j hx hj
  · intro j hx hj
    have hji := hup j (by simp [hj])
    rw [hne j hji] at hj
    exact h.teardown j hx hj
  · intro j hpending
    rw [hne j (hbusy _ j hpending)]
    exact h.torn j hpending
  · intro j op hpending
    rw [hne j (hbusy _ j hpending)]
    exact h.busy j op hpending
  · exact h.solo
  · intro name j hj
    have hj : (s.devices.set w.name s.next).get? name = some j := hj
    rw [Dict.get?_set] at hj
    split_ifs at hj with heq
    · rw [some.injEq] at hj
      subst hj
      rw [hself]
      exact ⟨heq.symm, Nat.lt_succ_self _⟩
    · obtain ⟨hname, hlt⟩ := h.table name j hj
      rw [hne j hlt.ne]
      exact ⟨hname, Nat.lt_succ_of_lt hlt⟩
  · intro j hj
    have hji := hup j hj
    rw [hne j hji] at hj ⊢
    have hlisted := h.listed j hj
    change (s.devices.set w.name s.next).get? _ = _
    rw [Dict.get?_set, if_neg]
    · exact hlisted
    · intro heq
      rw [heq, hnone] at hlisted
      cases hlisted
  · intro j
    by_cases hji : j = s.next
    · rw [hji, hself]
      exact hdata
    · rw [hne j hji]
      exact h.named j
  · intro j hj
    have hj : s.next + 1 ≤ j := hj
    rw [hne j (by omega)]
    exact h.fresh j (by omega)

end Queued

/-! ## Scripts that end -/

theorem take_same (name : String) (slot : Slot) (s : State) (j : Nat) :
    (s.wdev j).Same ((take name slot s).wdev j) := by
  simp only [take, giveData, wdev_note, wdev_put]
  split_ifs with hj
  · rw [hj]
    exact ⟨rfl, rfl, rfl, rfl, rfl, id, .inl rfl, rfl⟩
  · exact .refl _

variable {c : Script} {s t : State} {x : Set Nat} {w : Wdev}

theorem Ended.same (h : Ended c s t) (j : Nat) :
    (s.wdev j).Same (t.wdev j) := by
  cases h with
  | exit => exact .refl _
  | unstarted => exact take_same _ _ s j

theorem Ended.table (h : Ended c s t) :
    t.devices = s.devices ∧ t.next = s.next ∧ t.cur = none := by
  cases h <;> exact ⟨rfl, rfl, rfl⟩

theorem Ended.get? (h : Ended c s t) {name : String} {slot : Slot}
    (hsome : t.handler.get? name = some slot) : s.handler.get? name = some slot := by
  cases h with
  | exit => exact hsome
  | unstarted =>
    have hsome : (s.handler.del _).get? name = some slot := hsome
    rw [Dict.get?_del] at hsome
    split_ifs at hsome
    exact hsome

theorem Ended.pending (h : Ended c s t) {op : Op} {j : Nat} (hpending : Pending t op j) :
    ∃ name slot, t.handler.get? name = some slot ∧ slot.wdev = j ∧ slot.op = op := by
  rcases hpending with hslot | ⟨d, hd, -⟩
  · exact hslot
  · rw [h.table.2.2] at hd
    cases hd

/-- Another script is still queued. -/
theorem Ended.other (h : Ended c s t) {op : Op} {j : Nat} (hpending : Pending s op j)
    (hne : j ≠ c.wdev ∨ op ≠ c.op) : Pending t op j := by
  have hc : ¬ (c.wdev = j ∧ c.op = op) := by
    rintro ⟨rfl, rfl⟩
    simp at hne
  cases h with
  | exit hcur hrunning =>
    rcases hpending with hslot | ⟨d, hd, hwdev, hop⟩
    · exact .inl hslot
    · rw [hcur, some.injEq] at hd
      subst hd
      exact absurd ⟨hwdev, hop⟩ hc
  | @unstarted name slot hcur hslot hop hwdev hserial =>
    rcases hpending with ⟨name', slot', hslot', hwdev', hop'⟩ | ⟨d, hd, -⟩
    · refine .inl ⟨name', slot', ?_, hwdev', hop'⟩
      change (s.handler.del name).get? name' = _
      rw [Dict.get?_del, if_neg]
      · exact hslot'
      · rintro rfl
        rw [hslot, some.injEq] at hslot'
        subst hslot'
        exact hc ⟨hwdev.trans hwdev', hop.trans hop'⟩
    · rw [hcur] at hd
      cases hd

theorem Ended.was (h : Ended c s t) : Pending s c.op c.wdev := by
  cases h with
  | exit hcur => exact .inr ⟨c, hcur, rfl, rfl⟩
  | unstarted hcur hslot hop hwdev => exact .inl ⟨_, _, hslot, hwdev.symm, hop.symm⟩

theorem Queued.ended (h : Queued x s) (hended : Ended c s t) : Queued (insert c.wdev x) t := by
  have hsame := hended.same
  obtain ⟨hdevices, hnext, hcur⟩ := hended.table
  have hback : ∀ op j, Pending t op j → Pending s op j := by
    intro op j hpending
    obtain ⟨name, slot, hsome, hslot⟩ := hended.pending hpending
    exact .inl ⟨name, slot, hended.get? hsome, hslot⟩
  constructor
  · intro name slot hsome
    rw [(hsame _).name]
    exact h.slot name slot (hended.get? hsome)
  · intro j hj hstate
    obtain ⟨hne, hx⟩ := not_or.mp hj
    rw [(hsame j).state] at hstate
    exact hended.other (h.setup j hx hstate) (.inl hne)
  · intro j hj hstate
    obtain ⟨hne, hx⟩ := not_or.mp hj
    rw [(hsame j).state] at hstate
    exact hended.other (h.teardown j hx hstate) (.inl hne)
  · intro j hpending
    rw [(hsame j).state]
    exact h.torn j (hback _ j hpending)
  · intro j op hpending
    rw [(hsame j).state]
    exact h.busy j op (hback op j hpending)
  · intro d hd
    rw [hcur] at hd
    cases hd
  · intro name j hj
    rw [hdevices] at hj
    rw [(hsame j).name, hnext]
    exact h.table name j hj
  · intro j hj
    rw [(hsame j).state] at hj
    rw [hdevices, (hsame j).name]
    exact h.listed j hj
  · intro j
    rw [(hsame j).data, (hsame j).name]
    exact h.named j
  · intro j hj
    rw [hnext] at hj
    rw [(hsame j).state]
    exact h.fresh j hj

theorem Queued.alone (h : Queued x s) (hended : Ended c s t) (hop : c.op = .teardown) (op : Op) :
    ¬ Pending t op c.wdev := by
  intro hpending
  obtain ⟨name, slot, hsome, hwdev, -⟩ := hended.pending hpending
  cases hended with
  | exit hcur => exact h.solo c hcur hop name slot hsome hwdev
  | @unstarted name' slot' hcur hslot' hop' hwdev' hserial =>
    have hsome : (s.handler.del name').get? name = some slot := hsome
    rw [Dict.get?_del] at hsome
    split_ifs at hsome with heq
    have h1 := h.slot name slot hsome
    have h2 := h.slot name' slot' hslot'
    rw [hwdev, hwdev', h2] at h1
    exact heq h1.symm

theorem Reported.same {up : Bool} {l : List HandlerData} (h : Reported up l s t) :
    t.wdev = s.wdev ∧ t.devices = s.devices ∧ t.next = s.next ∧ t.handler = s.handler ∧
      t.cur = s.cur := by
  obtain ⟨es, r, rfl⟩ := h.fields
  exact ⟨rfl, rfl, rfl, rfl, rfl⟩

theorem Reported.serial {up : Bool} {l : List HandlerData} (h : Reported up l s t) :
    t.serial = s.serial := by
  obtain ⟨es, r, rfl⟩ := h.fields
  rfl

theorem mem_sections {hd : HandlerData} :
    hd ∈ w.sections ↔ ∃ key, w.handlerData.get? key = some hd := by
  simp only [Wdev.sections, List.mem_map]
  constructor
  · rintro ⟨e, he, rfl⟩
    exact ⟨e.1, (w.handlerData.mem_entries_iff e.1 e.2).mp he⟩
  · rintro ⟨key, hkey⟩
    exact ⟨⟨key, hd⟩, (w.handlerData.mem_entries_iff key hd).mpr hkey, rfl⟩

theorem sections_ownData {hd : HandlerData} {key : String} (h : (ownData w).get? key = some hd) :
    hd ∈ w.sections := by
  unfold ownData at h
  split at h
  · simp at h
  · rename_i data hdata
    rw [Dict.get?_set] at h
    split_ifs at h
    · rw [some.injEq] at h
      exact mem_sections.mpr ⟨w.name, h ▸ hdata⟩
    · simp at h

/-- An entry of an interface has the options of the interface. -/
theorem sectionOf_bare {vif vlan : Option String} {e : String × Section × Option VifConfig}
    (h : sectionOf w vif vlan = some e) (hnone : e.2.2 = none) : vif = none ∧ vlan = none := by
  cases vif <;> cases vlan
  · exact ⟨rfl, rfl⟩
  · simp [sectionOf] at h
  · obtain ⟨iface, -, rfl⟩ := map_eq_some_iff.mp h
    cases hnone
  · obtain ⟨iface, -, h⟩ := bind_eq_some_iff.mp h
    obtain ⟨v, -, rfl⟩ := map_eq_some_iff.mp h
    cases hnone

/-- A script is started. -/
theorem Queued.begin (h : Queued x s) {name : String} {slot : Slot} (hcur : s.cur = none)
    (hslot : s.handler.get? name = some slot) :
    Queued x
      (spawn { op := slot.op, wdev := slot.wdev, serial := s.serial } (take name slot s)) := by
  set t := spawn { op := slot.op, wdev := slot.wdev, serial := s.serial } (take name slot s) with ht
  have hsame : ∀ j, (s.wdev j).Same (t.wdev j) := take_same name slot s
  have hhandler : t.handler = s.handler.del name := rfl
  have htcur : t.cur = some { op := slot.op, wdev := slot.wdev, serial := s.serial } := rfl
  have hget : ∀ name' slot', t.handler.get? name' = some slot' ↔
      name' ≠ name ∧ s.handler.get? name' = some slot' := by
    intro name' slot'
    rw [hhandler, Dict.get?_del]
    split_ifs with heq <;> simp [heq]
  have hpend : ∀ op j, Pending t op j ↔ Pending s op j := by
    intro op j
    simp only [Pending, hget, htcur, hcur]
    constructor
    · rintro (⟨name', slot', ⟨-, hsome⟩, hj⟩ | ⟨c, hc, hwdev, hop⟩)
      · exact .inl ⟨name', slot', hsome, hj⟩
      · obtain rfl := some.inj hc
        exact .inl ⟨name, slot, hslot, hwdev, hop⟩
    · rintro (⟨name', slot', hsome, hj⟩ | ⟨c, hc, -⟩)
      · by_cases heq : name' = name
        · subst heq
          obtain rfl : slot = slot' := by
            rw [hslot, some.injEq] at hsome
            exact hsome
          exact .inr ⟨_, rfl, hj⟩
        · exact .inl ⟨name', slot', ⟨heq, hsome⟩, hj⟩
      · cases hc
  constructor
  · intro name' slot' hsome
    rw [(hsame _).name]
    exact h.slot name' slot' ((hget _ _).mp hsome).2
  · intro j hx hj
    rw [(hsame j).state] at hj
    exact (hpend _ j).mpr (h.setup j hx hj)
  · intro j hx hj
    rw [(hsame j).state] at hj
    exact (hpend _ j).mpr (h.teardown j hx hj)
  · intro j hpending
    rw [(hsame j).state]
    exact h.torn j ((hpend _ j).mp hpending)
  · intro j op hpending
    rw [(hsame j).state]
    exact h.busy j op ((hpend _ j).mp hpending)
  · intro c hc _ name' slot' hsome hwdev
    obtain rfl := some.inj (htcur.symm.trans hc)
    obtain ⟨hne, hsome⟩ := (hget _ _).mp hsome
    have h1 := h.slot name' slot' hsome
    have h2 := h.slot name slot hslot
    rw [hwdev, h2] at h1
    exact hne h1.symm
  · intro name' j hj
    rw [(hsame j).name]
    exact h.table name' j hj
  · intro j hj
    rw [(hsame j).state] at hj
    rw [(hsame j).name]
    exact h.listed j hj
  · intro j
    rw [(hsame j).data, (hsame j).name]
    exact h.named j
  · intro j hj
    rw [(hsame j).state]
    exact h.fresh j hj

/-- What a failure counts is the retries alone. -/
theorem countFailure_toTeardown_name (w : Wdev) : w.countFailure.toTeardown.name = w.name := by
  unfold Wdev.countFailure
  split
  · split <;> rfl
  · rfl

theorem countFailure_toTeardown_data (w : Wdev) : w.countFailure.toTeardown.data = w.data := by
  unfold Wdev.countFailure
  split
  · split <;> rfl
  · rfl

theorem countFailure_toTeardown_sections (w : Wdev) :
    w.countFailure.toTeardown.sections = w.sections := by
  unfold Wdev.countFailure
  split
  · split <;> rfl
  · rfl

theorem Queued.torn_ended (h : Queued x s) (hended : Ended c s t) (hop : c.op = .teardown) :
    (t.wdev c.wdev).state = .teardown := by
  rw [(hended.same c.wdev).state]
  exact h.torn _ (hop ▸ hended.was)

/-- What a move does to the queue; a device whose teardown throws is stuck. -/
theorem queued_move {R : Rules} (h : Queued x s) (hmove : Move R s t) :
    Queued x t ∨ ∃ i, Queued (insert i x) t ∧ ∃ hd ∈ (s.wdev i).sections, hd.Bare := by
  by_cases hthrown : ∃ c u, Ended c s u ∧ c.op = .teardown ∧ u.raised = false ∧
      Reported false (u.wdev c.wdev).sections u t ∧ t.raised = true
  · obtain ⟨c, u, hended, hop, hcalm, hlinks, hraised⟩ := hthrown
    refine .inr ⟨c.wdev, ?_, ?_⟩
    · obtain ⟨hwdev, hdevices, hnext, hhandler, hcur⟩ := hlinks.same
      have hq := h.ended hended
      exact hq.frame hdevices hnext hhandler hcur (fun j => by rw [hwdev])
        (fun j => by rw [hwdev, hq.named]) fun j => by rw [hwdev]
    · cases hlinks with
      | all es =>
        have hcalm' : (u.logs es).raised = false := hcalm
        rw [hcalm'] at hraised
        cases hraised
      | some es _ _ hbare =>
        rw [Wdev.sections, (hended.same c.wdev).handlerData] at hbare
        exact hbare
  · left
    cases hmove with
    | @edit i w hsame =>
      exact h.put rfl hsame.name (by rw [hsame.data, hsame.name, h.named]) hsame.state
        rfl rfl rfl rfl
    | @setRetry i => exact h.put rfl rfl (h.named i) rfl rfl rfl rfl rfl
    | timer | raised | configDone | report =>
      exact h.frame rfl rfl rfl rfl (fun _ => rfl) h.named fun _ => rfl
    | @renew i data hlisted hname => exact h.put rfl rfl hname rfl rfl rfl rfl rfl
    | configInit i => exact h.put rfl rfl (h.named i) rfl rfl rfl rfl rfl
    | setData i vif vlan ifname hrule =>
      unfold wdevSetData
      dsimp only
      split
      · exact h
      · exact h.put rfl rfl (h.named i) rfl rfl rfl rfl rfl
    | @create w hnone hdata hstate => exact h.create hnone hdata hstate
    | @want i hlisted hrule => exact h.put rfl rfl (h.named i) rfl rfl rfl rfl rfl
    | @halt i r delete hlisted hrule hwish hstate hdown =>
      exact h.put rfl rfl (h.named i) rfl rfl rfl rfl rfl
    | @haltUp i r delete hlisted hrule hwish hstate time =>
      exact (h.except i).enqueue time rfl (h.listed i (by simp [hstate])) rfl (h.named i)
        (.inr ⟨rfl, rfl⟩) (h.free (by simp [hstate])) rfl rfl (by simp [State.enqueue, halted]) rfl
    | @remove i hlisted hrule hstate =>
      have hi := h.get?_of_listed hlisted
      obtain ⟨hback, hother⟩ := Queued.get?_del_listed hi
      have hnone : ∀ op, ¬ Pending s op i := fun op hpending => h.busy i op hpending hstate
      rw [h.named i]
      refine (h.except i).rest rfl rfl (h.named i) (.inr ⟨hstate, hnone⟩)
        (hnone _) (h.table _ i hi).2 rfl rfl rfl hback (fun j hj => hother j ?_) (fun _ => hi)
      rintro rfl
      exact hj (by simp [deleteWdev, halted, State.logs, hstate])
    | @setup i hstate hauto hfailed time =>
      refine (h.except i).enqueue time rfl ?_ rfl (h.named i) (.inl ⟨rfl, rfl⟩)
        (h.free ?_) rfl rfl (by simp [State.enqueue]) rfl
      · rcases hstate with ⟨-, hlisted⟩ | ⟨hstate, -⟩
        · exact h.get?_of_listed hlisted
        · exact h.listed i (by simp [hstate])
      · rcases hstate with ⟨hstate, -⟩ | ⟨hstate, -⟩ <;> simp [hstate]
    | @teardown i hstate time =>
      have hne : (s.wdev i).state ≠ .down ∧ (s.wdev i).state ≠ .teardown := by
        rcases hstate with hstate | hstate <;> simp [hstate]
      exact (h.except i).enqueue time rfl (h.listed i hne.1) rfl (h.named i)
        (.inr ⟨rfl, rfl⟩) (h.free hne.2) rfl rfl (by simp [State.enqueue]) rfl
    | @markUp i u hlisted hstate hrule hlinks hraised =>
      obtain ⟨hwdev, hdevices, hnext, hhandler, hcur⟩ := hlinks.same
      have hi := h.listed i (by simp [hstate])
      have hfree : ¬ Pending s .teardown i := by
        intro hpending
        rw [h.torn i hpending] at hstate
        cases hstate
      exact (h.except i).rest (wdev_put_congr s i { s.wdev i with state := .up } hwdev) rfl
        (h.named i) (.inl rfl) hfree (h.table _ i hi).2 hhandler hcur hnext
        (fun name j hj => hdevices ▸ hj) (fun j _ hj => hdevices.symm ▸ hj) (fun _ => hi)
    | @begin name slot hcur hslot => exact h.begin hcur hslot
    | @idle c _ hended hop hstate =>
      refine (h.ended hended).all (fun _ hsetup => absurd hsetup hstate) fun hx hteardown => ?_
      rw [(hended.same c.wdev).state] at hteardown
      exact hended.other (h.teardown _ hx hteardown) (.inr (by simp [hop]))
    | @failed c u hended hop hstate time =>
      have hq := h.ended hended
      have hdata : (u.wdev c.wdev).countFailure.toTeardown.data.name =
          (u.wdev c.wdev).countFailure.toTeardown.name := by
        rw [countFailure_toTeardown_data, countFailure_toTeardown_name]
        exact hq.named _
      exact hq.enqueue time rfl (hq.listed _ (by simp [hstate]))
        (countFailure_toTeardown_name _) hdata (.inr ⟨rfl, rfl⟩) (hq.free (by simp [hstate]))
        rfl rfl (by simp [State.enqueue]) rfl
    | @down c t u hended hop hlinks hraised hkeep =>
      obtain ⟨hwdev, hdevices, hnext, hhandler, hcur⟩ := hlinks.same
      have hq := h.ended hended
      have halone := h.alone hended hop
      have hi := hq.listed c.wdev (by simp [h.torn_ended hended hop])
      exact hq.rest (wdev_put_congr t c.wdev (t.wdev c.wdev).toDown hwdev) rfl (hq.named _)
        (.inr ⟨rfl, halone⟩) (halone _) (hq.table _ _ hi).2 hhandler hcur hnext
        (fun name j hj => hdevices ▸ hj) (fun j _ hj => hdevices.symm ▸ hj) (fun _ => hi)
    | @deleted c t u hended hop hlinks hraised hdelete =>
      obtain ⟨hwdev, hdevices, hnext, hhandler, hcur⟩ := hlinks.same
      have hq := h.ended hended
      have halone := h.alone hended hop
      have hi := hq.listed c.wdev (by simp [h.torn_ended hended hop])
      obtain ⟨hback, hother⟩ := Queued.get?_del_listed hi
      have hdel : (deleteWdev (t.wdev c.wdev).data.name
          (u.put c.wdev (t.wdev c.wdev).toDown)).devices = t.devices.del (t.wdev c.wdev).name := by
        rw [hq.named]
        exact congrArg (fun d => Dict.del d _) hdevices
      refine hq.rest (wdev_put_congr t c.wdev (t.wdev c.wdev).toDown hwdev) rfl (hq.named _)
        (.inr ⟨rfl, halone⟩) (halone _) (hq.table _ _ hi).2 hhandler hcur hnext
        (fun name j hj => hback name j (hdel ▸ hj)) (fun j hj hlisted => ?_) (fun _ => hi)
      rw [hdel]
      refine hother j ?_ hlisted
      rintro rfl
      exact hj (by simp [deleteWdev, Wdev.toDown])
    | @restart c t u hended hop hlinks hraised hkeep hauto hfailed time =>
      obtain ⟨hwdev, hdevices, hnext, hhandler, hcur⟩ := hlinks.same
      have hq := h.ended hended
      have hi := hq.listed c.wdev (by simp [h.torn_ended hended hop])
      have hnone : t.cur = none := hended.table.2.2
      exact hq.enqueue time (wdev_put_congr t c.wdev (t.wdev c.wdev).toDown.toSetup hwdev) hi
        rfl (hq.named _) (.inl ⟨rfl, rfl⟩) (by simp [hnone]) hdevices hnext
        (by simp [State.enqueue, hhandler]) hcur
    | @thrown c u t hended hop hcalm hlinks hraised =>
      exact absurd ⟨c, u, hended, hop, hcalm, hlinks, hraised⟩ hthrown

/-- Whatever is sent, the queue is known, but for devices that are stuck. -/
theorem kept_stuck (R : Rules) : Kept R (fun s => ∃ x, Queued x s) := by
  rintro s t ⟨x, h⟩ hmove
  rcases queued_move h hmove with ht | ⟨i, ht, -⟩
  · exact ⟨x, ht⟩
  · exact ⟨_, ht⟩

/-! ## No device itself has an interface -/

def Clean (s : State) : Prop := ∀ i, ∀ hd ∈ (s.wdev i).sections, ¬ hd.Bare

section Clean

variable {s t : State} {i : Nat}

theorem Clean.put (h : Clean s) {w : Wdev} (ht : t.wdev = (s.put i w).wdev)
    (hbare : ∀ hd ∈ w.sections, ¬ hd.Bare) : Clean t := by
  intro j
  rw [ht, wdev_put]
  split_ifs
  · exact hbare
  · exact h j

theorem Clean.congr (h : Clean s) (ht : t.wdev = s.wdev) : Clean t := by
  rw [Clean, ht]
  exact h

theorem Clean.ended {c : Script} (h : Clean s) (hended : Ended c s t) : Clean t := by
  intro j
  rw [Wdev.sections, (hended.same j).handlerData]
  exact h j

/-- The links of the torn down device are reported, and it has no entries any more. -/
theorem Clean.torn {c : Script} {u v : State} (h : Clean s) (hended : Ended c s t)
    (hlinks : Reported false (t.wdev c.wdev).sections t u) {w : Wdev}
    (hv : v.wdev = (u.put c.wdev w).wdev) (hempty : w.handlerData = ∅) : Clean v := by
  have hu : Clean u := (h.ended hended).congr hlinks.same.1
  refine hu.put hv ?_
  rw [Wdev.sections, hempty]
  exact fun hd hmem => absurd hmem List.not_mem_nil

theorem clean_move {R : Rules} (hbare : ¬ R.bare) (h : Clean s) (hmove : Move R s t) :
    Clean t := by
  cases hmove with
  | @edit i w hsame => exact h.put rfl (by rw [Wdev.sections, hsame.handlerData]; exact h i)
  | timer | raised | configDone | report => exact h.congr rfl
  | @setRetry i | @renew i | @want i | @halt i | @haltUp i | @remove i | @setup i | @teardown i =>
    exact h.put rfl (h i)
  | configInit i =>
    refine h.put rfl fun hd hmem => ?_
    obtain ⟨key, hkey⟩ := mem_sections.mp hmem
    exact h i hd (sections_ownData hkey)
  | setData i vif vlan ifname hrule =>
    unfold wdevSetData
    dsimp only
    split
    · exact h
    · rename_i key type config hsection
      refine h.put rfl fun hd hmem => ?_
      obtain ⟨key', hkey'⟩ := mem_sections.mp hmem
      rw [Dict.get?_set] at hkey'
      split_ifs at hkey'
      · rw [some.injEq] at hkey'
        subst hkey'
        rintro ⟨hnamed, hnone⟩
        obtain ⟨hvif, hvlan⟩ := sectionOf_bare hsection hnone
        exact hbare (hrule hvif hvlan hnamed)
      · exact h i hd (mem_sections.mpr ⟨key', hkey'⟩)
  | @create w hnone hdata hstate hauto hdelete hfailed hhandler =>
    refine h.put rfl ?_
    rw [Wdev.sections, hhandler]
    exact fun hd hmem => absurd hmem List.not_mem_nil
  | @markUp i u hlisted hstate hrule hlinks =>
    have hu : Clean u := h.congr hlinks.same.1
    exact hu.put rfl (h i)
  | @begin name slot =>
    intro j
    rw [Wdev.sections]
    change ∀ hd ∈ (((take name slot s).wdev j).handlerData.entries.map (·.2)), ¬ hd.Bare
    rw [(take_same name slot s j).handlerData]
    exact h j
  | idle hended => exact h.ended hended
  | @failed c t hended =>
    refine (h.ended hended).put rfl ?_
    rw [countFailure_toTeardown_sections]
    exact h.ended hended _
  | down hended _ hlinks | deleted hended _ hlinks | restart hended _ hlinks =>
    exact h.torn hended hlinks rfl rfl
  | thrown hended _ _ hlinks => exact (h.ended hended).congr hlinks.same.1

/-- No device is stuck, as long as no device itself has an interface. -/
theorem kept_queued {R : Rules} (hbare : ¬ R.bare) :
    Kept R (fun s => Clean s ∧ Queued ∅ s) := by
  rintro s t ⟨hclean, h⟩ hmove
  refine ⟨clean_move hbare hclean hmove, ?_⟩
  rcases queued_move h hmove with ht | ⟨i, -, hd, hmem, hb⟩
  · exact ht
  · exact absurd hb (hclean i hd hmem)

end Clean

end LibWrt.Wireless
