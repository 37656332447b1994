/-
LibWrt.PackageMetadata.Shape — a condition is read alike if and, with its
symbols named once, only if it is flat.

A flat condition has the value of its groups, whatever is counted as true
(`up_value`). That a condition read alike must be flat is shown over sets of
symbols that are on: an operand of a `&&` or `||` is fixed by turning all of
its symbols on or off, and what is left is a reading of the other operand.
-/
import LibWrt.PackageMetadata.Agree
import Mathlib.Data.List.Nodup
import Mathlib.Data.List.Pairwise

namespace LibWrt.PackageMetadata

open List Or

/-! ## Groups -/

theorem joinGroups_flatten (gs hs : List (List Word)) :
    (joinGroups gs hs).flatten = gs.flatten ++ hs.flatten := by
  induction gs with
  | nil => rfl
  | cons g gs ih =>
    by_cases hgs : gs = []
    · cases hs <;> simp [hgs, joinGroups]
    · simp [joinGroups_cons hgs, ih]

namespace Cond

variable {l : Level}

theorem flatten_groups (e : Cond l) : e.groups.flatten = e.symbols := by
  induction e with
  | sym s => rfl
  | not u ih => exact ih
  | paren d ih => exact ih
  | ofUnary u ih => exact ih
  | ofAnd c ih => exact ih
  | and u c ihu ihc => rw [groups, joinGroups_flatten, ihu, ihc, symbols]
  | or c d ihc ihd => rw [groups, flatten_append, ihc, ihd, symbols]

theorem mem_symbols {e : Cond l} {g : List Word} (hg : g ∈ e.groups) {s : Word} (hs : s ∈ g) :
    s ∈ e.symbols := by
  rw [← e.flatten_groups]
  exact mem_flatten.mpr ⟨g, hg, hs⟩

/-- Without `||` there is one group. -/
theorem noOr_iff (e : Cond l) : e.noOr = true ↔ ∃ g, e.groups = [g] := by
  induction e with
  | sym s => simp [noOr, groups]
  | not u ih => exact ih
  | paren d ih => exact ih
  | ofUnary u ih => exact ih
  | ofAnd c ih => exact ih
  | and u c ihu ihc =>
    obtain ⟨init, last, first, tail, hu, hc, -, -, hjoin⟩ := u.full_groups.joined c.full_groups
    rw [noOr, Bool.and_eq_true, ihu, ihc, groups, hjoin, hu, hc]
    cases init <;> cases tail <;> simp
  | or c d ihc ihd =>
    have hc := c.full_groups.ne_nil
    have hd := d.full_groups.ne_nil
    cases hgc : c.groups with
    | nil => exact absurd hgc hc
    | cons g gs =>
      cases hgd : d.groups with
      | nil => exact absurd hgd hd
      | cons h hs => simp [noOr, groups, hgc, hgd]

end Cond

/-! ## A flat condition -/

/-- The value below an odd or an even number of `!`. -/
def undo (odd : Bool) (t : Tristate) : Tristate := if odd then t.not else t

section Sufficient

variable (up : Tristate → Prop) (hand : ∀ a b, up (a.and b) ↔ up a ∧ up b)
  (hor : ∀ a b, up (a.or b) ↔ up a ∨ up b)

include hand hor in
/-- A flat condition has the value of its groups, for all that counts as true. -/
theorem Cond.up_value {l : Level} {e : Cond l} {odd : Bool} (hflat : e.flat odd = true)
    (v : Config) : up (undo odd (e.value v)) ↔ ∃ g ∈ e.groups, ∀ s ∈ g, up (v s.text) := by
  induction e generalizing odd with
  | sym s =>
    have hodd : odd = false := by simpa [flat] using hflat
    simp [hodd, undo, value, groups]
  | not u ih =>
    have hflat' : u.flat (!odd) = true := hflat
    have hu := ih hflat'
    have hundo : undo odd (value v (not u)) = undo (!odd) (u.value v) := by
      cases odd <;> simp [undo, value]
    rw [hundo]
    exact hu
  | paren d ih => exact ih hflat
  | ofUnary u ih => exact ih hflat
  | ofAnd c ih => exact ih hflat
  | and u c ihu ihc =>
    simp only [flat, Bool.and_eq_true, Bool.not_eq_true'] at hflat
    obtain ⟨⟨⟨⟨rfl, hu⟩, hc⟩, hfu⟩, hfc⟩ := hflat
    obtain ⟨g, hg⟩ := u.noOr_iff.mp hu
    obtain ⟨h, hh⟩ := c.noOr_iff.mp hc
    have hjoin : joinGroups [g] [h] = [g ++ h] := rfl
    have hvu := ihu hfu
    have hvc := ihc hfc
    rw [hg] at hvu
    rw [hh] at hvc
    simp only [undo, Bool.false_eq_true, if_false, mem_singleton, exists_eq_left] at hvu hvc
    rw [undo, if_neg (by simp), value, hand, hvu, hvc, groups, hg, hh, hjoin]
    simp only [mem_singleton, exists_eq_left, mem_append]
    exact ⟨fun both s hs => hs.elim (both.1 s) (both.2 s),
      fun all => ⟨fun s hs => all s (inl hs), fun s hs => all s (inr hs)⟩⟩
  | or c d ihc ihd =>
    simp only [flat, Bool.and_eq_true, Bool.not_eq_true'] at hflat
    obtain ⟨⟨rfl, hfc⟩, hfd⟩ := hflat
    have hvc := ihc hfc
    have hvd := ihd hfd
    simp only [undo, Bool.false_eq_true, if_false] at hvc hvd
    rw [undo, if_neg (by simp), value, hor, hvc, hvd, groups]
    simp only [mem_append, or_and_right, exists_or]

end Sufficient

variable {l : Level} {tristate : Text → Bool} {c : Cond .or} {on : Word → Prop}
  {gs : List (List Word)}

theorem Cond.value_ne_no {e : Cond l} {odd : Bool} (hflat : e.flat odd = true) (v : Config) :
    undo odd (e.value v) ≠ .no ↔ ∃ g ∈ e.groups, AllEnabled v g :=
  up_value (· ≠ .no) (by simp [Tristate.and_eq_no])
    (fun a b => by rw [ne_eq, Tristate.or_eq_no, not_and_or]) hflat v

theorem Cond.value_eq_yes {e : Cond l} {odd : Bool} (hflat : e.flat odd = true) (v : Config) :
    undo odd (e.value v) = .yes ↔ ∃ g ∈ e.groups, ∀ s ∈ g, v s.text = .yes :=
  up_value (· = .yes) (by simp [Tristate.and_eq_yes]) (by simp [Tristate.or_eq_yes])
    hflat v

/-- The value of a condition that fits. -/
theorem Cond.Fits.made (hfits : c.Fits tristate) {v : Config} (hv : Conforms tristate v) :
    c.value v ≠ .no ↔ c.Made v := by
  obtain ⟨hflat, hbool⟩ := hfits
  cases hneg : c.negated with
  | false =>
    rw [hneg] at hflat
    have := value_ne_no hflat v
    simpa [undo, Made, hneg] using this
  | true =>
    rw [hneg] at hflat
    have hyes := value_eq_yes hflat v
    have hgroups : (∃ g ∈ c.groups, ∀ s ∈ g, v s.text = .yes) ↔
        ∃ g ∈ c.groups, AllEnabled v g := by
      refine exists_congr fun g => and_congr_right fun hg => forall₂_congr fun s hs => ?_
      have hmod := hv s.text (hbool hneg s (mem_symbols hg hs))
      cases hvs : v s.text <;> simp_all
    have hnot : c.value v ≠ .no ↔ ¬ undo true (c.value v) = .yes := by
      cases c.value v <;> simp [undo, Tristate.not]
    rw [hnot, hyes, hgroups, Made, hneg]
    simp

/-! ## Sets of symbols -/

def Cond.Holds (on : Word → Prop) : {l : Level} → Cond l → Prop
  | _, sym s => on s
  | _, not u => ¬ u.Holds on
  | _, paren d => d.Holds on
  | _, ofUnary u => u.Holds on
  | _, and u c => u.Holds on ∧ c.Holds on
  | _, ofAnd c => c.Holds on
  | _, or c d => c.Holds on ∨ d.Holds on

def AnyGroup (on : Word → Prop) (gs : List (List Word)) : Prop := ∃ g ∈ gs, ∀ s ∈ g, on s

theorem anyGroup_append {hs : List (List Word)} :
    AnyGroup on (gs ++ hs) ↔ AnyGroup on gs ∨ AnyGroup on hs := by
  simp only [AnyGroup, mem_append, or_and_right, exists_or]

theorem anyGroup_cons {g : List Word} :
    AnyGroup on (g :: gs) ↔ (∀ s ∈ g, on s) ∨ AnyGroup on gs := by
  simp [AnyGroup]

theorem anyGroup_all (hgs : gs ≠ []) : AnyGroup (fun _ => True) gs := by
  cases gs with
  | nil => exact absurd rfl hgs
  | cons g gs => exact ⟨g, by simp, by simp⟩

theorem not_anyGroup_none (hgs : ∀ g ∈ gs, g ≠ []) :
    ¬ AnyGroup (fun _ => False) gs := by
  rintro ⟨g, hg, hall⟩
  cases hg' : g with
  | nil => exact hgs g hg hg'
  | cons s g => exact hall s (by simp [hg'])

theorem anyGroup_congr {on' : Word → Prop} (h : ∀ s ∈ gs.flatten, on s ↔ on' s) :
    AnyGroup on gs ↔ AnyGroup on' gs :=
  exists_congr fun g => and_congr_right fun hg => forall₂_congr fun s hs =>
    h s (mem_flatten.mpr ⟨g, hg, hs⟩)

def mix (symbols : List Word) (on on' : Word → Prop) (s : Word) : Prop :=
  if s ∈ symbols then on s else on' s

namespace Cond

variable {l : Level}

theorem holds_congr {on on' : Word → Prop} {e : Cond l} (h : ∀ s ∈ e.symbols, on s ↔ on' s) :
    e.Holds on ↔ e.Holds on' := by
  induction e with
  | sym s => exact h s (by simp [symbols])
  | not u ih => exact not_congr (ih h)
  | paren d ih => exact ih h
  | ofUnary u ih => exact ih h
  | ofAnd c ih => exact ih h
  | and u c ihu ihc =>
    exact and_congr (ihu fun s hs => h s (mem_append_left _ hs))
      (ihc fun s hs => h s (mem_append_right _ hs))
  | or c d ihc ihd =>
    exact or_congr (ihc fun s hs => h s (mem_append_left _ hs))
      (ihd fun s hs => h s (mem_append_right _ hs))

/-- What an operand says of two sets that are put together. -/
theorem mix_self (e : Cond l) (on on' : Word → Prop) :
    (e.Holds (mix e.symbols on on') ↔ e.Holds on) ∧
      (AnyGroup (mix e.symbols on on') e.groups ↔ AnyGroup on e.groups) := by
  have hmix : ∀ s ∈ e.symbols, mix e.symbols on on' s ↔ on s := fun s hs => by simp [mix, hs]
  exact ⟨holds_congr hmix, anyGroup_congr fun s hs => hmix s (e.flatten_groups ▸ hs)⟩

theorem mix_other {l' : Level} {e : Cond l} {e' : Cond l'} (hdisj : e.symbols.Disjoint e'.symbols)
    (on on' : Word → Prop) : (e'.Holds (mix e.symbols on on') ↔ e'.Holds on') ∧
      (AnyGroup (mix e.symbols on on') e'.groups ↔ AnyGroup on' e'.groups) := by
  have hmix : ∀ s ∈ e'.symbols, mix e.symbols on on' s ↔ on' s := fun s hs => by
    have : s ∉ e.symbols := fun hs' => hdisj hs' hs
    simp [mix, this]
  exact ⟨holds_congr hmix, anyGroup_congr fun s hs => hmix s (e'.flatten_groups ▸ hs)⟩

/-- A condition that names its symbols once can hold and fail. -/
theorem exists_holds (e : Cond l) (hnodup : e.symbols.Nodup) :
    (∃ on, e.Holds on) ∧ ∃ on, ¬ e.Holds on := by
  induction e with
  | sym s => exact ⟨⟨fun _ => True, trivial⟩, ⟨fun _ => False, fun h => h⟩⟩
  | not u ih =>
    obtain ⟨⟨on, hon⟩, off, hoff⟩ := ih hnodup
    exact ⟨⟨off, hoff⟩, on, fun h => h hon⟩
  | paren d ih => exact ih hnodup
  | ofUnary u ih => exact ih hnodup
  | ofAnd c ih => exact ih hnodup
  | and u c ihu ihc =>
    obtain ⟨hu, hc, hdisj⟩ := nodup_append'.mp hnodup
    obtain ⟨⟨on, hon⟩, off, hoff⟩ := ihu hu
    obtain ⟨⟨on', hon'⟩, -⟩ := ihc hc
    exact ⟨⟨mix u.symbols on on', (u.mix_self on on').1.mpr hon,
      (mix_other hdisj on on').1.mpr hon'⟩, off, fun h => hoff h.1⟩
  | or c d ihc ihd =>
    obtain ⟨hc, hd, hdisj⟩ := nodup_append'.mp hnodup
    obtain ⟨⟨on, hon⟩, off, hoff⟩ := ihc hc
    obtain ⟨-, off', hoff'⟩ := ihd hd
    refine ⟨⟨on, inl hon⟩, mix c.symbols off off', fun h => h.elim (fun hl => ?_) fun hr => ?_⟩
    · exact hoff ((c.mix_self off off').1.mp hl)
    · exact hoff' ((mix_other hdisj off off').1.mp hr)

/-- A condition that is read as its groups is flat. -/
theorem flat_of_reads (e : Cond l) (hnodup : e.symbols.Nodup) :
    ∀ {odd : Bool}, (∀ on, (odd = false ↔ e.Holds on) ↔ AnyGroup on e.groups) →
      e.flat odd = true := by
  induction e with
  | sym s =>
    intro odd h
    have := h fun _ => True
    cases odd <;> simp_all [Holds, AnyGroup, groups, flat]
  | not u ih =>
    intro odd h
    have hgoal : (not u).flat odd = u.flat !odd := rfl
    rw [hgoal]
    refine ih hnodup fun on => ?_
    rw [← show AnyGroup on (not u).groups ↔ AnyGroup on u.groups from Iff.rfl, ← h on]
    cases odd <;> simp [Holds]
  | paren d ih => exact fun h => ih hnodup h
  | ofUnary u ih => exact fun h => ih hnodup h
  | ofAnd c ih => exact fun h => ih hnodup h
  | or c d ihc ihd =>
    intro odd h
    obtain ⟨hc, hd, hdisj⟩ := nodup_append'.mp hnodup
    -- a pair of sets for the two operands
    have hpair (on on' : Word → Prop) : (odd = false ↔ c.Holds on ∨ d.Holds on') ↔
        AnyGroup on c.groups ∨ AnyGroup on' d.groups := by
      have := h (mix c.symbols on on')
      rwa [groups, anyGroup_append, Holds, (c.mix_self on on').1, (c.mix_self on on').2,
        (mix_other hdisj on on').1, (mix_other hdisj on on').2] at this
    have hcnone := not_anyGroup_none c.full_groups.full
    have hdnone := not_anyGroup_none d.full_groups.full
    have hdall := anyGroup_all d.full_groups.ne_nil
    cases odd with
    | true =>
      -- with all of `d` on the condition fails, so `c` never holds
      obtain ⟨⟨on, hon⟩, -⟩ := c.exists_holds hc
      have := hpair on fun _ => True
      simp [hon, hdall] at this
    | false =>
      have hnone := hpair (fun _ => False) fun _ => False
      simp only [hcnone, hdnone, true_iff, or_self, iff_false, not_or] at hnone
      have hfc : c.flat false = true := ihc hc fun on => by
        simpa [hnone.2, hdnone] using hpair on fun _ => False
      have hfd : d.flat false = true := ihd hd fun on => by
        simpa [hnone.1, hcnone] using hpair (fun _ => False) on
      simp [flat, hfc, hfd]
  | and u c ihu ihc =>
    intro odd h
    obtain ⟨hu, hc, hdisj⟩ := nodup_append'.mp hnodup
    obtain ⟨init, last, first, tail, hgu, hgc, hlast, hfirst, hjoin⟩ :=
      u.full_groups.joined c.full_groups
    have hinit : ∀ g ∈ init, g ≠ [] := fun g hg => u.full_groups.full g (by simp [hgu, hg])
    have htail : ∀ g ∈ tail, g ≠ [] := fun g hg => c.full_groups.full g (by simp [hgc, hg])
    have hsymu : init.flatten ++ last = u.symbols := by simp [← u.flatten_groups, hgu]
    have hsymc : first ++ tail.flatten = c.symbols := by simp [← c.flatten_groups, hgc]
    -- a pair of sets for the two operands
    have hpair (on on' : Word → Prop) : (odd = false ↔ u.Holds on ∧ c.Holds on') ↔
        AnyGroup on init ∨ ((∀ s ∈ last, on s) ∧ ∀ s ∈ first, on' s) ∨ AnyGroup on' tail := by
      have hself : ∀ s ∈ u.symbols, mix u.symbols on on' s ↔ on s := fun s hs => by
        simp [mix, hs]
      have hother : ∀ s ∈ c.symbols, mix u.symbols on on' s ↔ on' s := fun s hs => by
        have : s ∉ u.symbols := fun hs' => hdisj hs' hs
        simp [mix, this]
      have hsome : AnyGroup (mix u.symbols on on') (and u c).groups ↔
          AnyGroup on init ∨ ((∀ s ∈ last, on s) ∧ ∀ s ∈ first, on' s) ∨ AnyGroup on' tail := by
        have hi : AnyGroup (mix u.symbols on on') init ↔ AnyGroup on init :=
          anyGroup_congr fun s hs => hself s (hsymu ▸ mem_append_left _ hs)
        have ht : AnyGroup (mix u.symbols on on') tail ↔ AnyGroup on' tail :=
          anyGroup_congr fun s hs => hother s (hsymc ▸ mem_append_right _ hs)
        have hm : (∀ s ∈ last ++ first, mix u.symbols on on' s) ↔
            (∀ s ∈ last, on s) ∧ ∀ s ∈ first, on' s := by
          rw [forall_mem_append]
          exact and_congr
            (forall₂_congr fun s hs => hself s (hsymu ▸ mem_append_right _ hs))
            (forall₂_congr fun s hs => hother s (hsymc ▸ mem_append_left _ hs))
        rw [groups, hjoin, anyGroup_append, anyGroup_cons, hi, ht, hm]
      rw [← hsome, ← h, Holds, holds_congr hself, holds_congr hother]
    have hinone := not_anyGroup_none hinit
    have htnone := not_anyGroup_none htail
    have hlnone : ¬ ∀ s ∈ last, False := by
      obtain ⟨s, hs⟩ := exists_mem_of_ne_nil last hlast
      exact fun hall => hall s hs
    have hfnone : ¬ ∀ s ∈ first, False := by
      obtain ⟨s, hs⟩ := exists_mem_of_ne_nil first hfirst
      exact fun hall => hall s hs
    cases odd with
    | true =>
      -- an operand fails only on a group of its own, and none of them is in the joint one
      have hfailu (on : Word → Prop) (hon : ¬ u.Holds on) : AnyGroup on init := by
        have := (hpair on fun _ => False).mp (by simp [hon])
        simpa [htnone, hfnone] using this
      have hfailc (on : Word → Prop) (hon : ¬ c.Holds on) : AnyGroup on tail := by
        have := (hpair (fun _ => False) on).mp (by simp [hon])
        simpa [hinone, hlnone] using this
      have hjoint := (hpair (· ∈ last) (· ∈ first)).mpr (inr (inl ⟨by simp, by simp⟩))
      simp only [Bool.true_eq_false, false_iff, not_and_or] at hjoint
      rcases hjoint with hjoint | hjoint
      · obtain ⟨g, hg, hall⟩ := hfailu _ hjoint
        obtain ⟨s, hs⟩ := exists_mem_of_ne_nil g (hinit g hg)
        have hnd : (init.flatten ++ last).Nodup := hsymu ▸ hu
        exact absurd (hall s hs)
          ((nodup_append'.mp hnd).2.2 (mem_flatten.mpr ⟨g, hg, hs⟩))
      · obtain ⟨g, hg, hall⟩ := hfailc _ hjoint
        obtain ⟨s, hs⟩ := exists_mem_of_ne_nil g (htail g hg)
        have hnd : (first ++ tail.flatten).Nodup := hsymc ▸ hc
        exact absurd (mem_flatten.mpr ⟨g, hg, hs⟩)
          ((nodup_append'.mp hnd).2.2 (hall s hs))
    | false =>
      have hinit' : init = [] := by
        by_contra hne
        obtain ⟨-, on, hoff⟩ := c.exists_holds hc
        have := (hpair (fun _ => True) on).mpr (inl (anyGroup_all hne))
        exact hoff (this.mp rfl).2
      have htail' : tail = [] := by
        by_contra hne
        obtain ⟨-, on, hoff⟩ := u.exists_holds hu
        have := (hpair on fun _ => True).mpr (inr (inr (anyGroup_all hne)))
        exact hoff (this.mp rfl).1
      have hall := (hpair (fun _ => True) fun _ => True).mpr (inr (inl ⟨by simp, by simp⟩))
      have hfu : u.flat false = true := ihu hu fun on => by
        have := hpair on fun _ => True
        rw [hgu, hinit']
        simpa [hinit', htail', (hall.mp rfl).2, AnyGroup] using this
      have hfc : c.flat false = true := ihc hc fun on => by
        have := hpair (fun _ => True) on
        rw [hgc, htail']
        simpa [hinit', htail', (hall.mp rfl).1, AnyGroup] using this
      have hou : u.noOr = true := u.noOr_iff.mpr ⟨last, by simp [hgu, hinit']⟩
      have hoc : c.noOr = true := c.noOr_iff.mpr ⟨first, by simp [hgc, htail']⟩
      simp [flat, hfu, hfc, hou, hoc]

end Cond

noncomputable def Cond.configOf (on : Word → Prop) : Config := by
  classical
  exact fun name => if ∃ s : Word, s.text = name ∧ on s then .yes else .no

theorem configOf_conforms (tristate : Text → Bool) (on : Word → Prop) :
    Conforms tristate (Cond.configOf on) := by
  intro name _
  rw [Cond.configOf]
  split <;> simp

theorem configOf_text (s : Word) :
    (Cond.configOf on s.text = .yes ↔ on s) ∧ (Cond.configOf on s.text = .no ↔ ¬ on s) := by
  have hex : (∃ t : Word, t.text = s.text ∧ on t) ↔ on s := by
    refine ⟨fun h => ?_, fun hon => ⟨s, rfl, hon⟩⟩
    obtain ⟨t, ht, hon⟩ := h
    exact Word.ext ht ▸ hon
  by_cases hon : on s <;> simp [Cond.configOf, hex, hon]

theorem Cond.value_configOf (e : Cond l) (on : Word → Prop) :
    (e.value (configOf on) = .yes ↔ e.Holds on) ∧
      (e.value (configOf on) = .no ↔ ¬ e.Holds on) := by
  induction e with
  | sym s => exact configOf_text s
  | not u ih =>
    obtain ⟨hyes, hno⟩ := ih
    have hnot : (u.value (configOf on)).not = .yes ↔ u.value (configOf on) = .no := by
      cases u.value (configOf on) <;> simp [Tristate.not]
    exact ⟨hnot.trans hno, Tristate.not_eq_no.trans (hyes.trans not_not.symm)⟩
  | paren d ih => exact ih
  | ofUnary u ih => exact ih
  | ofAnd c ih => exact ih
  | and u c ihu ihc =>
    simp only [value, Holds, Tristate.and_eq_yes, Tristate.and_eq_no, ihu.1, ihu.2, ihc.1, ihc.2,
      true_and, not_and_or]
  | or c d ihc ihd =>
    simp only [value, Holds, Tristate.or_eq_yes, Tristate.or_eq_no, ihc.1, ihc.2, ihd.1, ihd.2,
      true_and, not_or]

/-- A condition that names its symbols once and is read alike is flat. -/
theorem Agreement.flat (h : Agreement tristate c) (hnodup : c.symbols.Nodup) :
    c.flat c.negated = true := by
  refine c.flat_of_reads hnodup fun on => ?_
  have hmade := h.made (configOf_conforms tristate on)
  have hgroups : (∃ g ∈ c.groups, AllEnabled (Cond.configOf on) g) ↔ AnyGroup on c.groups :=
    exists_congr fun g => and_congr_right fun _ => forall₂_congr fun s _ => by
      rw [ne_eq, (configOf_text s).2, not_not]
  rw [ne_eq, (c.value_configOf on).2, not_not, Cond.Made, hgroups] at hmade
  cases hneg : c.negated <;> simp_all

/-- A group of a row shares no symbol with the others, if the row names its symbols once. -/
theorem exists_not_mem (hnodup : gs.flatten.Nodup) (hfull : ∀ g ∈ gs, g ≠ []) {g g' : List Word}
    (hg : g ∈ gs) (hg' : g' ∈ gs) (hne : g' ≠ g) :
    ∃ s ∈ g', s ∉ g := by
  obtain ⟨s, hs⟩ := exists_mem_of_ne_nil g' (hfull g' hg')
  refine ⟨s, hs, fun hsg => ?_⟩
  have hpair := (nodup_flatten.mp hnodup).2
  have : Std.Symm (α := List Word) List.Disjoint := ⟨fun _ _ hxy _ ha hb => hxy hb ha⟩
  exact hpair.forall hg hg' (Ne.symm hne) hsg hs

open Classical in
/-- A negated condition that names its symbols once and is read alike has bool symbols. -/
theorem Agreement.bool (h : Agreement tristate c) (hnodup : c.symbols.Nodup)
    (hneg : c.negated = true) :
    ∀ s ∈ c.symbols, tristate s.text = false := by
  intro s hs
  by_contra htri
  rw [← c.flatten_groups] at hs hnodup
  obtain ⟨g, hg, hsg⟩ := mem_flatten.mp hs
  -- the group of the symbol is enabled, with the symbol a module
  let v : Config := fun name =>
    if ∃ w ∈ g, w.text = name then (if tristate name = true then .mod else .yes) else .no
  have hin (w : Word) (hw : w ∈ g) : v w.text = if tristate w.text = true then .mod else .yes :=
    if_pos ⟨w, hw, rfl⟩
  have hout (w : Word) (hw : w ∉ g) : v w.text = .no := by
    refine if_neg fun h => ?_
    obtain ⟨t, ht, heq⟩ := h
    exact hw (Word.ext heq ▸ ht)
  have hconf : Conforms tristate v := by
    intro name hname
    by_cases hmem : ∃ w ∈ g, w.text = name <;> simp [v, hmem, hname]
  have hon : AllEnabled v g := fun w hw => by
    rw [hin w hw]
    split <;> simp
  have hnone : ¬ ∃ g' ∈ c.groups, ∀ w ∈ g', v w.text = .yes := by
    rintro ⟨g', hg', hall⟩
    by_cases heq : g' = g
    · have := hall s (heq ▸ hsg)
      rw [hin s hsg, if_pos (by simpa using htri)] at this
      cases this
    · obtain ⟨w, hw, hwg⟩ := exists_not_mem hnodup c.full_groups.full hg hg' heq
      have := hall w hw
      rw [hout w hwg] at this
      cases this
  have hflat : c.flat true = true := hneg ▸ h.flat (c.flatten_groups ▸ hnodup)
  have hyes := Cond.value_eq_yes hflat v
  have hvalue : c.value v ≠ .no := by
    intro hno
    exact hnone (hyes.mp (by simp [undo, hno, Tristate.not]))
  have hmade := (h.made hconf).mp hvalue
  simp only [Cond.Made, hneg, Bool.true_eq_false, false_iff] at hmade
  exact hmade ⟨g, hg, hon⟩

/-! ## The result -/

/-- Kconfig and make agree on every dependency whose condition fits. If the condition names no
    symbol twice, they agree on it in all configurations only then. -/
theorem agreement_iff (tristate : Text → Bool) (c : Cond .or) :
    (c.Fits tristate → Agreement tristate c) ∧
      (c.symbols.Nodup → (Agreement tristate c ↔ c.Fits tristate)) := by
  have hfits (h : c.Fits tristate) : Agreement tristate c := agreement_of_made fun _ hv => h.made hv
  exact ⟨hfits, fun hnodup => ⟨fun h => ⟨h.flat hnodup, h.bool hnodup⟩, hfits⟩⟩

/-- The condition `(A||B)&&C`. -/
def orInAnd : Cond .or :=
  let a : Cond .unary := .sym ⟨['A'], by simp, rfl⟩
  let b : Cond .unary := .sym ⟨['B'], by simp, rfl⟩
  let c : Cond .unary := .sym ⟨['C'], by simp, rfl⟩
  .ofAnd (.and (.paren (.or (.ofUnary a) (.ofAnd (.ofUnary b)))) (.ofUnary c))

/-- With A alone, make compiles what Kconfig does not select. -/
theorem not_agreement_orInAnd : ¬ Agreement (fun _ => false) orInAnd := by
  intro h
  have hflat : orInAnd.flat orInAnd.negated = true := h.flat (by decide)
  exact absurd hflat (by decide)

end LibWrt.PackageMetadata
