/-
LibWrt.Lib.Custody — items held in places, each item in exactly one.

A system keeps items in places of some type `P`: `f p` is the list of items
place `p` holds. `Custody f live` says that the live items are exactly the
items held, that no place holds an item twice and that no item is in two
places. An operation touches finitely many places; `Custody.exchange` is
the one rule for all of them: what the touched places hold afterwards,
together with what left, is a rearrangement of what they held before and
what entered.
-/
import Mathlib.Tactic

namespace LibWrt

open List Function Or

variable {P α : Type}

/-- The places `f` hold the items `live`, each item once and in one place. -/
structure Custody (f : P → List α) (live : Finset α) : Prop where
  nodup : ∀ ps : List P, ps.Nodup → (ps.flatMap f).Nodup
  mem_iff : ∀ x, x ∈ live ↔ ∃ p, x ∈ f p

namespace Custody

variable {f f' : P → List α} {live live' : Finset α}

/-- No place holds an item twice. -/
theorem nodup_at (h : Custody f live) (p : P) : (f p).Nodup := by
  simpa using h.nodup [p] (nodup_singleton p)

/-- No item is in two places. -/
theorem place_unique (h : Custody f live) {p q : P} {x : α} (hp : x ∈ f p) (hq : x ∈ f q) :
    p = q := by
  by_contra hne
  have hpq : [p, q].Nodup := by simp [hne]
  have hd := h.nodup [p, q] hpq
  simp only [flatMap_cons, flatMap_nil, append_nil] at hd
  exact disjoint_of_nodup_append hd hp hq

/-- A live item is held once, by one place. -/
theorem exactly_one [DecidableEq α] (h : Custody f live) {x : α} (hx : x ∈ live) :
    ∃ p, (f p).count x = 1 ∧ ∀ q, x ∈ f q → q = p := by
  obtain ⟨p, hp⟩ := (h.mem_iff x).mp hx
  refine ⟨p, count_eq_one_of_mem (h.nodup_at p) hp, ?_⟩
  intro q hq
  exact h.place_unique hq hp

/-- An item that is not live is held nowhere. -/
theorem nowhere (h : Custody f live) {x : α} (hx : x ∉ live) (p : P) : x ∉ f p :=
  fun hp => hx ((h.mem_iff x).mpr ⟨p, hp⟩)

/-- Nothing is held and nothing is live. -/
theorem empty (hf : ∀ p, f p = []) : Custody f ∅ where
  nodup ps _ := by
    have hnil : ps.flatMap f = [] := flatMap_eq_nil_iff.mpr (fun p _ => hf p)
    simp [hnil]
  mem_iff x := by simp [hf]

/-- The places `ps` exchange items: what they hold afterwards together with what
    left is what they held before together with what entered. -/
theorem exchange (h : Custody f live) (ps : List P) (out entered : List α) (hps : ps.Nodup)
    (hframe : ∀ r, r ∉ ps → f' r = f r)
    (hperm : (ps.flatMap f' ++ out).Perm (ps.flatMap f ++ entered))
    (hentered : entered.Nodup) (hfresh : ∀ x ∈ entered, x ∉ live)
    (hlive : ∀ x, x ∈ live' ↔ (x ∈ live ∨ x ∈ entered) ∧ x ∉ out) :
    Custody f' live' := by
  classical
  have hframes : ∀ qs : List P, (∀ q ∈ qs, q ∉ ps) → qs.flatMap f' = qs.flatMap f := by
    intro qs hqs
    induction qs with
    | nil => rfl
    | cons q qs ih =>
      rw [flatMap_cons, flatMap_cons, hframe q (hqs q (by simp)),
        ih (fun r hr => hqs r (by simp [hr]))]
  -- everything held afterwards by `ps` and any further places, and what left, is duplicate free
  have hall : ∀ qs : List P, qs.Nodup → (∀ q ∈ qs, q ∉ ps) →
      ((ps ++ qs).flatMap f' ++ out).Nodup := by
    intro qs hqs hout
    have hbefore : ((ps ++ qs).flatMap f ++ entered).Nodup := by
      have hpq : (ps ++ qs).Nodup :=
        List.Nodup.append hps hqs (fun q hq hq' => hout q hq' hq)
      refine List.Nodup.append (h.nodup _ hpq) hentered ?_
      intro x hx hx'
      obtain ⟨p, -, hp⟩ := mem_flatMap.mp hx
      exact h.nowhere (hfresh x hx') p hp
    have hmove : ((ps ++ qs).flatMap f' ++ out).Perm ((ps ++ qs).flatMap f ++ entered) := by
      rw [flatMap_append, flatMap_append, hframes qs hout]
      calc (ps.flatMap f' ++ qs.flatMap f ++ out).Perm
            (ps.flatMap f' ++ out ++ qs.flatMap f) := by
            simpa [append_assoc] using perm_append_comm.append_left (ps.flatMap f')
        Perm _ (ps.flatMap f ++ entered ++ qs.flatMap f) := hperm.append_right _
        Perm _ _ := by
            simpa [append_assoc] using perm_append_comm.append_left (ps.flatMap f)
    exact hmove.nodup_iff.mpr hbefore
  refine ⟨?_, ?_⟩
  · intro qs hqs
    have hrest := hall (qs.filter (· ∉ ps)) (hqs.filter _) (by simp)
    have hsub : qs.Subperm (ps ++ qs.filter (· ∉ ps)) := by
      refine subperm_of_subset hqs ?_
      intro q hq
      by_cases hq' : q ∈ ps <;> simp [hq, hq']
    obtain ⟨rs, hrs, hsl⟩ := hsub
    have hnd : (rs.flatMap f').Nodup :=
      hrest.of_append_left.sublist (hsl.flatMap f')
    exact ((hrs.flatMap_right f').nodup_iff).mp hnd
  · intro x
    have hx := hperm.mem_iff (a := x)
    simp only [mem_append, mem_flatMap] at hx
    rw [hlive x]
    constructor
    · rintro ⟨hin, hnot⟩
      rcases hin with hin | hin
      · obtain ⟨p, hp⟩ := (h.mem_iff x).mp hin
        by_cases hmem : p ∈ ps
        · rcases hx.mpr (inl ⟨p, hmem, hp⟩) with ⟨q, -, hq⟩ | hq
          · exact ⟨q, hq⟩
          · exact absurd hq hnot
        · exact ⟨p, by rw [hframe p hmem]; exact hp⟩
      · rcases hx.mpr (inr hin) with ⟨q, -, hq⟩ | hq
        · exact ⟨q, hq⟩
        · exact absurd hq hnot
    · rintro ⟨p, hp⟩
      by_cases hmem : p ∈ ps
      · have hnd := hall [] nodup_nil (by simp)
        rw [append_nil] at hnd
        have hnot : x ∉ out := fun ho =>
          disjoint_of_nodup_append hnd (mem_flatMap.mpr ⟨p, hmem, hp⟩) ho
        rcases hx.mp (inl ⟨p, hmem, hp⟩) with ⟨q, -, hq⟩ | hq
        · exact ⟨inl ((h.mem_iff x).mpr ⟨q, hq⟩), hnot⟩
        · exact ⟨inr hq, hnot⟩
      · rw [hframe p hmem] at hp
        refine ⟨inl ((h.mem_iff x).mpr ⟨p, hp⟩), ?_⟩
        intro ho
        have hnd := hall [p] (by simp) (by simpa using hmem)
        refine disjoint_of_nodup_append hnd ?_ ho
        simp [hframe p hmem, hp]

/-- The places `ps` rearrange their items among themselves. -/
theorem move (h : Custody f live) (ps : List P) (hps : ps.Nodup)
    (hframe : ∀ r, r ∉ ps → f' r = f r) (hperm : (ps.flatMap f').Perm (ps.flatMap f)) :
    Custody f' live :=
  h.exchange ps [] [] hps hframe (by simpa using hperm) nodup_nil (by simp) (by simp)

/-! ## One and two places -/

variable [DecidableEq P]

/-- One place gets items that were free. -/
theorem enter (h : Custody f live) {p : P} {q : List α} (entered : List α)
    (hperm : q.Perm (f p ++ entered)) (hentered : entered.Nodup)
    (hfresh : ∀ x ∈ entered, x ∉ live) (hlive : ∀ x, x ∈ live' ↔ x ∈ live ∨ x ∈ entered) :
    Custody (update f p q) live' := by
  refine h.exchange [p] [] entered (nodup_singleton p) ?_ (by simpa using hperm) hentered
    hfresh (by simpa using hlive)
  intro r hr
  rw [mem_singleton] at hr
  rw [update_of_ne hr]

/-- Items leave one place and are free. -/
theorem leave (h : Custody f live) {p : P} {q : List α} (out : List α) (hperm : (q ++ out).Perm (f p))
    (hlive : ∀ x, x ∈ live' ↔ x ∈ live ∧ x ∉ out) :
    Custody (update f p q) live' := by
  refine h.exchange [p] out [] (nodup_singleton p) ?_ (by simpa using hperm)
    nodup_nil (by simp) (by simpa using hlive)
  intro r hr
  rw [mem_singleton] at hr
  rw [update_of_ne hr]

/-- Items go from one place to another. -/
theorem shift (h : Custody f live) {p p' : P} (hne : p ≠ p') {q q' : List α}
    (hperm : (q ++ q').Perm (f p ++ f p')) :
    Custody (update (update f p q) p' q') live := by
  refine h.move [p, p'] (by simp [hne]) ?_ ?_
  · intro r hr
    simp only [mem_cons, not_mem_nil, or_false, not_or] at hr
    rw [update_of_ne hr.2, update_of_ne hr.1]
  · simpa [hne] using hperm

end Custody

end LibWrt
