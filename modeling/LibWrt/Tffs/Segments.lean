/-
LibWrt.Tffs.Segments — what is collected of the segments of an entry.

Whatever order the segments come in, their highest revision counts, without
what is cleared, and the last segment of a number. `collectAll_eq` says so of
segments that stay in the array; `InArray` is when a segment does wherever it
comes.
-/
import LibWrt.Tffs.Flash

namespace LibWrt.Tffs

open List

/-! ## The highest revision -/

def topRev (segs : List Segment) : Nat := segs.foldl (fun r e => max r e.rev) 0

def latest (segs : List Segment) : List Segment :=
  segs.filter fun e => e.rev = topRev segs ∧ e.seg ≠ segmentCleared

def numSegs (segs : List Segment) : Nat := segs.foldl (fun n e => max n e.newNumSegs) 0

def slot (segs : List Segment) (i : Nat) : Option (List UInt8) :=
  (segs.filter fun e => e.seg = i).getLast?.map (·.val)

theorem topRev_append (segs : List Segment) (e : Segment) :
    topRev (segs ++ [e]) = max (topRev segs) e.rev := by
  simp [topRev]

theorem numSegs_append (segs : List Segment) (e : Segment) :
    numSegs (segs ++ [e]) = max (numSegs segs) e.newNumSegs := by
  simp [numSegs]

variable {segs : List Segment} {e : Segment} {i : Nat}

theorem rev_le_topRev (h : e ∈ segs) :
    e.rev ≤ topRev segs := by
  induction segs using reverseRecOn with
  | nil => cases h
  | append_singleton segs e' ih =>
    rw [topRev_append]
    rcases mem_append.mp h with h | h
    · exact le_trans (ih h) (le_max_left _ _)
    · rw [mem_singleton.mp h]
      exact le_max_right _ _

theorem newNumSegs_le_numSegs (h : e ∈ segs) :
    e.newNumSegs ≤ numSegs segs := by
  induction segs using reverseRecOn with
  | nil => cases h
  | append_singleton segs e' ih =>
    rw [numSegs_append]
    rcases mem_append.mp h with h | h
    · exact le_trans (ih h) (le_max_left _ _)
    · rw [mem_singleton.mp h]
      exact le_max_right _ _

theorem mem_latest :
    e ∈ latest segs ↔ e ∈ segs ∧ e.rev = topRev segs ∧ e.seg ≠ segmentCleared := by
  simp [latest]

theorem latest_append_lt (h : e.rev < topRev segs) :
    latest (segs ++ [e]) = latest segs := by
  have htop : topRev (segs ++ [e]) = topRev segs := by
    rw [topRev_append]
    exact max_eq_left h.le
  simp [latest, htop, h.ne]

theorem latest_append_eq (h : e.rev = topRev segs) :
    latest (segs ++ [e]) = if e.seg = segmentCleared then latest segs else latest segs ++ [e] := by
  have htop : topRev (segs ++ [e]) = topRev segs := by
    rw [topRev_append]
    exact max_eq_left h.le
  split
  · rename_i hcleared
    simp [latest, htop, hcleared]
  · rename_i hkept
    simp [latest, htop, h, hkept]

/-- A newer revision starts again. -/
theorem latest_append_gt (h : topRev segs < e.rev) :
    latest (segs ++ [e]) = if e.seg = segmentCleared then [] else [e] := by
  have htop : topRev (segs ++ [e]) = e.rev := by
    rw [topRev_append]
    exact max_eq_right h.le
  have hold : segs.filter (fun e' => e'.rev = e.rev ∧ e'.seg ≠ segmentCleared) = [] := by
    rw [filter_eq_nil_iff]
    intro e' he'
    have := rev_le_topRev he'
    simp
    omega
  split
  · rename_i hcleared
    rw [latest, htop, filter_append, hold]
    simp [hcleared]
  · rename_i hkept
    rw [latest, htop, filter_append, hold]
    simp [hkept]

/-! ## What is collected -/

def collectAll (maxSegments : Nat) : List Segment → Collected → Option Collected
  | [], c => some c
  | e :: segs, c => (collect maxSegments c e).bind (collectAll maxSegments segs)

theorem collectAll_append (maxSegments : Nat) (segs segs' : List Segment) (c : Collected) :
    collectAll maxSegments (segs ++ segs') c =
      (collectAll maxSegments segs c).bind (collectAll maxSegments segs') := by
  induction segs generalizing c with
  | nil => rfl
  | cons e segs ih =>
    rw [cons_append, collectAll, collectAll]
    cases collect maxSegments c e with
    | none => rfl
    | some c' => exact ih c'

/-- The segment finds its place in the array, if it comes first. -/
def InArray (maxSegments : Nat) (e : Segment) : Prop :=
  e.seg ≠ segmentCleared → e.seg < e.newNumSegs ∧ e.newNumSegs ≤ maxSegments

def filled (segs : List Segment) : List (Option (List UInt8)) :=
  (range (numSegs segs)).map (slot segs)

@[simp] theorem length_filled (segs : List Segment) : (filled segs).length = numSegs segs := by
  simp [filled]

theorem slot_append (segs : List Segment) (e : Segment) (i : Nat) :
    slot (segs ++ [e]) i = if e.seg = i then some e.val else slot segs i := by
  unfold slot
  split
  · rename_i heq
    simp [heq]
  · rename_i hne
    simp [hne]

/-- There is nothing behind the array. -/
theorem slot_of_le (h : ∀ e ∈ segs, e.seg < e.newNumSegs) (hi : numSegs segs ≤ i) :
    slot segs i = none := by
  have hnone : segs.filter (fun e => e.seg = i) = [] := by
    rw [filter_eq_nil_iff]
    intro e he
    have := h e he
    have := newNumSegs_le_numSegs he
    simp
    omega
  simp [slot, hnone]

/-- A segment that is put into the array. -/
theorem filled_append (h : ∀ e ∈ segs, e.seg < e.newNumSegs) :
    filled (segs ++ [e]) = (filled segs ++
      replicate (e.newNumSegs - (filled segs).length) none).set e.seg (some e.val) := by
  have hlen : (filled (segs ++ [e])).length =
      ((filled segs ++ replicate (e.newNumSegs - (filled segs).length) none).set e.seg
        (some e.val)).length := by
    simp [numSegs_append]
    omega
  apply ext_getElem hlen
  intro i hi hi'
  have hleft : (filled (segs ++ [e]))[i] = slot (segs ++ [e]) i := by simp [filled]
  rw [hleft, slot_append, getElem_set]
  refine if_congr Iff.rfl rfl ?_
  by_cases hin : i < (filled segs).length
  · rw [getElem_append_left hin]
    simp [filled]
  · rw [getElem_append_right (Nat.not_lt.mp hin), getElem_replicate]
    exact slot_of_le h (by simpa using hin)

theorem place_eq {maxSegments rev : Nat} (segs : List Segment)
    (hplaced : ∀ e ∈ segs, e.seg < e.newNumSegs) (h : InArray maxSegments e) :
    Collected.place maxSegments ⟨rev, filled segs⟩ e =
      some ⟨rev, filled (if e.seg = segmentCleared then segs else segs ++ [e])⟩ := by
  unfold Collected.place
  split
  · rfl
  · rename_i hkept
    obtain ⟨hlt, hle⟩ := h hkept
    rw [if_neg (by omega), filled_append hplaced]
    exact if_pos (by simp; omega)

/-- The loop over segments that stay in the array wherever they come. -/
theorem collectAll_eq {maxSegments : Nat} (h : ∀ e ∈ segs, InArray maxSegments e) :
    collectAll maxSegments segs ⟨0, []⟩ = some ⟨topRev segs, filled (latest segs)⟩ := by
  induction segs using reverseRecOn with
  | nil => rfl
  | append_singleton segs e ih =>
    have hsegs : ∀ e' ∈ segs, InArray maxSegments e' := fun e' he' =>
      h e' (mem_append_left _ he')
    have hplaced : ∀ e' ∈ latest segs, e'.seg < e'.newNumSegs := by
      intro e' he'
      obtain ⟨hmem, -, hkept⟩ := mem_latest.mp he'
      exact (hsegs e' hmem hkept).1
    have hlast : collectAll maxSegments (segs ++ [e]) ⟨0, []⟩ =
        collect maxSegments ⟨topRev segs, filled (latest segs)⟩ e := by
      rw [collectAll_append, ih hsegs]
      show (collect maxSegments _ e).bind some = _
      exact Option.bind_fun_some _
    rw [hlast, topRev_append]
    unfold collect Collected.renew
    dsimp only
    rcases Nat.lt_trichotomy e.rev (topRev segs) with hlt | heq | hgt
    · rw [if_pos hlt, latest_append_lt hlt, max_eq_left hlt.le]
    · rw [if_neg (by omega), if_neg (by omega), latest_append_eq heq, max_eq_left heq.le]
      exact place_eq _ hplaced (h e (by simp))
    · rw [if_neg (by omega), if_pos hgt, latest_append_gt hgt, max_eq_right hgt.le]
      exact place_eq [] (by simp) (h e (by simp))

/-! ## The value of an entry -/

def Missing (segs : List Segment) : Prop :=
  numSegs (latest segs) = 0 ∨ ∃ i < numSegs (latest segs), ∀ e ∈ latest segs, e.seg ≠ i

/-- The segments of the highest revision in the order of their numbers. -/
def IsValue (segs : List Segment) (value : List UInt8) : Prop :=
  ∃ vals : List (List UInt8), vals ≠ [] ∧ vals.length = numSegs (latest segs) ∧
    (∀ i v, vals[i]? = some v → ∃ e ∈ latest segs, e.seg = i ∧ e.val = v) ∧ value = vals.flatten

def Meets (segs : List Segment) : Option (List UInt8) → Prop
  | some value => IsValue segs value
  | none => Missing segs

/-- No two segments of the highest revision have one number and are not the same. -/
def Unambiguous (segs : List Segment) : Prop :=
  ∀ e ∈ latest segs, ∀ e' ∈ latest segs, e.seg = e'.seg → e.val = e'.val

def lookup (maxSegments : Nat) (segs : List Segment) : Option (Option (List UInt8)) :=
  (collectAll maxSegments segs ⟨0, []⟩).bind fun c => assemble c.segments

theorem slot_eq_none :
    slot segs i = none ↔ ∀ e ∈ segs, e.seg ≠ i := by
  simp [slot]

theorem exists_of_slot {v : List UInt8} (h : slot segs i = some v) :
    ∃ e ∈ segs, e.seg = i ∧ e.val = v := by
  obtain ⟨e, he, rfl⟩ := Option.map_eq_some_iff.mp h
  have hmem := mem_of_getLast? he
  simp only [mem_filter, decide_eq_true_eq] at hmem
  exact ⟨e, hmem.1, hmem.2, rfl⟩

theorem numSegs_le_length (h : ∀ i < numSegs segs, ∃ e ∈ segs, e.seg = i) :
    numSegs segs ≤ segs.length := by
  have hsub : range (numSegs segs) ⊆ segs.map (·.seg) := by
    intro i hi
    obtain ⟨e, he, hseg⟩ := h i (mem_range.mp hi)
    exact mem_map.mpr ⟨e, he, hseg⟩
  have hle := (nodup_range.subperm hsub).length_le
  simpa using hle

theorem length_flatten_le {l : List (List UInt8)} {n : Nat} (h : ∀ v ∈ l, v.length ≤ n) :
    l.flatten.length ≤ n * l.length := by
  induction l with
  | nil => simp
  | cons v l ih =>
    have hv := h v (by simp)
    have hl := ih fun v' hv' => h v' (mem_cons_of_mem _ hv')
    rw [flatten_cons, length_append, length_cons, Nat.mul_add]
    omega

section Value

variable {maxSegments : Nat} {segs segs' : List Segment}

theorem latest_subset : latest segs ⊆ segs := fun _ h => (mem_latest.mp h).1

/-- What is assembled of the array is the value. -/
theorem assemble_filled (hval : ∀ e ∈ segs, e.val.length ≤ maximumSegmentSize)
    (hsize : maximumSegmentSize * segs.length < 2 ^ 32) :
    ∃ r, assemble (filled (latest segs)) = some r ∧ Meets segs r ∧
      (¬ Missing segs →
        r = some ((filled (latest segs)).map fun s => s.getD []).flatten) := by
  unfold assemble
  split
  · rename_i hnone
    have hmissing : Missing segs := by
      rcases hnone with hnil | hmem
      · left
        rw [← length_filled, hnil]
        rfl
      · obtain ⟨i, hi, hslot⟩ := mem_map.mp hmem
        exact .inr ⟨i, mem_range.mp hi, slot_eq_none.mp hslot⟩
    exact ⟨none, rfl, hmissing, fun h => absurd hmissing h⟩
  · rename_i hfull
    rw [not_or] at hfull
    obtain ⟨hne, hsome⟩ := hfull
    have hslot : ∀ i < numSegs (latest segs), ∃ v, slot (latest segs) i = some v := by
      intro i hi
      rw [← Option.ne_none_iff_exists']
      intro hnone
      exact hsome (mem_map.mpr ⟨i, mem_range.mpr hi, hnone⟩)
    have hentry : ∀ i v, ((filled (latest segs)).map fun s => s.getD [])[i]? = some v →
        ∃ e ∈ latest segs, e.seg = i ∧ e.val = v := by
      intro i v hget
      obtain ⟨hi, rfl⟩ := List.getElem?_eq_some_iff.mp hget
      have hi' : i < numSegs (latest segs) := by simpa using hi
      obtain ⟨w, hw⟩ := hslot i hi'
      obtain ⟨e, he, hseg, hvaleq⟩ := exists_of_slot hw
      exact ⟨e, he, hseg, by simp [filled, hw, hvaleq]⟩
    set vals := (filled (latest segs)).map fun s => s.getD [] with hvals
    have hlen : vals.length = numSegs (latest segs) := by simp [hvals]
    have hcount : numSegs (latest segs) ≤ segs.length := by
      refine le_trans (numSegs_le_length fun i hi => ?_) (length_filter_le _ _)
      obtain ⟨v, hv⟩ := hslot i hi
      obtain ⟨e, he, hseg, -⟩ := exists_of_slot hv
      exact ⟨e, he, hseg⟩
    have hflat : vals.flatten.length < 2 ^ 32 := by
      have hle := length_flatten_le (l := vals) (n := maximumSegmentSize) fun v hv => by
        obtain ⟨i, hi, hget⟩ := getElem_of_mem hv
        obtain ⟨e, he, -, rfl⟩ := hentry i v (by rw [getElem?_eq_getElem hi, hget])
        exact hval e (latest_subset he)
      rw [hlen] at hle
      exact lt_of_le_of_lt (le_trans hle (Nat.mul_le_mul_left _ hcount)) hsize
    refine ⟨some vals.flatten, if_pos hflat, ⟨vals, ?_, hlen, hentry, rfl⟩, fun _ => rfl⟩
    intro hnil
    apply hne
    simpa [hvals] using hnil

theorem topRev_perm (h : segs.Perm segs') : topRev segs = topRev segs' :=
  h.foldl_eq' (fun a _ b _ r => by omega) 0

theorem latest_perm (h : segs.Perm segs') : (latest segs).Perm (latest segs') := by
  unfold latest
  rw [topRev_perm h]
  exact h.filter _

theorem numSegs_perm (h : segs.Perm segs') : numSegs segs = numSegs segs' :=
  h.foldl_eq' (fun a _ b _ r => by omega) 0

theorem missing_perm (h : segs.Perm segs') : Missing segs ↔ Missing segs' := by
  have hlatest := latest_perm h
  unfold Missing
  rw [numSegs_perm hlatest]
  simp only [hlatest.mem_iff]

/-- The array is the same in any order. -/
theorem filled_perm (h : segs.Perm segs') (hone : Unambiguous segs) :
    filled (latest segs) = filled (latest segs') := by
  have hlatest := latest_perm h
  have hslot : ∀ i, slot (latest segs) i = slot (latest segs') i := by
    intro i
    cases hs : slot (latest segs) i with
    | none =>
      symm
      rw [slot_eq_none] at hs ⊢
      exact fun e he => hs e (hlatest.mem_iff.mpr he)
    | some v =>
      obtain ⟨e, he, hseg, rfl⟩ := exists_of_slot hs
      cases hs' : slot (latest segs') i with
      | none => exact absurd hseg (slot_eq_none.mp hs' e (hlatest.mem_iff.mp he))
      | some v' =>
        obtain ⟨e', he', hseg', rfl⟩ := exists_of_slot hs'
        rw [hone e he e' (hlatest.mem_iff.mpr he') (hseg.trans hseg'.symm)]
  unfold filled
  rw [numSegs_perm hlatest]
  exact map_congr_left fun i _ => hslot i

theorem IsValue.not_missing {value : List UInt8} (h : IsValue segs value) : ¬ Missing segs := by
  obtain ⟨vals, hne, hlen, hentry, -⟩ := h
  have hpos := length_pos_iff.mpr hne
  rintro (hzero | ⟨i, hi, hnone⟩)
  · omega
  · obtain ⟨e, he, hseg, -⟩ := hentry i vals[i] (getElem?_eq_getElem (by omega))
    exact hnone e he hseg

theorem Meets.eq_none {r : Option (List UInt8)} (h : Meets segs r) (hmissing : Missing segs) :
    r = none := by
  cases r with
  | none => rfl
  | some value => exact absurd hmissing h.not_missing

/-- The value does not depend on the order. -/
theorem lookup_spec (harray : ∀ e ∈ segs, InArray maxSegments e)
    (hone : Missing segs ∨ Unambiguous segs)
    (hval : ∀ e ∈ segs, e.val.length ≤ maximumSegmentSize)
    (hsize : maximumSegmentSize * segs.length < 2 ^ 32) :
    ∃ r, Meets segs r ∧ ∀ segs', segs'.Perm segs → lookup maxSegments segs' = some r := by
  obtain ⟨r, hr, hmeets, -⟩ := assemble_filled hval hsize
  refine ⟨r, hmeets, fun segs' hperm => ?_⟩
  have harray' : ∀ e ∈ segs', InArray maxSegments e := fun e he =>
    harray e (hperm.mem_iff.mp he)
  unfold lookup
  rw [collectAll_eq harray']
  show assemble (filled (latest segs')) = some r
  rcases hone with hmissing | hone
  · have hval' : ∀ e ∈ segs', e.val.length ≤ maximumSegmentSize := fun e he =>
      hval e (hperm.mem_iff.mp he)
    obtain ⟨r', hr', hmeets', -⟩ := assemble_filled hval' (by rw [hperm.length_eq]; exact hsize)
    have hmissing' := (missing_perm hperm).mpr hmissing
    rw [hr', hmeets'.eq_none hmissing', hmeets.eq_none hmissing]
  · rw [← filled_perm hperm.symm hone, hr]

/-- A segment that comes first has to stay in the array. -/
theorem inArray_of_lookup {e : Segment} (h : lookup maxSegments (e :: segs) ≠ none) :
    InArray maxSegments e := by
  intro hkept
  by_contra hout
  apply h
  have hplace : Collected.place maxSegments ⟨e.rev, []⟩ e = none := by
    unfold Collected.place
    rw [if_neg hkept]
    split
    · rfl
    · rename_i hroom
      apply if_neg
      simp at hroom ⊢
      omega
  have hcollect : collect maxSegments ⟨0, []⟩ e = none := by
    unfold collect Collected.renew
    rw [if_neg (Nat.not_lt_zero _)]
    split
    · exact hplace
    · rename_i hzero
      have hrev : e.rev = 0 := by simpa using hzero
      rw [hrev] at hplace
      exact hplace
  simp [lookup, collectAll, hcollect]

/-- The value that stands for one number tells. -/
theorem eq_of_flatten {g : Nat → List UInt8} {v v' : List UInt8} {n s : Nat} (hs : s < n)
    (h : ((range n).map fun i => if i = s then v else g i).flatten =
      ((range n).map fun i => if i = s then v' else g i).flatten) : v = v' := by
  induction n with
  | zero => omega
  | succ n ih =>
    simp only [range_succ, map_append, map_singleton, flatten_append,
      flatten_singleton] at h
    by_cases hn : n = s
    · -- before the number, nothing tells
      have hbefore : ∀ w : List UInt8, ((range n).map fun i => if i = s then w else g i) =
          (range n).map g := by
        intro w
        refine map_congr_left fun i hi => if_neg ?_
        have := mem_range.mp hi
        omega
      rw [hbefore, hbefore, if_pos hn, if_pos hn] at h
      exact append_cancel_left h
    · rw [if_neg hn, if_neg hn] at h
      exact ih (by omega) (append_cancel_right h)

theorem filled_last {e e' : Segment} (hlatest : (latest segs) = segs' ++ [e', e])
    (hseg : e.seg = e'.seg) : (filled (latest segs)).map (fun s => s.getD []) =
      (range (numSegs (latest segs))).map fun i =>
        if i = e.seg then e.val else (slot segs' i).getD [] := by
  unfold filled
  rw [map_map]
  refine map_congr_left fun i _ => ?_
  have hsplit : segs' ++ [e', e] = (segs' ++ [e']) ++ [e] := by simp
  show (slot (latest segs) i).getD [] = _
  rw [hlatest, hsplit, slot_append, slot_append, ← hseg]
  by_cases hi : e.seg = i
  · simp [hi]
  · rw [if_neg hi, if_neg hi, if_neg (Ne.symm hi)]

/-- Two segments with one number are the same, if the value does not depend on the order. -/
theorem unambiguous_of_lookup (harray : ∀ e ∈ segs, InArray maxSegments e)
    (hval : ∀ e ∈ segs, e.val.length ≤ maximumSegmentSize)
    (hsize : maximumSegmentSize * segs.length < 2 ^ 32) (hfound : ¬ Missing segs)
    (h : ∀ segs' segs'', segs'.Perm segs → segs''.Perm segs →
      lookup maxSegments segs' = lookup maxSegments segs'') : Unambiguous segs := by
  intro e he e' he' hseg
  by_contra hne
  obtain ⟨hmem, hrev, hkept⟩ := mem_latest.mp he
  obtain ⟨hmem', hrev', hkept'⟩ := mem_latest.mp he'
  -- the others, and the two of them last
  obtain ⟨rest, hrest⟩ : ∃ rest, segs.Perm (e :: e' :: rest) := by
    obtain ⟨a, b, rfl⟩ := append_of_mem hmem
    have hin : e' ∈ a ++ b := by
      rcases mem_append.mp hmem' with ha | hb
      · exact mem_append_left _ ha
      · rcases mem_cons.mp hb with rfl | hb
        · exact absurd rfl hne
        · exact mem_append_right _ hb
    obtain ⟨c, d, hcd⟩ := append_of_mem hin
    refine ⟨c ++ d, perm_middle.trans ?_⟩
    rw [hcd]
    exact perm_middle.cons e
  have hlast : ∀ f f' : Segment, (f = e ∧ f' = e') ∨ (f = e' ∧ f' = e) →
      (rest ++ [f', f]).Perm segs := by
    rintro f f' (⟨rfl, rfl⟩ | ⟨rfl, rfl⟩)
    · refine perm_append_comm.trans (List.Perm.trans ?_ hrest.symm)
      exact List.Perm.swap _ _ _
    · exact perm_append_comm.trans hrest.symm
  have hvalue : ∀ f f' : Segment, (f = e ∧ f' = e') ∨ (f = e' ∧ f' = e) →
      lookup maxSegments (rest ++ [f', f]) = some (some
        ((range (numSegs (latest segs))).map fun i =>
          if i = e.seg then f.val else
            (slot (rest.filter fun g => g.rev = topRev segs ∧ g.seg ≠ segmentCleared) i).getD
              []).flatten) := by
    intro f f' hff
    have hperm := hlast f f' hff
    have hmissing : ¬ Missing (rest ++ [f', f]) := fun hm => hfound ((missing_perm hperm).mp hm)
    have hval' : ∀ g ∈ rest ++ [f', f], g.val.length ≤ maximumSegmentSize := fun g hg =>
      hval g (hperm.mem_iff.mp hg)
    obtain ⟨r, hr, -, hvalue⟩ := assemble_filled hval' (by rw [hperm.length_eq]; exact hsize)
    have hboth : (f.rev = topRev segs ∧ f.seg ≠ segmentCleared ∧ f.seg = e.seg) ∧
        f'.rev = topRev segs ∧ f'.seg ≠ segmentCleared ∧ f.seg = f'.seg := by
      rcases hff with ⟨rfl, rfl⟩ | ⟨rfl, rfl⟩
      · exact ⟨⟨hrev, hkept, rfl⟩, hrev', hkept', hseg⟩
      · exact ⟨⟨hrev', hkept', hseg.symm⟩, hrev, hkept, hseg.symm⟩
    have hlatest : latest (rest ++ [f', f]) =
        (rest.filter fun g => g.rev = topRev segs ∧ g.seg ≠ segmentCleared) ++ [f', f] := by
      rw [latest, topRev_perm hperm, filter_append]
      congr 1
      simp [hboth, hkept]
    unfold lookup
    rw [collectAll_eq fun g hg => harray g (hperm.mem_iff.mp hg)]
    show assemble (filled (latest (rest ++ [f', f]))) = _
    rw [hr, hvalue hmissing, filled_last hlatest hboth.2.2.2, hboth.1.2.2,
      numSegs_perm (latest_perm hperm)]
  have hsame := h _ _ (hlast e e' (.inl ⟨rfl, rfl⟩)) (hlast e' e (.inr ⟨rfl, rfl⟩))
  rw [hvalue e e' (.inl ⟨rfl, rfl⟩), hvalue e' e (.inr ⟨rfl, rfl⟩)] at hsame
  have hin : e.seg < numSegs (latest segs) :=
    lt_of_lt_of_le (harray e hmem hkept).1 (newNumSegs_le_numSegs he)
  exact hne (eq_of_flatten hin (Option.some.inj (Option.some.inj hsame)))

end Value

end LibWrt.Tffs
