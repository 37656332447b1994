/-
LibWrt.PackageMetadata.Groups — what gen_condition makes of a condition.

gen_condition deletes parentheses and `!` from the text, cuts what is left at
`||` and the pieces at `&&`. The pieces are the groups of the condition: the
symbols between one `||` of the text and the next. The expression is not empty
exactly when all symbols of a group are enabled.
-/
import LibWrt.PackageMetadata.Make

namespace LibWrt.PackageMetadata

open List

/-! ## Rows of texts with an operator between them -/

def joined (c : Char) : List Text → Text
  | [] => []
  | [t] => t
  | t :: ts => t ++ c :: c :: joined c ts

@[simp] theorem joined_singleton (c : Char) (t : Text) : joined c [t] = t := rfl

variable {c : Char} {t : Text} {ts : List Text} {g : List Word} {gs hs : List (List Word)}
  {l : Level}

theorem joined_cons (hts : ts ≠ []) :
    joined c (t :: ts) = t ++ c :: c :: joined c ts := by
  cases ts with
  | nil => exact absurd rfl hts
  | cons u us => rfl

theorem joined_append {us : List Text} (hts : ts ≠ []) (hus : us ≠ []) :
    joined c (ts ++ us) = joined c ts ++ c :: c :: joined c us := by
  induction ts with
  | nil => exact absurd rfl hts
  | cons t ts ih =>
    by_cases hnil : ts = []
    · simp [hnil, joined_cons hus]
    · rw [cons_append, joined_cons (by simp [hnil]), joined_cons hnil, ih hnil]
      simp

theorem fields_append (ht : c ∉ t) (rest : Text) :
    fields c (t ++ c :: c :: rest) = t :: fields c rest := by
  induction t with
  | nil => simp [fields]
  | cons a t ih =>
    have ha : a ≠ c := by
      rintro rfl
      simp at ht
    have htail := ih (by simp_all)
    cases t with
    | nil =>
      simp only [nil_append, cons_append] at htail ⊢
      simp [fields, ha]
    | cons b t =>
      simp only [cons_append] at htail ⊢
      simp [fields, ha, htail]

theorem fields_self (ht : c ∉ t) : fields c t = [t] := by
  induction t with
  | nil => rfl
  | cons a t ih =>
    have ha : a ≠ c := by
      rintro rfl
      simp at ht
    have htail := ih (by simp_all)
    cases t with
    | nil => rfl
    | cons b t => simp [fields, ha, htail]

theorem fields_joined (hne : ts ≠ []) (hts : ∀ t ∈ ts, c ∉ t) :
    fields c (joined c ts) = ts := by
  induction ts with
  | nil => exact absurd rfl hne
  | cons t ts ih =>
    by_cases hnil : ts = []
    · rw [hnil, joined_singleton, fields_self (hts t (by simp))]
    · rw [joined_cons hnil, fields_append (hts t (by simp)),
        ih hnil fun u hu => hts u (by simp [hu])]

/-- A row of texts that are not empty is cut into its texts. -/
theorem split_joined (hne : ts ≠ []) (hts : ∀ t ∈ ts, c ∉ t) (hfull : ∀ t ∈ ts, t ≠ []) :
    split c (joined c ts) = ts := by
  rw [split, fields_joined hne hts, rdropWhile_eq_self_iff]
  intro _
  simpa using hfull _ (getLast_mem hne)

/-! ## The groups of a condition -/

/-- The groups on both sides of `&&`: the last one of the left and the first one of the right
    are one. -/
def joinGroups : List (List Word) → List (List Word) → List (List Word)
  | [], hs => hs
  | [g], [] => [g]
  | [g], h :: hs => (g ++ h) :: hs
  | g :: gs, hs => g :: joinGroups gs hs

theorem joinGroups_cons (hgs : gs ≠ []) :
    joinGroups (g :: gs) hs = g :: joinGroups gs hs := by
  cases gs with
  | nil => exact absurd rfl hgs
  | cons _ _ => cases hs <;> rfl

namespace Cond

variable {l : Level}

/-- The symbols between one `||` of the text and the next. -/
def groups : {l : Level} → Cond l → List (List Word)
  | _, sym s => [[s]]
  | _, not u => u.groups
  | _, paren d => d.groups
  | _, ofUnary u => u.groups
  | _, and u c => joinGroups u.groups c.groups
  | _, ofAnd c => c.groups
  | _, or c d => c.groups ++ d.groups

end Cond

/-- Rows of groups that a condition has: not empty, as its groups. -/
structure Full (gs : List (List Word)) : Prop where
  ne_nil : gs ≠ []
  full : ∀ g ∈ gs, g ≠ []

theorem Full.split (h : Full gs) :
    ∃ init last, gs = init ++ [last] ∧ last ≠ [] ∧ ∀ g ∈ init, g ≠ [] := by
  refine ⟨gs.dropLast, gs.getLast h.ne_nil, (dropLast_append_getLast h.ne_nil).symm,
    h.full _ (getLast_mem h.ne_nil), fun g hg => h.full g (dropLast_subset gs hg)⟩

theorem joinGroups_append (init : List (List Word)) (g h : List Word) (hs : List (List Word)) :
    joinGroups (init ++ [g]) (h :: hs) = init ++ (g ++ h) :: hs := by
  induction init with
  | nil => rfl
  | cons i init ih =>
    rw [cons_append, joinGroups_cons (by simp), ih, cons_append]

/-- Joined rows: what is in front of the place, the group at it, and what is behind. -/
theorem Full.joined (hgs : Full gs) (hhs : Full hs) :
    ∃ init last first tail, gs = init ++ [last] ∧ hs = first :: tail ∧ last ≠ [] ∧ first ≠ [] ∧
      joinGroups gs hs = init ++ (last ++ first) :: tail := by
  obtain ⟨init, last, rfl, hlast, -⟩ := hgs.split
  cases hs with
  | nil => exact absurd rfl hhs.ne_nil
  | cons first tail =>
    exact ⟨init, last, first, tail, rfl, rfl, hlast, hhs.full first (by simp),
      joinGroups_append init last first tail⟩

theorem Cond.full_groups (e : Cond l) : Full e.groups := by
  induction e with
  | sym s => exact ⟨by simp [groups], by simp [groups]⟩
  | not u ih => exact ih
  | paren d ih => exact ih
  | ofUnary u ih => exact ih
  | ofAnd c ih => exact ih
  | and u c ihu ihc =>
    obtain ⟨init, last, first, tail, hu, hc, hlast, hfirst, hjoin⟩ := ihu.joined ihc
    refine ⟨by simp [groups, hjoin], fun g hg => ?_⟩
    rw [groups, hjoin] at hg
    rcases mem_append.mp hg with hg | hg
    · exact ihu.full g (by simp [hu, hg])
    · rcases mem_cons.mp hg with rfl | hg
      · simp [hlast]
      · exact ihc.full g (by simp [hc, hg])
  | or c d ihc ihd =>
    refine ⟨by simp [groups, ihc.ne_nil], fun g hg => ?_⟩
    rcases mem_append.mp hg with hg | hg
    · exact ihc.full g hg
    · exact ihd.full g hg

/-! ## Their text -/

def groupText (g : List Word) : Text := joined '&' (g.map Word.text)

def groupsText (gs : List (List Word)) : Text := joined '|' (gs.map groupText)

theorem groupsText_append (hgs : gs ≠ []) (hhs : hs ≠ []) :
    groupsText (gs ++ hs) = groupsText gs ++ '|' :: '|' :: groupsText hs := by
  rw [groupsText, map_append, joined_append (by simpa using hgs) (by simpa using hhs)]
  rfl

theorem groupText_append {h : List Word} (hg : g ≠ []) (hh : h ≠ []) :
    groupText (g ++ h) = groupText g ++ '&' :: '&' :: groupText h := by
  rw [groupText, map_append, joined_append (by simpa using hg) (by simpa using hh)]
  rfl

/-- A row of groups that begins with a group. -/
theorem groupsText_cons (g : List Word) (gs : List (List Word)) :
    groupsText (g :: gs) = groupText g ++
      if gs = [] then [] else '|' :: '|' :: groupsText gs := by
  by_cases hgs : gs = []
  · simp [hgs, groupsText]
  · rw [groupsText, map_cons, joined_cons (by simpa using hgs), if_neg hgs]
    rfl

/-- A row of groups that ends with a group. -/
theorem groupsText_concat (gs : List (List Word)) (g : List Word) :
    groupsText (gs ++ [g]) =
      (if gs = [] then [] else groupsText gs ++ ['|', '|']) ++ groupText g := by
  by_cases hgs : gs = []
  · simp [hgs, groupsText]
  · rw [groupsText_append hgs (by simp), if_neg hgs]
    simp [groupsText]

theorem groupsText_joinGroups (hgs : Full gs) (hhs : Full hs) :
    groupsText (joinGroups gs hs) = groupsText gs ++ '&' :: '&' :: groupsText hs := by
  obtain ⟨init, last, first, tail, rfl, rfl, hlast, hfirst, hjoin⟩ := hgs.joined hhs
  have hsplit : init ++ (last ++ first) :: tail = init ++ [last ++ first] ++ tail := by simp
  rw [hjoin, groupsText_cons first tail, groupsText_concat init last]
  by_cases htail : tail = []
  · rw [htail, groupsText_concat, groupText_append hlast hfirst]
    simp
  · rw [hsplit, groupsText_append (by simp) htail, groupsText_concat,
      groupText_append hlast hfirst, if_neg htail]
    simp

/-- Without parentheses and `!` the text of a condition is that of its groups. -/
theorem Cond.withoutParens_render (e : Cond l) :
    withoutParens e.render = groupsText e.groups := by
  have happend (a b : Text) : withoutParens (a ++ b) = withoutParens a ++ withoutParens b :=
    filter_append ..
  have hand (a b : Text) : withoutParens (a ++ '&' :: '&' :: b) =
      withoutParens a ++ '&' :: '&' :: withoutParens b := by
    rw [happend]
    rfl
  have hor (a b : Text) : withoutParens (a ++ '|' :: '|' :: b) =
      withoutParens a ++ '|' :: '|' :: withoutParens b := by
    rw [happend]
    rfl
  induction e with
  | sym s =>
    have hself : withoutParens s.text = s.text := by
      rw [withoutParens, filter_eq_self]
      intro x hx
      have hword := s.word x hx
      have h1 : x ≠ '(' := by rintro rfl; exact absurd hword (by decide)
      have h2 : x ≠ ')' := by rintro rfl; exact absurd hword (by decide)
      have h3 : x ≠ '!' := by rintro rfl; exact absurd hword (by decide)
      simp [h1, h2, h3]
    simpa [render, groups, groupsText, groupText] using hself
  | not u ih => simpa [render, groups, withoutParens] using ih
  | paren d ih =>
    have : withoutParens ('(' :: (d.render ++ [')'])) = withoutParens d.render := by
      simp [withoutParens]
    rw [render, this, ih, groups]
  | ofUnary u ih => exact ih
  | ofAnd c ih => exact ih
  | and u c ihu ihc =>
    rw [render, hand, ihu, ihc, groups, groupsText_joinGroups u.full_groups c.full_groups]
  | or c d ihc ihd =>
    rw [render, hor, ihc, ihd, groups,
      groupsText_append c.full_groups.ne_nil d.full_groups.ne_nil]

/-! ## Its value -/

theorem Word.not_mem_groupText : '|' ∉ groupText g := by
  induction g with
  | nil => simp [groupText, joined]
  | cons s g ih =>
    have hs : '|' ∉ s.text := s.not_mem (by decide)
    by_cases hg : g = []
    · simpa [hg, groupText] using hs
    · rw [groupText, map_cons, joined_cons (by simpa using hg)]
      have : '|' ∉ joined '&' (g.map Word.text) := ih
      simp [hs, this]

theorem groupText_ne_nil (hg : g ≠ []) : groupText g ≠ [] := by
  cases g with
  | nil => exact absurd rfl hg
  | cons s g =>
    by_cases hnil : g = []
    · simpa [hnil, groupText] using s.ne_nil
    · rw [groupText, map_cons, joined_cons (by simpa using hnil)]
      simp

/-- The condition is cut at `||` into its groups. -/
theorem Cond.split_groups (e : Cond l) :
    split '|' (withoutParens e.render) = e.groups.map groupText := by
  rw [e.withoutParens_render]
  have hne : e.groups.map groupText ≠ [] := by simpa using e.full_groups.ne_nil
  refine split_joined hne (fun t ht => ?_) fun t ht => ?_
  · obtain ⟨g, -, rfl⟩ := mem_map.mp ht
    exact Word.not_mem_groupText
  · obtain ⟨g, hg, rfl⟩ := mem_map.mp ht
    exact groupText_ne_nil (e.full_groups.full g hg)

/-- A group is cut at `&&` into its symbols. -/
theorem split_groupText (hg : g ≠ []) :
    split '&' (groupText g) = g.map Word.text := by
  refine split_joined (by simpa using hg) (fun t ht => ?_) fun t ht => ?_
  · obtain ⟨s, -, rfl⟩ := mem_map.mp ht
    exact s.not_mem (by decide)
  · obtain ⟨s, -, rfl⟩ := mem_map.mp ht
    exact s.ne_nil

theorem Tristate.text_eq_nil {t : Tristate} : t.text = [] ↔ t = .no := by
  cases t <;> simp [text]

theorem expandAnd_ne_nil {v : Config} {names : List Text} (hne : names ≠ []) :
    expandAnd v names ≠ [] ↔ ∀ name ∈ names, v name ≠ .no := by
  induction names with
  | nil => exact absurd rfl hne
  | cons name names ih =>
    cases names with
    | nil => simp [expandAnd, Tristate.text_eq_nil]
    | cons other names =>
      have htail := ih (by simp)
      by_cases hname : v name = .no
      · simp [expandAnd, hname, Tristate.text]
      · have : (v name).text ≠ [] := by simpa [Tristate.text_eq_nil] using hname
        rw [expandAnd, if_neg this, htail]
        simp [hname]
        simp

def AllEnabled (v : Config) (g : List Word) : Prop := ∀ s ∈ g, v s.text ≠ .no

theorem andCondition_ne_nil {v : Config} (hg : g ≠ []) :
    (andCondition (groupText g)).expand v ≠ [] ↔ AllEnabled v g := by
  have hnames : g.map Word.text ≠ [] := by simpa using hg
  have hexpand : (andCondition (groupText g)).expand v = expandAnd v (g.map Word.text) := by
    rw [andCondition, split_groupText hg]
    cases g with
    | nil => exact absurd rfl hg
    | cons s g =>
      cases g with
      | nil => rfl
      | cons t g => rfl
  rw [hexpand, expandAnd_ne_nil hnames]
  simp [AllEnabled]

/-- The expression of a condition is not empty if all symbols of a group are enabled. -/
theorem Cond.genCondition_ne_nil (e : Cond l) (v : Config) :
    (genCondition e.render).expand v ≠ [] ↔ ∃ g ∈ e.groups, AllEnabled v g := by
  rw [genCondition, e.split_groups, map_map]
  have hfull := e.full_groups.full
  generalize e.groups = gs at hfull ⊢
  induction gs with
  | nil => simp [Make.expand]
  | cons g gs ih =>
    have hg := andCondition_ne_nil (v := v) (hfull g (by simp))
    have hgs := ih fun g' hg' => hfull g' (by simp [hg'])
    rw [map_cons, foldr_cons, Make.expand, Function.comp_apply, ne_eq,
      append_eq_nil_iff, not_and_or, exists_mem_cons_iff]
    exact or_congr hg hgs

end LibWrt.PackageMetadata
