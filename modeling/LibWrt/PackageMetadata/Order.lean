/-
LibWrt.PackageMetadata.Order — package-metadata.pl: the order of the packages
of a submenu.

A package stands behind the ones that find_package_dep finds among those it
depends on; packages that it does not find for each other are put in the order
of their names. The search goes through the packages that entries without a
flag or a condition name (`findPackageDep_iff`). The two orders do not agree
where a third package has a name between those of two packages of which one
depends on the other.
-/
import LibWrt.PackageMetadata.Make
import Mathlib.Data.Char
import Mathlib.Data.List.Lex
import Mathlib.Data.List.Pairwise
import Mathlib.Data.List.Sort
import Mathlib.Data.Finset.Card

namespace LibWrt.PackageMetadata

open Finset
open List hiding attach_map_subtype_val
open Option hiding attach_map_subtype_val map
open Relation (TransGen ReflTransGen)

structure Database where
  names : List Text
  submenu : Text → Text
  depends : Text → Option (List Text)
  /-- `%vpackage` -/
  vpackage : Text → List Text
  provided : ∀ v, ∀ p ∈ vpackage v, p ∈ names

variable (db : Database)

/-! ## The code -/

/-- The packages that __find_package_dep looks at from one on. -/
def Database.deps (pkg : Text) : List Text := ((db.depends pkg).getD []).flatMap db.vpackage

def visit (call : Text → List Text → Option (Bool × List Text)) (name : Text)
    (s : Bool × List Text) (dep : Text) : Option (Bool × List Text) :=
  if s.1 = true ∨ dep ∈ s.2 then some s
  else if dep = name then some (true, dep :: s.2)
  else call dep (dep :: s.2)

/-- __find_package_dep, with what `%dep_check` holds; none where the calls go deeper than the
    number. -/
def findDep (name : Text) : Nat → Text → List Text → Option (Bool × List Text)
  | 0, _, _ => none
  | n + 1, pkg, checked =>
    (db.deps pkg).foldlM (visit (findDep name n) name) (false, checked)

/-- find_package_dep -/
def findPackageDep (pkg name : Text) : Bool :=
  ((findDep db name (db.names.length + 1) pkg []).map Prod.fst).getD false

/-- package_depends -/
def packageDepends (a b : Text) : Int :=
  if db.submenu a ≠ db.submenu b then 0
  else if findPackageDep db a b then 1
  else if findPackageDep db b a then -1
  else 0

/-- `cmp` -/
def cmpText (a b : Text) : Int := if a < b then -1 else if b < a then 1 else 0

/-- The comparison that print_package_config_category sorts with. -/
def compareMenu (a b : Text) : Int :=
  if packageDepends db a b ≠ 0 then packageDepends db a b else cmpText a b

/-! ## What it is to do -/

def entryName (entry : Text) : Text :=
  let depend := entry.dropWhile fun c => c == '@' || c == '+'
  ((splitCondition depend).map Prod.snd).getD depend

/-- The packages that a package depends on, as in the Kconfig file. -/
def Database.allDeps (pkg : Text) : List Text :=
  ((db.depends pkg).getD []).flatMap fun entry => db.vpackage entry ++ db.vpackage (entryName entry)

def DependsOn : Text → Text → Prop := TransGen fun a b => b ∈ db.allDeps a

def Acyclic : Prop := ∀ a, ¬DependsOn db a a

/-- A package of the same submenu that it depends on by way of plain entries. -/
def Plainly (a b : Text) : Prop :=
  db.submenu a = db.submenu b ∧ TransGen (fun a b => b ∈ db.deps a) a b

def IsSorted (pkgs l : List Text) : Prop :=
  l.Perm pkgs ∧ l.Pairwise fun a b => ¬compareMenu db b a < 0

structure Ordered (pkgs : List Text) : Prop where
  weakOrder : IsStrictWeakOrder {a // a ∈ pkgs} fun a b => compareMenu db a b < 0
  /-- The order that the packages have before is of no influence. -/
  unique : ∃! l, IsSorted db pkgs l
  /-- No package stands in front of one that it depends on. -/
  placed : ∀ l, IsSorted db pkgs l →
    l.Pairwise fun a b => ¬(db.submenu a = db.submenu b ∧ DependsOn db a b)

/-- A package that is unrelated to two others, but has a name between theirs. -/
def Between (a b c : Text) : Prop :=
  Plainly db a c ∧ ¬Plainly db a b ∧ ¬Plainly db b a ∧ ¬Plainly db b c ∧ ¬Plainly db c b ∧
    a < b ∧ b < c

/-- No package has its name between those of two that it is unrelated to, and a package that
another one depends on in another way has the smaller name. -/
structure NamesOk (pkgs : List Text) : Prop where
  between : ∀ a ∈ pkgs, ∀ b ∈ pkgs, ∀ c ∈ pkgs, ¬Between db a b c
  other : ∀ a ∈ pkgs, ∀ b ∈ pkgs, db.submenu a = db.submenu b → DependsOn db a b →
    ¬Plainly db a b → b < a

variable {db}

/-! ## The search -/

section Search

variable {name : Text} {checked : List Text}

def unchecked (db : Database) (checked : List Text) : Finset Text :=
  db.names.toFinset \ checked.toFinset

theorem unchecked_subset {checked' : List Text} (h : checked ⊆ checked') :
    unchecked db checked' ⊆ unchecked db checked :=
  sdiff_subset_sdiff (Finset.Subset.refl _) fun _ ha =>
    mem_toFinset.mpr (h (mem_toFinset.mp ha))

theorem card_unchecked_lt {dep : Text} (hdep : dep ∈ db.names) (hnew : dep ∉ checked) :
    (unchecked db (dep :: checked)).card < (unchecked db checked).card := by
  refine card_lt_card ⟨unchecked_subset (subset_cons_self dep checked), fun h => ?_⟩
  have hin : dep ∈ unchecked db checked := by simp [unchecked, hdep, hnew]
  have hout := h hin
  simp [unchecked] at hout

theorem mem_names {pkg dep : Text} (h : dep ∈ db.deps pkg) : dep ∈ db.names := by
  obtain ⟨v, -, hmem⟩ := mem_flatMap.mp h
  exact db.provided v dep hmem

structure Looked (db : Database) (name : Text) (deps checked : List Text)
    (s : Bool × List Text) : Prop where
  mono : checked ⊆ s.2
  sound : s.1 = true → ∃ d ∈ deps, ReflTransGen (fun a b => b ∈ db.deps a) d name
  /-- All that is reached from what is checked now is checked, too. -/
  closed : s.1 = false → deps ⊆ s.2 ∧
    ∀ x ∈ s.2, x ∉ checked → x ≠ name ∧ db.deps x ⊆ s.2

theorem foldlM_found (call : Text → List Text → Option (Bool × List Text)) (deps : List Text) :
    deps.foldlM (visit call name) (true, checked) = some (true, checked) := by
  induction deps with
  | nil => rfl
  | cons d deps ih => simp [visit, ih]

theorem looked_foldlM {call : Text → List Text → Option (Bool × List Text)} {n : Nat}
    (hcall : ∀ d checked, (unchecked db checked).card < n →
      ∃ s, call d checked = some s ∧ Looked db name (db.deps d) checked s)
    {deps : List Text} (hdeps : ∀ d ∈ deps, d ∈ db.names)
    (hn : (unchecked db checked).card ≤ n) :
    ∃ s, deps.foldlM (visit call name) (false, checked) = some s ∧
      Looked db name deps checked s := by
  induction deps generalizing checked with
  | nil =>
    refine ⟨_, rfl, List.Subset.refl _, by simp, fun _ => ⟨nil_subset _, ?_⟩⟩
    exact fun x hx hnew => absurd hx hnew
  | cons d deps ih =>
    obtain ⟨hd, htail⟩ := forall_mem_cons.mp hdeps
    rw [foldlM_cons]
    by_cases hold : d ∈ checked
    · obtain ⟨s, hs, h⟩ := ih htail hn
      refine ⟨s, ?_, h.mono, fun hfound => ?_, fun hnone => ?_⟩
      · simp only [visit, hold, or_true, if_true]
        exact hs
      · obtain ⟨e, he, hreach⟩ := h.sound hfound
        exact ⟨e, mem_cons_of_mem d he, hreach⟩
      · obtain ⟨hin, hclosed⟩ := h.closed hnone
        exact ⟨cons_subset.mpr ⟨h.mono hold, hin⟩, hclosed⟩
    by_cases hname : d = name
    · refine ⟨(true, d :: checked), ?_, subset_cons_self d checked, fun _ => ?_, by simp⟩
      · rw [visit, if_neg (by simp [hold]), if_pos hname]
        exact foldlM_found call deps
      · exact ⟨d, mem_cons_self, hname ▸ .refl⟩
    have hless := card_unchecked_lt hd hold
    obtain ⟨⟨found, checked'⟩, hthis, h⟩ := hcall d (d :: checked) (by omega)
    have hvisit : visit call name (false, checked) d = some (found, checked') := by
      rw [visit, if_neg (by simp [hold]), if_neg hname]
      exact hthis
    rw [hvisit, bind_eq_bind, bind_some]
    have hmono := cons_subset.mp h.mono
    cases found with
    | true =>
      refine ⟨_, foldlM_found call deps, hmono.2, fun _ => ?_, by simp⟩
      obtain ⟨e, he, hreach⟩ := h.sound rfl
      exact ⟨d, mem_cons_self, .head he hreach⟩
    | false =>
      have hcard : (unchecked db checked').card ≤ (unchecked db (d :: checked)).card :=
        card_le_card (unchecked_subset h.mono)
      have hn' : (unchecked db checked').card ≤ n := by omega
      obtain ⟨s, hs, hrest⟩ := ih htail hn'
      obtain ⟨hnext, hclosed⟩ := h.closed rfl
      refine ⟨s, hs, List.Subset.trans hmono.2 hrest.mono, fun hfound => ?_, fun hnone => ?_⟩
      · obtain ⟨e, he, hreach⟩ := hrest.sound hfound
        exact ⟨e, mem_cons_of_mem d he, hreach⟩
      · obtain ⟨hin, hlater⟩ := hrest.closed hnone
        refine ⟨cons_subset.mpr ⟨hrest.mono hmono.1, hin⟩, fun x hx hnew => ?_⟩
        by_cases hx' : x ∈ checked'
        · by_cases hxd : x = d
          · rw [hxd]
            exact ⟨hname, List.Subset.trans hnext hrest.mono⟩
          · obtain ⟨hne, hsub⟩ := hclosed x hx' (by simp [hxd, hnew])
            exact ⟨hne, List.Subset.trans hsub hrest.mono⟩
        · exact hlater x hx hx'

/-- The number of packages is enough for the search. -/
theorem looked_findDep {n : Nat} (pkg : Text) (hn : (unchecked db checked).card < n) :
    ∃ s, findDep db name n pkg checked = some s ∧ Looked db name (db.deps pkg) checked s := by
  induction n generalizing pkg checked with
  | zero => exact absurd hn (Nat.not_lt_zero _)
  | succ n ih =>
    exact looked_foldlM (fun d checked' h => ih d h) (fun d => mem_names)
      (Nat.le_of_lt_succ hn)

/-- find_package_dep finds what a package depends on by way of plain entries. -/
theorem findPackageDep_iff (pkg : Text) :
    findPackageDep db pkg name = true ↔ TransGen (fun a b => b ∈ db.deps a) pkg name := by
  have hcard : (unchecked db []).card < db.names.length + 1 :=
    Nat.lt_succ_of_le ((card_le_card sdiff_subset).trans
      (toFinset_card_le db.names))
  obtain ⟨⟨found, checked⟩, hs, h⟩ := looked_findDep pkg hcard
  rw [findPackageDep, hs, map_some, getD_some]
  constructor
  · intro hfound
    obtain ⟨d, hd, hreach⟩ := h.sound hfound
    exact .head' hd hreach
  · intro hreach
    by_contra hnone
    obtain ⟨hdeps, hclosed⟩ := h.closed (Bool.eq_false_iff.mpr hnone)
    have hin : name ∈ checked := by
      have hstep : ∀ x, TransGen (fun a b => b ∈ db.deps a) pkg x → x ∈ checked := by
        intro x hx
        induction hx with
        | single hd => exact hdeps hd
        | tail _ hd ih => exact (hclosed _ ih not_mem_nil).2 hd
      exact hstep name hreach
    exact (hclosed name hin not_mem_nil).1 rfl

end Search

/-! ## The comparison -/

theorem Plainly.trans {a b c : Text} (h : Plainly db a b) (h' : Plainly db b c) :
    Plainly db a c :=
  ⟨h.1.trans h'.1, h.2.trans h'.2⟩

theorem Plainly.dependsOn {a b : Text} (h : Plainly db a b) : DependsOn db a b := by
  refine TransGen.mono (fun x y hy => ?_) _ _ h.2
  obtain ⟨entry, he, hv⟩ := mem_flatMap.mp hy
  exact mem_flatMap.mpr ⟨entry, he, mem_append_left _ hv⟩

/-- The first one is to stand in front of the other one. -/
def Before (db : Database) (a b : Text) : Prop :=
  Plainly db b a ∨ (¬Plainly db a b ∧ a < b)

open Classical in
theorem compareMenu_eq (a b : Text) : compareMenu db a b =
    if Plainly db a b then 1 else if Plainly db b a then -1 else cmpText a b := by
  have hab : Plainly db a b ↔ db.submenu a = db.submenu b ∧ findPackageDep db a b = true := by
    rw [findPackageDep_iff, Plainly]
  have hba : Plainly db b a ↔ db.submenu a = db.submenu b ∧ findPackageDep db b a = true := by
    rw [findPackageDep_iff, Plainly, eq_comm]
  simp only [hab, hba, compareMenu, packageDepends]
  by_cases hmenu : db.submenu a = db.submenu b
  · by_cases ha : findPackageDep db a b = true
    · simp [hmenu, ha]
    · by_cases hb : findPackageDep db b a = true
      · simp [hmenu, ha, hb]
      · simp [hmenu, ha, hb]
  · simp [hmenu]

theorem before_or (a b : Text) : a = b ∨ Before db a b ∨ Before db b a := by
  by_cases hab : Plainly db a b
  · exact .inr (.inr (.inl hab))
  by_cases hba : Plainly db b a
  · exact .inr (.inl (.inl hba))
  rcases lt_trichotomy a b with h | h | h
  · exact .inr (.inl (.inr ⟨hab, h⟩))
  · exact .inl h
  · exact .inr (.inr (.inr ⟨hba, h⟩))

section Acyclic

variable (hacyclic : Acyclic db) {a b c : Text}

include hacyclic

theorem Acyclic.not_plainly (h : Plainly db a b) : ¬Plainly db b a :=
  fun h' => hacyclic a (h.trans h').dependsOn

theorem Acyclic.compare_neg (a b : Text) : compareMenu db a b < 0 ↔ Before db a b := by
  rw [compareMenu_eq, Before, cmpText]
  by_cases hab : Plainly db a b
  · have hba := hacyclic.not_plainly hab
    simp [hab, hba]
  · by_cases hba : Plainly db b a
    · simp [hab, hba]
    · rcases lt_trichotomy a b with h | h | h
      · simp [hab, hba, h]
      · rw [h] at hba ⊢
        simp [hba]
      · simp [hab, hba, h, h.not_gt]

theorem Acyclic.asymm (h : Before db a b) : ¬Before db b a := by
  rintro (h' | ⟨hnot, hlt⟩)
  · rcases h with h | ⟨hnot, -⟩
    · exact hacyclic.not_plainly h h'
    · exact hnot h'
  · rcases h with h | ⟨-, hlt'⟩
    · exact hnot h
    · exact hlt.asymm hlt'

theorem Acyclic.not_before_iff (hne : a ≠ b) : ¬Before db b a ↔ Before db a b :=
  ⟨fun h => ((before_or a b).resolve_left hne).resolve_right h, hacyclic.asymm⟩

end Acyclic

/-! ## The order -/

/-- Two that are in a list stand in it in one order or in the other. -/
theorem pairwise_or {α : Type} {r : α → α → Prop} {l : List α} (h : l.Pairwise r) {a b : α}
    (ha : a ∈ l) (hb : b ∈ l) (hne : a ≠ b) : r a b ∨ r b a := by
  have : Std.Symm fun x y => r x y ∨ r y x := ⟨fun _ _ => Or.symm⟩
  exact List.Pairwise.forall (R := fun x y => r x y ∨ r y x) (h.imp Or.inl) ha hb hne

section Sorted

variable (hacyclic : Acyclic db) {pkgs : List Text}

include hacyclic

/-- Three packages of which each is to stand in front of the next one, and the last one in front
of the first one. -/
theorem Acyclic.between {a b c : Text} (hab : Plainly db b a) (hbc : Before db b c)
    (hca : Before db c a) : Between db b c a := by
  have hcb : ¬Plainly db c b := fun hcb => hacyclic.asymm hca (.inl (hcb.trans hab))
  obtain ⟨hnbc, hlt⟩ := hbc.resolve_left hcb
  have hac : ¬Plainly db a c := fun hac => hnbc (hab.trans hac)
  obtain ⟨hnca, hlt'⟩ := hca.resolve_left hac
  exact ⟨hab, hnbc, hcb, hnca, hac, hlt, hlt'⟩

theorem Acyclic.before_trans (h : NamesOk db pkgs) {a b c : Text} (ha : a ∈ pkgs) (hb : b ∈ pkgs)
    (hc : c ∈ pkgs) (hab : Before db a b) (hbc : Before db b c) : Before db a c := by
  by_contra hac
  have hne : a ≠ c := by
    rintro rfl
    exact hacyclic.asymm hab hbc
  have hca : Before db c a := (hacyclic.not_before_iff hne.symm).mp hac
  rcases hab with hba | ⟨hnab, hab⟩
  · exact h.between b hb c hc a ha (hacyclic.between hba hbc hca)
  · rcases hbc with hcb | ⟨hnbc, hbc⟩
    · exact h.between c hc a ha b hb (hacyclic.between hcb hca (.inr ⟨hnab, hab⟩))
    · rcases hca with hac' | ⟨-, hca⟩
      · exact h.between a ha b hb c hc (hacyclic.between hac' (.inr ⟨hnab, hab⟩) (.inr ⟨hnbc, hbc⟩))
      · exact absurd hca (hab.trans hbc).asymm

theorem Acyclic.isStrictWeakOrder (h : NamesOk db pkgs) :
    IsStrictWeakOrder {a // a ∈ pkgs} fun a b => compareMenu db a b < 0 where
  irrefl a hlt := by
    rw [hacyclic.compare_neg] at hlt
    exact hacyclic.asymm hlt hlt
  trans a b c hab hbc := by
    rw [hacyclic.compare_neg] at hab hbc ⊢
    exact hacyclic.before_trans h a.2 b.2 c.2 hab hbc
  incomp_trans a b c hab hbc := by
    simp only [hacyclic.compare_neg] at hab hbc ⊢
    have hab' : a = b := Subtype.ext
      ((before_or a b).resolve_right (not_or.mpr hab))
    rw [hab']
    exact hbc

theorem Acyclic.exists_isSorted (h : NamesOk db pkgs) : ∃ l, IsSorted db pkgs l := by
  let le (a b : {a // a ∈ pkgs}) : Bool := decide (¬compareMenu db b a < 0)
  refine ⟨(pkgs.attach.mergeSort le).map Subtype.val, ?_, ?_⟩
  · have hperm := (mergeSort_perm pkgs.attach le).map Subtype.val
    rwa [List.attach_map_subtype_val] at hperm
  · refine pairwise_map.mpr ((pairwise_mergeSort ?_ ?_ pkgs.attach).imp ?_)
    · intro a b c hab hbc
      simp only [le, decide_eq_true_eq, hacyclic.compare_neg] at hab hbc ⊢
      intro hca
      rcases before_or a b with heq | hlt | hlt
      · exact hbc (heq ▸ hca)
      · exact hbc (hacyclic.before_trans h c.2 a.2 b.2 hca hlt)
      · exact hab hlt
    · intro a b
      simp only [le, Bool.or_eq_true, decide_eq_true_eq, hacyclic.compare_neg]
      by_contra hnot
      obtain ⟨hba, hab⟩ := not_or.mp hnot
      exact hacyclic.asymm (not_not.mp hba) (not_not.mp hab)
    · intro a b hab
      exact of_decide_eq_true hab

theorem IsSorted.eq {l l' : List Text} (h : IsSorted db pkgs l) (h' : IsSorted db pkgs l') :
    l = l' := by
  refine List.Perm.eq_of_pairwise (fun a b _ _ hab hba => ?_) h.2 h'.2 (h.1.trans h'.1.symm)
  rw [hacyclic.compare_neg] at hab hba
  exact (before_or a b).resolve_right (not_or.mpr ⟨hba, hab⟩)

theorem Acyclic.ordered (h : NamesOk db pkgs) : Ordered db pkgs where
  weakOrder := hacyclic.isStrictWeakOrder h
  unique := by
    obtain ⟨l, hl⟩ := hacyclic.exists_isSorted h
    exact ⟨l, hl, fun l' hl' => IsSorted.eq hacyclic hl' hl⟩
  placed l hl := by
    refine hl.2.imp_of_mem fun {a b} ha hb hle hdep => ?_
    rw [hacyclic.compare_neg] at hle
    by_cases hplain : Plainly db a b
    · exact hle (.inl hplain)
    · refine hle (.inr ⟨fun hba => ?_, ?_⟩)
      · exact hacyclic _ (hdep.2.trans hba.dependsOn)
      · exact h.other _ (hl.1.mem_iff.mp ha) _ (hl.1.mem_iff.mp hb) hdep.1 hdep.2 hplain

/-- The packages of a submenu are put in order, dependencies first, if and only if their names
are no obstacle. -/
theorem ordered_iff : Ordered db pkgs ↔ NamesOk db pkgs := by
  refine ⟨fun h => ⟨?_, ?_⟩, hacyclic.ordered⟩
  · rintro a ha b hb c hc ⟨hac, hab, hba, hbc, hcb, hlt, hlt'⟩
    have htrans := h.weakOrder.trans ⟨a, ha⟩ ⟨b, hb⟩ ⟨c, hc⟩
    simp only [hacyclic.compare_neg] at htrans
    exact hacyclic.asymm (htrans (.inr ⟨hab, hlt⟩) (.inr ⟨hbc, hlt'⟩)) (.inl hac)
  · intro a ha b hb hmenu hdep hplain
    obtain ⟨l, hl, -⟩ := h.unique
    have hne : a ≠ b := by
      rintro rfl
      exact hacyclic a hdep
    have hback : ¬Plainly db b a := fun hba => hacyclic a (hdep.trans hba.dependsOn)
    -- one of the two stands in front of the other one, and it is not `a`
    rcases pairwise_or (hl.2.and (h.placed l hl)) (hl.1.mem_iff.mpr ha) (hl.1.mem_iff.mpr hb) hne
      with ⟨-, hnot⟩ | ⟨hle, -⟩
    · exact absurd ⟨hmenu, hdep⟩ hnot
    · rw [hacyclic.compare_neg, hacyclic.not_before_iff hne.symm] at hle
      rcases hle with hab | ⟨-, hlt⟩
      · exact absurd hab hplain
      · exact hlt

end Sorted

/-! ## Three packages -/

/-- `a` depends on `c`. -/
def threeSample : Database where
  names := [['a'], ['b'], ['c']]
  submenu _ := []
  depends a := if a = ['a'] then some [['c']] else some []
  vpackage a := if a = ['c'] then [['c']] else []
  provided := by
    intro v p hp
    split_ifs at hp with h
    · simp_all
    · cases hp

theorem allDeps_sample {a b : Text} (h : b ∈ threeSample.allDeps a) : a = ['a'] ∧ b = ['c'] := by
  by_cases ha : a = ['a']
  · subst ha
    have hdeps : threeSample.allDeps ['a'] = [['c'], ['c']] := by decide
    rw [hdeps] at h
    simpa using h
  · simp [Database.allDeps, threeSample, ha] at h

theorem acyclic_sample : Acyclic threeSample := by
  intro a h
  obtain ⟨b, hb, -⟩ := TransGen.head'_iff.mp h
  obtain ⟨c, -, hc⟩ := TransGen.tail'_iff.mp h
  rw [(allDeps_sample hb).1] at hc
  exact absurd (allDeps_sample hc).2 (by decide)

theorem ordered_iff_sample :
    Ordered threeSample [['a'], ['c']] ↔ NamesOk threeSample [['a'], ['c']] :=
  ordered_iff acyclic_sample

/-- `a` is smaller than `b`, and `b` than `c`, but `c` is smaller than `a`. -/
theorem not_ordered_sample : ∃ db pkgs, Acyclic db ∧ ¬Ordered db pkgs := by
  refine ⟨threeSample, [['a'], ['b'], ['c']], acyclic_sample, fun h => ?_⟩
  have htrans := h.weakOrder.trans ⟨['a'], by decide⟩ ⟨['b'], by decide⟩ ⟨['c'], by decide⟩
  exact absurd (htrans (by decide) (by decide)) (by decide)

end LibWrt.PackageMetadata
