/-
LibWrt.PackageMetadata.Version — package-metadata.pl: versions of the kernel,
and the items for them.

version_to_num makes one number of the first four components of a version, with
eight bits for each but the first one. Numbers are in the order of the versions
if no component is larger than that, and every other version is taken for
another one (`version_iff`). The number 0 stands for no version at all, so an
item is kept if either version is zero.
-/
import LibWrt.PackageMetadata.Condition
import Mathlib

namespace LibWrt.PackageMetadata

open List Nat

/-! ## The code -/

/-- `^\d+(?:\.\d+)+$`, in one line -/
def dotted (t : Text) : Bool :=
  2 ≤ (t.splitOn '.').length && (t.splitOn '.').all fun f => f != [] && f.all Char.isDigit

def value (t : Text) : Nat := t.foldl (fun n c => 10 * n + (c.toNat - 48)) 0

def component (t : Text) (i : Nat) : Nat := value ((t.splitOn '.').getD i [])

/-- `<<` of what perl takes for a number, in 64 bits. -/
def shifted (n k : Nat) : Nat := (min n (2 ^ 64 - 1)) <<< k % 2 ^ 64

/-- `$` is also in front of a newline at the end. -/
def chomp (t : Text) : Text := if t.getLast? = some '\n' then t.dropLast else t

def packed (t : Text) : Nat :=
  shifted (component t 0) 24 ||| shifted (component t 1) 16 ||| shifted (component t 2) 8 |||
    shifted (component t 3) 0

/-- version_to_num -/
def versionToNum : Option Text → Nat
  | none => 0
  | some str => if dotted str then packed str else if dotted (chomp str) then packed (chomp str) else 0

def ops : List Text :=
  [['l', 't'], ['l', 'e'], ['g', 't'], ['g', 'e'], ['e', 'q'], ['n', 'e']]

def related {α : Type} [LinearOrder α] (op : Text) (a b : α) : Bool :=
  (op = ['l', 't'] ∧ a < b) ∨ (op = ['l', 'e'] ∧ a ≤ b) ∨ (op = ['g', 't'] ∧ b < a) ∨
    (op = ['g', 'e'] ∧ b ≤ a) ∨ (op = ['e', 'q'] ∧ a = b) ∨ (op = ['n', 'e'] ∧ a ≠ b)

def inWord : Text → Bool
  | c :: _ => c.isAlphanum || c == '_'
  | [] => false

/-- `\d+(?:\.\d+)+\b`, at the start of a text: how many characters it takes. -/
def versionLength (t : Text) : Option Nat :=
  (List.range (t.length + 1)).reverse.find? fun n => dotted (t.take n) && !inWord (t.drop n)

/-- The operator and the version of a tag at the start of a text, and what is behind it. -/
def tagAt : Text → Option (Text × Text × Text)
  | '@' :: a :: b :: t =>
    if ops.contains [a, b] then (versionLength t).map fun n => ([a, b], t.take n, t.drop n) else none
  | _ => none

/-- `s/@(lt|le|gt|ge|eq|ne)(\d+(?:\.\d+)+)\b//`: the first tag, and the item without it. -/
def findTag : Text → Option (Text × Text × Text)
  | [] => none
  | c :: t =>
    match tagAt (c :: t) with
    | some tag => some tag
    | none => (findTag t).map fun tag => (tag.1, tag.2.1, c :: tag.2.2)

/-- version_filter_list -/
def versionFilterList (cmpver : Option Text) (items : List Text) : List Text :=
  items.filterMap fun item =>
    match findTag item with
    | none => some item
    | some (op, ver, rest) =>
      if 0 < versionToNum (some ver) ∧ 0 < versionToNum cmpver ∧
          ¬related op (versionToNum cmpver) (versionToNum (some ver)) then none
      else some rest

/-! ## What it is to do -/

/-- A version, by its first four components; the order is that of lists. -/
def key (t : Text) : List Nat := [component t 0, component t 1, component t 2, component t 3]

def itemsFor (version : Text) (items : List Text) : List Text :=
  items.filterMap fun item =>
    match findTag item with
    | none => some item
    | some (op, ver, rest) => if related op (key version) (key ver) then some rest else none

/-- Every component has the bits that there are for it. -/
def Small (t : Text) : Prop :=
  component t 0 < 2 ^ 40 ∧ component t 1 < 256 ∧ component t 2 < 256 ∧ component t 3 < 256

instance (t : Text) : Decidable (Small t) := inferInstanceAs (Decidable (_ ∧ _ ∧ _ ∧ _))

def zeroKey : List Nat := [0, 0, 0, 0]

/-- The numbers of this version and of those with small components are in their order. -/
def InOrder (v : Text) : Prop :=
  ∀ w, dotted w = true → Small w →
    (versionToNum (some v) < versionToNum (some w) ↔ key v < key w) ∧
      (versionToNum (some w) < versionToNum (some v) ↔ key w < key v)

/-- Of items with such versions in their tags, and no version of zeros, this version keeps the
right ones. -/
def FiltersRight (v : Text) : Prop :=
  ∀ items, (∀ item ∈ items, ∀ op ver rest, findTag item = some (op, ver, rest) →
    Small ver ∧ key ver ≠ zeroKey) → versionFilterList (some v) items = itemsFor v items

/-! ## Numbers -/

section Numbers

variable {t v w : Text}

theorem versionToNum_dotted (h : dotted t = true) : versionToNum (some t) = packed t := if_pos h

theorem versionToNum_lt (v : Option Text) : versionToNum v < 2 ^ 64 := by
  have hshift : ∀ n k, shifted n k < 2 ^ 64 := fun n k => mod_lt _ (Nat.two_pow_pos 64)
  have hpacked : ∀ t, packed t < 2 ^ 64 := fun t =>
    or_lt_two_pow (or_lt_two_pow (or_lt_two_pow (hshift _ _) (hshift _ _))
      (hshift _ _)) (hshift _ _)
  unfold versionToNum
  split
  · exact Nat.two_pow_pos 64
  · split_ifs
    · exact hpacked _
    · exact hpacked _
    · exact Nat.two_pow_pos 64

theorem versionToNum_small (h : dotted t = true) (hsmall : Small t) : versionToNum (some t) =
    component t 0 * 2 ^ 24 + component t 1 * 2 ^ 16 + component t 2 * 2 ^ 8 + component t 3 := by
  obtain ⟨h₀, h₁, h₂, h₃⟩ := hsmall
  have hshift : ∀ n k, n * 2 ^ k < 2 ^ 64 → n < 2 ^ 64 → shifted n k = n <<< k := by
    intro n k hlt hn
    rw [shifted, min_eq_left (by omega), shiftLeft_eq, mod_eq_of_lt hlt]
  rw [versionToNum_dotted h, packed, hshift _ 24 (by omega) (by omega), hshift _ 16 (by omega) (by omega),
    hshift _ 8 (by omega) (by omega), hshift _ 0 (by omega) (by omega), shiftLeft_zero,
    Nat.or_assoc, Nat.or_assoc, ← shiftLeft_add_eq_or_of_lt (i := 8) (by omega),
    ← shiftLeft_add_eq_or_of_lt (i := 16) (by rw [shiftLeft_eq]; omega),
    ← shiftLeft_add_eq_or_of_lt (i := 24) (by simp only [shiftLeft_eq]; omega)]
  simp only [shiftLeft_eq]
  omega

theorem lt_iff_of_small (hv : dotted v = true) (hw : dotted w = true) (hsv : Small v)
    (hsw : Small w) : versionToNum (some v) < versionToNum (some w) ↔ key v < key w := by
  rw [versionToNum_small hv hsv, versionToNum_small hw hsw]
  obtain ⟨-, h₁, h₂, h₃⟩ := hsv
  obtain ⟨-, k₁, k₂, k₃⟩ := hsw
  simp only [key, cons_lt_cons_iff, not_lt_nil, and_false, or_false]
  omega

theorem Small.of_key (h : Small w) (heq : key v = key w) : Small v := by
  simp only [key, List.cons.injEq, and_true] at heq
  obtain ⟨h₀, h₁, h₂, h₃⟩ := heq
  rw [Small, h₀, h₁, h₂, h₃]
  exact h

/-! ## Texts of versions -/

theorem exists_digits (n : Nat) : ∃ t, t ≠ [] ∧ t.all Char.isDigit = true ∧ value t = n := by
  have hdigit : ∀ d < 10, (Char.ofNat (48 + d)).isDigit = true ∧
      (Char.ofNat (48 + d)).toNat - 48 = d := by decide
  induction n using Nat.strongRecOn with
  | _ n ih =>
    obtain ⟨hlast, hvalue⟩ := hdigit (n % 10) (by omega)
    by_cases hn : n < 10
    · rw [mod_eq_of_lt hn] at hlast hvalue
      exact ⟨[Char.ofNat (48 + n)], by simp, by simp [hlast], by simp [value, hvalue]⟩
    · obtain ⟨t, -, hall, heq⟩ := ih (n / 10) (by omega)
      refine ⟨t ++ [Char.ofNat (48 + n % 10)], by simp, by simp [hall, hlast], ?_⟩
      rw [value] at heq ⊢
      rw [foldl_append, heq, foldl_cons, hvalue, foldl_nil]
      omega

/-- Every four numbers are the components of a version. -/
theorem exists_version (a b c d : Nat) : ∃ t, dotted t = true ∧ key t = [a, b, c, d] := by
  obtain ⟨p, hp, hpall, rfl⟩ := exists_digits a
  obtain ⟨q, hq, hqall, rfl⟩ := exists_digits b
  obtain ⟨r, hr, hrall, rfl⟩ := exists_digits c
  obtain ⟨s, hs, hsall, rfl⟩ := exists_digits d
  have hdot : ∀ t : Text, t.all Char.isDigit = true → '.' ∉ t := by
    intro t hall hmem
    exact absurd (all_eq_true.mp hall '.' hmem) (by decide)
  have hsplit : (['.'].intercalate [p, q, r, s]).splitOn '.' = [p, q, r, s] :=
    splitOn_intercalate '.' (by
      simp only [mem_cons, not_mem_nil, or_false]
      rintro t (rfl | rfl | rfl | rfl)
      · exact hdot _ hpall
      · exact hdot _ hqall
      · exact hdot _ hrall
      · exact hdot _ hsall) (by simp)
  refine ⟨['.'].intercalate [p, q, r, s], ?_, ?_⟩
  · rw [dotted, hsplit]
    simp [hp, hq, hr, hs, hpall, hqall, hrall, hsall]
  · simp only [key, component, hsplit]
    rfl

/-- There is a version with small components for every number. -/
theorem exists_small (v : Option Text) :
    ∃ w, dotted w = true ∧ Small w ∧ versionToNum (some w) = versionToNum v := by
  have hlt := versionToNum_lt v
  generalize versionToNum v = n at hlt ⊢
  obtain ⟨w, hw, hkey⟩ := exists_version (n / 2 ^ 24) (n / 2 ^ 16 % 2 ^ 8) (n / 2 ^ 8 % 2 ^ 8)
    (n % 2 ^ 8)
  simp only [key, List.cons.injEq, and_true] at hkey
  obtain ⟨h₀, h₁, h₂, h₃⟩ := hkey
  have hsmall : Small w := by
    rw [Small, h₀, h₁, h₂, h₃]
    omega
  refine ⟨w, hw, hsmall, ?_⟩
  rw [versionToNum_small hw hsmall, h₀, h₁, h₂, h₃]
  omega

end Numbers

/-! ## Tags -/

section Tags

variable {t item op ver rest : Text}

theorem dotted_findTag (h : findTag item = some (op, ver, rest)) : dotted ver = true := by
  induction item generalizing rest with
  | nil => cases h
  | cons c t ih =>
    rw [findTag] at h
    split at h
    · rename_i tag htag
      obtain rfl := Option.some.inj h
      unfold tagAt at htag
      split at htag
      · split_ifs at htag
        obtain ⟨n, hn, heq⟩ := Option.map_eq_some_iff.mp htag
        have hfound := find?_some hn
        simp only [Prod.mk.injEq] at heq
        rw [← heq.2.1]
        exact (Bool.and_eq_true_iff.mp hfound).1
      · cases htag
    · obtain ⟨⟨op', ver', rest'⟩, htag, heq⟩ := Option.map_eq_some_iff.mp h
      simp only [Prod.mk.injEq] at heq
      obtain ⟨rfl, rfl, -⟩ := heq
      exact ih htag

theorem findTag_eq (h : dotted t = true) :
    findTag ('@' :: 'e' :: 'q' :: t) = some (['e', 'q'], t, []) := by
  have hlength : versionLength t = some t.length := by
    rw [versionLength, range_succ, reverse_append, reverse_singleton,
      singleton_append]
    exact find?_cons_of_pos (by simp [h, inWord])
  have htag : tagAt ('@' :: 'e' :: 'q' :: t) = some (['e', 'q'], t, []) := by
    rw [tagAt, if_pos (by decide), hlength]
    simp
  rw [findTag, htag]

end Tags

/-! ## The order, and the items -/

theorem related_congr {α β : Type} [LinearOrder α] [LinearOrder β] {a a' : α} {b b' : β}
    (hlt : a < a' ↔ b < b') (hgt : a' < a ↔ b' < b) (op : Text) :
    related op a a' = related op b b' := by
  have heq : a = a' ↔ b = b' := by
    rw [eq_iff_le_not_lt, eq_iff_le_not_lt, ← not_lt, ← not_lt, hlt, hgt]
  simp only [related, ← not_lt, hlt, hgt, Ne, heq]

section Versions

variable {v w : Text}

theorem inOrder_iff (hv : dotted v = true) : InOrder v ↔ Small v := by
  constructor
  · intro h
    obtain ⟨w, hw, hsmall, heq⟩ := exists_small (some v)
    obtain ⟨hlt, hgt⟩ := h w hw hsmall
    rw [heq] at hlt hgt
    refine hsmall.of_key (le_antisymm (not_lt.mp fun hless => ?_) (not_lt.mp fun hless => ?_))
    · exact lt_irrefl _ (hgt.mpr hless)
    · exact lt_irrefl _ (hlt.mpr hless)
  · exact fun h w hw hsmall => ⟨lt_iff_of_small hv hw h hsmall, lt_iff_of_small hw hv hsmall h⟩

theorem pos_iff (hv : dotted v = true) (h : Small v) :
    0 < versionToNum (some v) ↔ key v ≠ zeroKey := by
  rw [versionToNum_small hv h]
  simp only [key, zeroKey, Ne, List.cons.injEq, and_true]
  omega

/-- An item that is for this version, alone. -/
theorem filters_one (hw : dotted w = true) (hsmall : Small w) (hne : key w ≠ zeroKey)
    (h : FiltersRight v) (hkept : versionToNum (some v) = 0 ∨
      versionToNum (some v) = versionToNum (some w)) : key v = key w := by
  have hright := h ['@' :: 'e' :: 'q' :: w] (by
    intro item hitem op ver rest htag
    rw [mem_singleton.mp hitem, findTag_eq hw] at htag
    obtain ⟨-, rfl, -⟩ := Prod.mk.injEq .. ▸ Option.some.inj htag
    exact ⟨hsmall, hne⟩)
  have hkeep : ¬(0 < versionToNum (some w) ∧ 0 < versionToNum (some v) ∧
      ¬related ['e', 'q'] (versionToNum (some v)) (versionToNum (some w)) = true) := by
    rintro ⟨-, hpos, hne⟩
    rcases hkept with hzero | heq
    · omega
    · exact hne (by simp [related, heq])
  simp only [versionFilterList, itemsFor, filterMap_cons, filterMap_nil, findTag_eq hw,
    if_neg hkeep] at hright
  by_contra hkey
  rw [if_neg (by simp [related, hkey])] at hright
  cases hright

theorem filtersRight_iff (hv : dotted v = true) :
    FiltersRight v ↔ Small v ∧ key v ≠ zeroKey := by
  constructor
  · intro h
    by_cases hzero : versionToNum (some v) = 0
    · obtain ⟨w, hw, hkey⟩ := exists_version 0 1 0 0
      have hsmall : Small w := by
        simp only [key, List.cons.injEq, and_true] at hkey
        rw [Small]
        omega
      have hne : key w ≠ zeroKey := by
        rw [hkey]
        decide
      have heq := filters_one hw hsmall hne h (.inl hzero)
      exact ⟨hsmall.of_key heq, heq ▸ hne⟩
    · obtain ⟨w, hw, hsmall, hnum⟩ := exists_small (some v)
      have hne : key w ≠ zeroKey := by
        rw [← pos_iff hw hsmall, hnum]
        omega
      have heq := filters_one hw hsmall hne h (.inr hnum.symm)
      exact ⟨hsmall.of_key heq, heq ▸ hne⟩
  · rintro ⟨hsmall, hne⟩ items hitems
    refine filterMap_congr fun item hitem => ?_
    cases htag : findTag item with
    | none => rfl
    | some tag =>
      obtain ⟨op, ver, rest⟩ := tag
      obtain ⟨hversmall, hverne⟩ := hitems item hitem op ver rest htag
      have hver := dotted_findTag htag
      have hrel := related_congr (lt_iff_of_small hv hver hsmall hversmall)
        (lt_iff_of_small hver hv hversmall hsmall) op
      have hpos := (pos_iff hv hsmall).mpr hne
      have hverpos := (pos_iff hver hversmall).mpr hverne
      simp only [hrel, hpos, hverpos, true_and]
      cases related op (key v) (key ver) <;> rfl

/-- The order of the numbers is that of the versions if and only if no component is too large; the
items are the right ones if the version is not zero, besides. -/
theorem version_iff (hv : dotted v = true) :
    (InOrder v ↔ Small v) ∧ (FiltersRight v ↔ Small v ∧ key v ≠ zeroKey) :=
  ⟨inOrder_iff hv, filtersRight_iff hv⟩

end Versions

/-- 6.12.30 is in the range, 4.4.302 is not. -/
theorem version_iff_sample : (InOrder "6.12.30".toList ∧ FiltersRight "6.12.30".toList) ∧
    ¬InOrder "4.4.302".toList ∧ ¬FiltersRight "4.4.302".toList := by
  have hin := version_iff (show dotted "6.12.30".toList = true by decide)
  have hout := version_iff (show dotted "4.4.302".toList = true by decide)
  have hlarge : ¬Small "4.4.302".toList := by decide
  exact ⟨⟨hin.1.mpr (by decide), hin.2.mpr (by decide)⟩, fun h => hlarge (hout.1.mp h),
    fun h => hlarge (hout.2.mp h).1⟩

/-- 4.4.302 is taken for 4.5.46. -/
theorem version_spills : ∃ v w, dotted v = true ∧ dotted w = true ∧ key v < key w ∧
    versionToNum (some v) = versionToNum (some w) ∧
      versionFilterList (some v) ['@' :: 'e' :: 'q' :: w] ≠ itemsFor v ['@' :: 'e' :: 'q' :: w] :=
  ⟨"4.4.302".toList, "4.5.46".toList, by decide⟩

end LibWrt.PackageMetadata
