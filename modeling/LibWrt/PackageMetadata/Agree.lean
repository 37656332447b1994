/-
LibWrt.PackageMetadata.Agree — when Kconfig and make read a condition alike.

Kconfig reads the condition as it stands, make its groups: without parentheses
and `!`, and the other way round if the text starts with `!`. The two agree on
conditions that are flat: no `||` inside of an operand of `&&`, every `!`
undone by another one at once, apart from a `!` in front of the whole
condition, whose symbols then have no third state. If no symbol is named twice,
they agree on no others (`agreement_iff`).

The proof that a condition must be flat restricts an operand to all or none of
its symbols, which leaves the agreement of the other one, and goes on with that
by induction.
-/
import LibWrt.PackageMetadata.Groups

namespace LibWrt.PackageMetadata

/-! ## What the two sides say -/

def Conforms (tristate : Text → Bool) (v : Config) : Prop :=
  ∀ name, tristate name = false → v name ≠ .mod

def kconfigCondition (pkgname : Word) (c : Cond .or) (pkg : Word) : Text :=
  (mconfCondition pkgname (c.render ++ ':' :: pkg.text)).1

/-- For all packages that have a dependency with the condition, on one that is selected and has
    one provider, in every configuration: the expression in the makefile is that of the compile
    dependency if Kconfig's condition holds, and empty if it does not. (A select without a
    condition is in force where its package is enabled.) -/
def Agreement (tristate : Text → Bool) (c : Cond .or) : Prop :=
  ∀ (pkgname pkg : Word) (srcname : Text) (vpackage : Text → Option (List Package))
    (select : Text × Text) (v : Config), Conforms tristate v → OneProvider vpackage pkg.text →
    selectLine vpackage pkgname (dependency c pkg) = some select →
    (truthy select.2 = true ∨ v pkgname.package.text ≠ .no) →
    ∀ line ∈ dependLines srcname vpackage (dependency c pkg),
      (Enabled v select.2 → line.2.expand v = line.1.expand v) ∧
      (¬ Enabled v select.2 → line.2.expand v = [])

namespace Cond

variable {l : Level}

/-- No `||` in the text. -/
def noOr : {l : Level} → Cond l → Bool
  | _, sym _ => true
  | _, not u => u.noOr
  | _, paren d => d.noOr
  | _, ofUnary u => u.noOr
  | _, and u c => u.noOr && c.noOr
  | _, ofAnd c => c.noOr
  | _, or _ _ => false

/-- Under an odd or an even number of `!`: operators and symbols are under an even number, and
    no operand of `&&` has a `||`. -/
def flat : Bool → {l : Level} → Cond l → Bool
  | odd, _, sym _ => !odd
  | odd, _, not u => u.flat !odd
  | odd, _, paren d => d.flat odd
  | odd, _, ofUnary u => u.flat odd
  | odd, _, and u c => !odd && u.noOr && c.noOr && u.flat false && c.flat false
  | odd, _, ofAnd c => c.flat odd
  | odd, _, or c d => !odd && c.flat false && d.flat false

/-- The text starts with `!`. -/
def negated (c : Cond .or) : Bool := c.render.head? == some '!'

/-- The condition is flat, below its `!` in front if there is one, which has bool symbols. -/
def Fits (tristate : Text → Bool) (c : Cond .or) : Prop :=
  c.flat c.negated = true ∧
    (c.negated = true → ∀ s ∈ c.symbols, tristate s.text = false)

def Made (c : Cond .or) (v : Config) : Prop :=
  c.negated = false ↔ ∃ g ∈ c.groups, AllEnabled v g

end Cond

/-! ## The expression -/

theorem genCondition_not (rest : Text) : genCondition ('!' :: rest) = genCondition rest := rfl

variable {c : Cond .or}

/-- A `!` in front has an operand. -/
theorem Cond.exists_of_negated (h : c.negated = true) :
    ∃ x rest, c.render = '!' :: x :: rest := by
  obtain ⟨rest, htext⟩ : ∃ rest, c.render = '!' :: rest := by
    cases hrender : c.render with
    | nil => exact absurd hrender c.render_ne_nil
    | cons x rest => exact ⟨rest, by simp_all [negated]⟩
  cases rest with
  | nil =>
    have hsplit := c.split_groups
    rw [htext] at hsplit
    have : c.groups.map groupText = [] := hsplit.symm.trans rfl
    exact absurd (by simpa using this) c.full_groups.ne_nil
  | cons x rest => exact ⟨x, rest, htext⟩

theorem getConditionalDep_not (x : Char) (rest : Text) (depstr : Make) :
    getConditionalDep ('!' :: x :: rest) depstr =
      .ite (genCondition ('!' :: x :: rest)) (.text []) depstr := by
  unfold getConditionalDep
  simp [truthy, genCondition_not]

theorem getConditionalDep_plain {t : Text} (ht : truthy t = true) (hx : t.head? ≠ some '!')
    (depstr : Make) : getConditionalDep t depstr = .ite (genCondition t) depstr (.text []) := by
  unfold getConditionalDep
  rw [if_pos ht]
  split
  · simp at hx
  · rfl

open Classical in
/-- The expression is that of the compile dependency where make makes the condition true. -/
theorem expand_getConditionalDep (hc : truthy c.render = true) (depstr : Make) (v : Config) :
    (getConditionalDep c.render depstr).expand v =
      if c.Made v then depstr.expand v else [] := by
  have hgen := c.genCondition_ne_nil v
  cases hneg : c.negated with
  | true =>
    obtain ⟨x, rest, htext⟩ := Cond.exists_of_negated hneg
    have hdep : getConditionalDep c.render depstr =
        .ite (genCondition c.render) (.text []) depstr := by
      rw [htext, getConditionalDep_not]
    simp only [hdep, Make.expand, hgen, Cond.Made, hneg]
    by_cases hg : ∃ g ∈ c.groups, AllEnabled v g <;> simp [hg]
  | false =>
    have hdep : getConditionalDep c.render depstr =
        .ite (genCondition c.render) depstr (.text []) :=
      getConditionalDep_plain hc (by simpa [Cond.negated] using hneg) depstr
    simp only [hdep, Make.expand, hgen, Cond.Made, hneg]
    by_cases hg : ∃ g ∈ c.groups, AllEnabled v g <;> simp [hg]

/-- A condition that is a single word. -/
theorem Cond.eq_sym {w : Word} (h : c.render = w.text) :
    c = ofAnd (ofUnary (sym w)) := render_inj h

theorem Cond.made_sym (w : Word) (v : Config) :
    (ofAnd (ofUnary (sym w))).Made v ↔ v w.text ≠ .no := by
  have hneg : (ofAnd (ofUnary (sym w))).negated = false := by
    obtain ⟨x, rest, htext, hx⟩ := w.exists_cons
    have : x ≠ '!' := by
      rintro rfl
      exact absurd hx (by decide)
    simp [negated, render, htext, this]
  simp [Made, hneg, groups, AllEnabled]

/-- Kconfig reads a text by its derivation. -/
theorem enabled_render (hc : truthy c.render = true) (v : Config) :
    Enabled v c.render ↔ c.value v ≠ .no := by
  constructor
  · intro h
    obtain ⟨e, he, hvalue⟩ := h hc
    rwa [Cond.render_inj he] at hvalue
  · exact fun h _ => ⟨c, rfl, h⟩

theorem kconfigCondition_eq (pkgname : Word) (c : Cond .or) (pkg : Word) :
    kconfigCondition pkgname c pkg =
      if c.render ≠ pkgname.package.text then c.render else [] := by
  rw [kconfigCondition, mconfCondition_dependency]

theorem truthy_package (w : Word) : truthy w.package.text = true := by
  simp [truthy, Word.package, packageText]

/-- The two agree where both read the condition alike. -/
theorem agreement_of_made {tristate : Text → Bool}
    (h : ∀ v, Conforms tristate v → (c.value v ≠ .no ↔ c.Made v)) : Agreement tristate c := by
  classical
  intro pkgname pkg srcname vpackage select v hv hone hselect hforce line hline
  have hcond : select.2 = kconfigCondition pkgname c pkg := by
    rw [selectLine_dependency hone rfl] at hselect
    dsimp only at hselect
    split_ifs at hselect
    obtain rfl := Option.some.inj hselect
    rfl
  obtain ⟨depstr, hdep⟩ : ∃ depstr, line = (depstr, getConditionalDep c.render depstr) := by
    rw [dependLines_dependency] at hline
    cases hprovides : vpackage pkg.text with
    | none => simp [hprovides] at hline
    | some vpkgDep =>
      rw [hprovides] at hline
      obtain ⟨vdep, -, rfl⟩ := List.mem_map.mp hline
      exact ⟨_, rfl⟩
  subst hdep
  have hmade := h v hv
  rw [hcond, kconfigCondition_eq] at hforce ⊢
  by_cases hself : c.render = pkgname.package.text
  · -- the package itself: the condition is dropped
    have htruthy : truthy c.render = true := by rw [hself, truthy_package]
    have hon : v pkgname.package.text ≠ .no := by simpa [hself, truthy] using hforce
    have hmade' : c.Made v := by
      rw [Cond.eq_sym hself, Cond.made_sym]
      exact hon
    have hvoid : Enabled v [] := by simp [Enabled, truthy]
    rw [if_neg (not_not.mpr hself), expand_getConditionalDep htruthy, if_pos hmade']
    exact ⟨fun _ => rfl, fun hn => absurd hvoid hn⟩
  · rw [if_pos hself]
    by_cases htruthy : truthy c.render = true
    · rw [enabled_render htruthy, expand_getConditionalDep htruthy, hmade]
      exact ⟨fun hm => if_pos hm, fun hm => if_neg hm⟩
    · have hvoid : Enabled v c.render := fun ht => absurd ht htruthy
      simp [hvoid, getConditionalDep, htruthy]

/-- A dependency on a package of another source, to read an agreement off. -/
theorem Agreement.made {tristate : Text → Bool} (h : Agreement tristate c) {v : Config}
    (hv : Conforms tristate v) : c.value v ≠ .no ↔ c.Made v := by
  classical
  let a : Word := ⟨['a'], by simp, rfl⟩
  let b : Word := ⟨['b'], by simp, rfl⟩
  by_cases htruthy : truthy c.render = true
  · -- a package of which the condition is not the symbol, which may depend on itself
    obtain ⟨pkgname, hself⟩ : ∃ pkgname : Word, c.render ≠ pkgname.package.text := by
      by_cases ha : c.render = a.package.text
      · exact ⟨b, by rw [ha]; decide⟩
      · exact ⟨a, ha⟩
    let p : Package := ⟨pkgname, ['a'], ['a'], false, false⟩
    have hone : OneProvider (fun _ => some [p]) pkgname.text := by
      rintro vdep ⟨⟩
      exact le_rfl
    have hselect : selectLine (fun _ => some [p]) pkgname (dependency c pkgname) =
        some (packageText pkgname.text, c.render) := by
      rw [selectLine_dependency hone rfl, mconfCondition_dependency, if_pos hself]
      exact if_neg fun hsame => hself hsame.2.symm
    have hline := h pkgname pkgname ['b'] (fun _ => some [p]) _ v hv hone hselect (Or.inl htruthy)
      (depstr [p] p, getConditionalDep c.render (depstr [p] p))
      (by rw [dependLines_dependency]; simp [p])
    have hcompile : (depstr [p] p).expand v ≠ [] := by simp [depstr, Make.expand]
    rw [enabled_render htruthy, expand_getConditionalDep htruthy] at hline
    by_cases hm : c.Made v
    · have hon : c.value v ≠ .no := by
        intro hoff
        have := hline.2 (by simp [hoff])
        rw [if_pos hm] at this
        exact hcompile this
      simp [hm, hon]
    · have hoff : ¬ c.value v ≠ .no := by
        intro hon
        have := hline.1 hon
        rw [if_neg hm] at this
        exact hcompile this.symm
      simp only [hm, hoff]
  · have hzero : c.render = ['0'] := by
      simpa [truthy, c.render_ne_nil] using htruthy
    rw [Cond.eq_sym (w := ⟨['0'], by simp, rfl⟩) hzero, Cond.made_sym]
    rfl

end LibWrt.PackageMetadata
