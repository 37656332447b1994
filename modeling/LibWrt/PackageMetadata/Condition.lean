/-
LibWrt.PackageMetadata.Condition — the conditions of dependencies, as Kconfig
reads them.

A condition is built from symbols with `!`, `&&`, `||` and parentheses. The
grammar of parser.y (`||` binds less than `&&`, this less than `!`) is the type
`Cond`, with one level for each operator, so that a value is a derivation and
`render` the text it derives. No text has two derivations (`render_inj`), so
"the value Kconfig gives to a text" is well defined. A value is one of the
three states of expr.c: no, mod and yes.
-/
import Mathlib.Data.List.Basic

namespace LibWrt.PackageMetadata

abbrev Text := List Char

/-! ## Three states -/

inductive Tristate where
  | no
  | mod
  | yes
  deriving DecidableEq, Repr

namespace Tristate

/-- EXPR_AND: the smaller one. -/
def and : Tristate → Tristate → Tristate
  | no, _ => no
  | _, no => no
  | mod, _ => mod
  | _, mod => mod
  | yes, yes => yes

/-- EXPR_OR: the larger one. -/
def or : Tristate → Tristate → Tristate
  | yes, _ => yes
  | _, yes => yes
  | mod, _ => mod
  | _, mod => mod
  | no, no => no

/-- EXPR_NOT: two minus the value. -/
def not : Tristate → Tristate
  | no => yes
  | mod => mod
  | yes => no

@[simp] theorem not_not (t : Tristate) : t.not.not = t := by cases t <;> rfl

variable {t s : Tristate}

theorem not_eq_no : t.not = no ↔ t = yes := by cases t <;> simp [not]

theorem and_eq_no : s.and t = no ↔ s = no ∨ t = no := by
  cases s <;> cases t <;> simp [and]

theorem and_eq_yes : s.and t = yes ↔ s = yes ∧ t = yes := by
  cases s <;> cases t <;> simp [and]

theorem or_eq_no : s.or t = no ↔ s = no ∧ t = no := by
  cases s <;> cases t <;> simp [or]

theorem or_eq_yes : s.or t = yes ↔ s = yes ∨ t = yes := by
  cases s <;> cases t <;> simp [or]

end Tristate

/-! ## Symbols -/

/-- A character of a word: `[A-Za-z0-9_-]`, `/` or `.`. -/
def wordChar (c : Char) : Bool :=
  c.isAlphanum || c == '_' || c == '-' || c == '/' || c == '.'

def packageText (name : Text) : Text := ['P', 'A', 'C', 'K', 'A', 'G', 'E', '_'] ++ name

structure Word where
  text : Text
  ne_nil : text ≠ []
  all : text.all wordChar = true
  deriving DecidableEq

namespace Word

@[ext] theorem ext {s t : Word} (h : s.text = t.text) : s = t := by
  cases s
  cases t
  simp_all

theorem word (w : Word) : ∀ c ∈ w.text, wordChar c = true := List.all_eq_true.mp w.all

theorem not_mem {w : Word} {c : Char} (hc : wordChar c = false) : c ∉ w.text := by
  intro hmem
  have := w.word c hmem
  simp [hc] at this

/-- A word starts with a character of a word. -/
theorem exists_cons (w : Word) : ∃ c rest, w.text = c :: rest ∧ wordChar c = true := by
  cases htext : w.text with
  | nil => exact absurd htext w.ne_nil
  | cons c rest => exact ⟨c, rest, rfl, w.word c (by simp [htext])⟩

def package (w : Word) : Word where
  text := packageText w.text
  ne_nil := by simp [packageText]
  all := by
    rw [packageText, List.all_append, w.all]
    rfl

end Word

/-! ## The grammar -/

inductive Level where
  | unary
  | and
  | or
  deriving DecidableEq

/-- A condition: an operand of `&&`, an operand of `||`, or a whole one. -/
inductive Cond : Level → Type where
  | sym (s : Word) : Cond .unary
  | not (u : Cond .unary) : Cond .unary
  | paren (d : Cond .or) : Cond .unary
  | ofUnary (u : Cond .unary) : Cond .and
  | and (u : Cond .unary) (c : Cond .and) : Cond .and
  | ofAnd (c : Cond .and) : Cond .or
  | or (c : Cond .and) (d : Cond .or) : Cond .or

abbrev Config := Text → Tristate

namespace Cond

variable {l : Level}

def render : {l : Level} → Cond l → Text
  | _, sym s => s.text
  | _, not u => '!' :: u.render
  | _, paren d => '(' :: (d.render ++ [')'])
  | _, ofUnary u => u.render
  | _, and u c => u.render ++ '&' :: '&' :: c.render
  | _, ofAnd c => c.render
  | _, or c d => c.render ++ '|' :: '|' :: d.render

/-- expr_calc_value -/
def value (v : Config) : {l : Level} → Cond l → Tristate
  | _, sym s => v s.text
  | _, not u => (u.value v).not
  | _, paren d => d.value v
  | _, ofUnary u => u.value v
  | _, and u c => (u.value v).and (c.value v)
  | _, ofAnd c => c.value v
  | _, or c d => (c.value v).or (d.value v)

def symbols : {l : Level} → Cond l → List Word
  | _, sym s => [s]
  | _, not u => u.symbols
  | _, paren d => d.symbols
  | _, ofUnary u => u.symbols
  | _, and u c => u.symbols ++ c.symbols
  | _, ofAnd c => c.symbols
  | _, or c d => c.symbols ++ d.symbols

theorem render_ne_nil (e : Cond l) : e.render ≠ [] := by
  induction e with
  | sym s => exact s.ne_nil
  | ofUnary u ih => exact ih
  | ofAnd c ih => exact ih
  | _ => simp [render]

/-! ## One derivation for a text -/

/-- A text that cannot go on with a condition of the level. -/
def Stops (l : Level) (rest : Text) : Prop :=
  ∀ c ∈ rest.head?, wordChar c = false ∧ (l ≠ .unary → c ≠ '&') ∧ (l = .or → c ≠ '|')

variable {rest : Text}

theorem stops_cons {c : Char} :
    Stops l (c :: rest) ↔
      wordChar c = false ∧ (l ≠ .unary → c ≠ '&') ∧ (l = .or → c ≠ '|') := by
  simp [Stops]

theorem Stops.unary (h : Stops l rest) : Stops .unary rest :=
  fun c hc => ⟨(h c hc).1, by simp, by simp⟩

theorem Stops.and (h : Stops .or rest) : Stops .and rest :=
  fun c hc => ⟨(h c hc).1, fun _ => (h c hc).2.1 (by simp), by simp⟩

theorem not_stops_and : ¬ Stops .and ('&' :: rest) := by
  simp [Stops]

theorem not_stops_or : ¬ Stops .or ('|' :: rest) := by
  simp [Stops]

/-- A word ends where no character of a word follows. -/
theorem text_append_inj {s t rest' : Text} (hs : ∀ c ∈ s, wordChar c = true)
    (ht : ∀ c ∈ t, wordChar c = true) (hrest : Stops .unary rest) (hrest' : Stops .unary rest')
    (h : s ++ rest = t ++ rest') : s = t ∧ rest = rest' := by
  induction s generalizing t with
  | nil =>
    cases t with
    | nil => exact ⟨rfl, by simpa using h⟩
    | cons c t =>
      have hhead : rest.head? = some c := by
        have : rest = c :: (t ++ rest') := by simpa using h
        simp [this]
      have := (hrest c hhead).1
      simp [ht c (by simp)] at this
  | cons c s ih =>
    cases t with
    | nil =>
      have hhead : rest'.head? = some c := by
        have : rest' = c :: (s ++ rest) := by simpa using h.symm
        simp [this]
      have := (hrest' c hhead).1
      simp [hs c (by simp)] at this
    | cons d t =>
      have hcons : c = d ∧ s ++ rest = t ++ rest' := by simpa using h
      have htail := ih (fun x hx => hs x (by simp [hx])) (fun x hx => ht x (by simp [hx])) hcons.2
      exact ⟨by rw [hcons.1, htail.1], htail.2⟩

/-- An operand of `&&` starts with `!`, `(` or a character of a word. -/
theorem render_append_inj (e : Cond l) :
    ∀ {e' : Cond l} {rest rest' : Text}, Stops l rest → Stops l rest' →
      e.render ++ rest = e'.render ++ rest' → e = e' ∧ rest = rest' := by
  induction e with
  | sym s =>
    intro e' rest rest' hrest hrest' h
    obtain ⟨c, tail, htext, hc⟩ := s.exists_cons
    cases e' with
    | sym t =>
      have := text_append_inj s.word t.word hrest hrest' h
      exact ⟨by rw [Word.ext this.1], this.2⟩
    | not u =>
      have : c = '!' := by simpa [render, htext] using congrArg List.head? h
      rw [this] at hc
      exact absurd hc (by decide)
    | paren d =>
      have : c = '(' := by simpa [render, htext] using congrArg List.head? h
      rw [this] at hc
      exact absurd hc (by decide)
  | not u ih =>
    intro e' rest rest' hrest hrest' h
    cases e' with
    | sym t =>
      obtain ⟨c, tail, htext, hc⟩ := t.exists_cons
      have : '!' = c := by simpa [render, htext] using congrArg List.head? h
      rw [← this] at hc
      exact absurd hc (by decide)
    | not u' =>
      have := ih hrest hrest' (by simpa [render] using h)
      exact ⟨by rw [this.1], this.2⟩
    | paren d => simp [render] at h
  | paren d ih =>
    intro e' rest rest' hrest hrest' h
    cases e' with
    | sym t =>
      obtain ⟨c, tail, htext, hc⟩ := t.exists_cons
      have : '(' = c := by simpa [render, htext] using congrArg List.head? h
      rw [← this] at hc
      exact absurd hc (by decide)
    | not u => simp [render] at h
    | paren d' =>
      have hstop (r : Text) : Stops .or (')' :: r) := stops_cons.mpr (by decide)
      have := ih (hstop rest) (hstop rest') (by simpa [render] using h)
      exact ⟨by rw [this.1], by simpa using this.2⟩
  | ofUnary u ih =>
    intro e' rest rest' hrest hrest' h
    cases e' with
    | ofUnary u' =>
      have := ih hrest.unary hrest'.unary (by simpa [render] using h)
      exact ⟨by rw [this.1], this.2⟩
    | and u' c' =>
      have hstop : Stops .unary ('&' :: '&' :: (c'.render ++ rest')) := stops_cons.mpr (by decide)
      have := ih hrest.unary hstop (by simpa [render] using h)
      rw [this.2] at hrest
      exact absurd hrest not_stops_and
  | and u c ihu ihc =>
    intro e' rest rest' hrest hrest' h
    have hstop (r : Text) : Stops .unary ('&' :: '&' :: r) := stops_cons.mpr (by decide)
    cases e' with
    | ofUnary u' =>
      have := ihu (hstop _) hrest'.unary (by simpa [render] using h)
      rw [← this.2] at hrest'
      exact absurd hrest' not_stops_and
    | and u' c' =>
      have hu := ihu (hstop (c.render ++ rest)) (hstop (c'.render ++ rest'))
        (by simpa [render] using h)
      have hc := ihc hrest hrest' (by simpa using hu.2)
      exact ⟨by rw [hu.1, hc.1], hc.2⟩
  | ofAnd c ih =>
    intro e' rest rest' hrest hrest' h
    cases e' with
    | ofAnd c' =>
      have := ih hrest.and hrest'.and (by simpa [render] using h)
      exact ⟨by rw [this.1], this.2⟩
    | or c' d' =>
      have hstop : Stops .and ('|' :: '|' :: (d'.render ++ rest')) := stops_cons.mpr (by decide)
      have := ih hrest.and hstop (by simpa [render] using h)
      rw [this.2] at hrest
      exact absurd hrest not_stops_or
  | or c d ihc ihd =>
    intro e' rest rest' hrest hrest' h
    have hstop (r : Text) : Stops .and ('|' :: '|' :: r) := stops_cons.mpr (by decide)
    cases e' with
    | ofAnd c' =>
      have := ihc (hstop _) hrest'.and (by simpa [render] using h)
      rw [← this.2] at hrest'
      exact absurd hrest' not_stops_or
    | or c' d' =>
      have hc := ihc (hstop (d.render ++ rest)) (hstop (d'.render ++ rest'))
        (by simpa [render] using h)
      have hd := ihd hrest hrest' (by simpa using hc.2)
      exact ⟨by rw [hc.1, hd.1], hd.2⟩

/-- A text has one derivation. -/
theorem render_inj {e e' : Cond l} (h : e.render = e'.render) : e = e' := by
  have hstop : Stops l [] := by simp [Stops]
  exact (render_append_inj e hstop hstop (by rw [h])).1

end Cond

end LibWrt.PackageMetadata
