/-
LibWrt.Lib.Agree — two computations that fail together.

`Agree R x y` relates two results of fallible code: both are values that
`R` relates, or both are the same error. `Agree.bind` is the rule for
sequencing, so that a proof about two runs walks through their steps
together.
-/
import Mathlib.Init

namespace LibWrt

universe u v w

inductive Agree {ε : Type u} {α : Type v} {β : Type w} (R : α → β → Prop) :
    Except ε α → Except ε β → Prop where
  | ok {a : α} {b : β} (h : R a b) : Agree R (.ok a) (.ok b)
  | error (err : ε) : Agree R (.error err) (.error err)

namespace Agree

variable {ε α β α' β' : Type u} {R : α → β → Prop} {S : α' → β' → Prop}
  {x : Except ε α} {y : Except ε β}

/-- Sequencing: what comes next agrees wherever the first results are
related. -/
theorem bind {f : α → Except ε α'} {g : β → Except ε β'} (h : Agree R x y)
    (hnext : ∀ a b, R a b → Agree S (f a) (g b)) : Agree S (x >>= f) (y >>= g) := by
  cases h with
  | ok hab => exact hnext _ _ hab
  | error err => exact .error err

/-- A common first computation. -/
theorem bind_same {x : Except ε α} {f : α → Except ε α'} {g : α → Except ε β'}
    (hnext : ∀ a, Agree S (f a) (g a)) : Agree S (x >>= f) (x >>= g) := by
  cases x with
  | ok a => exact hnext a
  | error err => exact .error err

theorem mono {R' : α → β → Prop} (h : Agree R x y) (hle : ∀ a b, R a b → R' a b) :
    Agree R' x y := by
  cases h with
  | ok hab => exact .ok (hle _ _ hab)
  | error err => exact .error err

/-- If one succeeds, so does the other. -/
theorem of_ok {a : α} (h : Agree R (.ok a) y) : ∃ b, y = .ok b ∧ R a b := by
  cases h with
  | ok hab => exact ⟨_, rfl, hab⟩

end Agree

end LibWrt
