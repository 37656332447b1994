/-
LibWrt.Lib.Traced — computations that may stop, and note things on their way.

A computation has a trace of what it noted, and a result unless it stopped.
What it noted before it stopped stays in the trace, so that a condition on
the trace says something about the computations that stop as well.

`Total` says that a computation whose trace meets a condition has a result
with a property, `Partial` that the results it has are such. Both have a rule
for each way to make a computation.
-/
import Mathlib.Tactic

namespace LibWrt

/-- What was noted, in order, and the result. -/
structure Traced (ε α : Type) where
  trace : List ε
  result : Option α
  deriving DecidableEq

namespace Traced

variable {ε α β : Type}

protected def pure (a : α) : Traced ε α := { trace := [], result := some a }

protected def bind (x : Traced ε α) (f : α → Traced ε β) : Traced ε β :=
  match x.result with
  | none => { trace := x.trace, result := none }
  | some a => { trace := x.trace ++ (f a).trace, result := (f a).result }

instance : Monad (Traced ε) where
  pure := Traced.pure
  bind := Traced.bind

def note (e : ε) : Traced ε Unit := { trace := [e], result := some () }

def ofOption (a : Option α) : Traced ε α := { trace := [], result := a }

/-! ## Triples -/

variable {ok : ε → Prop} {post : α → Prop} {post' : β → Prop}

/-- Where all that was noted is in order there is a result, with the property. -/
def Total (ok : ε → Prop) (x : Traced ε α) (post : α → Prop) : Prop :=
  (∀ e ∈ x.trace, ok e) → ∃ a, x.result = some a ∧ post a

/-- Where all that was noted is in order a result has the property. -/
def Partial (ok : ε → Prop) (x : Traced ε α) (post : α → Prop) : Prop :=
  (∀ e ∈ x.trace, ok e) → ∀ a, x.result = some a → post a

theorem Total.pure {a : α} (h : post a) : Total ok (Pure.pure a : Traced ε α) post :=
  fun _ => ⟨a, rfl, h⟩

theorem Partial.pure {a : α} (h : post a) : Partial ok (Pure.pure a : Traced ε α) post := by
  rintro _ _ ⟨⟩
  exact h

theorem Total.bind {x : Traced ε α} {f : α → Traced ε β} (hx : Total ok x post)
    (hf : ∀ a, post a → Total ok (f a) post') : Total ok (x >>= f) post' := by
  show Total ok (Traced.bind x f) post'
  unfold Total Traced.bind
  cases hresult : x.result with
  | none =>
    intro hok
    obtain ⟨a, ha, -⟩ := hx hok
    rw [hresult] at ha
    cases ha
  | some a =>
    intro hok
    obtain ⟨b, hb, hpost⟩ := hx fun e he => hok e (List.mem_append_left _ he)
    rw [hresult] at hb
    cases hb
    exact hf a hpost fun e he => hok e (List.mem_append_right _ he)

theorem Partial.bind {x : Traced ε α} {f : α → Traced ε β} (hx : Partial ok x post)
    (hf : ∀ a, post a → Partial ok (f a) post') : Partial ok (x >>= f) post' := by
  show Partial ok (Traced.bind x f) post'
  unfold Partial Traced.bind
  cases hresult : x.result with
  | none =>
    intro _ b hb
    cases hb
  | some a =>
    intro hok b hb
    have hpost := hx (fun e he => hok e (List.mem_append_left _ he)) a hresult
    exact hf a hpost (fun e he => hok e (List.mem_append_right _ he)) b hb

/-- A note tells that what is noted is in order. -/
theorem Total.note {e : ε} : Total ok (Traced.note e) fun _ => ok e :=
  fun hok => ⟨(), rfl, hok e List.mem_cons_self⟩

theorem Partial.note {e : ε} : Partial ok (Traced.note e) fun _ => ok e :=
  fun hok _ _ => hok e List.mem_cons_self

theorem Total.ofOption {a : Option α} (h : ∃ b, a = some b ∧ post b) :
    Total ok (Traced.ofOption a : Traced ε α) post := fun _ => h

/-- Without a property there is nothing to show. -/
theorem Partial.any (x : Traced ε α) : Partial ok x fun _ => True := fun _ _ _ => trivial

theorem Total.mono {x : Traced ε α} {post' : α → Prop} (hx : Total ok x post)
    (h : ∀ a, post a → post' a) : Total ok x post' := by
  intro hok
  obtain ⟨a, ha, hpost⟩ := hx hok
  exact ⟨a, ha, h a hpost⟩

end Traced

end LibWrt
