/-
LibWrt.Uline.Window — the width of the window, and positions on the screen.

A position is an offset divided by the width, in sixteen bits. The width comes
from the driver, which is not asked to give 0, from the default, or from a
reply of the terminal, which may say 0 or nothing.

`window_run` is the width over every run without such a reply, and with it
exactly the offsets whose position is right.
-/
import LibWrt.Uline.EditorRun

namespace LibWrt.Uline

open Prod Int Bool

/-! ## Positions -/

/-- A number in an `int16_t`. -/
def int16 (n : Int) : Int := n.bmod (2 ^ 16)

/-- `struct pos` -/
structure Pos where
  x : Int
  y : Int
  deriving DecidableEq

/-- `pos_convert`; none where it divides by zero. The product is an `unsigned int`. -/
def posConvert (cols offset : Nat) : Option Pos :=
  if cols = 0 then none
  else
    let y := int16 (offset / cols)
    some { x := int16 (offset - y * cols % 2 ^ 32), y }

/-- What a position is to say about an offset. -/
def Linear (cols offset : Nat) : Prop :=
  ∃ pos, posConvert cols offset = some pos ∧ 0 ≤ pos.x ∧ pos.x < cols ∧
    pos.y * cols + pos.x = offset

theorem int16_eq {n : Int} (h : -2 ^ 15 ≤ n) (h' : n < 2 ^ 15) : int16 n = n := by
  unfold int16
  rw [bmod_def]
  split <;> omega

theorem int16_natCast {n : Nat} (h : n < 2 ^ 15) : int16 n = n := int16_eq (by omega) (by omega)

theorem int16_bounds (n : Int) : -2 ^ 15 ≤ int16 n ∧ int16 n < 2 ^ 15 := by
  unfold int16
  rw [bmod_def]
  split <;> omega

/-- Sixteen bits do not see that the product wrapped. -/
theorem int16_sub_mod (a b : Int) : int16 (a - b % 2 ^ 32) = int16 (a - b) := by
  have hmod : (a - b % 2 ^ 32) % (2 ^ 16 : Nat) = (a - b) % (2 ^ 16 : Nat) := by omega
  unfold int16
  rw [bmod_def, bmod_def, hmod]

/-- The position is right exactly where its two numbers fit. -/
theorem linear_iff {cols : Nat} (hcols : 1 ≤ cols) (offset : Nat) :
    Linear cols offset ↔ offset / cols < 2 ^ 15 ∧ offset % cols < 2 ^ 15 := by
  have hne : cols ≠ 0 := by omega
  unfold Linear posConvert
  rw [if_neg hne]
  constructor
  · rintro ⟨pos, hpos, hx, hlt, heq⟩
    obtain rfl := Option.some.inj hpos
    have hxb := (int16_bounds (offset - int16 (offset / cols) * cols % 2 ^ 32)).2
    have hyb := (int16_bounds (offset / cols)).2
    dsimp only at hx hlt heq
    generalize int16 (offset - int16 (offset / cols) * cols % 2 ^ 32) = x at *
    generalize int16 (offset / cols) = y at *
    -- a quotient and a remainder are the ones there are
    have hy : 0 ≤ y := by
      by_contra hneg
      have hle : y * cols ≤ -1 * cols := mul_le_mul_of_nonneg_right (by omega) (by omega)
      omega
    obtain ⟨x, rfl⟩ := eq_ofNat_of_zero_le hx
    obtain ⟨y, rfl⟩ := eq_ofNat_of_zero_le hy
    have hnat : x + cols * y = offset := by
      rw [Nat.add_comm, Nat.mul_comm]
      exact_mod_cast heq
    obtain ⟨hdiv, hmod⟩ := (Nat.div_mod_unique (by omega)).mpr ⟨hnat, by omega⟩
    omega
  · rintro ⟨hy, hx⟩
    have hdiv : int16 ((offset : Int) / cols) = (offset / cols : Nat) := by
      rw [← natCast_ediv, int16_natCast hy]
    have hsum : (offset : Int) - (offset / cols : Nat) * cols = (offset % cols : Nat) := by
      have hnat := Nat.div_add_mod offset cols
      rw [Nat.mul_comm] at hnat
      have hint : ((offset / cols : Nat) : Int) * cols + (offset % cols : Nat) = offset := by
        exact_mod_cast hnat
      omega
    have hlt := Nat.mod_lt offset hcols
    refine ⟨_, rfl, ?_⟩
    dsimp only
    rw [int16_sub_mod, hdiv, hsum, int16_natCast hx]
    refine ⟨natCast_nonneg _, by exact_mod_cast hlt, ?_⟩
    rw [← hsum]
    ring

/-! ## The width -/

/-- A reply of the terminal has a width. -/
def Mark.Wide : Mark → Prop
  | reply _ cols => cols ≠ 0
  | _ => True

/-- The results of a computation have a width, where the replies have one. -/
abbrev Widens {α : Type} (editor : α → Editor) (x : Edit α) : Prop :=
  Traced.Partial Mark.Wide x fun a => 1 ≤ (editor a).cols

variable {e : Editor}

section

variable (h : 1 ≤ e.cols)

include h

theorem widens_api (call : Api) : Widens id (call.run e) := by
  cases call with
  | setLine str alloc =>
    exact (Traced.Partial.any _).bind fun _ _ => .pure h
  | setCursor pos => exact .pure h
  | setLine2Prompt prompt => cases prompt <;> exact .pure h
  | setLine2 str alloc =>
    cases hline2 : e.line2 with
    | none =>
      simp only [Api.run, hline2]
      exact .pure h
    | some l =>
      simp only [Api.run, hline2]
      exact (Traced.Partial.any _).bind fun _ _ => .pure h
  | setLine2Cursor pos => exact .pure h
  | refreshPrompt => exact .pure h
  | setStop stop => exact .pure h

theorem widens_runCalls (calls : List Api) : Widens id (runCalls e calls) := by
  induction calls generalizing e with
  | nil => exact .pure h
  | cons call calls ih => exact (widens_api h call).bind fun _ hcall => ih hcall

theorem widens_answer (a : Answer) : Widens fst (a.run e) :=
  (widens_runCalls h a.calls).bind fun _ hcalls => .pure hcalls

theorem widens_askIf (a : Option Answer) : Widens fst (askIf e a) := by
  cases a with
  | none => exact .pure h
  | some a => exact widens_answer h a

theorem widens_edit (second : Bool)
    (f : Linebuf → Option (Linebuf × Bool)) : Widens fst (e.edit second f) := by
  cases second with
  | true =>
    refine (Traced.Partial.any _).bind fun _ _ => ?_
    exact (Traced.Partial.any _).bind fun _ _ => .pure h
  | false => exact (Traced.Partial.any _).bind fun _ _ => .pure h

theorem widens_notifyEvent (event : Answer) :
    Widens fst (notifyEvent e event) :=
  (widens_answer h event).bind fun _ hr => .pure hr

theorem widens_takesLine2 (esc : Escape) (env : Env) :
    Widens fst (takesLine2 e esc env) := by
  unfold takesLine2
  split
  · exact .pure h
  · split
    · exact .pure h
    · refine (widens_askIf h env.line2Cursor).bind ?_
      rintro ⟨e', claimed⟩ he'
      cases claimed with
      | true => exact (Traced.Partial.any _).bind fun _ _ => .pure he'
      | false => exact .pure he'

theorem widens_processEsc (esc : Escape) (data : Nat) (env : Env) :
    Widens fst (processEsc e esc data env) := by
  refine (widens_takesLine2 h esc env).bind ?_
  rintro ⟨e', second⟩ he'
  cases esc with
  | cursorPos =>
    dsimp only
    split
    · exact .pure he'
    · refine Traced.Partial.note.bind fun _ hwide => ?_
      have hcols : 1 ≤ Editor.cols { e' with rows := data % 2 ^ 16, cols := data / 2 ^ 16 } :=
        Nat.pos_of_ne_zero hwide
      exact widens_notifyEvent hcols env.event
  | cursorUp => exact widens_notifyEvent he' env.event
  | cursorDown => exact widens_notifyEvent he' env.event
  | incomplete => exact .pure he'
  | unknown => exact .pure he'
  | ignore => exact .pure he'
  | cursorLeft => exact widens_edit he' _ _
  | cursorWordLeft => exact widens_edit he' _ _
  | cursorRight => exact widens_edit he' _ _
  | cursorWordRight => exact widens_edit he' _ _
  | home => exact widens_edit he' _ _
  | «end» => exact widens_edit he' _ _
  | delete => exact widens_edit he' _ _

theorem widens_resetLine : Widens fst (resetLine e) := by
  unfold resetLine
  split
  · exact .pure h
  · exact widens_edit h _ _

theorem widens_acceptLine (env : Env) : Widens fst (acceptLine e env) := by
  have hasked : Widens fst (askNewline e env) := by
    unfold askNewline
    split
    · exact widens_askIf h _
    · exact .pure h
  refine hasked.bind ?_
  rintro ⟨e', kept⟩ he'
  cases kept with
  | true => exact .pure he'
  | false =>
    have hfreed : 1 ≤ Editor.cols { e' with line2 := none } := he'
    refine (widens_answer hfreed env.line).bind ?_
    rintro ⟨e'', accepted⟩ he''
    cases accepted with
    | true => exact widens_resetLine he''
    | false => exact .pure he''

theorem widens_notifyLine2 (env : Env) : Widens id (notifyLine2 e env) := by
  unfold notifyLine2
  split
  · exact (widens_askIf h _).bind fun _ hr => .pure hr
  · exact .pure h

theorem widens_backspace (env : Env) : Widens fst (backspace e env) := by
  refine (widens_edit h _ _).bind ?_
  rintro ⟨e', moved⟩ he'
  cases moved with
  | true =>
    refine (widens_edit he' _ _).bind fun r hr => ?_
    exact (widens_notifyLine2 hr env).bind fun _ hn => .pure hn
  | false => exact .pure he'

theorem widens_processCtrl (c : UInt8) (env : Env) :
    Widens fst (processCtrl e c env) := by
  unfold processCtrl
  dsimp only
  split
  · exact widens_acceptLine h env
  · exact widens_acceptLine h env
  · refine (widens_answer h env.event).bind fun _ he' => ?_
    exact (widens_resetLine he').bind fun _ hr => .pure hr
  · split
    · exact .pure h
    · exact (widens_answer h env.event).bind fun _ hr => .pure hr
  · exact widens_backspace h env
  · exact widens_backspace h env
  · exact .pure h
  · exact (Traced.Partial.any _).bind fun _ _ => widens_edit h _ _
  · exact widens_processEsc h _ _ _
  · exact widens_processEsc h _ _ _
  · exact widens_edit h _ _
  · exact .pure h
  · exact .pure h

theorem widens_insertChar (c : UInt8) (env : Env) :
    Widens fst (insertChar e c env) := by
  refine (widens_edit h _ _).bind ?_
  rintro ⟨e', inserted⟩ he'
  cases inserted with
  | false => exact .pure he'
  | true =>
    simp only [Bool.not_true, false_eq_true, if_false]
    have hcont : 1 ≤ Editor.cols { e' with utf8Cont := (handleUtf8 e' c).1 } := he'
    split
    · exact .pure hcont
    · exact (widens_notifyLine2 hcont env).bind fun _ hn => .pure hn

theorem widens_processKey (c : UInt8) (env : Env) :
    Widens fst (processKey e c env) := by
  unfold processKey
  split
  · dsimp only
    split
    · exact .pure h
    · have hnone : 1 ≤ Editor.cols { e with escSeq := none } := h
      exact widens_processEsc hnone _ _ _
  · have hasked : Widens fst (askKey e c env) := by
      unfold askKey
      split
      · exact .pure h
      · exact widens_askIf h _
    refine hasked.bind ?_
    rintro ⟨e', handled⟩ he'
    cases handled with
    | true => exact .pure he'
    | false =>
      simp only [false_eq_true, if_false]
      split
      · exact widens_processCtrl he' c env
      · exact widens_insertChar he' c env

theorem widens_processChar (c : UInt8) (env : Env) :
    Widens id (processChar e c env) := by
  refine (widens_processKey h c env).bind ?_
  rintro ⟨e', changed⟩ he'
  refine .pure ?_
  show 1 ≤ (if changed && !e'.stop then displayUpdate e' else e').cols
  split <;> exact he'

end

theorem widens_updateWindowSize (e : Editor) (w : Winch) : Widens id (updateWindowSize e w) := by
  unfold updateWindowSize
  have hsize : 1 ≤ ((w.size.filter fun size =>
      e.ioctlWinsize && size.1 ≠ 0 && size.2 ≠ 0).getD (80, 25)).1 := by
    cases hfilter : w.size.filter fun size => e.ioctlWinsize && size.1 ≠ 0 && size.2 ≠ 0 with
    | none => simp
    | some size =>
      have hmem := (Option.filter_eq_some_iff.mp hfilter).2
      simp only [ne_eq, decide_not, and_eq_true, not_eq_true',
        decide_eq_false_iff_not] at hmem
      exact Nat.pos_of_ne_zero hmem.1.2
  dsimp only
  split
  · rename_i hsame
    refine .pure ?_
    show 1 ≤ e.cols
    rw [hsame.1]
    exact hsize
  · refine (widens_answer ?_ w.event).bind fun _ hr => .pure hr
    exact hsize

theorem widens_step (h : 1 ≤ e.cols) (act : Act) : Widens id (step e act) := by
  cases act with
  | poll => exact .pure h
  | input winch c env =>
    cases winch with
    | none => exact widens_processChar h c env
    | some w => exact (widens_updateWindowSize e w).bind fun _ he => widens_processChar he c env
  | eof event => exact (widens_answer h event).bind fun _ hr => .pure hr
  | api call => exact widens_api h call

/-- In every run whose replies have a width the window has one, so that no position divides by
    zero, and a position is right exactly where its two numbers fit. -/
theorem window_run (h : Reachable Mark.Wide e) : 1 ≤ e.cols ∧
    ∀ offset, (posConvert e.cols offset).isSome ∧
      (Linear e.cols offset ↔ offset / e.cols < 2 ^ 15 ∧ offset % e.cols < 2 ^ 15) := by
  have hcols : 1 ≤ e.cols := by
    induction h with
    | init hmarks hinit => exact widens_updateWindowSize _ _ hmarks _ hinit
    | step _ hmarks hstep ih => exact widens_step ih _ hmarks _ hstep
  have hne : e.cols ≠ 0 := by omega
  exact ⟨hcols, fun offset => ⟨by simp [posConvert, hne], linear_iff hcols offset⟩⟩

/-! ## Fixed runs -/

def typeKeys (e : Editor) : List UInt8 → Edit Editor
  | [] => return e
  | c :: cs => do
    let e ← step e (.input none c quietEnv)
    typeKeys e cs

theorem reachable_typeKeys {ok : Mark → Prop} (h : Reachable ok e) {cs : List UInt8}
    (hmarks : ∀ m ∈ (typeKeys e cs).trace, ok m) {e' : Editor}
    (hrun : (typeKeys e cs).result = some e') : Reachable ok e' := by
  induction cs generalizing e with
  | nil => exact Option.some.inj hrun ▸ h
  | cons c cs ih =>
    change ∀ m ∈ (Traced.bind _ _).trace, ok m at hmarks
    change (Traced.bind _ _).result = some e' at hrun
    unfold Traced.bind at hmarks hrun
    cases hstep : (step e (.input none c quietEnv)).result with
    | none =>
      simp only [hstep] at hrun
      cases hrun
    | some e'' =>
      simp only [hstep] at hrun hmarks
      refine ih (h.step (fun m hm => hmarks m (List.mem_append_left _ hm)) hstep) ?_ hrun
      exact fun m hm => hmarks m (List.mem_append_right _ hm)

/-- `ESC [ 5 ; R`, a reply without a second number. -/
def emptyReply : List UInt8 := [27, 91, 53, 59, 82]

/-- `ESC [ 4 0 ; 9 9 R` -/
def wideReply : List UInt8 := [27, 91, 52, 48, 59, 57, 57, 82]

/-- The reply makes the window 0 columns wide; and 2 ^ 15 lines down a position is wrong. -/
theorem window_run_fails :
    (∃ e, Reachable (fun _ => True) e ∧ posConvert e.cols 1 = none) ∧
      ∃ e offset, Reachable (fun _ => True) e ∧ 1 ≤ e.cols ∧ ¬ Linear e.cols offset := by
  constructor
  · have hrun : ((typeKeys freshEditor emptyReply).result.map Editor.cols) = some 0 := by
      decide +kernel
    obtain ⟨e, he, hcols⟩ := Option.map_eq_some_iff.mp hrun
    refine ⟨e, reachable_typeKeys (freshEditor_reachable _) (fun _ _ => trivial) he, ?_⟩
    rw [hcols]
    rfl
  · refine ⟨freshEditor, 80 * 2 ^ 15, freshEditor_reachable _, by decide, fun hlinear => ?_⟩
    have hfits := (linear_iff (by decide) _).mp hlinear
    revert hfits
    decide

/-- A reply of 40 rows and 99 columns. -/
theorem window_run_reply : ∃ e, Reachable Mark.Wide e ∧ e.cols = 99 ∧ Linear e.cols 1000 := by
  have htrace : (typeKeys freshEditor wideReply).trace = [.reply 40 99] := rfl
  have hrun : ((typeKeys freshEditor wideReply).result.map Editor.cols) = some 99 := by
    decide +kernel
  obtain ⟨e, he, hcols⟩ := Option.map_eq_some_iff.mp hrun
  have hreach : Reachable Mark.Wide e :=
    reachable_typeKeys (freshEditor_reachable _) (by simp [htrace, Mark.Wide]) he
  refine ⟨e, hreach, hcols, ((window_run hreach).2 1000).2.mpr ?_⟩
  rw [hcols]
  decide

end LibWrt.Uline
