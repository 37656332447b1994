/-
LibWrt.Uline.EditorRun — the lines stay in order while they are edited.

Every key keeps the invariant of the lines and finds its allocation, if the
calls that the trace keeps are safe: a line is set where its allocation has
room for it and a terminator in the right place, a line is killed that has an
allocation, and a callback that claims a key for the second line leaves it
there. `editor_run` carries this over every run; `editor_run_fails` has a run
for the first two.
-/
import LibWrt.Uline.Editor

namespace LibWrt.Uline

open Option Prod

structure Editor.Ok (e : Editor) : Prop where
  line : e.line.Ok
  line2 : ∀ l, e.line2 = some l → l.Ok

/-- What a call asks of the line that it is for. -/
def Mark.Safe : Mark → Prop
  | set l str => ∃ bytes, l.buf = some bytes ∧ str.length < bytes.length ∧
      bytes[str.length]? = some 0
  | kill l => l.buf.isSome
  | claim line2 => line2.isSome
  | reply _ _ => True

/-- A computation keeps the lines in order, and does not stop, where its calls are safe. -/
abbrev Sound {α : Type} (editor : α → Editor) (x : Edit α) : Prop :=
  Traced.Total Mark.Safe x fun a => (editor a).Ok

variable {e : Editor}

theorem Editor.Ok.displayUpdate (h : e.Ok) : (displayUpdate e).Ok := by
  refine ⟨h.line.displayUpdateLine, fun l hl => ?_⟩
  obtain ⟨l', hl', rfl⟩ := map_eq_some_iff.mp hl
  exact (h.line2 l' hl').displayUpdateLine

/-! ## The interface -/

theorem sound_setMarked {l : Linebuf} (utf8 : Bool) (str : List UInt8) (alloc : Alloc) :
    Traced.Total Mark.Safe (setMarked utf8 l str alloc) Linebuf.Ok := by
  refine Traced.Total.bind Traced.Total.note fun _ hsafe => Traced.Total.ofOption ?_
  obtain ⟨bytes, hbuf, hroom, hnul⟩ := hsafe
  exact l.setLine_ok utf8 alloc hbuf hroom hnul

theorem sound_api (h : e.Ok) (call : Api) : Sound id (call.run e) := by
  cases call with
  | setLine str alloc =>
    exact (sound_setMarked _ _ _).bind fun line hline => .pure ⟨hline, h.line2⟩
  | setCursor pos => exact .pure ⟨h.line.setCursor pos, h.line2⟩
  | setLine2Prompt prompt =>
    cases prompt with
    | true =>
      refine .pure ⟨h.line, fun l hl => ?_⟩
      cases hline2 : e.line2 with
      | none =>
        simp only [id_eq, hline2, getD_none, some.injEq] at hl
        exact hl ▸ Linebuf.Ok.zero
      | some l' =>
        simp only [id_eq, hline2, getD_some, some.injEq] at hl
        exact hl ▸ h.line2 l' hline2
    | false => exact .pure ⟨h.line, fun l hl => by cases hl⟩
  | setLine2 str alloc =>
    cases hline2 : e.line2 with
    | none =>
      simp only [Api.run, hline2]
      exact .pure h
    | some l' =>
      simp only [Api.run, hline2]
      refine (sound_setMarked _ _ _).bind fun line hline => .pure ⟨h.line, fun l hl => ?_⟩
      obtain rfl := some.inj hl
      exact hline
  | setLine2Cursor pos =>
    refine .pure ⟨h.line, fun l hl => ?_⟩
    obtain ⟨l', hl', rfl⟩ := map_eq_some_iff.mp hl
    exact (h.line2 l' hl').setCursor pos
  | refreshPrompt => exact .pure h.displayUpdate
  | setStop stop => exact .pure ⟨h.line, h.line2⟩

theorem sound_runCalls (h : e.Ok) (calls : List Api) : Sound id (runCalls e calls) := by
  induction calls generalizing e with
  | nil => exact .pure h
  | cons call calls ih => exact (sound_api h call).bind fun _ hcall => ih hcall

theorem sound_answer (h : e.Ok) (a : Answer) : Sound fst (a.run e) :=
  (sound_runCalls h a.calls).bind fun _ hcalls => .pure hcalls

theorem sound_askIf (h : e.Ok) (a : Option Answer) : Sound fst (askIf e a) := by
  cases a with
  | none => exact .pure h
  | some a => exact sound_answer h a

theorem sound_notifyEvent (h : e.Ok) (event : Answer) : Sound fst (notifyEvent e event) :=
  (sound_answer h event).bind fun _ hr => .pure hr

/-! ## Keys -/

/-- An operation on a line leaves the second line where it is. -/
theorem edit_spec (h : e.Ok) {second : Bool} (hsecond : second = true → e.line2.isSome)
    {f : Linebuf → Option (Linebuf × Bool)} (hf : Keeps f) :
    Traced.Total Mark.Safe (e.edit second f) fun r =>
      r.1.Ok ∧ (second = true → r.1.line2.isSome) := by
  cases second with
  | true =>
    obtain ⟨l, hl⟩ := isSome_iff_exists.mp (hsecond rfl)
    have hline2 : ∃ b, e.line2 = some b ∧ b.Ok := ⟨l, hl, h.line2 l hl⟩
    refine (Traced.Total.ofOption hline2).bind fun l hok => ?_
    refine (Traced.Total.ofOption (hf l hok)).bind fun r hr =>
      .pure ⟨⟨h.line, fun l hl => ?_⟩, fun _ => rfl⟩
    obtain rfl := some.inj hl
    exact hr
  | false =>
    refine (Traced.Total.ofOption (hf _ h.line)).bind fun r hr =>
      .pure ⟨⟨hr, h.line2⟩, fun hfalse => by cases hfalse⟩

theorem sound_edit (h : e.Ok) {second : Bool} (hsecond : second = true → e.line2.isSome)
    {f : Linebuf → Option (Linebuf × Bool)} (hf : Keeps f) :
    Sound fst (e.edit second f) :=
  (edit_spec h hsecond hf).mono fun _ hr => hr.1

theorem keeps_home : Keeps fun l => some ({ l with pos := 0 }, true) :=
  fun _ h => ⟨_, rfl, h.move (Nat.zero_le _)⟩

theorem keeps_end : Keeps fun l => some ({ l with pos := l.len }, true) :=
  fun _ h => ⟨_, rfl, h.move (Nat.le_refl _)⟩

theorem keeps_insert (c : List UInt8) (alloc : Alloc) :
    Keeps fun l => some (linebufInsert l c alloc) :=
  fun _ h => ⟨_, rfl, h.insert c alloc⟩

section

variable (h : e.Ok)

include h

theorem sound_takesLine2 (esc : Escape) (env : Env) :
    Traced.Total Mark.Safe (takesLine2 e esc env) fun r =>
      r.1.Ok ∧ (r.2 = true → r.1.line2.isSome) := by
  unfold takesLine2
  split
  · exact .pure ⟨h, fun hfalse => by cases hfalse⟩
  · rename_i hsome
    split
    · exact .pure ⟨h, fun _ => by simpa [isSome_iff_ne_none] using hsome⟩
    · refine (sound_askIf h env.line2Cursor).bind ?_
      rintro ⟨e', claimed⟩ he'
      cases claimed with
      | true => exact Traced.Total.note.bind fun _ hsafe => .pure ⟨he', fun _ => hsafe⟩
      | false => exact .pure ⟨he', fun hfalse => by cases hfalse⟩

theorem sound_processEsc (esc : Escape) (data : Nat) (env : Env) :
    Sound fst (processEsc e esc data env) := by
  refine (sound_takesLine2 h esc env).bind ?_
  rintro ⟨e', second⟩ ⟨he', hsecond⟩
  cases esc with
  | cursorLeft => exact sound_edit he' hsecond (keeps_moveLeft _)
  | cursorWordLeft => exact sound_edit he' hsecond (keeps_moveWordLeft _)
  | cursorRight => exact sound_edit he' hsecond (keeps_moveRight _)
  | cursorWordRight => exact sound_edit he' hsecond keeps_moveWordRight
  | home => exact sound_edit he' hsecond keeps_home
  | «end» => exact sound_edit he' hsecond keeps_end
  | delete => exact sound_edit he' hsecond (keeps_deleteSymbol _ _)
  | cursorUp => exact sound_notifyEvent he' _
  | cursorDown => exact sound_notifyEvent he' _
  | cursorPos =>
    dsimp only
    split
    · exact .pure he'
    · have hresized : Editor.Ok { e' with rows := data % 2 ^ 16, cols := data / 2 ^ 16 } :=
        ⟨he'.line, he'.line2⟩
      exact Traced.Total.note.bind fun _ _ => sound_notifyEvent hresized _
  | incomplete => exact .pure he'
  | unknown => exact .pure he'
  | ignore => exact .pure he'

/-- A line that has an allocation is reset. -/
theorem sound_reset (second : Bool) {l : Linebuf}
    (hl : if second then e.line2 = some l else e.line = l) (hbuf : l.buf.isSome) :
    Sound fst (e.edit second fun l => (linebufReset l).map fun l => (l, true)) := by
  obtain ⟨bytes, hbytes⟩ := isSome_iff_exists.mp hbuf
  have hreset : ∀ l', l' = l → l'.Ok → ∃ r,
      ((linebufReset l').map fun l => (l, true)) = some r ∧ r.1.Ok := by
    rintro l' rfl hok
    obtain ⟨l'', hreset, hok'⟩ := hok.reset hbytes
    exact ⟨(l'', true), by rw [hreset]; rfl, hok'⟩
  cases second with
  | true =>
    have hline2 : ∃ b, e.line2 = some b ∧ b = l ∧ b.Ok := ⟨l, hl, rfl, h.line2 l hl⟩
    refine (Traced.Total.ofOption hline2).bind fun l' hok => ?_
    refine (Traced.Total.ofOption (hreset l' hok.1 hok.2)).bind fun r hr =>
      .pure ⟨h.line, fun l hl => ?_⟩
    obtain rfl := some.inj hl
    exact hr
  | false =>
    exact (Traced.Total.ofOption (hreset e.line hl h.line)).bind fun r hr => .pure ⟨hr, h.line2⟩

theorem sound_resetLine : Sound fst (resetLine e) := by
  unfold resetLine
  split
  · exact .pure h
  · obtain ⟨bytes, hbuf⟩ := h.line.allocated (by omega)
    exact sound_reset h false rfl (by rw [hbuf]; rfl)

theorem sound_acceptLine (env : Env) : Sound fst (acceptLine e env) := by
  have hasked : Sound fst (askNewline e env) := by
    unfold askNewline
    split
    · exact sound_askIf h _
    · exact .pure h
  refine hasked.bind ?_
  rintro ⟨e', kept⟩ he'
  cases kept with
  | true => exact .pure he'
  | false =>
    have hfreed : Editor.Ok { e' with line2 := none } := ⟨he'.line, fun l hl => by cases hl⟩
    refine (sound_answer hfreed env.line).bind ?_
    rintro ⟨e'', accepted⟩ he''
    cases accepted with
    | true => exact sound_resetLine he''
    | false => exact .pure ⟨he''.line.insert _ _, he''.line2⟩

theorem sound_notifyLine2 (env : Env) : Sound id (notifyLine2 e env) := by
  unfold notifyLine2
  split
  · exact (sound_askIf h _).bind fun _ hr => .pure hr
  · exact .pure h

theorem sound_backspace (env : Env) : Sound fst (backspace e env) := by
  refine (edit_spec h id (keeps_moveLeft _)).bind ?_
  rintro ⟨e', moved⟩ ⟨he', hsecond⟩
  cases moved with
  | true =>
    refine (sound_edit he' hsecond (keeps_deleteSymbol _ _)).bind fun r hr => ?_
    exact (sound_notifyLine2 hr env).bind fun _ hn => .pure hn
  | false => exact .pure he'

theorem sound_processCtrl (c : UInt8) (env : Env) :
    Sound fst (processCtrl e c env) := by
  unfold processCtrl
  dsimp only
  split
  · exact sound_acceptLine h env
  · exact sound_acceptLine h env
  · refine (sound_answer h env.event).bind fun _ he' => ?_
    exact (sound_resetLine he').bind fun _ hr => .pure ⟨hr.line, hr.line2⟩
  · split
    · exact .pure h
    · exact (sound_answer h env.event).bind fun _ hr => .pure ⟨hr.line, hr.line2⟩
  · exact sound_backspace h env
  · exact sound_backspace h env
  · exact .pure h
  · refine Traced.Total.note.bind fun _ hsafe => sound_reset h _ ?_ hsafe
    cases hline2 : e.line2 <;> simp
  · exact sound_processEsc h _ _ _
  · exact sound_processEsc h _ _ _
  · exact sound_edit h id (keeps_processBackword _ _)
  · exact .pure ⟨h.line, h.line2⟩
  · exact .pure h

theorem sound_insertChar (c : UInt8) (env : Env) :
    Sound fst (insertChar e c env) := by
  refine (sound_edit h id (keeps_insert [c] env.alloc)).bind ?_
  rintro ⟨e', inserted⟩ he'
  cases inserted with
  | false => exact .pure he'
  | true =>
    simp only [Bool.not_true, Bool.false_eq_true, if_false]
    have hcont : Editor.Ok { e' with utf8Cont := (handleUtf8 e' c).1 } := ⟨he'.line, he'.line2⟩
    split
    · exact .pure hcont
    · exact (sound_notifyLine2 hcont env).bind fun _ hn => .pure hn

theorem sound_processKey (c : UInt8) (env : Env) :
    Sound fst (processKey e c env) := by
  unfold processKey
  split
  · dsimp only
    split
    · exact .pure ⟨h.line, h.line2⟩
    · have hnone : Editor.Ok { e with escSeq := none } := ⟨h.line, h.line2⟩
      exact sound_processEsc hnone _ _ _
  · have hasked : Sound fst (askKey e c env) := by
      unfold askKey
      split
      · exact .pure h
      · exact sound_askIf h _
    refine hasked.bind ?_
    rintro ⟨e', handled⟩ he'
    cases handled with
    | true => exact .pure he'
    | false =>
      simp only [Bool.false_eq_true, if_false]
      split
      · exact sound_processCtrl he' c env
      · exact sound_insertChar he' c env

theorem sound_processChar (c : UInt8) (env : Env) :
    Sound id (processChar e c env) := by
  refine (sound_processKey h c env).bind ?_
  rintro ⟨e', changed⟩ he'
  refine .pure ?_
  show (if changed && !e'.stop then displayUpdate e' else e').Ok
  split
  · exact he'.displayUpdate
  · exact he'

end

/-! ## Runs -/

theorem sound_updateWindowSize (h : e.Ok) (w : Winch) : Sound id (updateWindowSize e w) := by
  unfold updateWindowSize
  dsimp only
  split
  · exact .pure ⟨h.line, h.line2⟩
  · refine (sound_answer ?_ w.event).bind fun _ hr => .pure hr
    exact ⟨h.line, h.line2⟩

theorem sound_ulineInit (utf8 : Bool) (longBits : Nat) (w : Winch) :
    Sound id (ulineInit utf8 longBits w) :=
  sound_updateWindowSize ⟨Linebuf.Ok.zero, fun l hl => by cases hl⟩ w

theorem sound_step (h : e.Ok) (act : Act) : Sound id (step e act) := by
  cases act with
  | poll => exact .pure ⟨h.displayUpdate.line, h.displayUpdate.line2⟩
  | input winch c env =>
    cases winch with
    | none => exact (Traced.Total.pure h).bind fun _ he => sound_processChar he c env
    | some w => exact (sound_updateWindowSize h w).bind fun _ he => sound_processChar he c env
  | eof event => exact (sound_answer h event).bind fun _ hr => .pure hr
  | api call => exact sound_api h call

inductive Reachable (ok : Mark → Prop) : Editor → Prop where
  | init {utf8 : Bool} {longBits : Nat} {w : Winch} {e : Editor}
      (hmarks : ∀ m ∈ (ulineInit utf8 longBits w).trace, ok m)
      (hinit : (ulineInit utf8 longBits w).result = some e) : Reachable ok e
  | step {e e' : Editor} {act : Act} (h : Reachable ok e)
      (hmarks : ∀ m ∈ (step e act).trace, ok m) (hstep : (step e act).result = some e') :
      Reachable ok e'

/-- In every run of safe calls the lines are in order, and the next step does not stop. -/
theorem editor_run (h : Reachable Mark.Safe e) :
    e.Ok ∧ ∀ act, (∀ m ∈ (step e act).trace, m.Safe) → ∃ e', (step e act).result = some e' := by
  have hok : e.Ok := by
    induction h with
    | init hmarks hinit =>
      obtain ⟨e', he', hok⟩ := sound_ulineInit _ _ _ hmarks
      rw [hinit] at he'
      exact some.inj he' ▸ hok
    | step _ hmarks hstep ih =>
      obtain ⟨e', he', hok⟩ := sound_step ih _ hmarks
      rw [hstep] at he'
      exact some.inj he' ▸ hok
  refine ⟨hok, fun act hmarks => ?_⟩
  obtain ⟨e', he', -⟩ := sound_step hok act hmarks
  exact ⟨e', he'⟩

/-! ## Fixed runs -/

def quiet : Answer := { calls := [], ret := false }

/-- No callback for keys, and memory that is cleared. -/
def quietEnv : Env where
  keyInput := none
  event := quiet
  line := quiet
  line2Update := none
  line2Cursor := none
  line2Newline := none
  alloc := some fun _ => 0
  beyond := []

/-- A window of 80 columns. -/
def quietWinch : Winch := { size := some (80, 25), event := quiet }

def freshEditor : Editor where
  line := Linebuf.zero
  line2 := none
  rows := 25
  cols := 80
  ioctlWinsize := true
  stop := false
  utf8 := true
  escSeq := none
  utf8Cont := 0
  longBits := 64

theorem freshEditor_reachable (ok : Mark → Prop) : Reachable ok freshEditor :=
  @Reachable.init ok true 64 quietWinch freshEditor (fun m hm => by cases hm) rfl

/-- A line of 64 bytes fills its allocation, and Control-U goes through a null pointer. -/
theorem editor_run_fails :
    (∃ e, Reachable (fun _ => True) e ∧ ¬ e.Ok) ∧
      ∃ e act, Reachable (fun _ => True) e ∧ (step e act).result = none := by
  constructor
  · have hrun : ((step freshEditor (.api (.setLine (List.replicate 64 97)
        (some fun _ => 0)))).result.map fun e => (e.line.len, e.line.bufsize)) = some (64, 64) := by
      decide +kernel
    obtain ⟨e, he, hboth⟩ := map_eq_some_iff.mp hrun
    obtain ⟨hlen, hsize⟩ := Prod.mk.inj hboth
    refine ⟨e, (freshEditor_reachable _).step (fun _ _ => trivial) he, fun hok => ?_⟩
    obtain ⟨bytes, hbuf⟩ := hok.line.allocated (by omega)
    have hroom := (hok.line.room bytes hbuf).1
    rw [Linebuf.bufsize, Linebuf.bytes, hbuf, getD_some] at hsize
    omega
  · exact ⟨freshEditor, .input none 21 quietEnv, freshEditor_reachable _, rfl⟩

instance : DecidablePred Mark.Safe
  | .set l str => decidable_of_iff (l.buf.any (fun bytes =>
      decide (str.length < bytes.length ∧ bytes[str.length]? = some 0)) = true)
      (by simp [Mark.Safe, Option.any_eq_true])
  | .kill l => inferInstanceAs (Decidable (l.buf.isSome = true))
  | .claim line2 => inferInstanceAs (Decidable (line2.isSome = true))
  | .reply _ _ => inferInstanceAs (Decidable True)

/-- A letter is typed, another line is set, and Control-U takes it away. -/
theorem editor_run_killed : ∃ e, Reachable Mark.Safe e ∧ e.line.len = 0 ∧ e.Ok ∧
    ∀ act, (∀ m ∈ (step e act).trace, m.Safe) → ∃ e', (step e act).result = some e' := by
  have hrun : ((step freshEditor (.input none 97 quietEnv)).result.bind fun e₁ =>
      (step e₁ (.api (.setLine [120, 121] (some fun _ => 0)))).result.bind fun e₂ =>
      (step e₂ (.input none 21 quietEnv)).result.map fun e₃ =>
        ([e₁, e₂, e₃].map fun e => e.line.len,
          decide (∀ m ∈ (step e₁ (.api (.setLine [120, 121] (some fun _ => 0)))).trace, m.Safe),
          decide (∀ m ∈ (step e₂ (.input none 21 quietEnv)).trace, m.Safe))) =
      some ([1, 2, 0], true, true) := by
    decide +kernel
  obtain ⟨e₁, he₁, hrun⟩ := bind_eq_some_iff.mp hrun
  obtain ⟨e₂, he₂, hrun⟩ := bind_eq_some_iff.mp hrun
  obtain ⟨e₃, he₃, hrun⟩ := map_eq_some_iff.mp hrun
  simp only [List.map_cons, List.map_nil, Prod.mk.injEq, List.cons.injEq, decide_eq_true_eq] at hrun
  obtain ⟨⟨-, -, hlen, -⟩, hset, hkill⟩ := hrun
  have htrace : (step freshEditor (.input none 97 quietEnv)).trace = [] := rfl
  have hreach : Reachable Mark.Safe e₃ :=
    (((freshEditor_reachable _).step (by simp [htrace]) he₁).step hset he₂).step hkill he₃
  exact ⟨e₃, hreach, hlen, editor_run hreach⟩

end LibWrt.Uline
