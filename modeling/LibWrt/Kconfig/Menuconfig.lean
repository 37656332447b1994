/-
LibWrt.Kconfig.Menuconfig — the expressions of kconfig.pl, and what make has
it do for menuconfig.

The arguments of the program are an expression in prefix notation, which is
evaluated as it is read (`parseExpr`); `Expr` is what it stands for. make
starts menuconfig with a sum of files, and stores in one of them how the
result differs from the sum of the others, but for the symbols of a filter.
-/
import LibWrt.Kconfig

namespace LibWrt.Kconfig

open List

/-! ## The code -/

/-- config_and -/
def configAnd (cfg1 cfg2 : Config) : Config :=
  cfg1.entries.foldl (fun config e => write config e.1
    (if (cfg2.get? e.1).any truthy ∧ cfg2.get? e.1 = some e.2 then some e.2 else none)) ∅

-- The patterns are ones that perl can compile: it dies at any other.
variable (regex : Text → Text → Bool)

/-- `/[?.*]/` -/
def isRegex (expr : Text) : Bool := expr.any (['?', '.', '*'].contains ·)

/-- What an `expr` of `config_sub` stands for; `regex` is the match with `/^$expr$/`. -/
def subKeys (cfg : Config) (expr : Text) : List Text :=
  if isRegex expr then cfg.keys.filter (regex expr) else [expr]

/-- config_sub -/
def configSub (cfg1 cfg2 : Config) : Config :=
  (cfg2.keys.flatMap (subKeys regex cfg1)).foldl (fun config k => config.del k) cfg1

/-- The branches of `parse_expr`: whether the second operand is loaded for m+, and what is made of
    the operands. -/
def operator (arg : Text) : Option (Bool × (Config → Config → Config)) :=
  if arg = ['&'] then some (false, configAnd)
  else if ['+'].isPrefixOf arg then some (false, (configAdd · · false))
  else if ['m', '+'].isPrefixOf arg then some (true, (configAdd · · true))
  else if arg = ['>'] then some (false, (configDiff · · false))
  else if arg = ['>', '+'] then some (false, (configDiff · · true))
  else if arg = ['-'] then some (false, configSub regex)
  else none

/-- The lines of the files that can be opened; the names are ones that perl's `open` reads. -/
abbrev Files := Text → Option (List Text)

variable (file : Files)

/-- parse_expr, with the arguments behind the expression. A call takes one at least. -/
def parseExpr : Nat → Bool → List Text → Option (Config × List Text)
  | fuel + 1, modPlus, arg :: args =>
    if truthy arg then
      match operator regex arg with
      | some (modPlus₂, op) => do
        let (arg1, args) ← parseExpr fuel false args
        let (arg2, args) ← parseExpr fuel modPlus₂ args
        some (op arg1 arg2, args)
      | none => (file arg).map fun lines => (loadConfig lines modPlus, args)
    else none
  | _, _, _ => none

/-- kconfig.pl, for arguments behind the options, without -n and -p: what it prints, and whether
    it ends without an error. It looks at what is behind the expression when it has printed. -/
def kconfigPl (args : List Text) : List Text × Bool :=
  match parseExpr regex file args.length false args with
  | some (cfg, rest) => (dumpConfig cfg, !rest.head?.any truthy)
  | none => ([], false)

/-- What it prints, if there is no error -/
def kconfig (args : List Text) : Option (List Text) :=
  match kconfigPl regex file args with
  | (lines, true) => some lines
  | (_, false) => none

/-- `__linux_confcmd` -/
def linuxConfcmd (list : List Text) : List Text := list.tail.map (fun _ => ['+']) ++ list

/-- `LINUX_RECONF_DIFF` -/
def linuxReconfDiff (others : List Text) (config filter : Text) : List Text :=
  ['-'] :: ['>'] :: linuxConfcmd others ++ [config, filter]

/-- The goal `menuconfig`: `.config` is made of `list`, edited, and stored in `target`. The shell
    empties the file that it directs an output to. -/
def menuconfig (list others : List Text) (target config filter : Text)
    (edit : List Text → List Text) : Option Files := do
  let lines ← kconfig regex (Function.update file config (some [])) (linuxConfcmd list)
  let file := Function.update file config (some (edit lines))
  let diff ← kconfig regex (Function.update file target (some []))
    (linuxReconfDiff others config filter)
  some (Function.update file target (some diff))

/-! ## Expressions -/

inductive Expr where
  | file (name : Text)
  | op (arg : Text) (e₁ e₂ : Expr)

def Expr.args : Expr → List Text
  | .file name => [name]
  | .op arg e₁ e₂ => arg :: (e₁.args ++ e₂.args)

def Expr.eval : Expr → Bool → Option Config
  | .file name, modPlus =>
    if truthy name ∧ operator regex name = none then
      (file name).map (loadConfig · modPlus)
    else none
  | .op arg e₁ e₂, _ => do
    let (modPlus, f) ← operator regex arg
    let arg1 ← e₁.eval false
    let arg2 ← e₂.eval modPlus
    some (f arg1 arg2)

variable {regex file} {cfg : Config} {modPlus : Bool}

theorem truthy_of_operator {arg : Text} {o} (h : operator regex arg = some o) :
    truthy arg = true := by
  cases arg with
  | nil => cases h
  | cons c t =>
    by_contra hno
    obtain ⟨rfl, rfl⟩ : c = '0' ∧ t = [] := by simpa [truthy] using hno
    cases h

/-- An expression is read from the arguments that stand for it. -/
theorem parseExpr_args {e : Expr} {fuel : Nat} {rest : List Text}
    (h : e.eval regex file modPlus = some cfg) (hfuel : e.args.length ≤ fuel) :
    parseExpr regex file fuel modPlus (e.args ++ rest) = some (cfg, rest) := by
  induction e generalizing fuel rest modPlus cfg with
  | file name =>
    obtain ⟨fuel, rfl⟩ := Nat.exists_eq_add_of_le' (show 1 ≤ fuel from hfuel)
    unfold Expr.eval at h
    split_ifs at h with hname
    obtain ⟨lines, hlines, rfl⟩ := Option.map_eq_some_iff.mp h
    simp [parseExpr, Expr.args, hname, hlines]
  | op arg e₁ e₂ ih₁ ih₂ =>
    simp only [Expr.eval, Option.bind_eq_bind, Option.bind_eq_some_iff] at h
    obtain ⟨o, ho, arg1, h₁, arg2, h₂, heq⟩ := h
    cases heq
    simp only [Expr.args, length_cons, length_append] at hfuel
    obtain ⟨fuel, rfl⟩ := Nat.exists_eq_add_of_le' (show 1 ≤ fuel by omega)
    rw [Expr.args, cons_append, append_assoc, parseExpr, if_pos (truthy_of_operator ho)]
    simp [ho, ih₁ h₁ (show e₁.args.length ≤ fuel by omega),
      ih₂ h₂ (show e₂.args.length ≤ fuel by omega)]

/-- What is read is an expression. -/
theorem exists_expr {fuel : Nat} {args rest : List Text}
    (h : parseExpr regex file fuel modPlus args = some (cfg, rest)) :
    ∃ e : Expr, args = e.args ++ rest ∧ e.eval regex file modPlus = some cfg := by
  induction fuel generalizing modPlus args cfg rest with
  | zero => simp [parseExpr] at h
  | succ fuel ih =>
    cases args with
    | nil => simp [parseExpr] at h
    | cons arg args =>
      rw [parseExpr] at h
      split_ifs at h with harg
      cases ho : operator regex arg with
      | none =>
        rw [ho] at h
        obtain ⟨lines, hlines, heq⟩ := Option.map_eq_some_iff.mp h
        cases heq
        exact ⟨.file arg, rfl, by simp [Expr.eval, harg, ho, hlines]⟩
      | some o =>
        rw [ho] at h
        simp only [Option.bind_eq_bind, Option.bind_eq_some_iff] at h
        obtain ⟨⟨arg1, args₁⟩, h₁, ⟨arg2, args₂⟩, h₂, heq⟩ := h
        cases heq
        obtain ⟨e₁, rfl, he₁⟩ := ih h₁
        obtain ⟨e₂, rfl, he₂⟩ := ih h₂
        exact ⟨.op arg e₁ e₂, by simp [Expr.args], by simp [Expr.eval, ho, he₁, he₂]⟩

theorem kconfigPl_append {e : Expr} (rest : List Text) (he : e.eval regex file false = some cfg) :
    kconfigPl regex file (e.args ++ rest) = (dumpConfig cfg, !rest.head?.any truthy) := by
  rw [kconfigPl, parseExpr_args he (by simp)]

theorem kconfig_append {e : Expr} {rest : List Text} (he : e.eval regex file false = some cfg)
    (hrest : rest.head?.any truthy = false) :
    kconfig regex file (e.args ++ rest) = some (dumpConfig cfg) := by
  rw [kconfig, kconfigPl_append rest he, hrest]
  rfl

/-- **The program evaluates the prefix expressions**: arguments that start with one that has a
    value are answered with its dump, and end in an error if something that is not empty or 0 is
    behind it; all others are an error, and nothing is printed. -/
theorem kconfig_iff (regex : Text → Text → Bool) (file : Files) (args out : List Text) (ok : Bool) :
    kconfigPl regex file args = (out, ok) ↔
      (∃ (e : Expr) (rest : List Text) (cfg : Config), args = e.args ++ rest ∧
        e.eval regex file false = some cfg ∧ out = dumpConfig cfg ∧
        ok = !rest.head?.any truthy) ∨
      (∀ (e : Expr) (rest : List Text), args = e.args ++ rest →
        e.eval regex file false = none) ∧ out = [] ∧ ok = false := by
  constructor
  · intro h
    cases hparse : parseExpr regex file args.length false args with
    | none =>
      rw [kconfigPl, hparse] at h
      cases h
      refine .inr ⟨fun e rest hargs => Option.eq_none_iff_forall_ne_some.mpr fun cfg he => ?_,
        rfl, rfl⟩
      rw [hargs, parseExpr_args he (by simp)] at hparse
      cases hparse
    | some r =>
      obtain ⟨e, hargs, he⟩ := exists_expr hparse
      rw [hargs, kconfigPl_append _ he] at h
      cases h
      exact .inl ⟨e, r.2, r.1, hargs, he, rfl, rfl⟩
  · rintro (⟨e, rest, cfg, rfl, he, rfl, rfl⟩ | ⟨hnone, rfl, rfl⟩)
    · exact kconfigPl_append rest he
    · cases hparse : parseExpr regex file args.length false args with
      | none => rw [kconfigPl, hparse]
      | some r =>
        obtain ⟨e, hargs, he⟩ := exists_expr hparse
        rw [hnone e r.2 hargs] at he
        cases he

/-! ## menuconfig -/

variable (regex) in
/-- The symbol is one of those that the filter is about. -/
def Filtered (filter : Config) (name : Text) : Bool :=
  filter.keys.any fun expr => if isRegex expr then regex expr name else expr == name

theorem get?_sub (a b : Config) (k : Text) : (configSub regex a b).get? k =
    if Filtered regex b k then none else a.get? k := by
  have hdel : ∀ (ks : List Text) (d : Config), (ks.foldl (fun d k => d.del k) d).get? k =
      if k ∈ ks then none else d.get? k := by
    intro ks
    induction ks with
    | nil => exact fun d => rfl
    | cons k' ks ih =>
      intro d
      rw [foldl_cons, ih, Dict.get?_del]
      by_cases hk : k = k' <;> simp [hk]
  rw [configSub, hdel]
  cases ha : a.get? k with
  | none => simp
  | some v =>
    have hkey : k ∈ a.keys :=
      AList.mem_keys.mp (AList.lookup_isSome.mp (Option.isSome_iff_exists.mpr ⟨v, ha⟩))
    have hiff : k ∈ b.keys.flatMap (subKeys regex a) ↔ Filtered regex b k = true := by
      rw [mem_flatMap, Filtered, any_eq_true]
      refine exists_congr fun expr => and_congr_right fun _ => ?_
      by_cases hregex : isRegex expr = true
      · simp [subKeys, hregex, hkey]
      · rw [subKeys, if_neg hregex, if_neg hregex, mem_singleton, beq_iff_eq]
        exact eq_comm
    simp only [hiff]

/-- An expression, and files added to it. -/
def Expr.sum (e : Expr) (names : List Text) : Expr :=
  names.foldl (fun e name => .op ['+'] e (.file name)) e

theorem sum_args (e : Expr) (names : List Text) :
    (e.sum names).args = names.map (fun _ => ['+']) ++ (e.args ++ names) := by
  induction names generalizing e with
  | nil => simp [Expr.sum]
  | cons name names ih =>
    rw [Expr.sum, foldl_cons]
    refine (ih _).trans ?_
    simp [Expr.args, ← replicate_succ, replicate_succ']

theorem sum_eval_congr {file' : Files} {e : Expr} {names : List Text}
    (he : e.eval regex file' false = e.eval regex file false)
    (hnames : ∀ name ∈ names, file' name = file name) :
    (e.sum names).eval regex file' false = (e.sum names).eval regex file false := by
  induction names generalizing e with
  | nil => exact he
  | cons name names ih =>
    refine ih ?_ fun n hn => hnames n (mem_cons_of_mem _ hn)
    simp only [Expr.eval, he, hnames name mem_cons_self]

/-- The name of a file, for parse_expr. -/
def IsFile (name : Text) : Prop := truthy name ∧ operator (fun _ _ => false) name = none

theorem eval_file {name : Text} (hname : IsFile name) {lines : List Text}
    (hlines : file name = some lines) :
    (Expr.file name).eval regex file modPlus = some (loadConfig lines modPlus) := by
  have hop : operator regex name = none := by
    have := hname.2
    unfold operator at this ⊢
    split_ifs at this ⊢
    rfl
  simp [Expr.eval, hname.1, hop, hlines]

theorem eval_op {arg : Text} {e₁ e₂ : Expr} {modPlus₂ : Bool} {f : Config → Config → Config}
    {arg1 arg2 : Config} (hop : operator regex arg = some (modPlus₂, f))
    (h₁ : e₁.eval regex file false = some arg1) (h₂ : e₂.eval regex file modPlus₂ = some arg2) :
    (Expr.op arg e₁ e₂).eval regex file modPlus = some (f arg1 arg2) := by
  simp [Expr.eval, hop, h₁, h₂]

variable {base : Config} {first : Text} {names : List Text}

theorem addOption_false (old val : Option Text) : addOption false old val = val.or old := by
  cases val <;> simp [addOption, addValue]

theorem diffValue_false (old : Option Text) (val : Text) :
    diffValue false old val = if old = some val then none else some val := by
  simp [diffValue]

/-- What is different and not filtered is stored, read and added to the sum of the others. -/
theorem get?_stored {edited stored : Config} {filtered : Text → Bool}
    (h : ∀ k, stored.get? k =
      if filtered k then none else (edited.get? k).bind (diffValue false (base.get? k)))
    (hproper : Proper base) (hedited : Proper edited) (k : Text) :
    (reload (configAdd base (reload stored false) false) false).get? k =
      (if filtered k then base.get? k else (edited.get? k).or (base.get? k)).map norm := by
  have hstored : Proper stored := by
    intro k v hv
    rw [h] at hv
    split_ifs at hv
    obtain ⟨w, hw, hd⟩ := Option.bind_eq_some_iff.mp hv
    rw [diffValue_false] at hd
    split_ifs at hd
    exact hedited k v (Option.some.inj hd ▸ hw)
  have hsum : Proper (configAdd base (reload stored false) false) := by
    intro k v hv
    rw [get?_add, addOption_false, get?_reload hstored] at hv
    cases hs : stored.get? k with
    | none => exact hproper k v (by simpa [hs] using hv)
    | some w =>
      obtain ⟨hk, hchars, hw⟩ := hstored k w hs
      obtain rfl : norm w = v := by simpa [hs] using hv
      refine ⟨hk, hchars, ?_⟩
      unfold norm
      split_ifs
      · decide
      · exact hw
  have hnorm : ∀ v, norm (norm v) = norm v := by
    intro v
    unfold norm
    split_ifs <;> rfl
  rw [get?_reload hsum, get?_add, addOption_false, get?_reload hstored, h]
  split_ifs
  · rfl
  · cases edited.get? k with
    | none => rfl
    | some v =>
      rw [Option.bind_some, diffValue_false]
      split_ifs with hsame
      · rw [hsame]
        rfl
      · simp [hnorm]

/-- **menuconfig**: whatever was in the target before, afterwards the files come to the edited
    configuration, and to the other files where it has no value or the filter has the symbol. -/
theorem menuconfig_stores {list filterLines lines : List Text} {target config filter : Text}
    {edit : List Text → List Text}
    (hlist : kconfig regex (Function.update file config (some [])) (linuxConfcmd list) = some lines)
    (hbase : ((Expr.file first).sum names).eval regex file false = some base)
    (hfilter : file filter = some filterLines)
    (hfiles : IsFile target ∧ IsFile config ∧ IsFile filter)
    (hapart : filter ≠ config ∧ filter ≠ target ∧ config ≠ target)
    (hothers : config ∉ first :: names ∧ target ∉ first :: names)
    (hproper : Proper base) (hedited : Proper (loadConfig (edit lines) false)) :
    ∃ file' lines', menuconfig regex file list (first :: names) target config filter edit =
        some file' ∧
      kconfig regex file' (linuxConfcmd (first :: names ++ [target])) = some lines' ∧
      ∀ k, (loadConfig lines' false).get? k =
        (if Filtered regex (loadConfig filterLines false) k then base.get? k
        else ((loadConfig (edit lines) false).get? k).or (base.get? k)).map norm := by
  obtain ⟨htarget, hconfig, hfilterName⟩ := hfiles
  obtain ⟨hfilterConfig, hfilterTarget, hne⟩ := hapart
  set edited := loadConfig (edit lines) false with hedit
  have hnil : ([] : List Text).head?.any truthy = false := rfl
  -- the sum of the others does not depend on the two files that are written
  have hsum (file' : Files) (h : ∀ n, n ≠ config → n ≠ target → file' n = file n) :
      ((Expr.file first).sum names).eval regex file' false = some base := by
    have hsame : ∀ n ∈ first :: names, file' n = file n := fun n hn =>
      h n (ne_of_mem_of_not_mem hn hothers.1) (ne_of_mem_of_not_mem hn hothers.2)
    rw [forall_mem_cons] at hsame
    rw [sum_eval_congr (by simp only [Expr.eval, hsame.1]) hsame.2, hbase]
  let file₁ := Function.update file config (some (edit lines))
  let empty := Function.update file₁ target (some [])
  have hsum₁ := hsum empty fun n hn hn' =>
    (Function.update_of_ne hn' ..).trans (Function.update_of_ne hn ..)
  let stored := configSub regex (configDiff base edited false) (loadConfig filterLines false)
  have hdiff : kconfig regex empty (linuxReconfDiff (first :: names) config filter) =
      some (dumpConfig stored) := by
    have hread : empty config = some (edit lines) :=
      (Function.update_of_ne hne ..).trans (Function.update_self ..)
    have hkept : empty filter = some filterLines :=
      (Function.update_of_ne hfilterTarget ..).trans
        ((Function.update_of_ne hfilterConfig ..).trans hfilter)
    have hminus : operator regex ['-'] = some (false, configSub regex) := rfl
    have hdiffers : operator regex ['>'] = some (false, (configDiff · · false)) := rfl
    have hrun := kconfig_append (eval_op hminus (eval_op hdiffers hsum₁ (eval_file hconfig hread))
      (eval_file hfilterName hkept)) hnil
    simpa [linuxReconfDiff, linuxConfcmd, Expr.args, sum_args] using hrun
  let file₂ := Function.update file₁ target (some (dumpConfig stored))
  have hsum₂ := hsum file₂ fun n hn hn' =>
    (Function.update_of_ne hn' ..).trans (Function.update_of_ne hn ..)
  have hrebuild : ((Expr.file first).sum (names ++ [target])).eval regex file₂ false =
      some (configAdd base (reload stored false) false) := by
    rw [Expr.sum, foldl_append, foldl_cons, foldl_nil]
    have hplus : operator regex ['+'] = some (false, (configAdd · · false)) := rfl
    exact eval_op hplus hsum₂ (eval_file htarget (Function.update_self ..))
  refine ⟨file₂, dumpConfig (configAdd base (reload stored false) false), ?_, ?_,
    get?_stored (fun k => ?_) hproper hedited⟩
  · rw [menuconfig, hlist]
    simp [hdiff, file₁, file₂, empty]
  · have hrun := kconfig_append hrebuild hnil
    rwa [append_nil, sum_args] at hrun
  · rw [get?_sub, get?_diff]

/-- CONFIG_X is y in one file. -/
def sampleFiles : Files := fun name =>
  if name = ['g'] then some [PREFIX ++ ['X', '=', 'y']]
  else if name = ['f'] then some []
  else none

/-- A file behind the expression is an error, when the expression is printed. -/
theorem kconfig_iff_behind :
    kconfigPl (fun _ _ => false) sampleFiles [['g'], ['f']] =
      ([PREFIX ++ ['X', '=', 'y']], false) := by
  refine (kconfig_iff _ sampleFiles [['g'], ['f']] _ false).mpr
    (.inl ⟨.file ['g'], [['f']], only ['y'], rfl, rfl, ?_, rfl⟩)
  have hentries : (only ['y']).entries = [⟨['X'], ['y']⟩] := rfl
  rw [dumpConfig, hentries, mergeSort_singleton]
  rfl

/-- It is m when it was edited. -/
theorem menuconfig_stores_sample : ∃ file' lines',
    menuconfig (fun _ _ => false) sampleFiles [['g']] [['g']] ['t'] ['c'] ['f']
      (fun _ => [PREFIX ++ ['X', '=', 'm']]) = some file' ∧
    kconfig (fun _ _ => false) file' (linuxConfcmd [['g'], ['t']]) = some lines' ∧
    (loadConfig lines' false).get? ['X'] = some ['m'] := by
  obtain ⟨file', lines', hmenu, hrun, hget⟩ := @menuconfig_stores (fun _ _ => false) sampleFiles
    (only ['y']) ['g'] [] [['g']] [] _ ['t'] ['c'] ['f'] (fun _ => [PREFIX ++ ['X', '=', 'm']])
    rfl rfl rfl ⟨⟨rfl, rfl⟩, ⟨rfl, rfl⟩, rfl, rfl⟩ (by decide) (by decide)
    (tristate_only (by decide)).proper (tristate_only (v := ['m']) (by decide)).proper
  exact ⟨file', lines', hmenu, hrun, (hget ['X']).trans rfl⟩

end LibWrt.Kconfig
