/-
LibWrt.PackageMetadata.Make — package-metadata.pl: the condition of a
dependency in the Kconfig file and in the makefile.

`selectLine` is what mconf_depends makes of one dependency `+cond:pkg` of a
package, `dependLines` what gen_package_mk makes of it. The makefile is a tree
(`Make`) where the source prints a text; `expand` is its expansion by make in a
configuration.
-/
import LibWrt.PackageMetadata.Condition
import Mathlib.Data.List.DropRight

namespace LibWrt.PackageMetadata

open List

/-! ## Texts of perl -/

/-- What perl takes for true: neither empty nor `0`. -/
def truthy (t : Text) : Bool := t != [] && t != ['0']

def fields (c : Char) : Text → List Text
  | a :: b :: rest =>
    if a = c ∧ b = c then [] :: fields c rest
    else match fields c (b :: rest) with
      | [] => [[a]]
      | t :: ts => (a :: t) :: ts
  | [a] => [[a]]
  | [] => [[]]

def split (c : Char) (t : Text) : List Text := (fields c t).rdropWhile (· == [])

def lastColon : Text → Option (Text × Text)
  | [] => none
  | c :: rest =>
    match lastColon rest with
    | some (a, b) => some (c :: a, b)
    | none => if c = ':' ∧ rest ≠ [] then some ([], rest) else none

/-- `/^(.+):(.+)$/` -/
def splitCondition (depend : Text) : Option (Text × Text) :=
  (lastColon depend).filter fun p => p.1 != []

/-! ## Kconfig -/

/-- A package, as far as the dependencies on it look at it. -/
structure Package where
  name : Word
  srcName : Text
  srcPath : Text
  buildonly : Bool
  variantDefault : Bool

/-- The condition of a dependency of a package, and what it depends on. A condition that is the
    package itself is dropped. -/
def mconfCondition (pkgname : Word) (depend : Text) : Text × Text :=
  match splitCondition depend with
  | some (cond, name) => (if cond ≠ pkgname.package.text then cond else [], name)
  | none => ([], depend)

/-- The providers of a virtual package, the default variants in front. -/
def vdeps (vdep : List Package) : List Text :=
  vdep.foldl (fun names v =>
    if v.buildonly then names
    else if v.variantDefault then v.name.text :: names
    else names ++ [v.name.text]) []

/-- No other provider is built in. -/
def noOther : List Text → Text
  | [] => []
  | [o] => packageText o ++ "!=y".toList
  | o :: os => packageText o ++ "!=y".toList ++ "&&".toList ++ noOther os

/-- The select of a dependency `+cond:pkg` of a package, its first one: the symbol and the
    condition, which is empty if there is none. What is its own condition is not selected. -/
def selectLine (vpackage : Text → Option (List Package)) (pkgname : Word) (depend : Text) :
    Option (Text × Text) :=
  let own := mconfCondition pkgname (depend.dropWhile (fun c => c == '@' || c == '+'))
  let names := (vpackage own.2).map vdeps
  let name := (names.map (·.headD [])).getD own.2
  let others := (names.map List.tail).getD []
  let condition :=
    if others = [] then own.1
    else (if truthy own.1 then own.1 ++ " && ".toList else []) ++ noOther others
  if truthy condition ∧ packageText name = condition then none
  else some (packageText name, condition)

/-- Kconfig reads a condition that is not no; a line without a condition has none. -/
def Enabled (v : Config) (condition : Text) : Prop :=
  truthy condition = true → ∃ e : Cond .or, e.render = condition ∧ e.value v ≠ .no

/-! ## The makefile -/

inductive Make where
  | text (t : Text)
  /-- `$(CONFIG_name)` -/
  | config (name : Text)
  /-- `$(and $(CONFIG_a),$(CONFIG_b))` -/
  | and (names : List Text)
  | append (a b : Make)
  /-- `$(if condition,then,else)` -/
  | ite (condition yes no : Make)

/-- The value of `CONFIG_name` in the configuration. -/
def Tristate.text : Tristate → Text
  | no => []
  | mod => ['m']
  | yes => ['y']

/-- The last value, if none is empty. -/
def expandAnd (v : Config) : List Text → Text
  | [] => []
  | [name] => (v name).text
  | name :: names => if (v name).text = [] then [] else expandAnd v names

def Make.expand (v : Config) : Make → Text
  | text t => t
  | config name => (v name).text
  | and names => expandAnd v names
  | append a b => a.expand v ++ b.expand v
  | ite condition yes no => if condition.expand v ≠ [] then yes.expand v else no.expand v

/-- and_condition -/
def andCondition (condition : Text) : Make :=
  match split '&' condition with
  | [name] => .config name
  | names => .and names

/-- `s/[()!]//g` -/
def withoutParens (condition : Text) : Text :=
  condition.filter fun c => !(c == '(' || c == ')' || c == '!')

/-- gen_condition -/
def genCondition (condition : Text) : Make :=
  ((split '|' (withoutParens condition)).map andCondition).foldr .append (.text [])

/-- get_conditional_dep -/
def getConditionalDep (condition : Text) (depstr : Make) : Make :=
  if truthy condition then
    match condition with
    | '!' :: c :: rest => .ite (genCondition (c :: rest)) (.text []) depstr
    | _ => .ite (genCondition condition) depstr (.text [])
  else depstr

/-- What a provider is compiled by; of several ones, those that are enabled. -/
def depstr (vdeps : List Package) (vdep : Package) : Make :=
  let compile := Make.text ("$(curdir)/".toList ++ vdep.srcPath ++ "/compile".toList)
  if vdeps.length > 1 then .ite (.config vdep.name.package.text) compile (.text [])
  else compile

/-- The lines of a dependency in gen_package_mk, with the providers and what compiles them. -/
def dependLines (srcname : Text) (vpackage : Text → Option (List Package)) (dep : Text) :
    List (Make × Make) :=
  if '@' ∈ dep then []
  else
    let dep := dep.filter (· != '+')
    let own := (splitCondition dep).getD ([], dep)
    match vpackage own.2 with
    | none => []
    | some vpkgDep =>
      let vdeps := vpkgDep.filter fun p => srcname != p.srcName
      vdeps.map fun vdep => (depstr vdeps vdep, getConditionalDep own.1 (depstr vdeps vdep))

/-! ## The text of a dependency -/

def dependency (c : Cond .or) (pkg : Word) : Text := '+' :: (c.render ++ ':' :: pkg.text)

theorem lastColon_none {t : Text} (ht : ':' ∉ t) : lastColon t = none := by
  induction t with
  | nil => rfl
  | cons c rest ih =>
    have hc : c ≠ ':' := by
      rintro rfl
      simp at ht
    simp [lastColon, ih (by simp_all), hc]

theorem lastColon_append {a b : Text} (hb : ':' ∉ b) (hne : b ≠ []) :
    lastColon (a ++ ':' :: b) = some (a, b) := by
  induction a with
  | nil => simp [lastColon, lastColon_none hb, hne]
  | cons c a ih => simp [lastColon, ih]

/-- The characters of a condition. -/
theorem Cond.mem_render {l : Level} {e : Cond l} {x : Char} (hx : x ∈ e.render) :
    wordChar x = true ∨ x ∈ ['!', '(', ')', '&', '|'] := by
  induction e with
  | sym s => exact Or.inl (s.word x hx)
  | ofUnary u ih => exact ih hx
  | ofAnd c ih => exact ih hx
  | not u ih =>
    rcases mem_cons.mp hx with rfl | hx
    · exact Or.inr (by simp)
    · exact ih hx
  | paren d ih =>
    simp only [render, mem_cons, mem_append] at hx
    grind
  | and u c ihu ihc =>
    simp only [render, mem_cons, mem_append] at hx
    grind
  | or c d ihc ihd =>
    simp only [render, mem_cons, mem_append] at hx
    grind

theorem Cond.not_mem_render {l : Level} {e : Cond l} {x : Char} (hword : wordChar x = false)
    (hx : x ∉ ['!', '(', ')', '&', '|']) : x ∉ e.render := by
  intro hmem
  rcases mem_render hmem with h | h
  · simp [hword] at h
  · exact hx h

theorem splitCondition_dependency (c : Cond .or) (pkg : Word) :
    splitCondition (c.render ++ ':' :: pkg.text) = some (c.render, pkg.text) := by
  have hcolon : ':' ∉ pkg.text := pkg.not_mem (by decide)
  simp [splitCondition, lastColon_append hcolon pkg.ne_nil, c.render_ne_nil]

/-- mconf_depends takes the condition as it stands. -/
theorem mconfCondition_dependency (pkgname : Word) (c : Cond .or) (pkg : Word) :
    mconfCondition pkgname (c.render ++ ':' :: pkg.text) =
      (if c.render ≠ pkgname.package.text then c.render else [], pkg.text) := by
  simp [mconfCondition, splitCondition_dependency]

/-- Not more than one package that is built for itself provides `name`. -/
def OneProvider (vpackage : Text → Option (List Package)) (name : Text) : Prop :=
  ∀ vdep ∈ vpackage name, (vdeps vdep).length ≤ 1

/-- With one provider a select has the condition of the dependency. -/
theorem selectLine_dependency {vpackage : Text → Option (List Package)} {pkgname pkg : Word}
    {c : Cond .or} {name : Text} (hone : OneProvider vpackage pkg.text)
    (hname : name = ((vpackage pkg.text).map fun vdep => (vdeps vdep).headD []).getD pkg.text) :
    selectLine vpackage pkgname (dependency c pkg) =
      let condition := (mconfCondition pkgname (c.render ++ ':' :: pkg.text)).1
      if truthy condition ∧ packageText name = condition then none
      else some (packageText name, condition) := by
  have hdrop : (dependency c pkg).dropWhile (fun c => c == '@' || c == '+') =
      c.render ++ ':' :: pkg.text := by
    cases hrender : c.render with
    | nil => exact absurd hrender c.render_ne_nil
    | cons x rest =>
      have hx : ∀ y, wordChar y = false → y ∉ ['!', '(', ')', '&', '|'] → x ≠ y := by
        rintro y hy hy' rfl
        exact Cond.not_mem_render hy hy' (hrender ▸ mem_cons_self : x ∈ c.render)
      simp [dependency, hrender, hx '@' (by decide) (by decide), hx '+' (by decide) (by decide)]
  have hothers : ((vpackage pkg.text).map fun vdep => (vdeps vdep).tail).getD [] = [] := by
    cases hprovides : vpackage pkg.text with
    | none => rfl
    | some vdep =>
      have hle := hone vdep hprovides
      exact length_eq_zero_iff.mp (by simp; omega)
  unfold selectLine
  rw [hdrop]
  simp only [mconfCondition_dependency, Option.map_map, Function.comp_def, hothers, if_true,
    hname]

/-- gen_package_mk takes the condition as it stands. -/
theorem dependLines_dependency (srcname : Text) (vpackage : Text → Option (List Package))
    (c : Cond .or) (pkg : Word) :
    dependLines srcname vpackage (dependency c pkg) =
      match vpackage pkg.text with
      | none => []
      | some vpkgDep =>
        (vpkgDep.filter fun p => srcname != p.srcName).map fun vdep =>
          (depstr (vpkgDep.filter fun p => srcname != p.srcName) vdep,
            getConditionalDep c.render
              (depstr (vpkgDep.filter fun p => srcname != p.srcName) vdep)) := by
  have hat : '@' ∉ dependency c pkg := by
    have hc : '@' ∉ c.render := Cond.not_mem_render (by decide) (by decide)
    have hp : '@' ∉ pkg.text := pkg.not_mem (by decide)
    simp [dependency, hc, hp]
  have hfilter : (dependency c pkg).filter (· != '+') = c.render ++ ':' :: pkg.text := by
    have hc : c.render.filter (· != '+') = c.render := by
      rw [filter_eq_self]
      intro x hx
      have : x ≠ '+' := by
        rintro rfl
        exact Cond.not_mem_render (by decide) (by decide) hx
      simpa using this
    have hp : pkg.text.filter (· != '+') = pkg.text := by
      rw [filter_eq_self]
      intro x hx
      have : x ≠ '+' := by
        rintro rfl
        exact pkg.not_mem (by decide) hx
      simpa using this
    simp [dependency, hc, hp]
  simp only [dependLines, hat, if_false, hfilter, splitCondition_dependency, Option.getD_some]

end LibWrt.PackageMetadata
