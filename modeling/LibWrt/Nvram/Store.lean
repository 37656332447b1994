/-
LibWrt.Nvram.Store — the name/value pairs of an open nvram partition.

The handle keeps the pairs in 257 chains. A value is changed where its tuple
is, a new tuple is put at the head of its chain, and one that is unset is
moved to the dead list. Memory for tuples and values is taken to be there.
`Handle.get_run` says that over any calls the chains are a finite map.
-/
import LibWrt.Lib.Chains
import Mathlib.Data.UInt

namespace LibWrt.Nvram

open List

abbrev CString := { s : List UInt8 // 0 ∉ s }

def CString.length (s : CString) : Nat := s.val.length

/-- A `char` as it is added to a `uint32_t`, on a machine where it may be signed. -/
def charValue (signed : Bool) (c : UInt8) : UInt32 :=
  if signed && 128 ≤ c then c.toUInt32 - 256 else c.toUInt32

/-- `hash` -/
def hash (signed : Bool) (s : CString) : UInt32 :=
  s.val.foldl (fun hash c => 31 * hash + charValue signed c) 0

def chainOf (signed : Bool) (name : CString) : Fin 257 :=
  ⟨(hash signed name).toNat % 257, Nat.mod_lt _ (by decide)⟩

/-- `nvram_handle_t`, without the file; `signed` is the machine's. -/
structure Handle where
  signed : Bool
  mmap : List UInt8
  length : Nat
  offset : Nat
  hash : Chains 257 CString CString
  dead : List (CString × CString)

namespace Handle

/-- `_nvram_free` -/
def free (h : Handle) : Handle := { h with hash := .empty, dead := [] }

/-- `_nvram_realloc` finds that a value has room in the partition. -/
def HasRoom (h : Handle) (value : CString) : Prop := value.length + 1 ≤ h.length - h.offset

instance (h : Handle) (value : CString) : Decidable (h.HasRoom value) := by
  unfold HasRoom
  infer_instance

/-- `nvram_get` -/
def get (h : Handle) (name : CString) : Option CString := h.hash.get (chainOf h.signed) name

/-- `nvram_set`; a tuple that is there is never moved, since `_nvram_realloc` returns it. -/
def set (h : Handle) (name value : CString) : Int × Handle :=
  if h.HasRoom value then (0, { h with hash := h.hash.set (chainOf h.signed) name value })
  else (-12, h)

/-- `nvram_unset` -/
def unset (h : Handle) (name : CString) : Int × Handle :=
  match (h.hash (chainOf h.signed name)).find? fun t => t.1 = name with
  | some t =>
    (0, { h with hash := h.hash.erase (chainOf h.signed) name, dead := t :: h.dead })
  | none => (0, h)

/-- `nvram_getall` -/
def getall (h : Handle) : List (CString × CString) :=
  (List.finRange 257).foldl (fun l i => (h.hash i).foldl (fun l t => t :: l) l) []

end Handle

/-! ## Calls -/

inductive Call where
  | set (name value : CString)
  | unset (name : CString)
  | get (name : CString)
  | getall

inductive Response where
  | status (stat : Int)
  | value (value : Option CString)
  | tuples (tuples : List (CString × CString))

namespace Handle

def call (h : Handle) : Call → Response × Handle
  | .set name value => let (stat, h) := h.set name value; (.status stat, h)
  | .unset name => let (stat, h) := h.unset name; (.status stat, h)
  | .get name => (.value (h.get name), h)
  | .getall => (.tuples h.getall, h)

def run (h : Handle) (calls : List Call) : Handle := calls.foldl (fun h c => (h.call c).2) h

/-- The value of a name after a call, as a finite map has it; a value without room is refused. -/
def valueAfter (h : Handle) (name : CString) (value : Option CString) : Call → Option CString
  | .set name' value' => if name = name' ∧ h.HasRoom value' then some value' else value
  | .unset name' => if name = name' then none else value
  | .get _ => value
  | .getall => value

/-- The value that the last set of a name with room for it gave, if no unset follows; without
    either the value from before. -/
def lastSet (h : Handle) (name : CString) (calls : List Call) (value : Option CString) :
    Option CString :=
  calls.foldl (h.valueAfter name) value

/-- The chains are a finite map. -/
def Wf (h : Handle) : Prop := h.hash.Wf (chainOf h.signed)

/-! ## Each call -/

variable {h : Handle}

theorem wf_free (h : Handle) : h.free.Wf := Chains.wf_empty

@[simp] theorem get_free (h : Handle) (name : CString) : h.free.get name = none := rfl

theorem get_set (h : Handle) (name value name' : CString) : (h.set name value).2.get name' =
    if name' = name ∧ h.HasRoom value then some value else h.get name' := by
  rw [set]
  by_cases hroom : h.HasRoom value
  · rw [if_pos hroom]
    simp only [get, Chains.get_set, hroom, and_true]
  · simp [hroom]

theorem Wf.set (hwf : h.Wf) (name value : CString) : (h.set name value).2.Wf := by
  rw [Handle.set]
  split
  · exact Chains.Wf.set hwf name value
  · exact hwf

theorem hash_unset (h : Handle) (name : CString) :
    (h.unset name).2.hash = h.hash.erase (chainOf h.signed) name := by
  rw [unset]
  cases hfind : (h.hash (chainOf h.signed name)).find? fun t => t.1 = name with
  | some t => rfl
  | none =>
    have hnone : Chain.erase name (h.hash (chainOf h.signed name)) =
        h.hash (chainOf h.signed name) :=
      eraseP_of_forall_not (find?_eq_none.mp hfind)
    rw [Chains.erase, hnone, Function.update_eq_self]

@[simp] theorem signed_unset (h : Handle) (name : CString) :
    (h.unset name).2.signed = h.signed := by
  rw [unset]
  split <;> rfl

@[simp] theorem signed_set (h : Handle) (name value : CString) :
    (h.set name value).2.signed = h.signed := by
  rw [set]
  split <;> rfl

theorem Wf.get_unset (hwf : h.Wf) (name name' : CString) :
    (h.unset name).2.get name' = if name' = name then none else h.get name' := by
  rw [get, hash_unset, signed_unset]
  exact Chains.Wf.get_erase hwf name name'

theorem Wf.unset (hwf : h.Wf) (name : CString) : (h.unset name).2.Wf := by
  rw [Wf, hash_unset, signed_unset]
  exact Chains.Wf.erase hwf name

theorem getall_eq (h : Handle) : h.getall = h.hash.pairs.reverse := by
  have hfold : ∀ (is : List (Fin 257)) (l : List (CString × CString)),
      is.foldl (fun l i => (h.hash i).foldl (fun l t => t :: l) l) l =
        ((is.map h.hash).flatten).reverse ++ l := by
    intro is
    induction is with
    | nil => simp
    | cons i is ih =>
      intro l
      rw [foldl_cons, ih, foldl_flip_cons_eq_append']
      simp
  rw [getall, hfold, Chains.pairs, ofFn_eq_map, append_nil]

/-! ## Runs -/

theorem Wf.call (hwf : h.Wf) (c : Call) : (h.call c).2.Wf := by
  cases c with
  | set name value => exact hwf.set name value
  | unset name => exact hwf.unset name
  | get name => exact hwf
  | getall => exact hwf

theorem Wf.run (hwf : h.Wf) (calls : List Call) : (h.run calls).Wf := by
  induction calls generalizing h with
  | nil => exact hwf
  | cons c calls ih => exact ih (hwf.call c)

/-- No call changes the partition. -/
theorem call_area (h : Handle) (c : Call) : (h.call c).2.mmap = h.mmap ∧
    (h.call c).2.length = h.length ∧ (h.call c).2.offset = h.offset := by
  cases c with
  | set name value =>
    simp only [Handle.call, Handle.set]
    split <;> simp
  | unset name =>
    simp only [Handle.call, Handle.unset]
    split <;> simp
  | get name => exact ⟨rfl, rfl, rfl⟩
  | getall => exact ⟨rfl, rfl, rfl⟩

theorem run_area (h : Handle) (calls : List Call) : (h.run calls).mmap = h.mmap ∧
    (h.run calls).length = h.length ∧ (h.run calls).offset = h.offset := by
  induction calls generalizing h with
  | nil => exact ⟨rfl, rfl, rfl⟩
  | cons c calls ih =>
    obtain ⟨hm, hl, ho⟩ := call_area h c
    obtain ⟨hm', hl', ho'⟩ := ih (h.call c).2
    exact ⟨hm'.trans hm, hl'.trans hl, ho'.trans ho⟩

theorem valueAfter_congr {h h' : Handle} (hlength : h'.length = h.length)
    (hoffset : h'.offset = h.offset) : h'.valueAfter = h.valueAfter := by
  funext name value c
  cases c with
  | set name' value' =>
    refine if_congr ?_ rfl rfl
    rw [HasRoom, HasRoom, hlength, hoffset]
  | unset name' => rfl
  | get name' => rfl
  | getall => rfl

/-- A name has the value that its last set gave it. -/
theorem Wf.get_run (hwf : h.Wf) (calls : List Call) (name : CString) :
    (h.run calls).get name = h.lastSet name calls (h.get name) := by
  induction calls generalizing h with
  | nil => rfl
  | cons c calls ih =>
    obtain ⟨-, hlength, hoffset⟩ := call_area h c
    have hfirst : (h.call c).2.get name = h.valueAfter name (h.get name) c := by
      cases c with
      | set name' value' => exact get_set h name' value' name
      | unset name' => exact hwf.get_unset name' name
      | get name' => rfl
      | getall => rfl
    have hrest := ih (hwf.call c)
    rw [lastSet, valueAfter_congr hlength hoffset, hfirst] at hrest
    exact hrest

/-- The tuples of all chains are each in the list once, and no name is in it twice. -/
theorem Wf.getall (hwf : h.Wf) : (h.getall.map Prod.fst).Nodup ∧
    ∀ t, h.getall.count t = if h.get t.1 = some t.2 then 1 else 0 := by
  rw [getall_eq, map_reverse, nodup_reverse]
  refine ⟨Chains.Wf.nodup_keys hwf, fun t => ?_⟩
  rw [count_reverse, List.Nodup.count (Chains.Wf.nodup_pairs hwf)]
  exact if_congr (Chains.Wf.mem_iff hwf t) rfl rfl

end Handle

end LibWrt.Nvram
