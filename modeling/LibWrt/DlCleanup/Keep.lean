/-
LibWrt.DlCleanup.Keep — which entry of a program is kept.

The loop over the versions of a program is a fold, and its result is the last
entry with the largest number, except that it does not look at files once it
has a directory. So what is kept depends on the order of the listing when a
file has a larger number than all directories of its program.
-/
import LibWrt.DlCleanup.Entry
import Mathlib.Tactic

namespace LibWrt.DlCleanup

open List Nat
open LibWrt.Pattern

/-! ## Versions -/

/-- A version as it is read: its components, and its patch letter or 0. -/
structure Version where
  components : List Int
  patch : Nat
  deriving DecidableEq

def Version.Lt (v w : Version) : Prop :=
  v.components < w.components ∨ (v.components = w.components ∧ v.patch < w.patch)

def Version.number (v : Version) : Int :=
  match v.components with
  | [a] => a <<< (64 : Nat)
  | [a, b] => ((a.toNat <<< 64) ||| (b.toNat <<< 48) ||| v.patch : Nat)
  | [a, b, c] => ((a.toNat <<< 64) ||| (b.toNat <<< 48) ||| (c.toNat <<< 32) ||| v.patch : Nat)
  | [a, b, c, d] =>
    ((a.toNat <<< 64) ||| (b.toNat <<< 48) ||| (c.toNat <<< 32) ||| (d.toNat <<< 16) : Nat)
  | _ => 0

variable (u : Unicode)

def Parser.versionOf (mtime : Int) (m : Match Nat) : Parser → Version
  | v1234 =>
    { components := [(intOf u m 2 : Int), intOf u m 3, intOf u m 4, intOf u m 5], patch := 0 }
  | v123 => { components := [(intOf u m 2 : Int), intOf u m 3, intOf u m 4], patch := patchOf m 5 }
  | v12 => { components := [(intOf u m 2 : Int), intOf u m 3], patch := patchOf m 4 }
  | r => { components := [(intOf u m 2 : Int)], patch := 0 }
  | ymdGitShasum => { components := [(intOf u m 2 : Int), intOf u m 3, intOf u m 4], patch := 0 }
  | ymd => { components := [(intOf u m 2 : Int), intOf u m 3, intOf u m 4], patch := 0 }
  | git => { components := [mtime], patch := 0 }

def File.pattern (f : File) : Option Nat := (f.stem.bind (firstMatch u)).map Prod.fst

def File.version (f : File) : Option Version :=
  (f.stem.bind (firstMatch u)).map fun found => found.2.1.versionOf u f.mtime found.2.2

theorem number_versionOf (mtime : Int) (m : Match Nat) (p : Parser) :
    (p.versionOf u mtime m).number = (p.run u mtime m).2 := by
  cases p with
  | r =>
    simp only [Parser.versionOf, Version.number, Parser.run, parseVerR, Int.shiftLeft_eq,
      shiftLeft_eq, cast_mul, cast_pow, cast_ofNat]
  | ymdGitShasum => simp [Parser.versionOf, Version.number, Parser.run, parseVerYmdGitShasum]
  | ymd => simp [Parser.versionOf, Version.number, Parser.run, parseVerYmd]
  | v1234 => rfl
  | v123 => rfl
  | v12 => rfl
  | git => rfl

variable {u}

/-- The number of an entry is its version, packed. -/
theorem version_of_ofFile {f : File} {e : Entry} (h : Entry.ofFile u f = some e) :
    e.file = f ∧ ∃ v, f.version u = some v ∧ e.version = v.number := by
  unfold Entry.ofFile at h
  obtain ⟨found, hfound, rfl⟩ := Option.map_eq_some_iff.mp h
  refine ⟨rfl, found.2.1.versionOf u f.mtime found.2.2, ?_, ?_⟩
  · unfold File.version
    rw [hfound]
    rfl
  · exact (number_versionOf u f.mtime found.2.2 found.2.1).symm

/-! ## The map of programs -/

section Progmap

theorem progmap_append (es : List Entry) (e : Entry) :
    progmap (es ++ [e]) = addEntry (progmap es) e := by
  simp [progmap]

def ofProg (es : List Entry) (p : Name) : List Entry := es.filter fun e => e.progname == p

def programs (map : List (Name × List Entry)) : List Name := map.map Prod.fst

variable {map : List (Name × List Entry)} {versions : List Entry}

theorem mem_programs {e : Entry} :
    (map.any fun p => p.1 == e.progname) = true ↔ e.progname ∈ programs map := by
  simp [programs]

theorem mem_addEntry {e : Entry} {p : Name} :
    (p, versions) ∈ addEntry map e ↔
      (p ≠ e.progname ∧ (p, versions) ∈ map) ∨
        (p = e.progname ∧ ((∃ old, (p, old) ∈ map ∧ versions = old ++ [e]) ∨
          (p ∉ programs map ∧ versions = [e]))) := by
  unfold addEntry
  split
  · rename_i hany
    have hin := mem_programs.mp hany
    rw [mem_map]
    constructor
    · rintro ⟨q, hq, heq⟩
      split at heq
      · rename_i hp
        have hp' : q.1 = e.progname := by simpa using hp
        obtain ⟨rfl, rfl⟩ := Prod.mk.inj heq
        exact .inr ⟨hp', .inl ⟨q.2, hq, rfl⟩⟩
      · rename_i hp
        have hp' : q.1 ≠ e.progname := by simpa using hp
        subst heq
        exact .inl ⟨hp', hq⟩
    · rintro (⟨hne, hmem⟩ | ⟨rfl, ⟨old, hold, rfl⟩ | ⟨hnot, -⟩⟩)
      · exact ⟨(p, versions), hmem, by simp [hne]⟩
      · exact ⟨(e.progname, old), hold, by simp⟩
      · exact absurd hin hnot
  · rename_i hany
    have hnot : e.progname ∉ programs map := fun hin => hany (mem_programs.mpr hin)
    rw [mem_append, mem_singleton]
    constructor
    · rintro (hmem | heq)
      · have hp : p ∈ programs map := mem_map.mpr ⟨(p, versions), hmem, rfl⟩
        exact .inl ⟨fun h => hnot (h ▸ hp), hmem⟩
      · obtain ⟨rfl, rfl⟩ := Prod.mk.inj heq
        exact .inr ⟨rfl, .inr ⟨hnot, rfl⟩⟩
    · rintro (⟨-, hmem⟩ | ⟨rfl, ⟨old, hold, -⟩ | ⟨-, rfl⟩⟩)
      · exact .inl hmem
      · exact absurd (mem_map.mpr ⟨(e.progname, old), hold, rfl⟩) hnot
      · exact .inr rfl

/-- `progmap` has the entries of each program under its name, and nothing else. -/
theorem mem_progmap_iff {es : List Entry} {p : Name} :
    (p, versions) ∈ progmap es ↔ versions = ofProg es p ∧ versions ≠ [] := by
  induction es using reverseRecOn generalizing p versions with
  | nil => simp [progmap, ofProg]
  | append_singleton es e ih =>
    have hprograms : p ∈ programs (progmap es) ↔ ofProg es p ≠ [] := by
      constructor
      · intro h
        obtain ⟨q, hq, rfl⟩ := mem_map.mp h
        obtain ⟨hversions, hne⟩ := ih.mp hq
        rwa [← hversions]
      · intro h
        exact mem_map.mpr ⟨(p, ofProg es p), ih.mpr ⟨rfl, h⟩, rfl⟩
    rw [progmap_append, mem_addEntry]
    by_cases hp : p = e.progname
    · subst hp
      have hof : ofProg (es ++ [e]) e.progname = ofProg es e.progname ++ [e] := by
        simp [ofProg]
      rw [hof]
      constructor
      · rintro (⟨hne, -⟩ | ⟨-, ⟨old, hold, rfl⟩ | ⟨hnot, rfl⟩⟩)
        · exact absurd rfl hne
        · rw [(ih.mp hold).1]
          simp
        · have hnil : ofProg es e.progname = [] := by
            by_contra h
            exact hnot (hprograms.mpr h)
          simp [hnil]
      · rintro ⟨rfl, -⟩
        refine .inr ⟨rfl, ?_⟩
        by_cases hnil : ofProg es e.progname = []
        · exact .inr ⟨fun h => hprograms.mp h hnil, by simp [hnil]⟩
        · exact .inl ⟨ofProg es e.progname, ih.mpr ⟨rfl, hnil⟩, rfl⟩
    · have hof : ofProg (es ++ [e]) p = ofProg es p := by
        simp [ofProg, Ne.symm hp]
      rw [hof]
      simp [hp, ih]

end Progmap

/-! ## The last version -/

section Last

variable {versions : List Entry} {last e : Entry}

/-- What the loop over the versions has found: a directory that no other has a larger number
    than, or a file that nothing has a larger number than, and no directory the same. -/
structure Top (versions : List Entry) (last : Entry) : Prop where
  mem : last ∈ versions
  dirs : ∀ v ∈ versions, v.file.isDir = true → v.version ≤ last.version
  file : last.file.isDir = false → ∀ v ∈ versions, v.version ≤ last.version ∧
    (v.file.isDir = true → v.version < last.version)

theorem Top.next (h : Top versions last) (v : Entry) :
    ∃ last', nextLast (some last) v = some last' ∧ Top (versions ++ [v]) last' := by
  have hmem {e : Entry} : e ∈ versions ++ [v] ↔ e ∈ versions ∨ e = v := by simp
  have hlast : last ∈ versions ++ [v] := hmem.mpr (.inl h.mem)
  have hthis : v ∈ versions ++ [v] := hmem.mpr (.inr rfl)
  unfold nextLast
  by_cases hskip : (last.file.isDir && !v.file.isDir) = true
  · -- a file is not looked at
    obtain ⟨hdir, hfile⟩ : last.file.isDir = true ∧ v.file.isDir = false := by
      simpa using hskip
    refine ⟨last, if_pos hskip, hlast, fun e he hd => ?_, fun hnot => ?_⟩
    · rcases hmem.mp he with he | rfl
      · exact h.dirs e he hd
      · rw [hfile] at hd
        cases hd
    · rw [hdir] at hnot
      cases hnot
  · dsimp only
    rw [if_neg hskip]
    by_cases hge : v.version ≥ last.version
    · refine ⟨v, if_pos hge, hthis, fun e he hd => ?_, fun hnot e he => ?_⟩
      · rcases hmem.mp he with he | rfl
        · exact (h.dirs e he hd).trans hge
        · exact le_rfl
      · have hfile : last.file.isDir = false := by
          rw [hnot] at hskip
          simpa using hskip
        rcases hmem.mp he with he | rfl
        · obtain ⟨hle, hlt⟩ := h.file hfile e he
          exact ⟨hle.trans hge, fun hd => lt_of_lt_of_le (hlt hd) hge⟩
        · exact ⟨le_rfl, fun hd => absurd hd (by simp [hnot])⟩
    · have hlt : v.version < last.version := by omega
      refine ⟨last, if_neg hge, hlast, fun e he hd => ?_, fun hnot e he => ?_⟩
      · rcases hmem.mp he with he | rfl
        · exact h.dirs e he hd
        · exact hlt.le
      · rcases hmem.mp he with he | rfl
        · exact h.file hnot e he
        · exact ⟨hlt.le, fun _ => hlt⟩

theorem lastVersion_append (versions : List Entry) (v : Entry) :
    lastVersion (versions ++ [v]) = nextLast (lastVersion versions) v := by
  simp [lastVersion]

theorem exists_lastVersion (hne : versions ≠ []) :
    ∃ last, lastVersion versions = some last ∧ Top versions last := by
  induction versions using reverseRecOn with
  | nil => exact absurd rfl hne
  | append_singleton versions v ih =>
    rw [lastVersion_append]
    by_cases hnil : versions = []
    · subst hnil
      refine ⟨v, rfl, by simp, fun e he _ => ?_, fun hnot e he => ?_⟩
      · obtain rfl : e = v := by simpa using he
        exact le_rfl
      · obtain rfl : e = v := by simpa using he
        exact ⟨le_rfl, fun hd => absurd hd (by simp [hnot])⟩
    · obtain ⟨last, hlast, htop⟩ := ih hnil
      rw [hlast]
      exact htop.next v

theorem top_of_lastVersion (h : lastVersion versions = some last) : Top versions last := by
  have hne : versions ≠ [] := by
    rintro rfl
    cases h
  obtain ⟨last', hlast, htop⟩ := exists_lastVersion hne
  rw [h] at hlast
  cases hlast
  exact htop

/-- Behind `e`, only what it outdoes: files, if it is a directory, and smaller numbers. -/
theorem foldl_nextLast_stays {rest : List Entry}
    (h : ∀ v ∈ rest, (e.file.isDir = true ∧ v.file.isDir = false) ∨ v.version < e.version) :
    rest.foldl nextLast (some e) = some e := by
  induction rest with
  | nil => rfl
  | cons v rest ih =>
    have hnext : nextLast (some e) v = some e := by
      unfold nextLast
      rcases h v mem_cons_self with ⟨hdir, hfile⟩ | hlt
      · simp [hdir, hfile]
      · simp [hlt]
    rw [foldl_cons, hnext]
    exact ih fun w hw => h w (mem_cons_of_mem _ hw)

/-- `e` behind entries of its kind without a larger number, and once more. -/
theorem lastVersion_kept {before same rest : List Entry}
    (hbefore : ∀ v ∈ before, v.file.isDir = e.file.isDir ∧ v.version ≤ e.version)
    (hsame : ∀ v ∈ same, v = e) (hne : same ≠ [])
    (hrest : ∀ v ∈ rest, (e.file.isDir = true ∧ v.file.isDir = false) ∨ v.version < e.version) :
    lastVersion (before ++ same ++ rest) = some e := by
  have htake {v : Entry} (hkind : v.file.isDir = e.file.isDir) (hle : v.version ≤ e.version) :
      nextLast (some v) e = some e := by
    unfold nextLast
    simp [hkind, hle]
  have hreach : lastVersion (before ++ same) = some e := by
    induction same using reverseRecOn with
    | nil => exact absurd rfl hne
    | append_singleton same v ih =>
      obtain rfl : v = e := hsame v (by simp)
      rw [← append_assoc, lastVersion_append]
      cases hlast : lastVersion (before ++ same) with
      | none => rfl
      | some l =>
        have hl := (top_of_lastVersion hlast).mem
        rcases mem_append.mp hl with hl | hl
        · exact htake (hbefore l hl).1 (hbefore l hl).2
        · rw [hsame l (by simp [hl])]
          exact htake rfl le_rfl
  unfold lastVersion at hreach ⊢
  rw [foldl_append, hreach]
  exact foldl_nextLast_stays hrest

end Last

/-! ## What is kept -/

section Kept

variable {blacklist : List (Regex Nat)} {listing files : List File}

variable (u blacklist) in
def Kept (listing : List File) (e : Entry) : Prop :=
  e ∈ entries u blacklist listing ∧ e ∉ cleanup u blacklist listing

variable {e : Entry}

theorem mem_ofProg {es : List Entry} {p : Name} :
    e ∈ ofProg es p ↔ e ∈ es ∧ e.progname = p := by
  simp [ofProg]

/-- All entries of a program are deleted but its last version. -/
theorem mem_cleanup_iff : e ∈ cleanup u blacklist listing ↔
    e ∈ entries u blacklist listing ∧
      lastVersion (ofProg (entries u blacklist listing) e.progname) ≠ some e := by
  unfold cleanup
  rw [mem_flatMap]
  constructor
  · rintro ⟨⟨p, versions⟩, hmem, hdel⟩
    obtain ⟨rfl, hne⟩ := mem_progmap_iff.mp hmem
    obtain ⟨last, hlast, -⟩ := exists_lastVersion hne
    unfold deletedOf at hdel
    dsimp only at hdel
    rw [hlast] at hdel
    obtain ⟨he, hother⟩ := mem_filter.mp hdel
    obtain ⟨hin, rfl⟩ := mem_ofProg.mp he
    refine ⟨hin, fun hsame => ?_⟩
    rw [hlast] at hsame
    cases hsame
    simp at hother
  · rintro ⟨he, hother⟩
    have hin : e ∈ ofProg (entries u blacklist listing) e.progname := mem_ofProg.mpr ⟨he, rfl⟩
    have hne := ne_nil_of_mem hin
    obtain ⟨last, hlast, -⟩ := exists_lastVersion hne
    refine ⟨(e.progname, ofProg (entries u blacklist listing) e.progname),
      mem_progmap_iff.mpr ⟨rfl, hne⟩, ?_⟩
    unfold deletedOf
    dsimp only
    rw [hlast] at hother ⊢
    refine mem_filter.mpr ⟨hin, ?_⟩
    simp only [bne_iff_ne, ne_eq]
    exact fun h => hother (h ▸ rfl)

theorem kept_iff : Kept u blacklist listing e ↔
    lastVersion (ofProg (entries u blacklist listing) e.progname) = some e := by
  unfold Kept
  rw [mem_cleanup_iff]
  constructor
  · rintro ⟨he, hnot⟩
    by_contra h
    exact hnot ⟨he, h⟩
  · intro h
    have hin := (mem_ofProg.mp (top_of_lastVersion h).mem).1
    exact ⟨hin, fun hnot => hnot.2 h⟩

theorem entries_perm (h : listing.Perm files) :
    (entries u blacklist listing).Perm (entries u blacklist files) := h.filterMap _

theorem mem_entries : e ∈ entries u blacklist listing ↔
    e.file ∈ listing ∧ blacklisted blacklist e.file.name = false ∧
      Entry.ofFile u e.file = some e := by
  unfold entries
  rw [mem_filterMap]
  constructor
  · rintro ⟨f, hf, he⟩
    split at he
    · cases he
    · rename_i hlisted
      obtain ⟨rfl, -⟩ := version_of_ofFile he
      exact ⟨hf, by simpa using hlisted, he⟩
  · rintro ⟨hf, hlisted, he⟩
    exact ⟨e.file, hf, by simp [hlisted, he]⟩

/-! ## Keeping the newest -/

variable (u blacklist) in
/-- What the cleanup of a directory is for, in whatever order it is listed. -/
structure KeepsNewest (files : List File) : Prop where
  parsed : ∀ listing, listing.Perm files → ∀ e ∈ cleanup u blacklist listing,
    e.file ∈ files ∧ blacklisted blacklist e.file.name = false ∧ Entry.ofFile u e.file = some e
  one : ∀ listing, listing.Perm files → ∀ e ∈ entries u blacklist listing,
    ∃! kept, Kept u blacklist listing kept ∧ kept.progname = e.progname
  newest : ∀ listing, listing.Perm files → ∀ kept, Kept u blacklist listing kept →
    ∀ e ∈ entries u blacklist listing, e.progname = kept.progname →
      e.file.pattern u = kept.file.pattern u →
      ∀ v ∈ e.file.version u, ∀ w ∈ kept.file.version u, ¬ w.Lt v
  order : ∀ listing listing', listing.Perm files → listing'.Perm files →
    ∀ kept kept', Kept u blacklist listing kept → Kept u blacklist listing' kept' →
      kept.progname = kept'.progname → kept.file.version u = kept'.file.version u

variable (u blacklist) in
/-- An entry of the largest number among the directories of its program, if it has any, or else
    among its files. -/
def Best (files : List File) (e : Entry) : Prop :=
  e ∈ entries u blacklist files ∧
    ∀ e' ∈ entries u blacklist files, e'.progname = e.progname →
      (e'.file.isDir = true → e.file.isDir = true) ∧
      (e'.file.isDir = e.file.isDir → e'.version ≤ e.version)

variable (u blacklist) in
/-- No file of a program with directories has a number larger than all of these; no version of
    the same pattern that is higher than a best one has a number that is not; and best versions
    of one number are the same. -/
def Consistent (files : List File) : Prop :=
  ∀ e, Best u blacklist files e → ∀ e' ∈ entries u blacklist files, e'.progname = e.progname →
    e'.version ≤ e.version ∧
    (e'.file.pattern u = e.file.pattern u → e'.version ≤ e.version →
      ∀ v ∈ e'.file.version u, ∀ w ∈ e.file.version u, ¬ w.Lt v) ∧
    (Best u blacklist files e' → e'.version = e.version →
      e'.file.version u = e.file.version u)

/-- Of the entries of a program that satisfy a condition, one has the largest number. -/
theorem exists_largest {es : List Entry} (P : Entry → Prop) (he : e ∈ es) (hP : P e) :
    ∃ best ∈ es, P best ∧ ∀ e' ∈ es, P e' → e'.version ≤ best.version := by
  classical
  obtain ⟨best, hbest, hmax⟩ := (es.filter (P ·)).toFinset.exists_max_image Entry.version
    ⟨e, by simp [he, hP]⟩
  have hbest' : best ∈ es ∧ P best := by simpa using hbest
  exact ⟨best, hbest'.1, hbest'.2, fun e' he' hP' => hmax e' (by simp [he', hP'])⟩

/-- With no files above the directories, what is kept is best. -/
theorem Kept.best {kept : Entry} (hperm : listing.Perm files)
    (hkept : Kept u blacklist listing kept) (hcons : Consistent u blacklist files) :
    Best u blacklist files kept := by
  have hin {e : Entry} : e ∈ entries u blacklist listing ↔ e ∈ entries u blacklist files :=
    (entries_perm hperm).mem_iff
  have htop := top_of_lastVersion (kept_iff.mp hkept)
  have hmem := hin.mp hkept.1
  have hdirs : ∀ e' ∈ entries u blacklist files, e'.progname = kept.progname →
      e'.file.isDir = true → kept.file.isDir = true := by
    intro e' he' hprog hdir
    by_contra hfile
    have hfile' : kept.file.isDir = false := by simpa using hfile
    obtain ⟨best, hbest, ⟨hprog', hdir'⟩, hmax⟩ := exists_largest
      (fun e => e.progname = kept.progname ∧ e.file.isDir = true) he' ⟨hprog, hdir⟩
    have hbest' : Best u blacklist files best :=
      ⟨hbest, fun e he hp => ⟨fun _ => hdir', fun hsame =>
        hmax e he ⟨hp.trans hprog', hsame.trans hdir'⟩⟩⟩
    have hle := (hcons best hbest' kept hmem hprog'.symm).1
    have hlt := (htop.file hfile' best (mem_ofProg.mpr ⟨hin.mpr hbest, hprog'⟩)).2 hdir'
    omega
  refine ⟨hmem, fun e' he' hprog => ⟨hdirs e' he' hprog, fun hsame => ?_⟩⟩
  have hin' : e' ∈ ofProg (entries u blacklist listing) kept.progname :=
    mem_ofProg.mpr ⟨hin.mpr he', hprog⟩
  cases hkind : kept.file.isDir with
  | true => exact htop.dirs e' hin' (hsame.trans hkind)
  | false => exact (htop.file hkind e' hin').1

theorem Consistent.keepsNewest (h : Consistent u blacklist files) :
    KeepsNewest u blacklist files where
  parsed := by
    intro listing hperm e he
    obtain ⟨hfile, hrest⟩ := mem_entries.mp (mem_cleanup_iff.mp he).1
    exact ⟨hperm.mem_iff.mp hfile, hrest⟩
  one := by
    intro listing hperm e he
    have hin : e ∈ ofProg (entries u blacklist listing) e.progname := mem_ofProg.mpr ⟨he, rfl⟩
    obtain ⟨last, hlast, htop⟩ := exists_lastVersion (ne_nil_of_mem hin)
    obtain ⟨-, hprog⟩ := mem_ofProg.mp htop.mem
    refine ⟨last, ⟨kept_iff.mpr (by rw [hprog]; exact hlast), hprog⟩, ?_⟩
    rintro other ⟨hother, hprog'⟩
    have hlast' := kept_iff.mp hother
    rw [hprog', hlast] at hlast'
    exact (Option.some.inj hlast').symm
  newest := by
    intro listing hperm kept hkept e he hprog hpattern v hv w hw
    have hbest := hkept.best hperm h
    have he' := (entries_perm hperm).mem_iff.mp he
    obtain ⟨hle, hnewest, -⟩ := h kept hbest e he' hprog
    exact hnewest hpattern hle v hv w hw
  order := by
    intro listing listing' hperm hperm' kept kept' hkept hkept' hprog
    have hbest := hkept.best hperm h
    have hbest' := hkept'.best hperm' h
    obtain ⟨hle, -, hsame⟩ := h kept' hbest' kept hbest.1 hprog
    obtain ⟨hle', -, -⟩ := h kept hbest kept' hbest'.1 hprog.symm
    exact hsame hbest (le_antisymm hle hle')

theorem ofProg_append (es es' : List Entry) (p : Name) :
    ofProg (es ++ es') p = ofProg es p ++ ofProg es' p := filter_append _ _

theorem entries_append (files files' : List File) :
    entries u blacklist (files ++ files') =
      entries u blacklist files ++ entries u blacklist files' := filterMap_append

/-- In some order an entry is kept that outdoes the others of its program: behind those of its
    kind, and before the rest. -/
theorem exists_kept (he : e ∈ entries u blacklist files)
    (hkind : ∀ e' ∈ entries u blacklist files, e'.progname = e.progname →
      e'.file.isDir = e.file.isDir → e'.version ≤ e.version)
    (hother : ∀ e' ∈ entries u blacklist files, e'.progname = e.progname →
      e'.file.isDir ≠ e.file.isDir → e.file.isDir = true ∨ e'.version < e.version) :
    ∃ listing, listing.Perm files ∧ Kept u blacklist listing e := by
  have hbefore : ∃ before rest : List File, (before ++ rest).Perm files ∧
      (∀ f ∈ before, f.isDir = e.file.isDir ∧ f ≠ e.file) ∧
      ∀ f ∈ rest, f.isDir = e.file.isDir → f = e.file := by
    refine ⟨_, _, filter_append_perm
      (fun f => decide (f.isDir = e.file.isDir ∧ f ≠ e.file)) files, fun f hf => ?_, fun f hf => ?_⟩
    · simpa using (mem_filter.mp hf).2
    · intro hdir
      have hnot : ¬ f.isDir = e.file.isDir ∨ f = e.file := by
        simpa using (mem_filter.mp hf).2
      exact hnot.resolve_left (not_not.mpr hdir)
  obtain ⟨before, rest, hperm, hbefore, hrest⟩ := hbefore
  have hthis : ∃ same after : List File, (same ++ after).Perm rest ∧ (∀ f ∈ same, f = e.file) ∧
      ∀ f ∈ after, f ≠ e.file := by
    refine ⟨_, _, filter_append_perm (fun f => decide (f = e.file)) rest, fun f hf => ?_,
      fun f hf => ?_⟩
    · simpa using (mem_filter.mp hf).2
    · simpa using (mem_filter.mp hf).2
  obtain ⟨same, after, hperm', hsame, hafter⟩ := hthis
  have hall : (before ++ (same ++ after)).Perm files := (hperm'.append_left before).trans hperm
  have hin {f : File} : f ∈ files ↔ f ∈ before ∨ f ∈ same ∨ f ∈ after := by
    rw [← hall.mem_iff]
    simp
  obtain ⟨hfile, hlisted, hof⟩ := mem_entries.mp he
  -- an entry of a part of the directory is one of the directory
  have hwhole {part : List File} (hpart : ∀ f ∈ part, f ∈ files) {v : Entry}
      (hv : v ∈ ofProg (entries u blacklist part) e.progname) :
      v.file ∈ part ∧ v ∈ entries u blacklist files ∧ v.progname = e.progname ∧
        Entry.ofFile u v.file = some v := by
    obtain ⟨hv, hprog⟩ := mem_ofProg.mp hv
    obtain ⟨hf, hrest⟩ := mem_entries.mp hv
    exact ⟨hf, mem_entries.mpr ⟨hpart _ hf, hrest⟩, hprog, hrest.2⟩
  refine ⟨before ++ (same ++ after), hall, kept_iff.mpr ?_⟩
  rw [← append_assoc, entries_append, entries_append, ofProg_append, ofProg_append]
  refine lastVersion_kept (fun v hv => ?_) (fun v hv => ?_) ?_ (fun v hv => ?_)
  · obtain ⟨hf, hv, hprog, -⟩ := hwhole (fun f hf => hin.mpr (.inl hf)) hv
    have hdir := (hbefore _ hf).1
    exact ⟨hdir, hkind v hv hprog hdir⟩
  · obtain ⟨hf, -, -, hof'⟩ := hwhole (fun f hf => hin.mpr (.inr (.inl hf))) hv
    rw [hsame _ hf, hof] at hof'
    exact (Option.some.inj hof').symm
  · have hmem : e.file ∈ same := by
      rcases hin.mp hfile with hf | hf | hf
      · exact absurd rfl (hbefore _ hf).2
      · exact hf
      · exact absurd rfl (hafter _ hf)
    exact ne_nil_of_mem (mem_ofProg.mpr ⟨mem_entries.mpr ⟨hmem, hlisted, hof⟩, rfl⟩)
  · obtain ⟨hf, hv, hprog, -⟩ := hwhole (fun f hf => hin.mpr (.inr (.inr hf))) hv
    have hdir : v.file.isDir ≠ e.file.isDir := fun hdir =>
      hafter _ hf (hrest _ (hperm'.mem_iff.mp (mem_append.mpr (.inr hf))) hdir)
    rcases hother v hv hprog hdir with hdir' | hlt
    · rw [hdir'] at hdir
      exact .inl ⟨hdir', by simpa using hdir⟩
    · exact .inr hlt

theorem Best.exists_kept (h : Best u blacklist files e) :
    ∃ listing, listing.Perm files ∧ Kept u blacklist listing e := by
  refine DlCleanup.exists_kept h.1 (fun e' he' hprog => (h.2 e' he' hprog).2)
    fun e' he' hprog hdir => ?_
  by_contra hnot
  obtain ⟨hfile, -⟩ := not_or.mp hnot
  have hdir' : e'.file.isDir = true := by
    cases hkind : e'.file.isDir with
    | true => rfl
    | false =>
      rw [hkind] at hdir
      exact absurd (Bool.eq_false_of_not_eq_true hfile).symm hdir
  exact hfile ((h.2 e' he' hprog).1 hdir')

/-- Files above the directories can be kept, and directories can. -/
theorem KeepsNewest.consistent (h : KeepsNewest u blacklist files) :
    Consistent u blacklist files := by
  intro e hbest e' he' hprog
  obtain ⟨listing, hperm, hkept⟩ := hbest.exists_kept
  have hin {e : Entry} : e ∈ entries u blacklist listing ↔ e ∈ entries u blacklist files :=
    (entries_perm hperm).mem_iff
  refine ⟨?_, fun hpattern _ v hv w hw => ?_, fun hbest' _ => ?_⟩
  · by_contra hgt
    have hgt' : e.version < e'.version := by omega
    have hdiff : e'.file.isDir ≠ e.file.isDir := fun hkind =>
      hgt ((hbest.2 e' he' hprog).2 hkind)
    have hfile : e'.file.isDir = false := by
      cases hkind : e'.file.isDir with
      | false => rfl
      | true =>
        rw [hkind] at hdiff
        exact absurd ((hbest.2 e' he' hprog).1 hkind).symm hdiff
    -- the file with the largest number
    obtain ⟨best, hbestmem, ⟨hbestprog, hbestfile⟩, hmax⟩ := exists_largest
      (fun f => f.progname = e.progname ∧ f.file.isDir = false) he' ⟨hprog, hfile⟩
    have hbestgt : e.version < best.version := lt_of_lt_of_le hgt' (hmax e' he' ⟨hprog, hfile⟩)
    have hdir : e.file.isDir = true := by
      rw [hfile] at hdiff
      simpa using hdiff.symm
    obtain ⟨listing', hperm', hkept'⟩ := DlCleanup.exists_kept hbestmem
      (fun f hf hfprog hkind => hmax f hf ⟨hfprog.trans hbestprog, hkind.trans hbestfile⟩)
      (fun f hf hfprog hkind => by
        have hfdir : f.file.isDir = e.file.isDir := by
          rw [hbestfile] at hkind
          rw [hdir]
          simpa using hkind
        exact .inr (lt_of_le_of_lt ((hbest.2 f hf (hfprog.trans hbestprog)).2 hfdir) hbestgt))
    have hsame := h.order listing listing' hperm hperm' e best hkept hkept' hbestprog.symm
    obtain ⟨-, v, hv, hnumber⟩ := version_of_ofFile (mem_entries.mp hbest.1).2.2
    obtain ⟨-, w, hw, hnumber'⟩ := version_of_ofFile (mem_entries.mp hbestmem).2.2
    rw [hv, hw] at hsame
    have heq : v = w := Option.some.inj hsame
    rw [hnumber, hnumber', heq] at hbestgt
    exact lt_irrefl _ hbestgt
  · exact h.newest listing hperm e hkept e' (hin.mpr he') hprog hpattern v hv w hw
  · obtain ⟨listing', hperm', hkept'⟩ := hbest'.exists_kept
    exact h.order listing' listing hperm' hperm e' e hkept' hkept hprog

end Kept

/-- The cleanup keeps the newest of every program, in whatever order the directory is listed, if
    and only if its best entries are. -/
theorem keepsNewest_iff (u : Unicode) (blacklist : List (Regex Nat)) (files : List File) :
    KeepsNewest u blacklist files ↔ Consistent u blacklist files :=
  ⟨KeepsNewest.consistent, Consistent.keepsNewest⟩

def tarball (filename : String) : File := { name := name filename, isDir := false, mtime := 0 }

def twoTarballs : List File := [tarball "foo-1.3.0.tar.gz", tarball "foo-1.65536.0.tar.gz"]

def tarball130 : Entry where
  file := tarball "foo-1.3.0.tar.gz"
  progname := name "foo"
  version := 2 ^ 64 + 3 * 2 ^ 48

def tarball165536 : Entry where
  file := tarball "foo-1.65536.0.tar.gz"
  progname := name "foo"
  version := 2 ^ 64

/-- Version 1.65536.0 has the number of 1.0.0, and is deleted for 1.3.0. -/
theorem deletes_newest : tarball165536 ∈ cleanup ascii (blacklist ascii) twoTarballs ∧
    ¬ KeepsNewest ascii (blacklist ascii) twoTarballs := by
  refine ⟨by decide +kernel, fun h => ?_⟩
  have hkept : Kept ascii (blacklist ascii) twoTarballs tarball130 :=
    kept_iff.mpr (by decide +kernel)
  refine h.newest twoTarballs (.refl _) tarball130 hkept tarball165536 (by decide +kernel) rfl
    (by decide +kernel) { components := [1, 65536, 0], patch := 0 } ?_
    { components := [1, 3, 0], patch := 0 } ?_ (.inl (by decide))
  · exact Option.mem_def.mpr (by decide +kernel)
  · exact Option.mem_def.mpr (by decide +kernel)

end LibWrt.DlCleanup
