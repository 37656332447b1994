/-
LibWrt.DlCleanup.Runs — a download directory over time.

Files are downloaded and the directory is cleaned, in any order and with any
listings. A program whose downloads are all files, or all directories, never
loses its largest number (`Run.keeps`). Where it has both this is not so: a
directory is kept instead of a file with a larger number, and it gives way to
another file that comes first in the listing.
-/
import LibWrt.DlCleanup.Keep

namespace LibWrt.DlCleanup

open List
open LibWrt.Pattern

section

variable {u : Unicode} {blacklist : List (Regex Nat)} {listing seen files : List File}

variable (u blacklist) in
/-- The listing without the files that the cleanup deletes. -/
def remaining (listing : List File) : List File :=
  listing.filter fun f => (cleanup u blacklist listing).all fun e => e.file != f

theorem mem_entries_remaining {e : Entry} :
    e ∈ entries u blacklist (remaining u blacklist listing) ↔ Kept u blacklist listing e := by
  rw [mem_entries, remaining, mem_filter, Kept, mem_entries]
  constructor
  · rintro ⟨⟨hfile, hall⟩, hlisted, hof⟩
    refine ⟨⟨hfile, hlisted, hof⟩, fun hdel => ?_⟩
    simpa using all_eq_true.mp hall e hdel
  · rintro ⟨⟨hfile, hlisted, hof⟩, hkept⟩
    refine ⟨⟨hfile, all_eq_true.mpr fun e' hdel => ?_⟩, hlisted, hof⟩
    -- a file is parsed into one entry
    rw [bne_iff_ne]
    intro heq
    have hof' := (mem_entries.mp (mem_cleanup_iff.mp hdel).1).2.2
    rw [heq, hof] at hof'
    exact hkept (Option.some.inj hof' ▸ hdel)

/-- A cleaned directory stays as it is when it is cleaned again. -/
theorem cleanup_remaining (hperm : files.Perm (remaining u blacklist listing)) :
    cleanup u blacklist files = [] := by
  refine eq_nil_iff_forall_not_mem.mpr fun e hdel => ?_
  obtain ⟨he, hother⟩ := mem_cleanup_iff.mp hdel
  have hkept {e : Entry} (he : e ∈ entries u blacklist files) : Kept u blacklist listing e :=
    mem_entries_remaining.mp ((entries_perm hperm).mem_iff.mp he)
  obtain ⟨last, hlast, htop⟩ := exists_lastVersion (ne_nil_of_mem (mem_ofProg.mpr ⟨he, rfl⟩))
  obtain ⟨hmem, hprog⟩ := mem_ofProg.mp htop.mem
  -- both are the one entry of their program that was kept
  have hone := kept_iff.mp (hkept hmem)
  rw [hprog, kept_iff.mp (hkept he)] at hone
  exact hother (hlast.trans hone.symm)

variable (u blacklist) in
/-- The files that were ever in the directory, and those that are there. -/
inductive Run : List File → List File → Prop where
  | empty : Run [] []
  | download {seen files : List File} (f : File) (hnew : ∀ f' ∈ files, f'.name ≠ f.name)
      (h : Run seen files) : Run (f :: seen) (f :: files)
  | cleanup {seen files listing : List File} (hperm : listing.Perm files)
      (h : Run seen files) : Run seen (remaining u blacklist listing)

variable (u blacklist) in
/-- No program has files and directories. -/
def Uniform (seen : List File) : Prop :=
  ∀ e ∈ entries u blacklist seen, ∀ e' ∈ entries u blacklist seen, e'.progname = e.progname →
    e'.file.isDir = e.file.isDir

theorem entries_mono (hsub : files ⊆ seen) {e : Entry} (he : e ∈ entries u blacklist files) :
    e ∈ entries u blacklist seen := by
  obtain ⟨hfile, hrest⟩ := mem_entries.mp he
  exact mem_entries.mpr ⟨hsub hfile, hrest⟩

theorem Run.subset (h : Run u blacklist seen files) : files ⊆ seen := by
  induction h with
  | empty => exact Subset.refl _
  | download f _ _ ih => exact cons_subset_cons f ih
  | cleanup hperm _ ih => exact fun f hf => ih (hperm.subset (mem_of_mem_filter hf))

/-- One cleanup: of a program without a mixture, the largest number is kept. -/
theorem Uniform.kept (hu : Uniform u blacklist listing) {e : Entry}
    (he : e ∈ entries u blacklist listing) :
    ∃ kept, Kept u blacklist listing kept ∧ kept.progname = e.progname ∧
      e.version ≤ kept.version := by
  have hin : e ∈ ofProg (entries u blacklist listing) e.progname := mem_ofProg.mpr ⟨he, rfl⟩
  obtain ⟨last, hlast, htop⟩ := exists_lastVersion (ne_nil_of_mem hin)
  obtain ⟨hmem, hprog⟩ := mem_ofProg.mp htop.mem
  refine ⟨last, kept_iff.mpr (by rw [hprog]; exact hlast), hprog, ?_⟩
  cases hdir : e.file.isDir with
  | true => exact htop.dirs e hin hdir
  | false => exact (htop.file ((hu e he last hmem hprog).trans hdir) e hin).1

theorem Run.largest (h : Run u blacklist seen files) (hu : Uniform u blacklist seen) :
    ∀ e ∈ entries u blacklist seen, ∃ e' ∈ entries u blacklist files,
      e'.progname = e.progname ∧ e.version ≤ e'.version := by
  induction h with
  | empty =>
    intro e he
    exact ⟨e, he, rfl, le_rfl⟩
  | @download seen files f _ _ ih =>
    intro e he
    obtain ⟨hfile, hrest⟩ := mem_entries.mp he
    rcases mem_cons.mp hfile with hf | hf
    · exact ⟨e, mem_entries.mpr ⟨hf ▸ mem_cons_self, hrest⟩, rfl, le_rfl⟩
    · have hseen : seen ⊆ f :: seen := subset_cons_self f seen
      obtain ⟨e', he', hprog, hle⟩ := ih
        (fun a ha b hb => hu a (entries_mono hseen ha) b (entries_mono hseen hb))
        e (mem_entries.mpr ⟨hf, hrest⟩)
      exact ⟨e', entries_mono (subset_cons_self f files) he', hprog, hle⟩
  | @cleanup seen files listing hperm hrun ih =>
    intro e he
    obtain ⟨e', he', hprog, hle⟩ := ih hu e he
    have hsub : listing ⊆ seen := fun f hf => hrun.subset (hperm.subset hf)
    have hu' : Uniform u blacklist listing := fun a ha b hb =>
      hu a (entries_mono hsub ha) b (entries_mono hsub hb)
    obtain ⟨kept, hkept, hprog', hle'⟩ := hu'.kept ((entries_perm hperm).mem_iff.mpr he')
    exact ⟨kept, mem_entries_remaining.mpr hkept, hprog'.trans hprog, hle.trans hle'⟩

/-- **Downloads and cleanups**: as long as no program has files and directories, the directory
    always has an entry of the largest number that there ever was of each program; and whatever
    it contains, a second cleanup deletes nothing, in whatever order the directory is listed. -/
theorem run_keeps (h : Run u blacklist seen files) :
    (Uniform u blacklist seen → ∀ e ∈ entries u blacklist seen,
      ∃ e' ∈ entries u blacklist files, e'.progname = e.progname ∧ e.version ≤ e'.version) ∧
    ∀ listing listing', listing.Perm files → listing'.Perm (remaining u blacklist listing) →
      cleanup u blacklist listing' = [] :=
  ⟨h.largest, fun _ _ _ hperm => cleanup_remaining hperm⟩

end

/-- Cleaned once, the directory has the larger number, which is not that of the newer version. -/
theorem run_keeps_tarballs :
    (∃ e' ∈ entries ascii (blacklist ascii) (remaining ascii (blacklist ascii) twoTarballs),
      e'.progname = name "foo" ∧ tarball130.version ≤ e'.version) ∧
    cleanup ascii (blacklist ascii)
      (remaining ascii (blacklist ascii) (remaining ascii (blacklist ascii) twoTarballs)) = [] := by
  have hrun : Run ascii (blacklist ascii) twoTarballs _ :=
    .cleanup (.refl _) (.download _ (by decide) (.download _ (by decide) .empty))
  obtain ⟨hlargest, hagain⟩ := run_keeps hrun
  refine ⟨hlargest ?_ tarball130 (by decide +kernel), hagain _ _ (.refl _) (.refl _)⟩
  unfold Uniform
  decide +kernel

end LibWrt.DlCleanup
