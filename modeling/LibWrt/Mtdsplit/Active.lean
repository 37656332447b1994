/-
LibWrt.Mtdsplit.Active — the half that is active, and its partitions.

The partitions that the parsers for two images hand out are right, and are
counted, if and only if the active half has an image. If it has none, both
halves are handed out, but what is returned is the error.
-/
import LibWrt.Mtdsplit.Halves

namespace LibWrt.Mtdsplit

open List Nat Option
open LibWrt.Loop

namespace Wfi

variable (w : Wfi)

def stop (half : Part) : Int := half.offset + half.size

/-- The kernel is in the block at `kernel`, and the root file system from `rootfs` on. -/
def KernelAt (half : Part) (start kernel rootfs : Nat) : Prop :=
  (∃ node, w.File KERNEL_NAME (stop half) start kernel node) ∧
    FirstSeen w.master.erasesize (stop half) w.ubiMagic (kernel + w.master.erasesize) rootfs ()

def HasImage (cfePart : Bool) (half : Part) : Prop :=
  ∃ start kernel rootfs, w.KernelAt half start kernel rootfs ∧
    if cfePart then
      ∃ cfe node, w.File w.cferamName (stop half) half.offset cfe node ∧
        start = cfe + w.master.erasesize
    else start = half.offset

/-- The partitions of an image are in the half, and in order; `firmware` is the kernel and the
root file system together. -/
def InHalf (half : Part) (names : List String) (image : List Part) : Prop :=
  (∀ p ∈ image, half.offset ≤ p.offset ∧ p.offset + p.size ≤ half.offset + half.size) ∧
    (image.filter (·.name ≠ "firmware")).map Part.name = names ∧
    (image.filter (·.name ≠ "firmware")).Pairwise fun a b => a.offset + a.size ≤ b.offset

/-- What is returned is the number of partitions. They are the two images, or those of the active
image and the other one. -/
def Right (flags : Int → Int → Prop) (names : List String) (handed : Handed) : Prop :=
  ∀ parts, handed.parts = some parts → handed.ret = parts.length ∧
    (parts = [w.img1, w.img2] ∨ ∃ bf1 bf2, flags bf1 bf2 ∧ ∃ image,
      parts = image ++ [w.inactive bf1 bf2] ∧ InHalf (w.active bf1 bf2) names image)

/-- The boot flag in the name of the boot loader. -/
def CferamFlag (half : Part) (bf : Int) : Prop :=
  (∃ o node, w.File CFERAM_NAME (stop half) half.offset o node ∧
    bf = w.bootflag (.found o node)) ∨
  w.NoFile CFERAM_NAME (stop half) half.offset ∧ bf = -ENOENT

end Wfi

/-- The boot flag on a device of its own. -/
def SercommFlag (mtd : Master) (bf : Int) : Prop :=
  (∃ o, FirstSeen mtd.erasesize mtd.size (sercommMagic mtd) 0 o bf) ∨
  NoneSeen mtd.erasesize mtd.size (sercommMagic mtd) 0 ∧ bf = -ENOENT

/-! ## The active image -/

section Image

variable {w : Wfi} {half : Part}

namespace Wfi

variable {o start : Nat} {cfe : Option Nat} {cfePart : Bool} {bf1 bf2 : Int} {handed : Handed}

theorem Meets.le {stop : Int} {off : Nat} {inside : Option (List UInt8 × Nat)}
    {nodes : List (List UInt8)} (h : w.Meets stop off o inside nodes) :
    off ≤ o ∧ (inside.isSome → (o : Int) < stop) := by
  induction h with
  | start => exact ⟨le_rfl, fun h => absurd h (by decide)⟩
  | pass _ _ _ ih => exact ⟨le_add_right_of_le ih.1, fun h => absurd h (by decide)⟩
  | enter _ hlt _ ih => exact ⟨ih.1, fun _ => hlt⟩
  | skip _ _ _ ih => exact ⟨ih.1, fun _ => ih.2 rfl⟩
  | node _ _ _ ih => exact ⟨ih.1, fun _ => ih.2 rfl⟩
  | leave _ _ ih => exact ⟨le_add_right_of_le ih.1, fun h => absurd h (by decide)⟩

theorem File.bounds {name : List UInt8} {stop : Int} {off : Nat} {node : List UInt8}
    (h : w.File name stop off o node) : off ≤ o ∧ (o : Int) < stop := by
  obtain ⟨nodes, ⟨buf, pos, hmeets, -⟩, -⟩ := h
  exact ⟨hmeets.le.1, hmeets.le.2 rfl⟩

theorem grows_jffs2FindFile (offs : Nat) (size : Int) (name : List UInt8) :
    Grows fun n => w.jffs2FindFile n offs size name := grows_run _ _

theorem gives_jffs2FindFile_iff {offs : Nat} {size : Int} {name : List UInt8} {find : Find} :
    Gives (fun n => w.jffs2FindFile n offs size name) find ↔
      Ends (w.findTurn name (offs + size)) (searchStart offs) find := gives_run_iff

theorem grows_ubifsFind (offs : Nat) (size : Int) : Grows fun n => w.ubifsFind n offs size :=
  (grows_run _ _).map _

theorem grows_parseKernel (off size : Nat) (cfe : Option Nat) (start : Nat) :
    Grows fun n => w.parseKernel n off size cfe start := by
  refine (grows_jffs2FindFile _ _ _).bind fun find => ?_
  cases find with
  | ret err => exact grows_const _
  | found kernelOff node => exact (grows_ubifsFind _ _).map _

theorem parseBcmWfi_false (n off size : Nat) :
    w.parseBcmWfi n off size false = w.parseKernel n off size none off := rfl

theorem grows_parseBcmWfi (off size : Nat) (cfePart : Bool) :
    Grows fun n => w.parseBcmWfi n off size cfePart := by
  cases cfePart with
  | false =>
    simp only [parseBcmWfi_false]
    exact grows_parseKernel _ _ _ _
  | true =>
    refine (grows_jffs2FindFile _ _ _).bind fun find => ?_
    cases find with
    | ret err => exact grows_const _
    | found cfeOff node => exact grows_parseKernel _ _ _ _

theorem gives_ubifsFind_some_iff {offs : Nat} {size : Int} :
    Gives (fun n => w.ubifsFind n offs size) (some o) ↔
      FirstSeen w.master.erasesize (offs + size) w.ubiMagic offs o () := by
  have hmap := gives_map_iff (f := fun n => run (seekTurn w.master.erasesize (offs + size)
    w.ubiMagic) n offs) (h := fun found => found.map Prod.fst) (r := some o)
  refine hmap.trans ⟨?_, ?_⟩
  · rintro ⟨found, hfound, hsome⟩
    obtain ⟨⟨o', seen⟩, rfl, rfl⟩ := Option.map_eq_some_iff.mp hsome
    exact FirstSeen.of_end (gives_run_iff.mp hfound)
  · intro h
    exact ⟨some (o, ()), gives_run_iff.mpr h.ends, rfl⟩

def imageParts (half : Part) (cfe : Option Nat) (kernel rootfs : Nat) : List Part :=
  (match cfe with
    | none => []
    | some cfe => [{ name := "cferam", offset := cfe, size := kernel - cfe }]) ++
  [{ name := "firmware", offset := kernel, size := half.size - (kernel - half.offset) },
    { name := "kernel", offset := kernel, size := rootfs - kernel },
    { name := "ubi", offset := rootfs, size := half.size - (rootfs - half.offset) }]

theorem end_eq (half : Part) (o : Nat) : (o : Int) + (half.size - (o - half.offset)) = stop half := by
  rw [stop]
  omega

/-- The steps from the kernel on. -/
theorem gives_parseKernel_iff {ret : Except Int (List Part)} :
    Gives (fun n => w.parseKernel n half.offset half.size cfe start) ret ↔
      ∃ find, Ends (w.findTurn KERNEL_NAME (stop half)) (searchStart start) find ∧
        match find with
        | .ret err => ret = .error err
        | .found kernel _ => ∃ found,
            Gives (fun n => w.ubifsFind n (kernel + w.master.erasesize)
              (half.size - ((kernel + w.master.erasesize : Nat) - half.offset : Int))) found ∧
            ret = match found with
              | none => .error (-ENOENT)
              | some rootfs => .ok (imageParts half cfe kernel rootfs) := by
  have hgrows (find : Find) : Grows fun n => match find with
      | .ret err => some (.error err)
      | .found kernelOff _ =>
        (w.ubifsFind n (kernelOff + w.master.erasesize)
          (half.size - ((kernelOff + w.master.erasesize : Nat) - half.offset : Int))).map
            fun found => match found with
              | none => (Except.error (-ENOENT) : Except Int (List Part))
              | some rootfs => .ok (imageParts half cfe kernelOff rootfs) := by
    cases find with
    | ret err => exact grows_const _
    | found kernelOff node => exact (grows_ubifsFind _ _).map _
  refine (gives_bind_iff (grows_jffs2FindFile _ _ _) hgrows).trans (exists_congr fun find => ?_)
  rw [gives_jffs2FindFile_iff, end_eq]
  refine and_congr_right fun _ => ?_
  cases find with
  | ret err =>
    rw [gives_const_iff, some_inj]
    exact eq_comm
  | found kernel node =>
    rw [gives_map_iff]
    exact exists_congr fun found => and_congr_right fun _ => eq_comm

theorem gives_parseKernel_ok_iff {ps : List Part} :
    Gives (fun n => w.parseKernel n half.offset half.size cfe start) (.ok ps) ↔
      ∃ kernel rootfs, w.KernelAt half start kernel rootfs ∧
        ps = imageParts half cfe kernel rootfs := by
  rw [gives_parseKernel_iff]
  constructor
  · rintro ⟨find, hfind, hrest⟩
    rcases ends_cases hfind with ⟨kernel, node, rfl, hfile⟩ | ⟨err, rfl, -⟩
    · obtain ⟨found, hfound, hps⟩ := hrest
      cases found with
      | none => cases hps
      | some rootfs =>
        rw [gives_ubifsFind_some_iff, end_eq] at hfound
        exact ⟨kernel, rootfs, ⟨⟨node, hfile⟩, hfound⟩, Except.ok.inj hps⟩
    · cases hrest
  · rintro ⟨kernel, rootfs, ⟨⟨node, hfile⟩, hroot⟩, rfl⟩
    refine ⟨.found kernel node, hfile.ends, some rootfs, ?_, rfl⟩
    rw [gives_ubifsFind_some_iff, end_eq]
    exact hroot

theorem parseKernel_error_neg {err : Int}
    (h : Gives (fun n => w.parseKernel n half.offset half.size cfe start) (.error err)) :
    err < 0 := by
  obtain ⟨find, hfind, hrest⟩ := gives_parseKernel_iff.mp h
  rcases ends_cases hfind with ⟨kernel, node, rfl, -⟩ | ⟨err', rfl, hneg, -⟩
  · obtain ⟨found, -, herr⟩ := hrest
    cases found with
    | none =>
      cases herr
      decide
    | some rootfs => cases herr
  · cases hrest
    exact hneg

/-- The steps from the boot loader on. -/
theorem gives_parseBcmWfi_true_iff {ret : Except Int (List Part)} :
    Gives (fun n => w.parseBcmWfi n half.offset half.size true) ret ↔
      ∃ find, Ends (w.findTurn w.cferamName (stop half)) (searchStart half.offset) find ∧
        match find with
        | .ret err => ret = .error err
        | .found cfe _ => Gives (fun n => w.parseKernel n half.offset half.size (some cfe)
            (cfe + w.master.erasesize)) ret := by
  have hgrows (find : Find) : Grows fun n => match find with
      | .ret err => some (.error err)
      | .found cfe _ =>
        w.parseKernel n half.offset half.size (some cfe) (cfe + w.master.erasesize) := by
    cases find with
    | ret err => exact grows_const _
    | found cfe node => exact grows_parseKernel _ _ _ _
  refine (gives_bind_iff (grows_jffs2FindFile _ _ _) hgrows).trans (exists_congr fun find => ?_)
  rw [gives_jffs2FindFile_iff]
  refine and_congr_right fun _ => ?_
  cases find with
  | ret err =>
    rw [gives_const_iff, some_inj]
    exact eq_comm
  | found cfe node => exact Iff.rfl

theorem parseBcmWfi_error_neg {err : Int}
    (h : Gives (fun n => w.parseBcmWfi n half.offset half.size cfePart) (.error err)) :
    err < 0 := by
  cases cfePart with
  | false =>
    simp only [parseBcmWfi_false] at h
    exact parseKernel_error_neg h
  | true =>
    obtain ⟨find, hfind, hrest⟩ := gives_parseBcmWfi_true_iff.mp h
    rcases ends_cases hfind with ⟨cfe, node, rfl, -⟩ | ⟨err', rfl, hneg, -⟩
    · exact parseKernel_error_neg hrest
    · cases hrest
      exact hneg

def partNames (cfePart : Bool) : List String :=
  if cfePart then ["cferam", "kernel", "ubi"] else ["kernel", "ubi"]

theorem KernelAt.bounds {kernel rootfs : Nat} (h : w.KernelAt half start kernel rootfs) :
    start ≤ kernel ∧ kernel < rootfs ∧ rootfs < half.offset + half.size := by
  obtain ⟨⟨node, hfile⟩, k, hk, hlt, -⟩ := h
  have hle := hfile.bounds.1
  have hpos := w.master.erasesize_pos
  rw [stop] at hlt
  exact ⟨hle, by omega, by omega⟩

theorem imageParts_inHalf {kernel rootfs : Nat} (h : w.KernelAt half start kernel rootfs)
    (hstart : half.offset ≤ start) :
    InHalf half (partNames false) (imageParts half none kernel rootfs) ∧
    ∀ cfe, half.offset ≤ cfe → cfe ≤ start →
      InHalf half (partNames true) (imageParts half (some cfe) kernel rootfs) := by
  obtain ⟨hkernel, hroot, hlt⟩ := h.bounds
  constructor
  · refine ⟨?_, rfl, ?_⟩
    · simp only [imageParts, nil_append, forall_mem_cons, not_mem_nil,
        false_implies, implies_true, and_true]
      omega
    · simp only [imageParts, nil_append]
      simp
      omega
  · intro cfe hcfe hcs
    refine ⟨?_, rfl, ?_⟩
    · simp only [imageParts, cons_append, nil_append, forall_mem_cons,
        not_mem_nil, false_implies, implies_true, and_true]
      omega
    · simp only [imageParts, cons_append, nil_append]
      simp
      omega

/-- The partitions of the image that a half has. -/
theorem parseBcmWfi_ok {ps : List Part}
    (h : Gives (fun n => w.parseBcmWfi n half.offset half.size cfePart) (.ok ps)) :
    w.HasImage cfePart half ∧ InHalf half (partNames cfePart) ps := by
  cases cfePart with
  | false =>
    simp only [parseBcmWfi_false] at h
    obtain ⟨kernel, rootfs, hat, rfl⟩ := gives_parseKernel_ok_iff.mp h
    exact ⟨⟨_, kernel, rootfs, hat, rfl⟩, (imageParts_inHalf hat le_rfl).1⟩
  | true =>
    obtain ⟨find, hfind, hrest⟩ := gives_parseBcmWfi_true_iff.mp h
    rcases ends_cases hfind with ⟨cfe, node, rfl, hfile⟩ | ⟨err, rfl, -⟩
    · obtain ⟨kernel, rootfs, hat, rfl⟩ := gives_parseKernel_ok_iff.mp hrest
      have hle := hfile.bounds.1
      refine ⟨⟨_, kernel, rootfs, hat, cfe, node, hfile, rfl⟩, ?_⟩
      exact (imageParts_inHalf hat (le_add_right_of_le hle)).2 cfe hle (Nat.le_add_right _ _)
    · cases hrest

theorem HasImage.parseBcmWfi (h : w.HasImage cfePart half) :
    ∃ ps, Gives (fun n => w.parseBcmWfi n half.offset half.size cfePart) (.ok ps) := by
  obtain ⟨start, kernel, rootfs, hat, hstart⟩ := h
  cases cfePart with
  | false =>
    obtain rfl : start = half.offset := hstart
    simp only [parseBcmWfi_false]
    exact ⟨_, gives_parseKernel_ok_iff.mpr ⟨kernel, rootfs, hat, rfl⟩⟩
  | true =>
    obtain ⟨cfe, node, hfile, rfl⟩ := hstart
    refine ⟨imageParts half (some cfe) kernel rootfs,
      gives_parseBcmWfi_true_iff.mpr ⟨.found cfe node, hfile.ends, ?_⟩⟩
    exact gives_parseKernel_ok_iff.mpr ⟨kernel, rootfs, hat, rfl⟩

/-- What is handed out for two boot flags. -/
theorem gives_handOut_iff :
    Gives (fun n => w.handOut n bf1 bf2 cfePart) handed ↔
      ∃ ret, Gives (fun n => w.parseBcmWfi n (w.active bf1 bf2).offset (w.active bf1 bf2).size
          cfePart) ret ∧
        (match ret with
          | .ok ps => { ret := ps.length + 1, parts := some (ps ++ [w.inactive bf1 bf2]) }
          | .error ret => { ret := ret, parts := some [w.img1, w.img2] }) = handed :=
  gives_map_iff

theorem grows_handOut (bf1 bf2 : Int) (cfePart : Bool) :
    Grows fun n => w.handOut n bf1 bf2 cfePart := (grows_parseBcmWfi _ _ _).map _

theorem hasImage_of_right {flags : Int → Int → Prop} {names : List String}
    (h : Gives (fun n => w.handOut n bf1 bf2 cfePart) handed) (hright : w.Right flags names handed) :
    w.HasImage cfePart (w.active bf1 bf2) := by
  obtain ⟨ret, hret, rfl⟩ := gives_handOut_iff.mp h
  cases ret with
  | ok ps => exact (parseBcmWfi_ok hret).1
  | error err =>
    have hneg := parseBcmWfi_error_neg hret
    have hcount := (hright _ rfl).1
    simp only [length_cons, length_nil] at hcount
    omega

theorem active_congr {bf2' : Int} (h : bf2 ≤ bf1 ↔ bf2' ≤ bf1) :
    w.active bf1 bf2 = w.active bf1 bf2' := by
  simp only [active, h]

theorem HasImage.handOut {bf2' : Int} (h : w.HasImage cfePart (w.active bf1 bf2))
    (flags : Int → Int → Prop) (hflags : flags bf1 bf2') (hsame : bf2 ≤ bf1 ↔ bf2' ≤ bf1) :
    ∃ handed, Gives (fun n => w.handOut n bf1 bf2 cfePart) handed ∧
      w.Right flags (partNames cfePart) handed := by
  obtain ⟨ps, hps⟩ := h.parseBcmWfi
  have hinactive : w.inactive bf1 bf2 = w.inactive bf1 bf2' := by simp only [inactive, hsame]
  refine ⟨_, gives_handOut_iff.mpr ⟨.ok ps, hps, rfl⟩, ?_⟩
  intro parts hparts
  cases hparts
  refine ⟨by simp, .inr ⟨bf1, bf2', hflags, ps, by rw [hinactive], ?_⟩⟩
  rw [← active_congr hsame]
  exact (parseBcmWfi_ok hps).2

/-! ## The parsers for two images -/

/-- What the search for the boot loader of a half says about its boot flag. -/
theorem cferamFlag_iff {bf : Int} :
    w.CferamFlag half bf ↔ ∃ find,
      Gives (fun n => w.jffs2FindFile n half.offset half.size CFERAM_NAME) find ∧
        w.bootflag find = bf := by
  simp only [gives_jffs2FindFile_iff]
  constructor
  · rintro (⟨o, node, hfile, rfl⟩ | ⟨hnone, rfl⟩)
    · exact ⟨_, hfile.ends, rfl⟩
    · obtain ⟨err, herr⟩ := hnone.ends
      exact ⟨_, herr, rfl⟩
  · rintro ⟨find, hfind, rfl⟩
    rcases ends_cases hfind with ⟨o, node, rfl, hfile⟩ | ⟨err, rfl, -, hnone⟩
    · exact .inl ⟨o, node, hfile, rfl⟩
    · exact .inr ⟨hnone, rfl⟩

theorem gives_mtdsplitParseBcmWfiSplit_iff :
    Gives w.mtdsplitParseBcmWfiSplit handed ↔
      ∃ bf1 bf2, w.CferamFlag w.img1 bf1 ∧ w.CferamFlag w.img2 bf2 ∧
        Gives (fun n => w.handOut n bf1 bf2 true) handed := by
  have hgrows (find1 : Find) : Grows fun n =>
      (w.jffs2FindFile n w.img2.offset w.img2.size CFERAM_NAME).bind fun find2 =>
        w.handOut n (w.bootflag find1) (w.bootflag find2) true :=
    (grows_jffs2FindFile _ _ _).bind fun find2 => grows_handOut _ _ _
  refine (gives_bind_iff (grows_jffs2FindFile _ _ _) hgrows).trans ?_
  simp only [gives_bind_iff (grows_jffs2FindFile _ _ _) fun find2 => grows_handOut _ _ _,
    cferamFlag_iff]
  constructor
  · rintro ⟨find1, h1, find2, h2, h⟩
    exact ⟨_, _, ⟨find1, h1, rfl⟩, ⟨find2, h2, rfl⟩, h⟩
  · rintro ⟨_, _, ⟨find1, h1, rfl⟩, ⟨find2, h2, rfl⟩, h⟩
    exact ⟨find1, h1, find2, h2, h⟩

end Wfi

theorem sercommFlag_iff {mtd : Master} {bf : Int} :
    SercommFlag mtd bf ↔ Gives (sercommBootflagValue mtd) bf := by
  have hmap := gives_map_iff (f := fun n => run (seekTurn mtd.erasesize mtd.size
    (sercommMagic mtd)) n 0) (h := foundValue) (r := bf)
  refine Iff.trans ?_ hmap.symm
  constructor
  · rintro (⟨o, hseen⟩ | ⟨hnone, rfl⟩)
    · exact ⟨some (o, bf), gives_run_iff.mpr hseen.ends, rfl⟩
    · exact ⟨none, gives_run_iff.mpr (hnone.ends mtd.erasesize_pos), rfl⟩
  · rintro ⟨found, hfound, rfl⟩
    cases found with
    | none => exact .inr ⟨.of_end (gives_run_iff.mp hfound), rfl⟩
    | some found => exact .inl ⟨found.1, .of_end (gives_run_iff.mp hfound)⟩

end Image

/-! ## When the partitions are right -/

namespace Wfi

variable (w : Wfi)

/-- The first parser ends, and hands out the right partitions. -/
def SplitRight : Prop :=
  ∃ handed, Gives w.mtdsplitParseBcmWfiSplit handed ∧
    w.Right (fun bf1 bf2 => w.CferamFlag w.img1 bf1 ∧ w.CferamFlag w.img2 bf2) (partNames true)
      handed

/-- So does the second. -/
def SerRight (mtdBf1 mtdBf2 : Option Master) : Prop :=
  ∃ handed erased, Gives (fun n => w.mtdsplitParseSerWfi n mtdBf1 mtdBf2) (handed, erased) ∧
    w.Right (fun bf1 bf2 => ∃ mtd1 mtd2, mtdBf1 = some mtd1 ∧ mtdBf2 = some mtd2 ∧
      SercommFlag mtd1 bf1 ∧ SercommFlag mtd2 bf2) (partNames false) handed

variable {w}

theorem splitRight_iff : w.SplitRight ↔ ∃ bf1 bf2, w.CferamFlag w.img1 bf1 ∧
    w.CferamFlag w.img2 bf2 ∧ w.HasImage true (w.active bf1 bf2) := by
  constructor
  · rintro ⟨handed, hgives, hright⟩
    obtain ⟨bf1, bf2, h1, h2, hhand⟩ := gives_mtdsplitParseBcmWfiSplit_iff.mp hgives
    exact ⟨bf1, bf2, h1, h2, hasImage_of_right hhand hright⟩
  · rintro ⟨bf1, bf2, h1, h2, himage⟩
    obtain ⟨handed, hhand, hright⟩ := himage.handOut
      (fun bf1 bf2 => w.CferamFlag w.img1 bf1 ∧ w.CferamFlag w.img2 bf2) ⟨h1, h2⟩ Iff.rfl
    exact ⟨handed, gives_mtdsplitParseBcmWfiSplit_iff.mpr ⟨bf1, bf2, h1, h2, hhand⟩, hright⟩

def countedFlag (bf1 bf2 : Int) : Int := if bf1 = bf2 ∧ 0 ≤ bf2 then -ENOENT else bf2

theorem countedFlag_le_iff (bf1 bf2 : Int) : countedFlag bf1 bf2 ≤ bf1 ↔ bf2 ≤ bf1 := by
  rw [countedFlag, ENOENT]
  split_ifs <;> omega

theorem gives_mtdsplitParseSerWfi_iff {mtd1 mtd2 : Master} {handed : Handed} {erased : Bool} :
    Gives (fun n => w.mtdsplitParseSerWfi n (some mtd1) (some mtd2)) (handed, erased) ↔
      ∃ bf1 bf2, SercommFlag mtd1 bf1 ∧ SercommFlag mtd2 bf2 ∧
        erased = decide (bf1 = bf2 ∧ 0 ≤ bf2) ∧
        Gives (fun n => w.handOut n bf1 (countedFlag bf1 bf2) false) handed := by
  have hflag (mtd : Master) : Grows (sercommBootflagValue mtd) := (grows_run _ _).map _
  have hgrows (bf1 bf2 : Int) : Grows fun n =>
      (w.handOut n bf1 (countedFlag bf1 bf2) false).map fun handed =>
        (handed, decide (bf1 = bf2 ∧ 0 ≤ bf2)) := (grows_handOut _ _ _).map _
  have hinner (bf1 : Int) : Grows fun n => (sercommBootflagValue mtd2 n).bind fun bf2 =>
      (w.handOut n bf1 (countedFlag bf1 bf2) false).map fun handed =>
        (handed, decide (bf1 = bf2 ∧ 0 ≤ bf2)) := (hflag mtd2).bind (hgrows bf1)
  have hdef : (fun n => w.mtdsplitParseSerWfi n (some mtd1) (some mtd2)) =
      fun n => (sercommBootflagValue mtd1 n).bind fun bf1 =>
        (sercommBootflagValue mtd2 n).bind fun bf2 =>
          (w.handOut n bf1 (countedFlag bf1 bf2) false).map fun handed =>
            (handed, decide (bf1 = bf2 ∧ 0 ≤ bf2)) := by
    simp only [mtdsplitParseSerWfi, countedFlag, decide_eq_true_eq]
  rw [hdef, gives_bind_iff (hflag mtd1) hinner]
  simp only [gives_bind_iff (hflag mtd2) (hgrows _), gives_map_iff, sercommFlag_iff]
  constructor
  · rintro ⟨bf1, h1, bf2, h2, handed, h, heq⟩
    obtain ⟨rfl, rfl⟩ := Prod.mk.inj heq
    exact ⟨bf1, bf2, h1, h2, rfl, h⟩
  · rintro ⟨bf1, bf2, h1, h2, rfl, h⟩
    exact ⟨bf1, h1, bf2, h2, handed, h, rfl⟩

theorem serRight_iff {mtdBf1 mtdBf2 : Option Master} : w.SerRight mtdBf1 mtdBf2 ↔
    ∀ mtd1 mtd2, mtdBf1 = some mtd1 → mtdBf2 = some mtd2 → ∃ bf1 bf2, SercommFlag mtd1 bf1 ∧
      SercommFlag mtd2 bf2 ∧ w.HasImage false (w.active bf1 bf2) := by
  constructor
  · rintro ⟨handed, erased, hgives, hright⟩ mtd1 mtd2 rfl rfl
    obtain ⟨bf1, bf2, h1, h2, -, hhand⟩ := gives_mtdsplitParseSerWfi_iff.mp hgives
    have himage := hasImage_of_right hhand hright
    rw [active_congr (countedFlag_le_iff bf1 bf2)] at himage
    exact ⟨bf1, bf2, h1, h2, himage⟩
  · intro h
    cases mtdBf1 with
    | none => exact ⟨_, _, gives_const_iff.mpr rfl, fun parts hparts => by cases hparts⟩
    | some mtd1 =>
      cases mtdBf2 with
      | none => exact ⟨_, _, gives_const_iff.mpr rfl, fun parts hparts => by cases hparts⟩
      | some mtd2 =>
        obtain ⟨bf1, bf2, h1, h2, himage⟩ := h mtd1 mtd2 rfl rfl
        rw [← active_congr (countedFlag_le_iff bf1 bf2)] at himage
        obtain ⟨handed, hhand, hright⟩ := himage.handOut
          (fun bf1 bf2 => ∃ m1 m2, some mtd1 = some m1 ∧ some mtd2 = some m2 ∧
            SercommFlag m1 bf1 ∧ SercommFlag m2 bf2)
          ⟨mtd1, mtd2, rfl, rfl, h1, h2⟩ (countedFlag_le_iff bf1 bf2)
        exact ⟨handed, _, gives_mtdsplitParseSerWfi_iff.mpr ⟨bf1, bf2, h1, h2, rfl, hhand⟩, hright⟩

/-- The partitions are right if and only if the active half has an image. -/
theorem twoImages_iff (w : Wfi) :
    (w.SplitRight ↔ ∃ bf1 bf2, w.CferamFlag w.img1 bf1 ∧ w.CferamFlag w.img2 bf2 ∧
      w.HasImage true (w.active bf1 bf2)) ∧
    ∀ mtdBf1 mtdBf2, w.SerRight mtdBf1 mtdBf2 ↔
      ∀ mtd1 mtd2, mtdBf1 = some mtd1 → mtdBf2 = some mtd2 → ∃ bf1 bf2, SercommFlag mtd1 bf1 ∧
        SercommFlag mtd2 bf2 ∧ w.HasImage false (w.active bf1 bf2) :=
  ⟨splitRight_iff, fun _ _ => serRight_iff⟩

theorem erased_pos : 0 < 64 := by decide

theorem erased_lt : (replicate 128 (0xff : UInt8)).length < 2 ^ 64 := by decide +kernel

def erasedWfi : Wfi where
  master := readable (replicate 128 0xff) 64 true erased_pos erased_lt
  brcmCferam := none
  behind := []
  behindName := []

/-- With no image, two partitions are handed out but an error is returned. -/
theorem twoImages_fails : ¬erasedWfi.SplitRight := by
  rintro ⟨handed, hgives, hright⟩
  have herased : Gives erasedWfi.mtdsplitParseBcmWfiSplit
      { ret := -2, parts := some [erasedWfi.img1, erasedWfi.img2] } :=
    ⟨4, by decide +kernel⟩
  have hgrows : Grows erasedWfi.mtdsplitParseBcmWfiSplit :=
    (grows_jffs2FindFile _ _ _).bind fun _ =>
      (grows_jffs2FindFile _ _ _).bind fun _ => grows_handOut _ _ _
  obtain rfl := hgives.unique hgrows herased
  exact absurd (hright _ rfl).1 (by decide +kernel)

end Wfi

end LibWrt.Mtdsplit
