/-
LibWrt.Nmbm.Signature — the signature of a chip is found where it was written.

`nmbm_write_signature` goes down from the last block to the block above the
start of the management blocks, `nmbm_find_signature` down to the block below
a limit of its own. The limit of the finder rounds before it multiplies. When
it comes out as 0, on a chip of few blocks or with all of it reserved, the
32-bit block address of the finder never gets below it: on a chip without a
signature the search goes on from block 2^32 - 1.
-/
import LibWrt.Nmbm.Reload
import LibWrt.Nmbm.Passes

namespace LibWrt.Nmbm

open List Instance Nat
open LibWrt.Flash LibWrt.Bytes LibWrt.Crc32 LibWrt.Loop

variable (g : Geometry) (env : Env)

/-! ## The loops with their 32-bit addresses -/

/-- What `nmbm_write_signature` does to a block it does not skip: whether the block took the
    signature. -/
def writeSignatureBlock (signature : Bytes) (ba : Nat) (s : State) : Bool × Device Page :=
  let (erased, nand) := eraseBlockAndCheck g env s.ni.emptyPageEccOk ba s.nand
  if erased then writeRepeatedData g env ba signature nand else (false, nand)

def failSignatureBlock (signature : Bytes) (ba : Nat) (s : State) : State :=
  { s with
    nand := markPhysBadBlock env ba (writeSignatureBlock g env signature ba s).2 }.setBad ba

/-- A turn of the loop of `nmbm_write_signature`. -/
def writeTurn (limit : Nat) (signature : Bytes) (p : Nat × State) :
    (Nat × State) ⊕ (Option Nat × State) :=
  let (ba, s) := p
  if ba > limit then
    if !s.ni.good ba then .inl (sub32 ba 1, s)
    else if checkBadPhysBlock s.nand.chip ba then .inl (sub32 ba 1, s.setBad ba)
    else
      let (success, nand) := writeSignatureBlock g env signature ba s
      if success then .inr (some ba, { s with nand := nand })
      else .inl (sub32 ba 1, failSignatureBlock g env signature ba s)
  else .inr (none, s)

/-- The limit of `nmbm_find_signature`. -/
def Instance.findLimit (ni : Instance) : Nat :=
  let limit := g.totalBlks / mgmtDiv * sub32 mgmtDiv ni.maxRatio % 2 ^ 32
  if ni.maxReservedBlocks ≠ 0 ∧ sub32 g.totalBlks limit > ni.maxReservedBlocks then
    sub32 g.totalBlks ni.maxReservedBlocks
  else limit

/-- A turn of the loop of `nmbm_find_signature`. -/
def findTurn (limit : Nat) (chip : Chip Page) (ba : Nat) : Nat ⊕ Option (Signature × Nat) :=
  if ba ≥ limit then
    let ba := sub32 ba 1
    if checkBadPhysBlock chip ba then .inl ba
    else
      match signatureOfBlock g chip ba with
      | some signature => .inr (some (signature, ba))
      | none => .inl ba
  else .inr none

/-- The bytes of the signature that `nmbm_create_new` writes. -/
def Geometry.signatureBytes (mgmtStartBa : Nat) : Bytes :=
  updateChecksum (Geometry.signature g mgmtStartBa).toBytes

/-- The state in which `nmbm_create_new` writes it. -/
def State.toWrite (s : State) : State :=
  let s : State := { s with ni := { s.ni with mgmtStartBa := s.ni.boundary g } }
  let s := scanBadblocks g s
  let ni := buildMappingTable g s.ni
  { s with ni := { ni with signature := .ofBytes (g.signatureBytes ni.mgmtStartBa) } }

theorem createNew_eq (s : State) : createNew g env s =
    match writeSignature g env (s.toWrite g).ni.mgmtStartBa
        (g.signatureBytes (s.toWrite g).ni.mgmtStartBa) (s.toWrite g) with
    | (none, s) => (false, s)
    | (some signatureBa, s) =>
      createInfoTable g env { s with ni := { s.ni with signatureBa := signatureBa } } := rfl

variable {g env}

theorem writeSignatureFrom_succ (signature : Bytes) (n ba : Nat) (s : State) :
    writeSignatureFrom g env signature (n + 1) ba s =
      if !s.ni.good ba then writeSignatureFrom g env signature n (ba - 1) s
      else if checkBadPhysBlock s.nand.chip ba then
        writeSignatureFrom g env signature n (ba - 1) (s.setBad ba)
      else if (writeSignatureBlock g env signature ba s).1 then
        (some ba, { s with nand := (writeSignatureBlock g env signature ba s).2 })
      else
        writeSignatureFrom g env signature n (ba - 1) (failSignatureBlock g env signature ba s) :=
  rfl

theorem writeSignature_ends {limit : Nat} (signature : Bytes) (hblk : 0 < g.totalBlks) (s : State) :
    Ends (writeTurn g env limit signature) (sub32 g.totalBlks 1, s)
      (writeSignature g env limit signature s) := by
  obtain ⟨last, hlast⟩ := Nat.exists_eq_add_of_le' hblk
  have hlt := g.totalBlks_lt
  rw [hlast, sub32_one (by omega)]
  unfold writeSignature
  rw [hlast, Nat.add_sub_cancel]
  suffices h : ∀ n ba s, ba < 2 ^ 16 → n = ba - limit → Ends (writeTurn g env limit signature)
      (ba, s) (writeSignatureFrom g env signature n ba s) from h _ last s (by omega) rfl
  intro n
  induction n with
  | zero =>
    intro ba s _ hn
    refine .stop ?_
    simp only [writeTurn, writeSignatureFrom]
    rw [if_neg (by omega)]
  | succ n ih =>
    intro ba s hba hn
    obtain ⟨ba, rfl⟩ : ∃ b, ba = b + 1 := ⟨ba - 1, by omega⟩
    have hgt : ba + 1 > limit := by omega
    have hrest (s : State) := ih ba s (by omega) (by omega)
    have hsub : sub32 (ba + 1) 1 = ba := sub32_one (by omega)
    rw [writeSignatureFrom_succ, Nat.add_sub_cancel]
    split
    · rename_i hgood
      exact .next (by simp only [writeTurn, hsub, if_pos hgt, if_pos hgood]) (hrest _)
    · rename_i hgood
      split
      · rename_i hmark
        exact .next (by simp only [writeTurn, hsub, if_pos hgt, if_neg hgood, if_pos hmark])
          (hrest _)
      · rename_i hmark
        split
        · rename_i hwritten
          exact .stop (by simp only [writeTurn, if_pos hgt, if_neg hgood, if_neg hmark,
            if_pos hwritten])
        · rename_i hwritten
          exact .next (by simp only [writeTurn, hsub, if_pos hgt, if_neg hgood, if_neg hmark,
            if_neg hwritten]) (hrest _)

/-- The addresses of the loop of the writer are blocks of the chip. -/
theorem writeTurn_within {limit ba : Nat} {signature : Bytes} {s s' : State}
    (hblk : 0 < g.totalBlks)
    (h : Leads (writeTurn g env limit signature) (sub32 g.totalBlks 1, s) (ba, s')) :
    ba < g.totalBlks := by
  have hlt := g.totalBlks_lt
  have hfirst : sub32 g.totalBlks 1 < g.totalBlks := by
    unfold sub32
    omega
  refine @Leads.invariant _ _ _ (fun p => p.1 < g.totalBlks) _ _ h hfirst fun p p' hp hturn => ?_
  obtain ⟨ba, s⟩ := p
  dsimp only at hp ⊢
  have hnext : limit < ba → sub32 ba 1 < g.totalBlks := by
    intro hgt
    unfold sub32
    omega
  simp only [writeTurn] at hturn
  split at hturn
  · rename_i hgt
    split at hturn
    · obtain rfl := Sum.inl.inj hturn
      exact hnext hgt
    · split at hturn
      · obtain rfl := Sum.inl.inj hturn
        exact hnext hgt
      · split at hturn
        · cases hturn
        · obtain rfl := Sum.inl.inj hturn
          exact hnext hgt
  · cases hturn

/-! ## The search -/

/-- Over a limit that is not 0 the search is the walk of `findSignatureFrom`. -/
theorem findSignatureFrom_ends {limit : Nat} (hlimit : 0 < limit) (chip : Chip Page) {ba : Nat}
    (hba : ba < 2 ^ 32) :
    Ends (findTurn g limit chip) ba (findSignatureFrom g chip (ba + 1 - limit) ba) := by
  induction ba with
  | zero =>
    rw [Nat.sub_eq_zero_of_le (by omega)]
    exact .stop (by rw [findTurn, if_neg (by omega), findSignatureFrom])
  | succ ba ih =>
    have hsub : sub32 (ba + 1) 1 = ba := sub32_one hba
    by_cases hge : ba + 1 ≥ limit
    · have hrest := ih (by omega)
      rw [show ba + 1 + 1 - limit = (ba + 1 - limit) + 1 by omega, findSignatureFrom,
        Nat.add_sub_cancel]
      by_cases hmark : checkBadPhysBlock chip ba = true
      · rw [if_pos hmark]
        exact .next (by simp [findTurn, hge, hsub, hmark]) hrest
      · rw [if_neg hmark]
        cases hsig : signatureOfBlock g chip ba with
        | none => exact .next (by simp [findTurn, hge, hsub, hmark, hsig]) hrest
        | some signature => exact .stop (by simp [findTurn, hge, hsub, hmark, hsig])
    · rw [Nat.sub_eq_zero_of_le (by omega)]
      exact .stop (by rw [findTurn, if_neg hge, findSignatureFrom])

theorem findSignature_ends {ni : Instance} (hlimit : 0 < ni.findLimit g) (chip : Chip Page) :
    Ends (findTurn g (ni.findLimit g) chip) g.totalBlks (findSignature g ni chip) := by
  have hlt := g.totalBlks_lt
  have hwalk := @findSignatureFrom_ends g _ hlimit chip g.totalBlks (by omega)
  have hmin : min (g.totalBlks + 1 - ni.findLimit g) g.totalBlks =
      g.totalBlks + 1 - ni.findLimit g := by omega
  rw [← hmin] at hwalk
  exact hwalk

theorem findTurn_within {limit ba : Nat} {chip : Chip Page} (hlimit : 0 < limit)
    (h : Leads (findTurn g limit chip) g.totalBlks ba) : ba ≤ g.totalBlks := by
  have hlt := g.totalBlks_lt
  refine @Leads.invariant _ _ _ (fun ba => ba ≤ g.totalBlks) _ _ h le_rfl
    fun ba ba' hba hturn => ?_
  have hnext : limit ≤ ba → sub32 ba 1 ≤ g.totalBlks := by
    intro hge
    unfold sub32
    omega
  simp only [findTurn] at hturn
  split at hturn
  · rename_i hge
    split at hturn
    · obtain rfl := Sum.inl.inj hturn
      exact hnext hge
    · split at hturn
      · cases hturn
      · obtain rfl := Sum.inl.inj hturn
        exact hnext hge
  · cases hturn

/-- Above a block all blocks are marked: the search comes to the block. -/
theorem findTurn_leads {limit ba top : Nat} {chip : Chip Page} (hle : ba ≤ top)
    (htop : top < 2 ^ 32) (hlimit : limit ≤ ba + 1)
    (hmarks : ∀ b, ba ≤ b → b < top → chip.marked b = true) :
    Leads (findTurn g limit chip) top ba := by
  induction top with
  | zero =>
    obtain rfl : ba = 0 := by omega
    exact .refl
  | succ top ih =>
    rcases Nat.eq_or_lt_of_le hle with rfl | hlt
    · exact .refl
    · have hsub : sub32 (top + 1) 1 = top := sub32_one htop
      refine .head ?_ (ih (by omega) (by omega) fun b hb hb' => hmarks b hb (by omega))
      have hmark : checkBadPhysBlock chip top = true := hmarks top (by omega) (by omega)
      simp only [findTurn, hsub, hmark, if_true]
      rw [if_pos (by omega)]

/-- The first block that is not marked has a signature: the search finds it. -/
theorem findTurn_found {limit ba : Nat} {chip : Chip Page} {signature : Signature}
    (hba : ba < g.totalBlks) (hlimit : limit ≤ ba + 1)
    (hmarks : ∀ b, ba < b → b < g.totalBlks → chip.marked b = true)
    (hmark : chip.marked ba = false) (hsig : signatureOfBlock g chip ba = some signature) :
    Ends (findTurn g limit chip) g.totalBlks (some (signature, ba)) := by
  have hlt := g.totalBlks_lt
  have hleads : Leads (findTurn g limit chip) g.totalBlks (ba + 1) :=
    findTurn_leads hba (by omega) (by omega) fun b hb => hmarks b (by omega)
  refine hleads.ends (.stop ?_)
  have hsub : sub32 (ba + 1) 1 = ba := sub32_one (by omega)
  simp only [findTurn, hsub, checkBadPhysBlock, hmark, hsig]
  rw [if_pos (by omega)]
  simp

theorem findTurn_missed {limit top : Nat} {chip : Chip Page} (htop : top < 2 ^ 32)
    (hlimit : 0 < limit) (hmarks : ∀ b, limit ≤ b + 1 → b < top → chip.marked b = true) :
    Ends (findTurn g limit chip) top none := by
  rcases Nat.lt_or_ge top limit with hlt | hge
  · exact .stop (by rw [findTurn, if_neg (by omega)])
  · have hleads : Leads (findTurn g limit chip) top (limit - 1) :=
      findTurn_leads (by omega) htop (by omega) fun b hb => hmarks b (by omega)
    exact hleads.ends (.stop (by rw [findTurn, if_neg (by omega)]))

/-- Over the limit 0 the search of a chip without signatures goes on. -/
theorem findTurn_forever {chip : Chip Page} (hnone : ∀ ba, signatureOfBlock g chip ba = none)
    {ba : Nat} {r : Option (Signature × Nat)} : ¬ Ends (findTurn g 0 chip) ba r := by
  intro h
  induction h with
  | stop hturn =>
    simp only [findTurn, hnone, ite_self] at hturn
    simp at hturn
  | next _ _ ih => exact ih

/-! ## The signature -/

/-- The checksum that `updateChecksum` puts into a header in front of so many bytes. -/
def Header.checksumOver (header : Header) (tail : Bytes) : BitVec 32 :=
  crc32Le 0 ({ header with checksum := 0 }.toBytes ++ tail)

theorem Header.ofBytes_append (header : Header) (tail : Bytes) :
    Header.ofBytes (header.toBytes ++ tail) = header := by
  unfold Header.toBytes Header.ofBytes
  simp only [flatMap_cons, flatMap_nil, append_nil, append_assoc]
  rw [ofLe32_le32, drop_le32 _ 0, drop_le32 _ 4, drop_le32 _ 0, drop_le32 _ 8, drop_le32 _ 4,
    drop_le32 _ 0]
  simp only [drop_zero, ofLe32_le32]

/-- `nmbm_update_checksum` of a structure whose header has its size. -/
theorem updateChecksum_append {header : Header} {tail : Bytes}
    (hsize : header.size.toNat = headerSize + tail.length) :
    updateChecksum (header.toBytes ++ tail) =
      { header with checksum := header.checksumOver tail }.toBytes ++ tail := by
  have hread : (ofLe32 ((header.toBytes ++ tail).drop 8)).toNat = headerSize + tail.length := by
    have hheader : ofLe32 ((header.toBytes ++ tail).drop 8) = header.size :=
      congrArg Header.size (header.ofBytes_append tail)
    rw [hheader, hsize]
  have hdrop : (header.toBytes ++ tail).drop headerSize = tail := drop_left' rfl
  have htake : (header.toBytes ++ tail).take 12 =
      [header.magic, header.version, header.size].flatMap le32 := rfl
  unfold updateChecksum
  dsimp only
  rw [hread, hdrop, htake, take_of_length_le]
  · simp [Header.toBytes, Header.checksumOver]
  · simp only [length_append, length_flatMap_le32, length_le32, length_cons,
      length_nil, headerSize]
    omega

theorem checkHeader_updateChecksum {header : Header} {tail : Bytes}
    (hsize : header.size.toNat = headerSize + tail.length) :
    checkHeader (updateChecksum (header.toBytes ++ tail)) header.size.toNat = true := by
  have hdrop (header : Header) : (header.toBytes ++ tail).drop headerSize = tail :=
    drop_left' rfl
  rw [updateChecksum_append hsize]
  unfold checkHeader
  simp only [Header.ofBytes_append, hdrop, le_refl, decide_true, Bool.true_and, beq_iff_eq]
  unfold Header.checksumOver
  rw [crc32Le_append]
  split
  · rw [take_of_length_le (by omega)]
  · have hnil : tail = [] := length_eq_zero_iff.mp (by omega)
    have hnone (crc : BitVec 32) : crc32Le crc [] = crc := rfl
    rw [hnil, hnone]

/-- The signature passes the checks of the search. -/
theorem signatureBytes_passes (g : Geometry) (start : Nat) :
    (g.signatureBytes start).length = signatureSize ∧
      checkHeader (g.signatureBytes start) signatureSize = true ∧
      (Header.ofBytes (g.signatureBytes start)).magic = magicSignature := by
  have hsize : (g.signature start).header.size.toNat =
      headerSize + (g.signature start).tail.length := rfl
  have hfull : (g.signature start).header.size.toNat = signatureSize := rfl
  have hbytes : g.signatureBytes start =
      updateChecksum ((g.signature start).header.toBytes ++ (g.signature start).tail) := rfl
  have hcheck := checkHeader_updateChecksum hsize
  rw [hfull] at hcheck
  rw [hbytes]
  refine ⟨?_, hcheck, ?_⟩
  · rw [updateChecksum_append hsize]
    rfl
  · rw [updateChecksum_append hsize, Header.ofBytes_append]
    rfl

/-- A block whose first page starts with the signature is a signature block. -/
theorem signatureOfBlock_signature {start ba : Nat} {chip : Chip Page} {bytes : Bytes}
    (hpage : chip.page ba 0 = .ok bytes)
    (hbytes : bytes.take signatureSize = g.signatureBytes start) :
    signatureOfBlock g chip ba = some (.ofBytes (g.signatureBytes start)) := by
  obtain ⟨-, hcheck, hmagic⟩ := signatureBytes_passes g start
  have hpg := pgSize_ge g
  have hmin : min g.pgSize signatureSize = signatureSize := by
    unfold signatureSize
    omega
  have hread : readPages g chip ba signatureSize 0 signatureSize =
      .ok (g.signatureBytes start) := by
    have hrest (fuel pg : Nat) : readPages g chip ba fuel pg 0 = .ok [] := by cases fuel <;> rfl
    have hpos : signatureSize ≠ 0 := by decide
    have hturn (fuel : Nat) : readPages g chip ba (fuel + 1) 0 signatureSize =
        .ok (g.signatureBytes start) := by
      simp only [readPages, if_neg hpos, readPhysPage, hpage, hmin, hbytes, Nat.sub_self, hrest,
        bind, Except.bind, append_nil]
    exact hturn 47
  obtain ⟨n, hn⟩ : ∃ n, g.pagesPerBlock = n + 1 :=
    exists_eq_succ_of_ne_zero (Nat.two_pow_pos _).ne'
  unfold signatureOfBlock
  rw [hn, range_succ_eq_map, findSome?_cons]
  simp only [hread, hcheck, hmagic]
  simp

/-! ## Writing -/

theorem good_setBad_ne {s : State} {ba b : Nat} (h : b ≠ ba) :
    (s.setBad ba).ni.good b = s.ni.good b := by
  unfold Instance.good getBlockState State.setBad setBlockState
  rw [Packed.get_set_ne (by omega) _ _ h.symm]

theorem scanBadblocksFrom_frame (n ba : Nat) (s : State) :
    (scanBadblocksFrom n ba s).nand = s.nand ∧
      (scanBadblocksFrom n ba s).ni.mgmtStartBa = s.ni.mgmtStartBa := by
  induction n generalizing ba s with
  | zero => exact ⟨rfl, rfl⟩
  | succ n ih =>
    obtain ⟨hnand, hstart⟩ :=
      ih (ba + 1) (if checkBadPhysBlock s.nand.chip ba then s.setBad ba else s)
    rw [scanBadblocksFrom, hnand, hstart]
    split <;> exact ⟨rfl, rfl⟩

/-- A block without a mark stays good. -/
theorem scanBadblocksFrom_good {n ba b : Nat} {s : State} (hgood : s.ni.good b = true)
    (hmark : s.nand.chip.marked b = false) : (scanBadblocksFrom n ba s).ni.good b = true := by
  induction n generalizing ba s with
  | zero => exact hgood
  | succ n ih =>
    rw [scanBadblocksFrom]
    split
    · rename_i hbad
      have hne : b ≠ ba := by
        rintro rfl
        rw [checkBadPhysBlock, hmark] at hbad
        cases hbad
      exact ih ((good_setBad_ne hne).trans hgood) hmark
    · exact ih hgood hmark

theorem good_initStructure {ni : Instance} {b : Nat} (hb : b < g.totalBlks) :
    (initStructure g ni).good b = true := by
  rw [good_iff]
  unfold getBlockState initStructure Packed.get
  dsimp only
  have hword : b / (32 / 2) < g.stateTableSize / 4 := by
    unfold Geometry.stateTableSize
    omega
  rw [getD_eq_getElem?_getD, getElem?_replicate, if_pos hword]
  have hshift : Packed.shift 32 b < 32 := by
    have := Packed.shift_lt (by decide : 2 ≤ 32) b
    omega
  have heven : Packed.shift 32 b % 2 = 0 := by
    unfold Packed.shift
    omega
  generalize Packed.shift 32 b = shift at hshift heven
  revert shift
  decide

/-- A chip before its signature is written. -/
def Instance.fresh (g : Geometry) (ni : Instance) (nand : Device Page) : State :=
  State.toWrite g { ni := initStructure g ni, nand := nand }

theorem fresh_nand (ni : Instance) (nand : Device Page) : (ni.fresh g nand).nand = nand :=
  (scanBadblocksFrom_frame _ _ _).1

theorem fresh_mgmtStartBa (ni : Instance) (nand : Device Page) :
    (ni.fresh g nand).ni.mgmtStartBa = ni.boundary g :=
  (scanBadblocksFrom_frame _ _ _).2

theorem fresh_good {ni : Instance} {nand : Device Page} {b : Nat} (hb : b < g.totalBlks)
    (hmark : nand.chip.marked b = false) : (ni.fresh g nand).ni.good b = true := by
  have hgood : (initStructure g ni).good b = true := good_initStructure hb
  refine scanBadblocksFrom_good ?_ hmark
  exact hgood

/-- The pages below the one written to stay. -/
theorem writeRepeatedPages_ran (ba pg n : Nat) (data : Bytes) (d : Device Page) :
    Ran (fun op => ∃ p left, pg ≤ p ∧ op = .program ba p left) d
      (writeRepeatedPages g env ba data pg n d).2 := by
  induction n generalizing pg d with
  | zero => exact .refl _ d
  | succ n ih =>
    have hpage : Ran (fun op => ∃ p left, pg ≤ p ∧ op = .program ba p left) d
        (writePhysPage env ba pg (data ++ replicate (g.pgSize - data.length) 0xff)
          tryCount d).2 :=
      (writePhysPage_ran ba pg _ _ d).mono fun op ⟨left, hop⟩ => ⟨pg, left, le_rfl, hop⟩
    simp only [writeRepeatedPages]
    split
    · exact hpage
    · split
      · exact hpage
      · split
        · exact hpage
        · exact hpage.trans ((ih (pg + 1) _).mono fun op ⟨p, left, hp, hop⟩ =>
            ⟨p, left, by omega, hop⟩)

/-- The first page that was written is read back. -/
theorem writeRepeatedPages_reads {ba pg n : Nat} {data : Bytes} {d : Device Page}
    (h : (writeRepeatedPages g env ba data pg (n + 1) d).1 = true) :
    ∃ bytes, (writeRepeatedPages g env ba data pg (n + 1) d).2.chip.page ba pg = .ok bytes ∧
      bytes.take data.length = data := by
  simp only [writeRepeatedPages] at h ⊢
  split at h
  · simp at h
  · rename_i hok
    rw [if_neg hok]
    split at h
    · simp at h
    · rename_i bytes hbytes
      split at h
      · simp at h
      · rename_i hsame
        refine ⟨bytes, ?_, by simpa using hsame⟩
        rw [if_neg hsame, page_of_ran (writeRepeatedPages_ran ba (pg + 1) n data _)]
        exact hbytes

theorem writeSignatureBlock_ran (signature : Bytes) (ba : Nat) (s : State) :
    Ran (fun op => op.block = ba ∧ ∀ b took, op ≠ .mark b took) s.nand
      (writeSignatureBlock g env signature ba s).2 := by
  have herase : Ran (fun op => op.block = ba ∧ ∀ b took, op ≠ .mark b took) s.nand
      (eraseBlockAndCheck g env s.ni.emptyPageEccOk ba s.nand).2 :=
    (eraseBlockAndCheck_erases _ ba s.nand).mono fun op ⟨left, hop⟩ => by simp [hop]
  unfold writeSignatureBlock writeRepeatedData
  dsimp only
  split
  · split
    · exact herase
    · exact herase.trans ((writeRepeatedPages_ran ba 0 _ signature _).mono
        fun op ⟨p, left, _, hop⟩ => by simp [hop])
  · exact herase

theorem writeSignatureBlock_marked (signature : Bytes) (ba : Nat) (s : State) :
    (writeSignatureBlock g env signature ba s).2.chip.marked = s.nand.chip.marked :=
  (writeSignatureBlock_ran signature ba s).marks fun _ hop => hop.2

theorem writeSignatureBlock_reads {signature : Bytes} {ba : Nat} {s : State}
    (h : (writeSignatureBlock g env signature ba s).1 = true) :
    ∃ bytes, (writeSignatureBlock g env signature ba s).2.chip.page ba 0 = .ok bytes ∧
      bytes.take signature.length = signature := by
  obtain ⟨n, hn⟩ : ∃ n, g.pagesPerBlock = n + 1 :=
    exists_eq_succ_of_ne_zero (Nat.two_pow_pos _).ne'
  unfold writeSignatureBlock writeRepeatedData at h ⊢
  rw [hn] at h ⊢
  dsimp only at h ⊢
  split at h
  · rename_i herased
    rw [if_pos herased]
    split at h
    · simp at h
    · rename_i hfits
      rw [if_neg hfits]
      exact writeRepeatedPages_reads h
  · simp at h

theorem failSignatureBlock_ran (signature : Bytes) (ba : Nat) (s : State) :
    Ran (On ba) s.nand (failSignatureBlock g env signature ba s).nand :=
  ((writeSignatureBlock_ran signature ba s).mono fun _ hop => hop.1).trans
    (markPhysBadBlock_ran ba _)

theorem writeSignatureFrom_ran (signature : Bytes) (n ba : Nat) (s : State) :
    Ran (fun op => op.block ≤ ba) s.nand (writeSignatureFrom g env signature n ba s).2.nand := by
  induction n generalizing ba s with
  | zero => exact .refl _ _
  | succ n ih =>
    have hrest (s : State) : Ran (fun op => op.block ≤ ba) s.nand
        (writeSignatureFrom g env signature n (ba - 1) s).2.nand :=
      (ih (ba - 1) s).mono fun op hop => hop.trans (sub_le _ _)
    rw [writeSignatureFrom_succ]
    split
    · exact hrest s
    · split
      · exact hrest _
      · split
        · exact (writeSignatureBlock_ran signature ba s).mono fun op hop => hop.1.le
        · exact ((failSignatureBlock_ran signature ba s).mono fun op hop => hop.le).trans (hrest _)

theorem failSignatureBlock_marks {signature : Bytes} {ba : Nat} {s : State}
    (htakes : ∀ n b, env.mark n b = true) :
    (failSignatureBlock g env signature ba s).nand.chip.marked ba = true := by
  simp [failSignatureBlock, State.setBad, markPhysBadBlock, Device.run, Op.apply, htakes]

/-- The blocks above are not asked again. -/
theorem writeSignatureFrom_above {signature : Bytes} {n ba b : Nat} {s : State} (hb : ba < b) :
    (writeSignatureFrom g env signature n ba s).2.nand.chip.page b = s.nand.chip.page b ∧
      (writeSignatureFrom g env signature n ba s).2.nand.chip.marked b = s.nand.chip.marked b := by
  have hran := @writeSignatureFrom_ran g env signature n ba s
  have hne : ∀ op : Op Page, op.block ≤ ba → op.block ≠ b := fun op hop => by omega
  exact ⟨hran.page hne, hran.marked hne⟩

/-- The block that was written to has no mark and starts with the signature. -/
theorem writeSignatureFrom_spec {signature : Bytes} {n ba b : Nat} {s s' : State} (hn : n ≤ ba)
    (h : writeSignatureFrom g env signature n ba s = (some b, s')) :
    b ≤ ba ∧ ba < b + n ∧ s'.nand.chip.marked b = false ∧
      ∃ bytes, s'.nand.chip.page b 0 = .ok bytes ∧ bytes.take signature.length = signature := by
  induction n generalizing ba s with
  | zero => simp [writeSignatureFrom] at h
  | succ n ih =>
    have hrest {s : State} (h : writeSignatureFrom g env signature n (ba - 1) s = (some b, s')) :
        b ≤ ba ∧ ba < b + (n + 1) ∧ s'.nand.chip.marked b = false ∧
          ∃ bytes, s'.nand.chip.page b 0 = .ok bytes ∧ bytes.take signature.length = signature := by
      obtain ⟨hle, hlt, hspec⟩ := ih (by omega) h
      exact ⟨by omega, by omega, hspec⟩
    rw [writeSignatureFrom_succ] at h
    split at h
    · exact hrest h
    · split at h
      · exact hrest h
      · rename_i hmark
        split at h
        · rename_i hwritten
          obtain ⟨hb, rfl⟩ := Prod.mk.inj h
          obtain rfl := Option.some.inj hb
          refine ⟨le_rfl, by omega, ?_, writeSignatureBlock_reads hwritten⟩
          dsimp only
          rw [writeSignatureBlock_marked]
          simpa [checkBadPhysBlock] using hmark
        · exact hrest h

/-- Where the marks of failed blocks take, all blocks above the one written to are marked. -/
theorem writeSignatureFrom_marks {signature : Bytes} {n ba b : Nat} {s s' : State}
    (htakes : ∀ n b, env.mark n b = true) (hn : n ≤ ba)
    (hbad : ∀ b' ≤ ba, s.ni.good b' = true ∨ s.nand.chip.marked b' = true)
    (h : writeSignatureFrom g env signature n ba s = (some b, s')) :
    ∀ b', b < b' → b' ≤ ba → s'.nand.chip.marked b' = true := by
  induction n generalizing ba s with
  | zero => simp [writeSignatureFrom] at h
  | succ n ih =>
    -- block `ba` is marked after its turn, and the turn does nothing to the blocks below
    have hrest (s₁ : State) (hmark : s₁.nand.chip.marked ba = true)
        (hbelow : ∀ b' < ba, s₁.ni.good b' = s.ni.good b' ∧
          s₁.nand.chip.marked b' = s.nand.chip.marked b')
        (h : writeSignatureFrom g env signature n (ba - 1) s₁ = (some b, s')) :
        ∀ b', b < b' → b' ≤ ba → s'.nand.chip.marked b' = true := by
      intro b' hlt hle
      rcases Nat.eq_or_lt_of_le hle with rfl | hb'
      · have hkept := (@writeSignatureFrom_above g env signature n (b' - 1) b' s₁ (by omega)).2
        rw [h] at hkept
        exact hkept.trans hmark
      · refine ih (by omega) (fun b' hb' => ?_) h b' hlt (by omega)
        obtain ⟨hgood, hsame⟩ := hbelow b' (by omega)
        rw [hgood, hsame]
        exact hbad b' (by omega)
    rw [writeSignatureFrom_succ] at h
    split at h
    · rename_i hgood
      refine hrest s ?_ (fun b' _ => ⟨rfl, rfl⟩) h
      rcases hbad ba le_rfl with hg | hm
      · rw [hg] at hgood
        cases hgood
      · exact hm
    · split at h
      · rename_i hmark
        exact hrest (s.setBad ba) hmark (fun b' hb' => ⟨good_setBad_ne (by omega), rfl⟩) h
      · split at h
        · obtain ⟨hb, rfl⟩ := Prod.mk.inj h
          obtain rfl := Option.some.inj hb
          intro b' hlt hle
          omega
        · have hran : Ran (On ba) s.nand (failSignatureBlock g env signature ba s).nand :=
            failSignatureBlock_ran signature ba s
          refine hrest _ (failSignatureBlock_marks htakes)
            (fun b' hb' => ⟨good_setBad_ne (by omega), hran.marked fun op hop => ?_⟩) h
          exact fun hb => hb'.ne (hb.symm.trans hop)

/-! ## Chips that take the signature -/

/-- A chip that erases every block and programs all but some; bad marks do not take. -/
def failingEnv (fails : Nat → Bool) : Env where
  erase _ _ := (false, fun _ => .ok [])
  program _ ba _ data := (fails ba, .ok data)
  mark _ _ := false

section Takes

variable {signature : Bytes} {ba : Nat}

theorem eraseBlockAndCheck_takes (herase : ∀ n b, env.erase n b = (false, fun _ => .ok []))
    (ecc : Bool) (d : Device Page) : (eraseBlockAndCheck g env ecc ba d).1 = true := by
  have hblank : ((.ok [] : Page) != .error .badmsg) = true := by decide
  cases ecc <;>
    simp [eraseBlockAndCheck, erasePhysBlock, tryCount, herase, readPhysPage, Device.run, Op.apply,
      hblank]

theorem writeRepeatedPages_takes
    (hprogram : ∀ n pg data, env.program n ba pg data = (false, .ok data)) (pg n : Nat)
    (d : Device Page) : (writeRepeatedPages g env ba signature pg n d).1 = true := by
  induction n generalizing pg d with
  | zero => rfl
  | succ n ih =>
    simp [writeRepeatedPages, writePhysPage, tryCount, hprogram, readPhysPage, Device.run, Op.apply,
      ih]

theorem writeSignatureBlock_takes (herase : ∀ n b, env.erase n b = (false, fun _ => .ok []))
    (hprogram : ∀ n pg data, env.program n ba pg data = (false, .ok data))
    (hfits : signature.length ≤ g.pgSize) (s : State) :
    (writeSignatureBlock g env signature ba s).1 = true := by
  simp [writeSignatureBlock, eraseBlockAndCheck_takes herase, writeRepeatedData,
    writeRepeatedPages_takes hprogram, Nat.not_lt.mpr hfits]

/-- Marked blocks are gone by. -/
theorem writeSignatureFrom_reaches {n b : Nat} {s : State} (hn : n ≤ ba) (hle : b ≤ ba)
    (hlt : ba < b + n) (hgood : s.ni.good b = true) (hmark : s.nand.chip.marked b = false)
    (habove : ∀ b', b < b' → b' ≤ ba → s.nand.chip.marked b' = true)
    (htakes : ∀ s, (writeSignatureBlock g env signature b s).1 = true) :
    ∃ s', writeSignatureFrom g env signature n ba s = (some b, s') := by
  induction n generalizing ba s with
  | zero => omega
  | succ n ih =>
    rw [writeSignatureFrom_succ]
    rcases Nat.eq_or_lt_of_le hle with rfl | hb
    · simp [hgood, checkBadPhysBlock, hmark, htakes]
    · have hthis : checkBadPhysBlock s.nand.chip ba = true := habove ba hb le_rfl
      rw [if_pos hthis]
      split
      · exact ih (by omega) (by omega) (by omega) hgood hmark fun b' h h' => habove b' h (by omega)
      · refine ih (by omega) (by omega) (by omega) ?_ hmark fun b' h h' => habove b' h (by omega)
        exact (good_setBad_ne (by omega)).trans hgood

theorem writePhysPage_fails (hprogram : ∀ n pg data, env.program n ba pg data = (true, .ok data))
    (pg tries : Nat) (data : Bytes) (d : Device Page) :
    (writePhysPage env ba pg data (tries + 1) d).1 = false ∧
      (writePhysPage env ba pg data (tries + 1) d).2.chip.page ba pg = .ok data := by
  induction tries generalizing d with
  | zero => simp [writePhysPage, hprogram, Device.run, Op.apply]
  | succ tries ih =>
    rw [writePhysPage]
    simp only [hprogram, if_true]
    exact ih _

/-- A block that is not programmed, but left with the signature on its first page. -/
theorem writeSignatureBlock_fails (herase : ∀ n b, env.erase n b = (false, fun _ => .ok []))
    (hprogram : ∀ n pg data, env.program n ba pg data = (true, .ok data))
    (hfits : signature.length ≤ g.pgSize) (s : State) :
    (writeSignatureBlock g env signature ba s).1 = false ∧
      (writeSignatureBlock g env signature ba s).2.chip.page ba 0 =
        .ok (signature ++ replicate (g.pgSize - signature.length) 0xff) := by
  obtain ⟨n, hn⟩ : ∃ n, g.pagesPerBlock = n + 1 :=
    exists_eq_succ_of_ne_zero (Nat.two_pow_pos _).ne'
  unfold writeSignatureBlock writeRepeatedData
  dsimp only
  obtain ⟨hfails, hpage⟩ := writePhysPage_fails hprogram 0 2
    (signature ++ replicate (g.pgSize - signature.length) 0xff)
    (eraseBlockAndCheck g env s.ni.emptyPageEccOk ba s.nand).2
  rw [if_pos (eraseBlockAndCheck_takes herase _ _), if_neg (Nat.not_lt.mpr hfits), hn]
  simp [writeRepeatedPages, tryCount, hfails, hpage]

end Takes

/-! ## The signature is found -/

/-- After a write that went well the search comes to the block written to; both loops end, and
    ask for blocks of the chip only. -/
structure SignatureFound (g : Geometry) (ni : Instance) (envs : Env → Prop) : Prop where
  found : ∀ env, envs env → ∀ nand ba s',
    Ends (writeTurn g env (ni.boundary g) (g.signatureBytes (ni.boundary g)))
      (sub32 g.totalBlks 1, ni.fresh g nand) (some ba, s') →
    Ends (findTurn g (ni.findLimit g) s'.nand.chip) g.totalBlks
      (some (.ofBytes (g.signatureBytes (ni.boundary g)), ba))
  write_within : ∀ env, envs env → ∀ nand ba s',
    Leads (writeTurn g env (ni.boundary g) (g.signatureBytes (ni.boundary g)))
      (sub32 g.totalBlks 1, ni.fresh g nand) (ba, s') → ba > ni.boundary g → ba < g.totalBlks
  write_ends : ∀ env, envs env → ∀ nand, ∃ r,
    Ends (writeTurn g env (ni.boundary g) (g.signatureBytes (ni.boundary g)))
      (sub32 g.totalBlks 1, ni.fresh g nand) r
  find_within : ∀ chip ba, Leads (findTurn g (ni.findLimit g) chip) g.totalBlks ba →
    ba ≥ ni.findLimit g → sub32 ba 1 < g.totalBlks
  find_ends : ∀ chip, ∃ r, Ends (findTurn g (ni.findLimit g) chip) g.totalBlks r

/-- The chips on which the marks of failed blocks take. -/
def Env.Marks (env : Env) : Prop := ∀ n ba, env.mark n ba = true

/-- The limit of the search is a block, and not above the blocks the signature may be in. -/
def Instance.Reaches (g : Geometry) (ni : Instance) : Prop :=
  0 < ni.findLimit g ∧ (ni.findLimit g ≤ ni.boundary g + 2 ∨ g.totalBlks ≤ ni.boundary g + 1)

section Found

variable {ni : Instance} {envs : Env → Prop}

theorem Instance.Reaches.totalBlks_pos (h : ni.Reaches g) : 0 < g.totalBlks := by
  refine Nat.pos_of_ne_zero fun hzero => ?_
  have hlimit := h.1
  unfold findLimit at hlimit
  have hreserved : ¬ 0 > ni.maxReservedBlocks := Nat.not_lt_zero _
  simp [hzero, sub32, hreserved] at hlimit

theorem Instance.Reaches.signatureFound (h : ni.Reaches g)
    (hmarks : ∀ env, envs env → env.Marks ∨ g.totalBlks ≤ ni.boundary g + 2) :
    SignatureFound g ni envs where
  found := by
    intro env henv nand ba s' hends
    have hblk := h.totalBlks_pos
    have hwrite := (writeSignature_ends _ hblk _).unique hends
    unfold writeSignature at hwrite
    have hn : g.totalBlks - 1 - ni.boundary g ≤ g.totalBlks - 1 := by omega
    obtain ⟨hle, hlt, hmark, bytes, hpage, hbytes⟩ := writeSignatureFrom_spec hn hwrite
    rw [(signatureBytes_passes g _).1] at hbytes
    have hlimit : ni.findLimit g ≤ ba + 1 := by
      rcases h.2 with hlimit | hfew <;> omega
    refine findTurn_found (by omega) hlimit (fun b hb hb' => ?_) hmark
      (signatureOfBlock_signature hpage hbytes)
    rcases hmarks env henv with htakes | hfew
    · refine writeSignatureFrom_marks htakes hn (fun b' hb' => ?_) hwrite b hb (by omega)
      rw [fresh_nand]
      cases hm : nand.chip.marked b' with
      | true => exact .inr rfl
      | false => exact .inl (fresh_good (by omega) hm)
    · omega
  write_within := fun env _ nand ba s' hleads _ => writeTurn_within h.totalBlks_pos hleads
  write_ends := fun env _ nand => ⟨_, writeSignature_ends _ h.totalBlks_pos _⟩
  find_within := by
    intro chip ba hleads hge
    have hle := findTurn_within h.1 hleads
    have hlt := g.totalBlks_lt
    have hpos := h.1
    unfold sub32
    omega
  find_ends := fun chip => ⟨_, findSignature_ends h.1 chip⟩

def blankChip (marked : Nat → Bool) : Device Page where
  chip := { page := fun _ _ => .error .io, marked := marked }

theorem signatureOfBlock_blank (marked : Nat → Bool) (ba : Nat) :
    signatureOfBlock g (blankChip marked).chip ba = none := by
  have hread (pg : Nat) :
      readPages g (blankChip marked).chip ba signatureSize pg signatureSize = .error .io := rfl
  unfold signatureOfBlock
  rw [findSome?_eq_none_iff]
  intro pg _
  rw [hread]

theorem SignatureFound.findLimit_pos (h : SignatureFound g ni envs) : 0 < ni.findLimit g := by
  refine Nat.pos_of_ne_zero fun hzero => ?_
  obtain ⟨r, hr⟩ := h.find_ends (blankChip fun _ => false).chip
  rw [hzero] at hr
  exact findTurn_forever (signatureOfBlock_blank _) hr

/-- What is written to a chip is found if a chip can take it. -/
theorem SignatureFound.exists_found (h : SignatureFound g ni envs) (hblk : 0 < g.totalBlks)
    (henv : envs env) {nand : Device Page} {ba : Nat} {s' : State}
    (hwrite : writeSignatureFrom g env (g.signatureBytes (ni.boundary g))
      (g.totalBlks - 1 - ni.boundary g) (g.totalBlks - 1) (ni.fresh g nand) = (some ba, s')) :
    Ends (findTurn g (ni.findLimit g) s'.nand.chip) g.totalBlks
      (some (.ofBytes (g.signatureBytes (ni.boundary g)), ba)) := by
  refine h.found env henv nand ba s' ?_
  have hends := @writeSignature_ends g env (ni.boundary g) (g.signatureBytes (ni.boundary g)) hblk
    (ni.fresh g nand)
  rwa [writeSignature, hwrite] at hends

theorem length_signatureBytes_le (g : Geometry) (start : Nat) :
    (g.signatureBytes start).length ≤ g.pgSize := by
  rw [(signatureBytes_passes g start).1]
  exact le_trans (by decide) (pgSize_ge g)

/-- Only the lowest of the blocks that the signature may be in is not marked. -/
theorem SignatureFound.reaches (h : SignatureFound g ni envs) (hsound : envs soundEnv) :
    ni.Reaches g := by
  refine ⟨h.findLimit_pos, ?_⟩
  by_contra hnot
  obtain ⟨hlimit, hmany⟩ := not_or.mp hnot
  have hlt := g.totalBlks_lt
  have hnand := fresh_nand (g := g) ni (blankChip fun b => decide (ni.boundary g + 2 ≤ b))
  have hgood (b : Nat) (hb : b < g.totalBlks) (hle : b ≤ ni.boundary g + 1) :
      (ni.fresh g (blankChip fun b => decide (ni.boundary g + 2 ≤ b))).ni.good b = true := by
    refine fresh_good hb ?_
    simp [blankChip]
    omega
  have hmarked (b : Nat) : (ni.fresh g (blankChip fun b => decide
      (ni.boundary g + 2 ≤ b))).nand.chip.marked b = decide (ni.boundary g + 2 ≤ b) := by
    rw [hnand]
    rfl
  obtain ⟨s', hwrite⟩ : ∃ s', writeSignatureFrom g soundEnv (g.signatureBytes (ni.boundary g))
      (g.totalBlks - 1 - ni.boundary g) (g.totalBlks - 1)
      (ni.fresh g (blankChip fun b => decide (ni.boundary g + 2 ≤ b))) =
        (some (ni.boundary g + 1), s') := by
    refine writeSignatureFrom_reaches (by omega) (by omega) (by omega)
      (hgood _ (by omega) le_rfl) (by simp [hmarked]) (fun b hb hb' => ?_) ?_
    · rw [hmarked, decide_eq_true_iff]
      omega
    · exact writeSignatureBlock_takes (fun _ _ => rfl) (fun _ _ _ => rfl)
        (length_signatureBytes_le g _)
  have hfound := h.exists_found (by omega) hsound hwrite
  have habove := writeSignatureFrom_marks (fun _ _ => rfl) (by omega) (fun b hb => by
    rcases Nat.lt_or_ge b (ni.boundary g + 2) with hlow | hhigh
    · exact .inl (hgood b (by omega) (by omega))
    · exact .inr ((hmarked b).trans (decide_eq_true hhigh))) hwrite
  have hmissed := @findTurn_missed g (ni.findLimit g) g.totalBlks s'.nand.chip (by omega)
    h.findLimit_pos fun b hb hb' => habove b (by omega) (by omega)
  cases hfound.unique hmissed

theorem failSignatureBlock_lost {signature : Bytes} {ba : Nat} {s : State}
    (hlost : ∀ n b, env.mark n b = false) :
    (failSignatureBlock g env signature ba s).nand.chip =
      (writeSignatureBlock g env signature ba s).2.chip := by
  simp [failSignatureBlock, State.setBad, markPhysBadBlock, Device.run, Op.apply, hlost]

/-- The last block keeps the signature, fails to be programmed and gets no mark. -/
theorem SignatureFound.few (h : SignatureFound g ni envs) (hall : ∀ env, envs env) :
    g.totalBlks ≤ ni.boundary g + 2 := by
  by_contra hmany
  have hlt := g.totalBlks_lt
  have hlimit : ni.findLimit g ≤ ni.boundary g + 2 := by
    rcases (h.reaches (hall _)).2 with hle | hfew <;> omega
  obtain ⟨top, htop⟩ : ∃ top, g.totalBlks = top + 2 := ⟨g.totalBlks - 2, by omega⟩
  have hn : g.totalBlks - 1 - ni.boundary g = (top - ni.boundary g) + 1 := by omega
  have hlast : g.totalBlks - 1 = top + 1 := by omega
  have hfits := length_signatureBytes_le g (ni.boundary g)
  obtain ⟨env, henv⟩ : ∃ env, env = failingEnv (· == top + 1) := ⟨_, rfl⟩
  have herase (n b : Nat) : env.erase n b = (false, fun _ => .ok []) := by rw [henv]; rfl
  have hprogram (n b pg : Nat) (data : Bytes) :
      env.program n b pg data = (b == top + 1, .ok data) := by rw [henv]; rfl
  have hlost (n b : Nat) : env.mark n b = false := by rw [henv]; rfl
  obtain ⟨s, hs⟩ : ∃ s, s = ni.fresh g (blankChip fun _ => false) := ⟨_, rfl⟩
  have hmark (b : Nat) : s.nand.chip.marked b = false := by rw [hs, fresh_nand]; rfl
  have hgood (b : Nat) (hb : b < g.totalBlks) : s.ni.good b = true := by
    rw [hs]
    exact fresh_good hb rfl
  obtain ⟨hfails, hpage⟩ := @writeSignatureBlock_fails g env (g.signatureBytes (ni.boundary g))
    (top + 1) herase (fun n pg data => by simp [hprogram]) hfits s
  rw [← failSignatureBlock_lost hlost] at hpage
  have hmark' (b : Nat) : (failSignatureBlock g env (g.signatureBytes (ni.boundary g)) (top + 1)
      s).nand.chip.marked b = false := by
    rw [failSignatureBlock_lost hlost, writeSignatureBlock_marked, hmark]
  obtain ⟨s', hrest⟩ : ∃ s', writeSignatureFrom g env (g.signatureBytes (ni.boundary g))
      (top - ni.boundary g) top
      (failSignatureBlock g env (g.signatureBytes (ni.boundary g)) (top + 1) s) =
        (some top, s') := by
    refine writeSignatureFrom_reaches (by omega) le_rfl (by omega) ?_ (hmark' top)
      (fun b hb hb' => by omega) ?_
    · exact (good_setBad_ne (by omega)).trans (hgood top (by omega))
    · exact writeSignatureBlock_takes herase (fun n pg data => by simp [hprogram]) hfits
  have hwrite : writeSignatureFrom g env (g.signatureBytes (ni.boundary g))
      (g.totalBlks - 1 - ni.boundary g) (g.totalBlks - 1) s = (some top, s') := by
    rw [hn, hlast, writeSignatureFrom_succ]
    simp [hgood (top + 1) (by omega), checkBadPhysBlock, hmark, hfails, hrest]
  obtain ⟨hkept, hunmarked⟩ := @writeSignatureFrom_above g env (g.signatureBytes (ni.boundary g))
    (top - ni.boundary g) top (top + 1) (failSignatureBlock g env
      (g.signatureBytes (ni.boundary g)) (top + 1) s) (by omega)
  rw [hrest] at hkept hunmarked
  have hfirst : s'.nand.chip.page (top + 1) 0 = .ok (g.signatureBytes (ni.boundary g) ++
      replicate (g.pgSize - (g.signatureBytes (ni.boundary g)).length) 0xff) := by
    rw [hkept, hpage]
  have hlen := (signatureBytes_passes g (ni.boundary g)).1
  have hwrong : Ends (findTurn g (ni.findLimit g) s'.nand.chip) g.totalBlks
      (some (.ofBytes (g.signatureBytes (ni.boundary g)), top + 1)) :=
    findTurn_found (by omega) (by omega) (fun b hb hb' => by omega) (hunmarked.trans (hmark' _))
      (signatureOfBlock_signature hfirst (take_left' hlen))
  rw [hs] at hwrite
  have hright := h.exists_found (by omega) (hall env) hwrite
  have hsame := hright.unique hwrong
  simp at hsame

end Found

/-- The signature is found where it was written, and both loops end inside of the chip, if and
    only if the limit of the search is in reach of the blocks that may hold it; where marks of
    failed blocks may be lost, if besides at most one block may hold it. -/
theorem signature_found_where_written (g : Geometry) (ni : Instance) :
    (SignatureFound g ni Env.Marks ↔ ni.Reaches g) ∧
      (SignatureFound g ni (fun _ => True) ↔
        ni.Reaches g ∧ g.totalBlks ≤ ni.boundary g + 2) := by
  refine ⟨⟨fun h => h.reaches fun _ _ => rfl, fun h => ?_⟩, ⟨fun h => ?_, fun h => ?_⟩⟩
  · exact h.signatureFound fun _ htakes => .inl htakes
  · exact ⟨h.reaches trivial, h.few fun _ => trivial⟩
  · exact h.1.signatureFound fun _ _ => .inr h.2

def fewBlocks : Geometry :=
  { smallGeometry with totalBlks := 8, totalBlks_lt := by decide }

/-- The search of a blank chip of eight blocks never ends. -/
theorem search_of_few_blocks : ¬ SignatureFound fewBlocks {} Env.Marks := by
  intro h
  have hpos := h.findLimit_pos
  revert hpos
  decide

end LibWrt.Nmbm
