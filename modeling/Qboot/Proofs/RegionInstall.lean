import Qboot.Proofs.ReachedUpdate
import Qboot.Proofs.RegionCrc
import Qboot.Proofs.SourceKept
/-!
# Updating a region

`qbt_fw_update` on the FAL and CUSTOM backends while storage does not fail.  Whether it
succeeds is decided by the package, the two sizes and the CRC of what it leaves.
-/

namespace Qboot

open Library Bytes Flash Prog Machine Loop

variable {κ : Type} {backend : TargetId → Backend} {env : Env FlashDev κ} {src dst : Handle}
  {info : FwInfo} {m : Machine FlashDev κ}

/-! ## Storage that receives the image -/

/-- What a region holds behind the header of its package. -/
def bodyIn (r : Region) : List UInt8 :=
  (readCells r.cells srcReadPos (r.size - srcReadPos)).1

theorem readSlice_bodyIn (r : Region) (off : Nat) {len : Nat} (hlen : 0 < len) :
    readSlice (bodyIn r) off len =
      if srcReadPos + off + len ≤ r.size then some (r.read (srcReadPos + off) len) else none := by
  have hbody : (bodyIn r).length = r.size - srcReadPos := (readCells _ _ _).2
  by_cases hfit : srcReadPos + off + len ≤ r.size
  · have hin : off + len ≤ (bodyIn r).length := by omega
    obtain ⟨data, hread, hdata⟩ := readSlice_of_le hin
    rw [if_pos hfit, hread]
    refine congrArg some (Subtype.ext (hdata.trans ?_))
    exact (readCells_inner r.cells srcReadPos (by omega)).symm
  · rw [if_neg hfit, readSlice_eq_none]
    omega

/-- The destination holds `out` over `c`, and the source is as in `d₀`. -/
structure Taking (d₀ : FlashDev) (src dst : TargetId) (c : Region) (out : List UInt8)
    (d : FlashDev) : Prop where
  steady : d.power = .steady
  source : d.region src = d₀.region src
  dest : d.region dst = c.program 0 out

theorem receives_regions {d₀ : FlashDev} {c : Region} {size : Nat}
    (hne : src.target ≠ dst.target) (hsrc : 0 < (d₀.region src.target).size)
    (hsize : size ≤ c.size) (hpos : 0 < c.size) :
    Receives (regionIo backend) src (bodyIn (d₀.region src.target)) dst size
      (Taking d₀ src.target dst.target c) where
  read out d off len hok hlen _ _ := by
    refine ⟨d, ?_, hok⟩
    have hon : d.power ≠ .off := by simp [hok.steady]
    have hrange : (backend src.target).InRange (d₀.region src.target).size (srcReadPos + off) len ↔
        srcReadPos + off + len ≤ (d₀.region src.target).size := Backend.inRange_iff hsrc hlen
    rw [readSlice_bodyIn _ off hlen]
    simp only [regionIo, hok.source, hon, hrange, ne_eq, not_false_eq_true, true_and]
  write out d data hok _ hfit := by
    have hdest : d.region dst.target = c.program 0 out := hok.dest
    have hroom : out.length + data.length ≤ (d.region dst.target).size := by
      rw [hdest, c.size_program]
      omega
    have hrange : (backend dst.target).InRange (d.region dst.target).size out.length data.length :=
      Backend.inRange_of_le (by rwa [hdest, c.size_program]) hroom
    refine ⟨_, regionIo_write hok.steady hrange, hok.steady, ?_, ?_⟩
    · rw [FlashDev.setRegion_other _ _ hne]
      exact hok.source
    · rw [FlashDev.setRegion_same, hdest]
      have hall := overwrite_append c.cells 0 out data
      rw [Nat.zero_add] at hall
      exact Region.ext rfl rfl hall

/-! ## The release -/

abbrev tailAddr (size : Nat) : Nat := u32Sub size srcReadPos

/-- The destination has room for the image and for its header. -/
def HasRoom (r : Region) (info : FwInfo) : Prop :=
  info.rawSize.toNat ≤ r.size ∧ tailAddr r.size + srcReadPos ≤ r.size

instance (r : Region) (info : FwInfo) : Decidable (HasRoom r info) :=
  inferInstanceAs (Decidable (_ ∧ _))

def erasedFor (r : Region) (info : FwInfo) : Region :=
  (r.erase 0 info.rawSize.toNat).erase (tailAddr r.size) srcReadPos

@[simp] theorem size_erasedFor (r : Region) (info : FwInfo) : (erasedFor r info).size = r.size :=
  (Region.size_erase _ _ _).trans (Region.size_erase _ _ _)

def installed (r : Region) (info : FwInfo) (image : List UInt8) : Region :=
  ((erasedFor r info).program 0 image).program (tailAddr r.size) info.toBytes

section Release

variable (backend) (hpower : m.dev.power = .steady) (hne : src.target ≠ dst.target)
  (hsrc : 0 < (m.dev.region src.target).size) (hdst : 0 < (m.dev.region dst.target).size)

include hpower hdst in
/-- Where there is room, the places of the image and of its header are erased. -/
theorem erases_regions (env : Env FlashDev κ) (hne : src.target ≠ dst.target)
    (hroom : HasRoom (m.dev.region dst.target) info) :
    ∃ m₁ m₂, eraseWithFeed (regionEnv backend env).io dst 0 info.rawSize.toNat m = (true, m₁) ∧
      eraseWithFeed (regionEnv backend env).io dst (tailAddr (m.dev.region dst.target).size)
        srcReadPos m₁ = (true, m₂) ∧ m₂.mem = m.mem ∧
      Taking m.dev src.target dst.target (erasedFor (m.dev.region dst.target) info) [] m₂.dev := by
  obtain ⟨hraw, htail⟩ := hroom
  generalize hr : m.dev.region dst.target = r at hdst hraw htail ⊢
  have herase₁ : eraseWithFeed (regionEnv backend env).io dst 0 info.rawSize.toNat m = _ :=
    eraseWithFeed_steady hpower ⟨by rwa [hr], by rw [hr]; omega⟩
  rw [hr] at herase₁
  generalize hm₁ : m.storing dst.target (r.erase 0 info.rawSize.toNat)
    [.erased dst.target 0 info.rawSize.toNat true] = m₁ at herase₁
  have hregion₁ : m₁.dev.region dst.target = r.erase 0 info.rawSize.toNat := by
    rw [← hm₁, Machine.storing_same]
  have hpower₁ : m₁.dev.power = .steady := by rwa [← hm₁]
  have herase₂ : eraseWithFeed (regionEnv backend env).io dst (tailAddr r.size) srcReadPos m₁ =
      _ := eraseWithFeed_steady hpower₁ ⟨by rwa [hregion₁], by rwa [hregion₁]⟩
  rw [hregion₁] at herase₂
  refine ⟨m₁, _, herase₁, herase₂, by rw [← hm₁]; rfl, hpower₁, ?_, ?_⟩
  · rw [Machine.storing_other m₁ _ _ hne, ← hm₁]
    exact Machine.storing_other m _ _ hne
  · rw [Machine.storing_same]
    exact Region.ext rfl rfl (overwrite_nil (erasedFor r info).cells 0).symm

include hpower hdst in
theorem streamRelease_noRoom (env : Env FlashDev κ) (algo : AlgoContext κ)
    (hno : ¬HasRoom (m.dev.region dst.target) info) :
    (streamRelease (regionEnv backend env) dst (m.dev.region dst.target).size src info algo
      m).1 = false := by
  generalize hr : m.dev.region dst.target = r at hdst hno ⊢
  by_cases hraw : info.rawSize.toNat ≤ r.size
  swap
  · have herase : eraseWithFeed (regionEnv backend env).io dst 0 info.rawSize.toNat m = _ :=
      eraseWithFeed_outside (by omega) (by rw [hr]; omega)
    simp only [streamRelease, run_bind, herase, Bool.false_eq_true, if_false, run_pure]
  have htail : ¬tailAddr r.size + srcReadPos ≤ r.size := fun htail => hno ⟨hraw, htail⟩
  have herase₁ : eraseWithFeed (regionEnv backend env).io dst 0 info.rawSize.toNat m = _ :=
    eraseWithFeed_steady hpower ⟨by rwa [hr], by rw [hr]; omega⟩
  generalize hm₁ : m.storing dst.target _ _ = m₁ at herase₁
  have hregion₁ : m₁.dev.region dst.target = r.erase 0 info.rawSize.toNat := by
    rw [← hm₁, Machine.storing_same, hr]
  have herase₂ : eraseWithFeed (regionEnv backend env).io dst (tailAddr r.size) srcReadPos m₁ =
      _ := eraseWithFeed_outside (by decide) (by rw [hregion₁, Region.size_erase]; omega)
  simp only [streamRelease, run_bind, herase₁, herase₂, if_true, Bool.false_eq_true, if_false,
    run_pure]

include hpower hne hsrc hdst

theorem streamRelease_regions (env : Env FlashDev κ) (info : FwInfo) (algo : AlgoContext κ) :
    ∃ ok m' out, streamRelease (regionEnv backend env) dst (m.dev.region dst.target).size src
        info algo m = (ok, m') ∧
      (ok = true ↔ HasRoom (m.dev.region dst.target) info ∧ ∃ image,
        unpack env.build env.crc algo info src dst (bodyIn (m.dev.region src.target)) m.mem =
          some image) ∧
      (ok = true → unpack env.build env.crc algo info src dst
          (bodyIn (m.dev.region src.target)) m.mem = some out ∧
        out.length = info.rawSize.toNat ∧
        Taking m.dev src.target dst.target (erasedFor (m.dev.region dst.target) info) out
          m'.dev) := by
  by_cases hroom : HasRoom (m.dev.region dst.target) info
  swap
  · have hfail : (streamRelease (regionEnv backend env) dst (m.dev.region dst.target).size src
        info algo m).1 = false := streamRelease_noRoom backend hpower hdst env algo hroom
    exact ⟨false, _, [], Prod.ext hfail rfl,
      iff_of_false Bool.false_ne_true fun h => hroom h.1, (absurd · Bool.false_ne_true)⟩
  obtain ⟨m₁, m₂, herase₁, herase₂, hmem₂, hstart⟩ :=
    erases_regions backend hpower hdst env hne hroom
  have hio : Receives (regionIo backend) src (bodyIn (m.dev.region src.target)) dst
      info.rawSize.toNat (Taking m.dev src.target dst.target
        (erasedFor (m.dev.region dst.target) info)) := by
    refine receives_regions hne hsrc ?_ ?_
    · rw [size_erasedFor]
      exact hroom.1
    · rwa [size_erasedFor]
  obtain ⟨ok, pc, m₃, out, hrun, htaking, hunpack, hlen⟩ :=
    fwStreamProcess_receives env.build env.crc algo hio hstart
  rw [hmem₂] at hunpack
  have hrun : fwStreamProcess (regionEnv backend env).toPlatform info src algo
      (.write ⟨dst, 0, info.rawSize.toNat⟩) m₂ = ((ok, pc), m₃) := hrun
  refine ⟨ok, (fwAlgoDeinit algo m₃).2, out, ?_, ?_, ?_⟩
  · simp only [streamRelease, run_bind, herase₁, herase₂, hrun, if_true, run_pure]
  · cases ok with
    | true => exact iff_of_true rfl ⟨hroom, out, hunpack⟩
    | false => exact iff_of_false Bool.false_ne_true fun h => by simp [hunpack] at h
  · rintro rfl
    rw [fwAlgoDeinit_dev]
    exact ⟨hunpack, hlen rfl, htaking⟩

end Release

/-! ## The verification -/

structure ReadTo (m₀ : Machine FlashDev κ) (size : Nat) (c : Nat × UInt32)
    (m : Machine FlashDev κ) : Prop where
  dev : m.dev = m₀.dev
  bound : c.1 ≤ size
  first : c.1 = 0 ∨ c.1 = size ∨ size < 2 ^ 31

theorem crcCheckRound_reads {h : Handle} {m₀ : Machine FlashDev κ} {size : Nat}
    (hpower : m₀.dev.power = .steady) (hpos : 0 < (m₀.dev.region h.target).size)
    (hsize : size < 2 ^ 32) (hin : size ≤ (m₀.dev.region h.target).size) (c : Nat × UInt32)
    (m : Machine FlashDev κ) (hI : ReadTo m₀ size c m) :
    Ends (ReadTo m₀ size) (fun c => size - c.1) (fun r _ => r.isSome = true) (size - c.1)
      (crcCheckRound (regionEnv backend env) h 0 size c m) := by
  obtain ⟨pos, acc⟩ := c
  have hbound : pos ≤ size := hI.bound
  have hfirst : pos = 0 ∨ pos = size ∨ size < 2 ^ 31 := hI.first
  unfold crcCheckRound
  by_cases hdone : size ≤ pos
  · rw [if_pos hdone]
    rfl
  rw [if_neg hdone]
  generalize hlen : sizeT (min bufSize (i32 (size - pos))) = n
  have hfirst : pos = 0 ∨ size < 2 ^ 31 :=
    hfirst.imp_right fun h => h.resolve_left (by omega)
  obtain ⟨hn, hle, hlast⟩ := crcReadLen_spec (by omega) hsize hfirst hlen
  have hat : u32 (0 + pos) = pos := by
    rw [Nat.zero_add]
    exact Nat.mod_eq_of_lt (by omega)
  have hnext : u32 (pos + n) = pos + n := Nat.mod_eq_of_lt (by omega)
  have hread : ioRead (regionEnv backend env).io h pos n m = _ :=
    ioRead_steady (by rwa [hI.dev]) ⟨by rwa [hI.dev], by rw [hI.dev]; omega⟩
  simp only [hat, hnext, run_bind, hread]
  refine ⟨⟨hI.dev, hle, .inr hlast⟩, ?_⟩
  show size - (pos + n) < size - pos
  omega

theorem fwCrcCheck_steady {h : Handle} {size : Nat} (hpower : m.dev.power = .steady)
    (hpos : 0 < (m.dev.region h.target).size) (hsize : size < 2 ^ 32)
    (hin : size ≤ (m.dev.region h.target).size) (crc : UInt32) :
    (fwCrcCheck (regionEnv backend env) h 0 size crc m).1 = true ↔
      env.crc.whole (readCells (m.dev.region h.target).cells 0 size).1 = crc := by
  have hstart : ReadTo m size (0, 0xFFFFFFFF) m := ⟨rfl, Nat.zero_le _, .inl rfl⟩
  obtain ⟨r, m', hrun, hsome⟩ := iterate_rule
    (@crcCheckRound_reads _ backend env h m size hpower hpos hsize hin) hstart
    (Nat.lt_succ_self _)
  obtain ⟨acc, rfl⟩ := Option.isSome_iff_exists.mp hsome
  have hrun : iterate (crcCheckRound (regionEnv backend env) h 0 size) (size + 1)
      (0, 0xFFFFFFFF) m = (some (some acc), m') := hrun
  have hanswer (crc : UInt32) : fwCrcCheck (regionEnv backend env) h 0 size crc m =
      (acc ^^^ 0xFFFFFFFF == crc, m') := by
    simp only [fwCrcCheck, run_bind, hrun, run_pure]
    rfl
  have hwhole : env.crc.whole (readCells (m.dev.region h.target).cells 0 size).1 =
      acc ^^^ 0xFFFFFFFF :=
    (fwCrcCheck_spec (regionStable backend (regionEnv backend env)) h (Nat.zero_le _) hsize
      (acc ^^^ 0xFFFFFFFF) m).2 (by
        rw [show (regionStable backend (regionEnv backend env)).toEnv = regionEnv backend env
          from rfl, hanswer]
        exact beq_self_eq_true _)
  rw [hanswer, hwhole, beq_iff_eq]

/-- The region takes the header at its tail, and has the CRC that the header may ask for. -/
def SealedBy (crc : CrcLib) (info : FwInfo) (c : Region) : Prop :=
  tailAddr c.size + srcReadPos ≤ c.size ∧ (info.verifyCrc = true →
    info.rawSize.toNat ≤ c.size ∧ crc.whole (readCells
      (c.program (tailAddr c.size) info.toBytes).cells 0 info.rawSize.toNat).1 = info.rawCrc)

theorem destPartVerify_regions (backend : TargetId → Backend) {c : Region}
    (hpower : m.dev.power = .steady)
    (hdest : m.dev.region dst.target = c.program (tailAddr c.size) info.toBytes)
    (hpos : 0 < c.size) (htail : tailAddr c.size + srcReadPos ≤ c.size)
    (hcheck : fwInfoCheck env.crc info = true) :
    (destPartVerify (regionEnv backend env) dst c.size m).1 = true ↔
      SealedBy env.crc info c := by
  have hsize : (m.dev.region dst.target).size = c.size := by rw [hdest, Region.size_program]
  have hlong : ¬c.size < srcReadPos := by omega
  have hread : ioRead (regionEnv backend env).io dst (u32Sub c.size srcReadPos) srcReadPos m = _ :=
    ioRead_steady hpower ⟨by rwa [hsize], by rwa [hsize]⟩
  have hbytes : (m.dev.region dst.target).read (u32Sub c.size srcReadPos) srcReadPos =
      ⟨info.toBytes, info.length_toBytes⟩ := by
    rw [hdest, Region.read, Region.program, readCells_overwrite_info]
  rw [hbytes] at hread
  generalize hm₁ : m.record [.read dst.target (u32Sub c.size srcReadPos) srcReadPos
    (some info.toBytes)] = m₁ at hread
  have hdev : m₁.dev = m.dev := by rw [← hm₁, Machine.record_dev]
  obtain ⟨m₂, hheader, hinfo, hdev₂⟩ : ∃ m₂, fwInfoRead (regionEnv backend env) dst c.size true m =
      (true, m₂) ∧ m₂.fwInfo = info ∧ m₂.dev = m.dev := by
    refine ⟨{ m₁ with fwInfo := info }, ?_, rfl, hdev⟩
    rw [fwInfoRead_tail, if_neg hlong, run_bind, hread]
    simp only [keepHeader, run_bind, FwInfo.ofBytes_toBytes]
    rfl
  have hpass : ¬(!fwInfoCheck (regionEnv backend env).crc info) = true := by
    rw [show fwInfoCheck (regionEnv backend env).crc info = true from hcheck]
    decide
  simp only [destPartVerify, run_bind, hheader, if_true, run_gets, hinfo]
  rw [if_neg hpass]
  by_cases hverify : info.verifyCrc = true
  swap
  · rw [if_neg hverify]
    exact iff_of_true rfl ⟨htail, fun h => absurd h hverify⟩
  rw [if_pos hverify]
  by_cases hraw : info.rawSize.toNat ≤ c.size
  · have hcrc := @fwCrcCheck_steady _ backend env m₂ dst _ (by rwa [hdev₂])
      (by rwa [hdev₂, hsize]) info.rawSize.toNat_lt (by rwa [hdev₂, hsize]) info.rawCrc
    rw [hdev₂, hdest] at hcrc
    rw [hcrc]
    exact ⟨fun h => ⟨htail, fun _ => ⟨hraw, h⟩⟩, fun h => (h.2 hverify).2⟩
  · refine iff_of_false (fun hok => ?_) fun h => hraw (h.2 hverify).1
    have hinside := fwCrcCheck_inside (Nat.zero_le _) info.rawSize.toNat_lt hok
    rw [hdev₂, hsize] at hinside
    omega

theorem sealAndVerify_regions (backend : TargetId → Backend) {size : Nat}
    (hpower : m.dev.power = .steady) (hsize : (m.dev.region dst.target).size = size)
    (hpos : 0 < size) (hcheck : fwInfoCheck env.crc info = true) :
    (sealAndVerify (regionEnv backend env) dst size info m).1 = true ↔
      SealedBy env.crc info (m.dev.region dst.target) := by
  subst hsize
  by_cases htail : tailAddr (m.dev.region dst.target).size + srcReadPos ≤
    (m.dev.region dst.target).size
  · have hwrite : ioWrite (regionEnv backend env).io dst
        (u32Sub (m.dev.region dst.target).size srcReadPos) info.toBytes m = _ :=
      ioWrite_steady hpower ⟨hpos, by rwa [info.length_toBytes]⟩
    rw [sealAndVerify, run_bind, fwInfoWrite_tail, hwrite, if_pos rfl]
    exact destPartVerify_regions backend hpower (Machine.storing_same _ _ _ _) hpos htail hcheck
  · have hwrite : ioWrite (regionEnv backend env).io dst
        (u32Sub (m.dev.region dst.target).size srcReadPos) info.toBytes m = _ :=
      ioWrite_outside (by rw [info.length_toBytes]; decide) (by rwa [info.length_toBytes, ← not_le])
    rw [sealAndVerify, run_bind, fwInfoWrite_tail, hwrite, if_neg Bool.false_ne_true]
    exact iff_of_false Bool.false_ne_true fun h => htail h.1

/-- The package in `r` installs over `r'`: there is room, it decodes, and what is left has
the CRC that the header may ask for. -/
def InstallsOn (env : Env FlashDev κ) (src dst : Handle) (k : κ) (info : FwInfo)
    (r r' : Region) : Prop :=
  HasRoom r' info ∧ ∃ image, imageOf env info src dst (bodyIn r) k = some image ∧
    (info.verifyCrc = true → env.crc.whole
      (readCells (installed r' info image).cells 0 info.rawSize.toNat).1 = info.rawCrc)

theorem sealedBy_installed {crc : CrcLib} {r : Region} {image : List UInt8}
    (hroom : HasRoom r info) :
    SealedBy crc info ((erasedFor r info).program 0 image) ↔ (info.verifyCrc = true →
      crc.whole (readCells (installed r info image).cells 0 info.rawSize.toNat).1 =
        info.rawCrc) := by
  obtain ⟨hraw, htail⟩ := hroom
  simp only [SealedBy, Region.size_program, size_erasedFor]
  exact ⟨fun h hverify => (h.2 hverify).2, fun h => ⟨htail, fun hverify => ⟨hraw, h hverify⟩⟩⟩

/-- An update with a full image succeeds exactly when the package installs. -/
theorem fwUpdate_regions (backend : TargetId → Backend) (hpower : m.dev.power = .steady)
    (hne : src.target ≠ dst.target)
    (hsrc : 0 < (m.dev.region src.target).size) (hdst : 0 < (m.dev.region dst.target).size)
    (hinfo : m.fwInfo = info) (hcheck : fwInfoCheck env.crc info = true)
    (hstream : Streamed env info) (hready : StagesReady env info m.mem) :
    (fwUpdate (regionEnv backend env) dst (m.dev.region dst.target).size src m).1 = true ↔
      InstallsOn env src dst m.mem info (m.dev.region src.target) (m.dev.region dst.target) := by
  obtain ⟨algo, halgo, hinit⟩ := hready
  have hinit : (fwAlgoInit algo m).1 = true :=
    (stagesReady_iff halgo m).mp ⟨algo, halgo, hinit⟩
  have hdev : (fwAlgoInit algo m).2.dev = m.dev := (fwAlgoInit_mem algo rfl).2.2
  have himage (body : List UInt8) : imageOf env info src dst body m.mem = unpack env.build env.crc
      algo info src dst body (fwAlgoInit algo m).2.mem := by
    rw [imageOf_eq halgo, if_pos hinit]
  have halgo' : fwGetAlgoContext (regionEnv backend env).tables m.fwInfo = some algo := by
    rw [hinfo]
    exact halgo
  obtain ⟨m₁, hinit₁⟩ : ∃ m₁, fwAlgoInit algo m = (true, m₁) := ⟨_, Prod.ext hinit rfl⟩
  rw [hinit₁] at hdev himage
  have hdev : m₁.dev = m.dev := hdev
  rw [fwUpdate_ready halgo' hinit₁, hinfo, run_bind, releaseBody,
    if_neg (by rw [show (regionEnv backend env).build = env.build from rfl, hstream algo halgo]
               decide), finishUpdate_answer, InstallsOn]
  simp only [himage]
  rw [← hdev] at hpower hsrc hdst ⊢
  obtain ⟨ok, m₂, out, hrun, hiff, hdone⟩ :=
    streamRelease_regions backend hpower hne hsrc hdst env info algo
  generalize hr : m₁.dev.region dst.target = r at hdst hrun hiff hdone ⊢
  rw [hrun, Bool.and_eq_true]
  have hseal (htaking : Taking m₁.dev src.target dst.target (erasedFor r info) out m₂.dev)
      (hroom : HasRoom r info) :
      (sealAndVerify (regionEnv backend env) dst r.size info m₂).1 = true ↔ (info.verifyCrc = true →
        env.crc.whole (readCells (installed r info out).cells 0 info.rawSize.toNat).1 =
          info.rawCrc) := by
    have hsize : (m₂.dev.region dst.target).size = r.size := by
      rw [htaking.dest, Region.size_program, size_erasedFor]
    rw [sealAndVerify_regions backend htaking.steady hsize hdst hcheck, htaking.dest,
      sealedBy_installed hroom]
  constructor
  · rintro ⟨rfl, hsealed⟩
    obtain ⟨hunpack, -, htaking⟩ := hdone rfl
    obtain ⟨hroom, -⟩ := hiff.mp rfl
    exact ⟨hroom, out, hunpack, (hseal htaking hroom).mp hsealed⟩
  · rintro ⟨hroom, image, himage, hcrc⟩
    obtain rfl : ok = true := hiff.mpr ⟨hroom, image, himage⟩
    obtain ⟨hunpack, -, htaking⟩ := hdone rfl
    obtain rfl := Option.some.inj (himage.symm.trans hunpack)
    exact ⟨rfl, (hseal htaking hroom).mpr hcrc⟩

end Qboot
