import Qboot.Proofs.Clone
import Qboot.Proofs.ReleasedOnce
/-!
# Source and destination in one target

When the source package stays.  A package that is released, resumed or cloned into its
own target erases itself.
-/

namespace Qboot

open Library Bytes Flash Prog Machine Loop

variable {κ : Type}

/-! ## A sign that stops the release -/

theorem keeps_signed (backend : TargetId → Backend) (env : Env FlashDev κ) {id : TargetId}
    {m : Machine FlashDev κ} (hon : m.dev.power ≠ .off)
    (hsigned : signed backend id m.dev.region = true) :
    PackageKept (regionSeparate backend env).toStableEnv id m
      (releaseFromPart (regionEnv backend env) id true m).2 := by
  have hdecided : KeepsBytes (regionSeparate backend env).toStableEnv id m
        (applied backend env id m).2 ∧
      ∀ src dst, (applied backend env id m).1 ≠ .updated src dst := by
    have hquiet : Quiet (regionSeparate backend env).toStableEnv m
        (checkPackage (regionEnv backend env) id m).2 := quiet_checkPackage backend env id m
    rw [applied_eq]
    rcases hcheck : checkPackage (regionEnv backend env) id m with ⟨_ | src | src, m₁⟩
    all_goals rw [hcheck] at hquiet
    · exact ⟨hquiet.bytes id, fun _ _ hupdated => by cases hupdated⟩
    · exact ⟨hquiet.bytes id, fun _ _ hupdated => by cases hupdated⟩
    obtain ⟨htarget, hdev, hinfo, -, -⟩ := checkPackage_accepted hcheck
    have hrun := run_signed backend env htarget hinfo (congrArg (·.region id) hdev) (by rwa [hdev])
    rw [hsigned] at hrun
    simp only [applyPackage, run_bind, hrun, if_true, run_pure]
    exact ⟨hquiet.bytes id, fun _ _ hupdated => by cases hupdated⟩
  rw [releaseFromPart_run]
  obtain hdev | ⟨src, dst, hupdated, -⟩ := closeRelease_dev backend env id
    (applied backend env id m).1 (applied backend env id m).2
  · have hclosed : KeepsBytes (regionSeparate backend env).toStableEnv id
        (applied backend env id m).2 (closeRelease (regionEnv backend env) id
          (applied backend env id m).1 (applied backend env id m).2).2 :=
      congrArg (fun d : FlashDev => (d.region id).cells) hdev
    exact (trans_of (KeepsBytes _ id) hdecided.1 hclosed).below _
  · exact absurd hupdated (hdecided.2 src dst)

/-! ## Packages that do not survive -/

/-- Plain packages and patches over FAL, with a swap area; every patch fails. -/
def swapEnv : Env FlashDev Unit :=
  { plainEnv.toEnv with
    build := ⟨false, false, false, false, true⟩
    crc := eagerCrcLib
    tables :=
      { cmprs := fun i => if i = 0 then some (noneCmprsOps plainBuild)
          else if i = 4 then some hpatchliteCmprsOps else none
        crypt := fun i => if i = 0 then some (noneCryptOps plainBuild) else none }
    hpatch :=
      { cfg := ⟨true, 0, 4096, 4096, none⟩
        malloc := fun n d => (n != 0, d)
        malloc_zero := granted_zero
        hpiPatch := .done false } }

/-- The header of a one-byte package for `id` and its CRC; the image is not verified. -/
def packageFor (id : TargetId) (algo : UInt16) : FwInfo :=
  { FwInfo.ofBytes (Block.ofList srcReadPos []) with
    type := Block.ofList 4 (ascii "RBL")
    partName := Block.ofList 16 id.roleName
    algo := algo
    pkgSize := 1
    rawSize := 1
    pkgCrc := 1281784366
    hdrCrc :=
      match id, algo with
      | .app, 0 => 4259290348
      | .download, 0 => 4144590912
      | .factory, 0 => 3085126774
      | .swap, 0 => 1057381262
      | .app, _ => 666396671
      | .download, _ => 762219347
      | .factory, _ => 1837414245
      | .swap, _ => 3848380573 }

def holding (id : TargetId) (info : FwInfo) : Machine FlashDev Unit :=
  let package := overwrite (overwrite (fun _ => erasedByte) 0 info.toBytes) srcReadPos [7]
  steadyMachine (fun id' => ⟨1024, 4, if id' = id then package else fun _ => erasedByte⟩) ()

theorem packageOf_holding (id : TargetId) (info : FwInfo) :
    packageOf (holding id info).dev.region id = info := by
  have hcells : ((holding id info).dev.region id).cells = overwrite (overwrite
      (fun _ => erasedByte) 0 info.toBytes) srcReadPos [7] := if_pos rfl
  have hread : readCells ((holding id info).dev.region id).cells 0 srcReadPos =
      ⟨info.toBytes, info.length_toBytes⟩ := by
    rw [hcells, readCells_overwrite_disjoint _ (.inl (by decide))]
    exact readCells_overwrite_info _ 0 info
  rw [packageOf, headerOf, hread, FwInfo.ofBytes_toBytes]

theorem packageFor_named (id : TargetId) (algo : UInt16) :
    nameToId true (packageFor id algo).fromPartName = some id := by
  cases id <;> rfl

theorem packageFor_pkgSize (id : TargetId) (algo : UInt16) :
    (packageFor id algo).pkgSize = 1 := rfl

def ReleaseKeeps (srcId dstId : TargetId) : Prop :=
  ∀ (σ κ : Type) (env : SeparateEnv σ κ) (checkSign : Bool) (m : Machine σ κ),
    env.Addressable m srcId →
    nameToId env.hpatch.cfg.useStorageSwap (env.header m srcId).fromPartName = some dstId →
    PackageKept env.toStableEnv srcId m (releaseFromPart env.toEnv srcId checkSign m).2

def ResumeKeeps (srcId : TargetId) : Prop :=
  ∀ (σ κ : Type) (env : SeparateEnv σ κ) (m : Machine σ κ),
    PackageKept env.toStableEnv srcId m (appResumeFrom env.toEnv srcId m).2

abbrev swapRegions : SeparateEnv FlashDev Unit := regionSeparate (fun _ => .fal) swapEnv

theorem header_holding (id : TargetId) (info : FwInfo) :
    swapRegions.header (holding id info) id = info :=
  packageOf_holding id info

theorem packageEnd_holding (id : TargetId) {info : FwInfo} (hsize : info.pkgSize = 1) :
    swapRegions.packageEnd (holding id info) id = srcReadPos + 1 := by
  rw [StableEnv.packageEnd, header_holding, hsize]
  rfl

theorem addressable_holding (id : TargetId) {info : FwInfo} (hsize : info.pkgSize = 1) :
    swapRegions.Addressable (holding id info) id := by
  rw [SeparateEnv.Addressable, packageEnd_holding id hsize]
  decide

theorem release_loses {srcId dstId : TargetId} (algo : UInt16)
    (hfirst : swapRegions.content (releaseFromPart swapRegions.toEnv srcId true
      (holding srcId (packageFor dstId algo))).2.dev srcId 0 ≠
        swapRegions.content (holding srcId (packageFor dstId algo)).dev srcId 0) :
    ¬ReleaseKeeps srcId dstId := by
  intro hkeeps
  have hkept := hkeeps FlashDev Unit swapRegions true (holding srcId (packageFor dstId algo))
    (addressable_holding srcId (packageFor_pkgSize dstId algo))
    (by rw [header_holding]; exact packageFor_named dstId algo)
  exact hfirst (hkept 0 (Nat.add_pos_left (by decide) _))

theorem release_self (id : TargetId) : ¬ReleaseKeeps id id := by
  apply release_loses 0
  cases id <;> decide +kernel

/-- A patch that is applied through the swap area erases it first. -/
theorem release_fromSwap (dstId : TargetId) : ¬ReleaseKeeps .swap dstId := by
  apply release_loses 0x400
  cases dstId <;> decide +kernel

theorem resume_loses {srcId : TargetId} (algo : UInt16)
    (hfirst : swapRegions.content (appResumeFrom swapRegions.toEnv srcId
      (holding srcId (packageFor .app algo))).2.dev srcId 0 ≠
        swapRegions.content (holding srcId (packageFor .app algo)).dev srcId 0) :
    ¬ResumeKeeps srcId := by
  intro hkeeps
  have hkept := hkeeps FlashDev Unit swapRegions (holding srcId (packageFor .app algo))
  exact hfirst (hkept 0 (Nat.add_pos_left (by decide) _))

/-! ## Which calls keep the source -/

theorem releaseKeeps_iff (srcId dstId : TargetId) :
    ReleaseKeeps srcId dstId ↔ srcId ≠ dstId ∧ srcId ≠ .swap := by
  refine ⟨fun hkeeps => ⟨?_, ?_⟩, ?_⟩
  · rintro rfl
    exact release_self srcId hkeeps
  · rintro rfl
    exact release_fromSwap dstId hkeeps
  · rintro ⟨hne, hswap⟩ σ κ env checkSign m haddr hnamed
    refine keeps_releaseFromPart haddr (fun _ dst hdst => ⟨?_, fun hid => absurd hid hswap⟩)
      checkSign
    rintro rfl
    exact hne (Option.some.inj (hdst.symm.trans hnamed))

theorem resumeKeeps_iff (srcId : TargetId) :
    ResumeKeeps srcId ↔ srcId ≠ .app ∧ srcId ≠ .swap := by
  refine ⟨fun hkeeps => ⟨?_, ?_⟩, ?_⟩
  · rintro rfl
    exact resume_loses 0 (by decide +kernel) hkeeps
  · rintro rfl
    exact resume_loses 0x400 (by decide +kernel) hkeeps
  · rintro ⟨hne, hswap⟩ σ κ env m
    exact keeps_appResumeFrom fun _ _ => ⟨hne.symm, fun hid => absurd hid hswap⟩

/-- Both names do not stand for one target that holds a package. -/
def CloneApart {σ : Type} (env : SeparateEnv σ κ) (src dst : List UInt8) (m : Machine σ κ) :
    Prop :=
  ∀ id, argToId env.toEnv src = some id → argToId env.toEnv dst = some id →
    ¬PackageIn env.toEnv (env.content m.dev id)

/-- The source of a clone has 32-bit addresses. -/
def CloneAddressable {σ : Type} (env : SeparateEnv σ κ) (src : List UInt8) (m : Machine σ κ) :
    Prop :=
  ∀ id, argToId env.toEnv src = some id → env.Addressable m id

/-- Whatever fails, a release, a resume and a clone keep the source package and copy it,
unless they lead back to its own target or apply a patch from the swap area; for each pair
of targets that do so, some package is lost.  On regions that do not fail a clone that
leads back is good only if the package is not accepted, and on files it is always good. -/
theorem sourceKept_iff (srcId dstId : TargetId) :
    (∀ (σ κ : Type) (env : SeparateEnv σ κ) (m : Machine σ κ),
      env.Addressable m srcId → env.ReleaseSpares m srcId → ∀ checkSign,
        PackageKept env.toStableEnv srcId m (releaseFromPart env.toEnv srcId checkSign m).2) ∧
    (∀ (κ : Type) (backend : TargetId → Backend) (env : Env FlashDev κ) (m : Machine FlashDev κ),
      m.dev.power ≠ .off → signed backend srcId m.dev.region = true →
        PackageKept (regionSeparate backend env).toStableEnv srcId m
          (releaseFromPart (regionEnv backend env) srcId true m).2) ∧
    (ReleaseKeeps srcId dstId ↔ srcId ≠ dstId ∧ srcId ≠ .swap) ∧
    (∀ (σ κ : Type) (env : SeparateEnv σ κ) (m : Machine σ κ), env.ResumeSpares m srcId →
      PackageKept env.toStableEnv srcId m (appResumeFrom env.toEnv srcId m).2) ∧
    (ResumeKeeps srcId ↔ srcId ≠ .app ∧ srcId ≠ .swap) ∧
    (∀ (σ κ : Type) (env : SeparateEnv σ κ) (src dst : List UInt8) (m : Machine σ κ),
      CloneAddressable env src m → CloneApart env src dst m → CloneGood env src dst m) ∧
    (∀ (κ : Type) (backend : TargetId → Backend) (env : Env FlashDev κ) (src dst : List UInt8)
      (m : Machine FlashDev κ), CloneAddressable (regionSeparate backend env) src m →
      m.dev.power = .steady → (∀ id, 0 < (m.dev.region id).unit) →
        (CloneGood (regionSeparate backend env) src dst m ↔
          ∀ id, argToId env src = some id → argToId env dst = some id →
            ¬CloneAccepts backend env id m)) ∧
    (∀ (κ : Type) (env : Env FsStorage κ) (src dst : List UInt8) (m : Machine FsStorage κ),
      CloneAddressable (filesSeparate env) src m →
        CloneGood (filesSeparate env) src dst m) :=
  ⟨fun _ _ _ _ haddr hspares => keeps_releaseFromPart haddr hspares,
    fun _ backend env _ => keeps_signed backend env,
    releaseKeeps_iff srcId dstId,
    fun _ _ _ _ => keeps_appResumeFrom,
    resumeKeeps_iff srcId,
    fun _ _ _ _ _ _ => cloneGood_apart,
    fun _ _ _ _ _ _ haddr hpower hunit => cloneGood_regions hpower hunit haddr,
    fun _ _ _ _ _ => cloneGood_files⟩

theorem argToId_download {σ : Type} (env : Env σ κ) :
    argToId env (ascii "download") = some .download := by
  unfold argToId
  cases env.hpatch.cfg.useStorageSwap <;> rfl

/-- A package for APP is kept when it is released from DOWNLOAD, and DOWNLOAD is not cloned
well onto itself there; in a file it is. -/
theorem sourceKept_iff_download :
    PackageKept swapRegions.toStableEnv .download (holding .download (packageFor .app 0))
        (releaseFromPart swapRegions.toEnv .download true
          (holding .download (packageFor .app 0))).2 ∧
      ¬CloneGood swapRegions (ascii "download") (ascii "download")
        (holding .download (packageFor .app 0)) ∧
      CloneGood (filesSeparate fileEnv.toEnv) (ascii "download") (ascii "download")
        fileMachine := by
  obtain ⟨-, -, hrelease, -, -, -, hclone, hfiles⟩ := sourceKept_iff .download .app
  refine ⟨?_, fun hgood => ?_, ?_⟩
  · refine hrelease.mpr ⟨by decide, by decide⟩ FlashDev Unit swapRegions true
      (holding .download (packageFor .app 0)) (addressable_holding .download rfl) ?_
    rw [header_holding]
    exact packageFor_named .app 0
  · have haccepts : CloneAccepts (fun _ => .fal) swapEnv .download
        (holding .download (packageFor .app 0)) := by
      unfold CloneAccepts
      decide +kernel
    refine (hclone Unit (fun _ => .fal) swapEnv (ascii "download") (ascii "download")
      (holding .download (packageFor .app 0)) (fun id hid => ?_) rfl fun _ => Nat.succ_pos 3).mp hgood
      .download (argToId_download _) (argToId_download _) haccepts
    obtain rfl := Option.some.inj ((argToId_download _).symm.trans hid)
    exact addressable_holding .download rfl
  · refine hfiles Unit fileEnv.toEnv (ascii "download") (ascii "download") fileMachine
      fun id hid => ?_
    obtain rfl := Option.some.inj ((argToId_download _).symm.trans hid)
    unfold SeparateEnv.Addressable
    decide +kernel

/-- Cloning DOWNLOAD onto itself reports success and leaves the package erased. -/
theorem selfClone_erases :
    (shellCloneReport swapRegions.toEnv (ascii "download") (ascii "download")
        (holding .download (packageFor .app 0))).1 = true ∧
      ¬PackageKept swapRegions.toStableEnv .download (holding .download (packageFor .app 0))
        (shellClone swapRegions.toEnv (ascii "download") (ascii "download")
          (holding .download (packageFor .app 0))).2 := by
  refine ⟨by decide +kernel, fun hkept => ?_⟩
  exact absurd (hkept 0 (Nat.add_pos_left (by decide) _)) (by decide +kernel)

end Qboot
