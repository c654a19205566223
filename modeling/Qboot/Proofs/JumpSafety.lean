import Qboot.Proofs.PackagedRelease
import Qboot.Proofs.PatchUpdate
import Qboot.Proofs.ReleasedOnce
import Qboot.Proofs.SeparateTargets
/-!
# Jumping behind a release

A boot is safe where its release does not get to APP.  Where it does, with a full image and
storage that does not fail, the boot is safe exactly when the package installs.
-/

namespace Qboot

open Library Bytes Flash Prog Machine

variable {σ κ : Type}

/-! ## The way to the update, step by step -/

section Steps

variable (env : Env σ κ) (srcId dstId : TargetId)

/-- The states on the way from a release to the update of its destination. -/
structure Steps (m : Machine σ κ) (src dst : Handle) (size dstSize : Nat)
    (m₁ m₂ m₃ m' : Machine σ κ) : Prop where
  source : targetOpen env.io srcId .read (emit (.releaseStart srcId true) m).2 =
    ((some src, some size), m₁)
  checked : fwCheck env src size m₁ = (true, m₂)
  product : m₂.fwInfo.ForProduct env
  unsigned : releaseSignCheck env src m₂ = (false, m₃)
  named : nameToId env.hpatch.cfg.useStorageSwap m₂.fwInfo.fromPartName = some dstId
  opened : targetOpen env.io dstId .writeCreate m₃ = ((some dst, some dstSize), m')

variable {env srcId dstId} {m m₁ m₂ m₃ m' : Machine σ κ} {src dst : Handle} {size dstSize : Nat}

theorem Steps.reaches (h : Steps env srcId dstId m src dst size dstSize m₁ m₂ m₃ m') :
    Reaches env srcId dstId m src dst dstSize m' := by
  obtain ⟨ok, hproduct, hproductIff⟩ := productCodeOk_run env m₂
  obtain rfl : ok = true := hproductIff.mpr h.product
  have hcheck : checkPackage env srcId m = (.accepted src, m₂) := by
    simp only [checkPackage, run_bind, h.source, h.checked, hproduct, if_true, run_pure]
  have hinfo : m₃.fwInfo = m₂.fwInfo := congrArg (·.2.fwInfo) h.unsigned.symm
  refine ⟨by rw [hcheck], by rw [hcheck, h.unsigned], ?_, by rw [hcheck, h.unsigned, h.opened]⟩
  rw [hcheck, h.unsigned, hinfo, h.named]

theorem Reaches.steps (h : Reaches env srcId dstId m src dst dstSize m') :
    ∃ size m₁ m₂ m₃, Steps env srcId dstId m src dst size dstSize m₁ m₂ m₃ m' := by
  obtain ⟨haccepted, hunsigned, hnamed, hopened⟩ := h
  rcases hsource : targetOpen env.io srcId .read (emit (.releaseStart srcId true) m).2
    with ⟨⟨_ | src', _ | size⟩, m₁⟩
  all_goals
    simp only [checkPackage, run_bind, hsource] at haccepted hunsigned hnamed hopened
  · cases haccepted
  · cases haccepted
  · cases haccepted
  rcases hchecked : fwCheck env src' size m₁ with ⟨_ | _, m₂⟩
  all_goals
    simp only [run_bind, hchecked, Bool.false_eq_true, if_false, if_true]
      at haccepted hunsigned hnamed hopened
  · cases haccepted
  obtain ⟨ok, hproduct, hproductIff⟩ := productCodeOk_run env m₂
  simp only [hproduct] at haccepted hunsigned hnamed hopened
  cases ok with
  | false => cases haccepted
  | true =>
  cases haccepted
  refine ⟨size, m₁, m₂, (releaseSignCheck env src m₂).2, hsource, hchecked, hproductIff.mp rfl,
    Prod.ext hunsigned rfl, hnamed, hopened⟩

theorem Steps.info (h : Steps env srcId dstId m src dst size dstSize m₁ m₂ m₃ m') :
    m'.fwInfo = m₂.fwInfo := by
  have hinfo : m₃.fwInfo = m₂.fwInfo := congrArg (·.2.fwInfo) h.unsigned.symm
  have hopen := sameInfo_targetOpen env.io dstId .writeCreate m₃
  rw [h.opened] at hopen
  exact Eq.trans hopen hinfo

end Steps

/-! ## The boot and its release -/

section Boot

variable {env : Env σ κ} {inp : BootInputs σ} {m : Machine σ κ}

/-- If the boot gets to its release of DOWNLOAD, it is in a state with property `P`. -/
def AtRelease (env : Env σ κ) (inp : BootInputs σ) (m : Machine σ κ)
    (P : Machine σ κ → Prop) : Prop :=
  (arrives env inp m).1 = true → P (arrives env inp m).2

theorem AtRelease.jumps_iff {P : Machine σ κ → Prop}
    (h : AtRelease env inp m fun m => ReleaseKeepsApp env m ↔ P m) :
    Traced m (threadEntry env inp m).2 JumpsSafely ↔ AtRelease env inp m P :=
  (jumpsSafely_iff_release env inp m).trans (forall_congr' h)

theorem AtRelease.jumps (h : AtRelease env inp m (ReleaseKeepsApp env)) :
    Traced m (threadEntry env inp m).2 JumpsSafely :=
  (jumpsSafely_iff_release env inp m).mpr h

end Boot

/-! ## Without a package for APP -/

/-- A target holds a package for this product and for `dst`. -/
def StableEnv.OffersTo (env : StableEnv σ κ) (m : Machine σ κ) (id dst : TargetId) : Prop :=
  env.Offers m id ∧
    nameToId env.hpatch.cfg.useStorageSwap (env.header m id).fromPartName = some dst

/-- Only such a package gets to the update of `dst`, whatever storage does. -/
theorem Reaches.offers {env : StableEnv σ κ} {srcId dstId : TargetId} {m m' : Machine σ κ}
    {src dst : Handle} {dstSize : Nat}
    (h : Reaches env.toEnv srcId dstId m src dst dstSize m') :
    env.OffersTo m srcId dstId ∧ m'.fwInfo = env.header m srcId := by
  obtain ⟨size, m₁, m₂, m₃, hsteps⟩ := h.steps
  have hstart : Quiet env m (emit (.releaseStart srcId true) m).2 := quiet_emit rfl m
  have hopen := hstart.trans (quiet_targetOpen srcId .read nofun _)
  have htarget := targetOpen_target env.io srcId .read (emit (.releaseStart srcId true) m).2
  rw [hsteps.source] at hopen htarget
  have hfound := @offered_of_check _ _ env m₁ srcId src size m (htarget src rfl) hopen
  rw [hsteps.checked] at hfound
  obtain ⟨hpackage, hinfo⟩ := hfound rfl
  have hinfo : m₂.fwInfo = env.header m srcId := hinfo
  have hproduct := hsteps.product
  have hnamed := hsteps.named
  rw [hinfo] at hproduct hnamed
  exact ⟨⟨⟨hpackage, hproduct⟩, hnamed⟩, hsteps.info.trans hinfo⟩

/-- DOWNLOAD holds no package for APP, or one for which there are no stages. -/
def StableEnv.NothingForApp (env : StableEnv σ κ) (m : Machine σ κ) : Prop :=
  env.OffersTo m .download .app → ∀ k, ¬StagesReady env.toEnv (env.header m .download) k

theorem keepsApp_of_nothing {env : StableEnv σ κ} {m : Machine σ κ}
    (hnothing : env.NothingForApp m) : ReleaseKeepsApp env.toEnv m := by
  by_cases hreach : ∃ src dst dstSize m', Reaches env.toEnv .download .app m src dst dstSize m'
  · obtain ⟨src, dst, dstSize, m', h⟩ := hreach
    obtain ⟨hoffers, hinfo⟩ := h.offers
    exact h.keepsApp_of_unready (hinfo ▸ hnothing hoffers m'.mem)
  · exact releaseKeepsApp_of_untouched
      (untouched_of_not_reaches nofun fun _ _ _ _ h => hreach ⟨_, _, _, _, h⟩)

/-! ## Regions -/

section Regions

variable {κ : Type} {backend : TargetId → Backend} {env : Env FlashDev κ}
  {m m' : Machine FlashDev κ} {src dst : Handle} {dstSize : Nat}

/-- A release that starts from `m` has opened DOWNLOAD. -/
def downloadOpened (m : Machine FlashDev κ) : Machine FlashDev κ :=
  m.record [.releaseStart .download true, .opened .download true]

/-- DOWNLOAD holds a package for APP that is still to be released. -/
structure DueForApp (backend : TargetId → Backend) (env : Env FlashDev κ)
    (m : Machine FlashDev κ) : Prop where
  accepted : (fwCheck (regionEnv backend env) ⟨.download, 0⟩ (m.dev.region .download).size
    (downloadOpened m)).1 = true
  product : (packageOf m.dev.region .download).ForProduct env
  unsigned : signed backend .download m.dev.region = false
  named : nameToId env.hpatch.cfg.useStorageSwap
    (packageOf m.dev.region .download).fromPartName = some .app
  app : (m.dev.region .app).size ≠ 0

theorem open_download (backend : TargetId → Backend) (m : Machine FlashDev κ) :
    targetOpen (regionIo backend) .download .read (emit (.releaseStart .download true) m).2 =
      if (m.dev.region .download).size = 0 then
        ((none, none), m.record [.releaseStart .download true, .opened .download false])
      else ((some ⟨.download, 0⟩, some (m.dev.region .download).size), downloadOpened m) := by
  have hrecord (e : Event) : { m with log := m.log ++ [.releaseStart .download true] ++ [e] } =
      m.record [.releaseStart .download true, e] :=
    congrArg (fun log => { m with log := log }) (List.append_assoc ..)
  rw [run_targetOpen]
  exact if_congr Iff.rfl (congrArg (Prod.mk _) (hrecord _)) (congrArg (Prod.mk _) (hrecord _))

theorem DueForApp.reaches (h : DueForApp backend env m) (hon : m.dev.power ≠ .off) :
    ∃ src dst dstSize m', Reaches (regionEnv backend env) .download .app m src dst dstSize m' := by
  obtain ⟨hdev, hinfo, -, hinside⟩ := fwCheck_accepts _ h.accepted
  have hsize : (m.dev.region .download).size ≠ 0 := by
    have hpos : 0 < packageEnd m.dev.region .download := Nat.add_pos_left (by decide) _
    exact Nat.ne_of_gt (hpos.trans_le hinside)
  rcases hchecked : fwCheck (regionEnv backend env) ⟨.download, 0⟩ (m.dev.region .download).size
    (downloadOpened m) with ⟨ok, m₂⟩
  have haccepted := h.accepted
  rw [hchecked] at hdev hinfo haccepted
  obtain rfl : ok = true := haccepted
  have hdev : m₂.dev = m.dev := hdev
  have hinfo : m₂.fwInfo = packageOf m.dev.region .download := hinfo
  have hsign : releaseSignCheck (regionEnv backend env) ⟨.download, 0⟩ m₂ = (false, m₂) := by
    rw [run_signed backend env rfl hinfo (by rw [hdev]) (by rwa [hdev]), h.unsigned]
  have hopen : targetOpen (regionIo backend) .app .writeCreate m₂ = _ :=
    run_targetOpen backend .app .writeCreate m₂
  rw [hdev, if_neg h.app] at hopen
  have hsource := open_download backend m
  rw [if_neg hsize] at hsource
  have hsteps : Steps (regionEnv backend env) .download .app m ⟨.download, 0⟩ ⟨.app, 0⟩ _ _ _ m₂
      m₂ _ := ⟨hsource, hchecked, hinfo ▸ h.product, hsign, hinfo ▸ h.named, hopen⟩
  exact ⟨_, _, _, _, hsteps.reaches⟩

def updateStart (backend : TargetId → Backend) (env : Env FlashDev κ) (m : Machine FlashDev κ) :
    Machine FlashDev κ :=
  (fwCheck (regionEnv backend env) ⟨.download, 0⟩ (m.dev.region .download).size
    (downloadOpened m)).2.record [.opened .app true]

/-- What is known where a release of DOWNLOAD has got to APP. -/
structure AtApp (backend : TargetId → Backend) (env : Env FlashDev κ)
    (m : Machine FlashDev κ) (src dst : Handle) (dstSize : Nat) (m' : Machine FlashDev κ) :
    Prop where
  due : DueForApp backend env m
  source : src = ⟨.download, 0⟩
  dest : dst = ⟨.app, 0⟩
  size : dstSize = (m.dev.region .app).size
  start : m' = updateStart backend env m
  dev : m'.dev = m.dev
  info : m'.fwInfo = packageOf m.dev.region .download
  check : fwInfoCheck env.crc (packageOf m.dev.region .download) = true
  nonempty : 0 < (m.dev.region .download).size

theorem Reaches.atApp (hon : m.dev.power ≠ .off)
    (h : Reaches (regionEnv backend env) .download .app m src dst dstSize m') :
    AtApp backend env m src dst dstSize m' := by
  obtain ⟨size, m₁, m₂, m₃, hsteps⟩ := h.steps
  have hinfo' := hsteps.info
  obtain ⟨hsource, hchecked, hproduct, hunsigned, hnamed, hopened⟩ := hsteps
  rw [show targetOpen (regionEnv backend env).io .download .read _ = _ from
    open_download backend m] at hsource
  by_cases hsize : (m.dev.region .download).size = 0
  · rw [if_pos hsize] at hsource
    cases hsource
  rw [if_neg hsize] at hsource
  cases hsource
  have haccepts := @fwCheck_accepts _ backend env ⟨.download, 0⟩ (downloadOpened m)
    (m.dev.region .download).size
  rw [hchecked] at haccepts
  obtain ⟨hdev, hinfo, hheader, -⟩ := haccepts rfl
  have hdev : m₂.dev = m.dev := hdev
  have hinfo : m₂.fwInfo = packageOf m.dev.region .download := hinfo
  rw [run_signed backend env rfl hinfo (by rw [hdev]) (by rwa [hdev])] at hunsigned
  obtain ⟨hsign, rfl⟩ := Prod.mk.inj hunsigned
  rw [show targetOpen (regionEnv backend env).io .app .writeCreate m₂ = _ from
    run_targetOpen backend .app .writeCreate m₂] at hopened
  by_cases happ : (m₂.dev.region .app).size = 0
  · rw [if_pos happ] at hopened
    cases hopened
  rw [if_neg happ] at hopened
  cases hopened
  rw [hinfo] at hproduct hnamed
  rw [hdev] at happ
  exact ⟨⟨by rw [hchecked], hproduct, hsign, hnamed, happ⟩, rfl, rfl, by rw [hdev],
    by rw [updateStart, hchecked]; rfl, hdev, hinfo'.trans hinfo, hheader,
    Nat.pos_of_ne_zero hsize⟩

end Regions

section Stages

variable {Z Q A : Type} {vendor : Vendor Z Q A}

theorem stagesReady_mem {env : Env σ (CodecMem Z Q A)}
    (htables : env.tables = startupTables env.build vendor) (info : FwInfo)
    (k k' : CodecMem Z Q A) : StagesReady env info k ↔ StagesReady env info k' := by
  refine exists_congr fun algo => and_congr_right fun halgo => ?_
  obtain ⟨c, d, rfl, -⟩ := fwGetAlgoContext_startup (htables ▸ halgo)
  rw [(fwAlgoInit_sameStages env.build vendor c d (⟨(), k, info, []⟩ : Machine Unit _)
    ⟨(), k', info, []⟩).1]

variable {backend : TargetId → Backend} {env : Env FlashDev (CodecMem Z Q A)}
  {m : Machine FlashDev (CodecMem Z Q A)}

/-- Applying the patch in DOWNLOAD leaves APP alone, or what it leaves in APP takes the
header.  Which of them it does the vendor's library decides. -/
def PatchFits {κ : Type} (backend : TargetId → Backend) (env : Env FlashDev κ)
    (m : Machine FlashDev κ) : Prop :=
  ∀ algo m₁ ok m₂, PatchReady (regionEnv backend env) (packageOf m.dev.region .download) algo
      (updateStart backend env m) m₁ →
    patchOf (regionEnv backend env) ⟨.app, 0⟩ ⟨.download, 0⟩ (packageOf m.dev.region .download) m₁ =
      (ok, m₂) →
    if ok then SealedBy env.crc (packageOf m.dev.region .download) (m₂.dev.region .app)
    else Untouched .app m₁ m₂

/-- The package in DOWNLOAD, if it is due for APP and its stages can be set up, installs. -/
structure InstallsIfDue {κ : Type} (backend : TargetId → Backend) (env : Env FlashDev κ)
    (m : Machine FlashDev κ) : Prop where
  image : DueForApp backend env m → Streamed env (packageOf m.dev.region .download) →
    StagesReady env (packageOf m.dev.region .download) m.mem →
      InstallsOn env ⟨.download, 0⟩ ⟨.app, 0⟩ m.mem (packageOf m.dev.region .download)
        (m.dev.region .download) (m.dev.region .app)
  patch : DueForApp backend env m → ¬Streamed env (packageOf m.dev.region .download) →
    PatchFits backend env m

theorem keepsApp_image (htables : env.tables = startupTables env.build vendor)
    (hpower : m.dev.power = .steady) (hstream : Streamed env (packageOf m.dev.region .download))
    {src dst : Handle} {dstSize : Nat} {m' : Machine FlashDev (CodecMem Z Q A)}
    (h : Reaches (regionEnv backend env) .download .app m src dst dstSize m') :
    ReleaseKeepsApp (regionEnv backend env) m ↔
      (StagesReady env (packageOf m.dev.region .download) m.mem →
        InstallsOn env ⟨.download, 0⟩ ⟨.app, 0⟩ m.mem (packageOf m.dev.region .download)
          (m.dev.region .download) (m.dev.region .app)) := by
  obtain ⟨hdue, rfl, rfl, rfl, -, hdev, hinfo, hcheck, hpos⟩ := h.atApp (by simp [hpower])
  have hready : StagesReady (regionEnv backend env) (packageOf m.dev.region .download) m'.mem ↔
      StagesReady env (packageOf m.dev.region .download) m.mem := stagesReady_mem htables _ _ _
  have hsame : InstallsOn env ⟨.download, 0⟩ ⟨.app, 0⟩ m'.mem (packageOf m.dev.region .download)
        (m.dev.region .download) (m.dev.region .app) ↔
      InstallsOn env ⟨.download, 0⟩ ⟨.app, 0⟩ m.mem (packageOf m.dev.region .download)
        (m.dev.region .download) (m.dev.region .app) := by
    rw [InstallsOn, imageOf_mem htables _ _ _ _ m'.mem m.mem, InstallsOn]
  rw [h.keepsApp_iff (hinfo ▸ hstream), hinfo, ← hready]
  refine forall_congr' fun hyes => ?_
  have hinstalls := @fwUpdate_regions _ env ⟨.download, 0⟩ ⟨.app, 0⟩
    (packageOf m.dev.region .download) m' backend (by rw [hdev, hpower]) (by decide)
    (by rwa [hdev]) (by rw [hdev]; exact Nat.pos_of_ne_zero hdue.app) hinfo hcheck hstream hyes
  rw [hdev] at hinstalls
  rw [hinstalls, hsame]

end Stages

section Patches

variable {κ : Type} {backend : TargetId → Backend} {env : Env FlashDev κ}
  {m m' : Machine FlashDev κ} {src dst : Handle} {dstSize : Nat}

theorem patchFits_iff {algo : AlgoContext κ} {ok : Bool} {m₁ m₂ : Machine FlashDev κ}
    (hready : PatchReady (regionEnv backend env) (packageOf m.dev.region .download) algo
      (updateStart backend env m) m₁)
    (hrun : patchOf (regionEnv backend env) ⟨.app, 0⟩ ⟨.download, 0⟩
      (packageOf m.dev.region .download) m₁ = (ok, m₂)) :
    PatchFits backend env m ↔
      if ok then SealedBy env.crc (packageOf m.dev.region .download) (m₂.dev.region .app)
      else Untouched .app m₁ m₂ := by
  refine ⟨fun h => h algo m₁ ok m₂ hready hrun, fun h algo' m₁' ok' m₂' hready' hrun' => ?_⟩
  obtain rfl := Option.some.inj (hready.found.symm.trans hready'.found)
  cases hready.init.symm.trans hready'.init
  cases hrun.symm.trans hrun'
  exact h

/-- Applying a patch leaves the sizes of the regions and a steady power as they are. -/
theorem PatchReady.idles {info : FwInfo} {algo : AlgoContext κ} {m₁ : Machine FlashDev κ}
    (hready : PatchReady (regionEnv backend env) info algo m m₁) (dst src : Handle) :
    Idles m (patchOf (regionEnv backend env) dst src info m₁).2 := by
  have hinit : Idles m m₁ := by
    have hall := on_fwAlgoInit (idles_admits backend env).everywhere.toAdmitsOn algo m
    rwa [hready.init] at hall
  have hrun : Idles m₁ (patchOf (regionEnv backend env) dst src info m₁).2 :=
    on_hpatchliteReleaseFromPart (idles_admits backend env).everywhere.body
      (idles_admits backend env).swap trivial trivial trivial _ _ _ m₁
  exact trans_of Idles hinit hrun

theorem keepsApp_patch (hpower : m.dev.power = .steady)
    (hpatch : ¬Streamed env (packageOf m.dev.region .download))
    (h : Reaches (regionEnv backend env) .download .app m src dst dstSize m') :
    ReleaseKeepsApp (regionEnv backend env) m ↔ PatchFits backend env m := by
  obtain ⟨hdue, rfl, rfl, rfl, hstart, hdev, hinfo, hcheck, -⟩ := h.atApp (by simp [hpower])
  simp only [Streamed, not_forall, Bool.not_eq_false] at hpatch
  obtain ⟨algo, halgo, hpatch⟩ := hpatch
  subst hstart
  rcases hinit : fwAlgoInit algo (updateStart backend env m) with ⟨_ | _, m₁⟩
  · refine iff_of_true (h.keepsApp_of_unready ?_) fun algo' m₁' ok m₂ hready => ?_
    · have halgo' : fwGetAlgoContext (regionEnv backend env).tables
          (packageOf m.dev.region .download) = some algo := halgo
      rw [hinfo, stagesReady_iff halgo', hinit]
      exact Bool.false_ne_true
    · obtain rfl := Option.some.inj (halgo.symm.trans hready.found)
      cases hinit.symm.trans hready.init
  have hready : PatchReady (regionEnv backend env) (packageOf m.dev.region .download) algo
      (updateStart backend env m) m₁ := ⟨halgo, hinit, hpatch⟩
  rcases hrun : patchOf (regionEnv backend env) ⟨.app, 0⟩ ⟨.download, 0⟩
    (packageOf m.dev.region .download) m₁ with ⟨ok, m₂⟩
  rw [patchFits_iff hready hrun]
  have hready' := hready
  have hrun' := hrun
  rw [← hinfo] at hready' hrun'
  cases ok with
  | false => exact h.keepsApp_unpatched hready' hrun'
  | true =>
      rw [h.keepsApp_patched hready' hrun', hinfo]
      have hidles := hready.idles ⟨.app, 0⟩ ⟨.download, 0⟩
      rw [hrun] at hidles
      have hlast : (fwAlgoDeinit algo m₂).2.dev = m₂.dev := fwAlgoDeinit_dev algo m₂
      have hseal := @sealAndVerify_regions _ env ⟨.app, 0⟩ (packageOf m.dev.region .download)
        (fwAlgoDeinit algo m₂).2 backend (m.dev.region .app).size
        (by rw [hlast, hidles.steady (by rw [hdev, hpower])])
        (by rw [hlast, hidles.size, hdev]) (Nat.pos_of_ne_zero hdue.app) hcheck
      rw [hlast] at hseal
      exact hseal

end Patches

section Regions

variable {Z Q A : Type} {vendor : Vendor Z Q A} {backend : TargetId → Backend}
  {env : Env FlashDev (CodecMem Z Q A)} {m : Machine FlashDev (CodecMem Z Q A)}

theorem keepsApp_regions (htables : env.tables = startupTables env.build vendor)
    (hpower : m.dev.power = .steady) :
    ReleaseKeepsApp (regionEnv backend env) m ↔ InstallsIfDue backend env m := by
  have hon : m.dev.power ≠ .off := by simp [hpower]
  by_cases hreach : ∃ src dst dstSize m',
    Reaches (regionEnv backend env) .download .app m src dst dstSize m'
  swap
  · have hdue : ¬DueForApp backend env m := fun hdue => hreach (hdue.reaches hon)
    refine iff_of_true (releaseKeepsApp_of_untouched
      (untouched_of_not_reaches nofun fun _ _ _ _ h => hreach ⟨_, _, _, _, h⟩)) ?_
    exact ⟨fun h => absurd h hdue, fun h => absurd h hdue⟩
  obtain ⟨src, dst, dstSize, m', h⟩ := hreach
  have hdue := (h.atApp hon).due
  by_cases hstream : Streamed env (packageOf m.dev.region .download)
  · rw [keepsApp_image htables hpower hstream h]
    exact ⟨fun hall => ⟨fun _ _ => hall, fun _ hno => absurd hstream hno⟩,
      fun hall => hall.image hdue hstream⟩
  · rw [keepsApp_patch hpower hstream h]
    exact ⟨fun hall => ⟨fun _ hyes => absurd hyes hstream, fun _ _ => hall⟩,
      fun hall => hall.patch hdue hstream⟩

end Regions

/-! ## Files -/

section Files

variable {Z Q A : Type} {vendor : Vendor Z Q A} {env : Env FsDev (CodecMem Z Q A)}
  {m m' : Machine FsDev (CodecMem Z Q A)} {content : List UInt8} {src dst : Handle} {dstSize : Nat}

section Serving

variable (htables : env.tables = startupTables env.build vendor) (hidle : IdleFs m.dev)
  (hsource : m.dev.sys.file (.target .download) = some content)
  (hgood : Streamable env .download content)

include htables hidle hsource hgood

/-- What the calls of a release of DOWNLOAD come to, up to the open of APP. -/
theorem download_calls (k : CodecMem Z Q A) :
    ∃ size m₁ ok m₂ m₃ m',
      targetOpen (fsEnv env).io .download .read (emit (.releaseStart .download true) m).2 =
        ((some ⟨.download, 0⟩, some size), m₁) ∧
      fwCheck (fsEnv env) ⟨.download, 0⟩ size m₁ = (ok, m₂) ∧
      (ok = true ↔ IsPackage (fsEnv env) ⟨.download, 0⟩ ⟨.app, 0⟩ k content) ∧
      (ok = true → m₂.fwInfo = contentHeader content) ∧
      releaseSignCheck (fsEnv env) ⟨.download, 0⟩ m₂ = ((m.dev.sys.file .sign).isSome, m₃) ∧
      targetOpen (fsEnv env).io .app .writeCreate m₃ =
        ((some ⟨.app, 0⟩, some (oldSize env m.dev.sys.file .app)), m') := by
  obtain ⟨v, h, hfile, hheld, hfree⟩ : ∃ v, m.dev.Shows m.dev.sys.offMax v ∧
      v.file = m.dev.sys.file ∧ (∀ id, v.held id = none) ∧ 2 < v.free :=
    ⟨_, FsDev.shows_idle hidle.slots, rfl, fun _ => rfl, hidle.free⟩
  have hlens := FileView.length_bytes_le (v := v) (fun id => hfile ▸ hidle.lens id)
  rw [← hfile] at hsource ⊢
  have hbytes : v.bytes .download = content := FileView.bytes_of_file hsource
  have hstart : (emit (.releaseStart .download true) m).2.dev.Shows m.dev.sys.offMax v := h
  obtain ⟨m₁, hopen, h₁, -⟩ : ∃ m₁, targetOpen (fsEnv env).io .download .read
      (emit (.releaseStart .download true) m).2 =
        ((some ⟨.download, 0⟩, some (foundSize env.hpatch.cfg .download (v.bytes .download))),
          m₁) ∧ m₁.dev.Shows m.dev.sys.offMax (v.opened .download false) ∧ _ :=
    targetOpen_shows hstart (hheld _) (Nat.zero_lt_of_lt hfree) (.inl (hsource ▸ rfl)) rfl
      (hlens _)
  generalize hw : v.opened .download false = w at h₁
  have hfile₁ : w.file = v.file := hw ▸ v.file_opened .download false hsource
  have hbytes₁ : w.bytes .download = content := by rw [← hw, FileView.bytes_opened, hbytes]
  have hheld₁ : w.held .download = some false := hw ▸ v.held_opened .download false
  have hother₁ : w.held .app = none :=
    hw ▸ (v.held_opened_of_ne .download false (by decide)).trans (hheld _)
  have hfree₁ : 1 < w.free := hw ▸ Nat.lt_sub_of_add_lt hfree
  have hopen₁ : m₁.dev.OpenOn .download false := h₁.held _ _ hheld₁
  have hoff : 2 ^ 33 ≤ m₁.dev.sys.offMax := hidle.offMax.trans_eq h₁.offMax.symm
  have hserving : Serving (fsEnv env).io ⟨.download, 0⟩ content m₁.dev.Keeps := by
    rw [← hbytes₁, ← h₁.bytes]
    exact serving_files env.hpatch.cfg hopen₁ hoff
  have hfeeds : Feeds (fsEnv env).io ⟨.download, 0⟩ (content.drop srcReadPos) m₁.dev.Keeps := by
    rw [← hbytes₁, ← h₁.bytes]
    exact feeds_files env.hpatch.cfg hopen₁ hoff
  have htables' : (fsEnv env).tables = startupTables (fsEnv env).build vendor := htables
  obtain ⟨ok, m₂, hcheck, hkeeps, hiff, hinfo⟩ :=
    fwCheck_serving htables' hgood.gzip hserving hfeeds (.refl m₁.dev)
      (foundSize env.hpatch.cfg .download (v.bytes .download)) ⟨.app, 0⟩ k
  have h₂ : m₂.dev.Shows m.dev.sys.offMax w := h₁.keeps hkeeps
  obtain ⟨m₃, hsign, h₃, -⟩ :=
    releaseSignCheck_shows env ⟨.download, 0⟩ h₂ (Nat.zero_lt_of_lt hfree₁)
  obtain ⟨m', hopen', -, -⟩ : ∃ m', targetOpen (fsEnv env).io .app .writeCreate m₃ =
      ((some ⟨.app, 0⟩, some (foundSize env.hpatch.cfg .app (w.bytes .app))), m') ∧ _ ∧ _ :=
    targetOpen_shows h₃ hother₁ (Nat.zero_lt_of_lt hfree₁) (.inr rfl) rfl (by
      rw [FileView.bytes, hfile₁]
      exact hlens _)
  rw [FileView.bytes, hfile₁] at hopen'
  rw [hfile₁] at hsign
  exact ⟨_, m₁, ok, m₂, m₃, m', hopen, hcheck, hiff, hinfo, hsign, hopen'⟩

theorem Due.reaches {k : CodecMem Z Q A}
    (hdue : Due env .download true k m.dev.sys.file content .app) :
    ∃ src dst dstSize m', Reaches (fsEnv env) .download .app m src dst dstSize m' := by
  obtain ⟨size, m₁, ok, m₂, m₃, m', hopen, hcheck, hiff, hinfo, hsign, hopened⟩ :=
    download_calls htables hidle hsource hgood k
  obtain rfl : ok = true := hiff.mpr hdue.taken.package
  have hproduct := hdue.taken.product
  have hnamed := hdue.named
  rw [← hinfo rfl] at hproduct hnamed
  rw [hdue.unsigned rfl] at hsign
  have hsteps : Steps (fsEnv env) .download .app m ⟨.download, 0⟩ ⟨.app, 0⟩ _ _ m₁ m₂ m₃ m' :=
    ⟨hopen, hcheck, hproduct, hsign, hnamed, hopened⟩
  exact ⟨_, _, _, _, hsteps.reaches⟩

theorem Reaches.due (h : Reaches (fsEnv env) .download .app m src dst dstSize m')
    (k : CodecMem Z Q A) : Due env .download true k m.dev.sys.file content .app ∧
      m'.fwInfo = contentHeader content := by
  obtain ⟨size, m₁, ok, m₂, m₃, m'', hopen, hcheck, hiff, hinfo, hsign, -⟩ :=
    download_calls htables hidle hsource hgood k
  obtain ⟨size', n₁, n₂, n₃, hsteps⟩ := h.steps
  have hinfo' := hsteps.info
  obtain ⟨hopen', hcheck', hproduct, hsign', hnamed, -⟩ := hsteps
  rw [hopen] at hopen'
  cases hopen'
  rw [hcheck] at hcheck'
  cases hcheck'
  rw [hsign] at hsign'
  have hnone : m.dev.sys.file .sign = none :=
    Option.not_isSome_iff_eq_none.mp (by rw [(Prod.mk.inj hsign').1]; exact Bool.false_ne_true)
  rw [hinfo rfl] at hproduct hnamed hinfo'
  exact ⟨⟨hsource, ⟨hiff.mp rfl, hproduct⟩, fun _ => hnone, hnamed⟩, hinfo'⟩

end Serving

theorem file_of_reaches (hidle : IdleFs m.dev)
    (h : Reaches (fsEnv env) .download .app m src dst dstSize m') :
    ∃ content, m.dev.sys.file (.target .download) = some content := by
  obtain ⟨size, m₁, m₂, m₃, hsteps⟩ := h.steps
  have hopen := hsteps.source
  refine Option.ne_none_iff_exists'.mp fun hnone => ?_
  obtain ⟨m₁', hmissing, -⟩ : ∃ m₁', targetOpen (fsEnv env).io .download .read
      (emit (.releaseStart .download true) m).2 = ((none, none), m₁') ∧ _ :=
    targetOpen_missing (FsDev.shows_idle hidle.slots) hnone rfl
  rw [hmissing] at hopen
  cases hopen

/-- The package file in DOWNLOAD, if it is due for APP and its stages can be set up,
decodes to an image that verifies in the file of APP. -/
def VerifiesIfDue (env : Env FsDev (CodecMem Z Q A)) (m : Machine FsDev (CodecMem Z Q A)) :
    Prop :=
  ∀ content, Due env .download true m.mem m.dev.sys.file content .app →
    StagesReady env (contentHeader content) m.mem →
      ∃ image, fileImage env .download m.mem content .app = some image ∧
        TailVerifies env.crc (newContent env m.dev.sys.file content .app image)
          (oldSize env m.dev.sys.file .app)

theorem keepsApp_files (htables : env.tables = startupTables env.build vendor)
    (hidle : IdleFs m.dev) (hgood : ∀ content, m.dev.sys.file (.target .download) = some content →
      Streamable env .download content) :
    ReleaseKeepsApp (fsEnv env) m ↔ VerifiesIfDue env m := by
  by_cases hreach : ∃ src dst dstSize m',
    Reaches (fsEnv env) .download .app m src dst dstSize m'
  swap
  · refine iff_of_true (releaseKeepsApp_of_untouched
      (untouched_of_not_reaches nofun fun _ _ _ _ h => hreach ⟨_, _, _, _, h⟩)) ?_
    intro content hdue
    exact absurd (hdue.reaches htables hidle hdue.source (hgood content hdue.source)) hreach
  obtain ⟨src, dst, dstSize, m', h⟩ := hreach
  obtain ⟨content, hsource⟩ := file_of_reaches hidle h
  obtain ⟨hdue, hinfo⟩ := h.due htables hidle hsource (hgood content hsource) m.mem
  obtain ⟨ok, m'', hrun, hrelease, -, -⟩ := @releaseFromPart_files _ _ _ vendor env .download true m m.mem
    htables hidle.slots hidle.free hidle.offMax hidle.lens hgood
  have hstream : Streamed env m'.fwInfo := by
    rw [hinfo]
    exact streamed_of_field htables (hgood content hsource).patch
  have hanswer := h.answer
  rw [hrun] at hanswer
  have hready : StagesReady (fsEnv env) (contentHeader content) m'.mem ↔
      StagesReady env (contentHeader content) m.mem := stagesReady_mem htables _ _ _
  rw [h.keepsApp_iff hstream, hinfo, hready, ← hanswer, hrelease.answer_iff hdue]
  refine ⟨fun hall content' hdue' => ?_, fun hall => hall content hdue⟩
  obtain rfl := Option.some.inj (hdue.source.symm.trans hdue'.source)
  exact hall

end Files

/-! ## Every boot -/

def startupFalEnv : Env FlashDev (CodecMem Unit Unit Unit) where
  build := plainBuild
  io := eagerEnv.io
  crc := eagerCrcLib
  parser := eagerEnv.parser
  tables := startupTables plainBuild flipVendor
  hpatch := eagerEnv.hpatch
  productCode := none
  usingAppCheck := false

/-- The eight-byte package in DOWNLOAD, with an APP of `appSize` bytes. -/
def startupFal (appSize : Nat) : Machine FlashDev (CodecMem Unit Unit Unit) :=
  steadyMachine (eightByteMachine appSize).dev.region startupIdle.mem

end Qboot
