import Qboot.Proofs.CoherentFiles
import Qboot.Proofs.ReachedUpdate
import Qboot.Proofs.SourceKept
/-!
# Targets that share nothing

Storage in which writing and erasing one target leaves the bytes of the others, whatever
else fails.  Over it a release, a resume and a clone keep the package that they start
from, as long as they do not lead back to its own target.
-/

namespace Qboot

open Library Bytes Prog Machine Loop

variable {σ κ : Type}

/-! ## The storage -/

/-- Writing and erasing change the bytes of one target, a write that succeeds has stored
its data, and the sign goes behind the package. -/
structure SeparateEnv (σ κ : Type) extends StableEnv σ κ where
  write_other : ∀ h off data s id, id ≠ h.target →
    content (io.write h off data s).2 id = content s id
  write_data : ∀ h off data s, (io.write h off data s).1 = true →
    content (io.write h off data s).2 h.target = overwrite (content s h.target) off data
  erase_other : ∀ h off len s id, id ≠ h.target →
    content (io.erase h off len s).2 id = content s id
  align_keeps : ∀ h s, content (io.getEraseAlign h s).2 = content s
  malloc_keeps : ∀ size s, content (hpatch.malloc size s).2 = content s
  signRead_keeps : ∀ h info s, content (parser.signRead h info s).2 = content s
  signWrite_keeps : ∀ h info s id a, (id = h.target → a < signPos info) →
    content (parser.signWrite h info s).2 id a = content s id a

def regionSeparate (backend : TargetId → Backend) (env : Env FlashDev κ) :
    SeparateEnv FlashDev κ where
  toStableEnv := regionStable backend (regionEnv backend env)
  write_other := fun _ off data d _ hid =>
    congrArg Flash.Region.cells (write_other backend hid.symm off data d)
  write_data := fun _ _ _ _ hdone =>
    congrArg Flash.Region.cells (write_done (Prod.ext hdone rfl)).1
  erase_other := fun _ off len d _ hid =>
    congrArg Flash.Region.cells (erase_other backend hid.symm off len d)
  align_keeps := fun _ _ => rfl
  malloc_keeps := fun _ _ => rfl
  signRead_keeps := fun _ _ _ => rfl
  signWrite_keeps := by
    intro h info d id a ha
    by_cases hid : id = h.target
    · exact write_behind backend (le_refl (signPos info)) _ d (ha hid)
    · exact congrArg (·.cells a) (write_other backend (Ne.symm hid) _ _ d)

def filesSeparate (env : Env FsStorage κ) : SeparateEnv FsStorage κ where
  toStableEnv := filesStable { env with
    hpatch := { env.hpatch with
      malloc := fun size d => ((env.hpatch.malloc size d).1, d)
      malloc_zero := env.hpatch.malloc_zero } }
  write_other := fun h off data d _ hid => cells_fsWrite_other d.2 h hid off data
  write_data := fun h _ _ d hdone => cells_fsWrite d.2 h hdone
  erase_other := fun h off len d _ hid =>
    cells_fsErase_other d.2 h hid env.hpatch.cfg off len
  align_keeps := fun _ _ => rfl
  malloc_keeps := fun _ _ => rfl
  signRead_keeps := fun h info d => cells_fsSignRead h info d.1
  signWrite_keeps := fun h info d id a _ =>
    congrFun (congrFun (cells_fsSignWrite h info d.1) id) a

/-! ## What is kept -/

def StableEnv.header (env : StableEnv σ κ) (m : Machine σ κ) (id : TargetId) : FwInfo :=
  headerOf (env.content m.dev id)

def StableEnv.packageEnd (env : StableEnv σ κ) (m : Machine σ κ) (id : TargetId) : Nat :=
  srcReadPos + (env.header m id).pkgSize.toNat

def KeepsBelow (env : StableEnv σ κ) (id : TargetId) (n : Nat) (m m' : Machine σ κ) : Prop :=
  ∀ a, a < n → env.content m'.dev id a = env.content m.dev id a

instance (env : StableEnv σ κ) (id : TargetId) (n : Nat) :
    IsPreorder (Machine σ κ) (KeepsBelow env id n) where
  refl _ _ _ := rfl
  trans _ _ _ h h' a ha := (h' a ha).trans (h a ha)

/-- Header and body of the package in `id` are as before. -/
def PackageKept (env : StableEnv σ κ) (id : TargetId) (m m' : Machine σ κ) : Prop :=
  KeepsBelow env id (env.packageEnd m id) m m'

def KeepsBytes (env : StableEnv σ κ) (id : TargetId) (m m' : Machine σ κ) : Prop :=
  env.content m'.dev id = env.content m.dev id

instance (env : StableEnv σ κ) (id : TargetId) :
    IsPreorder (Machine σ κ) (KeepsBytes env id) where
  refl _ := rfl
  trans _ _ _ h h' := Eq.trans h' h

theorem KeepsBytes.below {env : StableEnv σ κ} {id : TargetId} {m m' : Machine σ κ}
    (h : KeepsBytes env id m m') (n : Nat) : KeepsBelow env id n m m' :=
  fun a _ => congrFun h a

theorem Quiet.bytes {env : StableEnv σ κ} {m m' : Machine σ κ} (h : Quiet env m m')
    (id : TargetId) : KeepsBytes env id m m' :=
  congrFun h.1 id

section Updates

variable (env : SeparateEnv σ κ) (id : TargetId)

theorem separate_admits : AdmitsEnvOn env.toEnv (fun _ => True) (fun h => h.target ≠ id)
    (KeepsBytes env.toStableEnv id) where
  reads := fun h off len _ m => congrFun (env.read_keeps h off len m.dev) id
  writes := fun h off data hne m => env.write_other h off data m.dev id hne.symm
  erases := fun h off len hne m => env.erase_other h off len m.dev id hne.symm
  sizes := fun h _ m => congrFun (env.size_keeps h m.dev) id
  aligns := fun h _ m => congrFun (env.align_keeps h m.dev) id
  mem := fun _ _ => rfl
  emits := fun _ _ _ => rfl
  info := fun _ _ => rfl
  signReads := fun h info _ m => congrFun (env.signRead_keeps h info m.dev) id
  signWrites := fun h info hne m => funext fun a =>
    env.signWrite_keeps h info m.dev id a fun hid => absurd hid.symm hne

theorem keepsBytes_open (id' : TargetId) (flags : OpenFlags)
    (hflags : flags ≠ .writeCreateTrunc) :
    Within (KeepsBytes env.toStableEnv id) (targetOpen env.io id' flags) :=
  fun m => (quiet_targetOpen id' flags hflags m).bytes id

theorem keepsBytes_close (h : Handle) :
    Within (KeepsBytes env.toStableEnv id) (targetClose env.io h) :=
  fun m => (quiet_targetClose h m).bytes id

variable {id}

theorem separate_swap (hswap : id ≠ .swap) :
    AdmitsSwap env.io env.hpatch (fun _ => True) (fun h => h.target ≠ id)
      (KeepsBytes (κ := κ) env.toStableEnv id) where
  mallocs := fun size m => congrFun (env.malloc_keeps size m.dev) id
  opens := keepsBytes_open env id .swap .writeCreate nofun
  closes := fun _ => keepsBytes_close env id _
  usable := fun _ => ⟨trivial, hswap.symm⟩

/-- An update of another target keeps this one, unless it patches through the swap area
and this is the swap area. -/
theorem keepsBytes_fwUpdate {m : Machine σ κ} (hswap : id = .swap → Streamed env.toEnv m.fwInfo)
    {dst : Handle} (hdst : dst.target ≠ id) (dstSize : Nat) (src : Handle) :
    KeepsBytes env.toStableEnv id m (fwUpdate env.toEnv dst dstSize src m).2 := by
  have hR := separate_admits env id
  have hrelease : KeepsBytes env.toStableEnv id m
      (fwRelease env.toEnv dst dstSize src m.fwInfo m).2 := by
    by_cases hid : id = .swap
    · exact on_fwRelease_streamed hR.toAdmitsOn trivial hdst (hswap hid) dstSize m
    · exact on_fwRelease hR.toAdmitsOn (separate_swap env hid) trivial ⟨trivial, hdst⟩ dstSize
        m.fwInfo m
  exact trans_of (KeepsBytes env.toStableEnv id) hrelease
    (on_verifyUpdate hR (fun _ _ => rfl) trivial dstSize _ _)

end Updates

/-! ## Accepted packages -/

/-- A header that passes its check, and the body that it announces. -/
structure PackageIn (env : Env σ κ) (cells : Nat → UInt8) : Prop where
  header : fwInfoCheck env.crc (headerOf cells) = true
  body : env.crc.whole
    (readCells cells srcReadPos (headerOf cells).pkgSize.toNat).1 = (headerOf cells).pkgCrc

/-- The product code is the configured one. -/
def FwInfo.ForProduct (env : Env σ κ) (info : FwInfo) : Prop :=
  ∀ code, env.productCode = some code → strEq info.fromProdCode code = true

section Checks

variable {env : StableEnv σ κ} {h : Handle} {m : Machine σ κ}

theorem fwCheck_found (partLen : Nat) (hok : (fwCheck env.toEnv h partLen m).1 = true) :
    PackageIn env.toEnv (env.content m.dev h.target) ∧
      (fwCheck env.toEnv h partLen m).2.fwInfo = env.header m h.target := by
  have hquiet : Quiet env m (fwInfoRead env.toEnv h partLen false m).2 :=
    quiet_fwInfoRead h partLen false m
  have hhead := fwInfoRead_head env h partLen m
  rcases hread : fwInfoRead env.toEnv h partLen false m with ⟨_ | _, m₁⟩
  · rw [fwCheck, run_bind, hread] at hok
    cases hok
  rw [hread] at hquiet hhead
  have hhead : m₁.fwInfo = env.header m h.target := hhead rfl
  rw [fwCheck_read hread] at hok ⊢
  by_cases hcheck : fwInfoCheck env.crc m₁.fwInfo = true
  swap
  · rw [if_neg hcheck] at hok
    cases hok
  rw [if_pos hcheck] at hok ⊢
  have hcrc := fwCrcCheck_spec env h (show srcReadPos ≤ 2 ^ 31 by decide)
    m₁.fwInfo.pkgSize.toNat_lt m₁.fwInfo.pkgCrc m₁
  have hsame := on_fwCrcCheck (sameInfo_admits env.io) (h := h) trivial srcReadPos
    m₁.fwInfo.pkgSize.toNat m₁.fwInfo.pkgCrc m₁
  rcases hrun : fwCrcCheck env.toEnv h srcReadPos m₁.fwInfo.pkgSize.toNat m₁.fwInfo.pkgCrc m₁
    with ⟨_ | _, m₂⟩
  all_goals rw [hrun] at hok hcrc hsame
  · cases hok
  have hinfo : m₂.fwInfo = m₁.fwInfo := hsame
  have hbody := hcrc.2 rfl
  rw [hquiet.1, hhead] at hbody
  rw [hhead] at hcheck
  refine ⟨⟨hcheck, hbody⟩, ?_⟩
  dsimp only
  split
  · have happ : (appCrcCheck env.toEnv h m₁.fwInfo m₂).2.fwInfo = m₂.fwInfo :=
      on_appCrcCheck (sameInfo_admits env.io) trivial m₁.fwInfo m₂
    rw [happ, hinfo, hhead]
  · rw [hinfo, hhead]

/-- What the code goes on with after the check, on storage with the bytes of `m₀`. -/
theorem offered_of_check {id : TargetId} {src : Handle} {size : Nat} {m₀ : Machine σ κ}
    (hsrc : src.target = id) (hquiet : Quiet env m₀ m)
    (hcheck : (fwCheck env.toEnv src size m).1 = true) :
    PackageIn env.toEnv (env.content m₀.dev id) ∧
      (fwCheck env.toEnv src size m).2.fwInfo = env.header m₀ id := by
  obtain ⟨hpackage, hinfo⟩ := fwCheck_found size hcheck
  rw [hsrc, hquiet.1] at hpackage
  refine ⟨hpackage, ?_⟩
  rw [hinfo, hsrc, StableEnv.header, hquiet.1]
  rfl

end Checks

section Signs

variable {env : SeparateEnv σ κ} {m : Machine σ κ}

theorem ioRead_content (env : StableEnv σ κ) {h : Handle} {off len : Nat} {b : Block len}
    {m m' : Machine σ κ} (hread : ioRead env.io h off len m = (some b, m')) :
    b = readCells (env.content m.dev h.target) off len :=
  env.read_data h off len m.dev b (Prod.mk.inj hread).1

theorem ioWrite_content {h : Handle} {off : Nat} {data : List UInt8} {m' : Machine σ κ}
    (hwrite : ioWrite env.io h off data m = (true, m')) :
    env.content m'.dev h.target = overwrite (env.content m.dev h.target) off data := by
  obtain ⟨hok, rfl⟩ := Prod.mk.inj hwrite
  exact env.write_data h off data m.dev hok

theorem header_written {h : Handle} {len : Nat} {info : FwInfo} {m₁ m₂ : Machine σ κ}
    (hwrite : fwInfoWrite env.toEnv h len info true m = (true, m₁))
    (hread : fwInfoRead env.toEnv h len true m₁ = (true, m₂)) : m₂.fwInfo = info := by
  have haddr : infoAddr len true = u32Sub len srcReadPos := if_pos rfl
  have hdata : env.content m₁.dev h.target = overwrite (env.content m.dev h.target)
      (infoAddr len true) info.toBytes := ioWrite_content hwrite
  unfold fwInfoRead at hread
  split at hread
  · cases hread
  simp only [run_bind, if_true, ← haddr] at hread
  rcases hrun : ioRead env.io h (infoAddr len true) srcReadPos m₁ with ⟨_ | bytes, m₃⟩
  all_goals rw [hrun] at hread
  · cases hread
  obtain ⟨-, rfl⟩ := Prod.mk.inj hread
  show FwInfo.ofBytes bytes = info
  rw [ioRead_content env.toStableEnv hrun, hdata, readCells_overwrite_info, FwInfo.ofBytes_toBytes]

theorem fwUpdate_header {dst src : Handle} {dstSize : Nat}
    (hok : (fwUpdate env.toEnv dst dstSize src m).1 = true) :
    (fwUpdate env.toEnv dst dstSize src m).2.fwInfo = m.fwInfo := by
  unfold fwUpdate at hok ⊢
  simp only [run_bind, run_gets] at hok ⊢
  rcases hrelease : fwRelease env.toEnv dst dstSize src m.fwInfo m with ⟨_ | _, m₁⟩
  · rw [hrelease] at hok
    cases hok
  obtain ⟨m₀, hwrite⟩ := fwRelease_written hrelease
  rw [hrelease] at hok
  obtain ⟨m₂, hread, hinfo⟩ := destPartVerify_read hok
  exact hinfo.trans (header_written hwrite hread)

end Signs

/-! ## Release and resume -/

/-- The package in `id` is one that the code goes on with: checked, for this product. -/
def StableEnv.Offers (env : StableEnv σ κ) (m : Machine σ κ) (id : TargetId) : Prop :=
  PackageIn env.toEnv (env.content m.dev id) ∧ (env.header m id).ForProduct env.toEnv

/-- The stages of such a package can be set up. -/
def StableEnv.Applies (env : StableEnv σ κ) (m : Machine σ κ) (id : TargetId) : Prop :=
  env.Offers m id ∧ ∃ k, StagesReady env.toEnv (env.header m id) k

/-- The package in `id`, applied to `dst`, does not reach its own target: neither directly
nor, as a patch, through the swap area. -/
def SeparateEnv.Spares (env : SeparateEnv σ κ) (m : Machine σ κ) (id dst : TargetId) : Prop :=
  dst ≠ id ∧ (id = .swap → Streamed env.toEnv (env.header m id))

/-- The package in a target has 32-bit addresses, with the sign behind it. -/
def SeparateEnv.Addressable (env : SeparateEnv σ κ) (m : Machine σ κ) (id : TargetId) : Prop :=
  env.packageEnd m id + releaseSignAlignSize ≤ 2 ^ 32

/-- A release of the package in `id` does not reach `id`. -/
def SeparateEnv.ReleaseSpares (env : SeparateEnv σ κ) (m : Machine σ κ) (id : TargetId) : Prop :=
  env.Applies m id → ∀ dst,
    nameToId env.hpatch.cfg.useStorageSwap (env.header m id).fromPartName = some dst →
      env.Spares m id dst

/-- A resume from `id` does not reach `id`. -/
def SeparateEnv.ResumeSpares (env : SeparateEnv σ κ) (m : Machine σ κ) (id : TargetId) : Prop :=
  env.Applies m id → strEq (env.header m id).fromPartName TargetId.app.roleName = true →
    env.Spares m id .app

section Paths

variable {env : SeparateEnv σ κ} {id : TargetId} {m m₀ : Machine σ κ} {n : Nat}

theorem packageEnd_le_sign_of (h : env.Addressable m id) :
    env.packageEnd m id ≤ signPos (env.header m id) :=
  packageEnd_le_sign h

/-- Without its stages an update changes nothing, so only an update that sets them up has
to keep away from this target. -/
theorem keepsBytes_update {dst : Handle} (hspares : (∃ k, StagesReady env.toEnv m.fwInfo k) →
      dst.target ≠ id ∧ (id = .swap → Streamed env.toEnv m.fwInfo))
    (dstSize : Nat) (src : Handle) :
    KeepsBytes env.toStableEnv id m (fwUpdate env.toEnv dst dstSize src m).2 := by
  by_cases hready : ∃ k, StagesReady env.toEnv m.fwInfo k
  · obtain ⟨hdst, hsafe⟩ := hspares hready
    exact keepsBytes_fwUpdate env hsafe hdst dstSize src
  · have hno : ¬StagesReady env.toEnv m.fwInfo m.mem := fun hyes => hready ⟨_, hyes⟩
    exact congrArg (fun d => env.content d id) (fwUpdate_unready hno).2.1

theorem keepsBelow_updateAndSign {dst : Handle}
    (hspares : (∃ k, StagesReady env.toEnv m.fwInfo k) →
      dst.target ≠ id ∧ (id = .swap → Streamed env.toEnv m.fwInfo))
    (hsign : n ≤ signPos m.fwInfo) (dstSize : Nat) (src : Handle) :
    KeepsBelow env.toStableEnv id n m (updateAndSign env.toEnv dst dstSize src m).2 := by
  have hupdate := (keepsBytes_update hspares dstSize src).below n
  have hinfo := @fwUpdate_header _ _ env m dst src dstSize
  unfold updateAndSign
  rw [run_bind]
  rcases hrun : fwUpdate env.toEnv dst dstSize src m with ⟨_ | _, m₁⟩
  all_goals rw [hrun] at hupdate hinfo
  · exact hupdate
  have hcheck : KeepsBelow env.toStableEnv id n m₁ (releaseSignCheck env.toEnv src m₁).2 :=
    fun a _ => congrFun (congrFun (env.signRead_keeps src m₁.fwInfo m₁.dev) id) a
  have hsame : (releaseSignCheck env.toEnv src m₁).2.fwInfo = m.fwInfo := hinfo rfl
  simp only [if_true, run_bind]
  generalize releaseSignCheck env.toEnv src m₁ = x at hcheck hsame ⊢
  obtain ⟨found, m₂⟩ := x
  have hbefore := trans_of (KeepsBelow env.toStableEnv id n) hupdate hcheck
  cases found with
  | true => exact hbefore
  | false =>
      have hinfo₂ : m₂.fwInfo = m.fwInfo := hsame
      have hwrite : KeepsBelow env.toStableEnv id n m₂ (releaseSignWrite env.toEnv src m₂).2 := by
        intro a ha
        refine env.signWrite_keeps src m₂.fwInfo m₂.dev id a fun _ => ?_
        rw [hinfo₂]
        omega
      exact trans_of (KeepsBelow env.toStableEnv id n) hbefore hwrite

theorem keepsBelow_releaseOpened {src : Handle} {size : Nat} (checkSign : Bool)
    (hsrc : src.target = id) (hquiet : Quiet env.toStableEnv m₀ m)
    (hspares : env.ReleaseSpares m₀ id) (hsign : n ≤ signPos (env.header m₀ id)) :
    KeepsBelow env.toStableEnv id n m
      (releaseOpened env.toEnv src size checkSign m).2 := by
  have hcheck := ((quiet_fwCheck env.toStableEnv src size m).bytes id).below n
  have hfound := @offered_of_check _ _ env.toStableEnv m id src size m₀ hsrc hquiet
  unfold releaseOpened
  rw [run_bind]
  rcases hrun : fwCheck env.toEnv src size m with ⟨_ | _, m₁⟩
  all_goals rw [hrun] at hcheck hfound
  · exact hcheck
  obtain ⟨hpackage, hinfo⟩ := hfound rfl
  have hinfo : m₁.fwInfo = env.header m₀ id := hinfo
  obtain ⟨ok, hproduct, hproductIff⟩ := productCodeOk_run env.toEnv m₁
  simp only [if_true, run_bind, hproduct]
  cases ok with
  | false => exact hcheck
  | true =>
  have hoffers : env.Offers m₀ id := by
    rw [hinfo] at hproductIff
    exact ⟨hpackage, hproductIff.mp rfl⟩
  simp only [if_true, run_bind]
  have hfinds : KeepsBelow env.toStableEnv id n m₁ ((if checkSign then
      releaseSignCheck env.toEnv src else pure false : Prog (Machine σ κ) Bool) m₁).2 := by
    cases checkSign with
    | false => exact refl_of (KeepsBelow env.toStableEnv id n) m₁
    | true => exact fun a _ =>
        congrFun (congrFun (env.signRead_keeps src m₁.fwInfo m₁.dev) id) a
  have hsame : ((if checkSign then releaseSignCheck env.toEnv src
      else pure false : Prog (Machine σ κ) Bool) m₁).2.fwInfo = m₁.fwInfo := by
    cases checkSign <;> rfl
  generalize (if checkSign then releaseSignCheck env.toEnv src
    else pure false : Prog (Machine σ κ) Bool) m₁ = x at hfinds hsame ⊢
  obtain ⟨signed, m₂⟩ := x
  have hbefore := trans_of (KeepsBelow env.toStableEnv id n) hcheck hfinds
  have hinfo₂ : m₂.fwInfo = env.header m₀ id := Eq.trans hsame hinfo
  cases signed with
  | true => exact hbefore
  | false =>
  simp only [Bool.false_eq_true, if_false, run_bind, run_gets, hinfo₂]
  rcases hnamed : nameToId env.hpatch.cfg.useStorageSwap (env.header m₀ id).fromPartName
    with _ | dstId
  · exact hbefore
  have hopen := (keepsBytes_open env id dstId .writeCreate nofun m₂).below n
  have htarget := targetOpen_target env.io dstId .writeCreate m₂
  have hkept := sameInfo_targetOpen env.io dstId .writeCreate m₂
  simp only [run_bind]
  rcases hrun : targetOpen env.io dstId .writeCreate m₂ with ⟨⟨_ | dst, _ | dstSize⟩, m₃⟩
  all_goals
    rw [hrun] at hopen htarget hkept
    have hbefore₃ := trans_of (KeepsBelow env.toStableEnv id n) hbefore hopen
  · exact hbefore₃
  · exact hbefore₃
  · exact trans_of (KeepsBelow env.toStableEnv id n) hbefore₃
      ((keepsBytes_close env id dst m₃).below n)
  have hdst : dst.target = dstId := htarget dst rfl
  have hinfo₃ : m₃.fwInfo = env.header m₀ id := Eq.trans hkept hinfo₂
  have hspared : (∃ k, StagesReady env.toEnv m₃.fwInfo k) →
      dst.target ≠ id ∧ (id = .swap → Streamed env.toEnv m₃.fwInfo) := by
    rw [hdst, hinfo₃]
    exact fun hready => hspares ⟨hoffers, hready⟩ dstId hnamed
  have hupdate := keepsBelow_updateAndSign hspared (hinfo₃ ▸ hsign) dstSize src
  simp only [run_bind]
  exact trans_of (KeepsBelow env.toStableEnv id n)
    (trans_of (KeepsBelow env.toStableEnv id n) hbefore₃ hupdate)
    ((keepsBytes_close env id dst _).below n)

/-- A release keeps its package, unless it leads back to the target of the package. -/
theorem keeps_releaseFromPart (haddr : env.Addressable m id) (hspares : env.ReleaseSpares m id)
    (checkSign : Bool) :
    PackageKept env.toStableEnv id m (releaseFromPart env.toEnv id checkSign m).2 := by
  have hstart : Quiet env.toStableEnv m (emit (.releaseStart id checkSign) m).2 :=
    quiet_emit rfl m
  generalize hm₁ : (emit (.releaseStart id checkSign) m).2 = m₁ at hstart
  have hopen := hstart.trans (quiet_targetOpen id .read nofun m₁)
  have htarget := targetOpen_target env.io id .read m₁
  have hend (rst : Bool) (m' : Machine σ κ) : KeepsBelow env.toStableEnv id
      (env.packageEnd m id) m' (emit (.released id checkSign rst) m').2 := fun _ _ => rfl
  unfold releaseFromPart
  rw [run_bind, hm₁, run_bind]
  rcases hrun : targetOpen env.io id .read m₁ with ⟨⟨_ | src, _ | size⟩, m₂⟩
  all_goals
    rw [hrun] at hopen htarget
    have hbefore := (hopen.bytes id).below (env.packageEnd m id)
  · exact hbefore
  · exact hbefore
  · exact hbefore
  have hopened : KeepsBelow env.toStableEnv id (env.packageEnd m id) m₂
      (releaseOpened env.toEnv src size checkSign m₂).2 :=
    keepsBelow_releaseOpened checkSign (htarget src rfl) hopen hspares
      (packageEnd_le_sign_of haddr)
  simp only [run_bind]
  exact trans_of (KeepsBelow env.toStableEnv id _)
    (trans_of (KeepsBelow env.toStableEnv id _) hbefore hopened)
    (trans_of (KeepsBelow env.toStableEnv id _)
      ((keepsBytes_close env id src _).below _) (hend _ _))

theorem keepsBelow_resumeOpened {src dst : Handle} {size dstSize : Nat}
    (hsrc : src.target = id) (hdst : dst.target = .app)
    (hquiet : Quiet env.toStableEnv m₀ m) (hspares : env.ResumeSpares m₀ id) :
    KeepsBelow env.toStableEnv id n m
      (resumeOpened env.toEnv src size dst dstSize m).2 := by
  have hcheck := ((quiet_fwCheck env.toStableEnv src size m).bytes id).below n
  have hfound := @offered_of_check _ _ env.toStableEnv m id src size m₀ hsrc hquiet
  unfold resumeOpened
  rw [run_bind]
  rcases hrun : fwCheck env.toEnv src size m with ⟨_ | _, m₁⟩
  all_goals rw [hrun] at hcheck hfound
  · exact hcheck
  obtain ⟨hpackage, hinfo⟩ := hfound rfl
  have hinfo : m₁.fwInfo = env.header m₀ id := hinfo
  obtain ⟨ok, hproduct, hproductIff⟩ := productCodeOk_run env.toEnv m₁
  simp only [if_true, run_bind, hproduct]
  cases ok with
  | false => exact hcheck
  | true =>
  rw [hinfo] at hproductIff
  simp only [if_true, run_bind, run_gets, hinfo]
  by_cases hnamed : strEq (env.header m₀ id).fromPartName TargetId.app.roleName = true
  · have hspared : (∃ k, StagesReady env.toEnv m₁.fwInfo k) →
        dst.target ≠ id ∧ (id = .swap → Streamed env.toEnv m₁.fwInfo) := by
      rw [hdst, hinfo]
      exact fun hready => hspares ⟨⟨hpackage, hproductIff.mp rfl⟩, hready⟩ hnamed
    rw [if_pos hnamed]
    exact trans_of (KeepsBelow env.toStableEnv id n) hcheck
      ((keepsBytes_update hspared dstSize src).below n)
  · rw [if_neg hnamed]
    exact hcheck

theorem keeps_appResumeFrom (hspares : env.ResumeSpares m id) :
    PackageKept env.toStableEnv id m (appResumeFrom env.toEnv id m).2 := by
  have hopen : Quiet env.toStableEnv m (targetOpen env.io id .read m).2 :=
    quiet_targetOpen id .read nofun m
  have htarget := targetOpen_target env.io id .read m
  have hquiet (m' : Machine σ κ) (h : Quiet env.toStableEnv m m') :
      PackageKept env.toStableEnv id m m' := (h.bytes id).below _
  unfold appResumeFrom
  rw [run_bind]
  rcases hrun : targetOpen env.io id .read m with ⟨⟨_ | src, _ | size⟩, m₁⟩
  all_goals rw [hrun] at hopen htarget
  · exact hquiet _ hopen
  · exact hquiet _ hopen
  · exact hquiet _ hopen
  have hopen₂ := hopen.trans (quiet_targetOpen .app .writeCreate nofun m₁)
  have htarget₂ := targetOpen_target env.io .app .writeCreate m₁
  simp only [run_bind]
  rcases hrun₂ : targetOpen env.io .app .writeCreate m₁ with ⟨⟨_ | dst, _ | dstSize⟩, m₂⟩
  all_goals rw [hrun₂] at hopen₂ htarget₂
  · exact hquiet _ (hopen₂.trans (quiet_targetClose src m₂))
  · exact hquiet _ (hopen₂.trans (quiet_targetClose src m₂))
  · exact hquiet _ (hopen₂.trans (quiet_targetClose src m₂))
  have hopened : KeepsBelow env.toStableEnv id (env.packageEnd m id) m₂
      (resumeOpened env.toEnv src size dst dstSize m₂).2 :=
    keepsBelow_resumeOpened (htarget src rfl) (htarget₂ dst rfl) hopen₂ hspares
  simp only [run_bind]
  exact trans_of (KeepsBelow env.toStableEnv id _) (trans_of (KeepsBelow env.toStableEnv id _)
    (hquiet _ hopen₂) hopened) (trans_of (KeepsBelow env.toStableEnv id _)
      ((keepsBytes_close env id src _).below _) ((keepsBytes_close env id dst _).below _))

end Paths

end Qboot
