import Qboot.Model.Codecs
import Qboot.Model.Hpatch
/-!
# The boot thread

`qboot.c` and the package helpers of `qboot_ops.c`: checking a package,
releasing it to its destination, verifying the destination, and the boot thread
that ties them together.  LED, banner and log output are left out; the key,
the shell and the update manager enter as the answers the thread branches on.
-/

namespace Qboot

open Library Bytes Machine Loop

/-- Everything the boot code is compiled and linked with. -/
structure Env (σ κ : Type) extends Platform σ where
  parser : HeaderParserOps σ
  tables : AlgoTables κ
  hpatch : HpatchEnv σ
  productCode : Option (List UInt8)
  usingAppCheck : Bool

variable {σ κ : Type} (env : Env σ κ)

/-- A `rt_uint32_t` difference. -/
def u32Sub (a b : Nat) : Nat := u32 (a + 2 ^ 32 - b)

/-! ## Header access -/

/-- `qbt_fw_info_read` into the static header -/
def fwInfoRead (h : Handle) (partLen : Nat) (fromTail : Bool) :
    Prog (Machine σ κ) Bool :=
  if fromTail ∧ partLen < srcReadPos then pure false
  else do
    let addr := if fromTail then u32Sub partLen srcReadPos else 0
    match ← ioRead env.io h addr srcReadPos with
    | none => pure false
    | some bytes =>
        setFwInfo (.ofBytes bytes)
        pure true

/-- `qbt_fw_info_write` -/
def fwInfoWrite (h : Handle) (partLen : Nat) (info : FwInfo) (toTail : Bool) :
    Prog (Machine σ κ) Bool :=
  let addr := if toTail then u32Sub partLen srcReadPos else 0
  ioWrite env.io h addr info.toBytes

/-- `qbt_release_sign_check` -/
def releaseSignCheck (h : Handle) : Prog (Machine σ κ) Bool := do
  let info ← Prog.gets (·.fwInfo)
  pure ((← onDev (env.parser.signRead h info)).getD false)

/-- `qbt_release_sign_write` -/
def releaseSignWrite (h : Handle) : Prog (Machine σ κ) Bool := do
  let info ← Prog.gets (·.fwInfo)
  let ok ← onDev (env.parser.signWrite h info)
  emit (.signWritten h.target ok)
  pure ok

/-! ## Checks -/

/-- `qbt_fw_info_check` -/
def fwInfoCheck (crc : CrcLib) (info : FwInfo) : Bool :=
  strEq info.toBytes (ascii "RBL") && crc.cal info.bodyBytes == info.hdrCrc

/-- One round of `qbt_fw_crc_check`: position and accumulator. -/
def crcCheckRound (h : Handle) (addr size : Nat) (c : Nat × UInt32) :
    Prog (Machine σ κ) (Next (Nat × UInt32) (Option UInt32)) :=
  if size ≤ c.1 then pure (.done (some c.2))
  else do
    -- a remainder that is negative as `int` is passed on as the length
    let remain := i32 (size - c.1)
    let readLen := sizeT (min bufSize remain)
    match ← ioRead env.io h (u32 (addr + c.1)) readLen with
    | none => pure (.done none)
    | some data =>
        pure (.again (u32 (c.1 + readLen), env.crc.cycCal c.2 data.1))

/-- `qbt_fw_crc_check` -/
def fwCrcCheck (h : Handle) (addr size : Nat) (crc : UInt32) :
    Prog (Machine σ κ) Bool := do
  let r ← iterate (crcCheckRound env h addr size) (size + 1) (0, 0xFFFFFFFF)
  pure (match r.join with
    | some acc => acc ^^^ 0xFFFFFFFF == crc
    | none => false)

/-- The final CRC value of a checking pass is `crc`. -/
def ProcCtx.crcIs (crc : UInt32) : ProcCtx → Bool
  | .crc acc => acc ^^^ 0xFFFFFFFF == crc
  | .write _ => false

/-- `qbt_app_crc_check` -/
def appCrcCheck (src : Handle) (info : FwInfo) : Prog (Machine σ κ) Bool :=
  match fwGetAlgoContext env.tables info with
  | none => pure false
  | some algo => do
      if ← fwAlgoInit algo then
        let (ok, pc) ← fwStreamProcess env.toPlatform info src algo
          (.crc 0xFFFFFFFF)
        fwAlgoDeinit algo
        pure (ok && pc.crcIs info.rawCrc)
      else pure false

def algo2VerifyCrc : Nat := 1
def algo2VerifyMask : Nat := 0x0F

/-- The header selects the CRC verification. -/
def FwInfo.verifyCrc (info : FwInfo) : Bool :=
  info.algo2.toNat &&& algo2VerifyMask == algo2VerifyCrc

/-- `qbt_fw_check` into the static header -/
def fwCheck (h : Handle) (partLen : Nat) : Prog (Machine σ κ) Bool := do
  if ← fwInfoRead env h partLen false then
    let info ← Prog.gets (·.fwInfo)
    if !fwInfoCheck env.crc info then pure false
    else if ← fwCrcCheck env h srcReadPos info.pkgSize.toNat info.pkgCrc then
      if env.usingAppCheck &&
          info.algo.toNat &&& algoCmprsMask != algoCmprsHpatchlite &&
          info.verifyCrc then
        appCrcCheck env h info
      else pure true
    else pure false
  else pure false

/-- `qbt_dest_part_verify`; the header read replaces the static one. -/
def destPartVerify (h : Handle) (partLen : Nat) : Prog (Machine σ κ) Bool := do
  if ← fwInfoRead env h partLen true then
    let info ← Prog.gets (·.fwInfo)
    if !fwInfoCheck env.crc info then pure false
    else if info.verifyCrc then
      fwCrcCheck env h 0 info.rawSize.toNat info.rawCrc
    else pure true
  else pure false

/-! ## Release -/

/-- The streamed half of `qbt_fw_release`: erase, then the write pass. -/
def streamRelease (dst : Handle) (dstSize : Nat) (src : Handle) (info : FwInfo)
    (algo : AlgoContext κ) : Prog (Machine σ κ) Bool := do
  if ← eraseWithFeed env.io dst 0 info.rawSize.toNat then
    if ← eraseWithFeed env.io dst (u32Sub dstSize srcReadPos) srcReadPos then
      let (ok, _) ← fwStreamProcess env.toPlatform info src algo
        (.write ⟨dst, 0, info.rawSize.toNat⟩)
      fwAlgoDeinit algo
      pure ok
    else
      fwAlgoDeinit algo
      pure false
  else
    fwAlgoDeinit algo
    pure false

/-- The differential half of `qbt_fw_release`; a failed patch returns without
cleaning up the stages. -/
def hpatchRelease (dst src : Handle) (info : FwInfo) (algo : AlgoContext κ) :
    Prog (Machine σ κ) Bool := do
  if ← hpatchliteReleaseFromPart env.io env.hpatch src dst
      (i32 info.pkgSize.toNat) (i32 info.rawSize.toNat) srcReadPos then
    fwAlgoDeinit algo
    pure true
  else pure false

/-- `qbt_fw_release` -/
def fwRelease (dst : Handle) (dstSize : Nat) (src : Handle) (info : FwInfo) :
    Prog (Machine σ κ) Bool :=
  match fwGetAlgoContext env.tables info with
  | none => pure false
  | some algo => do
      if ← fwAlgoInit algo then
        let patched := env.build.usingHpatchlite &&
          algo.cmprs.cmprsId == algoCmprsHpatchlite
        let released ← if patched then hpatchRelease env dst src info algo
          else streamRelease env dst dstSize src info algo
        if released then fwInfoWrite env dst dstSize info true
        else pure false
      else pure false

/-- `qbt_fw_update` of the package whose header is the static one -/
def fwUpdate (dst : Handle) (dstSize : Nat) (src : Handle) :
    Prog (Machine σ κ) Bool := do
  let info ← Prog.gets (·.fwInfo)
  let released ← fwRelease env dst dstSize src info
  let ok ← if released then destPartVerify env dst dstSize else pure false
  emit (.updated dst.target ok)
  pure ok

/-! ## Update paths -/

/-- The product code of the static header is the configured one. -/
def productCodeOk : Prog (Machine σ κ) Bool := do
  let info ← Prog.gets (·.fwInfo)
  pure (match env.productCode with
    | some code => strEq info.fromProdCode code
    | none => true)

/-- `qbt_app_resume_from` between opening both targets and closing them. -/
def resumeOpened (src : Handle) (srcSize : Nat) (dst : Handle) (dstSize : Nat) :
    Prog (Machine σ κ) Bool := do
  if ← fwCheck env src srcSize then
    if ← productCodeOk env then
      let info ← Prog.gets (·.fwInfo)
      if strEq info.fromPartName TargetId.app.roleName then
        fwUpdate env dst dstSize src
      else pure false
    else pure false
  else pure false

/-- `qbt_app_resume_from` -/
def appResumeFrom (srcId : TargetId) : Prog (Machine σ κ) Bool := do
  match ← targetOpen env.io srcId .read with
  | (some src, some srcSize) =>
      match ← targetOpen env.io .app .writeCreate with
      | (some dst, some dstSize) =>
          let rst ← resumeOpened env src srcSize dst dstSize
          targetClose env.io src
          targetClose env.io dst
          pure rst
      | _ =>
          targetClose env.io src
          pure false
  | _ => pure false

/-- Update `dst` from the open package, and mark the package as released. -/
def updateAndSign (dst : Handle) (dstSize : Nat) (src : Handle) :
    Prog (Machine σ κ) Bool := do
  if ← fwUpdate env dst dstSize src then
    if !(← releaseSignCheck env src) then
      let _ ← releaseSignWrite env src
    pure true
  else pure false

/-- `qbt_release_from_part` between opening the source and closing it.  A
destination whose size query failed is closed a second time. -/
def releaseOpened (src : Handle) (srcSize : Nat) (checkSign : Bool) :
    Prog (Machine σ κ) Bool := do
  if ← fwCheck env src srcSize then
    if ← productCodeOk env then
      if ← (if checkSign then releaseSignCheck env src else pure false) then
        pure true
      else
        let info ← Prog.gets (·.fwInfo)
        match nameToId env.hpatch.cfg.useStorageSwap info.fromPartName with
        | none => pure false
        | some dstId =>
            match ← targetOpen env.io dstId .writeCreate with
            | (some dst, some dstSize) =>
                let rst ← updateAndSign env dst dstSize src
                targetClose env.io dst
                pure rst
            | (some dst, none) =>
                targetClose env.io dst
                pure false
            | (none, _) => pure false
    else pure false
  else pure false

/-- `qbt_release_from_part` -/
def releaseFromPart (srcId : TargetId) (checkSign : Bool) :
    Prog (Machine σ κ) Bool := do
  emit (.releaseStart srcId checkSign)
  let rst ←
    match ← targetOpen env.io srcId .read with
    | (some src, some srcSize) => do
        let rst ← releaseOpened env src srcSize checkSign
        targetClose env.io src
        pure rst
    | _ => pure false
  emit (.released srcId checkSign rst)
  pure rst

/-! ## The thread -/

/-- The answers that `qbt_thread_entry` gets from its surroundings: the key, the
shell, what happens to storage while the update manager polls, and whether a
jump to the application comes back. -/
structure BootInputs (σ : Type) where
  storageRegistered : Bool
  usingFactoryKey : Bool
  factoryKeyPressed : Bool
  usingShell : Bool
  shellStarts : Bool → Bool
  updateMgrPoll : Option (Prog σ Unit)
  jumpReturns : Bool

/-- `qbt_jump_to_app_with_feed`, then what follows if the jump comes back. -/
def jumpToAppThen (inp : BootInputs σ) (next : Prog (Machine σ κ) Unit) :
    Prog (Machine σ κ) Unit := do
  emit .jumped
  if inp.jumpReturns then next else pure ()

/-- Start the shell where it is configured; otherwise go on. -/
def unlessShell (inp : BootInputs σ) (waitPressKey : Bool)
    (next : Prog (Machine σ κ) Unit) : Prog (Machine σ κ) Unit :=
  if inp.usingShell && inp.shellStarts waitPressKey then pure () else next

/-- The last steps of `qbt_thread_entry`. -/
def bootGiveUp (inp : BootInputs σ) : Prog (Machine σ κ) Unit := do
  emit (.notified false)
  unlessShell inp false (emit .reset)

/-- Resume the application from `srcId` and jump; otherwise go on. -/
def resumeThen (inp : BootInputs σ) (srcId : TargetId)
    (next : Prog (Machine σ κ) Unit) : Prog (Machine σ κ) Unit := do
  if ← appResumeFrom env srcId then jumpToAppThen inp next else next

/-- `qbt_thread_entry` from the release of DOWNLOAD on. -/
def bootRelease (inp : BootInputs σ) : Prog (Machine σ κ) Unit := do
  let _ ← releaseFromPart env .download true
  -- the answer of the release is not looked at
  jumpToAppThen inp
    (resumeThen env inp .download
      (resumeThen env inp .factory (bootGiveUp inp)))

/-- `qbt_thread_entry` from the boot shell on. -/
def bootMain (inp : BootInputs σ) : Prog (Machine σ κ) Unit :=
  unlessShell inp true do
    match inp.updateMgrPoll with
    | some poll => do
        onDev poll
        emit (.notified true)
        bootRelease env inp
    | none => bootRelease env inp

/-- `qbt_thread_entry` -/
def threadEntry (inp : BootInputs σ) : Prog (Machine σ κ) Unit :=
  if !inp.storageRegistered then unlessShell inp false (emit .reset)
  else if inp.usingFactoryKey && inp.factoryKeyPressed then
    resumeThen env inp .factory (bootMain env inp)
  else bootMain env inp

end Qboot
