import Qboot.Proofs.BootPath
import Qboot.Proofs.FileUpdate
import Qboot.Proofs.SourceKept
/-!
# What an update installs in a file

The destination is closed after `qbt_fw_update`, opened again, and verified with
the size it has then.  The header's place comes from the size before the erase,
so the old content decides whether image and header stand side by side.
-/

namespace Qboot

open Library Bytes Posix Machine Prog

variable {κ : Type} {env : Env FsDev κ} {info : FwInfo} {crc : CrcLib} {cfg : HpatchConfig}
  {id : TargetId} {old image content : List UInt8} {size : Nat}

/-! ## Contents -/

def foundSize (cfg : HpatchConfig) (id : TargetId) (content : List UInt8) : Nat :=
  u32 ((fixedSize cfg id).getD content.length)

/-- The image passes the verification that the header selects. -/
def ImageMatches (crc : CrcLib) (info : FwInfo) (image : List UInt8) : Prop :=
  info.verifyCrc = true → info.rawSize.toNat < 2 ^ 31 ∧ crc.whole image = info.rawCrc

theorem tailVerifies_iff (hcheck : fwInfoCheck crc info = true) (hsize : srcReadPos ≤ size)
    (hthere : size ≤ content.length)
    (htail : (content.take size).drop (size - srcReadPos) = info.toBytes) :
    TailVerifies crc content size ↔
      (info.verifyCrc = true → CrcMatches crc content info.rawSize.toNat info.rawCrc) := by
  have hfits : size - srcReadPos + srcReadPos ≤ content.length := by omega
  obtain ⟨block, hblock, hbytes⟩ := readSlice_of_le hfits
  have hinfo : FwInfo.ofBytes block = info := by
    have heq : block = ⟨info.toBytes, info.length_toBytes⟩ := by
      apply Subtype.ext
      rw [hbytes, slice, Nat.sub_add_cancel hsize, htail]
    rw [heq, FwInfo.ofBytes_toBytes]
  constructor
  · rintro ⟨-, block', hblock', -, hcrc⟩
    obtain rfl : block = block' := Option.some.inj (hblock.symm.trans hblock')
    rw [hinfo] at hcrc
    exact hcrc
  · intro hcrc
    refine ⟨hsize, block, hblock, ?_⟩
    rw [hinfo]
    exact ⟨hcheck, hcrc⟩

theorem crcMatches_iff (hstart : image <+: content)
    (hlen : image.length = info.rawSize.toNat) :
    CrcMatches crc content info.rawSize.toNat info.rawCrc ↔
      info.rawSize.toNat < 2 ^ 31 ∧ crc.whole image = info.rawCrc := by
  have htake : content.take info.rawSize.toNat = image := by
    rw [← hlen]
    exact (List.prefix_iff_eq_take.mp hstart).symm
  have hle : info.rawSize.toNat ≤ content.length := hlen ▸ hstart.length_le
  rw [CrcMatches, htake]
  exact ⟨fun ⟨hsmall, _, hcrc⟩ => ⟨hsmall, hcrc⟩, fun ⟨hsmall, hcrc⟩ => ⟨hsmall, hle, hcrc⟩⟩

/-- What the header overwrites of the image repeats it; where the file ends with the
image, the image is verified by its own tail. -/
structure HeaderFits (crc : CrcLib) (cfg : HpatchConfig) (id : TargetId) (size : Nat)
    (info : FwInfo) (image : List UInt8) : Prop where
  room : srcReadPos ≤ size
  overlap : (image.drop (size - srcReadPos)).take srcReadPos <+: info.toBytes
  tail : fixedSize cfg id = none → size < image.length → TailVerifies crc image image.length

theorem HeaderFits.of_room (crc : CrcLib) (cfg : HpatchConfig) (id : TargetId) (info : FwInfo)
    (hroom : image.length + srcReadPos ≤ size) : HeaderFits crc cfg id size info image where
  room := (Nat.le_add_left _ _).trans hroom
  overlap := by
    have hdrop : image.drop (size - srcReadPos) = [] :=
      List.drop_of_length_le (Nat.le_sub_of_add_le hroom)
    rw [hdrop, List.take_nil]
    exact List.nil_prefix
  tail _ hlong := absurd hlong (not_lt.mpr ((Nat.le_add_right _ _).trans hroom))

section FileAfter

variable (hroom : srcReadPos ≤ size) (hsize : size < 2 ^ 32)

include hroom hsize

theorem fileAfter_eq (cfg : HpatchConfig) (id : TargetId) (old : List UInt8) (info : FwInfo)
    (image : List UInt8) :
    fileAfter cfg id old size info image =
      writeAt (image ++ (erasedFile cfg id old).drop image.length) (size - srcReadPos)
        info.toBytes := by
  have hpos : u32Sub size srcReadPos = size - srcReadPos := by
    unfold u32Sub u32
    omega
  have hfirst : writeAt (erasedFile cfg id old) 0 image =
      image ++ (erasedFile cfg id old).drop image.length := by
    rw [writeAt_of_le (Nat.zero_le _), List.take_zero, List.nil_append, Nat.zero_add]
  rw [fileAfter, hpos, hfirst]

theorem length_fileAfter (cfg : HpatchConfig) (id : TargetId) (old : List UInt8)
    (info : FwInfo) (image : List UInt8) :
    (fileAfter cfg id old size info image).length =
      max (max image.length ((fixedSize cfg id).getD 0)) size := by
  have hne : info.toBytes ≠ [] := List.ne_nil_of_length_pos (by
    rw [info.length_toBytes]
    decide)
  rw [fileAfter_eq hroom hsize, length_writeAt _ _ hne, info.length_toBytes,
    Nat.sub_add_cancel hroom, List.length_append, List.length_drop, erasedFile, length_resize]
  omega

theorem tail_fileAfter (cfg : HpatchConfig) (id : TargetId) (old : List UInt8)
    (info : FwInfo) (image : List UInt8) :
    ((fileAfter cfg id old size info image).take size).drop (size - srcReadPos) =
      info.toBytes := by
  have hne : info.toBytes ≠ [] := List.ne_nil_of_length_pos (by
    rw [info.length_toBytes]
    decide)
  rw [fileAfter_eq hroom hsize]
  generalize image ++ (erasedFile cfg id old).drop image.length = before
  have hslice : ((writeAt before (size - srcReadPos) info.toBytes).take
      (size - srcReadPos + info.toBytes.length)).drop (size - srcReadPos) = info.toBytes :=
    slice_writeAt hne
  rw [info.length_toBytes, Nat.sub_add_cancel hroom] at hslice
  exact hslice

theorem prefix_fileAfter_iff (cfg : HpatchConfig) (id : TargetId) (old : List UInt8)
    (info : FwInfo) (image : List UInt8) :
    image <+: fileAfter cfg id old size info image ↔
      (image.drop (size - srcReadPos)).take srcReadPos <+: info.toBytes := by
  rw [fileAfter_eq hroom hsize, prefix_writeAt_iff, info.length_toBytes]

end FileAfter

/-- The file is verified with the old size and with the new one, and starts with the
image, exactly if the image is right and the header fits. -/
theorem fileAfter_installed_iff (hcheck : fwInfoCheck crc info = true)
    (hlen : image.length = info.rawSize.toNat) (hsize : size = foundSize cfg id old) :
    (TailVerifies crc (fileAfter cfg id old size info image) size ∧
      image <+: fileAfter cfg id old size info image ∧
      TailVerifies crc (fileAfter cfg id old size info image)
        (foundSize cfg id (fileAfter cfg id old size info image))) ↔
      ImageMatches crc info image ∧ HeaderFits crc cfg id size info image := by
  have hlt : size < 2 ^ 32 := by
    rw [hsize, foundSize]
    exact Nat.mod_lt _ (by decide)
  by_cases hroom : srcReadPos ≤ size
  swap
  · exact iff_of_false (fun h => hroom h.1.1) fun h => hroom h.2.room
  have hlength := length_fileAfter hroom hlt cfg id old info image
  have htail := tail_fileAfter hroom hlt cfg id old info image
  have hprefix := prefix_fileAfter_iff hroom hlt cfg id old info image
  generalize fileAfter cfg id old size info image = F at hlength htail hprefix ⊢
  have hverifies : TailVerifies crc F size ↔ _ :=
    tailVerifies_iff hcheck hroom (by rw [hlength]; exact le_max_right _ _) htail
  have himage (hstart : image <+: F) : TailVerifies crc F size ↔ ImageMatches crc info image := by
    rw [hverifies, crcMatches_iff hstart hlen, ImageMatches]
  have hfound (hstart : image <+: F) : TailVerifies crc F size →
      (TailVerifies crc F (foundSize cfg id F) ↔
        (fixedSize cfg id = none → size < image.length →
          TailVerifies crc image image.length)) := by
    intro hold
    cases hfixed : fixedSize cfg id with
    | some n =>
        have hsame : foundSize cfg id F = size := by
          rw [hsize, foundSize, foundSize, hfixed]
          rfl
        rw [hsame]
        exact iff_of_true hold nofun
    | none =>
        have hraw : image.length < 2 ^ 32 := hlen ▸ info.rawSize.toNat_lt
        have hmax : F.length = max image.length size := by
          rw [hlength, hfixed]
          simp
        have hnew : foundSize cfg id F = max image.length size := by
          rw [foundSize, hfixed, ← hmax]
          refine Nat.mod_eq_of_lt ?_
          show F.length < _
          omega
        rcases Nat.lt_or_ge size image.length with hlong | hshort
        · have hwhole : F = image := by
            refine (hstart.eq_of_length ?_).symm
            omega
          rw [hnew, Nat.max_eq_left hlong.le, hwhole]
          exact ⟨fun h _ _ => h, fun h => h rfl hlong⟩
        · rw [hnew, Nat.max_eq_right hshort]
          exact iff_of_true hold fun _ hlong => absurd hlong (not_lt.mpr hshort)
  constructor
  · rintro ⟨hold, hstart, hnew⟩
    exact ⟨(himage hstart).mp hold, hroom, hprefix.mp hstart, (hfound hstart hold).mp hnew⟩
  · rintro ⟨hmatch, hfits⟩
    have hstart : image <+: F := hprefix.mpr hfits.overlap
    have hold : TailVerifies crc F size := (himage hstart).mpr hmatch
    exact ⟨hold, hstart, (hfound hstart hold).mpr hfits.tail⟩

/-! ## The update -/

theorem fwCheck_info {σ : Type} {env : Env σ κ} {h : Handle} {partLen : Nat}
    {m₀ m : Machine σ κ} (haccepts : fwCheck env h partLen m₀ = (true, m)) :
    fwInfoCheck env.crc m.fwInfo = true := by
  rcases hread : fwInfoRead env h partLen false m₀ with ⟨_ | _, m₁⟩
  · rw [fwCheck, run_bind, hread] at haccepts
    exact absurd (congrArg Prod.fst haccepts) Bool.false_ne_true
  generalize hrest : (do
      if ← fwCrcCheck env h srcReadPos m₁.fwInfo.pkgSize.toNat m₁.fwInfo.pkgCrc then
        if env.usingAppCheck &&
            m₁.fwInfo.algo.toNat &&& algoCmprsMask != algoCmprsHpatchlite &&
            m₁.fwInfo.verifyCrc then
          appCrcCheck env h m₁.fwInfo
        else pure true
      else pure false : Prog (Machine σ κ) Bool) = rest
  have hkeeps : Within SameInfo rest := by
    rw [← hrest]
    exact (on_fwCrcCheck (sameInfo_admits _) trivial _ _ _).bind fun _ =>
      .ite (.ite (on_appCrcCheck (sameInfo_admits _) trivial _) (.pure _)) (.pure _)
  have hrun : fwCheck env h partLen m₀ =
      (if !fwInfoCheck env.crc m₁.fwInfo then pure false else rest) m₁ := by
    rw [fwCheck, run_bind, hread, ← hrest]
    rfl
  rw [hrun] at haccepts
  cases hinfo : fwInfoCheck env.crc m₁.fwInfo with
  | false =>
      rw [hinfo] at haccepts
      exact absurd (congrArg Prod.fst haccepts) Bool.false_ne_true
  | true =>
      rw [hinfo] at haccepts
      have hend : rest m₁ = (true, m) := haccepts
      have hsame : m.fwInfo = m₁.fwInfo := by
        have hlast := hkeeps m₁
        rwa [hend] at hlast
      rw [hsame, hinfo]

def verifyReopened (env : Env FsDev κ) (dst : Handle) : Prog (Machine FsDev κ) Bool := do
  targetClose (fsEnv env).io dst
  match ← targetOpen (fsEnv env).io dst.target .read with
  | (some h, some partLen) => destPartVerify (fsEnv env) h partLen
  | _ => pure false

/-- `qbt_fw_update`, and the later verification. -/
def updateAndReopen (env : Env FsDev κ) (dst : Handle) (dstSize : Nat) (src : Handle) :
    Prog (Machine FsDev κ) (Bool × Bool) := do
  let updated ← fwUpdate (fsEnv env) dst dstSize src
  let verified ← verifyReopened env dst
  pure (updated, verified)

/-- The image that the stages deliver of the package whose header is the static one. -/
def packageImage (env : Env FsDev κ) (src dst : Handle) (m : Machine FsDev κ) :
    Option (List UInt8) :=
  imageOf env m.fwInfo src dst ((m.dev.bytes src.target).drop srcReadPos) m.mem

def Installs (env : Env FsDev κ) (dst : Handle) (dstSize : Nat) (src : Handle)
    (m : Machine FsDev κ) : Prop :=
  ∃ image m', packageImage env src dst m = some image ∧
    image.length = m.fwInfo.rawSize.toNat ∧
    updateAndReopen env dst dstSize src m = ((true, true), m') ∧
    image <+: m'.dev.bytes dst.target

variable {src dst : Handle} {m : Machine FsDev κ}

/-- A failed update installs nothing. -/
theorem not_installs_of_update (hfails : (fwUpdate (fsEnv env) dst size src m).1 = false) :
    ¬Installs env dst size src m := by
  rintro ⟨image, m', -, -, hrun, -⟩
  rw [updateAndReopen, run_bind] at hrun
  have hok : (fwUpdate (fsEnv env) dst size src m).1 = true := congrArg (·.1.1) hrun
  exact Bool.false_ne_true (hfails.symm.trans hok)

theorem targetOpen_some {σ : Type} {io : IoOps σ} {flags : OpenFlags} {ref n : Nat}
    {d d' : σ} {m : Machine σ κ} (hopen : io.openTarget id flags m.dev = (some ref, d))
    (hsize : io.size ⟨id, ref⟩ d = (some n, d')) :
    ∃ m', targetOpen io id flags m = ((some ⟨id, ref⟩, some n), m') ∧ m'.dev = d' := by
  simp [targetOpen, hopen, hsize]

theorem verifyReopened_files (env : Env FsDev κ) {writable : Bool}
    (hopen : m.dev.OpenOn dst.target writable) (hoff : 2 ^ 33 ≤ m.dev.sys.offMax)
    (hfile : m.dev.sys.file (.target dst.target) = some content)
    (hlen : fixedSize env.hpatch.cfg dst.target = none →
      content.length ≤ m.dev.sys.offMax) :
    ∃ ok m', verifyReopened env dst m = (ok, m') ∧ m'.dev.bytes dst.target = content ∧
      (ok = true ↔
        TailVerifies env.crc content (foundSize env.hpatch.cfg dst.target content)) := by
  obtain ⟨d', hreopen, hopen', hfiles, hmax⟩ := fsReopen hopen (by rw [hfile]; rfl)
  have hbytes : d'.bytes dst.target = content := by
    rw [FsDev.bytes, FileSys.content, hfiles, hfile]
    rfl
  have hsize : fsSize env.hpatch.cfg ⟨dst.target, 0⟩ d' =
      (some (foundSize env.hpatch.cfg dst.target content), d') := by
    have hfound := fsSize_open (h := ⟨dst.target, 0⟩) hopen' env.hpatch.cfg (by
      rw [hmax, hbytes]
      exact hlen)
    rw [hbytes] at hfound
    exact hfound
  rw [← hmax] at hoff
  obtain ⟨m₁, hopened, hdev₁⟩ : ∃ m₁, targetOpen (fsEnv env).io dst.target .read
      (targetClose (fsEnv env).io dst m).2 = ((some ⟨dst.target, 0⟩,
        some (foundSize env.hpatch.cfg dst.target content)), m₁) ∧ m₁.dev = d' :=
    targetOpen_some hreopen hsize
  have hserving : Serving (fsEnv env).io ⟨dst.target, 0⟩ content d'.Keeps := by
    have hserves := serving_files env.hpatch.cfg (h := ⟨dst.target, 0⟩) hopen' hoff
    rw [hbytes] at hserves
    exact hserves
  obtain ⟨ok, m₂, hverify, hkeeps, hiff⟩ := destPartVerify_serving (m := m₁) hserving
    (Nat.mod_lt _ (by decide) : foundSize env.hpatch.cfg dst.target content < 2 ^ 32)
    (by rw [hdev₁]; exact ⟨.refl d', rfl⟩)
  refine ⟨ok, m₂, ?_, (hkeeps.bytes _).trans hbytes, hiff⟩
  rw [verifyReopened, run_bind, run_bind, hopened]
  exact hverify

/-- What an update leaves of a package that decodes to `image`. -/
theorem fwUpdate_files (hstream : Streamed env m.fwInfo)
    (hsrc : m.dev.OpenOn src.target false) (hdst : m.dev.OpenOn dst.target true)
    (hne : src.target ≠ dst.target) (hoff : 2 ^ 33 ≤ m.dev.sys.offMax)
    (hsize : size < 2 ^ 32) (himage : packageImage env src dst m = some image) :
    ∃ ok m', fwUpdate (fsEnv env) dst size src m = (ok, m') ∧ KeepsTable m.dev m'.dev ∧
      m'.dev.sys.file (.target dst.target) = some (fileAfter env.hpatch.cfg dst.target
        (m.dev.bytes dst.target) size m.fwInfo image) ∧
      image.length = m.fwInfo.rawSize.toNat ∧
      (ok = true ↔ TailVerifies env.crc (fileAfter env.hpatch.cfg dst.target
        (m.dev.bytes dst.target) size m.fwInfo image) size) := by
  obtain ⟨ok, m₁, hrelease, hkeeps, hok, hresult⟩ :=
    fwRelease_files hsrc hdst hne hoff env hstream size
  obtain rfl : ok = true := hok.mpr ⟨image, himage⟩
  obtain ⟨hlen, hfile⟩ := hresult image himage
  generalize fileAfter env.hpatch.cfg dst.target (m.dev.bytes dst.target) size m.fwInfo
    image = F at hfile ⊢
  have hbytes : m₁.dev.bytes dst.target = F := by
    rw [FsDev.bytes, FileSys.content, hfile]
    rfl
  have hserving : Serving (fsEnv env).io dst F m₁.dev.Keeps := by
    have hserves := serving_files env.hpatch.cfg (hdst.kept hkeeps)
      (hoff.trans_eq hkeeps.sys.offMax.symm)
    rw [hbytes] at hserves
    exact hserves
  obtain ⟨ok, m₂, hverify, hsame, hiff⟩ :=
    destPartVerify_serving (m := m₁) hserving hsize ⟨.refl m₁.dev, rfl⟩
  have hsame : m₁.dev.Keeps m₂.dev := hsame
  refine ⟨ok, (emit (.updated dst.target ok) m₂).2, ?_, hkeeps.trans hsame.toKeepsTable, ?_,
    hlen, hiff⟩
  · simp only [fwUpdate, run_bind, run_gets, hrelease, if_true, hverify]
    rfl
  · show m₂.dev.sys.file _ = _
    rw [hsame.file, hfile]

theorem foundSize_of_size {writable : Bool} (hopen : m.dev.OpenOn dst.target writable)
    (hsize : (fsSize cfg dst m.dev).1 = some size) :
    size = foundSize cfg dst.target (m.dev.bytes dst.target) := by
  obtain ⟨fd, serial, hslot, hdesc, -⟩ := hopen
  unfold fsSize at hsize
  unfold foundSize
  cases hfixed : fixedSize cfg dst.target with
  | some n =>
      rw [hfixed] at hsize
      exact (Option.some.inj hsize).symm
  | none =>
      rw [hfixed, hslot] at hsize
      simp only [FileSys.fileLength, hdesc] at hsize
      split at hsize
      · exact (Option.some.inj hsize).symm
      · simp at hsize

section Install

variable {srcSize : Nat} {m₀ : Machine FsDev κ}
  (haccepts : fwCheck (fsEnv env) src srcSize m₀ = (true, m))
  (hstream : Streamed env m.fwInfo)
  (hsrc : m.dev.OpenOn src.target false) (hdst : m.dev.OpenOn dst.target true)
  (hne : src.target ≠ dst.target) (hoff : 2 ^ 33 ≤ m.dev.sys.offMax)
  (hsize : (fsSize env.hpatch.cfg dst m.dev).1 = some size)

include hstream hsrc hdst hne hoff in
theorem updateAndReopen_files (hroom : srcReadPos ≤ size) (hlt : size < 2 ^ 32)
    (himage : packageImage env src dst m = some image) :
    ∃ ok ok' m', updateAndReopen env dst size src m = ((ok, ok'), m') ∧
      image.length = m.fwInfo.rawSize.toNat ∧
      ((ok = true ∧ image <+: m'.dev.bytes dst.target ∧ ok' = true) ↔
        TailVerifies env.crc (fileAfter env.hpatch.cfg dst.target (m.dev.bytes dst.target)
          size m.fwInfo image) size ∧
        image <+: fileAfter env.hpatch.cfg dst.target (m.dev.bytes dst.target) size
          m.fwInfo image ∧
        TailVerifies env.crc (fileAfter env.hpatch.cfg dst.target (m.dev.bytes dst.target)
          size m.fwInfo image) (foundSize env.hpatch.cfg dst.target
            (fileAfter env.hpatch.cfg dst.target (m.dev.bytes dst.target) size m.fwInfo
              image))) := by
  obtain ⟨ok, m₁, hupdate, hkeeps, hfile, hlen, hok⟩ :=
    fwUpdate_files hstream hsrc hdst hne hoff hlt himage
  have hlength := length_fileAfter hroom hlt env.hpatch.cfg dst.target
    (m.dev.bytes dst.target) m.fwInfo image
  generalize fileAfter env.hpatch.cfg dst.target (m.dev.bytes dst.target) size m.fwInfo
    image = F at hfile hok hlength ⊢
  have hmax : m₁.dev.sys.offMax = m.dev.sys.offMax := hkeeps.sys.offMax
  obtain ⟨ok', m₂, hverify, hbytes, hok'⟩ := verifyReopened_files env (hdst.kept hkeeps)
    (hoff.trans_eq hmax.symm) hfile fun hfixed => by
      have hraw := m.fwInfo.rawSize.toNat_lt
      rw [hlength, hfixed, hmax]
      show max (max image.length 0) size ≤ _
      omega
  refine ⟨ok, ok', m₂, ?_, hlen, ?_⟩
  · rw [updateAndReopen, run_bind, hupdate]
    dsimp only
    rw [run_bind, hverify]
    rfl
  · rw [hbytes, hok, hok']

include haccepts hstream hsrc hdst hne hoff hsize

/-- An accepted package that is streamed is installed exactly if it decodes to an image
that passes the selected verification, and the header fits. -/
theorem installs_iff :
    Installs env dst size src m ↔
      ∃ image, packageImage env src dst m = some image ∧
        ImageMatches env.crc m.fwInfo image ∧
        HeaderFits env.crc env.hpatch.cfg dst.target size m.fwInfo image := by
  have hcheck : fwInfoCheck (fsEnv env).crc m.fwInfo = true := fwCheck_info haccepts
  have hfound := foundSize_of_size hdst hsize
  have hlt : size < 2 ^ 32 := by
    rw [hfound]
    exact Nat.mod_lt _ (by decide)
  by_cases hroom : srcReadPos ≤ size
  swap
  · refine iff_of_false ?_ fun ⟨image, himage, hmatch, hfits⟩ => hroom hfits.room
    intro hinstalls
    have ⟨image, _, himage, _⟩ := hinstalls
    obtain ⟨ok, m₁, hupdate, -, -, -, hok⟩ :=
      fwUpdate_files hstream hsrc hdst hne hoff hlt himage
    refine not_installs_of_update ?_ hinstalls
    rw [hupdate]
    exact Bool.eq_false_iff.mpr fun htrue => hroom (hok.mp htrue).1
  constructor
  · rintro ⟨image, m', himage, hlen, hrun, hstart⟩
    obtain ⟨ok, ok', m₂, hrun', -, hiff⟩ :=
      updateAndReopen_files hstream hsrc hdst hne hoff hroom hlt himage
    obtain ⟨hoks, rfl⟩ := Prod.mk.inj (hrun'.symm.trans hrun)
    obtain ⟨rfl, rfl⟩ := Prod.mk.inj hoks
    exact ⟨image, himage, (fileAfter_installed_iff hcheck hlen hfound).mp
      (hiff.mp ⟨rfl, hstart, rfl⟩)⟩
  · rintro ⟨image, himage, hgood⟩
    obtain ⟨ok, ok', m', hrun, hlen, hiff⟩ :=
      updateAndReopen_files hstream hsrc hdst hne hoff hroom hlt himage
    obtain ⟨rfl, hstart, rfl⟩ :=
      hiff.mpr ((fileAfter_installed_iff hcheck hlen hfound).mpr hgood)
    exact ⟨image, m', himage, hlen, hrun, hstart⟩

end Install

/-! ## A new file and an old one -/

def plainFileEnv : Env FsDev Unit where
  build := plainBuild
  io := fsIo ⟨false, 0, 4096, 4096, none⟩
  crc := eagerCrcLib
  parser := fsParser
  tables := plainEnv.tables
  hpatch :=
    { cfg := ⟨false, 0, 4096, 4096, none⟩
      malloc := fun n d => (n != 0, d)
      malloc_zero := granted_zero
      hpiPatch := .done false }
  productCode := none
  usingAppCheck := true

/-- DOWNLOAD holds a package of eight bytes and APP the bytes `old`; both are open. -/
def eightByteFiles (old : List UInt8) : Machine FsDev Unit where
  dev :=
    let stored (path : FsPath) : Option (List UInt8) :=
      if path = .target .download then some (eightByteHeader.toBytes ++ [1, 2, 3, 4, 5, 6, 7, 8])
      else if path = .target .app then some old
      else none
    (fsOpen .app .writeCreate (fsOpen .download .read (FsDev.start stored 8 (2 ^ 33))).2).2
  mem := ()
  fwInfo := .ofBytes (Block.ofList srcReadPos [])
  log := []

def eightByteChecked (old : List UInt8) : Machine FsDev Unit :=
  (fwCheck (fsEnv plainFileEnv) ⟨.download, 0⟩ 104 (eightByteFiles old)).2

theorem installs_iff_roomy :
    Installs plainFileEnv ⟨.app, 0⟩ 200 ⟨.download, 0⟩
        (eightByteChecked (List.replicate 200 0)) ↔
      ∃ image, packageImage plainFileEnv ⟨.download, 0⟩ ⟨.app, 0⟩
          (eightByteChecked (List.replicate 200 0)) = some image ∧
        ImageMatches plainFileEnv.crc (eightByteChecked (List.replicate 200 0)).fwInfo image ∧
        HeaderFits plainFileEnv.crc plainFileEnv.hpatch.cfg .app 200
          (eightByteChecked (List.replicate 200 0)).fwInfo image := by
  have haccepts : fwCheck (fsEnv plainFileEnv) ⟨.download, 0⟩ 104
      (eightByteFiles (List.replicate 200 0)) =
        (true, eightByteChecked (List.replicate 200 0)) := by
    unfold eightByteChecked
    generalize hrun : fwCheck (fsEnv plainFileEnv) ⟨.download, 0⟩ 104
      (eightByteFiles (List.replicate 200 0)) = r
    have hok : r.1 = true := by
      rw [← hrun]
      decide +kernel
    exact Prod.ext hok rfl
  refine installs_iff haccepts ?_ ⟨0, 0, ?_, ?_, ?_⟩ ⟨1, 1, ?_, ?_, ?_⟩ ?_ ?_ ?_
  · exact fun _ _ => rfl
  all_goals decide +kernel

/-- A destination that has just been created is too short for the header, and the update
of an accepted package fails. -/
theorem newFile_fails :
    (fwCheck (fsEnv plainFileEnv) ⟨.download, 0⟩ 104 (eightByteFiles [])).1 = true ∧
      (fsSize plainFileEnv.hpatch.cfg ⟨.app, 0⟩ (eightByteChecked []).dev).1 = some 0 ∧
      packageImage plainFileEnv ⟨.download, 0⟩ ⟨.app, 0⟩ (eightByteChecked []) =
        some [1, 2, 3, 4, 5, 6, 7, 8] ∧
      ¬Installs plainFileEnv ⟨.app, 0⟩ 0 ⟨.download, 0⟩ (eightByteChecked []) := by
  refine ⟨by decide +kernel, by decide +kernel, by decide +kernel, ?_⟩
  exact not_installs_of_update (by decide +kernel)

end Qboot
