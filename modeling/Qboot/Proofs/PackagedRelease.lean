import Qboot.Proofs.Encodings
import Qboot.Proofs.FileRelease
import Qboot.Proofs.PackageFormat
/-!
# From the packager to the installed image

What `package_rbl` writes on the host for a target of this bootloader is released there:
the image that went in is what the target holds.  Booting on changes nothing any more.
-/

namespace Qboot

open Library Bytes Posix Machine Prog

variable {Z Q A : Type} {vendor : Vendor Z Q A} {env : Env FsDev (CodecMem Z Q A)}

/-! ## The options -/

def Crypto.packed : Crypto → PackCrypt
  | .none => .none
  | .aes => .aes

def Codec.packed : Codec → PackCmprs
  | .none => .none
  | .gzip => .gzip
  | .quicklz => .quicklz
  | .fastlz => .fastlz

def algoOf (c : Crypto) (d : Codec) : UInt16 := .ofNat (c.packed.algo ||| d.packed.algo)

theorem toNat_algoOf (c : Crypto) (d : Codec) :
    (algoOf c d).toNat = c.packed.algo ||| d.packed.algo := by
  cases c <;> cases d <;> rfl

theorem selects_algoOf (b : Build) (v : Vendor Z Q A) (c : Crypto) (d : Codec) {info : FwInfo}
    (h : info.algo = algoOf c d) : Selects b v c (.codec d) info := by
  rw [Selects, h]
  cases c <;> cases d <;> exact ⟨rfl, rfl⟩

def PackVerify.algo2 (verify : PackVerify) : UInt16 := .ofNat verify.algo

theorem packageRbl_eq (pkgObj rawFw : List UInt8) (c : Crypto) (d : Codec) (verify : PackVerify)
    (timestamp : Nat) (part version product : String) :
    packageRbl pkgObj rawFw c.packed d.packed verify timestamp part version product =
      (createRblHeader rawFw pkgObj (algoOf c d).toNat verify.algo2.toNat timestamp part version
        product).map (· ++ pkgObj) := by
  have halgo2 : (if d.packed = .hpatchlite then PackVerify.none.algo else verify.algo) =
      verify.algo2.toNat := by
    rw [if_neg (by cases d <;> decide)]
    cases verify <;> rfl
  rw [packageRbl, halgo2, ← toNat_algoOf, Option.map_eq_bind]
  rfl

theorem packageRbl_some {pkgObj rawFw rbl : List UInt8} {c : Crypto} {d : Codec}
    {verify : PackVerify} {timestamp : Nat} {part version product : String}
    (h : packageRbl pkgObj rawFw c.packed d.packed verify timestamp part version product =
      some rbl) :
    rbl = (packedBody rawFw pkgObj (algoOf c d) verify.algo2 timestamp part version
      product).sealed.toBytes ++ pkgObj := by
  rw [packageRbl_eq] at h
  obtain ⟨header, hheader, rfl⟩ := Option.map_eq_some_iff.mp h
  obtain ⟨rfl, -⟩ := createRblHeader_some hheader
  rfl

/-! ## Names -/

theorem zero_notMem_roleName (id : TargetId) : 0 ∉ id.roleName := by
  cases id <;> decide

theorem length_roleName (id : TargetId) : id.roleName.length < 16 := by
  cases id <;> decide

theorem roleName_injective {id id' : TargetId} (h : id.roleName = id'.roleName) : id = id' := by
  revert h
  cases id <;> cases id' <;> decide

theorem strEq_ofList {n : Nat} {text : List UInt8} (hzero : 0 ∉ text) (hlen : text.length < n) :
    strEq (Block.ofList n text).1 text = true :=
  strEq_of_cString ((cString_ofList hzero).mpr hlen)

theorem nameToId_of_strEq {storageSwap : Bool} {name : List UInt8} {id : TargetId}
    (hname : strEq name id.roleName = true) (hid : id ∈ targetList storageSwap) :
    nameToId storageSwap name = some id := by
  have hiff (id' : TargetId) : strEq name id'.roleName = decide (id' = id) := by
    by_cases hsame : id' = id
    · rw [hsame, hname, decide_eq_true rfl]
    · rw [decide_eq_false hsame]
      refine Bool.eq_false_iff.mpr fun hother => hsame (roleName_injective ?_)
      exact strEq_unique hother hname (zero_notMem_roleName id') (zero_notMem_roleName id)
  simp only [nameToId, hiff]
  revert hid
  cases storageSwap <;> cases id <;> decide

/-! ## A package file -/

theorem contentHeader_package (info : FwInfo) (body : List UInt8) :
    contentHeader (info.toBytes ++ body) = info := by
  have hblock : Block.ofList srcReadPos (info.toBytes ++ body) =
      ⟨info.toBytes, info.length_toBytes⟩ := by
    apply Subtype.ext
    show ((info.toBytes ++ body) ++ List.replicate srcReadPos 0).take srcReadPos = _
    rw [List.append_assoc]
    exact List.take_left' info.length_toBytes
  rw [contentHeader, hblock, FwInfo.ofBytes_toBytes]

theorem drop_package (info : FwInfo) (body : List UInt8) :
    (info.toBytes ++ body).drop srcReadPos = body :=
  List.drop_left' info.length_toBytes

/-- A package for the bootloader `env` and its target `dst`: the host has encoded the
firmware as the stages decode it, and the names fit their fields. -/
structure PackedFor (env : Env FsDev (CodecMem Z Q A)) (vendor : Vendor Z Q A) (c : Crypto)
    (d : Codec) (dst : TargetId) (pkgObj rawFw : List UInt8) (part product : String) :
    Prop where
  tables : env.tables = startupTables env.build vendor
  crc : env.crc = crc32Lib
  crypto : c.enabled env.build = true
  codec : d.enabled env.build = true
  chains : c.Chains vendor
  encodes : Encodes vendor d (c.apply vendor vendor.aes.init pkgObj).1 rawFw
  pkgSmall : pkgObj.length < 2 ^ 31
  rawSmall : rawFw.length < 2 ^ 31
  part : utf8 part = dst.roleName
  listed : dst ∈ targetList env.hpatch.cfg.useStorageSwap
  product : ∀ code, env.productCode = some code →
    utf8 product = code ∧ NulFree product ∧ code.length < 24

section Packed

variable {c : Crypto} {d : Codec} {src dst : TargetId} {pkgObj rawFw rbl : List UInt8}
  {verify : PackVerify} {timestamp : Nat} {part version product : String}

theorem Encodes.not_gzip {stream image : List UInt8} (h : Encodes vendor d stream image) :
    (algoOf c d).toNat &&& algoCmprsMask ≠ algoCmprsGzip := by
  rw [toNat_algoOf]
  cases h <;> cases c <;> decide

theorem Encodes.not_hpatchlite {stream image : List UInt8}
    (h : Encodes vendor d stream image) :
    (algoOf c d).toNat &&& algoCmprsMask ≠ algoCmprsHpatchlite := by
  rw [toNat_algoOf]
  cases h <;> cases c <;> decide

variable (h : PackedFor env vendor c d dst pkgObj rawFw part product)
  (hpkg : packageRbl pkgObj rawFw c.packed d.packed verify timestamp part version product =
    some rbl)

include h hpkg

omit h in
theorem contentHeader_packageRbl :
    contentHeader rbl = (packedBody rawFw pkgObj (algoOf c d) verify.algo2 timestamp part
      version product).sealed := by
  rw [packageRbl_some hpkg, contentHeader_package]

theorem PackedFor.image (src dst : Handle) (k : CodecMem Z Q A) :
    imageOf env (contentHeader rbl) src dst (rbl.drop srcReadPos) k = some rawFw := by
  have hdrop : rbl.drop srcReadPos = pkgObj := by
    rw [packageRbl_some hpkg, drop_package]
  rw [hdrop, contentHeader_packageRbl hpkg]
  have hencoded : EncodedBody env vendor c d (packedBody rawFw pkgObj (algoOf c d)
      verify.algo2 timestamp part version product).sealed pkgObj rawFw :=
    { registered := ⟨h.tables, h.crypto, h.codec, selects_algoOf _ _ _ _ rfl⟩
      chains := h.chains
      pkgSize := UInt32.toNat_ofNat_of_lt' (h.pkgSmall.trans (by decide))
      rawSize := UInt32.toNat_ofNat_of_lt' (h.rawSmall.trans (by decide))
      small := h.pkgSmall
      encodes := h.encodes }
  exact hencoded.image src dst k

theorem PackedFor.named :
    nameToId env.hpatch.cfg.useStorageSwap (contentHeader rbl).fromPartName = some dst := by
  rw [contentHeader_packageRbl hpkg]
  apply nameToId_of_strEq _ h.listed
  rw [FwInfo.fromPartName_eq]
  apply strEq_append
  show strEq (Block.ofList 16 (utf8 part)).1 dst.roleName = true
  rw [h.part]
  exact strEq_ofList (zero_notMem_roleName dst) (length_roleName dst)

/-- What the packager wrote is a package for this product. -/
theorem PackedFor.taken (src : TargetId) (k : CodecMem Z Q A) : Taken env src k rbl where
  package :=
    { header := by
        rw [packageRbl_some hpkg, List.length_append, FwInfo.length_toBytes]
        exact Nat.le_add_right _ _
      check := by
        rw [contentHeader_packageRbl hpkg]
        show fwInfoCheck env.crc _ = true
        rw [h.crc]
        exact fwInfoCheck_sealed rfl
      body := by
        rw [contentHeader_packageRbl hpkg, packageRbl_some hpkg, drop_package]
        have hsize : (packedBody rawFw pkgObj (algoOf c d) verify.algo2 timestamp part version
            product).sealed.pkgSize.toNat = pkgObj.length :=
          UInt32.toNat_ofNat_of_lt' (h.pkgSmall.trans (by decide))
        rw [hsize]
        refine ⟨h.pkgSmall, le_rfl, ?_⟩
        rw [List.take_length]
        show CrcLib.whole env.crc pkgObj = _
        rw [h.crc]
        rfl
      image := fun _ _ => by
        refine ⟨rawFw, h.image hpkg _ _ k, ?_⟩
        show CrcLib.whole env.crc rawFw = _
        rw [contentHeader_packageRbl hpkg, h.crc]
        rfl }
  product code hcode := by
    obtain ⟨hproduct, hnul, hlen⟩ := h.product code hcode
    rw [contentHeader_packageRbl hpkg]
    rw [FwInfo.fromProdCode_eq]
    apply strEq_append
    show strEq (Block.ofList 24 (utf8 product)).1 code = true
    rw [hproduct]
    exact strEq_ofList (hproduct ▸ hnul.utf8) hlen

theorem PackedFor.streamable (hne : dst ≠ src) : Streamable env src rbl where
  gzip _ := by
    rw [contentHeader_packageRbl hpkg]
    exact h.encodes.not_gzip
  patch := by
    rw [contentHeader_packageRbl hpkg]
    exact h.encodes.not_hpatchlite
  other := by
    rw [h.named hpkg]
    exact fun heq => hne (Option.some.inj heq)

end Packed

/-! ## The image of a package -/

theorem receives_bodyIo (body : List UInt8) (src dst : Handle) (size : Nat) :
    Receives (bodyIo body) src body dst size fun _ _ => True where
  read _ dev off len _ _ _ _ := by
    refine ⟨(), ?_, trivial⟩
    show (readSlice body (srcReadPos + off - srcReadPos) len, ()) = _
    rw [Nat.add_sub_cancel_left]
  write _ _ _ _ _ _ := ⟨(), rfl, trivial⟩

theorem length_imageOf {σ κ : Type} {env : Env σ κ} {info : FwInfo} {src dst : Handle}
    {body image : List UInt8} {k : κ} (h : imageOf env info src dst body k = some image) :
    image.length = info.rawSize.toNat := by
  unfold imageOf at h
  cases halgo : fwGetAlgoContext env.tables info with
  | none =>
      rw [halgo] at h
      cases h
  | some algo =>
      rw [halgo] at h
      dsimp only at h
      generalize fwAlgoInit algo (⟨(), k, info, []⟩ : Machine Unit κ) = r at h
      obtain ⟨ok, pc, m', out, -, -, hunpack, hlen⟩ := fwStreamProcess_receives env.build
        env.crc algo (m := (⟨(), r.2.mem, info, []⟩ : Machine Unit κ))
        (receives_bodyIo body src dst info.rawSize.toNat) trivial
      have hsome : (if r.1 = true then if ok = true then some out else none else none) =
          some image := by
        rw [← hunpack]
        exact h
      cases hr : r.1 with
      | false =>
          rw [hr] at hsome
          cases hsome
      | true =>
          cases ok with
          | false =>
              rw [hr] at hsome
              cases hsome
          | true =>
              rw [hr] at hsome
              cases hsome
              exact hlen rfl

/-! ## What a release came to -/

section Outcome

variable {κ : Type} {env : Env FsDev κ} {src dst : TargetId} {checkSign ok : Bool} {k : κ}
  {file file' : FsPath → Option (List UInt8)} {content image : List UInt8}

theorem FileRelease.due (h : FileRelease env src checkSign k file ok file')
    (hdue : Due env src checkSign k file content dst)
    (himage : fileImage env src k content dst = some image)
    (hyes : TailVerifies env.crc (newContent env file content dst image)
      (oldSize env file dst)) :
    ok = true ∧ file' = stamped (Function.update file (.target dst)
      (some (newContent env file content dst image))) := by
  have hcontent {content' : List UInt8} (h' : file (.target src) = some content') :
      content' = content := Option.some.inj (h'.symm.trans hdue.source)
  have hdst {content' : List UInt8} {dst' : TargetId}
      (h' : Due env src checkSign k file content' dst') : dst' = dst := by
    have hnamed := h'.named
    rw [hcontent h'.source, hdue.named] at hnamed
    exact (Option.some.inj hnamed).symm
  cases h with
  | missing hnone => cases hnone.symm.trans hdue.source
  | refused hsome hno => exact absurd (hcontent hsome ▸ hdue.taken) hno
  | already hsome htaken hsign hsigned =>
      rw [hdue.unsigned hsign] at hsigned
      cases hsigned
  | nowhere hsome htaken hunsigned hname =>
      rw [hcontent hsome, hdue.named] at hname
      cases hname
  | undecoded hdue' hnone rest =>
      obtain rfl := hcontent hdue'.source
      obtain rfl := hdst hdue'
      cases hnone.symm.trans himage
  | unverified hdue' hsome hno =>
      obtain rfl := hcontent hdue'.source
      obtain rfl := hdst hdue'
      obtain rfl := Option.some.inj (hsome.symm.trans himage)
      exact absurd hyes hno
  | released hdue' hsome _ =>
      obtain rfl := hcontent hdue'.source
      obtain rfl := hdst hdue'
      obtain rfl := Option.some.inj (hsome.symm.trans himage)
      exact ⟨rfl, rfl⟩

/-- A package that is due is released exactly when it decodes and verifies. -/
theorem FileRelease.answer_iff (h : FileRelease env src checkSign k file ok file')
    (hdue : Due env src checkSign k file content dst) :
    ok = true ↔ ∃ image, fileImage env src k content dst = some image ∧
      TailVerifies env.crc (newContent env file content dst image) (oldSize env file dst) := by
  constructor
  · rintro rfl
    cases h with
    | already hsome htaken hsign hsigned =>
        rw [hdue.unsigned hsign] at hsigned
        cases hsigned
    | released hdue' hsome hyes =>
        obtain rfl := Option.some.inj (hdue'.source.symm.trans hdue.source)
        obtain rfl := Option.some.inj (hdue'.named.symm.trans hdue.named)
        exact ⟨_, hsome, hyes⟩
  · rintro ⟨image, himage, hyes⟩
    exact (h.due hdue himage hyes).1

theorem FileRelease.signed (h : FileRelease env src true k file ok file')
    (hsource : file (.target src) = some content) (htaken : Taken env src k content)
    (hsigned : (file .sign).isSome) : ok = true ∧ file' = file := by
  have hunsigned {content' : List UInt8} {dst' : TargetId}
      (h' : Due env src true k file content' dst') : False := by
    rw [h'.unsigned rfl] at hsigned
    cases hsigned
  cases h with
  | missing hnone => cases hnone.symm.trans hsource
  | refused hsome hno =>
      obtain rfl := Option.some.inj (hsome.symm.trans hsource)
      exact absurd htaken hno
  | already => exact ⟨rfl, rfl⟩
  | nowhere hsome htaken' hnone hname =>
      rw [hnone rfl] at hsigned
      cases hsigned
  | undecoded hdue | unverified hdue | released hdue => exact (hunsigned hdue).elim

end Outcome

/-! ## The release -/

/-- A device on which nothing is open, with room for three descriptors. -/
structure IdleFs (d : FsDev) : Prop where
  slots : ∀ id, d.slots id = none
  free : 2 < d.sys.freeFds.card
  offMax : 2 ^ 33 ≤ d.sys.offMax
  lens : ∀ id content, d.sys.file (.target id) = some content →
    content.length ≤ d.sys.offMax

section Release

variable {c : Crypto} {d : Codec} {src dst : TargetId} {pkgObj rawFw rbl : List UInt8}
  {verify : PackVerify} {timestamp : Nat} {part version product : String} {checkSign : Bool}
  {m : Machine FsDev (CodecMem Z Q A)}

/-- What the packager made of a firmware for `dst` is released from `src`: `dst` then starts
with the firmware and verifies, and nothing else but the sign has changed. -/
theorem packageRbl_released (h : PackedFor env vendor c d dst pkgObj rawFw part product)
    (hpkg : packageRbl pkgObj rawFw c.packed d.packed verify timestamp part version product =
      some rbl)
    (hidle : IdleFs m.dev) (hsource : m.dev.sys.file (.target src) = some rbl)
    (hne : dst ≠ src) (hunsigned : checkSign = true → m.dev.sys.file .sign = none)
    (hroom : rawFw.length + srcReadPos ≤ oldSize env m.dev.sys.file dst) :
    ∃ m' content, releaseFromPart (fsEnv env) src checkSign m = (true, m') ∧
      m'.dev.sys.file =
        stamped (Function.update m.dev.sys.file (.target dst) (some content)) ∧
      rawFw <+: content ∧
      TailVerifies env.crc content (foundSize env.hpatch.cfg dst content) := by
  have hgood (content : List UInt8) (hcontent : m.dev.sys.file (.target src) = some content) :
      Streamable env src content := by
    obtain rfl := Option.some.inj (hcontent.symm.trans hsource)
    exact h.streamable hpkg hne
  obtain ⟨ok, m', file', hrun, hshows, hrelease⟩ := releaseFromPart_shows m.mem h.tables
    hidle.offMax (FsDev.shows_idle hidle.slots) hidle.free hidle.lens hgood
  have hdue : Due env src checkSign m.mem m.dev.sys.file rbl dst :=
    ⟨hsource, h.taken hpkg src m.mem, hunsigned, h.named hpkg⟩
  have himage : fileImage env src m.mem rbl dst = some rawFw := h.image hpkg _ _ _
  have hmatch : ImageMatches env.crc (contentHeader rbl) rawFw := fun _ => by
    rw [← length_imageOf himage, contentHeader_packageRbl hpkg, h.crc]
    exact ⟨h.rawSmall, rfl⟩
  obtain ⟨hverifies, hstart, hagain⟩ :
      TailVerifies env.crc (newContent env m.dev.sys.file rbl dst rawFw)
          (oldSize env m.dev.sys.file dst) ∧
        rawFw <+: newContent env m.dev.sys.file rbl dst rawFw ∧
        TailVerifies env.crc (newContent env m.dev.sys.file rbl dst rawFw)
          (foundSize env.hpatch.cfg dst (newContent env m.dev.sys.file rbl dst rawFw)) :=
    (fileAfter_installed_iff hdue.taken.package.check (length_imageOf himage) rfl).mpr
      ⟨hmatch, .of_room _ _ _ _ hroom⟩
  obtain ⟨rfl, rfl⟩ := hrelease.due hdue himage hverifies
  exact ⟨m', _, hrun, hshows.file, hstart, hagain⟩

end Release

/-! ## A firmware of three bytes -/

def packedEnv : Env FsDev (CodecMem Unit Unit Unit) := { startupFileEnv with crc := crc32Lib }

def packedThree : List UInt8 :=
  (packedBody [1, 2, 3] [1, 2, 3] (algoOf .none .none) PackVerify.crc.algo2 1 "app" "v1.00"
    "QBOOT").sealed.toBytes ++ [1, 2, 3]

theorem packageRbl_three :
    packageRbl [1, 2, 3] [1, 2, 3] Crypto.none.packed Codec.none.packed .crc 1 "app" "v1.00"
      "QBOOT" = some packedThree := by
  rw [packageRbl_eq, createRblHeader_of_lt (by decide) (by decide) (by decide)]
  rfl

def packedMachine : Machine FsDev (CodecMem Unit Unit Unit) where
  dev :=
    let stored (path : FsPath) : Option (List UInt8) :=
      if path = .target .download then some packedThree
      else if path = .target .app then some (List.replicate 200 0)
      else none
    FsDev.start stored 8 (2 ^ 33)
  mem := startupIdle.mem
  fwInfo := startupIdle.fwInfo
  log := []

theorem packageRbl_released_three :
    ∃ m' content, releaseFromPart (fsEnv packedEnv) .download true packedMachine = (true, m') ∧
      m'.dev.sys.file =
        stamped (Function.update packedMachine.dev.sys.file (.target .app) (some content)) ∧
      [1, 2, 3] <+: content ∧
      TailVerifies packedEnv.crc content (foundSize packedEnv.hpatch.cfg .app content) := by
  have hpacked : PackedFor packedEnv flipVendor .none .none .app [1, 2, 3] [1, 2, 3] "app"
      "QBOOT" :=
    { tables := rfl
      crc := rfl
      crypto := rfl
      codec := rfl
      chains := chains_none flipVendor
      encodes := .none _
      pkgSmall := by decide
      rawSmall := by decide
      part := by decide
      listed := by decide
      product := fun _ hcode => by cases hcode }
  have hidle : IdleFs packedMachine.dev :=
    { slots := fun _ => rfl
      free := by decide +kernel
      offMax := by decide
      lens := by
        intro id content hcontent
        cases id
        case app =>
          cases hcontent
          decide +kernel
        case download =>
          cases hcontent
          rw [packedThree, List.length_append, FwInfo.length_toBytes]
          decide
        all_goals cases hcontent }
  exact packageRbl_released hpacked packageRbl_three hidle rfl (by decide) (fun _ => rfl)
    (by decide +kernel)

/-! ## Boot after boot -/

section Boots

variable {inp : BootInputs FsDev} {openMax offMax : Nat} {k : CodecMem Z Q A}
  {file : FsPath → Option (List UInt8)}

/-- The machine after a reset: nothing is open, and the static memory is `k`. -/
def powerUp (k : CodecMem Z Q A) (openMax offMax : Nat) (file : FsPath → Option (List UInt8)) :
    Machine FsDev (CodecMem Z Q A) where
  dev := .start file openMax offMax
  mem := k
  fwInfo := .ofBytes (Block.ofList srcReadPos [])
  log := []

/-- The files that a boot leaves. -/
def bootFiles (env : Env FsDev (CodecMem Z Q A)) (inp : BootInputs FsDev)
    (k : CodecMem Z Q A) (openMax offMax : Nat) (file : FsPath → Option (List UInt8)) :
    FsPath → Option (List UInt8) :=
  (threadEntry (fsEnv env) inp (powerUp k openMax offMax file)).2.dev.sys.file

/-- Nobody asks for the factory image or the shell, and the jump does not come back. -/
structure StraightBoot (inp : BootInputs FsDev) : Prop where
  registered : inp.storageRegistered = true
  factory : inp.usingFactoryKey = true → inp.factoryKeyPressed = false
  shell : inp.usingShell = true → ∀ wait, inp.shellStarts wait = false
  manager : inp.updateMgrPoll = none
  jump : inp.jumpReturns = false

theorem StraightBoot.run (h : StraightBoot inp) (env : Env FsDev (CodecMem Z Q A))
    (m : Machine FsDev (CodecMem Z Q A)) :
    threadEntry (fsEnv env) inp m =
      ((), (emit .jumped (releaseFromPart (fsEnv env) .download true m).2).2) := by
  have hfactory : (inp.usingFactoryKey && inp.factoryKeyPressed) = false := by
    cases husing : inp.usingFactoryKey with
    | false => rfl
    | true => rw [h.factory husing, Bool.and_false]
  have hshell : (inp.usingShell && inp.shellStarts true) = false := by
    cases husing : inp.usingShell with
    | false => rfl
    | true => rw [h.shell husing, Bool.and_false]
  have hregistered : (!inp.storageRegistered) = false := by rw [h.registered, Bool.not_true]
  simp only [threadEntry, hregistered, hfactory, bootMain, unlessShell, hshell, h.manager,
    bootRelease, jumpToAppThen, h.jump, Bool.false_eq_true, if_false, run_bind]
  rfl

theorem FsDev.shows_start (file : FsPath → Option (List UInt8)) (openMax offMax : Nat) :
    (FsDev.start file openMax offMax).Shows offMax (.idle file openMax) := by
  have hall : (FsDev.start file openMax offMax).sys.freeFds = Finset.range openMax :=
    Finset.filter_true_of_mem fun _ _ => rfl
  have hfree : (FsDev.start file openMax offMax).sys.freeFds.card = openMax := by
    rw [hall, Finset.card_range]
  have hshows := FsDev.shows_idle (d := FsDev.start file openMax offMax) fun _ => rfl
  rwa [hfree] at hshows

theorem stamped_target (file : FsPath → Option (List UInt8)) (id : TargetId) :
    stamped file (.target id) = file (.target id) :=
  Function.update_of_ne (by simp) ..

theorem stamped_sign (file : FsPath → Option (List UInt8)) : (stamped file .sign).isSome := by
  rw [stamped, Function.update_self]
  rfl

theorem length_newContent_le {κ : Type} {env : Env FsDev κ} {src dst : TargetId} {k : κ}
    {content image : List UInt8} (hoff : 2 ^ 33 ≤ offMax)
    (hfixed : ∀ id size, fixedSize env.hpatch.cfg id = some size → size ≤ offMax)
    (himage : fileImage env src k content dst = some image)
    (hyes : TailVerifies env.crc (newContent env file content dst image)
      (oldSize env file dst)) :
    (newContent env file content dst image).length ≤ offMax := by
  have hsize : oldSize env file dst < 2 ^ 32 := Nat.mod_lt _ (by decide)
  have hraw : image.length < 2 ^ 32 := by
    rw [length_imageOf himage]
    exact (contentHeader content).rawSize.toNat_lt
  have hcfg : (fixedSize env.hpatch.cfg dst).getD 0 ≤ offMax := by
    cases hfix : fixedSize env.hpatch.cfg dst with
    | none => exact Nat.zero_le _
    | some size => exact hfixed dst size hfix
  rw [newContent, length_fileAfter hyes.1 hsize]
  omega

section Release

variable (k : CodecMem Z Q A) (hboot : StraightBoot inp)
  (htables : env.tables = startupTables env.build vendor) (hopen : 2 < openMax)
  (hoff : 2 ^ 33 ≤ offMax)

include hboot htables hopen hoff

theorem bootFiles_release (file : FsPath → Option (List UInt8))
    (hlens : ∀ id content, file (.target id) = some content → content.length ≤ offMax)
    (hgood : ∀ content, file (.target .download) = some content →
      Streamable env .download content) :
    FileRelease env .download true k file
      (releaseFromPart (fsEnv env) .download true (powerUp k openMax offMax file)).1
      (bootFiles env inp k openMax offMax file) := by
  obtain ⟨ok, m', file', hrun, hshows, hrelease⟩ : ∃ ok m' file',
      releaseFromPart (fsEnv env) .download true (powerUp k openMax offMax file) = (ok, m') ∧
        m'.dev.Shows offMax (.idle file' openMax) ∧
        FileRelease env .download true k file ok file' :=
    releaseFromPart_shows k htables hoff (FsDev.shows_start file openMax offMax) hopen hlens
      hgood
  rw [bootFiles, hboot.run, hrun]
  show FileRelease env .download true k file ok m'.dev.sys.file
  rw [hshows.file]
  exact hrelease

/-- The boot after a release leaves every file as it is. -/
theorem bootFiles_released {content image : List UInt8} {dst : TargetId}
    (hlens : ∀ id content, file (.target id) = some content → content.length ≤ offMax)
    (hfixed : ∀ id size, fixedSize env.hpatch.cfg id = some size → size ≤ offMax)
    (hgood : ∀ content, file (.target .download) = some content →
      Streamable env .download content)
    (hdue : Due env .download true k file content dst)
    (himage : fileImage env .download k content dst = some image)
    (hyes : TailVerifies env.crc (newContent env file content dst image)
      (oldSize env file dst)) :
    bootFiles env inp k openMax offMax (stamped (Function.update file (.target dst)
        (some (newContent env file content dst image)))) =
      stamped (Function.update file (.target dst)
        (some (newContent env file content dst image))) := by
  have hlen := length_newContent_le hoff hfixed himage hyes
  have hne : dst ≠ .download := by
    rintro rfl
    exact (hgood content hdue.source).other hdue.named
  generalize newContent env file content dst image = new at hlen
  generalize hafter : stamped (Function.update file (.target dst) (some new)) = after
  have hdst : after (.target dst) = some new := by
    rw [← hafter, stamped_target, Function.update_self]
  have hkept (id : TargetId) (hid : id ≠ dst) : after (.target id) = file (.target id) := by
    rw [← hafter, stamped_target, Function.update_of_ne (by simpa using hid)]
  have hsource : after (.target .download) = some content :=
    (hkept _ hne.symm).trans hdue.source
  have hsign : (after .sign).isSome := hafter ▸ stamped_sign _
  have hsecond : FileRelease env .download true k after
      (releaseFromPart (fsEnv env) .download true (powerUp k openMax offMax after)).1
      (bootFiles env inp k openMax offMax after) := by
    apply bootFiles_release k hboot htables hopen hoff after
    · intro id content' hcontent'
      by_cases hid : id = dst
      · rw [hid, hdst] at hcontent'
        rwa [← Option.some.inj hcontent']
      · rw [hkept id hid] at hcontent'
        exact hlens id content' hcontent'
    · exact fun content' hcontent' => hgood content' ((hkept _ hne.symm).symm.trans hcontent')
  exact (hsecond.signed hsource hdue.taken hsign).2

end Release

/-- Once a boot has released its package, the boots that follow leave every file as it is. -/
theorem reboots_keep (hboot : StraightBoot inp)
    (htables : env.tables = startupTables env.build vendor) (hopen : 2 < openMax)
    (hoff : 2 ^ 33 ≤ offMax)
    (hlens : ∀ id content, file (.target id) = some content → content.length ≤ offMax)
    (hfixed : ∀ id size, fixedSize env.hpatch.cfg id = some size → size ≤ offMax)
    (hgood : ∀ content, file (.target .download) = some content →
      Streamable env .download content)
    (hreleased : (releaseFromPart (fsEnv env) .download true
      (powerUp k openMax offMax file)).1 = true) (n : Nat) :
    (bootFiles env inp k openMax offMax)^[n + 1] file =
      bootFiles env inp k openMax offMax file := by
  suffices hfix : bootFiles env inp k openMax offMax (bootFiles env inp k openMax offMax file) =
      bootFiles env inp k openMax offMax file by
    rw [Function.iterate_succ_apply, Function.iterate_fixed hfix]
  have hfirst := bootFiles_release k hboot htables hopen hoff file hlens hgood
  rw [hreleased] at hfirst
  generalize hafter : bootFiles env inp k openMax offMax file = after at hfirst ⊢
  cases hfirst with
  | already => exact hafter
  | released hdue himage hyes =>
      exact bootFiles_released k hboot htables hopen hoff hlens hfixed hgood hdue himage hyes

end Boots

def straightBoot : BootInputs FsDev := { plainBoot with updateMgrPoll := none }

theorem reboots_keep_eightByte :
    (bootFiles startupFileEnv straightBoot startupIdle.mem 8 (2 ^ 33))^[5]
        startupIdle.dev.sys.file =
      bootFiles startupFileEnv straightBoot startupIdle.mem 8 (2 ^ 33)
        startupIdle.dev.sys.file := by
  have hboot : StraightBoot straightBoot :=
    { registered := rfl
      factory := fun husing => absurd husing Bool.false_ne_true
      shell := fun husing => absurd husing Bool.false_ne_true
      manager := rfl
      jump := rfl }
  have htables : startupFileEnv.tables = startupTables startupFileEnv.build flipVendor := rfl
  refine reboots_keep hboot htables (by decide) le_rfl ?_ ?_ ?_ (by decide +kernel) 4
  · intro id content hcontent
    cases id
    case app | download =>
      cases hcontent
      decide +kernel
    all_goals cases hcontent
  · intro id size hsize
    have hnone : fixedSize startupFileEnv.hpatch.cfg id = none := by
      cases id <;> rfl
    cases hnone.symm.trans hsize
  · intro content hcontent
    cases hcontent
    exact ⟨fun _ => by decide +kernel, by decide +kernel, by decide +kernel⟩

end Qboot
