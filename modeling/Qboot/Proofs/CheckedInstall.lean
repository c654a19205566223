import Qboot.Proofs.FileInstall
import Qboot.Proofs.PassAgreement
/-!
# Installing a package that was checked

With the application check configured, a package that `qbt_fw_check` accepts has been
decoded before anything is erased.  What the update writes is then known to be the image
that the header announces, and only its place can go wrong.
-/

namespace Qboot

open Library Bytes Posix Machine Prog

variable {σ κ Z Q A : Type}

/-! ## The check of the application -/

theorem fwCheck_appCheck {env : Env σ κ} {h : Handle} {partLen : Nat} {m₀ m : Machine σ κ}
    (haccepts : fwCheck env h partLen m₀ = (true, m)) (happ : env.usingAppCheck = true)
    (hpatch : m.fwInfo.algo.toNat &&& algoCmprsMask ≠ algoCmprsHpatchlite)
    (hverify : m.fwInfo.verifyCrc = true) :
    ∃ m₂, appCrcCheck env h m.fwInfo m₂ = (true, m) := by
  rcases hread : fwInfoRead env h partLen false m₀ with ⟨_ | _, m₁⟩
  · rw [fwCheck, run_bind, hread] at haccepts
    exact absurd (congrArg Prod.fst haccepts) Bool.false_ne_true
  generalize hbranch : (if env.usingAppCheck &&
      m₁.fwInfo.algo.toNat &&& algoCmprsMask != algoCmprsHpatchlite && m₁.fwInfo.verifyCrc then
        appCrcCheck env h m₁.fwInfo
      else pure true) = app
  have hrun : fwCheck env h partLen m₀ =
      (if !fwInfoCheck env.crc m₁.fwInfo then pure false
        else do
          if ← fwCrcCheck env h srcReadPos m₁.fwInfo.pkgSize.toNat m₁.fwInfo.pkgCrc then app
          else pure false : Prog (Machine σ κ) Bool) m₁ := by
    rw [fwCheck, run_bind, hread, ← hbranch]
    rfl
  rw [haccepts] at hrun
  cases hcheck : fwInfoCheck env.crc m₁.fwInfo with
  | false =>
      rw [hcheck] at hrun
      exact absurd (congrArg Prod.fst hrun).symm Bool.false_ne_true
  | true =>
      rw [hcheck] at hrun
      rcases hcrc : fwCrcCheck env h srcReadPos m₁.fwInfo.pkgSize.toNat m₁.fwInfo.pkgCrc m₁
        with ⟨_ | _, m₂⟩
      · have hend : (true, m) = (false, m₂) := by
          simpa only [Bool.not_true, Bool.false_eq_true, if_false, run_bind, hcrc, run_pure]
            using hrun
        exact absurd (congrArg Prod.fst hend).symm Bool.false_ne_true
      have hend : (true, m) = app m₂ := by
        simpa only [Bool.not_true, Bool.false_eq_true, if_false, run_bind, hcrc, if_true]
          using hrun
      have hkeeps : Within SameInfo app := by
        rw [← hbranch]
        exact .ite (on_appCrcCheck (sameInfo_admits _) trivial _) (.pure _)
      have hfirst := on_fwCrcCheck (sameInfo_admits env.io) (h := h) trivial srcReadPos
        m₁.fwInfo.pkgSize.toNat m₁.fwInfo.pkgCrc m₁
      have hlast := hkeeps m₂
      rw [hcrc] at hfirst
      rw [← hend] at hlast
      have hinfo : m.fwInfo = m₁.fwInfo := Eq.trans hlast hfirst
      rw [← hinfo, happ, hverify, bne_iff_ne.mpr hpatch] at hbranch
      refine ⟨m₂, ?_⟩
      rw [hend, ← hbranch]
      rfl

theorem accepted_image {env : Env σ (CodecMem Z Q A)} {v : Vendor Z Q A} {src : Handle}
    {srcSize : Nat} {body : List UInt8} {m₀ m : Machine σ (CodecMem Z Q A)}
    (htables : env.tables = startupTables env.build v)
    (haccepts : fwCheck env src srcSize m₀ = (true, m)) (happ : env.usingAppCheck = true)
    (hgzip : m.fwInfo.algo.toNat &&& algoCmprsMask ≠ algoCmprsGzip)
    (hpatch : m.fwInfo.algo.toNat &&& algoCmprsMask ≠ algoCmprsHpatchlite)
    (hverify : m.fwInfo.verifyCrc = true)
    (hfeeds : ∀ m₂ : Machine σ (CodecMem Z Q A),
      appCrcCheck env src m.fwInfo m₂ = (true, m) →
        ∃ Ok : σ → Prop, Feeds env.io src body Ok ∧ Ok m₂.dev)
    (dst : Handle) (k : CodecMem Z Q A) :
    ∃ image, imageOf env m.fwInfo src dst body k = some image ∧
      env.crc.whole image = m.fwInfo.rawCrc := by
  obtain ⟨m₂, hcheck⟩ := fwCheck_appCheck haccepts happ hpatch hverify
  obtain ⟨Ok, hio, hok⟩ := hfeeds m₂ hcheck
  obtain ⟨ok, m', hcheck', -, hiff⟩ := appCrcCheck_feeds htables hgzip hio hok dst k
  have hok' : true = ok := congrArg Prod.fst (hcheck.symm.trans hcheck')
  exact hiff.mp hok'.symm

/-! ## Files -/

namespace FsDev

variable {d d' d'' : FsDev}

theorem Keeps.refl (d : FsDev) : d.Keeps d := ⟨.refl d, rfl⟩

theorem Keeps.trans (h : d.Keeps d') (h' : d'.Keeps d'') : d.Keeps d'' :=
  ⟨h.toKeepsTable.trans h'.toKeepsTable, h'.file.trans h.file⟩

theorem keeps_read (h : Handle) (off len : Nat) (d : FsDev) :
    d.Keeps (fsRead h off len d).2 := by
  refine ⟨keepsTable_read h off len d, ?_⟩
  unfold fsRead
  split
  · rfl
  · next fd hslot =>
    unfold FileSys.seek
    by_cases hseek : (d.sys.desc fd).isSome ∧ off ≤ d.sys.offMax
    · simp only [hseek, and_self, if_true]
      unfold FileSys.read
      cases hdesc : d.sys.desc fd <;> rfl
    · simp only [hseek, if_false]

end FsDev

def KeepsStorage (m m' : Machine FsDev κ) : Prop := m.dev.Keeps m'.dev

instance : IsPreorder (Machine FsDev κ) KeepsStorage where
  refl m := .refl m.dev
  trans _ _ _ h h' := h.trans h'

theorem keepsStorage_admits (cfg : HpatchConfig) :
    AdmitsOn (fsIo cfg) (fun _ => True) (fun _ => False) (KeepsStorage (κ := κ)) where
  reads h off len _ m := FsDev.keeps_read h off len m.dev
  writes _ _ _ hno := hno.elim
  erases _ _ _ hno := hno.elim
  sizes h _ m := by
    have hsame : (fsSize cfg h m.dev).2 = m.dev := by
      unfold fsSize
      split
      · rfl
      · split <;> rfl
    show m.dev.Keeps (fsSize cfg h m.dev).2
    rw [hsame]
    exact .refl m.dev
  aligns _ _ m := .refl m.dev
  mem _ m := .refl m.dev
  emits _ _ m := .refl m.dev

theorem feeds_files {d₀ : FsDev} {src : Handle} (cfg : HpatchConfig)
    (hopen : d₀.OpenOn src.target false) (hoff : 2 ^ 33 ≤ d₀.sys.offMax) :
    Feeds (fsIo cfg) src ((d₀.bytes src.target).drop srcReadPos) d₀.Keeps where
  read d off len hok hpos hlen hend := by
    have hmax : d.sys.offMax = d₀.sys.offMax := hok.sys.offMax
    have hin : srcReadPos + off ≤ d.sys.offMax := by
      unfold srcReadPos
      omega
    obtain ⟨d', hread, hkeeps⟩ := fsRead_open (hopen.kept hok.toKeepsTable) hin hpos
      (by unfold cmprsReadSize at hlen; omega)
    refine ⟨d', ?_, hok.trans hkeeps⟩
    show fsRead src (srcReadPos + off) len d = _
    rw [hread, hok.bytes, readSlice_drop _ srcReadPos off hpos]

/-! ## The update -/

theorem streamed_of_field {env : Env σ (CodecMem Z Q A)} {v : Vendor Z Q A} {info : FwInfo}
    (htables : env.tables = startupTables env.build v)
    (hpatch : info.algo.toNat &&& algoCmprsMask ≠ algoCmprsHpatchlite) :
    Streamed env info := by
  intro algo halgo
  rw [htables] at halgo
  obtain ⟨c, d, rfl, hfield⟩ := fwGetAlgoContext_startup halgo
  rw [hfield] at hpatch
  rw [beq_eq_false_iff_ne.mpr hpatch, Bool.and_false]

section Installed

variable {env : Env FsDev κ} {src dst : Handle} {srcSize size : Nat} {image : List UInt8}
  {m₀ m : Machine FsDev κ}
  (haccepts : fwCheck (fsEnv env) src srcSize m₀ = (true, m))
  (hstream : Streamed env m.fwInfo)
  (hsrc : m.dev.OpenOn src.target false) (hdst : m.dev.OpenOn dst.target true)
  (hne : src.target ≠ dst.target) (hoff : 2 ^ 33 ≤ m.dev.sys.offMax)
  (hsize : (fsSize env.hpatch.cfg dst m.dev).1 = some size)

include haccepts hstream hsrc hdst hne hoff hsize

theorem installs_image (himage : packageImage env src dst m = some image) :
    Installs env dst size src m ↔ ImageMatches env.crc m.fwInfo image ∧
      HeaderFits env.crc env.hpatch.cfg dst.target size m.fwInfo image := by
  have hcheck : fwInfoCheck env.crc m.fwInfo = true :=
    (fwCheck_info haccepts : fwInfoCheck (fsEnv env).crc m.fwInfo = true)
  have hfound := foundSize_of_size hdst hsize
  have hlt : size < 2 ^ 32 := by
    rw [hfound]
    exact Nat.mod_lt _ (by decide)
  by_cases hroom : srcReadPos ≤ size
  · obtain ⟨ok, ok', m', hrun, hlen, hiff⟩ :=
      updateAndReopen_files hstream hsrc hdst hne hoff hroom hlt himage
    rw [← fileAfter_installed_iff hcheck hlen hfound, ← hiff]
    constructor
    · rintro ⟨image', m'', himage', -, hrun', hstart⟩
      obtain rfl : image = image' := Option.some.inj (himage.symm.trans himage')
      obtain ⟨hoks, rfl⟩ := Prod.mk.inj (hrun.symm.trans hrun')
      obtain ⟨rfl, rfl⟩ := Prod.mk.inj hoks
      exact ⟨rfl, hstart, rfl⟩
    · rintro ⟨rfl, hstart, rfl⟩
      exact ⟨image, m', himage, hlen, hrun, hstart⟩
  · obtain ⟨ok, m₁, hupdate, -, -, -, hok⟩ :=
      fwUpdate_files hstream hsrc hdst hne hoff hlt himage
    refine iff_of_false (not_installs_of_update ?_) fun hgood => hroom hgood.2.room
    rw [hupdate]
    exact Bool.eq_false_iff.mpr fun htrue => hroom (hok.mp htrue).1

end Installed

section Checked

variable {env : Env FsDev (CodecMem Z Q A)} {v : Vendor Z Q A} {src dst : Handle}
  {srcSize size : Nat} {image : List UInt8} {m₀ m : Machine FsDev (CodecMem Z Q A)}
  (htables : env.tables = startupTables env.build v)
  (haccepts : fwCheck (fsEnv env) src srcSize m₀ = (true, m))
  (happ : env.usingAppCheck = true)
  (hgzip : m.fwInfo.algo.toNat &&& algoCmprsMask ≠ algoCmprsGzip)
  (hpatch : m.fwInfo.algo.toNat &&& algoCmprsMask ≠ algoCmprsHpatchlite)
  (hverify : m.fwInfo.verifyCrc = true)
  (hsrc : m.dev.OpenOn src.target false) (hdst : m.dev.OpenOn dst.target true)
  (hne : src.target ≠ dst.target) (hoff : 2 ^ 33 ≤ m.dev.sys.offMax)
  (hsize : (fsSize env.hpatch.cfg dst m.dev).1 = some size)

include htables haccepts happ hgzip hpatch hverify hsrc hoff in
theorem packageImage_checked (dst : Handle) :
    ∃ image, packageImage env src dst m = some image ∧
      env.crc.whole image = m.fwInfo.rawCrc := by
  have htables' : (fsEnv env).tables = startupTables (fsEnv env).build v := htables
  refine accepted_image htables' haccepts happ hgzip hpatch hverify ?_ dst m.mem
  intro m₂ hcheck
  have hkeeps : KeepsStorage m₂ (appCrcCheck (fsEnv env) src m.fwInfo m₂).2 :=
    on_appCrcCheck (keepsStorage_admits env.hpatch.cfg) trivial m.fwInfo m₂
  rw [hcheck] at hkeeps
  have hkept : m₂.dev.Keeps m.dev := hkeeps
  have hopen : m₂.dev.OpenOn src.target false := by
    obtain ⟨fd, serial, hslot, hdesc, hfd⟩ := hsrc
    rw [hkept.slots] at hslot
    rw [hkept.sys.desc] at hdesc
    rw [hkept.sys.openMax] at hfd
    exact ⟨fd, serial, hslot, hdesc, hfd⟩
  rw [hkept.bytes]
  exact ⟨_, feeds_files env.hpatch.cfg hopen (hkept.sys.offMax ▸ hoff), .refl _⟩

include htables haccepts happ hgzip hpatch hverify hsrc hdst hne hoff hsize

/-- A package that passed its checks decodes to the image that the header announces, and
is installed exactly if the CRC can be taken again and the header fits. -/
theorem checked_installs_iff :
    ∃ image, packageImage env src dst m = some image ∧
      env.crc.whole image = m.fwInfo.rawCrc ∧
      (Installs env dst size src m ↔ m.fwInfo.rawSize.toNat < 2 ^ 31 ∧
        HeaderFits env.crc env.hpatch.cfg dst.target size m.fwInfo image) := by
  obtain ⟨image, himage, hcrc⟩ :=
    packageImage_checked htables haccepts happ hgzip hpatch hverify hsrc hoff dst
  refine ⟨image, himage, hcrc, ?_⟩
  have hmatches : ImageMatches env.crc m.fwInfo image ↔ m.fwInfo.rawSize.toNat < 2 ^ 31 :=
    ⟨fun hmatch => (hmatch hverify).1, fun hsmall _ => ⟨hsmall, hcrc⟩⟩
  have hinstalls := installs_image haccepts (streamed_of_field htables hpatch) hsrc hdst hne
    hoff hsize himage
  rw [hinstalls, hmatches]

end Checked

/-- The environment of plain packages over files, with the tables of a startup. -/
def startupFileEnv : Env FsDev (CodecMem Unit Unit Unit) where
  build := plainBuild
  io := fsIo ⟨false, 0, 4096, 4096, none⟩
  crc := eagerCrcLib
  parser := fsParser
  tables := startupTables plainBuild flipVendor
  hpatch := plainFileEnv.hpatch
  productCode := none
  usingAppCheck := true

/-- APP has 200 bytes, and DOWNLOAD holds the package of eight bytes. -/
def startupStored : Machine FsDev (CodecMem Unit Unit Unit) where
  dev := (eightByteFiles (List.replicate 200 0)).dev
  mem := ⟨⟨(), 0, []⟩, (), ()⟩
  fwInfo := .ofBytes (Block.ofList srcReadPos [])
  log := []

def startupChecked : Machine FsDev (CodecMem Unit Unit Unit) :=
  (fwCheck (fsEnv startupFileEnv) ⟨.download, 0⟩ 104 startupStored).2

theorem checked_installs_iff_roomy :
    ∃ image, packageImage startupFileEnv ⟨.download, 0⟩ ⟨.app, 0⟩ startupChecked =
        some image ∧
      startupFileEnv.crc.whole image = startupChecked.fwInfo.rawCrc ∧
      (Installs startupFileEnv ⟨.app, 0⟩ 200 ⟨.download, 0⟩ startupChecked ↔
        startupChecked.fwInfo.rawSize.toNat < 2 ^ 31 ∧
          HeaderFits startupFileEnv.crc startupFileEnv.hpatch.cfg .app 200
            startupChecked.fwInfo image) := by
  have haccepts : fwCheck (fsEnv startupFileEnv) ⟨.download, 0⟩ 104 startupStored =
      (true, startupChecked) := by
    unfold startupChecked
    generalize hrun : fwCheck (fsEnv startupFileEnv) ⟨.download, 0⟩ 104 startupStored = r
    have hok : r.1 = true := by
      rw [← hrun]
      decide +kernel
    exact Prod.ext hok rfl
  refine checked_installs_iff (v := flipVendor) rfl haccepts rfl ?_ ?_ ?_ ⟨0, 0, ?_, ?_, ?_⟩
    ⟨1, 1, ?_, ?_, ?_⟩ ?_ ?_ ?_
  all_goals decide +kernel

end Qboot
