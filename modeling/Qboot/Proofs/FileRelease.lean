import Qboot.Proofs.FileView
import Qboot.Proofs.FreshStages
/-!
# A release on files

`qbt_release_from_part` on file-backed storage, from the open of the package to the
last close: what it answers and what it leaves is told by the contents of the files
alone, and every descriptor is given back.
-/

namespace Qboot

open Library Bytes Posix FileSys Machine Prog

variable {κ : Type} {cfg : HpatchConfig} {offMax : Nat} {v : FileView} {id : TargetId}
  {m : Machine FsDev κ}

/-! ## Opening, signing and closing -/

theorem targetOpen_shows {flags : OpenFlags} (h : m.dev.Shows offMax v)
    (hid : v.held id = none) (hfree : 0 < v.free)
    (hthere : (v.file (.target id)).isSome ∨ flags.create = true) (htrunc : flags.trunc = false)
    (hlen : (v.bytes id).length ≤ offMax) :
    ∃ m', targetOpen (fsIo cfg) id flags m =
        ((some ⟨id, 0⟩, some (foundSize cfg id (v.bytes id))), m') ∧
      m'.dev.Shows offMax (v.opened id flags.writable) ∧ m'.fwInfo = m.fwInfo := by
  obtain ⟨d', hopen, hshows⟩ := fsOpen_shows h hid hfree hthere htrunc
  have hbytes : d'.bytes id = v.bytes id := by
    rw [hshows.bytes, FileView.bytes_opened]
  have hsize : fsSize cfg ⟨id, 0⟩ d' = (some (foundSize cfg id (v.bytes id)), d') := by
    have hfound := fsSize_open (h := ⟨id, 0⟩) (hshows.held _ _ (v.held_opened id _)) cfg
      fun _ => by
        rw [hbytes, hshows.offMax]
        exact hlen
    rw [hbytes] at hfound
    exact hfound
  have hopen' : (fsIo cfg).openTarget id flags m.dev = (some 0, d') := hopen
  have hsize' : (fsIo cfg).size ⟨id, 0⟩ d' = (some (foundSize cfg id (v.bytes id)), d') := hsize
  refine ⟨{ m with dev := d', log := m.log ++ [.opened id true] }, ?_, hshows, rfl⟩
  simp [targetOpen, hopen', hsize']

theorem targetOpen_missing {flags : OpenFlags} (h : m.dev.Shows offMax v)
    (hfile : v.file (.target id) = none) (hcreate : flags.create = false) :
    ∃ m', targetOpen (fsIo cfg) id flags m = ((none, none), m') ∧ m'.dev = m.dev := by
  have hopen : (fsIo cfg).openTarget id flags m.dev = (none, m.dev) := by
    have hmissing : ((m.dev.sys.file (.target id)).isNone && !flags.create) = true := by
      rw [h.file, hfile, hcreate]
      rfl
    show fsOpen id flags m.dev = _
    rw [fsOpen, openFile, if_pos hmissing]
  refine ⟨{ m with log := m.log ++ [.opened id false] }, ?_, rfl⟩
  simp [targetOpen, hopen]

theorem targetClose_shows {handle : Handle} {writable : Bool} (h : m.dev.Shows offMax v)
    (hid : v.held handle.target = some writable) :
    (targetClose (fsIo cfg) handle m).2.dev.Shows offMax (v.closed handle.target) :=
  fsClose_shows h hid

theorem releaseSignCheck_shows (env : Env FsDev κ) (handle : Handle)
    (h : m.dev.Shows offMax v) (hfree : 0 < v.free) :
    ∃ m', releaseSignCheck (fsEnv env) handle m = ((v.file .sign).isSome, m') ∧
      m'.dev.Shows offMax v ∧ m'.fwInfo = m.fwInfo := by
  obtain ⟨d', hread, hshows⟩ := fsSignRead_shows handle m.fwInfo h hfree
  have hread' : (fsEnv env).parser.signRead handle m.fwInfo m.dev =
      (some (v.file .sign).isSome, d') := hread
  refine ⟨{ m with dev := d' }, ?_, hshows, rfl⟩
  simp [releaseSignCheck, hread']

theorem releaseSignWrite_shows (env : Env FsDev κ) (handle : Handle)
    (h : m.dev.Shows offMax v) (hfree : 0 < v.free) :
    ∃ m', releaseSignWrite (fsEnv env) handle m = (true, m') ∧
      m'.dev.Shows offMax (v.withFile (Function.update v.file .sign (some []))) := by
  obtain ⟨d', hwrite, hshows⟩ := fsSignWrite_shows handle m.fwInfo h hfree
  have hwrite' : (fsEnv env).parser.signWrite handle m.fwInfo m.dev = (true, d') := hwrite
  refine ⟨{ m with dev := d', log := m.log ++ [.signWritten handle.target true] }, ?_, hshows⟩
  simp [releaseSignWrite, hwrite']

/-! ## What an update leaves alone -/

/-- Through the open file of `id` no other file is changed, and that file stays. -/
def OnlyFile (id : TargetId) (m m' : Machine FsDev κ) : Prop :=
  m.dev.OpenOn id true → KeepsTable m.dev m'.dev ∧
    (∀ path, path ≠ .target id → m'.dev.sys.file path = m.dev.sys.file path) ∧
    ((m.dev.sys.file (.target id)).isSome → (m'.dev.sys.file (.target id)).isSome)

instance : IsPreorder (Machine FsDev κ) (OnlyFile id) where
  refl m _ := ⟨.refl m.dev, fun _ _ => rfl, fun h => h⟩
  trans m m' m'' h h' hopen := by
    obtain ⟨hkeeps, hothers, hthere⟩ := h hopen
    obtain ⟨hkeeps', hothers', hthere'⟩ := h' (hopen.kept hkeeps)
    exact ⟨hkeeps.trans hkeeps', fun path hne => (hothers' path hne).trans (hothers path hne),
      fun hsome => hthere' (hthere hsome)⟩

theorem onlyFile_keeps {m' : Machine FsDev κ} (h : m.dev.Keeps m'.dev) : OnlyFile id m m' :=
  fun _ => ⟨h.toKeepsTable, fun path _ => congrFun h.file path, fun hsome => by
    rw [h.file]
    exact hsome⟩

theorem onlyFile_stores {m' : Machine FsDev κ} {bytes : List UInt8}
    (h : m.dev.Stores id bytes m'.dev) : OnlyFile id m m' := by
  refine fun _ => ⟨h.toKeepsTable, fun path hne => ?_, fun _ => ?_⟩
  · rw [h.file, Function.update_of_ne hne]
  · rw [h.file, Function.update_self]
    rfl

theorem fsWrite_cases {d : FsDev} {h : Handle} (hopen : d.OpenOn h.target true) (off : Nat)
    (data : List UInt8) :
    d.Keeps (fsWrite h off data d).2 ∨ ∃ bytes, d.Stores h.target bytes (fsWrite h off data d).2 := by
  obtain ⟨fd, serial, hslot, hdesc, -⟩ := hopen
  have hkeeps := keepsTable_write h off data d
  by_cases hseek : off ≤ d.sys.offMax
  swap
  · refine .inl ⟨hkeeps, ?_⟩
    simp [fsWrite, hslot, seek, hdesc, hseek]
  by_cases hfits : off + data.length ≤ d.sys.offMax
  · refine .inr ⟨writeAt (d.bytes h.target) off data, hkeeps, ?_⟩
    simp only [fsWrite, hslot, seek, hdesc, Option.isSome_some, hseek, and_self, if_true,
      FileSys.write, Function.update_self, hfits]
    rfl
  · refine .inl ⟨hkeeps, ?_⟩
    simp [fsWrite, hslot, seek, hdesc, hseek, FileSys.write, hfits]

theorem onlyFile_admits (cfg : HpatchConfig) (id : TargetId) :
    AdmitsOn (fsIo cfg) (fun _ => True) (fun h => h.target = id) (OnlyFile (κ := κ) id) where
  reads h off len _ m := onlyFile_keeps (FsDev.keeps_read h off len m.dev)
  writes h off data hid m hopen := by
    subst hid
    have hstep : OnlyFile h.target m (ioWrite (fsIo cfg) h off data m).2 := by
      rcases fsWrite_cases hopen off data with hkeeps | ⟨bytes, hstores⟩
      · exact onlyFile_keeps hkeeps
      · exact onlyFile_stores hstores
    exact hstep hopen
  erases h off len hid m hopen := by
    subst hid
    obtain ⟨d', herase, hstores⟩ := fsErase_open hopen cfg off len
    have hrun : (eraseWithFeed (fsIo cfg) h off len m).2.dev = d' := congrArg Prod.snd herase
    exact onlyFile_stores (hrun ▸ hstores) hopen
  sizes h _ m := onlyFile_keeps ((keepsStorage_admits cfg).sizes h trivial m)
  aligns _ _ m := onlyFile_keeps (.refl m.dev)
  mem _ m := onlyFile_keeps (.refl m.dev)
  emits _ _ m := onlyFile_keeps (.refl m.dev)

def stamped (file : FsPath → Option (List UInt8)) : FsPath → Option (List UInt8) :=
  Function.update file .sign (some ((file .sign).getD []))

/-! ## The update -/

section Update

variable {env : Env FsDev κ} {src dst : TargetId} {size : Nat}
  (hstream : Streamed env m.fwInfo) (h : m.dev.Shows offMax v) (hoff : 2 ^ 33 ≤ offMax)
  (hsrc : v.held src = some false) (hdst : v.held dst = some true) (hne : src ≠ dst)
  (hthere : (v.file (.target dst)).isSome) (hsize : size < 2 ^ 32)

include hstream h hoff hsrc hdst hne hthere hsize

theorem fwUpdate_shows :
    ∃ ok m' rest, fwUpdate (fsEnv env) ⟨dst, 0⟩ size ⟨src, 0⟩ m = (ok, m') ∧
      m'.dev.Shows offMax (v.withFile (Function.update v.file (.target dst) (some rest))) ∧
      (imageOf env m.fwInfo ⟨src, 0⟩ ⟨dst, 0⟩ ((v.bytes src).drop srcReadPos) m.mem = none →
        ok = false) ∧
      ∀ image, imageOf env m.fwInfo ⟨src, 0⟩ ⟨dst, 0⟩ ((v.bytes src).drop srcReadPos) m.mem =
          some image →
        rest = fileAfter env.hpatch.cfg dst (v.bytes dst) size m.fwInfo image ∧
          image.length = m.fwInfo.rawSize.toNat ∧
          (ok = true ↔ TailVerifies env.crc rest size) := by
  have hopenSrc : m.dev.OpenOn (⟨src, 0⟩ : Handle).target false := h.held _ _ hsrc
  have hopenDst : m.dev.OpenOn (⟨dst, 0⟩ : Handle).target true := h.held _ _ hdst
  have hoff' : 2 ^ 33 ≤ m.dev.sys.offMax := hoff.trans_eq h.offMax.symm
  have hstream' : Streamed (fsEnv env) m.fwInfo := hstream
  have hframe : AdmitsOn (fsEnv env).io (fun _ => True) (fun h => h.target = dst)
      (OnlyFile (κ := κ) dst) := onlyFile_admits env.hpatch.cfg dst
  obtain ⟨ok, m₁, hrelease, hkeeps, hok, hresult⟩ :=
    fwRelease_files hopenSrc hopenDst hne hoff' env hstream size
  have hstep : OnlyFile dst m (fwRelease (fsEnv env) ⟨dst, 0⟩ size ⟨src, 0⟩ m.fwInfo m).2 :=
    on_fwRelease_streamed hframe trivial rfl hstream' size m
  rw [hrelease] at hstep
  obtain ⟨-, hothers, hstays⟩ := hstep hopenDst
  rw [h.bytes, h.bytes] at hresult
  rw [h.bytes] at hok
  obtain ⟨rest, hrest⟩ := Option.isSome_iff_exists.mp (hstays (h.file ▸ hthere))
  have hfile : m₁.dev.sys.file = Function.update v.file (.target dst) (some rest) := by
    funext path
    by_cases hpath : path = .target dst
    · rw [hpath, hrest, Function.update_self]
    · rw [hothers path hpath, Function.update_of_ne hpath, h.file]
  have hshows : m₁.dev.Shows offMax
      (v.withFile (Function.update v.file (.target dst) (some rest))) := by
    rw [← hfile]
    exact h.kept hkeeps
  have hbytes : m₁.dev.bytes dst = rest := by
    rw [FsDev.bytes, FileSys.content, hrest]
    rfl
  cases ok with
  | false =>
      refine ⟨false, (emit (.updated dst false) m₁).2, rest, ?_, hshows, fun _ => rfl,
        fun image himage => absurd (hok.mpr ⟨image, himage⟩) Bool.false_ne_true⟩
      simp only [fwUpdate, run_bind, run_gets, hrelease]
      rfl
  | true =>
      obtain ⟨image, himage⟩ := hok.mp rfl
      obtain ⟨hlen, hafter⟩ := hresult image himage
      have hserving : Serving (fsEnv env).io ⟨dst, 0⟩ rest m₁.dev.Keeps := by
        rw [← hbytes]
        exact serving_files env.hpatch.cfg (hopenDst.kept hkeeps)
          (hoff.trans_eq hshows.offMax.symm)
      obtain ⟨ok, m₂, hverify, hsame, hiff⟩ :=
        destPartVerify_serving (m := m₁) hserving hsize (.refl m₁.dev)
      refine ⟨ok, (emit (.updated dst ok) m₂).2, rest, ?_, hshows.keeps hsame, ?_, ?_⟩
      · simp only [fwUpdate, run_bind, run_gets, hrelease, if_true, hverify]
        rfl
      · rw [himage]
        simp
      · intro image' himage'
        obtain rfl : image = image' := Option.some.inj (himage.symm.trans himage')
        exact ⟨Option.some.inj (hrest.symm.trans hafter), hlen, hiff⟩

theorem updateAndSign_shows (hfree : 0 < v.free) :
    ∃ ok m' rest, updateAndSign (fsEnv env) ⟨dst, 0⟩ size ⟨src, 0⟩ m = (ok, m') ∧
      m'.dev.Shows offMax (v.withFile
        (if ok then stamped (Function.update v.file (.target dst) (some rest))
          else Function.update v.file (.target dst) (some rest))) ∧
      (imageOf env m.fwInfo ⟨src, 0⟩ ⟨dst, 0⟩ ((v.bytes src).drop srcReadPos) m.mem = none →
        ok = false) ∧
      ∀ image, imageOf env m.fwInfo ⟨src, 0⟩ ⟨dst, 0⟩ ((v.bytes src).drop srcReadPos) m.mem =
          some image →
        rest = fileAfter env.hpatch.cfg dst (v.bytes dst) size m.fwInfo image ∧
          image.length = m.fwInfo.rawSize.toNat ∧
          (ok = true ↔ TailVerifies env.crc rest size) := by
  obtain ⟨ok, m₁, rest, hupdate, hshows, hnone, hsome⟩ :=
    fwUpdate_shows hstream h hoff hsrc hdst hne hthere hsize
  cases ok with
  | false =>
      refine ⟨false, m₁, rest, ?_, hshows, hnone, hsome⟩
      simp only [updateAndSign, run_bind, hupdate]
      rfl
  | true =>
      obtain ⟨m₂, hcheck, hshows₂, -⟩ := releaseSignCheck_shows env ⟨src, 0⟩ hshows hfree
      have hkept : Function.update v.file (.target dst) (some rest) .sign = v.file .sign :=
        Function.update_of_ne (by simp) ..
      rw [FileView.file_withFile, hkept] at hcheck
      cases hsign : v.file .sign with
      | some mark =>
          rw [hsign] at hcheck
          refine ⟨true, m₂, rest, ?_, ?_, hnone, hsome⟩
          · simp only [updateAndSign, run_bind, hupdate, if_true, hcheck]
            rfl
          · rw [if_pos rfl, stamped, hkept, hsign]
            rw [show Function.update (Function.update v.file (.target dst) (some rest)) .sign
              (some ((some mark).getD [])) = Function.update v.file (.target dst) (some rest) from
              Function.update_eq_self_iff.mpr (hkept.trans hsign).symm]
            exact hshows₂
      | none =>
          rw [hsign] at hcheck
          obtain ⟨m₃, hwrite, hshows₃⟩ := releaseSignWrite_shows env ⟨src, 0⟩ hshows₂ hfree
          refine ⟨true, m₃, rest, ?_, ?_, hnone, hsome⟩
          · simp only [updateAndSign, run_bind, hupdate, if_true, hcheck]
            have hgo : (!(none : Option (List UInt8)).isSome) = true := rfl
            simp only [hgo, if_true, run_bind, hwrite]
            rfl
          · rw [if_pos rfl, stamped, hkept, hsign]
            exact hshows₃

end Update

/-! ## The release -/

section Release

variable (env : Env FsDev κ) (src : TargetId) (checkSign : Bool) (k : κ)

/-- The content is a package for this product. -/
structure Taken (content : List UInt8) : Prop where
  package : IsPackage (fsEnv env) ⟨src, 0⟩ ⟨.app, 0⟩ k content
  product : ∀ code, env.productCode = some code →
    strEq (contentHeader content).fromProdCode code = true

/-- The file of `src` holds a package that is still to be released to `dst`. -/
structure Due (file : FsPath → Option (List UInt8)) (content : List UInt8) (dst : TargetId) :
    Prop where
  source : file (.target src) = some content
  taken : Taken env src k content
  unsigned : checkSign = true → file .sign = none
  named : nameToId env.hpatch.cfg.useStorageSwap (contentHeader content).fromPartName = some dst

def fileImage (content : List UInt8) (dst : TargetId) : Option (List UInt8) :=
  imageOf env (contentHeader content) ⟨src, 0⟩ ⟨dst, 0⟩ (content.drop srcReadPos) k

def oldSize (file : FsPath → Option (List UInt8)) (dst : TargetId) : Nat :=
  foundSize env.hpatch.cfg dst ((file (.target dst)).getD [])

/-- The file of the destination after the release. -/
def newContent (file : FsPath → Option (List UInt8)) (content : List UInt8) (dst : TargetId)
    (image : List UInt8) : List UInt8 :=
  fileAfter env.hpatch.cfg dst ((file (.target dst)).getD []) (oldSize env file dst)
    (contentHeader content) image

/-- What a release comes to: its answer, and the files that it leaves. -/
inductive FileRelease (file : FsPath → Option (List UInt8)) :
    Bool → (FsPath → Option (List UInt8)) → Prop where
  | missing (h : file (.target src) = none) : FileRelease file false file
  | refused {content : List UInt8} (h : file (.target src) = some content)
      (hno : ¬Taken env src k content) : FileRelease file false file
  | already {content : List UInt8} (h : file (.target src) = some content)
      (htaken : Taken env src k content) (hsign : checkSign = true)
      (hsigned : (file .sign).isSome) : FileRelease file true file
  | nowhere {content : List UInt8} (h : file (.target src) = some content)
      (htaken : Taken env src k content) (hunsigned : checkSign = true → file .sign = none)
      (hname : nameToId env.hpatch.cfg.useStorageSwap (contentHeader content).fromPartName = none) :
      FileRelease file false file
  | undecoded {content : List UInt8} {dst : TargetId} (h : Due env src checkSign k file content dst)
      (himage : fileImage env src k content dst = none) (rest : List UInt8) :
      FileRelease file false (Function.update file (.target dst) (some rest))
  | unverified {content : List UInt8} {dst : TargetId} {image : List UInt8}
      (h : Due env src checkSign k file content dst)
      (himage : fileImage env src k content dst = some image)
      (hno : ¬TailVerifies env.crc (newContent env file content dst image) (oldSize env file dst)) :
      FileRelease file false
        (Function.update file (.target dst) (some (newContent env file content dst image)))
  | released {content : List UInt8} {dst : TargetId} {image : List UInt8}
      (h : Due env src checkSign k file content dst)
      (himage : fileImage env src k content dst = some image)
      (hyes : TailVerifies env.crc (newContent env file content dst image) (oldSize env file dst)) :
      FileRelease file true (stamped
        (Function.update file (.target dst) (some (newContent env file content dst image))))

end Release

/-! ## The run -/

/-- `qbt_release_from_part` from the open of the destination to its close. -/
def releaseTo {σ : Type} (env : Env σ κ) (src : Handle) (dstId : TargetId) :
    Prog (Machine σ κ) Bool := do
  match ← targetOpen env.io dstId .writeCreate with
  | (some dst, some dstSize) =>
      let rst ← updateAndSign env dst dstSize src
      targetClose env.io dst
      pure rst
  | (some dst, none) =>
      targetClose env.io dst
      pure false
  | (none, _) => pure false

theorem releaseOpened_done {σ : Type} {env : Env σ κ} {src : Handle} {size : Nat}
    {checkSign done : Bool} {m m₁ m₂ : Machine σ κ} (hcheck : fwCheck env src size m = (true, m₁))
    (hprod : productCodeOk env m₁ = (true, m₁))
    (hsign : (if checkSign then releaseSignCheck env src
      else pure false : Prog (Machine σ κ) Bool) m₁ = (done, m₂)) :
    releaseOpened env src size checkSign m =
      if done then (true, m₂)
      else (nameToId env.hpatch.cfg.useStorageSwap m₂.fwInfo.fromPartName).elim (false, m₂)
        fun dstId => releaseTo env src dstId m₂ := by
  simp only [releaseOpened, run_bind, hcheck, if_true, hprod, hsign]
  cases done with
  | true => rfl
  | false =>
      simp only [Bool.false_eq_true, if_false, run_bind, run_gets]
      rcases nameToId env.hpatch.cfg.useStorageSwap m₂.fwInfo.fromPartName with _ | dstId <;> rfl

section Run

variable {Z Q A : Type} {vendor : Vendor Z Q A} {env : Env FsDev (CodecMem Z Q A)}
  {src : TargetId} {checkSign : Bool} {m : Machine FsDev (CodecMem Z Q A)}
  (k : CodecMem Z Q A) (htables : env.tables = startupTables env.build vendor)
  (hoff : 2 ^ 33 ≤ offMax)

/-- The package in the source is streamed, and names another target. -/
structure Streamable (env : Env FsDev (CodecMem Z Q A)) (src : TargetId)
    (content : List UInt8) : Prop where
  gzip : env.usingAppCheck = true →
    (contentHeader content).algo.toNat &&& algoCmprsMask ≠ algoCmprsGzip
  patch : (contentHeader content).algo.toNat &&& algoCmprsMask ≠ algoCmprsHpatchlite
  other : nameToId env.hpatch.cfg.useStorageSwap (contentHeader content).fromPartName ≠ some src

theorem signAsked_shows (env : Env FsDev κ) {m : Machine FsDev κ} (handle : Handle)
    (checkSign : Bool) (h : m.dev.Shows offMax v) (hfree : 0 < v.free) :
    ∃ done m', (if checkSign then releaseSignCheck (fsEnv env) handle
        else pure false : Prog (Machine FsDev κ) Bool) m = (done, m') ∧
      m'.dev.Shows offMax v ∧ m'.fwInfo = m.fwInfo ∧
      (done = true ↔ checkSign = true ∧ (v.file .sign).isSome) := by
  cases checkSign with
  | false => exact ⟨false, m, rfl, h, rfl, by simp⟩
  | true =>
      obtain ⟨m', hcheck, hshows, hinfo⟩ := releaseSignCheck_shows env handle h hfree
      exact ⟨_, m', hcheck, hshows, hinfo, by simp⟩

include htables hoff

theorem releaseTo_shows {content : List UInt8} {dst : TargetId} (h : m.dev.Shows offMax v)
    (hsrc : v.held src = some false) (hdst : v.held dst = none) (hfree : 1 < v.free)
    (hlens : ∀ id, (v.bytes id).length ≤ offMax) (hgood : Streamable env src content)
    (hinfo : m.fwInfo = contentHeader content)
    (hdue : Due env src checkSign k v.file content dst) :
    ∃ ok m' file', releaseTo (fsEnv env) ⟨src, 0⟩ dst m = (ok, m') ∧
      m'.dev.Shows offMax (v.withFile file') ∧
      FileRelease env src checkSign k v.file ok file' := by
  have hne : src ≠ dst := by
    rintro rfl
    rw [hsrc] at hdst
    simp at hdst
  have hpos : 0 < v.free := Nat.zero_lt_of_lt hfree
  have hthere : (v.file (.target dst)).isSome ∨ OpenFlags.writeCreate.create = true := .inr rfl
  obtain ⟨m₁, hopen, h₁, hinfo₁⟩ : ∃ m₁, targetOpen (fsEnv env).io dst .writeCreate m =
      ((some ⟨dst, 0⟩, some (oldSize env v.file dst)), m₁) ∧
        m₁.dev.Shows offMax (v.opened dst true) ∧ m₁.fwInfo = m.fwInfo :=
    targetOpen_shows h hdst hpos hthere rfl (hlens dst)
  have hstream : Streamed env m₁.fwInfo := by
    rw [hinfo₁, hinfo]
    exact streamed_of_field htables hgood.patch
  have hsrc₁ : (v.opened dst true).held src = some false := by
    rw [v.held_opened_of_ne _ _ hne, hsrc]
  have hexists : ((v.opened dst true).file (.target dst)).isSome := by
    show (Function.update v.file _ _ (FsPath.target dst)).isSome
    rw [Function.update_self]
    rfl
  have hbytes : (v.opened dst true).bytes src = content := by
    have hpath : FsPath.target src ≠ .target dst := fun heq => hne (FsPath.target.inj heq)
    show (Function.update v.file _ _ (FsPath.target src)).getD [] = content
    rw [Function.update_of_ne hpath, hdue.source]
    rfl
  have hlt : oldSize env v.file dst < 2 ^ 32 := Nat.mod_lt _ (by decide)
  obtain ⟨ok, m₂, rest, hupdate, h₂, hnone, hsome⟩ := updateAndSign_shows hstream h₁ hoff
    hsrc₁ (v.held_opened dst true) hne hexists hlt (Nat.sub_pos_of_lt hfree)
  have himage : imageOf env m₁.fwInfo ⟨src, 0⟩ ⟨dst, 0⟩ (content.drop srcReadPos) m₁.mem =
      fileImage env src k content dst := by
    rw [hinfo₁, hinfo, fileImage, imageOf_mem htables]
  rw [hbytes, himage] at hnone hsome
  rw [v.bytes_opened, hinfo₁, hinfo] at hsome
  have hfile : Function.update (v.opened dst true).file (.target dst) (some rest) =
      Function.update v.file (.target dst) (some rest) := Function.update_idem ..
  rw [hfile] at h₂
  generalize hafter : (if ok then stamped (Function.update v.file (.target dst) (some rest))
    else Function.update v.file (.target dst) (some rest)) = file' at h₂
  have hclosed : (targetClose (fsIo env.hpatch.cfg) ⟨dst, 0⟩ m₂).2.dev.Shows offMax
      (((v.opened dst true).withFile file').closed dst) :=
    targetClose_shows h₂ (v.held_opened dst true)
  rw [v.closed_opened dst true hdst hpos] at hclosed
  refine ⟨ok, (targetClose (fsEnv env).io ⟨dst, 0⟩ m₂).2, file', ?_, hclosed, ?_⟩
  · simp only [releaseTo, run_bind, hopen, hupdate, run_pure]
  rw [← hafter]
  cases hdecoded : fileImage env src k content dst with
  | none =>
      obtain rfl : ok = false := hnone hdecoded
      exact .undecoded hdue hdecoded rest
  | some image =>
      obtain ⟨rfl, -, hok⟩ := hsome image hdecoded
      cases ok with
      | true => exact .released hdue hdecoded (hok.mp rfl)
      | false =>
          exact .unverified hdue hdecoded fun hyes => Bool.false_ne_true (hok.mpr hyes)

theorem releaseOpened_shows {content : List UInt8} {size : Nat} (h : m.dev.Shows offMax v)
    (hsrc : v.held src = some false) (hheld : ∀ id, id ≠ src → v.held id = none)
    (hfree : 1 < v.free) (hsource : v.file (.target src) = some content)
    (hlens : ∀ id, (v.bytes id).length ≤ offMax) (hgood : Streamable env src content) :
    ∃ ok m' file', releaseOpened (fsEnv env) ⟨src, 0⟩ size checkSign m = (ok, m') ∧
      m'.dev.Shows offMax (v.withFile file') ∧
      FileRelease env src checkSign k v.file ok file' := by
  have hbytes : v.bytes src = content := FileView.bytes_of_file hsource
  have hopen : m.dev.OpenOn src false := h.held _ _ hsrc
  have hoff' : 2 ^ 33 ≤ m.dev.sys.offMax := hoff.trans_eq h.offMax.symm
  have hserving : Serving (fsEnv env).io ⟨src, 0⟩ content m.dev.Keeps := by
    rw [← hbytes, ← h.bytes]
    exact serving_files env.hpatch.cfg hopen hoff'
  have hfeeds : Feeds (fsEnv env).io ⟨src, 0⟩ (content.drop srcReadPos) m.dev.Keeps := by
    rw [← hbytes, ← h.bytes]
    exact feeds_files env.hpatch.cfg hopen hoff'
  have htables' : (fsEnv env).tables = startupTables (fsEnv env).build vendor := htables
  obtain ⟨ok, m₁, hcheck, hkeeps, hiff, hinfo⟩ :=
    fwCheck_serving htables' hgood.gzip hserving hfeeds (.refl m.dev) size ⟨.app, 0⟩ k
  have h₁ : m₁.dev.Shows offMax v := h.keeps hkeeps
  cases ok with
  | false =>
      refine ⟨false, m₁, v.file, ?_, h₁, .refused hsource fun htaken => ?_⟩
      · simp only [releaseOpened, run_bind, hcheck]
        rfl
      · exact Bool.false_ne_true (hiff.mpr htaken.package)
  | true =>
      obtain ⟨ok, hprod, hprodIff⟩ := productCodeOk_run (fsEnv env) m₁
      rw [hinfo rfl] at hprodIff
      cases ok with
      | false =>
          refine ⟨false, m₁, v.file, ?_, h₁, .refused hsource fun htaken => ?_⟩
          · simp only [releaseOpened, run_bind, hcheck, if_true, hprod]
            rfl
          · exact Bool.false_ne_true (hprodIff.mpr htaken.product)
      | true =>
          have htaken : Taken env src k content := ⟨hiff.mp rfl, hprodIff.mp rfl⟩
          obtain ⟨done, m₂, hsign, h₂, hinfo₂, hdone⟩ :=
            signAsked_shows env ⟨src, 0⟩ checkSign h₁ (Nat.zero_lt_of_lt hfree)
          rw [releaseOpened_done hcheck hprod hsign]
          cases done with
          | true =>
              obtain ⟨hasked, hsigned⟩ := hdone.mp rfl
              exact ⟨true, m₂, v.file, rfl, h₂, .already hsource htaken hasked hsigned⟩
          | false =>
              have hunsigned : checkSign = true → v.file .sign = none := by
                intro hasked
                rw [← Option.not_isSome_iff_eq_none]
                exact fun hsome => Bool.false_ne_true (hdone.mpr ⟨hasked, hsome⟩)
              rw [if_neg Bool.false_ne_true, hinfo₂, hinfo rfl]
              have hnames : nameToId (fsEnv env).hpatch.cfg.useStorageSwap
                  (contentHeader content).fromPartName =
                nameToId env.hpatch.cfg.useStorageSwap (contentHeader content).fromPartName := rfl
              rw [hnames]
              cases hname : nameToId env.hpatch.cfg.useStorageSwap
                (contentHeader content).fromPartName with
              | none =>
                  exact ⟨false, m₂, v.file, rfl, h₂, .nowhere hsource htaken hunsigned hname⟩
              | some dst =>
                  have hne : dst ≠ src := by
                    rintro rfl
                    exact hgood.other hname
                  exact releaseTo_shows k htables hoff h₂ hsrc (hheld dst hne) hfree hlens hgood
                    (hinfo₂.trans (hinfo rfl)) ⟨hsource, htaken, hunsigned, hname⟩

theorem releaseFromPart_shows {file : FsPath → Option (List UInt8)} {free : Nat}
    (h : m.dev.Shows offMax (.idle file free)) (hfree : 2 < free)
    (hlens : ∀ id content, file (.target id) = some content → content.length ≤ offMax)
    (hgood : ∀ content, file (.target src) = some content → Streamable env src content) :
    ∃ ok m' file', releaseFromPart (fsEnv env) src checkSign m = (ok, m') ∧
      m'.dev.Shows offMax (.idle file' free) ∧ FileRelease env src checkSign k file ok file' := by
  generalize hstart : (emit (.releaseStart src checkSign) m).2 = m₀
  have h₀ : m₀.dev.Shows offMax (.idle file free) := hstart ▸ h
  cases hsource : file (.target src) with
  | none =>
      obtain ⟨m₁, hopen, hdev⟩ : ∃ m₁,
          targetOpen (fsEnv env).io src .read m₀ = ((none, none), m₁) ∧ m₁.dev = m₀.dev :=
        targetOpen_missing h₀ hsource rfl
      refine ⟨false, (emit (.released src checkSign false) m₁).2, file, ?_, hdev ▸ h₀,
        .missing hsource⟩
      simp only [releaseFromPart, run_bind, hstart, hopen, run_pure]
  | some content =>
      generalize hidle : FileView.idle file free = v₀ at h₀
      obtain rfl : v₀.file = file := by rw [← hidle, FileView.idle]
      obtain rfl : v₀.free = free := by rw [← hidle, FileView.idle]
      have hunheld (id : TargetId) : v₀.held id = none := by rw [← hidle, FileView.idle]
      have hbytes : v₀.bytes src = content := FileView.bytes_of_file hsource
      have hlens' (id : TargetId) : (v₀.bytes id).length ≤ offMax :=
        FileView.length_bytes_le hlens id
      have hpos : 0 < v₀.free := Nat.zero_lt_of_lt hfree
      obtain ⟨m₁, hopen, h₁, -⟩ : ∃ m₁, targetOpen (fsEnv env).io src .read m₀ =
          ((some ⟨src, 0⟩, some (foundSize env.hpatch.cfg src (v₀.bytes src))), m₁) ∧
            m₁.dev.Shows offMax (v₀.opened src false) ∧ m₁.fwInfo = m₀.fwInfo :=
        targetOpen_shows h₀ (hunheld src) hpos (.inl (hsource ▸ rfl)) rfl (hlens' src)
      have hfile : (v₀.opened src false).file = v₀.file := v₀.file_opened src false hsource
      have hheld (id : TargetId) (hne : id ≠ src) : (v₀.opened src false).held id = none := by
        rw [v₀.held_opened_of_ne src false hne, hunheld]
      have hsame (id : TargetId) : ((v₀.opened src false).bytes id).length ≤ offMax := by
        rw [FileView.bytes, hfile]
        exact hlens' id
      obtain ⟨ok, m₂, file', hrun, h₂, hrelease⟩ : ∃ ok m₂ file',
          releaseOpened (fsEnv env) ⟨src, 0⟩ (foundSize env.hpatch.cfg src (v₀.bytes src))
            checkSign m₁ = (ok, m₂) ∧
          m₂.dev.Shows offMax ((v₀.opened src false).withFile file') ∧
          FileRelease env src checkSign k (v₀.opened src false).file ok file' :=
        releaseOpened_shows k htables hoff h₁ (v₀.held_opened src false) hheld
          (Nat.lt_sub_of_add_lt hfree) (hfile ▸ hsource) hsame (hgood content hsource)
      have hclosed : (targetClose (fsIo env.hpatch.cfg) ⟨src, 0⟩ m₂).2.dev.Shows offMax
          (((v₀.opened src false).withFile file').closed src) :=
        targetClose_shows h₂ (v₀.held_opened src false)
      rw [v₀.closed_opened src false (hunheld src) hpos] at hclosed
      rw [hfile] at hrelease
      refine ⟨ok, (emit (.released src checkSign ok)
        (targetClose (fsEnv env).io ⟨src, 0⟩ m₂).2).2, file', ?_, ?_, hrelease⟩
      · simp only [releaseFromPart, run_bind, hstart, hopen, hrun, run_pure]
      · rw [← hidle] at hclosed
        exact hclosed

end Run

section Files

variable {Z Q A : Type} {vendor : Vendor Z Q A} {env : Env FsDev (CodecMem Z Q A)}
  {src : TargetId} {checkSign : Bool} {m : Machine FsDev (CodecMem Z Q A)}

theorem FsDev.shows_idle {d : FsDev} (hslots : ∀ id, d.slots id = none) :
    d.Shows d.sys.offMax (.idle d.sys.file d.sys.freeFds.card) where
  file := rfl
  unheld id _ := hslots id
  held id writable hid := by
    rw [FileView.idle] at hid
    simp at hid
  free := rfl
  offMax := rfl

/-- A release answers and leaves the files as the specification says, and gives every
descriptor back. -/
theorem releaseFromPart_files (k : CodecMem Z Q A)
    (htables : env.tables = startupTables env.build vendor)
    (hslots : ∀ id, m.dev.slots id = none) (hfree : 2 < m.dev.sys.freeFds.card)
    (hoff : 2 ^ 33 ≤ m.dev.sys.offMax)
    (hlens : ∀ id content, m.dev.sys.file (.target id) = some content →
      content.length ≤ m.dev.sys.offMax)
    (hgood : ∀ content, m.dev.sys.file (.target src) = some content →
      Streamable env src content) :
    ∃ ok m', releaseFromPart (fsEnv env) src checkSign m = (ok, m') ∧
      FileRelease env src checkSign k m.dev.sys.file ok m'.dev.sys.file ∧
      (∀ id, m'.dev.slots id = none) ∧ m'.dev.sys.freeFds.card = m.dev.sys.freeFds.card := by
  obtain ⟨ok, m', file', hrun, hshows, hrelease⟩ := releaseFromPart_shows k htables hoff
    (FsDev.shows_idle hslots) hfree hlens hgood
  refine ⟨ok, m', hrun, ?_, fun id => hshows.unheld id rfl, hshows.free⟩
  rw [hshows.file]
  exact hrelease

end Files

/-- DOWNLOAD holds the package of eight bytes, APP has 200 bytes, and nothing is open. -/
def startupIdle : Machine FsDev (CodecMem Unit Unit Unit) where
  dev :=
    let stored (path : FsPath) : Option (List UInt8) :=
      if path = .target .download then some (eightByteHeader.toBytes ++ [1, 2, 3, 4, 5, 6, 7, 8])
      else if path = .target .app then some (List.replicate 200 0)
      else none
    FsDev.start stored 8 (2 ^ 33)
  mem := startupStored.mem
  fwInfo := startupStored.fwInfo
  log := []

theorem releaseFromPart_files_idle :
    ∃ ok m', releaseFromPart (fsEnv startupFileEnv) .download true startupIdle = (ok, m') ∧
      FileRelease startupFileEnv .download true startupIdle.mem startupIdle.dev.sys.file ok
        m'.dev.sys.file ∧
      (∀ id, m'.dev.slots id = none) ∧
      m'.dev.sys.freeFds.card = startupIdle.dev.sys.freeFds.card := by
  have htables : startupFileEnv.tables = startupTables startupFileEnv.build flipVendor := rfl
  apply releaseFromPart_files startupIdle.mem htables
  · exact fun _ => rfl
  · decide +kernel
  · decide +kernel
  · intro id content hcontent
    cases id
    case app | download =>
      cases hcontent
      decide +kernel
    all_goals cases hcontent
  · intro content hcontent
    cases hcontent
    exact ⟨fun _ => by decide +kernel, by decide +kernel, by decide +kernel⟩

end Qboot
