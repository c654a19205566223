import Qboot.Model.Device
import Qboot.Proofs.BodyFeed
/-!
# Decryption of the package body

Over every pair of registered stages, what `qbt_app_crc_check` and `qbt_fw_release`
hand to the decoder or to the patcher.
-/

namespace Qboot

open Library Bytes Prog Machine Loop

variable {σ Z Q A : Type}

/-! ## Around a pass -/

/-- No package piece has been read, and no decoder has been called. -/
def Unheard (env : RecordingEnv σ (CodecMem Z Q A)) (m m' : Machine σ (CodecMem Z Q A)) :
    Prop :=
  env.reads m'.dev = env.reads m.dev ∧
    Extends Machine.log (fun e => e.unseen = true) m m'

section Around

variable {env : RecordingEnv σ (CodecMem Z Q A)} {v : Vendor Z Q A} {c : Crypto}
  {src : Handle} {a : A} {m₀ m m' : Machine σ (CodecMem Z Q A)}

instance : IsPreorder (Machine σ (CodecMem Z Q A)) (Unheard env) where
  refl m := ⟨rfl, refl_of (Extends Machine.log _) m⟩
  trans _ _ _ h h' := ⟨h'.1.trans h.1, h.2.trans h'.2⟩

variable (env) in
theorem unheard_stageInit (stage : Stage) (init : Option (Prog (CodecMem Z Q A) RtErr)) :
    Within (Unheard env) (stageInit stage init) := by
  unfold stageInit
  rcases init with _ | init
  · exact .pure _
  · exact Within.bind (fun _ => ⟨rfl, extends_of_eq rfl⟩) fun _ =>
      Within.bind (fun _ => ⟨rfl, extends_concat rfl rfl⟩) fun _ => .pure _

variable (env) in
theorem unheard_stageDeinit (stage : Stage)
    (deinit : Option (Prog (CodecMem Z Q A) Unit)) :
    Within (Unheard env) (stageDeinit stage deinit) := by
  unfold stageDeinit
  rcases deinit with _ | deinit
  · exact .pure _
  · exact Within.bind (fun _ => ⟨rfl, extends_of_eq rfl⟩) fun _ _ =>
      ⟨rfl, extends_concat rfl rfl⟩

variable (env) in
theorem unheard_fwAlgoInit (algo : AlgoContext (CodecMem Z Q A)) :
    Within (Unheard env) (fwAlgoInit algo) := by
  refine (unheard_stageInit env _ _).bind fun _ => .ite ?_ (.pure _)
  refine (unheard_stageInit env _ _).bind fun _ => .ite (.pure _) ?_
  exact (unheard_stageDeinit env _ _).bind fun _ => .pure _

variable (env) in
theorem unheard_fwAlgoDeinit (algo : AlgoContext (CodecMem Z Q A)) :
    Within (Unheard env) (fwAlgoDeinit algo) :=
  (unheard_stageDeinit env _ _).bind fun _ => unheard_stageDeinit env _ _

variable (env) in
theorem unheard_eraseWithFeed (h : Handle) (off len : Nat) :
    Within (Unheard env) (eraseWithFeed env.io h off len) := by
  intro m
  rw [run_eraseWithFeed]
  exact ⟨env.erase_keeps h off len m.dev, extends_concat rfl rfl⟩

variable (env) in
theorem unheard_ioWrite (h : Handle) (off : Nat) (data : List UInt8) :
    Within (Unheard env) (ioWrite env.io h off data) := by
  intro m
  rw [run_ioWrite]
  exact ⟨env.write_keeps h off data m.dev, extends_concat rfl rfl⟩

theorem Fed.unheard (h : Fed env v c src a m₀ m) (hmore : Unheard env m m') :
    Fed env v c src a m₀ m' := by
  obtain ⟨pieces, hreads, htraced⟩ := h
  obtain ⟨hkeep, es, hlog, hes⟩ := hmore
  exact ⟨pieces, hkeep.trans hreads, htraced.concat hlog fun new hnew => hnew.unseen hes⟩

theorem feeding_start (h : Unheard env m₀ m) (hchain : m.mem.aes = a) :
    Feeding env v c src a m₀ [] .empty m := by
  obtain ⟨hkeep, es, hlog, hes⟩ := h
  have hnil : HandsFrom [] .empty [] := ⟨⟨rfl, Trace.along_nil⟩, rfl, rfl⟩
  exact ⟨hkeep.trans (List.append_nil _).symm, hchain, es, hlog, hnil.unseen hes⟩

/-- Run from any state, `x` reads the pieces of the body in order, and hands on what
`c`, freshly initialised, makes of them. -/
def FedBody {α : Type} (env : RecordingEnv σ (CodecMem Z Q A)) (v : Vendor Z Q A)
    (c : Crypto) (src : Handle) (x : Prog (Machine σ (CodecMem Z Q A)) α) : Prop :=
  ∀ m, ∃ pieces, env.reads (x m).2.dev = env.reads m.dev ++ readsOf src srcReadPos pieces ∧
    Traced m (x m).2 (Hands (c.decryptBody v pieces))

theorem Fed.body (h : Fed env v c src a m₀ m) (hfresh : c = .aes → a = v.aes.init) :
    ∃ pieces, env.reads m.dev = env.reads m₀.dev ++ readsOf src srcReadPos pieces ∧
      Traced m₀ m (Hands (c.decryptBody v pieces)) := by
  obtain ⟨pieces, hreads, htraced⟩ := h
  refine ⟨pieces, hreads, ?_⟩
  cases c with
  | none =>
      rw [Crypto.applyAll_none] at htraced
      rwa [Crypto.decryptBody, Crypto.applyAll_none]
  | aes => rwa [hfresh rfl] at htraced

end Around

/-! ## The streamed passes -/

def Selects (b : Build) (v : Vendor Z Q A) (c : Crypto) (d : Decoder) (info : FwInfo) :
    Prop :=
  info.algo.toNat &&& algoCryptMask = (c.ops b v).cryptoId ∧
    info.algo.toNat &&& algoCmprsMask = (d.ops b v).cmprsId

section Streamed

variable {env : RecordingEnv σ (CodecMem Z Q A)} {v : Vendor Z Q A} {c : Crypto}
  {d : Decoder} {info : FwInfo}

theorem findCmprs_decoder (b : Build) (v : Vendor Z Q A) (d : Decoder) :
    findCmprs (startupTables b v) (d.ops b v).cmprsId =
      if d.enabled b then some (d.ops b v) else none := by
  rcases d with c | _
  · exact findCmprs_startup b v c
  · have hindex : cmprsIdToIndex (Decoder.hpatchlite.ops b v).cmprsId = 4 := by
      show cmprsIdToIndex algoCmprsHpatchlite = 4
      decide
    rw [findCmprs, hindex]
    rfl

theorem fwGetAlgoContext_selected (htables : env.tables = startupTables env.build v)
    (hc : c.enabled env.build = true) (hd : d.enabled env.build = true)
    (hsel : Selects env.build v c d info) :
    fwGetAlgoContext env.tables info = some ⟨c.ops env.build v, d.ops env.build v⟩ := by
  rw [fwGetAlgoContext, htables, hsel.1, hsel.2, findCrypto_startup, findCmprs_decoder,
    if_pos hc, if_pos hd]
  rfl

theorem fwAlgoInit_aes (b : Build) (v : Vendor Z Q A) (c : Crypto) (d : Decoder)
    (m : Machine σ (CodecMem Z Q A)) (hc : c = .aes) :
    (fwAlgoInit ⟨c.ops b v, d.ops b v⟩ m).2.mem.aes = v.aes.init := by
  subst hc
  rcases d with (_ | _ | _ | _) | _ <;> rfl

variable (env) in
theorem fwAlgoInit_starts {m m₁ : Machine σ (CodecMem Z Q A)} (c : Crypto) (d : Decoder)
    (hinit : (fwAlgoInit ⟨c.ops env.build v, d.ops env.build v⟩ m).2 = m₁) :
    Unheard env m m₁ ∧ (c = .aes → m₁.mem.aes = v.aes.init) := by
  subst hinit
  exact ⟨unheard_fwAlgoInit env _ m, fwAlgoInit_aes env.build v c d m⟩

theorem fed_pass {m m₁ m₂ : Machine σ (CodecMem Z Q A)} (v : Vendor Z Q A) (info : FwInfo)
    (src : Handle) (pc : ProcCtx) (hc : c.enabled env.build = true) (hd : d.enabled env.build = true)
    (hinit : Unheard env m m₁) (hpre : Unheard env m₁ m₂) (hmem : m₂.mem = m₁.mem) :
    Fed env v c src m₁.mem.aes m (fwStreamProcess env.toPlatform info src
      ⟨c.ops env.build v, d.ops env.build v⟩ pc m₂).2 :=
  streamProcess_fed (stages_registered v hc hd) pc
    (feeding_start (trans_of (Unheard env) hinit hpre) (by rw [hmem]))

theorem fedBody_appCrcCheck (src : Handle)
    (halgo : fwGetAlgoContext env.tables info =
      some ⟨c.ops env.build v, d.ops env.build v⟩)
    (hc : c.enabled env.build = true) (hd : d.enabled env.build = true) :
    FedBody env v c src (appCrcCheck env.toEnv src info) := by
  intro m
  simp only [appCrcCheck, halgo]
  rcases hinit : fwAlgoInit ⟨c.ops env.build v, d.ops env.build v⟩ m with ⟨_ | _, m₁⟩
  all_goals
    obtain ⟨hstart, hfresh⟩ := fwAlgoInit_starts env c d (congrArg Prod.snd hinit)
  · simp only [Prog.run_bind, hinit]
    exact (feeding_start hstart rfl).fed.body hfresh
  · simp only [Prog.run_bind, hinit, if_true]
    have hfed := fed_pass v info src (.crc 0xFFFFFFFF) hc hd hstart
      (refl_of (Unheard env) m₁) rfl
    exact (hfed.unheard (unheard_fwAlgoDeinit env _ _)).body hfresh

theorem fed_streamRelease {m m₁ : Machine σ (CodecMem Z Q A)} (v : Vendor Z Q A)
    (info : FwInfo) (src dst : Handle) (dstSize : Nat) (hc : c.enabled env.build = true)
    (hd : d.enabled env.build = true) (hinit : Unheard env m m₁) :
    Fed env v c src m₁.mem.aes m (streamRelease env.toEnv dst dstSize src info
      ⟨c.ops env.build v, d.ops env.build v⟩ m₁).2 := by
  have hnone {m₂ : Machine σ (CodecMem Z Q A)} (hpre : Unheard env m₁ m₂) :
      Fed env v c src m₁.mem.aes m m₂ :=
    (feeding_start hinit rfl).fed.unheard hpre
  have hdeinit := unheard_fwAlgoDeinit env ⟨c.ops env.build v, d.ops env.build v⟩
  have hhead := unheard_eraseWithFeed env dst 0 info.rawSize.toNat m₁
  have hmem : (eraseWithFeed env.io dst 0 info.rawSize.toNat m₁).2.mem = m₁.mem := rfl
  rw [streamRelease, Prog.run_bind]
  generalize eraseWithFeed env.io dst 0 info.rawSize.toNat m₁ = x at hhead hmem
  rcases x with ⟨_ | _, m₂⟩
  · exact hnone (trans_of (Unheard env) hhead (hdeinit m₂))
  have htail := unheard_eraseWithFeed env dst (u32Sub dstSize srcReadPos) srcReadPos m₂
  have hmem' : (eraseWithFeed env.io dst (u32Sub dstSize srcReadPos) srcReadPos m₂).2.mem =
    m₂.mem := rfl
  simp only [if_true, Prog.run_bind]
  generalize eraseWithFeed env.io dst (u32Sub dstSize srcReadPos) srcReadPos m₂ = x
    at htail hmem'
  have hpre := trans_of (Unheard env) hhead htail
  rcases x with ⟨_ | _, m₃⟩
  · exact hnone (trans_of (Unheard env) hpre (hdeinit m₃))
  · exact (fed_pass v info src (.write ⟨dst, 0, info.rawSize.toNat⟩) hc hd hinit hpre
      (hmem'.trans hmem)).unheard (hdeinit _)

theorem fedBody_fwRelease (src dst : Handle) (dstSize : Nat)
    (halgo : fwGetAlgoContext env.tables info =
      some ⟨c.ops env.build v, d.ops env.build v⟩)
    (hc : c.enabled env.build = true) (hd : d.enabled env.build = true)
    (hstream : d ≠ .hpatchlite) :
    FedBody env v c src (fwRelease env.toEnv dst dstSize src info) := by
  intro m
  have hpatched : (env.build.usingHpatchlite &&
      (d.ops env.build v).cmprsId == algoCmprsHpatchlite) = false := by
    rcases d with (_ | _ | _ | _) | _
    · exact Bool.and_false _
    · exact Bool.and_false _
    · exact Bool.and_false _
    · exact Bool.and_false _
    · exact absurd rfl hstream
  simp only [fwRelease, halgo]
  rcases hinit : fwAlgoInit ⟨c.ops env.build v, d.ops env.build v⟩ m with ⟨_ | _, m₁⟩
  all_goals
    obtain ⟨hstart, hfresh⟩ := fwAlgoInit_starts env c d (congrArg Prod.snd hinit)
  · simp only [Prog.run_bind, hinit]
    exact (feeding_start hstart rfl).fed.body hfresh
  have hfed := fed_streamRelease v info src dst dstSize hc hd hstart
  simp only [Prog.run_bind, hinit, if_true, hpatched, Bool.false_eq_true, if_false]
  rcases hrun : streamRelease env.toEnv dst dstSize src info
    ⟨c.ops env.build v, d.ops env.build v⟩ m₁ with ⟨_ | _, m₂⟩
  · rw [hrun] at hfed
    exact hfed.body hfresh
  · rw [hrun] at hfed
    exact (hfed.unheard (unheard_ioWrite env dst _ _ m₂)).body hfresh

end Streamed

/-! ## The patch path -/

/-- The first half of `qbt_hpatchlite_release_from_part`, up to the patcher. -/
def patchStart {κ : Type} (env : Env σ κ) (src dst : Handle) (info : FwInfo) :
    Prog (Machine σ κ) (Option HpatchInst) := do
  match ← onDev (env.io.getEraseAlign dst) with
  | none => pure none
  | some sectorSize =>
      if swapFileTooSmall env.hpatch.cfg sectorSize then pure none
      else if ← onDev (env.hpatch.malloc env.hpatch.cfg.ramBufSize) then
        swapInit env.io env.hpatch.cfg (hpatchStart src dst (i32 info.pkgSize.toNat)
          (i32 info.rawSize.toNat) srcReadPos sectorSize)
      else pure none

/-- What `_do_read_patch` has storage read in a run of the patcher, and what it hands
over, call by call. -/
def patchFeed {κ : Type} (env : RecordingEnv σ κ) :
    Patcher → HpatchInst → Machine σ κ → List (List PieceRead × List UInt8)
  | .done _, _, _ => []
  | .readPatch size next, inst, m =>
      let r := doReadPatch env.io inst size m
      let reads := (env.reads r.2.dev).drop (env.reads m.dev).length
      if r.1.1.ok then (reads, r.1.1.data) :: patchFeed env (next r.1.1.data) r.1.2 r.2
      else [(reads, [])]
  | .readOld addr size next, inst, m =>
      let r := doReadOld env.io inst addr size m
      match r.1 with
      | some data => patchFeed env (next data) inst r.2
      | none => []
  | .writeNew data next, inst, m =>
      let r := doWriteNew env.io env.hpatch.cfg inst data m
      match r.1 with
      | some inst => patchFeed env next inst r.2
      | none => []

/-- The patcher, called as `qbt_fw_release` calls it, is handed the decrypted body. -/
def PatchFed (env : RecordingEnv σ (CodecMem Z Q A)) (v : Vendor Z Q A) (c : Crypto)
    (src dst : Handle) (info : FwInfo) : Prop :=
  ∀ m inst m', patchStart env.toEnv src dst info m = (some inst, m') →
    ∃ pieces,
      (patchFeed env env.hpatch.hpiPatch inst m').flatMap Prod.fst =
        readsOf src srcReadPos pieces ∧
      (patchFeed env env.hpatch.hpiPatch inst m').flatMap Prod.snd =
        c.decryptBody v pieces

section Patched

variable {κ : Type} (env : RecordingEnv σ κ)

theorem doReadPatch_raw (inst : HpatchInst) (size : Nat) (m : Machine σ κ) :
    (∃ data, (doReadPatch env.io inst size m).1 = (⟨true, data.length, data⟩,
        { inst with patchReadPos := inst.patchReadPos + data.length }) ∧
      ((env.reads (doReadPatch env.io inst size m).2.dev).drop (env.reads m.dev).length =
        readsOf inst.patchPart (inst.patchFileOffset + inst.patchReadPos)
          (if data = [] then [] else [data]))) ∨
    ((doReadPatch env.io inst size m).1.1.ok = false ∧
      (env.reads (doReadPatch env.io inst size m).2.dev).drop (env.reads m.dev).length =
        []) := by
  unfold doReadPatch
  split
  · exact .inl ⟨[], rfl, by simp [readsOf]⟩
  dsimp only
  generalize min size (inst.patchFileLen - inst.patchReadPos).toNat = n
  by_cases hn : n = 0
  · rw [if_pos hn, hn]
    exact .inl ⟨[], rfl, by simp [readsOf]⟩
  rw [if_neg hn]
  have hadds := env.read_adds inst.patchPart (inst.patchFileOffset + inst.patchReadPos) n m.dev
  rw [Prog.run_bind, run_ioRead]
  rcases hread : env.io.read inst.patchPart (inst.patchFileOffset + inst.patchReadPos) n m.dev
    with ⟨_ | ⟨data, rfl⟩, dev⟩
  · rw [hread] at hadds
    refine .inr ⟨rfl, ?_⟩
    show (env.reads dev).drop _ = []
    rw [hadds, answeredRead, List.append_nil, List.drop_length]
  · rw [hread] at hadds
    have hne : data ≠ [] := fun hnil => hn (by rw [hnil]; rfl)
    refine .inl ⟨data, rfl, ?_⟩
    show (env.reads dev).drop _ = _
    rw [hadds, List.drop_left, if_neg hne]
    rfl

theorem patchFeed_raw (p : Patcher) (inst : HpatchInst) (m : Machine σ κ) :
    ∃ pieces,
      (patchFeed env p inst m).flatMap Prod.fst = readsOf inst.patchPart
        (inst.patchFileOffset + inst.patchReadPos) pieces ∧
      (patchFeed env p inst m).flatMap Prod.snd = pieces.flatten := by
  induction p generalizing inst m with
  | done success => exact ⟨[], rfl, rfl⟩
  | readPatch size next ih =>
      rcases doReadPatch_raw env inst size m with ⟨data, hdata, hreads⟩ | ⟨hnone, hreads⟩
      · obtain ⟨pieces, hfirst, hsecond⟩ := ih data
          { inst with patchReadPos := inst.patchReadPos + data.length }
          (doReadPatch env.io inst size m).2
        refine ⟨(if data = [] then [] else [data]) ++ pieces, ?_, ?_⟩
        · simp only [patchFeed, hdata, if_true, List.flatMap_cons, hreads, hfirst]
          split
          · rename_i hnil
            rw [hnil]
            rfl
          · simp [readsOf, Nat.add_assoc]
        · simp only [patchFeed, hdata, if_true, List.flatMap_cons, hsecond, List.flatten_append]
          split
          · rename_i hnil
            rw [hnil]
            rfl
          · simp
      · simp only [patchFeed]
        rw [hnone, if_neg Bool.false_ne_true, hreads]
        exact ⟨[], rfl, rfl⟩
  | readOld addr size next ih =>
      simp only [patchFeed]
      rcases (doReadOld env.io inst addr size m).1 with _ | data
      · exact ⟨[], rfl, rfl⟩
      · exact ih data inst _
  | writeNew data next ih =>
      have hkept := keepsFiles_doWriteNew env.io env.hpatch.cfg inst data m
      simp only [patchFeed]
      rcases hrun : (doWriteNew env.io env.hpatch.cfg inst data m).1 with _ | inst'
      · exact ⟨[], rfl, rfl⟩
      · have hsame := hkept inst' hrun
        obtain ⟨pieces, hfirst, hsecond⟩ := ih inst'
          (doWriteNew env.io env.hpatch.cfg inst data m).2
        rw [hsame.patchPart, hsame.patchFileOffset, hsame.patchReadPos] at hfirst
        exact ⟨pieces, hfirst, hsecond⟩

end Patched

theorem patchStart_inst {κ : Type} (env : Env σ κ) (src dst : Handle) (info : FwInfo) :
    Yields (fun r => ∀ inst, r = some inst → inst.patchPart = src ∧
      inst.patchFileOffset = srcReadPos ∧ inst.patchReadPos = 0)
      (patchStart env src dst info : Prog (Machine σ κ) _) := by
  have hnone : Yields (fun r : Option HpatchInst => ∀ inst, r = some inst →
      inst.patchPart = src ∧ inst.patchFileOffset = srcReadPos ∧ inst.patchReadPos = 0)
      (pure none : Prog (Machine σ κ) _) := .pure nofun
  refine (Yields.any _).bind fun align _ => ?_
  rcases align with _ | align
  · exact hnone
  refine .ite hnone ((Yields.any _).bind fun _ _ => .ite (.ite ?_ ?_) hnone)
  · refine (Yields.any _).bind fun opened _ => ?_
    rcases opened with ⟨_ | part, _ | size⟩
    · exact hnone
    · exact hnone
    · exact hnone
    refine .ite ((Yields.any _).bind fun _ _ => hnone) ?_
    refine (Yields.any _).bind fun _ _ => .ite (.pure fun inst hinst => ?_)
      ((Yields.any _).bind fun _ _ => hnone)
    rw [← Option.some.inj hinst]
    exact ⟨rfl, rfl, rfl⟩
  · refine .pure fun inst hinst => ?_
    rw [← Option.some.inj hinst]
    exact ⟨rfl, rfl, rfl⟩

theorem patchFed_none (env : RecordingEnv σ (CodecMem Z Q A)) (v : Vendor Z Q A)
    (src dst : Handle) (info : FwInfo) : PatchFed env v .none src dst info := by
  intro m inst m' hstart
  obtain ⟨hpart, hoff, hpos⟩ :=
    patchStart_inst env.toEnv src dst info m inst (congrArg Prod.fst hstart)
  obtain ⟨pieces, hreads, hhanded⟩ := patchFeed_raw env env.hpatch.hpiPatch inst m'
  rw [hpart, hoff, hpos] at hreads
  refine ⟨pieces, hreads, ?_⟩
  rw [hhanded, Crypto.decryptBody, Crypto.applyAll_none]

/-! ## Every pair of stages -/

/-- Both passes over a package hand the decrypted body to its decoder or patcher. -/
structure BodyDecrypted (env : RecordingEnv σ (CodecMem Z Q A)) (v : Vendor Z Q A)
    (c : Crypto) (d : Decoder) (info : FwInfo) (src dst : Handle) (dstSize : Nat) : Prop where
  checked : FedBody env v c src (appCrcCheck env.toEnv src info)
  released : d ≠ .hpatchlite →
    FedBody env v c src (fwRelease env.toEnv dst dstSize src info)
  patched : d = .hpatchlite → PatchFed env v c src dst info

/-- The stages of the package are those that the build registers. -/
structure Registered (env : Env σ (CodecMem Z Q A)) (v : Vendor Z Q A) (c : Crypto)
    (d : Decoder) (info : FwInfo) : Prop where
  tables : env.tables = startupTables env.build v
  crypto : c.enabled env.build = true
  decoder : d.enabled env.build = true
  selects : Selects env.build v c d info

def flipVendor : Vendor Unit Unit Unit where
  zlib :=
    { inflateInit2 := ()
      inflate := fun _ _ _ => ⟨.bufError, 0, [], ()⟩
      inflateEnd := id
      consumed_le := fun _ _ _ => Nat.zero_le _
      out_le := fun _ _ _ => Nat.zero_le _ }
  quicklz := ⟨(), fun _ _ => ([], ())⟩
  fastlz := ⟨fun _ _ _ => []⟩
  aes := ⟨(), fun _ inp => (⟨inp.1.map (· ^^^ 0xFF), by rw [List.length_map, inp.2]⟩, ())⟩

/-- A build with AES and HPatchLite over FAL, whose patcher reads one byte. -/
def cipherEnv : RecordingEnv (FlashDev × List PieceRead) (CodecMem Unit Unit Unit) :=
  Env.recording
    { build := ⟨true, false, false, false, true⟩
      io := regionIo fun _ => .fal
      crc := crc32Lib
      parser := regionParser fun _ => .fal
      tables := startupTables ⟨true, false, false, false, true⟩ flipVendor
      hpatch :=
        { cfg := ⟨false, 0, 4096, 4096, none⟩
          malloc := fun n d => (n != 0, d)
          malloc_zero := granted_zero
          hpiPatch := .readPatch 1 fun _ => .done true }
      productCode := none
      usingAppCheck := true }

def cipherInfo : FwInfo :=
  { FwInfo.ofBytes (Block.ofList srcReadPos []) with algo := 0x402, pkgSize := 1, rawSize := 1 }

theorem cipher_registered : Registered cipherEnv.toEnv flipVendor .aes .hpatchlite cipherInfo :=
  ⟨rfl, rfl, rfl, by decide, by decide⟩

def zeroMachine : Machine (FlashDev × List PieceRead) (CodecMem Unit Unit Unit) where
  dev := (⟨fun _ => ⟨128, 4, fun _ => 0⟩, .steady, fun _ => 0⟩, [])
  mem := ⟨⟨(), 0, []⟩, (), ()⟩
  fwInfo := cipherInfo
  log := []

theorem cipher_feed : ∃ inst m',
    patchStart cipherEnv.toEnv ⟨.download, 0⟩ ⟨.app, 0⟩ cipherInfo zeroMachine =
      (some inst, m') ∧
    (patchFeed cipherEnv cipherEnv.hpatch.hpiPatch inst m').flatMap Prod.fst =
      [⟨⟨.download, 0⟩, srcReadPos, [0]⟩] ∧
    (patchFeed cipherEnv cipherEnv.hpatch.hpiPatch inst m').flatMap Prod.snd = [0] :=
  ⟨_, _, rfl, by decide +kernel, by decide +kernel⟩

theorem cipher_raw : ¬PatchFed cipherEnv flipVendor .aes ⟨.download, 0⟩ ⟨.app, 0⟩ cipherInfo := by
  intro hfed
  obtain ⟨inst, m', hstart, hread, hzero⟩ := cipher_feed
  obtain ⟨pieces, hreads, hhanded⟩ := hfed zeroMachine inst m' hstart
  rw [hread] at hreads
  rw [hzero] at hhanded
  rcases pieces with _ | ⟨p, _ | ⟨q, ps⟩⟩
  · cases hreads
  · obtain ⟨rfl⟩ : p = [0] := by
      simp only [readsOf, List.cons.injEq, PieceRead.mk.injEq] at hreads
      exact hreads.1.2.2.symm
    exact absurd hhanded (by decide)
  · simp [readsOf] at hreads

end Qboot
