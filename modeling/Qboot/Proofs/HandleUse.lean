import Qboot.Proofs.PatchFrame
import Qboot.Model.Shell
/-!
# Which handles a release uses

The check of a package reads through its handle.  A release reads the source, and
reads, erases and writes the destination and the swap area.
-/

namespace Qboot

open Library Prog Machine Loop

variable {σ κ α : Type}

/-- An event that is recorded without an access to storage: of a codec, of a commit or of
the release sign. -/
def Event.aside : Event → Bool
  | .signWritten .. => true
  | .stageInit .. => true
  | .stageDeinit .. => true
  | .filled .. => true
  | .decrypted .. => true
  | .decompress .. => true
  | .accepted .. => true
  | .committed .. => true
  | _ => false

/-- `R` admits reading through the handles in `V`, erasing and writing through those in
`W`, and all that the code does with its codecs and its record. -/
structure AdmitsOn (io : IoOps σ) (V W : Handle → Prop)
    (R : Machine σ κ → Machine σ κ → Prop) : Prop where
  reads : ∀ h off len, V h → Within R (ioRead io h off len)
  writes : ∀ h off data, W h → Within R (ioWrite io h off data)
  erases : ∀ h off len, W h → Within R (eraseWithFeed io h off len)
  sizes : ∀ h, V h → Within R (onDev (io.size h))
  aligns : ∀ h, V h → Within R (onDev (io.getEraseAlign h))
  mem : ∀ {α : Type} (x : Prog κ α), Within R (onMem x)
  emits : ∀ e, e.aside = true → Within R (emit e)

def Event.marksStage : Event → Bool
  | .stageInit .. => true
  | .stageDeinit .. => true
  | _ => false

/-- `R` admits what a stream or a patch does between the setup and the cleanup of its
stages. -/
structure AdmitsBody (io : IoOps σ) (V W : Handle → Prop)
    (R : Machine σ κ → Machine σ κ → Prop) : Prop where
  reads : ∀ h off len, V h → Within R (ioRead io h off len)
  writes : ∀ h off data, W h → Within R (ioWrite io h off data)
  erases : ∀ h off len, W h → Within R (eraseWithFeed io h off len)
  sizes : ∀ h, V h → Within R (onDev (io.size h))
  aligns : ∀ h, V h → Within R (onDev (io.getEraseAlign h))
  mem : ∀ {α : Type} (x : Prog κ α), Within R (onMem x)
  emits : ∀ e, e.aside = true → e.marksStage = false → Within R (emit e)

theorem AdmitsOn.body {io : IoOps σ} {V W : Handle → Prop}
    {R : Machine σ κ → Machine σ κ → Prop} (hR : AdmitsOn io V W R) :
    AdmitsBody io V W R where
  reads := hR.reads
  writes := hR.writes
  erases := hR.erases
  sizes := hR.sizes
  aligns := hR.aligns
  mem := hR.mem
  emits := fun e he _ => hR.emits e he

section Code

variable {V W : Handle → Prop} {R : Machine σ κ → Machine σ κ → Prop}
  [IsPreorder (Machine σ κ) R]

/-! ## Codecs and streams -/

section Stages

variable {io : IoOps σ} (hR : AdmitsOn io V W R)
include hR

theorem on_stageInit (stage : Stage) (init : Option (Prog κ RtErr)) :
    Within R (stageInit stage init : Prog (Machine σ κ) _) := by
  unfold stageInit
  rcases init with _ | init
  · exact .pure _
  · exact (hR.mem _).bind fun _ => (hR.emits _ rfl).bind fun _ => .pure _

theorem on_stageDeinit (stage : Stage) (deinit : Option (Prog κ Unit)) :
    Within R (stageDeinit stage deinit : Prog (Machine σ κ) _) := by
  unfold stageDeinit
  rcases deinit with _ | deinit
  · exact .pure _
  · exact (hR.mem _).bind fun _ => hR.emits _ rfl

theorem on_fwAlgoInit (algo : AlgoContext κ) :
    Within R (fwAlgoInit algo : Prog (Machine σ κ) _) := by
  unfold fwAlgoInit
  refine (on_stageInit hR _ _).bind fun crypt => ?_
  refine .ite ?_ ?_
  · refine (on_stageInit hR _ _).bind fun cmprs => ?_
    exact .ite (.pure _) ((on_stageDeinit hR _ _).bind fun _ => .pure _)
  · exact .pure _

theorem on_fwAlgoDeinit (algo : AlgoContext κ) :
    Within R (fwAlgoDeinit algo : Prog (Machine σ κ) _) :=
  (on_stageDeinit hR _ _).bind fun _ => on_stageDeinit hR _ _

end Stages

def ProcCtx.Into (W : Handle → Prop) : ProcCtx → Prop
  | .crc _ => True
  | .write st => W st.dst

theorem ProcCtx.Into.setRawPos {pc : ProcCtx} (h : pc.Into W) (rawPos : Nat) :
    (pc.setRawPos rawPos).Into W := by
  cases pc with
  | crc acc => trivial
  | write st => exact h

section Stream

variable (pl : Platform σ) (h : FwInfo) (src : Handle) (algo : AlgoContext κ)

theorem into_consumer {pc : ProcCtx} (hpc : pc.Into W) (buf : List UInt8) :
    Yields (fun r => r.2.Into W) (consumer pl pc buf : Prog (Machine σ κ) _) := by
  cases pc with
  | crc acc => exact .pure trivial
  | write st => exact (Yields.any _).bind fun _ _ => .ite (.pure hpc) (.pure hpc)

theorem into_decompressRound (ctx : StreamCtx) (d : DecState) (hd : d.ctx.Into W) :
    Yields (Leads (fun d => d.ctx.Into W) fun r => r.2.ctx.Into W)
      (decompressRound pl algo ctx d : Prog (Machine σ κ) _) := by
  refine .ite ?_ ?_
  · exact .pure hd
  · refine (Yields.any _).bind fun _ _ => ?_
    refine (Yields.any _).bind fun r _ => ?_
    refine .ite ?_ ?_
    · exact .pure hd
    · refine (into_consumer pl hd _).bind fun c hc => ?_
      exact .ite (.pure hc) ((Yields.any _).bind fun _ _ => .pure hc)

theorem into_decompressWithConsumer (ctx : StreamCtx) (win : CmprsBuf) {pc : ProcCtx}
    (hpc : pc.Into W) :
    Yields (fun r => ∀ b, r = some b → b.2.ctx.Into W)
      (decompressWithConsumer pl algo ctx win pc : Prog (Machine σ κ) _) :=
  yields_iterate (into_decompressRound pl algo ctx) _ _ hpc

theorem into_streamDecode (st : StreamLoop) (hst : st.ctx.Into W) :
    Yields (Leads (fun st => st.ctx.Into W) fun _ => True)
      (streamDecode pl h algo st : Prog (Machine σ κ) _) := by
  refine (into_decompressWithConsumer pl algo _ st.win (hst.setRawPos st.rawPos)).bind fun r hr => ?_
  rcases r with _ | ⟨rst, d⟩
  · exact .pure trivial
  · exact .ite (.pure trivial) (.pure (hr (rst, d) rfl))

theorem into_streamRound (st : StreamLoop) (hst : st.ctx.Into W) :
    Yields (Leads (fun st => st.ctx.Into W) fun _ => True)
      (streamRound pl h src algo st : Prog (Machine σ κ) _) := by
  refine .ite ?_ ?_
  · exact .pure trivial
  refine .ite ?_ ?_
  · refine (Yields.any _).bind fun _ _ => ?_
    refine (Yields.any _).bind fun r _ => ?_
    rcases r with _ | win
    · exact .pure trivial
    · exact into_streamDecode pl h algo _ hst
  · exact .ite (.pure trivial) (into_streamDecode pl h algo st hst)

variable {pl} (hR : AdmitsBody pl.io V W R)
include hR

theorem on_consumer {pc : ProcCtx} (hpc : pc.Into W) (buf : List UInt8) :
    Within R (consumer pl pc buf : Prog (Machine σ κ) _) := by
  cases pc with
  | crc acc => exact .pure _
  | write st => exact (hR.writes _ _ _ hpc).bind fun _ => .ite (.pure _) (.pure _)

theorem on_decompressWithConsumer (ctx : StreamCtx) (win : CmprsBuf) {pc : ProcCtx}
    (hpc : pc.Into W) :
    Within R (decompressWithConsumer pl algo ctx win pc : Prog (Machine σ κ) _) := by
  refine within_iterate_of (fun d hd => ?_) (into_decompressRound pl algo ctx) _ _ hpc
  refine .ite (.pure _) ((hR.emits _ rfl rfl).bind fun _ => ?_)
  refine (hR.mem _).bind fun _ => .ite (.pure _) ?_
  refine (on_consumer hR hd _).bind fun _ => .ite (.pure _) ?_
  exact (hR.emits _ rfl rfl).bind fun _ => .pure _

theorem on_fwPkgRead (hsrc : V src) (off : Nat) (win : CmprsBuf) (len : Nat) :
    Within R (fwPkgRead pl src off win len algo : Prog (Machine σ κ) _) := by
  refine (hR.reads _ _ _ hsrc).bind fun cipher => ?_
  rcases cipher with _ | cipher
  · exact .pure _
  · exact (hR.mem _).bind fun _ => (hR.emits _ rfl rfl).bind fun _ => .pure _

theorem on_streamDecode (st : StreamLoop) (hst : st.ctx.Into W) :
    Within R (streamDecode pl h algo st : Prog (Machine σ κ) _) := by
  refine (on_decompressWithConsumer algo hR _ _ (hst.setRawPos st.rawPos)).bind fun r => ?_
  rcases r with _ | ⟨rst, d⟩
  · exact .pure _
  · exact .ite (.pure _) (.pure _)

theorem on_fwStreamProcess (hsrc : V src) (pc : ProcCtx) (hpc : pc.Into W) :
    Within R (fwStreamProcess pl h src algo pc : Prog (Machine σ κ) _) := by
  refine Within.bind (Within.bind ?_ fun _ => .pure _) fun _ => .pure _
  refine within_iterate_of (fun st hst => ?_) (into_streamRound pl h src algo) _ _ hpc
  have hdecode (st' : StreamLoop) (hctx : st'.ctx = st.ctx) :
      Within R (streamDecode pl h algo st' : Prog (Machine σ κ) _) :=
    on_streamDecode h algo hR st' (hctx ▸ hst)
  refine .ite (.pure _) (.ite ?_ (.ite (.pure _) (hdecode st rfl)))
  refine (hR.emits _ rfl rfl).bind fun _ => (on_fwPkgRead src algo hR hsrc _ _ _).bind fun r => ?_
  rcases r with _ | win
  · exact .pure _
  · exact hdecode _ rfl

end Stream

/-! ## Patching -/

/-- The patch and the old partition may be read, and the old partition and the swap area
may be erased and written. -/
structure HpatchInst.Over (V W : Handle → Prop) (inst : HpatchInst) : Prop where
  patch : V inst.patchPart
  read : V inst.oldPart
  old : W inst.oldPart
  swap : ∀ part size, inst.swap = .flash part size →
    part.target = .swap ∧ V part ∧ W part

theorem HpatchInst.Over.same {inst inst' : HpatchInst} (h : inst.Over V W)
    (hsame : SameFiles inst inst') : inst'.Over V W where
  patch := hsame.patchPart ▸ h.patch
  read := hsame.oldPart ▸ h.read
  old := hsame.oldPart ▸ h.old
  swap := by
    rw [hsame.swap]
    exact h.swap

def LeavesOver (V W : Handle → Prop) (r : Option HpatchInst) : Prop :=
  ∀ inst, r = some inst → inst.Over V W

theorem leavesOver_none : LeavesOver V W none :=
  fun _ hsome => absurd hsome.symm (Option.some_ne_none _)

theorem leavesOver_some {inst : HpatchInst} (h : inst.Over V W) : LeavesOver V W (some inst) :=
  fun _ hsome => Option.some.inj hsome ▸ h

section Patch

variable {io : IoOps σ} (hR : AdmitsBody io V W R) (cfg : HpatchConfig) {inst : HpatchInst}
  (hinst : inst.Over V W)
include hR hinst

theorem on_copyToOld (size : Nat) :
    Within R (copyToOld io cfg inst size : Prog (Machine σ κ) _) := by
  unfold copyToOld
  split
  · exact hR.writes _ _ _ hinst.old
  · rename_i part partSize hswap
    refine Within.bind (within_iterate (fun c => ?_) _ _) fun _ => .pure _
    refine .ite (.pure _) ((hR.reads _ _ _ (hinst.swap _ _ hswap).2.1).bind fun data => ?_)
    rcases data with _ | data
    · exact .pure _
    · exact (hR.writes _ _ _ hinst.old).bind fun _ => .ite (.pure _) (.pure _)

theorem on_swapAppend (data : List UInt8) :
    Within R (swapAppend io cfg inst data : Prog (Machine σ κ) _) := by
  unfold swapAppend
  split
  · exact .pure _
  · rename_i part partSize hswap
    exact (hR.writes _ _ _ (hinst.swap _ _ hswap).2.2).bind fun _ => .ite (.pure _) (.pure _)

theorem on_swapReset : Within R (swapReset io cfg inst : Prog (Machine σ κ) _) := by
  unfold swapReset
  split
  · exact .pure _
  · rename_i part partSize hswap
    exact (hR.erases _ _ _ (hinst.swap _ _ hswap).2.2).bind fun _ => .ite (.pure _) (.pure _)

theorem on_eraseAlignedRange (start stop : Nat) (up : Bool) :
    Within R (eraseAlignedRange io inst start stop up : Prog (Machine σ κ) _) := by
  refine .ite (.pure _) (.ite (.pure _) (.ite ?_ (.pure _)))
  exact (hR.erases _ _ _ hinst.old).bind fun _ => .ite (.pure _) (.pure _)

theorem on_swapCommit : Within R (swapCommit io cfg inst : Prog (Machine σ κ) _) := by
  refine .ite (.pure _) ((on_eraseAlignedRange hR hinst _ _ _).bind_of
    (keepsFiles_eraseAlignedRange io inst _ _ _) fun r hr => ?_)
  rcases r with _ | mid
  · exact .pure _
  have hmid := hinst.same (hr mid rfl)
  refine (on_copyToOld hR cfg hmid _).bind fun _ => .ite ?_ (.pure _)
  refine (hR.emits _ rfl rfl).bind fun _ => on_swapReset hR cfg ?_
  exact ⟨hmid.patch, hmid.read, hmid.old, hmid.swap⟩

theorem on_doWriteNew (data : List UInt8) :
    Within R (doWriteNew io cfg inst data : Prog (Machine σ κ) _) := by
  refine Within.bind ?_ fun _ => .pure _
  refine within_iterate_of (fun c hc => ?_)
    (fun c hc => keepsFiles_writeNewRound io cfg inst hc) _ _ (SameFiles.refl inst)
  have hround := hinst.same hc
  refine .ite (.pure _) (Within.bind_of (P := KeepsFiles c.1) ?_ ?_ fun r hr => ?_)
  · exact .ite (on_swapAppend hR cfg hround _) (.pure _)
  · exact .ite (keepsFiles_swapAppend io cfg c.1 _)
      (.pure (keepsFiles_some (.refl c.1)))
  rcases r with _ | mid
  · exact .pure _
  refine .ite ((on_swapCommit hR cfg (hround.same (hr mid rfl))).bind fun r => ?_) (.pure _)
  rcases r with _ | last <;> exact .pure _

omit hinst in
theorem on_doReadPatch (hinst : inst.Over V W) (size : Nat) :
    Within R (doReadPatch io inst size : Prog (Machine σ κ) _) := by
  unfold doReadPatch
  split
  · exact .pure _
  dsimp only
  split
  · exact .pure _
  refine (hR.reads _ _ _ hinst.patch).bind fun r => ?_
  rcases r with _ | data <;> exact .pure _

omit hR hinst [IsPreorder (Machine σ κ) R] in
theorem over_doReadPatch (io : IoOps σ) (hinst : inst.Over V W) (size : Nat) :
    Yields (fun r => r.2.Over V W) (doReadPatch io inst size : Prog (Machine σ κ) _) := by
  unfold doReadPatch
  split
  · exact .pure hinst
  dsimp only
  split
  · exact .pure hinst
  refine (Yields.any _).bind fun r _ => ?_
  rcases r with _ | data
  · exact .pure hinst
  · exact .pure ⟨hinst.patch, hinst.read, hinst.old, hinst.swap⟩

omit hinst in
theorem on_runPatch (p : Patcher) (hinst : inst.Over V W) :
    Within R (runPatch io cfg p inst : Prog (Machine σ κ) _) := by
  induction p generalizing inst with
  | done success => exact .pure _
  | readPatch size next ih =>
      rw [runPatch]
      refine (on_doReadPatch hR hinst size).bind_of (over_doReadPatch io hinst size) ?_
      rintro ⟨answer, last⟩ hlast
      exact .ite (ih answer.data hlast) (.pure _)
  | readOld addr size next ih =>
      rw [runPatch]
      refine Within.bind ((hR.reads _ _ _ hinst.read).bind fun _ => .pure _) fun r => ?_
      rcases r with _ | data
      · exact .pure _
      · exact ih data hinst
  | writeNew data next ih =>
      rw [runPatch]
      refine (on_doWriteNew hR cfg hinst data).bind_of
        (keepsFiles_doWriteNew io cfg inst data) fun r hr => ?_
      rcases r with _ | last
      · exact .pure _
      · exact ih (hinst.same (hr last rfl))

omit hR hinst [IsPreorder (Machine σ κ) R] in
theorem over_runPatch (p : Patcher) (hinst : inst.Over V W) :
    Yields (LeavesOver V W) (runPatch io cfg p inst : Prog (Machine σ κ) _) := by
  have hnone : Yields (LeavesOver V W) (pure none : Prog (Machine σ κ) _) :=
    .pure leavesOver_none
  induction p generalizing inst with
  | done success =>
      cases success with
      | false => exact hnone
      | true => exact .pure (leavesOver_some hinst)
  | readPatch size next ih =>
      rw [runPatch]
      refine (over_doReadPatch io hinst size).bind ?_
      rintro ⟨answer, last⟩ hlast
      exact .ite (ih answer.data hlast) hnone
  | readOld addr size next ih =>
      rw [runPatch]
      refine (Yields.any _).bind fun r _ => ?_
      rcases r with _ | data
      · exact hnone
      · exact ih data hinst
  | writeNew data next ih =>
      rw [runPatch]
      refine (keepsFiles_doWriteNew io cfg inst data).bind fun r hr => ?_
      rcases r with _ | last
      · exact hnone
      · exact ih (hinst.same (hr last rfl))

theorem on_hpatchFinish : Within R (hpatchFinish io inst : Prog (Machine σ κ) _) := by
  refine (hR.sizes _ hinst.read).bind fun size => ?_
  rcases size with _ | size
  · refine (Within.pure _).bind fun r => ?_
    rcases r with _ | last <;> exact .pure _
  · refine .ite ((on_eraseAlignedRange hR hinst _ _ _).bind fun r => ?_)
      ((Within.pure _).bind fun r => ?_)
    all_goals rcases r with _ | last <;> exact .pure _

end Patch

/-- The patching code may open, use and close the swap area. -/
structure AdmitsSwap (io : IoOps σ) (hpatch : HpatchEnv σ) (V W : Handle → Prop)
    (R : Machine σ κ → Machine σ κ → Prop) : Prop where
  mallocs : ∀ size, Within R (onDev (hpatch.malloc size))
  opens : Within R (targetOpen io .swap .writeCreate)
  closes : ∀ ref, Within R (targetClose io ⟨.swap, ref⟩)
  usable : ∀ ref, V ⟨.swap, ref⟩ ∧ W ⟨.swap, ref⟩

theorem targetOpen_target (io : IoOps σ) (id : TargetId) (flags : OpenFlags) :
    Yields (fun o => ∀ h, o.1 = some h → h.target = id)
      (targetOpen io id flags : Prog (Machine σ κ) _) := by
  refine (Yields.any _).bind fun ref _ => ?_
  rcases ref with _ | ref
  · exact (Yields.any _).bind fun _ _ => .pure (by simp)
  refine (Yields.any _).bind fun _ _ => (Yields.any _).bind fun size _ => ?_
  rcases size with _ | size
  · exact (Yields.any _).bind fun _ _ => .pure (by simp)
  · exact .pure (by simp)

section Swap

variable {io : IoOps σ} {hpatch : HpatchEnv σ} (hR : AdmitsBody io V W R)
  (hS : AdmitsSwap io hpatch V W R)
include hR hS

theorem on_swapInit (cfg : HpatchConfig) (inst : HpatchInst) :
    Within R (swapInit io cfg inst : Prog (Machine σ κ) _) := by
  refine .ite (hS.opens.bind_of (targetOpen_target io _ _) fun o ho => ?_) (.pure _)
  rcases o with ⟨_ | part, _ | size⟩
  · exact .pure _
  · exact .pure _
  · exact .pure _
  obtain ⟨id, ref⟩ := part
  obtain rfl : id = .swap := ho _ rfl
  refine .ite ((hS.closes ref).bind fun _ => .pure _) ?_
  refine (hR.erases _ _ _ (hS.usable ref).2).bind fun _ => .ite (.pure _) ?_
  exact (hS.closes ref).bind fun _ => .pure _

omit hR [IsPreorder (Machine σ κ) R] in
theorem over_swapInit (cfg : HpatchConfig) {inst : HpatchInst}
    (hpatch : V inst.patchPart) (hread : V inst.oldPart) (hold : W inst.oldPart) :
    Yields (LeavesOver V W)
      (swapInit io cfg inst : Prog (Machine σ κ) _) := by
  have hnone : Yields (LeavesOver V W) (pure none : Prog (Machine σ κ) _) :=
    .pure leavesOver_none
  refine .ite ((targetOpen_target io _ _).bind fun o ho => ?_) (.pure (leavesOver_some ?_))
  · rcases o with ⟨_ | part, _ | size⟩
    · exact hnone
    · exact hnone
    · exact hnone
    obtain ⟨id, ref⟩ := part
    obtain rfl : id = .swap := ho _ rfl
    refine .ite ((Yields.any _).bind fun _ _ => hnone) ((Yields.any _).bind fun _ _ => ?_)
    refine .ite (.pure (leavesOver_some ?_)) ((Yields.any _).bind fun _ _ => hnone)
    exact ⟨hpatch, hread, hold, by rintro _ _ ⟨⟩; exact ⟨rfl, hS.usable ref⟩⟩
  · exact ⟨hpatch, hread, hold, by rintro _ _ ⟨⟩⟩

theorem on_hpatchliteReleaseFromPart {src dst : Handle} (hsrc : V src) (hread : V dst)
    (hdst : W dst) (patchLen newLen : Int) (off : Nat) :
    Within R (hpatchliteReleaseFromPart io hpatch src dst patchLen newLen off :
      Prog (Machine σ κ) _) := by
  refine (hR.aligns _ hread).bind fun align => ?_
  rcases align with _ | align
  · exact .pure _
  refine .ite (.pure _) ((hS.mallocs _).bind fun _ => .ite ?_ (.pure _))
  refine (on_swapInit hR hS _ _).bind_of
    (over_swapInit hS _ hsrc hread hdst) fun r hr => ?_
  rcases r with _ | inst
  · exact .pure _
  have hover := hr inst rfl
  have hclose : Within R (swapDeinit io inst : Prog (Machine σ κ) _) := by
    unfold swapDeinit
    split
    · exact .pure _
    · rename_i part size hflash
      obtain ⟨id, ref⟩ := part
      obtain rfl : id = .swap := (hover.swap _ _ hflash).1
      exact hS.closes ref
  refine Within.bind_of (P := LeavesOver V W) ?_ ?_ fun r hlast => hclose.bind fun _ => ?_
  · refine (on_runPatch hR _ _ hover).bind_of (over_runPatch _ _ hover) fun r hrun => ?_
    rcases r with _ | inst
    · exact .pure _
    · exact on_swapCommit hR _ (hrun inst rfl)
  · refine (over_runPatch _ _ hover).bind fun r hrun => ?_
    rcases r with _ | inst
    · exact .pure leavesOver_none
    · exact (keepsFiles_swapCommit io _ inst).imp fun r hkept inst' hsome =>
        (hrun inst rfl).same (hkept inst' hsome)
  · rcases r with _ | inst
    · exact .pure _
    · exact on_hpatchFinish hR (hlast inst rfl)

end Swap

/-! ## Checks and release -/

/-- The code streams the package, and does not hand it to the patcher. -/
def Streamed (env : Env σ κ) (info : FwInfo) : Prop :=
  ∀ algo, fwGetAlgoContext env.tables info = some algo →
    (env.build.usingHpatchlite && algo.cmprs.cmprsId == algoCmprsHpatchlite) = false

section Release

variable {env : Env σ κ} (hR : AdmitsOn env.io V W R) {h : Handle}
include hR

theorem on_fwCrcCheck (hread : V h) (addr size : Nat) (crc : UInt32) :
    Within R (fwCrcCheck env h addr size crc) := by
  refine Within.bind (within_iterate (fun c => ?_) _ _) fun _ => .pure _
  refine .ite (.pure _) ((hR.reads _ _ _ hread).bind fun r => ?_)
  rcases r with _ | data <;> exact .pure _

theorem on_appCrcCheck (hread : V h) (info : FwInfo) :
    Within R (appCrcCheck env h info) := by
  unfold appCrcCheck
  rcases fwGetAlgoContext env.tables info with _ | algo
  · exact .pure _
  refine (on_fwAlgoInit hR _).bind fun _ => .ite ?_ (.pure _)
  refine (on_fwStreamProcess info h algo hR.body hread (.crc _) trivial).bind ?_
  exact fun _ => (on_fwAlgoDeinit hR _).bind fun _ => .pure _

theorem on_streamRelease {src : Handle} (hread : V src) (hwrite : W h) (dstSize : Nat)
    (info : FwInfo) (algo : AlgoContext κ) :
    Within R (streamRelease env h dstSize src info algo) := by
  have hdeinit (ok : Bool) : Within R (do
      fwAlgoDeinit algo
      pure ok : Prog (Machine σ κ) Bool) :=
    (on_fwAlgoDeinit hR algo).bind fun _ => .pure _
  refine (hR.erases _ _ _ hwrite).bind fun _ => .ite ?_ (hdeinit false)
  refine (hR.erases _ _ _ hwrite).bind fun _ => .ite ?_ (hdeinit false)
  exact (on_fwStreamProcess info src algo hR.body hread
    (.write ⟨h, 0, info.rawSize.toNat⟩) hwrite).bind fun r => hdeinit r.1

theorem on_fwRelease {src : Handle} (hS : AdmitsSwap env.io env.hpatch V W R)
    (hread : V src) (hdst : V h ∧ W h) (dstSize : Nat) (info : FwInfo) :
    Within R (fwRelease env h dstSize src info) := by
  unfold fwRelease
  rcases fwGetAlgoContext env.tables info with _ | algo
  · exact .pure _
  refine (on_fwAlgoInit hR _).bind fun _ => .ite ?_ (.pure _)
  have hhead (released : Bool) : Within R (if released then
      fwInfoWrite env h dstSize info true else pure false) :=
    .ite (hR.writes _ _ _ hdst.2) (.pure _)
  refine .ite (Within.bind ?_ hhead)
    ((on_streamRelease hR hread hdst.2 _ _ _).bind hhead)
  refine (on_hpatchliteReleaseFromPart hR.body hS hread hdst.1 hdst.2 _ _ _).bind
    fun _ => .ite ?_ (.pure _)
  exact (on_fwAlgoDeinit hR _).bind fun _ => .pure _

theorem on_fwRelease_streamed {src : Handle} (hread : V src) (hwrite : W h) {info : FwInfo}
    (hstream : Streamed env info) (dstSize : Nat) :
    Within R (fwRelease env h dstSize src info) := by
  unfold fwRelease
  rcases halgo : fwGetAlgoContext env.tables info with _ | algo
  · exact .pure _
  refine (on_fwAlgoInit hR _).bind fun _ => .ite ?_ (.pure _)
  have hpatch := hstream algo halgo
  simp only [hpatch, Bool.false_eq_true, if_false]
  exact (on_streamRelease hR hread hwrite _ _ _).bind fun _ =>
    .ite (hR.writes _ _ _ hwrite) (.pure _)

end Release

/-- The static header and the release sign included. -/
structure AdmitsEnvOn (env : Env σ κ) (V W : Handle → Prop)
    (R : Machine σ κ → Machine σ κ → Prop) : Prop extends AdmitsOn env.io V W R where
  info : ∀ h, Within R (setFwInfo h)
  signReads : ∀ h info, V h → Within R (onDev (env.parser.signRead h info))
  signWrites : ∀ h info, W h → Within R (onDev (env.parser.signWrite h info))

section Boot

variable {env : Env σ κ} (hR : AdmitsEnvOn env V W R) {h : Handle}
include hR

theorem on_fwInfoRead (hread : V h) (partLen : Nat) (fromTail : Bool) :
    Within R (fwInfoRead env h partLen fromTail) := by
  refine .ite (.pure _) ((hR.reads _ _ _ hread).bind fun r => ?_)
  rcases r with _ | bytes
  · exact .pure _
  · exact (hR.info _).bind fun _ => .pure _

theorem on_releaseSignCheck (hread : V h) : Within R (releaseSignCheck env h) :=
  (Within.gets _).bind fun _ => (hR.signReads _ _ hread).bind fun _ => .pure _

theorem on_releaseSignWrite (hwrite : W h) : Within R (releaseSignWrite env h) :=
  (Within.gets _).bind fun _ => (hR.signWrites _ _ hwrite).bind fun _ =>
    (hR.emits _ rfl).bind fun _ => .pure _

theorem on_fwCheck (hread : V h) (partLen : Nat) : Within R (fwCheck env h partLen) := by
  refine (on_fwInfoRead hR hread _ _).bind fun _ => .ite ?_ (.pure _)
  refine (Within.gets _).bind fun info => .ite (.pure _) ?_
  refine (on_fwCrcCheck hR.toAdmitsOn hread _ _ _).bind fun _ => .ite ?_ (.pure _)
  exact .ite (on_appCrcCheck hR.toAdmitsOn hread _) (.pure _)

theorem on_destPartVerify (hread : V h) (partLen : Nat) :
    Within R (destPartVerify env h partLen) := by
  refine (on_fwInfoRead hR hread _ _).bind fun _ => .ite ?_ (.pure _)
  refine (Within.gets _).bind fun info => .ite (.pure _) ?_
  exact .ite (on_fwCrcCheck hR.toAdmitsOn hread _ _ _) (.pure _)

theorem on_verifyUpdate (hmark : ∀ ok, Within R (emit (.updated h.target ok))) (hread : V h)
    (dstSize : Nat) (released : Bool) : Within R (do
      let ok ← if released then destPartVerify env h dstSize else pure false
      emit (.updated h.target ok)
      pure ok : Prog (Machine σ κ) Bool) := by
  have hanswer (ok : Bool) : Within R (do
      emit (.updated h.target ok)
      pure ok : Prog (Machine σ κ) Bool) :=
    (hmark ok).bind fun _ => .pure _
  exact .ite ((on_destPartVerify hR hread dstSize).bind hanswer) (hanswer false)

theorem on_fwUpdate {src : Handle} (hS : AdmitsSwap env.io env.hpatch V W R)
    (hmark : ∀ ok, Within R (emit (.updated h.target ok))) (hread : V src)
    (hdst : V h ∧ W h) (dstSize : Nat) : Within R (fwUpdate env h dstSize src) :=
  (Within.gets _).bind fun info =>
    (on_fwRelease hR.toAdmitsOn hS hread hdst dstSize info).bind
      (on_verifyUpdate hR hmark hdst.1 dstSize)

end Boot

end Code

end Qboot
