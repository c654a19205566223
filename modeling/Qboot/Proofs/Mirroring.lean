import Qboot.Library.Simulation
import Qboot.Proofs.HandleUse
/-!
# Storages that mirror each other

Two storages mirror each other where related states stay related under every
operation, and every operation answers alike.  The boot code then runs alike on
both: it gives the same answers and records the same events.  The relation is
indexed by the targets that have been opened, since a backend may answer for a
handle only once it has handed it out.
-/

namespace Qboot

open Library Bytes Machine Loop Prog

variable {σ τ κ α : Type}

/-- Two machines at the same point of a run. -/
structure Twin (A : σ → τ → Prop) (M : κ → κ → Prop) (m : Machine σ κ) (n : Machine τ κ) :
    Prop where
  dev : A m.dev n.dev
  mem : M m.mem n.mem
  fwInfo : m.fwInfo = n.fwInfo
  log : m.log = n.log

section Parts

variable {A : σ → τ → Prop} {M : κ → κ → Prop}

theorem mirrors_onDev {B : α → σ → τ → Prop} {x : Prog σ α} {y : Prog τ α}
    (h : Mirrors A x y B) : Mirrors (Twin A M) (onDev x) (onDev y) fun a => Twin (B a) M := by
  intro m n hmn
  obtain ⟨hanswer, hdev⟩ := h _ _ hmn.dev
  exact ⟨hanswer, hdev, hmn.mem, hmn.fwInfo, hmn.log⟩

theorem mirrors_onMem {x : Prog κ α} (h : Mirrors M x x fun _ => M) :
    Mirrors (Twin A M) (onMem x) (onMem x) fun _ => Twin A M := by
  intro m n hmn
  obtain ⟨hanswer, hmem⟩ := h _ _ hmn.mem
  exact ⟨hanswer, hmn.dev, hmem, hmn.fwInfo, hmn.log⟩

theorem mirrors_emit (e : Event) :
    Mirrors (Twin A M) (emit e) (emit e) fun _ => Twin A M :=
  fun _ _ hmn => ⟨rfl, hmn.dev, hmn.mem, hmn.fwInfo, congrArg (· ++ [e]) hmn.log⟩

theorem mirrors_setFwInfo (info : FwInfo) :
    Mirrors (Twin A M) (setFwInfo info) (setFwInfo info) fun _ => Twin A M :=
  fun _ _ hmn => ⟨rfl, hmn.dev, hmn.mem, rfl, hmn.log⟩

theorem mirrors_info : Mirrors (Twin A M) (Prog.gets (·.fwInfo)) (Prog.gets (·.fwInfo))
    fun _ => Twin A M :=
  .gets (fun _ _ hmn => hmn.fwInfo) fun _ _ hmn => hmn

theorem mirrors_pure (a : α) :
    Mirrors (Twin A M) (pure a : Prog (Machine σ κ) α) (pure a) fun _ => Twin A M :=
  .pure fun _ _ hmn => hmn

end Parts

def Opened (V : TargetId → Prop) (h : Handle) : Prop := V h.target

/-- Operations on targets that have been opened (`V`) keep the storages related. -/
structure MirrorsIo (io : IoOps σ) (io' : IoOps τ)
    (A : (TargetId → Prop) → σ → τ → Prop) : Prop where
  mono : ∀ {V V' d e}, (∀ id, V id → V' id) → A V' d e → A V d e
  opens : ∀ V id flags, Mirrors (A V) (io.openTarget id flags) (io'.openTarget id flags)
    fun ref => A fun id' => V id' ∨ ref.isSome ∧ id' = id
  closes : ∀ {V} {h : Handle}, Opened V h →
    Mirrors (A V) (io.close h) (io'.close h) fun _ => A V
  reads : ∀ {V} {h : Handle}, Opened V h → ∀ off len,
    Mirrors (A V) (io.read h off len) (io'.read h off len) fun _ => A V
  erases : ∀ {V} {h : Handle}, Opened V h → ∀ off len,
    Mirrors (A V) (io.erase h off len) (io'.erase h off len) fun _ => A V
  writes : ∀ {V} {h : Handle}, Opened V h → ∀ off data,
    Mirrors (A V) (io.write h off data) (io'.write h off data) fun _ => A V
  sizes : ∀ {V} {h : Handle}, Opened V h →
    Mirrors (A V) (io.size h) (io'.size h) fun _ => A V
  aligns : ∀ {V} {h : Handle}, Opened V h →
    Mirrors (A V) (io.getEraseAlign h) (io'.getEraseAlign h) fun _ => A V

/-- What the stages answer depends on what `M` relates. -/
structure MirrorsStages (algo : AlgoContext κ) (M : κ → κ → Prop) : Prop where
  decrypt : ∀ {len : Nat} (old inp : Block len),
    Mirrors M (algo.crypt.decrypt old inp) (algo.crypt.decrypt old inp) fun _ => M
  decompress : ∀ inp outLen step ctx,
    Mirrors M (algo.cmprs.decompress inp outLen step ctx)
      (algo.cmprs.decompress inp outLen step ctx) fun _ => M

theorem mirrors_same (x : Prog κ α) : Mirrors Eq x x fun _ => Eq := by
  rintro k _ rfl
  exact ⟨rfl, rfl⟩

theorem mirrorsStages_same (algo : AlgoContext κ) : MirrorsStages algo Eq where
  decrypt _ _ := mirrors_same _
  decompress _ _ _ _ := mirrors_same _

variable {A : (TargetId → Prop) → σ → τ → Prop} {M : κ → κ → Prop} {io : IoOps σ}
  {io' : IoOps τ} {V : TargetId → Prop} {h src : Handle}

section Operations

variable (hio : MirrorsIo io io' A)
include hio

theorem mirrors_ioRead (hread : Opened V h) (off len : Nat) :
    Mirrors (Twin (A V) M) (ioRead io h off len) (ioRead io' h off len)
      fun _ => Twin (A V) M :=
  (mirrors_onDev (hio.reads hread off len)).bind fun _ =>
    (mirrors_emit _).bind fun _ => mirrors_pure _

theorem mirrors_ioWrite (hwrite : Opened V h) (off : Nat) (data : List UInt8) :
    Mirrors (Twin (A V) M) (ioWrite io h off data) (ioWrite io' h off data)
      fun _ => Twin (A V) M :=
  (mirrors_onDev (hio.writes hwrite off data)).bind fun _ =>
    (mirrors_emit _).bind fun _ => mirrors_pure _

theorem mirrors_eraseWithFeed (herase : Opened V h) (off len : Nat) :
    Mirrors (Twin (A V) M) (eraseWithFeed io h off len) (eraseWithFeed io' h off len)
      fun _ => Twin (A V) M :=
  (mirrors_onDev (hio.erases herase off len)).bind fun _ =>
    (mirrors_emit _).bind fun _ => mirrors_pure _

theorem mirrors_targetClose (hclose : Opened V h) :
    Mirrors (Twin (A V) M) (targetClose io h) (targetClose io' h) fun _ => Twin (A V) M :=
  (mirrors_onDev (hio.closes hclose)).bind fun _ => mirrors_emit _

def OpenedBy (V : TargetId → Prop) (id : TargetId) (opened : Bool) (id' : TargetId) : Prop :=
  V id' ∨ opened ∧ id' = id

theorem mirrors_targetOpen (id : TargetId) (flags : OpenFlags) :
    Mirrors (Twin (A V) M) (targetOpen io id flags) (targetOpen io' id flags)
      fun o => Twin (A (OpenedBy V id o.1.isSome)) M := by
  refine (mirrors_onDev (hio.opens V id flags)).bind fun ref => ?_
  rcases ref with _ | ref
  · exact (mirrors_emit _).bind fun _ => .pure fun _ _ hmn => hmn
  · have hopened : Opened (OpenedBy V id true) ⟨id, ref⟩ := .inr ⟨rfl, rfl⟩
    refine (mirrors_emit _).bind fun _ => ?_
    refine (mirrors_onDev (hio.sizes hopened)).bind fun size => ?_
    rcases size with _ | size
    · exact (mirrors_targetClose hio hopened).bind fun _ =>
        .pure fun _ _ hmn => hmn
    · exact .pure fun _ _ hmn => hmn

end Operations

/-! ## Streams -/

section Stream

variable {b : Build} {crc : CrcLib} {algo : AlgoContext κ} (hio : MirrorsIo io io' A)
include hio

theorem mirrors_consumer {pc : ProcCtx} (hpc : pc.Into (Opened V))
    (buf : List UInt8) :
    Mirrors (Twin (A V) M) (consumer ⟨b, io, crc⟩ pc buf : Prog (Machine σ κ) _)
      (consumer ⟨b, io', crc⟩ pc buf) fun _ => Twin (A V) M := by
  cases pc with
  | crc acc => exact mirrors_pure _
  | write st =>
      exact (mirrors_ioWrite hio hpc _ _).bind fun _ =>
        .ite (fun _ => mirrors_pure _) fun _ => mirrors_pure _

variable (hstages : MirrorsStages algo M)
include hstages

theorem mirrors_decompressWithConsumer (ctx : StreamCtx) (win : CmprsBuf) {pc : ProcCtx}
    (hpc : pc.Into (Opened V)) :
    Mirrors (Twin (A V) M)
      (decompressWithConsumer ⟨b, io, crc⟩ algo ctx win pc : Prog (Machine σ κ) _)
      (decompressWithConsumer ⟨b, io', crc⟩ algo ctx win pc) fun _ => Twin (A V) M := by
  refine .iterate (fun d hd => ?_) (into_decompressRound ⟨b, io, crc⟩ algo ctx) _ _ hpc
  refine .ite (fun _ => mirrors_pure _) fun _ => (mirrors_emit _).bind fun _ => ?_
  refine (mirrors_onMem (hstages.decompress _ _ _ _)).bind fun r => ?_
  refine .ite (fun _ => mirrors_pure _) fun _ => ?_
  refine (mirrors_consumer hio hd _).bind fun c => .ite (fun _ => mirrors_pure _) fun _ => ?_
  exact (mirrors_emit _).bind fun _ => mirrors_pure _

theorem mirrors_fwPkgRead (hsrc : Opened V src) (off : Nat) (win : CmprsBuf) (len : Nat) :
    Mirrors (Twin (A V) M)
      (fwPkgRead ⟨b, io, crc⟩ src off win len algo : Prog (Machine σ κ) _)
      (fwPkgRead ⟨b, io', crc⟩ src off win len algo) fun _ => Twin (A V) M := by
  refine (mirrors_ioRead hio hsrc _ _).bind fun cipher => ?_
  rcases cipher with _ | cipher
  · exact mirrors_pure _
  · exact (mirrors_onMem (hstages.decrypt _ _)).bind fun _ =>
      (mirrors_emit _).bind fun _ => mirrors_pure _

theorem mirrors_streamDecode (info : FwInfo) (st : StreamLoop)
    (hst : st.ctx.Into (Opened V)) :
    Mirrors (Twin (A V) M)
      (streamDecode ⟨b, io, crc⟩ info algo st : Prog (Machine σ κ) _)
      (streamDecode ⟨b, io', crc⟩ info algo st) fun _ => Twin (A V) M := by
  refine (mirrors_decompressWithConsumer hio hstages _ _
    (hst.setRawPos st.rawPos)).bind fun r => ?_
  rcases r with _ | ⟨rst, d⟩
  · exact mirrors_pure _
  · exact .ite (fun _ => mirrors_pure _) fun _ => mirrors_pure _

theorem mirrors_fwStreamProcess (info : FwInfo) (hsrc : Opened V src) (pc : ProcCtx)
    (hpc : pc.Into (Opened V)) :
    Mirrors (Twin (A V) M)
      (fwStreamProcess ⟨b, io, crc⟩ info src algo pc : Prog (Machine σ κ) _)
      (fwStreamProcess ⟨b, io', crc⟩ info src algo pc) fun _ => Twin (A V) M := by
  refine .bind (.bind (.iterate (fun st hst => ?_)
    (into_streamRound ⟨b, io, crc⟩ info src algo) _ _ hpc) fun _ => mirrors_pure _)
    fun _ => mirrors_pure _
  have hdecode (st' : StreamLoop) (hctx : st'.ctx = st.ctx) : Mirrors (Twin (A V) M)
      (streamDecode ⟨b, io, crc⟩ info algo st' : Prog (Machine σ κ) _)
      (streamDecode ⟨b, io', crc⟩ info algo st') fun _ => Twin (A V) M :=
    mirrors_streamDecode hio hstages info st' (hctx ▸ hst)
  refine .ite (fun _ => mirrors_pure _) fun _ => .ite (fun _ => ?_) fun _ =>
    .ite (fun _ => mirrors_pure _) fun _ => hdecode st rfl
  refine (mirrors_emit _).bind fun _ =>
    (mirrors_fwPkgRead hio hstages hsrc _ _ _).bind fun win => ?_
  rcases win with _ | win
  · exact mirrors_pure _
  · exact hdecode _ rfl

end Stream

/-! ## Patching -/

section Patch

variable (hio : MirrorsIo io io' A) (cfg : HpatchConfig) {inst : HpatchInst}
  (hinst : inst.Over (Opened V) (Opened V))
include hio hinst

theorem mirrors_copyToOld (size : Nat) :
    Mirrors (Twin (A V) M) (copyToOld io cfg inst size : Prog (Machine σ κ) _)
      (copyToOld io' cfg inst size) fun _ => Twin (A V) M := by
  unfold copyToOld
  split
  · exact mirrors_ioWrite hio hinst.old _ _
  · rename_i part partSize hswap
    refine .bind (.iterate (I := fun _ => True) (Q := fun _ => True) (fun c _ => ?_)
      (fun c _ => ?_) _ _ trivial) fun _ => mirrors_pure _
    · refine .ite (fun _ => mirrors_pure _) fun _ =>
        (mirrors_ioRead hio (hinst.swap _ _ hswap).2.1 _ _).bind fun data => ?_
      rcases data with _ | data
      · exact mirrors_pure _
      · exact (mirrors_ioWrite hio hinst.old _ _).bind fun _ =>
          .ite (fun _ => mirrors_pure _) fun _ => mirrors_pure _
    · exact (Yields.any _).imp fun r _ => by cases r <;> trivial

theorem mirrors_swapAppend (data : List UInt8) :
    Mirrors (Twin (A V) M) (swapAppend io cfg inst data : Prog (Machine σ κ) _)
      (swapAppend io' cfg inst data) fun _ => Twin (A V) M := by
  unfold swapAppend
  split
  · exact mirrors_pure _
  · rename_i part partSize hswap
    exact (mirrors_ioWrite hio (hinst.swap _ _ hswap).2.2 _ _).bind fun _ =>
      .ite (fun _ => mirrors_pure _) fun _ => mirrors_pure _

theorem mirrors_swapReset :
    Mirrors (Twin (A V) M) (swapReset io cfg inst : Prog (Machine σ κ) _)
      (swapReset io' cfg inst) fun _ => Twin (A V) M := by
  unfold swapReset
  split
  · exact mirrors_pure _
  · rename_i part partSize hswap
    exact (mirrors_eraseWithFeed hio (hinst.swap _ _ hswap).2.2 _ _).bind fun _ =>
      .ite (fun _ => mirrors_pure _) fun _ => mirrors_pure _

theorem mirrors_eraseAlignedRange (start stop : Nat) (up : Bool) :
    Mirrors (Twin (A V) M) (eraseAlignedRange io inst start stop up : Prog (Machine σ κ) _)
      (eraseAlignedRange io' inst start stop up) fun _ => Twin (A V) M := by
  refine .ite (fun _ => mirrors_pure _) fun _ => .ite (fun _ => mirrors_pure _) fun _ =>
    .ite (fun _ => ?_) fun _ => mirrors_pure _
  exact (mirrors_eraseWithFeed hio hinst.old _ _).bind fun _ =>
    .ite (fun _ => mirrors_pure _) fun _ => mirrors_pure _

theorem mirrors_swapCommit :
    Mirrors (Twin (A V) M) (swapCommit io cfg inst : Prog (Machine σ κ) _)
      (swapCommit io' cfg inst) fun _ => Twin (A V) M := by
  refine .ite (fun _ => mirrors_pure _) fun _ =>
    (mirrors_eraseAlignedRange hio hinst _ _ _).bind_of
      (keepsFiles_eraseAlignedRange io inst _ _ _) fun r hr => ?_
  rcases r with _ | mid
  · exact mirrors_pure _
  have hmid := hinst.same (hr mid rfl)
  refine (mirrors_copyToOld hio cfg hmid _).bind fun _ =>
    .ite (fun _ => ?_) fun _ => mirrors_pure _
  refine (mirrors_emit _).bind fun _ => mirrors_swapReset hio cfg ?_
  exact ⟨hmid.patch, hmid.read, hmid.old, hmid.swap⟩

theorem mirrors_doWriteNew (data : List UInt8) :
    Mirrors (Twin (A V) M) (doWriteNew io cfg inst data : Prog (Machine σ κ) _)
      (doWriteNew io' cfg inst data) fun _ => Twin (A V) M := by
  refine .bind (.iterate (fun c hc => ?_)
    (fun c hc => keepsFiles_writeNewRound io cfg inst hc) _ _ (SameFiles.refl inst))
    fun _ => mirrors_pure _
  have hround := hinst.same hc
  refine .ite (fun _ => mirrors_pure _) fun _ =>
    .bind_of (P := KeepsFiles c.1) (B := fun _ => Twin (A V) M) ?_ ?_ fun r hr => ?_
  · exact .ite (fun _ => mirrors_swapAppend hio cfg hround _) fun _ => mirrors_pure _
  · exact .ite (keepsFiles_swapAppend io cfg c.1 _)
      (.pure (keepsFiles_some (.refl c.1)))
  rcases r with _ | mid
  · exact mirrors_pure _
  refine .ite (fun _ => ?_) fun _ => mirrors_pure _
  refine (mirrors_swapCommit hio cfg (hround.same (hr mid rfl))).bind fun r => ?_
  rcases r with _ | last <;> exact mirrors_pure _

theorem mirrors_doReadPatch (size : Nat) :
    Mirrors (Twin (A V) M) (doReadPatch io inst size : Prog (Machine σ κ) _)
      (doReadPatch io' inst size) fun _ => Twin (A V) M := by
  unfold doReadPatch
  split
  · exact mirrors_pure _
  dsimp only
  split
  · exact mirrors_pure _
  refine (mirrors_ioRead hio hinst.patch _ _).bind fun r => ?_
  rcases r with _ | data <;> exact mirrors_pure _

omit hinst in
theorem mirrors_runPatch (p : Patcher) (hinst : inst.Over (Opened V) (Opened V)) :
    Mirrors (Twin (A V) M) (runPatch io cfg p inst : Prog (Machine σ κ) _)
      (runPatch io' cfg p inst) fun _ => Twin (A V) M := by
  induction p generalizing inst with
  | done success => exact mirrors_pure _
  | readPatch size next ih =>
      rw [runPatch, runPatch]
      refine (mirrors_doReadPatch hio hinst size).bind_of (over_doReadPatch io hinst size) ?_
      rintro ⟨answer, last⟩ hlast
      exact .ite (fun _ => ih answer.data hlast) fun _ => mirrors_pure _
  | readOld addr size next ih =>
      rw [runPatch, runPatch]
      refine .bind ((mirrors_ioRead hio hinst.read _ _).bind fun _ => mirrors_pure _)
        fun r => ?_
      rcases r with _ | data
      · exact mirrors_pure _
      · exact ih data hinst
  | writeNew data next ih =>
      rw [runPatch, runPatch]
      refine (mirrors_doWriteNew hio cfg hinst data).bind_of
        (keepsFiles_doWriteNew io cfg inst data) fun r hr => ?_
      rcases r with _ | last
      · exact mirrors_pure _
      · exact ih (hinst.same (hr last rfl))

theorem mirrors_hpatchFinish :
    Mirrors (Twin (A V) M) (hpatchFinish io inst : Prog (Machine σ κ) _)
      (hpatchFinish io' inst) fun _ => Twin (A V) M := by
  refine (mirrors_onDev (hio.sizes hinst.read)).bind fun size => ?_
  rcases size with _ | size
  · refine (mirrors_pure _).bind fun r => ?_
    rcases r with _ | last <;> exact mirrors_pure _
  · refine .ite (fun _ => (mirrors_eraseAlignedRange hio hinst _ _ _).bind fun r => ?_)
      fun _ => (mirrors_pure _).bind fun r => ?_
    all_goals rcases r with _ | last <;> exact mirrors_pure _

end Patch

/-- The instance, if there is one, is over targets that have been opened by then. -/
def SwapOpened (A : (TargetId → Prop) → σ → τ → Prop) (M : κ → κ → Prop)
    (V : TargetId → Prop) (r : Option HpatchInst) (m : Machine σ κ) (n : Machine τ κ) : Prop :=
  ∃ V' : { V' : TargetId → Prop // ∀ id, V id → V' id },
    LeavesOver (Opened V'.1) (Opened V'.1) r ∧ Twin (A V'.1) M m n

/-- The parts of an environment that work on the storage. -/
structure Storage (τ : Type) where
  io : IoOps τ
  parser : HeaderParserOps τ
  malloc : Nat → Prog τ Bool
  malloc_zero : ∀ s, (malloc 0 s).1 = false

def Env.over (env : Env σ κ) (st : Storage τ) : Env τ κ where
  build := env.build
  io := st.io
  crc := env.crc
  parser := st.parser
  tables := env.tables
  hpatch :=
    { cfg := env.hpatch.cfg
      malloc := st.malloc
      malloc_zero := st.malloc_zero
      hpiPatch := env.hpatch.hpiPatch }
  productCode := env.productCode
  usingAppCheck := env.usingAppCheck

/-- The storages of two environments mirror each other. -/
structure MirrorsStorage (env : Env σ κ) (st : Storage τ)
    (A : (TargetId → Prop) → σ → τ → Prop) : Prop extends MirrorsIo env.io st.io A where
  mallocs : ∀ V size, Mirrors (A V) (env.hpatch.malloc size) (st.malloc size) fun _ => A V
  signReads : ∀ {V} {h : Handle}, Opened V h → ∀ info,
    Mirrors (A V) (env.parser.signRead h info) (st.parser.signRead h info) fun _ => A V
  signWrites : ∀ {V} {h : Handle}, Opened V h → ∀ info,
    Mirrors (A V) (env.parser.signWrite h info) (st.parser.signWrite h info) fun _ => A V

section Driver

variable {dst : Handle} (hsrc : Opened V src) (hdst : Opened V dst)

theorem mirrors_swapInit (hio : MirrorsIo io io' A) (cfg : HpatchConfig) {inst : HpatchInst}
    (hinst : inst.Over (Opened V) (Opened V)) :
    Mirrors (Twin (A V) M) (swapInit io cfg inst : Prog (Machine σ κ) _)
      (swapInit io' cfg inst) (SwapOpened A M V) := by
  have hmore (opened : Bool) : ∀ id, V id → OpenedBy V .swap opened id := fun _ => .inl
  have hnone (opened : Bool) : ∀ m n, Twin (A (OpenedBy V .swap opened)) M m n →
      SwapOpened A M V none m n :=
    fun _ _ hmn => ⟨⟨_, hmore opened⟩, leavesOver_none, hmn⟩
  refine .ite (fun _ => ?_) fun _ => .pure fun _ _ hmn => ⟨⟨V, fun _ h => h⟩, ?_, hmn⟩
  · refine (mirrors_targetOpen hio .swap .writeCreate).bind_of
      (targetOpen_target io _ _) fun o ho => ?_
    rcases o with ⟨_ | part, _ | size⟩
    · exact .pure (hnone _)
    · exact .pure (hnone _)
    · exact .pure (hnone _)
    have hpart : Opened (OpenedBy V .swap true) part := .inr ⟨rfl, ho _ rfl⟩
    refine .ite (fun _ => ?_) fun _ => ?_
    · exact (mirrors_targetClose hio hpart).bind fun _ => .pure (hnone _)
    refine (mirrors_eraseWithFeed hio hpart _ _).bind fun _ => .ite (fun _ => ?_) fun _ => ?_
    · refine .pure fun _ _ hmn => ⟨⟨_, hmore true⟩, leavesOver_some ?_, hmn⟩
      refine ⟨.inl hinst.patch, .inl hinst.read, .inl hinst.old, ?_⟩
      rintro _ _ ⟨⟩
      exact ⟨ho _ rfl, hpart, hpart⟩
    · exact (mirrors_targetClose hio hpart).bind fun _ => .pure (hnone _)
  · refine leavesOver_some ⟨hinst.patch, hinst.read, hinst.old, ?_⟩
    rintro _ _ ⟨⟩

variable {env : Env σ κ} {st : Storage τ} (hst : MirrorsStorage env st A)
include hst

theorem mirrors_patchAndCommit {inst : HpatchInst} (hinst : inst.Over (Opened V) (Opened V)) :
    Mirrors (Twin (A V) M) (patchAndCommit env.io env.hpatch inst : Prog (Machine σ κ) _)
      (patchAndCommit st.io (env.over st).hpatch inst) fun r m n =>
        LeavesOver (Opened V) (Opened V) r ∧ Twin (A V) M m n := by
  refine (mirrors_runPatch hst.toMirrorsIo env.hpatch.cfg env.hpatch.hpiPatch hinst).bind_of
    (over_runPatch _ _ hinst) fun r hr => ?_
  rcases r with _ | inst
  · exact .pure fun _ _ hmn => ⟨leavesOver_none, hmn⟩
  have hover := hr inst rfl
  refine ((mirrors_swapCommit hst.toMirrorsIo env.hpatch.cfg hover).yields
    (keepsFiles_swapCommit _ _ _)).post fun r m n hmn => ⟨?_, hmn.2⟩
  exact fun inst' hsome => hover.same (hmn.1 inst' hsome)

include hsrc hdst

theorem mirrors_hpatchliteReleaseFromPart (patchLen newLen : Int) (off : Nat) :
    Mirrors (Twin (A V) M)
      (hpatchliteReleaseFromPart env.io env.hpatch src dst patchLen newLen off :
        Prog (Machine σ κ) _)
      (hpatchliteReleaseFromPart st.io (env.over st).hpatch src dst patchLen newLen off)
      fun _ => Twin (A V) M := by
  have hio := hst.toMirrorsIo
  refine (mirrors_onDev (hio.aligns hdst)).bind fun align => ?_
  rcases align with _ | align
  · exact mirrors_pure _
  refine .ite (fun _ => mirrors_pure _) fun _ =>
    (mirrors_onDev (hst.mallocs V _)).bind fun _ => .ite (fun _ => ?_) fun _ => mirrors_pure _
  refine (mirrors_swapInit hio _ ⟨hsrc, hdst, hdst, by rintro _ _ ⟨⟩⟩).bind fun r =>
    .exists_rel fun V' => .assume fun hover => ?_
  have hback : ∀ {m n}, Twin (A V'.1) M m n → Twin (A V) M m n := fun hmn =>
    { hmn with dev := hio.mono V'.2 hmn.dev }
  rcases r with _ | inst
  · exact .pure fun _ _ hmn => hback hmn
  have hinst := hover inst rfl
  have hclose : Mirrors (Twin (A V'.1) M) (swapDeinit env.io inst : Prog (Machine σ κ) _)
      (swapDeinit st.io inst) fun _ => Twin (A V'.1) M := by
    unfold swapDeinit
    split
    · exact mirrors_pure _
    · rename_i part size hflash
      exact mirrors_targetClose hio (hinst.swap _ _ hflash).2.1
  refine .post ((mirrors_patchAndCommit hst hinst).bind fun r => .assume fun hlast =>
    hclose.bind fun _ => ?_) fun _ _ _ hmn => hback hmn
  rcases r with _ | inst
  · exact mirrors_pure _
  · exact mirrors_hpatchFinish hio (hlast inst rfl)

end Driver

/-! ## Checks and release -/

section Stages

variable {A : σ → τ → Prop}

theorem mirrors_stageInit (stage : Stage) (init : Option (Prog κ RtErr)) :
    Mirrors (Twin A Eq) (stageInit stage init : Prog (Machine σ κ) _) (stageInit stage init)
      fun _ => Twin A Eq := by
  unfold stageInit
  rcases init with _ | init
  · exact mirrors_pure _
  · exact (mirrors_onMem (mirrors_same init)).bind fun _ =>
      (mirrors_emit _).bind fun _ => mirrors_pure _

theorem mirrors_stageDeinit (stage : Stage) (deinit : Option (Prog κ Unit)) :
    Mirrors (Twin A Eq) (stageDeinit stage deinit : Prog (Machine σ κ) _)
      (stageDeinit stage deinit) fun _ => Twin A Eq := by
  unfold stageDeinit
  rcases deinit with _ | deinit
  · exact mirrors_pure _
  · exact (mirrors_onMem (mirrors_same deinit)).bind fun _ => mirrors_emit _

theorem mirrors_fwAlgoInit (algo : AlgoContext κ) :
    Mirrors (Twin A Eq) (fwAlgoInit algo : Prog (Machine σ κ) _) (fwAlgoInit algo)
      fun _ => Twin A Eq := by
  refine (mirrors_stageInit _ _).bind fun _ => .ite (fun _ => ?_) fun _ => mirrors_pure _
  refine (mirrors_stageInit _ _).bind fun _ => .ite (fun _ => mirrors_pure _) fun _ => ?_
  exact (mirrors_stageDeinit _ _).bind fun _ => mirrors_pure _

theorem mirrors_fwAlgoDeinit (algo : AlgoContext κ) :
    Mirrors (Twin A Eq) (fwAlgoDeinit algo : Prog (Machine σ κ) _) (fwAlgoDeinit algo)
      fun _ => Twin A Eq :=
  (mirrors_stageDeinit _ _).bind fun _ => mirrors_stageDeinit _ _

end Stages

section Boot

variable {env : Env σ κ} {st : Storage τ} (hst : MirrorsStorage env st A) {dst : Handle}
include hst

theorem mirrors_fwInfoRead (hread : Opened V h) (partLen : Nat) (fromTail : Bool) :
    Mirrors (Twin (A V) Eq) (fwInfoRead env h partLen fromTail)
      (fwInfoRead (env.over st) h partLen fromTail) fun _ => Twin (A V) Eq := by
  refine .ite (fun _ => mirrors_pure _) fun _ =>
    (mirrors_ioRead hst.toMirrorsIo hread _ _).bind fun r => ?_
  rcases r with _ | bytes
  · exact mirrors_pure _
  · exact (mirrors_setFwInfo _).bind fun _ => mirrors_pure _

theorem mirrors_fwCrcCheck (hread : Opened V h) (addr size : Nat) (crc : UInt32) :
    Mirrors (Twin (A V) Eq) (fwCrcCheck env h addr size crc)
      (fwCrcCheck (env.over st) h addr size crc) fun _ => Twin (A V) Eq := by
  refine .bind (.iterate (I := fun _ => True) (Q := fun _ => True) (fun c _ => ?_)
    (fun c _ => ?_) _ _ trivial) fun _ => mirrors_pure _
  · refine .ite (fun _ => mirrors_pure _) fun _ =>
      (mirrors_ioRead hst.toMirrorsIo hread _ _).bind fun r => ?_
    rcases r with _ | data <;> exact mirrors_pure _
  · exact (Yields.any _).imp fun r _ => by cases r <;> trivial

theorem mirrors_appCrcCheck (hread : Opened V h) (info : FwInfo) :
    Mirrors (Twin (A V) Eq) (appCrcCheck env h info) (appCrcCheck (env.over st) h info)
      fun _ => Twin (A V) Eq := by
  unfold appCrcCheck
  rw [show (env.over st).tables = env.tables from rfl]
  rcases fwGetAlgoContext env.tables info with _ | algo
  · exact mirrors_pure _
  refine (mirrors_fwAlgoInit _).bind fun _ => .ite (fun _ => ?_) fun _ => mirrors_pure _
  refine (mirrors_fwStreamProcess hst.toMirrorsIo (mirrorsStages_same algo) info hread
    (.crc _) trivial).bind fun _ => ?_
  exact (mirrors_fwAlgoDeinit _).bind fun _ => mirrors_pure _

theorem mirrors_fwCheck (hread : Opened V h) (partLen : Nat) :
    Mirrors (Twin (A V) Eq) (fwCheck env h partLen) (fwCheck (env.over st) h partLen)
      fun _ => Twin (A V) Eq := by
  refine (mirrors_fwInfoRead hst hread _ _).bind fun _ =>
    .ite (fun _ => ?_) fun _ => mirrors_pure _
  refine mirrors_info.bind fun info => .ite (fun _ => mirrors_pure _) fun _ => ?_
  refine (mirrors_fwCrcCheck hst hread _ _ _).bind fun _ =>
    .ite (fun _ => ?_) fun _ => mirrors_pure _
  exact .ite (fun _ => mirrors_appCrcCheck hst hread _) fun _ => mirrors_pure _

theorem mirrors_destPartVerify (hread : Opened V h) (partLen : Nat) :
    Mirrors (Twin (A V) Eq) (destPartVerify env h partLen)
      (destPartVerify (env.over st) h partLen) fun _ => Twin (A V) Eq := by
  refine (mirrors_fwInfoRead hst hread _ _).bind fun _ =>
    .ite (fun _ => ?_) fun _ => mirrors_pure _
  refine mirrors_info.bind fun info => .ite (fun _ => mirrors_pure _) fun _ => ?_
  exact .ite (fun _ => mirrors_fwCrcCheck hst hread _ _ _) fun _ => mirrors_pure _

variable (hsrc : Opened V src) (hdst : Opened V dst)
include hsrc hdst

theorem mirrors_streamRelease (dstSize : Nat) (info : FwInfo) (algo : AlgoContext κ) :
    Mirrors (Twin (A V) Eq) (streamRelease env dst dstSize src info algo)
      (streamRelease (env.over st) dst dstSize src info algo) fun _ => Twin (A V) Eq := by
  have hdeinit (ok : Bool) : Mirrors (Twin (A V) Eq) (do
        fwAlgoDeinit algo
        pure ok : Prog (Machine σ κ) Bool) (do
        fwAlgoDeinit algo
        pure ok) fun _ => Twin (A V) Eq :=
    (mirrors_fwAlgoDeinit algo).bind fun _ => mirrors_pure _
  refine (mirrors_eraseWithFeed hst.toMirrorsIo hdst _ _).bind fun _ =>
    .ite (fun _ => ?_) fun _ => hdeinit false
  refine (mirrors_eraseWithFeed hst.toMirrorsIo hdst _ _).bind fun _ =>
    .ite (fun _ => ?_) fun _ => hdeinit false
  exact (mirrors_fwStreamProcess hst.toMirrorsIo (mirrorsStages_same algo) info hsrc
    (.write ⟨dst, 0, info.rawSize.toNat⟩) hdst).bind fun r => hdeinit r.1

theorem mirrors_fwRelease (dstSize : Nat) (info : FwInfo) :
    Mirrors (Twin (A V) Eq) (fwRelease env dst dstSize src info)
      (fwRelease (env.over st) dst dstSize src info) fun _ => Twin (A V) Eq := by
  unfold fwRelease
  rw [show (env.over st).tables = env.tables from rfl]
  rcases fwGetAlgoContext env.tables info with _ | algo
  · exact mirrors_pure _
  refine (mirrors_fwAlgoInit _).bind fun _ => .ite (fun _ => ?_) fun _ => mirrors_pure _
  have hhead (released : Bool) : Mirrors (Twin (A V) Eq)
      (if released then fwInfoWrite env dst dstSize info true else pure false)
      (if released then fwInfoWrite (env.over st) dst dstSize info true else pure false)
      fun _ => Twin (A V) Eq :=
    .ite (fun _ => mirrors_ioWrite hst.toMirrorsIo hdst _ _) fun _ => mirrors_pure _
  refine .ite (fun _ => .bind ?_ hhead) fun _ =>
    (mirrors_streamRelease hst hsrc hdst dstSize info algo).bind hhead
  refine (mirrors_hpatchliteReleaseFromPart hsrc hdst hst _ _ _).bind fun _ =>
    .ite (fun _ => ?_) fun _ => mirrors_pure _
  exact (mirrors_fwAlgoDeinit _).bind fun _ => mirrors_pure _

theorem mirrors_fwUpdate (dstSize : Nat) :
    Mirrors (Twin (A V) Eq) (fwUpdate env dst dstSize src)
      (fwUpdate (env.over st) dst dstSize src) fun _ => Twin (A V) Eq := by
  refine mirrors_info.bind fun info =>
    (mirrors_fwRelease hst hsrc hdst dstSize info).bind fun released => ?_
  have hanswer (ok : Bool) : Mirrors (Twin (A V) Eq) (do
        emit (.updated dst.target ok)
        pure ok : Prog (Machine σ κ) Bool) (do
        emit (.updated dst.target ok)
        pure ok) fun _ => Twin (A V) Eq :=
    (mirrors_emit _).bind fun _ => mirrors_pure _
  exact .ite (fun _ => (mirrors_destPartVerify hst hdst dstSize).bind hanswer)
    fun _ => hanswer false

theorem mirrors_resumeOpened (srcSize dstSize : Nat) :
    Mirrors (Twin (A V) Eq) (resumeOpened env src srcSize dst dstSize)
      (resumeOpened (env.over st) src srcSize dst dstSize) fun _ => Twin (A V) Eq := by
  refine (mirrors_fwCheck hst hsrc srcSize).bind fun _ =>
    .ite (fun _ => ?_) fun _ => mirrors_pure _
  refine (mirrors_info.bind fun _ => mirrors_pure _).bind fun _ =>
    .ite (fun _ => ?_) fun _ => mirrors_pure _
  exact mirrors_info.bind fun info =>
    .ite (fun _ => mirrors_fwUpdate hst hsrc hdst dstSize) fun _ => mirrors_pure _

omit hdst in
theorem mirrors_releaseSignCheck :
    Mirrors (Twin (A V) Eq) (releaseSignCheck env src) (releaseSignCheck (env.over st) src)
      fun _ => Twin (A V) Eq :=
  mirrors_info.bind fun info =>
    (mirrors_onDev (hst.signReads hsrc info)).bind fun _ => mirrors_pure _

theorem mirrors_updateAndSign (dstSize : Nat) :
    Mirrors (Twin (A V) Eq) (updateAndSign env dst dstSize src)
      (updateAndSign (env.over st) dst dstSize src) fun _ => Twin (A V) Eq := by
  refine (mirrors_fwUpdate hst hsrc hdst dstSize).bind fun _ =>
    .ite (fun _ => ?_) fun _ => mirrors_pure _
  refine (mirrors_releaseSignCheck hst hsrc).bind fun _ => .ite (fun _ => ?_)
    fun _ => mirrors_pure _
  refine .bind ?_ fun _ => mirrors_pure _
  exact mirrors_info.bind fun info => (mirrors_onDev (hst.signWrites hsrc info)).bind fun _ =>
    (mirrors_emit _).bind fun _ => mirrors_pure _

end Boot

/-! ## The boot thread -/

section Thread

variable {env : Env σ κ} {st : Storage τ} (hst : MirrorsStorage env st A)
include hst

theorem mirrors_opening {id : TargetId} {opened : Bool}
    {x : Prog (Machine σ κ) α} {y : Prog (Machine τ κ) α}
    (hxy : Mirrors (Twin (A (OpenedBy V id opened)) M) x y
      fun _ => Twin (A (OpenedBy V id opened)) M) :
    Mirrors (Twin (A (OpenedBy V id opened)) M) x y fun _ => Twin (A V) M :=
  hxy.post fun _ _ _ hmn => { hmn with dev := hst.mono (fun _ => .inl) hmn.dev }

theorem mirrors_appResumeFrom (srcId : TargetId) :
    Mirrors (Twin (A V) Eq) (appResumeFrom env srcId) (appResumeFrom (env.over st) srcId)
      fun _ => Twin (A V) Eq := by
  refine (mirrors_targetOpen hst.toMirrorsIo srcId .read).bind_of
    (targetOpen_target _ _ _) fun o ho => mirrors_opening hst ?_
  rcases o with ⟨_ | src, _ | srcSize⟩
  · exact mirrors_pure _
  · exact mirrors_pure _
  · exact mirrors_pure _
  have hsrc : Opened (OpenedBy V srcId true) src := .inr ⟨rfl, ho _ rfl⟩
  refine (mirrors_targetOpen hst.toMirrorsIo .app .writeCreate).bind_of
    (targetOpen_target _ _ _) fun o ho => mirrors_opening hst ?_
  have hfail (opened : Bool) : Mirrors (Twin (A (OpenedBy _ .app opened)) Eq) (do
        targetClose env.io src
        pure false : Prog (Machine σ κ) Bool) (do
        targetClose st.io src
        pure false) fun _ => Twin (A (OpenedBy _ .app opened)) Eq :=
    (mirrors_targetClose hst.toMirrorsIo (.inl hsrc)).bind fun _ => mirrors_pure _
  rcases o with ⟨_ | dst, _ | dstSize⟩
  · exact hfail _
  · exact hfail _
  · exact hfail _
  have hdst : Opened (OpenedBy (OpenedBy V srcId true) .app true) dst := .inr ⟨rfl, ho _ rfl⟩
  refine (mirrors_resumeOpened hst (.inl hsrc) hdst srcSize dstSize).bind fun _ => ?_
  refine (mirrors_targetClose hst.toMirrorsIo (.inl hsrc)).bind fun _ => ?_
  exact (mirrors_targetClose hst.toMirrorsIo hdst).bind fun _ => mirrors_pure _

theorem mirrors_releaseOpened {src : Handle} (hsrc : Opened V src) (srcSize : Nat)
    (checkSign : Bool) :
    Mirrors (Twin (A V) Eq) (releaseOpened env src srcSize checkSign)
      (releaseOpened (env.over st) src srcSize checkSign) fun _ => Twin (A V) Eq := by
  refine (mirrors_fwCheck hst hsrc srcSize).bind fun _ =>
    .ite (fun _ => ?_) fun _ => mirrors_pure _
  refine (mirrors_info.bind fun _ => mirrors_pure _).bind fun _ =>
    .ite (fun _ => ?_) fun _ => mirrors_pure _
  refine Mirrors.bind (B := fun _ => Twin (A V) Eq) ?_ fun _ =>
    .ite (fun _ => mirrors_pure _) fun _ => ?_
  · exact .ite (fun _ => mirrors_releaseSignCheck hst hsrc) fun _ => mirrors_pure _
  refine mirrors_info.bind fun info => ?_
  rw [show (env.over st).hpatch.cfg = env.hpatch.cfg from rfl]
  rcases nameToId env.hpatch.cfg.useStorageSwap info.fromPartName with _ | dstId
  · exact mirrors_pure _
  refine (mirrors_targetOpen hst.toMirrorsIo dstId .writeCreate).bind_of
    (targetOpen_target _ _ _) fun o ho => mirrors_opening hst ?_
  rcases o with ⟨_ | dst, size⟩
  · exact mirrors_pure _
  have hdst : Opened (OpenedBy V dstId true) dst := .inr ⟨rfl, ho _ rfl⟩
  have hclose (rst : Bool) : Mirrors (Twin (A (OpenedBy V dstId true)) Eq) (do
        targetClose env.io dst
        pure rst : Prog (Machine σ κ) Bool) (do
        targetClose st.io dst
        pure rst) fun _ => Twin (A (OpenedBy V dstId true)) Eq :=
    (mirrors_targetClose hst.toMirrorsIo hdst).bind fun _ => mirrors_pure _
  rcases size with _ | dstSize
  · exact hclose false
  · exact (mirrors_updateAndSign hst (.inl hsrc) hdst dstSize).bind hclose

theorem mirrors_releaseFromPart (srcId : TargetId) (checkSign : Bool) :
    Mirrors (Twin (A V) Eq) (releaseFromPart env srcId checkSign)
      (releaseFromPart (env.over st) srcId checkSign) fun _ => Twin (A V) Eq := by
  refine (mirrors_emit _).bind fun _ => (mirrors_targetOpen hst.toMirrorsIo srcId .read).bind_of
    (targetOpen_target _ _ _) fun o ho => mirrors_opening hst ?_
  generalize hV : OpenedBy V srcId o.1.isSome = V'
  have hend (rst : Bool) : Mirrors (Twin (A V') Eq) (do
        emit (.released srcId checkSign rst)
        pure rst : Prog (Machine σ κ) Bool) (do
        emit (.released srcId checkSign rst)
        pure rst) fun _ => Twin (A V') Eq :=
    (mirrors_emit _).bind fun _ => mirrors_pure _
  rcases o with ⟨_ | src, _ | srcSize⟩
  · exact (mirrors_pure _).bind hend
  · exact (mirrors_pure _).bind hend
  · exact (mirrors_pure _).bind hend
  have hsrc : Opened V' src := hV ▸ .inr ⟨rfl, ho _ rfl⟩
  exact (mirrors_releaseOpened hst hsrc srcSize checkSign).bind fun rst =>
    (mirrors_targetClose hst.toMirrorsIo hsrc).bind fun _ => (mirrors_pure rst).bind hend

end Thread

def BootInputs.over (inp : BootInputs σ) (poll : Option (Prog τ Unit)) : BootInputs τ :=
  { inp with updateMgrPoll := poll }

/-- What the update managers do to the two storages. -/
def MirrorsPoll (A : (TargetId → Prop) → σ → τ → Prop) :
    Option (Prog σ Unit) → Option (Prog τ Unit) → Prop
  | none, none => True
  | some poll, some poll' => ∀ V, Mirrors (A V) poll poll' fun _ => A V
  | _, _ => False

section Jump

variable {A : σ → τ → Prop} (inp : BootInputs σ) (poll : Option (Prog τ Unit))
  {x : Prog (Machine σ κ) Unit} {y : Prog (Machine τ κ) Unit}
  (hxy : Mirrors (Twin A M) x y fun _ => Twin A M)
include hxy

theorem mirrors_jumpToAppThen : Mirrors (Twin A M) (jumpToAppThen inp x)
    (jumpToAppThen (inp.over poll) y) fun _ => Twin A M :=
  (mirrors_emit _).bind fun _ => .ite (fun _ => hxy) fun _ => mirrors_pure _

theorem mirrors_unlessShell (waitPressKey : Bool) :
    Mirrors (Twin A M) (unlessShell inp waitPressKey x)
      (unlessShell (inp.over poll) waitPressKey y) fun _ => Twin A M :=
  .ite (fun _ => mirrors_pure _) fun _ => hxy

end Jump

section Thread

variable {env : Env σ κ} {st : Storage τ} (hst : MirrorsStorage env st A)
  (inp : BootInputs σ) {poll : Option (Prog τ Unit)}
include hst

theorem mirrors_resumeThen (srcId : TargetId) {x : Prog (Machine σ κ) Unit}
    {y : Prog (Machine τ κ) Unit}
    (hxy : Mirrors (Twin (A V) Eq) x y fun _ => Twin (A V) Eq) :
    Mirrors (Twin (A V) Eq) (resumeThen env inp srcId x)
      (resumeThen (env.over st) (inp.over poll) srcId y) fun _ => Twin (A V) Eq :=
  (mirrors_appResumeFrom hst srcId).bind fun _ =>
    .ite (fun _ => mirrors_jumpToAppThen inp poll hxy) fun _ => hxy

theorem mirrors_bootRelease : Mirrors (Twin (A V) Eq) (bootRelease env inp)
    (bootRelease (env.over st) (inp.over poll)) fun _ => Twin (A V) Eq := by
  refine (mirrors_releaseFromPart hst .download true).bind fun _ =>
    mirrors_jumpToAppThen inp poll ?_
  refine mirrors_resumeThen hst inp .download (mirrors_resumeThen hst inp .factory ?_)
  exact (mirrors_emit _).bind fun _ => mirrors_unlessShell inp poll (mirrors_emit _) false

variable (hpoll : MirrorsPoll A inp.updateMgrPoll poll)
include hpoll

theorem mirrors_bootMain : Mirrors (Twin (A V) Eq) (bootMain env inp)
    (bootMain (env.over st) (inp.over poll)) fun _ => Twin (A V) Eq := by
  refine mirrors_unlessShell inp poll ?_ true
  rw [show (inp.over poll).updateMgrPoll = poll from rfl]
  rcases hmgr : inp.updateMgrPoll with _ | run <;> rw [hmgr] at hpoll <;>
    rcases poll with _ | run'
  · exact mirrors_bootRelease hst inp
  · exact absurd hpoll id
  · exact absurd hpoll id
  · exact (mirrors_onDev (hpoll V)).bind fun _ =>
      (mirrors_emit _).bind fun _ => mirrors_bootRelease hst inp

/-- The boot thread runs alike on storages that mirror each other. -/
theorem mirrors_threadEntry : Mirrors (Twin (A V) Eq) (threadEntry env inp)
    (threadEntry (env.over st) (inp.over poll)) fun _ => Twin (A V) Eq := by
  refine .ite (fun _ => mirrors_unlessShell inp poll (mirrors_emit _) false) fun _ => ?_
  exact .ite (fun _ => mirrors_resumeThen hst inp .factory (mirrors_bootMain hst inp hpoll))
    fun _ => mirrors_bootMain hst inp hpoll

end Thread

end Qboot
